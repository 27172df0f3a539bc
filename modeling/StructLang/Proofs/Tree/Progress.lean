import StructLang.Proofs.Place
import StructLang.Proofs.Tree.Ending

namespace StructLang

namespace Parse

/-- The tokens of `ts` before `us` have been taken, and no end mark is among them. -/
def ComesTo (ts us : List Token) : Prop :=
  ∃ taken, ts = taken ++ us ∧ ∀ t ∈ taken, t.kind ≠ .eof

/-- How `ts` are refused: at the next token, which does not fit, or at a name that was taken and is
reserved. -/
inductive Refused (fr : Frame) (ts : List Token) : Failure → Prop
  | next (expected : String) : ComesTo ts us →
      Refused fr ts
        ⟨.unexpected expected (us.headD fr.eof).describe, fr.place (us.headD fr.eof)⟩
  | reserved : ComesTo ts (t :: us) → t.isName → Library.reserved t.text →
      Refused fr ts ⟨.reservedName t.text none, fr.place t⟩

variable {fr : Frame} {ts : List Token}

theorem ComesTo.refl (ts : List Token) : ComesTo ts ts := ⟨[], rfl, nofun⟩

theorem ComesTo.advance {t : Token} {us : List Token} (h : ComesTo ts (t :: us))
    (ht : t.kind ≠ .eof) : ComesTo ts us := by
  obtain ⟨taken, rfl, htaken⟩ := h
  refine ⟨taken ++ [t], by simp, ?_⟩
  exact List.forall_mem_append.2 ⟨htaken, List.forall_mem_singleton.2 ht⟩

theorem keeps_comesTo : Keeps fr (ComesTo ts) (fun _ => True) (Refused fr ts) where
  place _ := trivial
  advance h ht := h.advance ht
  stop expected h := .next expected h
  reserved h hname hreserved := .reserved h hname hreserved

inductive Part where
  | symbol (s : String) | nameToken | typeName | returnType | ascription
  | binary (min : Nat) | binaryTail (min : Nat) (left : Tree)
  | operand | operandTail (e : Tree) | primary
  | arguments | argumentsTail
  | statement | bodyTail
  | parameter | parametersTail | parameters
  | aliasStatement | functionStatement | callStatement

namespace Part

def run (fr : Frame) (ts : List Token) : Part → Except Failure (List Token)
  | symbol s => do return (← Parse.symbol fr s ts).rest
  | nameToken => do return (← Parse.nameToken fr ts).rest
  | typeName => do return (← Parse.typeName fr ts).rest
  | returnType => do return (← Parse.returnType fr ts).rest
  | ascription => do return (← Parse.ascription fr ts).rest
  | binary min => do return (← Parse.binary fr min ts).rest
  | binaryTail min left => do return (← Parse.binaryTail fr min left ts).rest
  | operand => do return (← Parse.operand fr ts).rest
  | operandTail e => do return (← Parse.operandTail fr e ts).rest
  | primary => do return (← Parse.primary fr ts).rest
  | arguments => do return (← Parse.arguments fr ts).rest
  | argumentsTail => do return (← Parse.argumentsTail fr ts).rest
  | statement => do return (← Parse.statement fr ts).rest
  | bodyTail => do return (← Parse.bodyTail fr ts).rest
  | parameter => do return (← Parse.parameter fr ts).rest
  | parametersTail => do return (← Parse.parametersTail fr ts).rest
  | parameters => do return (← Parse.parameters fr ts).rest
  | aliasStatement => do return (← Parse.aliasStatement fr ts).rest
  | functionStatement => do return (← Parse.functionStatement fr ts).rest
  | callStatement => do return (← Parse.callStatement fr ts).rest

def mayBeEmpty : Part → Bool
  | ascription | binaryTail _ _ | operandTail _ | arguments | argumentsTail | parametersTail
  | parameters => true
  | _ => false

end Part

structure Part.Leaves (part : Part) (ts us : List Token) : Prop where
  comesTo : ComesTo ts us
  shorter : part.mayBeEmpty = false → us.length < ts.length

theorem Reads.leaves {α : Type} {Q : α → Prop} {x : Except Failure (Parsed α ts)}
    (h : Reads (ComesTo ts) (Refused fr ts) Q x) (part : Part) :
    Yields (do return (← x).rest) (part.Leaves ts) (Refused fr ts) :=
  Yields.bind h fun p hp => .ok ⟨hp.2, fun _ => p.shorter⟩

theorem Continues.leaves {α : Type} {Q : α → Prop} {x : Except Failure (Continued α ts)}
    (h : Continues (ComesTo ts) (Refused fr ts) Q x) {part : Part}
    (hpart : part.mayBeEmpty = true) :
    Yields (do return (← x).rest) (part.Leaves ts) (Refused fr ts) :=
  Yields.bind h fun p hp => .ok ⟨hp.2, fun hfull => by simp [hpart] at hfull⟩

theorem Part.run_yields (part : Part) (fr : Frame) (ts : List Token) :
    Yields (part.run fr ts) (part.Leaves ts) (Refused fr ts) := by
  have hk : Keeps fr (ComesTo ts) (fun _ => True) (Refused fr ts) := keeps_comesTo
  have h := ComesTo.refl ts
  cases part with
  | symbol s => exact (symbol_reads hk h s).leaves _
  | nameToken => exact (nameToken_reads hk h).leaves _
  | typeName => exact (typeName_reads hk h).leaves _
  | returnType => exact (returnType_reads hk h).leaves _
  | ascription => exact (ascription_continues hk h).leaves rfl
  | binary min => exact (binary_reads hk h).leaves _
  | binaryTail min left => exact (binaryTail_continues hk h (fun _ _ => trivial)).leaves rfl
  | operand => exact (operand_reads hk h).leaves _
  | operandTail e => exact (operandTail_continues hk h (fun _ _ => trivial)).leaves rfl
  | primary => exact (primary_reads hk h).leaves _
  | arguments => exact (arguments_continues hk h).leaves rfl
  | argumentsTail => exact (argumentsTail_continues hk h).leaves rfl
  | statement => exact (statement_reads hk h).leaves _
  | bodyTail => exact (bodyTail_reads hk h).leaves _
  | parameter => exact (parameter_reads hk h).leaves _
  | parametersTail => exact (parametersTail_continues hk h).leaves rfl
  | parameters => exact (parameters_continues hk h).leaves rfl
  | aliasStatement => exact (aliasStatement_reads hk h).leaves _
  | functionStatement => exact (functionStatement_reads hk h).leaves _
  | callStatement => exact (callStatement_reads hk h).leaves _

theorem topStatement_yields {t : Token} (ht : t.isName) (fr : Frame) (ts : List Token) :
    Yields (topStatement fr t ts)
      (fun p => ComesTo (t :: ts) p.rest ∧ p.rest.length < (t :: ts).length)
      (Refused fr (t :: ts)) :=
  Yields.mono (topStatement_reads keeps_comesTo ht (ComesTo.refl _))
    (fun p hp => ⟨hp.2, p.shorter⟩) fun _ => id

def upToEnd (ts : List Token) : List Token :=
  ts.takeWhile (·.kind != .eof) ++ (ts.find? (·.kind == .eof)).toList

theorem split_at_end {before : List Token} {e : Token} (hbefore : ∀ t ∈ before, t.kind ≠ .eof)
    (he : e.kind = .eof) (after : List Token) :
    (before ++ e :: after).takeWhile (·.kind != .eof) = before ∧
      (before ++ e :: after).find? (·.kind == .eof) = some e := by
  constructor
  · rw [List.takeWhile_append_of_pos (by simpa using hbefore)]
    simp [he]
  · rw [List.find?_append, List.find?_eq_none.2 (by simpa using hbefore)]
    simp [he]

theorem upToEnd_spec (ts : List Token) :
    (upToEnd ts).takeWhile (·.kind != .eof) = ts.takeWhile (·.kind != .eof) ∧
      endToken (upToEnd ts) = endToken ts ∧ (upToEnd ts).head? = ts.head? := by
  cases hfind : ts.find? (·.kind == .eof) with
  | none =>
    have hall : ts.takeWhile (·.kind != .eof) = ts := by
      rw [List.takeWhile_eq_self_iff]
      simpa using hfind
    have hsame : upToEnd ts = ts := by simp [upToEnd, hfind, hall]
    rw [hsame]
    exact ⟨rfl, rfl, rfl⟩
  | some e =>
    obtain ⟨he, before, after, rfl, hbefore⟩ := List.find?_eq_some_iff_append.1 hfind
    have heof : e.kind = .eof := eq_of_beq he
    have hnone : ∀ t ∈ before, t.kind ≠ .eof := by simpa using hbefore
    obtain ⟨htake, hend⟩ := split_at_end hnone heof after
    obtain ⟨htake', hend'⟩ := split_at_end hnone heof []
    have hcut : upToEnd (before ++ e :: after) = before ++ [e] := by
      rw [upToEnd, htake, hend]
      rfl
    rw [hcut, htake, htake', endToken, endToken, hend, hend']
    refine ⟨rfl, rfl, ?_⟩
    cases before <;> rfl

end Parse

namespace Tree

open Parse

theorem parse_advances (file : String) (ts : List Token) :
    Yields (parse file ts)
        (fun tree => ∃ ss, tree = .program ss file (some ((ts.headD (endToken ts)).span file)))
        (Refused ⟨file, endToken ts⟩ ts) ∧
      parse file (upToEnd ts) = parse file ts ∧
      (∀ part fr us, Yields (Part.run fr us part) (part.Leaves us) (Refused fr us)) ∧
      ∀ t fr us, t.isName → Yields (topStatement fr t us)
        (fun p => ComesTo (t :: us) p.rest ∧ p.rest.length < (t :: us).length)
        (Refused fr (t :: us)) := by
  refine ⟨?_, ?_, Part.run_yields, fun t fr us ht => topStatement_yields ht fr us⟩
  · exact (statements_yields keeps_comesTo (.refl ts)).bind fun ss _ => .ok ⟨ss, rfl⟩
  · obtain ⟨htake, hend, hhead⟩ := upToEnd_spec ts
    have hfirst : (upToEnd ts).headD (endToken ts) = ts.headD (endToken ts) := by
      rw [List.headD_eq_head?_getD, List.headD_eq_head?_getD, hhead]
    rw [parse_eq, parse_eq, htake, hend, hfirst]

namespace Samples

def cutOff : List Token := [
  ⟨.identifier, "f", 1, 1⟩, ⟨.symbol, "(", 1, 2⟩, ⟨.identifier, "x", 1, 3⟩, ⟨.symbol, ")", 1, 4⟩,
  ⟨.symbol, ";", 1, 5⟩, ⟨.eof, "", 1, 6⟩, ⟨.identifier, "g", 2, 1⟩, ⟨.symbol, "(", 2, 2⟩]

open MainFile (place)

def program : Tree := .program
  [.expr (.call (.name "f" (place 1 1)) [.name "x" (place 3 1)] (place 1 1)) none (place 1 1)]
  "main.struct" (place 1 1)

theorem parse_cutOff : parse "main.struct" cutOff = .ok program := by cbv

theorem upToEnd_cutOff : upToEnd cutOff = cutOff.take 6 := by decide

end Samples

theorem parse_advances_cutOff :
    parse "main.struct" (Samples.cutOff.take 6) = .ok Samples.program ∧
      (⟨.identifier, "f", 1, 1⟩ : Token).isName ∧
      Yields (topStatement ⟨"main.struct", ⟨.eof, "", 1, 6⟩⟩ ⟨.identifier, "f", 1, 1⟩
          (Samples.cutOff.drop 1))
        (fun p => ComesTo Samples.cutOff p.rest ∧ p.rest.length < Samples.cutOff.length)
        (Refused ⟨"main.struct", ⟨.eof, "", 1, 6⟩⟩ Samples.cutOff) := by
  obtain ⟨-, hcut, -, htop⟩ := parse_advances "main.struct" Samples.cutOff
  rw [Samples.upToEnd_cutOff, Samples.parse_cutOff] at hcut
  exact ⟨hcut, rfl, htop _ _ (Samples.cutOff.drop 1) rfl⟩

end Tree

end StructLang
