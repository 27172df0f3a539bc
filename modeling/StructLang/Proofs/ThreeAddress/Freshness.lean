import Mathlib.Data.List.Permutation
import Mathlib.Tactic.Tauto
import StructLang.Proofs.Code.Walk
import StructLang.Proofs.Compile.Faults
import StructLang.Proofs.ThreeAddress.Listing
import StructLang.Proofs.ThreeAddress.Reading

namespace StructLang

namespace Tree

open Code

mutual

theorem isWritable_of_lower {t : Tree} {c : Code} (h : t.lower = .ok c) :
    ∀ v ∈ c.literals, v.isWritable := by
  match t with
  | .number .. =>
    obtain ⟨v, hv, h⟩ := bind_eq_ok.1 h
    cases h
    exact List.forall_mem_singleton.2 (Value.isWritable_of_ofNumeral hv)
  | .string .. =>
    cases h
    exact List.forall_mem_singleton.2 rfl
  | .name .. | .param .. | .alias .. =>
    cases h
    simp [literals]
  | .binary _ l r _ =>
    obtain ⟨l', hl, h⟩ := bind_eq_ok.1 h
    obtain ⟨r', hr, h⟩ := bind_eq_ok.1 h
    cases h
    exact List.forall_mem_append.2 ⟨isWritable_of_lower hl, isWritable_of_lower hr⟩
  | .call f args _ =>
    obtain ⟨f', hf, h⟩ := bind_eq_ok.1 h
    obtain ⟨args', hargs, h⟩ := bind_eq_ok.1 h
    cases h
    exact List.forall_mem_append.2 ⟨isWritable_of_lower hf, isWritable_of_lowerAll hargs⟩
  | .member e _ _ | .ret e _ | .expr e _ _ =>
    obtain ⟨e', he, h⟩ := bind_eq_ok.1 h
    cases h
    rw [literals]
    exact isWritable_of_lower he
  | .declare .. =>
    obtain ⟨ps, hps, h⟩ := bind_eq_ok.1 h
    cases h
    simp [literals]
  | .define _ _ _ body _ =>
    obtain ⟨ps, hps, h⟩ := bind_eq_ok.1 h
    obtain ⟨body', hbody, h⟩ := bind_eq_ok.1 h
    cases h
    exact isWritable_of_lowerAll hbody
  | .program ss _ _ =>
    obtain ⟨ss', hss, h⟩ := bind_eq_ok.1 h
    cases h
    exact isWritable_of_lowerAll hss
  | .unruled .. | .stray .. => cases h

theorem isWritable_of_lowerAll {ts : List Tree} {cs : List Code} (h : lowerAll ts = .ok cs) :
    ∀ v ∈ literalsAll cs, v.isWritable := by
  match ts with
  | [] =>
    cases h
    simp [literalsAll]
  | t :: ts =>
    obtain ⟨c, hc, h⟩ := bind_eq_ok.1 h
    obtain ⟨cs, hcs, h⟩ := bind_eq_ok.1 h
    cases h
    exact List.forall_mem_append.2 ⟨isWritable_of_lower hc, isWritable_of_lowerAll hcs⟩

end

end Tree

namespace Code

variable {c : Code}

theorem IsExpr.isTerm (h : c.IsExpr) : c.IsTerm := by
  induction h with
  | number _ | text => exact .literal
  | name => exact .name
  | binary _ _ ihl ihr => exact .binary ihl ihr
  | call _ _ ihf ihargs => exact .call ihf ihargs
  | member _ ih => exact .member ih

theorem IsStatement.isListed (h : c.IsStatement) : c.IsListed := by
  cases h with
  | ret h => exact .ret h.isTerm
  | expr h => exact .expr h.isTerm

theorem IsProgram.isListed (h : c.IsProgram) : c.IsListed := by
  cases h with
  | program hss =>
    refine .program fun s hs => ?_
    match hss s hs with
    | .alias => exact .typeAlias
    | .declare _ => exact .declare
    | .define _ hbody => exact .define fun s hs => (hbody s hs).isListed
    | .expr h => exact .expr h.isTerm

def names (c : Code) : List String := c.preorder.filterMap ownName?

mutual

theorem usedNames_sublist (c : Code) : c.usedNames.Sublist c.names := by
  match c with
  | .name .. => exact List.Sublist.refl _
  | .binary _ l r _ =>
    rw [names, preorder, List.filterMap_cons_none rfl, List.filterMap_append]
    exact l.usedNames_sublist.append r.usedNames_sublist
  | .call f args _ _ =>
    rw [names, preorder, List.filterMap_cons_none rfl, List.filterMap_append]
    exact f.usedNames_sublist.append (usedNamesAll_sublist args)
  | .member e _ _ | .expr e _ | .ret e _ => exact e.usedNames_sublist
  | .define _ params _ body _ _ =>
    rw [names, preorder, List.filterMap_cons_some (f := ownName?) rfl, List.filterMap_append]
    exact ((usedNamesAll_sublist body).trans (List.sublist_append_right _ _)).cons _
  | .program ss _ _ => exact usedNamesAll_sublist ss
  | .literal .. | .param .. | .alias .. | .declare .. | .unruled .. | .nothing =>
    exact List.nil_sublist _

theorem usedNamesAll_sublist (cs : List Code) :
    (usedNamesAll cs).Sublist ((preorderAll cs).filterMap ownName?) := by
  match cs with
  | [] => exact List.nil_sublist _
  | c :: cs =>
    rw [preorderAll, List.filterMap_append]
    exact c.usedNames_sublist.append (usedNamesAll_sublist cs)

end

end Code

namespace ThreeAddress

open Code

namespace Operand

def parts : Operand → List Operand
  | .member o p => .member o p :: o.parts
  | o => [o]

def IsWritten : Operand → Prop
  | .literal v text => v.script = .ok text
  | .member o _ => o.IsWritten
  | _ => True

theorem name_mem_parts {o : Operand} {n : String} : .name n ∈ o.parts ↔ n ∈ o.names := by
  induction o with
  | member o p ih => simpa [parts, names] using ih
  | _ => simp [parts, names, eq_comm]

theorem IsWritten.of_mem_parts {o p : Operand} (h : o.IsWritten) (hp : p ∈ o.parts) :
    p.IsWritten := by
  induction o with
  | member o property ih =>
    obtain rfl | hp := List.mem_cons.1 hp
    · exact h
    · exact ih h hp
  | _ =>
    obtain rfl := List.mem_singleton.1 hp
    exact h

theorem point_mem_text (o : Operand) (p : String) : '.' ∈ (member o p).text.toList := by
  simp [text]

theorem IsWritten.eq_of_text {o : Operand} {k : Nat} (h : o.IsWritten)
    (htext : o.text = tempName k) : o = .temp k ∨ o = .name (tempName k) := by
  cases o with
  | literal v text =>
    obtain rfl : text = tempName k := htext
    have hread := (Value.spells_of_script h).read?
    rw [read?_tempName] at hread
    cases hread
  | name n => exact .inr (congrArg _ htext)
  | temp j => exact .inl (congrArg _ (tempName_inj htext))
  | member o p =>
    have hpoint := point_mem_text o p
    rw [htext] at hpoint
    exact absurd hpoint (point_notMem_of_isName (isName_tempName k))
  | blank =>
    have hlist := congrArg String.toList htext
    rw [toList_tempName] at hlist
    cases hlist

end Operand

def Line.operands : Line → List Operand
  | .operation _ _ l r => [l, r]
  | .call _ f xs => f :: xs
  | .result x | .ret x => [x]
  | _ => []

structure Accounts (ns : List String) (os : List Operand) : Prop where
  written : ∀ o ∈ os, o.IsWritten
  names : ∀ n, n ∈ ns ↔ ∃ o ∈ os, n ∈ o.names

namespace Accounts

variable {ns ms : List String} {os ps : List Operand}

theorem nil : Accounts [] [] := ⟨by simp, by simp⟩

theorem append (h : Accounts ns os) (h' : Accounts ms ps) : Accounts (ns ++ ms) (os ++ ps) where
  written := List.forall_mem_append.2 ⟨h.written, h'.written⟩
  names n := by simp [h.names, h'.names, or_and_right, exists_or]

theorem congr (h : Accounts ns os) (heq : ∀ o, o ∈ os ↔ o ∈ ps) : Accounts ns ps where
  written o ho := h.written o ((heq o).2 ho)
  names n := by simp [h.names, heq]

theorem append_append {as bs : List Operand} (h : Accounts ns (os ++ as))
    (h' : Accounts ms (ps ++ bs)) : Accounts (ns ++ ms) (os ++ ps ++ (as ++ bs)) :=
  (h.append h').congr fun o => by
    simp only [List.mem_append]
    tauto

theorem temp (h : Accounts ns os) (k : Nat) : Accounts ns (os ++ [.temp k]) := by
  have htemp : Accounts [] [.temp k] := ⟨by simp [Operand.IsWritten], by simp [Operand.names]⟩
  simpa using h.append htemp

end Accounts

mutual

theorem Compiles.accounts {c : Code} {k k' : Nat} {ls : List Line} {o : Operand}
    (h : Compiles c k ls o k') : Accounts c.usedNames (ls.flatMap Line.operands ++ [o]) := by
  match h with
  | .literal hv => exact ⟨by simpa [Operand.IsWritten] using hv, by simp [usedNames, Operand.names]⟩
  | .name => exact ⟨by simp [Operand.IsWritten], by simp [usedNames, Operand.names]⟩
  | .binary hl hr =>
    rw [List.flatMap_append, List.flatMap_append, List.flatMap_singleton]
    exact (hl.accounts.append_append hr.accounts).temp _
  | .call hf hargs =>
    rw [List.flatMap_append, List.flatMap_append, List.flatMap_singleton]
    exact (hf.accounts.append_append hargs.accounts).temp _
  | .member h =>
    obtain ⟨hwritten, hnames⟩ := h.accounts
    rw [List.forall_mem_append, List.forall_mem_singleton] at hwritten
    exact ⟨List.forall_mem_append.2 ⟨hwritten.1, List.forall_mem_singleton.2 hwritten.2⟩,
      by simpa [usedNames, or_and_right, exists_or, Operand.names] using hnames⟩

theorem CompilesAll.accounts {cs : List Code} {k k' : Nat} {ls : List Line} {os : List Operand}
    (h : CompilesAll cs k ls os k') :
    Accounts (usedNamesAll cs) (ls.flatMap Line.operands ++ os) := by
  match h with
  | .nil => exact .nil
  | .cons h hs =>
    rw [List.flatMap_append]
    exact h.accounts.append_append hs.accounts

end

mutual

theorem Writes.accounts {c : Code} {k k' : Nat} {ls : List Line} (h : Writes c k ls k') :
    Accounts c.usedNames (ls.flatMap Line.operands) := by
  match h with
  | .expr h | .ret h =>
    rw [List.flatMap_append]
    exact h.accounts
  | .typeAlias => exact .nil
  | .declare (b := b) | .empty (b := b) => cases b <;> exact .nil
  | .define h | .program h => exact h.accounts

theorem WritesAll.accounts {cs : List Code} {k k' : Nat} {ls : List Line}
    (h : WritesAll cs k ls k') : Accounts (usedNamesAll cs) (ls.flatMap Line.operands) := by
  match h with
  | .nil => exact .nil
  | .cons h hs =>
    rw [List.flatMap_append]
    exact h.accounts.append hs.accounts

end

def temporaries (ls : List Line) : List String := (ls.filterMap Line.target?).map tempName

/-- No variable, parameter or function is spelled like a temporary. -/
def Fresh (c : Code) (ls : List Line) : Prop := ∀ n ∈ c.names, n ∉ temporaries ls

/-- What is written like a temporary in an operand is that temporary. -/
def Unmistakable (ls : List Line) : Prop :=
  ∀ k ∈ ls.filterMap Line.target?, ∀ l ∈ ls, ∀ o ∈ l.operands, ∀ p ∈ o.parts,
    p.text = tempName k → p = .temp k

theorem forall_notMem_temporaries {ls : List Line} {count : Nat}
    (h : ls.filterMap Line.target? = List.range' 1 count) (ns : List String) :
    (∀ n ∈ ns, n ∉ temporaries ls) ↔ AvoidsBetween 0 count ns := by
  have hmem (n : String) : n ∈ temporaries ls ↔ ∃ j, (1 ≤ j ∧ j < 1 + count) ∧ tempName j = n := by
    simp [temporaries, h, List.mem_map, List.mem_range'_1]
  refine forall₂_congr fun n _ => ⟨fun hn j hpos hle heq => hn ?_, fun hn htemp => ?_⟩
  · exact (hmem n).2 ⟨j, ⟨hpos, by omega⟩, heq.symm⟩
  · obtain ⟨j, hj, heq⟩ := (hmem n).1 htemp
    exact hn j hj.1 (by omega) heq.symm

theorem Accounts.unmistakable_iff {ns : List String} {ls : List Line}
    (h : Accounts ns (ls.flatMap Line.operands)) :
    Unmistakable ls ↔ ∀ n ∈ ns, n ∉ temporaries ls := by
  constructor
  · -- a name that is used stands in some operand, with the text of the temporary
    intro hls n hn htemp
    obtain ⟨k, hk, rfl⟩ := List.mem_map.1 htemp
    obtain ⟨o, ho, hname⟩ := (h.names _).1 hn
    obtain ⟨l, hl, ho⟩ := List.mem_flatMap.1 ho
    cases hls k hk l hl o ho _ (Operand.name_mem_parts.2 hname) rfl
  · intro hns k hk l hl o ho p hp htext
    have hmem := List.mem_flatMap.2 ⟨l, hl, ho⟩
    obtain htemp | rfl := ((h.written o hmem).of_mem_parts hp).eq_of_text htext
    · exact htemp
    · have hname := (h.names _).2 ⟨o, hmem, Operand.name_mem_parts.1 hp⟩
      exact absurd (List.mem_map_of_mem hk) (hns _ hname)

/-- The listing of a lowered program is always there. It assigns the temporaries from `t1` up to the
number of operations, each once and before it is used. They are fresh just if no variable, parameter
or function has one of these spellings. No operand can be mistaken for a temporary just if no
variable that is used has one, and the listing then computes the program. -/
theorem temporaries_fresh_iff {file source : String} {ts : List Token} {t : Tree} {c : Code}
    (hscan : Token.scan file source = .ok ts) (hparse : Tree.parse file ts = .ok t)
    (hlower : t.lower = .ok c) :
    ∃ ls, run c = (.ok .blank, ⟨c.operations, ls⟩) ∧
      temporaries ls = (List.range' 1 c.operations).map tempName ∧ (temporaries ls).Nodup ∧
      Ordered [] ls ∧
      (Fresh c ls ↔ AvoidsBetween 0 c.operations c.names) ∧
      (Unmistakable ls ↔ AvoidsBetween 0 c.operations c.usedNames) ∧
      (Fresh c ls → Unmistakable ls) ∧ (Unmistakable ls → Lists c 0 ls) := by
  have hshape := ((Tree.isProgram_of_scan hscan hparse).lowersTo.of_ok hlower).2
  have hwritable : c.IsWritable := Tree.isWritable_of_lower hlower
  obtain ⟨-, ls, o, k, hrun, rfl, hwrites⟩ | ⟨hnot, -⟩ := emits_writes hshape.isListed 0 []
  · obtain ⟨htargets, hordered⟩ := hwrites.assigns
    obtain rfl := hwrites.counts
    rw [Nat.zero_add] at hrun hwrites htargets
    have htemps : temporaries ls = (List.range' 1 c.operations).map tempName := by
      rw [temporaries, htargets]
    have hused := hwrites.accounts.unmistakable_iff
    refine ⟨ls, hrun, htemps, ?_, hordered, forall_notMem_temporaries htargets _,
      hused.trans (forall_notMem_temporaries htargets _), fun hfresh => ?_, fun hls => ?_⟩
    · rw [htemps]
      exact (List.nodup_range' 1).map fun _ _ => tempName_inj
    · exact hused.2 fun n hn => hfresh n (c.usedNames_sublist.subset hn)
    · exact hwrites.lists ((forall_notMem_temporaries htargets _).1 (hused.1 hls))
  · exact absurd hwritable hnot

namespace Spared

def source : String := "t3(t2: number): number \x7b return t2.t1 + \"t1\"; \x7d"

def tokens : List Token :=
  [⟨.identifier, "t3", 1, 1⟩, ⟨.symbol, "(", 1, 3⟩, ⟨.identifier, "t2", 1, 4⟩,
    ⟨.symbol, ":", 1, 6⟩, ⟨.type, "number", 1, 8⟩, ⟨.symbol, ")", 1, 14⟩,
    ⟨.returnType, "number", 1, 17⟩, ⟨.symbol, "\x7b", 1, 24⟩, ⟨.keyword, "return", 1, 26⟩,
    ⟨.identifier, "t2", 1, 33⟩, ⟨.symbol, ".", 1, 35⟩, ⟨.identifier, "t1", 1, 36⟩,
    ⟨.operator, "+", 1, 39⟩, ⟨.string, "\"t1\"", 1, 41⟩, ⟨.symbol, ";", 1, 45⟩,
    ⟨.symbol, "\x7d", 1, 47⟩, ⟨.eof, "", 1, 48⟩]

open MainFile (place)

def tree : Tree := .program
  [.define "t3" [.param "t2" .number (place 4 2)] .number
    [.ret (.binary .add (.member (.name "t2" (place 33 2)) "t1" (place 36 2))
      (.string "\"t1\"" (place 41 4)) (place 39 1)) (place 26 6)] (place 1 2)]
  "main.struct" (place 1 2)

def code : Code := .program
  [.define "t3" [.param "t2" .number (place 4 2)] .number
    [.ret (.binary .add (.member (.name "t2" (place 33 2)) "t1" (place 36 2))
      (.literal (.text "t1") .string (place 41 4)) (place 39 1)) (place 26 6)] false (place 1 2)]
  "main.struct" (place 1 2)

def lines : List Line :=
  [.function "t3", .operation 1 .add (.member (.name "t2") "t1") (.literal (.text "t1") "\"t1\""),
    .ret (.temp 1)]

end Spared

open Spared in
theorem temporaries_fresh_iff_spared :
    Token.scan "main.struct" source = .ok tokens ∧ Tree.parse "main.struct" tokens = .ok tree ∧
      tree.lower = .ok code ∧ run code = (.ok .blank, ⟨1, lines⟩) ∧ Fresh code lines ∧
      Unmistakable lines ∧ Lists code 0 lines := by
  have hscan : Token.scan "main.struct" source = .ok tokens :=
    toOption_eq_some.1 (by decide +kernel)
  have hparse : Tree.parse "main.struct" tokens = .ok tree := by cbv
  have hlower : tree.lower = .ok code := rfl
  have hcomputed : run code = (.ok .blank, ⟨1, lines⟩) := rfl
  obtain ⟨ls, hrun, -, -, -, hfresh, -, hunmistakable, hlists⟩ :=
    temporaries_fresh_iff hscan hparse hlower
  obtain rfl : lines = ls := (State.mk.inj (congrArg Prod.snd (hcomputed.symm.trans hrun))).2
  have havoids : ∀ n ∈ code.names, n ≠ tempName 1 := by decide
  have hall : Fresh code lines := by
    refine hfresh.2 fun n hn j hpos hle => ?_
    obtain rfl : j = 1 := Nat.le_antisymm hle hpos
    exact havoids n hn
  exact ⟨hscan, hparse, hlower, hcomputed, hall, hunmistakable hall,
    hlists (hunmistakable hall)⟩

namespace Clashing

def source : String := "f(t1: number): number \x7b return (t1 + t1) * t1; \x7d"

def tokens : List Token :=
  [⟨.identifier, "f", 1, 1⟩, ⟨.symbol, "(", 1, 2⟩, ⟨.identifier, "t1", 1, 3⟩, ⟨.symbol, ":", 1, 5⟩,
    ⟨.type, "number", 1, 7⟩, ⟨.symbol, ")", 1, 13⟩, ⟨.returnType, "number", 1, 16⟩,
    ⟨.symbol, "\x7b", 1, 23⟩, ⟨.keyword, "return", 1, 25⟩, ⟨.symbol, "(", 1, 32⟩,
    ⟨.identifier, "t1", 1, 33⟩, ⟨.operator, "+", 1, 36⟩, ⟨.identifier, "t1", 1, 38⟩,
    ⟨.symbol, ")", 1, 40⟩, ⟨.operator, "*", 1, 42⟩, ⟨.identifier, "t1", 1, 44⟩,
    ⟨.symbol, ";", 1, 46⟩, ⟨.symbol, "\x7d", 1, 48⟩, ⟨.eof, "", 1, 49⟩]

open MainFile (place)

def tree : Tree := .program
  [.define "f" [.param "t1" .number (place 3 2)] .number
    [.ret (.binary .mul
      (.binary .add (.name "t1" (place 33 2)) (.name "t1" (place 38 2)) (place 36 1))
      (.name "t1" (place 44 2)) (place 42 1)) (place 25 6)] (place 1 1)]
  "main.struct" (place 1 1)

def returned : Code :=
  .binary .mul
    (.binary .add (.name "t1" (place 33 2)) (.name "t1" (place 38 2)) (place 36 1))
    (.name "t1" (place 44 2)) (place 42 1)

def code : Code := .program
  [.define "f" [.param "t1" .number (place 3 2)] .number [.ret returned (place 25 6)] false
    (place 1 1)]
  "main.struct" (place 1 1)

def lines : List Line :=
  [.function "f", .operation 1 .add (.name "t1") (.name "t1"),
    .operation 2 .mul (.temp 1) (.name "t1"), .ret (.temp 2)]

def arithmetic : Model Nat where
  literal _ := 0
  apply op a b := if op = .add then a + b else a * b
  call _ _ := 0
  member _ _ := 0

end Clashing

open Clashing in
/-- A parameter is overwritten by the first temporary: for two, sixteen is returned in place of
eight. -/
theorem parameter_overwritten :
    Token.scan "main.struct" source = .ok tokens ∧ Tree.parse "main.struct" tokens = .ok tree ∧
      tree.lower = .ok code ∧ run code = (.ok .blank, ⟨2, lines⟩) ∧
      lines.map Line.text = ["--- Function f ---", "t1 := t1 + t1", "t2 := t1 * t1", "return t2"] ∧
      ¬Fresh code lines ∧ ¬Unmistakable lines ∧
      returned.value arithmetic (fun _ => 2) = some 8 ∧
      (runLines arithmetic (fun _ => 2) lines).map (· "t2") = some 16 := by
  have hscan : Token.scan "main.struct" source = .ok tokens :=
    toOption_eq_some.1 (by decide +kernel)
  have hmistaken : ¬Unmistakable lines := fun h => by
    cases h 1 (by decide) (.operation 2 .mul (.temp 1) (.name "t1")) (by decide) (.name "t1")
      (by decide) (.name "t1") (by decide) (by decide)
  have hclash : ¬Fresh code lines := fun h => h "t1" (by decide) (by decide)
  exact ⟨hscan, by cbv, rfl, rfl, by decide, hclash, hmistaken, by decide, by decide⟩

end ThreeAddress

end StructLang
