import Mathlib.Data.List.TakeWhile
import StructLang.Proofs.Outcome
import StructLang.Proofs.Text.Classes
import StructLang.Value

namespace StructLang

open Text

namespace Numeral

structure IsDigits (s : List Char) : Prop where
  ne_nil : s ≠ []
  decimal : ∀ c ∈ s, isDecimal c

def sign (negative : Bool) : List Char := if negative then ['-'] else []

inductive IsNumeral : List Char → Prop
  | whole : IsDigits ds → IsNumeral (sign negative ++ ds)
  | real : IsDigits ds → IsDigits fs → IsNumeral (sign negative ++ (ds ++ '.' :: fs))

def isReadable (text : String) : Bool :=
  text.toList.contains '.' || text.toList.countP isDecimal ≤ digitLimit

theorem ne_of_isDecimal {c d : Char} (h : isDecimal c) (hd : isDecimal d = false) : c ≠ d := by
  rintro rfl
  simp [h] at hd

theorem isEdge_of_isDecimal {c : Char} (h : isDecimal c) : isEdge c = false := by
  simp [isEdge, isBlank_of_isDecimal h]

theorem joinDigits_of_notMem {s : List Char} (h : '_' ∉ s) (afterDigit : Bool) :
    joinDigits afterDigit s = some s := by
  induction s generalizing afterDigit with
  | nil => rfl
  | cons c s ih =>
    simp only [List.mem_cons, not_or] at h
    simp [joinDigits, Ne.symm h.1, ih h.2]

theorem IsDigits.notMem {ds : List Char} (h : IsDigits ds) {c : Char} (hc : isDecimal c = false) :
    c ∉ ds := by
  intro hmem
  simp [h.decimal c hmem] at hc

theorem IsDigits.contains_point {ds : List Char} (h : IsDigits ds) (negative : Bool) :
    (sign negative ++ ds).contains '.' = false := by
  have hnotMem : '.' ∉ ds := h.notMem (by decide)
  cases negative <;> simp [sign, hnotMem]

theorem takeSign_sign {ds : List Char} (h : IsDigits ds) (negative : Bool) (rest : List Char) :
    takeSign (sign negative ++ (ds ++ rest)) = (negative, ds ++ rest) := by
  cases negative with
  | true => rfl
  | false =>
    obtain _ | ⟨d, ds⟩ := ds
    · exact absurd rfl h.ne_nil
    · have hd := h.decimal d (by simp)
      simp only [sign, Bool.false_eq_true, if_false, List.nil_append, List.cons_append]
      rw [takeSign]
      · rintro _ ⟨⟩
        exact ne_of_isDecimal hd (by decide) rfl
      · rintro _ ⟨⟩
        exact ne_of_isDecimal hd (by decide) rfl

theorem dropWhile_isEdge_sign {ds : List Char} (h : IsDigits ds) (negative : Bool)
    (rest : List Char) :
    (sign negative ++ (ds ++ rest)).dropWhile isEdge = sign negative ++ (ds ++ rest) := by
  obtain _ | ⟨d, ds⟩ := ds
  · exact absurd rfl h.ne_nil
  · have hminus : isEdge '-' = false := by decide
    cases negative <;> simp [sign, hminus, isEdge_of_isDecimal (h.decimal d (by simp))]

theorem readInt_of_isDigits {text : String} {negative : Bool} {ds : List Char} (h : IsDigits ds)
    (htext : text.toList = sign negative ++ ds) :
    readInt text = if digitLimit < ds.length then .error (.tooManyDigits ds.length)
      else .ok (if negative then -(digitsValue ds : Int) else digitsValue ds) := by
  have hsign := takeSign_sign h negative []
  have hedge := dropWhile_isEdge_sign h negative []
  rw [List.append_nil] at hsign hedge
  have hall : ∀ c ∈ ds, (isDecimal c || c == '_') = true := by
    intro c hc
    simp [h.decimal c hc]
  rw [readInt, htext, hedge, hsign]
  dsimp only
  rw [List.takeWhile_eq_self_iff.2 hall, List.dropWhile_eq_nil_iff.2 hall,
    joinDigits_of_notMem (h.notMem (by decide))]
  simp [h.ne_nil]

theorem natAbs_lt_of_readInt {text : String} {n : Int} (h : readInt text = .ok n) :
    n.natAbs < Nat.pow 10 digitLimit := by
  rw [readInt] at h
  dsimp only at h
  split at h
  · cases h
  · rename_i digits _
    have hlt := digitsValue_lt digits
    split at h
    · cases h
    · rename_i hshort
      -- The limit is made a variable, lest the power be computed.
      generalize digitLimit = limit at hshort ⊢
      have hle : Nat.pow 10 digits.length ≤ Nat.pow 10 limit :=
        Nat.pow_le_pow_right (by decide) (Nat.not_lt.1 hshort)
      split at h
      · cases h
      · cases h
        split <;> omega

theorem takeWhile_isDecimal_append {ds : List Char} (h : IsDigits ds) (rest : List Char)
    (hrest : ∀ c ∈ rest.head?, isDecimal c = false) :
    (ds ++ rest).takeWhile isDecimal = ds ∧ (ds ++ rest).dropWhile isDecimal = rest := by
  rw [List.takeWhile_append_of_pos h.decimal, List.dropWhile_append_of_pos h.decimal]
  cases rest with
  | nil => simp
  | cons c rest =>
    have hc : isDecimal c = false := hrest c rfl
    simp [hc]

theorem readDecimal_of_isDigits {ds fs : List Char} (hds : IsDigits ds) (hfs : IsDigits fs)
    (negative : Bool) : readDecimal negative (ds ++ '.' :: fs) =
      some (.ofDecimal negative (digitsValue (ds ++ fs)) (-(fs.length : Int))) := by
  have hpoint : isDecimal '.' = false := by decide
  obtain ⟨hwhole, hrest⟩ := takeWhile_isDecimal_append hds ('.' :: fs) (by simp [hpoint])
  obtain ⟨hpart, hend⟩ := takeWhile_isDecimal_append hfs [] (by simp)
  rw [List.append_nil] at hpart hend
  simp [readDecimal, hwhole, hrest, hpart, hend, hds.ne_nil, readExponent]

theorem readUnsigned_of_isDigits {ds : List Char} (h : IsDigits ds) (negative : Bool)
    (rest : List Char) :
    readUnsigned negative (ds ++ rest) = readDecimal negative (ds ++ rest) := by
  obtain _ | ⟨d, ds⟩ := ds
  · exact absurd rfl h.ne_nil
  · have hd := h.decimal d (by simp)
    have hword : ∀ word : String, word.toList.head?.all (!isDecimal ·) →
        word.toList ≠ [] → String.ofList ((d :: ds ++ rest).map Char.toLower) ≠ word := by
      rintro word hhead - rfl
      simp [toLower_of_isDecimal hd, hd] at hhead
    have hinf := hword "inf" (by decide) (by decide)
    have hinfinity := hword "infinity" (by decide) (by decide)
    have hnan := hword "nan" (by decide) (by decide)
    simp only [readUnsigned, hinf, hinfinity, hnan, or_self, if_false]

theorem readReal_of_isDigits {text : String} {negative : Bool} {ds fs : List Char}
    (hds : IsDigits ds) (hfs : IsDigits fs)
    (htext : text.toList = sign negative ++ (ds ++ '.' :: fs)) : readReal text =
      .ok (.ofDecimal negative (digitsValue (ds ++ fs)) (-(fs.length : Int))) := by
  have hjoin : '_' ∉ sign negative ++ (ds ++ '.' :: fs) := by
    simp only [List.mem_append, List.mem_cons, not_or]
    refine ⟨?_, hds.notMem (by decide), by decide, hfs.notMem (by decide)⟩
    cases negative <;> decide
  have hlast : (sign negative ++ (ds ++ '.' :: fs)).reverse.dropWhile isEdge =
      (sign negative ++ (ds ++ '.' :: fs)).reverse := by
    have hne : fs.reverse ≠ [] := by simpa using hfs.ne_nil
    obtain ⟨f, rs, hf⟩ := List.exists_cons_of_ne_nil hne
    have hmem : f ∈ fs := by
      rw [← List.mem_reverse, hf]
      exact List.mem_cons_self
    simp [hf, isEdge_of_isDecimal (hfs.decimal f hmem)]
  simp only [readReal, htext, joinDigits_of_notMem hjoin, dropWhile_isEdge_sign hds, hlast,
    List.reverse_reverse, Option.map_some, Option.bind_some, takeSign_sign hds,
    readUnsigned_of_isDigits hds, readDecimal_of_isDigits hds hfs]

end Numeral

open Numeral

theorem Value.ofNumeral_of_isDigits {text : String} {negative : Bool} {ds fs : List Char}
    (hds : IsDigits ds) (hfs : IsDigits fs)
    (htext : text.toList = sign negative ++ (ds ++ '.' :: fs)) : ofNumeral text =
      .ok (.real (.ofDecimal negative (digitsValue (ds ++ fs)) (-(fs.length : Int)))) := by
  have hpoint : (sign negative ++ (ds ++ '.' :: fs)).contains '.' := by simp
  rw [ofNumeral, htext, if_pos hpoint, readReal_of_isDigits hds hfs htext]

theorem Value.ofNumeral_settles {text : String} (h : IsNumeral text.toList) :
    Settles (ofNumeral text) (isReadable text) (fun _ => True)
      fun e => ∃ n, digitLimit < n ∧ e = .numeral (.tooManyDigits n) := by
  generalize hs : text.toList = s at h
  cases h with
  | @whole ds negative hds =>
    have hpoint := hds.contains_point negative
    have hcount : (sign negative ++ ds).countP isDecimal = ds.length := by
      have hminus : isDecimal '-' = false := by decide
      rw [List.countP_append, List.countP_eq_length.2 hds.decimal]
      cases negative <;> simp [sign, hminus]
    rw [ofNumeral, isReadable, hs, hpoint, hcount, readInt_of_isDigits hds hs]
    by_cases hlong : digitLimit < ds.length
    · rw [if_pos hlong]
      exact .error (by simpa using hlong) ⟨_, hlong, rfl⟩
    · rw [if_neg hlong]
      exact .ok (by simpa using hlong) trivial
  | @real ds fs negative hds hfs =>
    have hpoint : (sign negative ++ (ds ++ '.' :: fs)).contains '.' := by simp
    rw [ofNumeral_of_isDigits hds hfs hs, isReadable, hs, hpoint]
    exact .ok rfl trivial

end StructLang
