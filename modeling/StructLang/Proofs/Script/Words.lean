import StructLang.Number.Numeral
import StructLang.Proofs.Script.Grammar
import StructLang.Text.Ascii

/-!
The words of a script, by the rules of the script language. At each place the longest word is taken.
A number has digits, perhaps a point with or without digits after it, and perhaps an exponent; no
character of a name may follow it. So the point after a whole number belongs to the number, and so
does what looks like an exponent. Every word of letters is a name here, reserved or not.
-/

namespace StructLang.Script

def isNameChar (c : Char) : Bool := c.isAlphanum || c == '_' || c == '$'

def fraction : List Char → List Char × List Char
  | '.' :: r => (r.takeWhile Char.isDigit, r.dropWhile Char.isDigit)
  | r => ([], r)

def exponent : List Char → Int × List Char
  | [] => (0, [])
  | c :: r =>
    let s := (Numeral.takeSign r).2
    if (c = 'e' ∨ c = 'E') ∧ s.head?.any Char.isDigit then
      let n : Int := Nat.ofDigitChars 10 (s.takeWhile Char.isDigit) 0
      (if (Numeral.takeSign r).1 then -n else n, s.dropWhile Char.isDigit)
    else (0, c :: r)

def number? (cs : List Char) : Option (Word × List Char) :=
  let whole := cs.takeWhile Char.isDigit
  let part := fraction (cs.dropWhile Char.isDigit)
  let e := exponent part.2
  if e.2.head?.any isNameChar then none
  else some (.number (Nat.ofDigitChars 10 (whole ++ part.1) 0 * 10 ^ (e.1 - part.1.length)), e.2)

def units16 (c : Char) : List Nat :=
  if c.toNat < 0x10000 then [c.toNat]
  else [0xD800 + (c.toNat - 0x10000) / 0x400, 0xDC00 + (c.toNat - 0x10000) % 0x400]

def escaped? : Char → Option Nat
  | '"' => some 0x22
  | '\\' => some 0x5C
  | '/' => some 0x2F
  | 'b' => some 0x08
  | 'f' => some 0x0C
  | 'n' => some 0x0A
  | 'r' => some 0x0D
  | 't' => some 0x09
  | _ => none

def hexNumber? (cs : List Char) : Option Nat :=
  cs.foldlM (fun n c => (Text.hexValue? c.toLower).map (16 * n + ·)) 0

def string? : List Char → Option (List Nat × List Char)
  | '"' :: r => some ([], r)
  | '\\' :: 'u' :: a :: b :: c :: d :: r => do
    let n ← hexNumber? [a, b, c, d]
    let (us, r) ← string? r
    return (n :: us, r)
  | '\\' :: c :: r => do
    let n ← escaped? c
    let (us, r) ← string? r
    return (n :: us, r)
  | c :: r =>
    if c = '\n' ∨ c = '\r' ∨ c = '\\' then none
    else do
      let (us, r) ← string? r
      return (units16 c ++ us, r)
  | [] => none

/-- The marks of expressions and all longer marks that begin like one of them, the longest first. -/
def marks : List (List Char × Option Word) := [
  (['>', '>', '>', '='], none),
  (['.', '.', '.'], none), (['=', '=', '='], none), (['!', '=', '='], none),
  (['*', '*', '='], none), (['<', '<', '='], none), (['>', '>', '='], none),
  (['>', '>', '>'], none), (['&', '&', '='], none), (['|', '|', '='], none),
  (['|', '|'], some (.operator .or)), (['&', '&'], some (.operator .and)),
  (['=', '='], some (.operator .eq)), (['!', '='], some (.operator .ne)),
  (['<', '='], some (.operator .le)), (['>', '='], some (.operator .ge)),
  (['+', '+'], none), (['+', '='], none), (['-', '-'], none), (['-', '='], none),
  (['*', '*'], none), (['*', '='], none), (['/', '/'], none), (['/', '*'], none),
  (['/', '='], none), (['<', '<'], none), (['>', '>'], none),
  (['<'], some (.operator .lt)), (['>'], some (.operator .gt)), (['+'], some (.operator .add)),
  (['-'], some (.operator .sub)), (['*'], some (.operator .mul)), (['/'], some (.operator .div)),
  (['('], some .opening), ([')'], some .closing), ([','], some .comma), (['.'], some .point)]

def mark? (cs : List Char) : Option (Word × List Char) := do
  let m ← marks.find? fun m => m.1.isPrefixOf cs
  let w ← m.2
  return (w, cs.drop m.1.length)

/-- The word that a text begins with, and what follows. Numbers that begin with a point are left
out. -/
def word? : List Char → Option (Word × List Char)
  | [] => none
  | c :: r =>
    if c.isDigit then number? (c :: r)
    else if isNameChar c then
      some (.name (String.ofList ((c :: r).takeWhile isNameChar)), (c :: r).dropWhile isNameChar)
    else if c = '"' then (string? r).map fun p => (.string p.1, p.2)
    else if c = '.' ∧ r.head?.any Char.isDigit then none
    else mark? (c :: r)

theorem length_fraction_le (cs : List Char) : (fraction cs).2.length ≤ cs.length := by
  rw [fraction.eq_def]
  split
  · exact (List.dropWhile_suffix _).length_le.trans (Nat.le_succ _)
  · exact Nat.le_refl _

theorem length_takeSign_le (cs : List Char) : (Numeral.takeSign cs).2.length ≤ cs.length := by
  rw [Numeral.takeSign.eq_def]
  split <;> simp

theorem length_exponent_le (cs : List Char) : (exponent cs).2.length ≤ cs.length := by
  cases cs with
  | nil => exact Nat.le_refl _
  | cons c r =>
    simp only [exponent]
    split
    · exact (List.dropWhile_suffix _).length_le.trans
        ((length_takeSign_le r).trans (Nat.le_succ _))
    · exact Nat.le_refl _

theorem length_lt_of_string? {cs r : List Char} {us : List Nat} (h : string? cs = some (us, r)) :
    r.length < cs.length := by
  fun_induction string? cs generalizing us r with
  | case1 r' =>
    cases h
    simp
  | case2 a b c d r' ih =>
    obtain ⟨n, _, h⟩ := Option.bind_eq_some_iff.1 h
    obtain ⟨p, hp, h⟩ := Option.bind_eq_some_iff.1 h
    cases h
    have := ih hp
    simp only [List.length_cons]
    omega
  | case3 c r' _ ih =>
    obtain ⟨n, _, h⟩ := Option.bind_eq_some_iff.1 h
    obtain ⟨p, hp, h⟩ := Option.bind_eq_some_iff.1 h
    cases h
    have := ih hp
    simp only [List.length_cons]
    omega
  | case4 => cases h
  | case5 c r' _ _ _ _ ih =>
    obtain ⟨p, hp, h⟩ := Option.bind_eq_some_iff.1 h
    cases h
    exact (ih hp).trans (Nat.lt_succ_self _)
  | case6 => cases h

theorem length_lt_of_dropWhile {p : Char → Bool} {c : Char} (h : p c) (r : List Char) :
    ((c :: r).dropWhile p).length < (c :: r).length := by
  rw [List.dropWhile_cons_of_pos h]
  exact Nat.lt_succ_of_le (List.dropWhile_suffix _).length_le

theorem length_lt_of_mark? {cs r : List Char} {w : Word} (h : mark? cs = some (w, r)) :
    r.length < cs.length := by
  obtain ⟨m, hm, h⟩ := Option.bind_eq_some_iff.1 h
  obtain ⟨w, _, h⟩ := Option.bind_eq_some_iff.1 h
  cases h
  have hne : ∀ m ∈ marks, m.1.length ≠ 0 := by decide
  have hprefix : m.1.isPrefixOf cs := by simpa using List.find?_some hm
  have hlength := (List.isPrefixOf_iff_prefix.1 hprefix).length_le
  have hpos := hne m (List.mem_of_find?_eq_some hm)
  rw [List.length_drop]
  omega

theorem length_lt_of_word? {cs r : List Char} {w : Word} (h : word? cs = some (w, r)) :
    r.length < cs.length := by
  cases cs with
  | nil => cases h
  | cons c cs =>
    rw [word?] at h
    split at h
    · rename_i hdigit
      simp only [number?] at h
      split at h
      · cases h
      · cases h
        exact ((length_exponent_le _).trans (length_fraction_le _)).trans_lt
          (length_lt_of_dropWhile hdigit cs)
    · split at h
      · rename_i hname
        cases h
        exact length_lt_of_dropWhile hname cs
      · split at h
        · obtain ⟨p, hp, h⟩ := Option.map_eq_some_iff.1 h
          cases h
          exact (length_lt_of_string? hp).trans (Nat.lt_succ_self _)
        · split at h
          · cases h
          · exact length_lt_of_mark? h

def words (cs : List Char) : Option (List Word) :=
  match cs with
  | [] => some []
  | c :: r =>
    if c.isWhitespace then words r
    else
      match _h : word? (c :: r) with
      | none => none
      | some (w, rest) => (words rest).map (w :: ·)
termination_by cs.length
decreasing_by
  · exact Nat.lt_succ_self _
  · exact length_lt_of_word? (by assumption)

@[simp] theorem words_nil : words [] = some [] := by rw [words]

@[simp] theorem words_space (r : List Char) : words (' ' :: r) = words r := by
  rw [words, if_pos (by decide)]

theorem word?_of_isWhitespace {c : Char} (h : c.isWhitespace) (r : List Char) :
    word? (c :: r) = none := by
  simp only [Char.isWhitespace, Bool.or_eq_true, decide_eq_true_eq] at h
  obtain ((rfl | rfl) | rfl) | rfl := h <;> rfl

theorem words_of_word? {cs r : List Char} {w : Word} (h : word? cs = some (w, r)) :
    words cs = (words r).map (w :: ·) := by
  cases cs with
  | nil => cases h
  | cons c cs =>
    have hspace : ¬c.isWhitespace := by
      intro hc
      rw [word?_of_isWhitespace hc] at h
      cases h
    rw [words, if_neg hspace]
    split
    · rename_i hnone
      cases hnone.symm.trans h
    · rename_i hsome
      cases hsome.symm.trans h
      rfl

theorem words_eq_none {c : Char} {r : List Char} (hc : ¬c.isWhitespace)
    (h : word? (c :: r) = none) : words (c :: r) = none := by
  rw [words, if_neg hc]
  split
  · rfl
  · rename_i hsome
    cases hsome.symm.trans h

end StructLang.Script
