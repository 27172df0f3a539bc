import Mathlib.Algebra.Order.Field.Rat
import Mathlib.Data.Option.NAry
import StructLang.Proofs.Number.Spelling
import StructLang.Proofs.Script.Words
import StructLang.Proofs.Token.Lexes

namespace StructLang.Script

open Text

def IsBreak (rest : List Char) : Prop := rest.head?.all (· ∈ [' ', '(', ')', ',', '.'])

def IsEnd (rest : List Char) : Prop := rest.head?.all (· ∈ [' ', '(', ')', ','])

theorem IsEnd.isBreak {rest : List Char} (h : IsEnd rest) : IsBreak rest := by
  cases rest with
  | nil => rfl
  | cons c rest =>
    simp only [IsEnd, IsBreak, List.head?_cons, Option.all_some, decide_eq_true_eq] at h ⊢
    exact List.mem_append_left ['.'] h

theorem head?_any_eq_false {rest cs : List Char} (h : rest.head?.all (· ∈ cs)) {p : Char → Bool}
    (hp : cs.all (!p ·)) : rest.head?.any p = false := by
  cases rest with
  | nil => rfl
  | cons c rest =>
    simp only [List.head?_cons, Option.all_some, decide_eq_true_eq] at h
    simpa using List.all_eq_true.1 hp c h

theorem IsBreak.head {rest : List Char} (h : IsBreak rest) {p : Char → Bool}
    (hp : [' ', '(', ')', ',', '.'].all (!p ·)) : rest.head?.any p = false :=
  head?_any_eq_false h hp

theorem span_append {p : Char → Bool} {x rest : List Char} (hx : ∀ c ∈ x, p c)
    (hrest : rest.head?.any p = false) :
    (x ++ rest).takeWhile p = x ∧ (x ++ rest).dropWhile p = rest := by
  rw [List.takeWhile_append_of_pos hx, List.dropWhile_append_of_pos hx]
  cases rest with
  | nil => simp
  | cons c rest =>
    have hc : p c = false := by simpa using hrest
    simp [hc]

theorem isNameChar_of_isNamePart {c : Char} (h : Token.Rule.isNamePart c) : isNameChar c := by
  rw [Token.Rule.isNamePart] at h
  rw [isNameChar, h, Bool.true_or]

theorem isDigit_of_isNameStart {c : Char} (h : Token.Rule.isNameStart c) : c.isDigit = false := by
  have hc := forall_ascii (p := fun c => !(Token.Rule.isNameStart c && c.isDigit))
    (by decide +kernel) (Token.toNat_lt_of_isNameStart h)
  simpa [h] using hc

theorem word?_name {n : String} (hn : Token.IsName n.toList) {rest : List Char}
    (hrest : IsBreak rest) : word? (n.toList ++ rest) = some (.name n, rest) := by
  have hall : ∀ c ∈ n.toList, isNameChar c := by
    obtain ⟨c, s, hcs, hc, hs⟩ := hn
    rw [hcs, List.forall_mem_cons]
    exact ⟨isNameChar_of_isNamePart (Token.isNamePart_of_isNameStart hc),
      fun d hd => isNameChar_of_isNamePart (hs d hd)⟩
  obtain ⟨htake, hdrop⟩ := span_append hall (hrest.head (by decide))
  obtain ⟨c, s, hcs, hc, -⟩ := hn
  rw [hcs] at hall htake hdrop ⊢
  rw [List.cons_append, word?, if_neg (by simp [isDigit_of_isNameStart hc]),
    if_pos (hall c List.mem_cons_self), ← List.cons_append, htake, hdrop, ← hcs,
    String.ofList_toList]

theorem word?_point {c : Char} (hc : Token.Rule.isNameStart c) (r : List Char) :
    word? ('.' :: c :: r) = some (.point, c :: r) := by
  have hpoint : c ≠ '.' := by
    rintro rfl
    exact absurd hc (by decide)
  simp [word?, mark?, marks, List.isPrefixOf, isDigit_of_isNameStart hc, isNameChar, hpoint.symm]

theorem word?_minus {c : Char} (hc : c.isDigit) (r : List Char) :
    word? ('-' :: c :: r) = some (.operator .sub, c :: r) := by
  have hne : ∀ d : Char, d.isDigit = false → d ≠ c := by
    rintro d hd rfl
    simp [hc] at hd
  simp [word?, mark?, marks, List.isPrefixOf, isNameChar, hne '-' (by decide), hne '=' (by decide)]

theorem word?_operator (op : Operator) (r : List Char) :
    word? (op.symbol.toList ++ ' ' :: r) = some (.operator op, ' ' :: r) := by
  cases op <;> rfl

theorem fraction_point {fs r : List Char} (hfs : ∀ c ∈ fs, c.isDigit)
    (hr : r.head?.any Char.isDigit = false) : fraction ('.' :: (fs ++ r)) = (fs, r) := by
  obtain ⟨htake, hdrop⟩ := span_append hfs hr
  rw [fraction, htake, hdrop]

theorem fraction_of_head {r : List Char} (hr : r.head?.any (· == '.') = false) :
    fraction r = ([], r) := by
  rw [fraction.eq_def]
  split
  · simp at hr
  · rfl

theorem exponent_of_head {r : List Char}
    (hr : r.head?.any (fun c => c == 'e' || c == 'E') = false) : exponent r = (0, r) := by
  cases r with
  | nil => rfl
  | cons c r =>
    have hc : ¬(c = 'e' ∨ c = 'E') := by simpa using hr
    simp [exponent, hc]

theorem head?_append_of_isDigit {ds : List Char} (hne : ds ≠ []) (hds : ∀ c ∈ ds, c.isDigit)
    (r : List Char) : (ds ++ r).head?.any Char.isDigit := by
  obtain ⟨d, ds, rfl⟩ := List.exists_cons_of_ne_nil hne
  simpa using hds d List.mem_cons_self

theorem exponent_digits (negative : Bool) {ds r : List Char} (hne : ds ≠ [])
    (hds : ∀ c ∈ ds, c.isDigit) (hr : r.head?.any Char.isDigit = false) :
    exponent ('e' :: (if negative then '-' else '+') :: (ds ++ r)) =
      (if negative then -(Nat.ofDigitChars 10 ds 0 : Int) else Nat.ofDigitChars 10 ds 0, r) := by
  obtain ⟨htake, hdrop⟩ := span_append hds hr
  have hsign : Numeral.takeSign ((if negative then '-' else '+') :: (ds ++ r)) =
      (negative, ds ++ r) := by
    cases negative <;> rfl
  have hdigit := head?_append_of_isDigit hne hds r
  simp only [exponent, hsign, hdigit, htake, hdrop, true_or, and_self, if_true]

theorem word?_digits {ds r : List Char} (hne : ds ≠ []) (hds : ∀ c ∈ ds, c.isDigit)
    (hr : r.head?.any Char.isDigit = false) :
    word? (ds ++ r) =
      if (exponent (fraction r).2).2.head?.any isNameChar then none
      else some (.number (Nat.ofDigitChars 10 (ds ++ (fraction r).1) 0 *
          10 ^ ((exponent (fraction r).2).1 - (fraction r).1.length)),
        (exponent (fraction r).2).2) := by
  obtain ⟨htake, hdrop⟩ := span_append hds hr
  obtain ⟨d, ds, rfl⟩ := List.exists_cons_of_ne_nil hne
  rw [List.cons_append, word?, if_pos (hds d List.mem_cons_self), ← List.cons_append]
  simp only [number?, htake, hdrop]

theorem word?_whole {ds r : List Char} (hne : ds ≠ []) (hds : ∀ c ∈ ds, c.isDigit)
    (hr : IsEnd r) : word? (ds ++ r) = some (.number (Nat.ofDigitChars 10 ds 0), r) := by
  have hbreak := hr.isBreak
  have hfraction : fraction r = ([], r) := fraction_of_head (head?_any_eq_false hr (by decide))
  rw [word?_digits hne hds (hbreak.head (by decide)), hfraction,
    exponent_of_head (hbreak.head (by decide)),
    if_neg (by simp [hbreak.head (p := isNameChar) (by decide)])]
  simp

theorem word?_fraction {ds fs r : List Char} (hne : ds ≠ []) (hds : ∀ c ∈ ds, c.isDigit)
    (hfs : ∀ c ∈ fs, c.isDigit) (hr : IsBreak r) :
    word? (ds ++ '.' :: (fs ++ r)) =
      some (.number (Nat.ofDigitChars 10 (ds ++ fs) 0 * 10 ^ (-(fs.length : Int))), r) := by
  rw [word?_digits hne hds (by simp), fraction_point hfs (hr.head (by decide)),
    exponent_of_head (hr.head (by decide)),
    if_neg (by simp [hr.head (p := isNameChar) (by decide)]), zero_sub]

theorem word?_exponent {ds es r : List Char} (hne : ds ≠ []) (hds : ∀ c ∈ ds, c.isDigit)
    (negative : Bool) (hes : es ≠ []) (hexp : ∀ c ∈ es, c.isDigit) (hr : IsBreak r) :
    word? (ds ++ 'e' :: (if negative then '-' else '+') :: (es ++ r)) =
      some (.number (Nat.ofDigitChars 10 ds 0 * 10 ^ (if negative then
        -(Nat.ofDigitChars 10 es 0 : Int) else Nat.ofDigitChars 10 es 0)), r) := by
  rw [word?_digits hne hds (by simp), fraction_of_head (by simp),
    exponent_digits negative hes hexp (hr.head (by decide)),
    if_neg (by simp [hr.head (p := isNameChar) (by decide)])]
  simp

theorem word?_fraction_exponent {ds fs es r : List Char} (hne : ds ≠ [])
    (hds : ∀ c ∈ ds, c.isDigit) (hfs : ∀ c ∈ fs, c.isDigit) (negative : Bool) (hes : es ≠ [])
    (hexp : ∀ c ∈ es, c.isDigit) (hr : IsBreak r) :
    word? (ds ++ '.' :: (fs ++ 'e' :: (if negative then '-' else '+') :: (es ++ r))) =
      some (.number (Nat.ofDigitChars 10 (ds ++ fs) 0 * 10 ^ ((if negative then
        -(Nat.ofDigitChars 10 es 0 : Int) else Nat.ofDigitChars 10 es 0) - fs.length)), r) := by
  rw [word?_digits hne hds (by simp), fraction_point hfs (by simp),
    exponent_digits negative hes hexp (hr.head (by decide)),
    if_neg (by simp [hr.head (p := isNameChar) (by decide)])]

theorem word?_spelled {m r : List Char} {q : ℚ} (h : Double.Spelled m q) (hr : IsBreak r) :
    word? (m ++ r) = some (.number q, r) := by
  cases h with
  | fraction hne hds hfs =>
    simpa using word?_fraction hne hds hfs hr
  | @exponent _ _ negative hne hds hes hexp =>
    simpa [Double.exponentValue] using word?_exponent hne hds negative hes hexp hr
  | @both _ _ _ negative hne hds hfs hes hexp =>
    simpa [Double.exponentValue] using word?_fraction_exponent hne hds hfs negative hes hexp hr

theorem takeSign_of_head {r : List Char}
    (hr : r.head?.any (fun c => c == '-' || c == '+') = false) :
    Numeral.takeSign r = (false, r) := by
  rw [Numeral.takeSign.eq_def]
  split
  · simp at hr
  · simp at hr
  · rfl

theorem takeSign_of_isNameChar {s r : List Char} (hs : ∀ c ∈ s, isNameChar c) (hr : IsBreak r) :
    Numeral.takeSign (s ++ r) = (false, s ++ r) := by
  refine takeSign_of_head ?_
  cases s with
  | nil => exact hr.head (by decide)
  | cons c s =>
    have hc : isNameChar c := hs c List.mem_cons_self
    have hne : ∀ d : Char, isNameChar d = false → c ≠ d := by
      rintro d hd rfl
      simp [hc] at hd
    simp [hne '-' (by decide), hne '+' (by decide)]

theorem exponent_name {c : Char} (hc : c = 'e' ∨ c = 'E') {s r : List Char} (hne : s ≠ [])
    (hs : ∀ d ∈ s, d.isDigit) (hr : IsBreak r) :
    exponent (c :: (s ++ r)) = ((Nat.ofDigitChars 10 s 0 : Int), r) := by
  have hsign : Numeral.takeSign (s ++ r) = (false, s ++ r) :=
    takeSign_of_isNameChar (fun d hd => by simp [isNameChar, Char.isAlphanum, hs d hd]) hr
  obtain ⟨htake, hdrop⟩ := span_append hs (hr.head (by decide))
  have hdigit := head?_append_of_isDigit hne hs r
  simp only [exponent, hc, hsign, hdigit, htake, hdrop, and_self, if_true, Bool.false_eq_true,
    if_false]

theorem head?_exponent_name {c : Char} {s r : List Char} (hname : ∀ d ∈ c :: s, isNameChar d)
    (h : ¬((c = 'e' ∨ c = 'E') ∧ s ≠ [] ∧ ∀ d ∈ s, d.isDigit)) (hr : IsBreak r) :
    (exponent (c :: (s ++ r))).2.head?.any isNameChar := by
  rw [List.forall_mem_cons] at hname
  simp only [exponent, takeSign_of_isNameChar hname.2 hr]
  split
  · rename_i hexp
    have hne : s ≠ [] := by
      rintro rfl
      simp [hr.head (p := Char.isDigit) (by decide)] at hexp
    have hleft : s.dropWhile Char.isDigit ≠ [] := by
      rw [Ne, List.dropWhile_eq_nil_iff]
      exact fun hall => h ⟨hexp.1, hne, hall⟩
    obtain ⟨d, ds, hds⟩ := List.exists_cons_of_ne_nil hleft
    have hd : d ∈ s := (List.dropWhile_suffix _).subset (hds ▸ List.mem_cons_self)
    simp [List.dropWhile_append, hds, hname.2 d hd]
  · simpa using hname.1

/-- The point after a whole number belongs to it, so a member of it is not read, unless its name
is read as an exponent. -/
theorem word?_whole_point {ds p : List Char} (hne : ds ≠ []) (hds : ∀ c ∈ ds, c.isDigit)
    (hp : Token.IsName p) :
    ∃ q : Option ℚ, ∀ r, IsBreak r →
      word? (ds ++ '.' :: (p ++ r)) = q.map fun q => (.number q, r) := by
  obtain ⟨c, s, rfl, hc, hs⟩ := hp
  have hfraction (r : List Char) : fraction ('.' :: (c :: s ++ r)) = ([], c :: s ++ r) := by
    simp [fraction, isDigit_of_isNameStart hc]
  have hname : ∀ d ∈ c :: s, isNameChar d := List.forall_mem_cons.2
    ⟨isNameChar_of_isNamePart (Token.isNamePart_of_isNameStart hc),
      fun d hd => isNameChar_of_isNamePart (hs d hd)⟩
  by_cases hexp : (c = 'e' ∨ c = 'E') ∧ s ≠ [] ∧ ∀ d ∈ s, d.isDigit
  · refine ⟨some (Nat.ofDigitChars 10 ds 0 * 10 ^ (Nat.ofDigitChars 10 s 0 : Int)), ?_⟩
    intro r hr
    rw [word?_digits hne hds (by simp), hfraction, List.cons_append,
      exponent_name hexp.1 hexp.2.1 hexp.2.2 hr,
      if_neg (by simp [hr.head (p := isNameChar) (by decide)])]
    simp
  · refine ⟨none, ?_⟩
    intro r hr
    rw [word?_digits hne hds (by simp), hfraction, List.cons_append,
      if_pos (head?_exponent_name hname hexp hr)]
    rfl

theorem hexValue?_hexDigit {k : Nat} (h : k < 16) : hexValue? (hexDigit k).toLower = some k := by
  have hall : ∀ k < 16, hexValue? (hexDigit k).toLower = some k := by decide
  exact hall k h

theorem string?_unitEscape {n : Nat} (h : n < 0x10000) (r : List Char) :
    string? (Ascii.unitEscape n ++ r) = (string? r).map fun p => (n :: p.1, p.2) := by
  have hnumber : hexNumber? (hex 4 n) = some n := by
    simp only [hexNumber?, hex, List.foldlM_cons, List.foldlM_nil, hexValue?_hexDigit, Nat.mod_lt,
      Nat.zero_lt_succ, Option.map_some, Option.bind_eq_bind, Option.bind_some, Nat.pow_eq]
    exact congrArg some (by omega)
  have hcons : ∃ a b c d, hex 4 n = [a, b, c, d] := ⟨_, _, _, _, rfl⟩
  obtain ⟨a, b, c, d, habcd⟩ := hcons
  rw [habcd] at hnumber
  rw [Ascii.unitEscape, habcd]
  simp only [List.cons_append, List.nil_append, string?, hnumber, Option.bind_eq_bind,
    Option.bind_some]
  cases string? r <;> rfl

theorem string?_char {c : Char} (h : c ≠ '"' ∧ c ≠ '\\' ∧ c ≠ '\n' ∧ c ≠ '\r') (r : List Char) :
    string? (c :: r) = (string? r).map fun p => (units16 c ++ p.1, p.2) := by
  obtain ⟨hquote, hslash, hline, hreturn⟩ := h
  rw [string?]
  · rw [if_neg (by simp [hslash, hline, hreturn])]
    cases string? r <;> rfl
  · exact hquote
  · intro _ _ _ _ _ hc
    exact absurd hc hslash
  · intro _ _ hc
    exact absurd hc hslash

theorem string?_escaped {c : Char} {n : Nat} (h : escaped? c = some n) (r : List Char) :
    string? ('\\' :: c :: r) = (string? r).map fun p => (n :: p.1, p.2) := by
  rw [string?]
  · rw [h]
    cases string? r <;> rfl
  · rintro a b d e s hc -
    rw [hc] at h
    cases h

theorem string?_escape (c : Char) (r : List Char) :
    string? (Ascii.escape c ++ r) = (string? r).map fun p => (units16 c ++ p.1, p.2) := by
  unfold Ascii.escape
  split_ifs with hmarks hline hreturn htab hback hfeed hplain hbasic
  · obtain rfl | rfl := hmarks <;> exact string?_escaped rfl r
  · rw [hline]
    exact string?_escaped rfl r
  · rw [hreturn]
    exact string?_escaped rfl r
  · rw [htab]
    exact string?_escaped rfl r
  · rw [hback]
    exact string?_escaped rfl r
  · rw [hfeed]
    exact string?_escaped rfl r
  · rw [not_or] at hmarks
    exact string?_char ⟨hmarks.1, hmarks.2, hline, hreturn⟩ r
  · rw [string?_unitEscape hbasic, units16, if_pos hbasic]
    rfl
  · have hvalid : c.toNat < 0x110000 := by
      obtain hlow | hhigh := c.valid
      · exact Nat.lt_trans hlow (by decide)
      · exact hhigh.2
    rw [List.append_assoc, string?_unitEscape (by omega), string?_unitEscape (by omega), units16,
      if_neg hbasic, Option.map_map]
    rfl

theorem word?_encodeChars (s r : List Char) :
    word? (Ascii.encodeChars s ++ r) = some (.string (s.flatMap units16), r) := by
  have hstring : string? (s.flatMap Ascii.escape ++ '"' :: r) = some (s.flatMap units16, r) := by
    induction s with
    | nil => rfl
    | cons c s ih =>
      rw [List.flatMap_cons, List.append_assoc, string?_escape, ih]
      rfl
  rw [Ascii.encodeChars, List.cons_append, List.cons_append, List.append_assoc]
  simp [word?, isNameChar, hstring]

def Spells (P : List Char → Prop) (x : List Char) (us : Option (List Word)) : Prop :=
  ∀ rest, P rest → words (x ++ rest) = us.bind fun us => (words rest).map (us ++ ·)

variable {P Q : List Char → Prop} {x y : List Char} {us vs : Option (List Word)}

theorem Spells.mono (h : Spells P x us) (hQ : ∀ rest, Q rest → P rest) : Spells Q x us :=
  fun rest hrest => h rest (hQ rest hrest)

theorem Spells.append (hx : Spells P x us) (hy : Spells Q y vs)
    (hP : ∀ rest, Q rest → P (y ++ rest)) :
    Spells Q (x ++ y) (Option.map₂ (· ++ ·) us vs) := by
  intro rest hrest
  rw [List.append_assoc, hx _ (hP rest hrest), hy rest hrest]
  cases us <;> cases vs <;> cases words rest <;> simp

theorem Spells.word {w : Word} (h : ∀ rest, P rest → word? (x ++ rest) = some (w, rest)) :
    Spells P x (some [w]) := by
  intro rest hrest
  rw [words_of_word? (h rest hrest)]
  rfl

theorem Spells.nil : Spells P [] (some []) := by
  intro rest _
  simp

theorem Spells.parens (h : Spells IsEnd x us) :
    Spells P ('(' :: (x ++ [')'])) (us.map fun us => .opening :: us ++ [.closing]) := by
  intro rest _
  have hopen : word? ('(' :: (x ++ ')' :: rest)) = some (.opening, x ++ ')' :: rest) := rfl
  have hclose : word? (')' :: rest) = some (.closing, rest) := rfl
  rw [List.cons_append, List.append_assoc, List.singleton_append, words_of_word? hopen,
    h (')' :: rest) rfl, words_of_word? hclose]
  cases us <;> cases words rest <;> simp

theorem Spells.member (h : Spells IsBreak x us) {p : String} (hp : Token.IsName p.toList) :
    Spells IsBreak (x ++ '.' :: p.toList) (us.map (· ++ [.point, .name p])) := by
  have hpoint : Spells IsBreak ('.' :: p.toList) (some [.point, .name p]) := by
    intro rest hrest
    have hname := words_of_word? (word?_name hp hrest)
    obtain ⟨c, s, hcs, hc, -⟩ := hp
    rw [hcs] at hname ⊢
    rw [List.cons_append, List.cons_append, words_of_word? (word?_point hc _), ← List.cons_append,
      hname]
    cases words rest <;> simp
  have happend := h.append hpoint fun _ _ => rfl
  cases us <;> simpa using happend

theorem Spells.call (h : Spells IsEnd x us) (hargs : Spells IsEnd y vs) :
    Spells P (x ++ '(' :: (y ++ [')']))
      (Option.map₂ (fun us vs => us ++ .opening :: vs ++ [.closing]) us vs) := by
  have happend := h.append (hargs.parens (P := P)) fun _ _ => rfl
  cases us <;> cases vs <;> simpa using happend

theorem Spells.operator (op : Operator) :
    Spells P (' ' :: (op.symbol.toList ++ [' '])) (some [.operator op]) := by
  intro rest _
  rw [List.cons_append, words_space, List.append_assoc, List.singleton_append,
    words_of_word? (word?_operator op rest), words_space]
  rfl

theorem Spells.binary (op : Operator) (hx : Spells IsEnd x us) (hy : Spells P y vs) :
    Spells P (x ++ ' ' :: (op.symbol.toList ++ ' ' :: y))
      (Option.map₂ (fun us vs => us ++ .operator op :: vs) us vs) := by
  have hright := (Spells.operator (P := fun _ => True) op).append hy fun _ _ => trivial
  have happend := hx.append hright fun _ _ => rfl
  cases us <;> cases vs <;> simpa using happend

theorem Spells.comma (hx : Spells IsEnd x us) (hy : Spells P y vs) :
    Spells P (x ++ ',' :: ' ' :: y) (Option.map₂ (fun us vs => us ++ .comma :: vs) us vs) := by
  have hcomma : Spells (fun _ => True) [',', ' '] (some [.comma]) := by
    intro rest _
    have hword : word? (',' :: ' ' :: rest) = some (.comma, ' ' :: rest) := rfl
    rw [List.cons_append, List.singleton_append, words_of_word? hword, words_space]
    rfl
  have happend := hx.append (hcomma.append hy fun _ _ => trivial) fun _ _ => rfl
  cases us <;> cases vs <;> simpa using happend

def signWords (negative : Bool) : List Word := if negative then [.operator .sub] else []

theorem Spells.sign {c : Char} (hc : c.isDigit) (negative : Bool) (h : Spells P (c :: x) us) :
    Spells P (Numeral.sign negative ++ c :: x) (us.map (signWords negative ++ ·)) := by
  cases negative with
  | false => simpa [Numeral.sign, signWords] using h
  | true =>
    intro rest hrest
    have hx := h rest hrest
    rw [List.cons_append] at hx
    rw [Numeral.sign, if_pos rfl, List.singleton_append, List.cons_append, List.cons_append,
      words_of_word? (word?_minus hc _), hx]
    cases us <;> cases words rest <;> simp [signWords]

end StructLang.Script
