import Mathlib.Data.List.TakeWhile
import StructLang.Proofs.Number.Decimal
import StructLang.Token.Scan

namespace StructLang.Token

open Text Rule

def findWord (words : List String) (s : List Char) : Option Nat :=
  words.findSome? fun k =>
    if k.toList.isPrefixOf s && atWordEnd (s.drop k.length) then some k.length else none

theorem primitiveLength_eq_findWord (s : List Char) :
    Ty.primitiveLength s = findWord Ty.primitives s := rfl

theorem atWordEnd_append {u rest : List Char} (hu : ∀ c ∈ u, isWord c)
    (h : atWordEnd (u ++ rest)) : u = [] := by
  cases u with
  | nil => rfl
  | cons c u => simp [atWordEnd, hu c (by simp)] at h

theorem eq_of_prefix_of_atWordEnd {k w rest : List Char} (hk : ∀ c ∈ k, isWord c)
    (hw : ∀ c ∈ w, isWord c) (hrest : atWordEnd rest) (hp : k <+: w ++ rest)
    (hend : atWordEnd ((w ++ rest).drop k.length)) : k = w := by
  obtain ⟨u, rfl⟩ | ⟨u, rfl⟩ := List.prefix_or_prefix_of_prefix hp (List.prefix_append w rest)
  · rw [List.append_assoc, List.drop_left] at hend
    have hu : u = [] := atWordEnd_append (fun c hc => hw c (by simp [hc])) hend
    simp [hu]
  · obtain ⟨v, rfl⟩ := (List.prefix_append_right_inj w).1 hp
    have hu : u = [] := atWordEnd_append (fun c hc => hk c (by simp [hc])) hrest
    simp [hu]

theorem findWord_append {words : List String} {w rest : List Char}
    (hwords : ∀ k ∈ words, k.toList.all isWord) (hw : ∀ c ∈ w, isWord c)
    (hrest : atWordEnd rest) :
    findWord words (w ++ rest) = if String.ofList w ∈ words then some w.length else none := by
  induction words with
  | nil => rfl
  | cons k words ih =>
    have htail := ih fun k' hk' => hwords k' (by simp [hk'])
    rw [findWord, List.findSome?_cons]
    by_cases hk : k = String.ofList w
    · subst hk
      simp [hrest]
    · have hne : (k.toList.isPrefixOf (w ++ rest) &&
          atWordEnd ((w ++ rest).drop k.length)) = false := by
        rw [Bool.eq_false_iff]
        intro h
        simp only [Bool.and_eq_true, List.isPrefixOf_iff_prefix, ← String.length_toList] at h
        apply hk
        rw [← eq_of_prefix_of_atWordEnd (List.all_eq_true.1 (hwords k (by simp))) hw hrest h.1 h.2,
          String.ofList_toList]
      have hmem : String.ofList w ∈ k :: words ↔ String.ofList w ∈ words := by simp [Ne.symm hk]
      rw [hne]
      simp only [Bool.false_eq_true, if_false, hmem]
      exact htail

theorem findWord_eq_none {words : List String} {c : Char} {s : List Char}
    (h : ∀ k ∈ words, k.toList.head?.any (· ≠ c)) : findWord words (c :: s) = none := by
  rw [findWord, List.findSome?_eq_none_iff]
  intro k hk
  have hhead := h k hk
  cases hl : k.toList with
  | nil => simp [hl] at hhead
  | cons d u =>
    have hd : d ≠ c := by simpa [hl] using hhead
    simp [List.isPrefixOf, hd]

def IsName (w : List Char) : Prop :=
  ∃ c s, w = c :: s ∧ isNameStart c ∧ ∀ d ∈ s, isNamePart d

theorem isWord_of_isNamePart {c : Char} (h : isNamePart c) : isWord c := by
  simp only [isNamePart, Bool.or_eq_true] at h
  obtain h | h := h
  · simp [isWord, h]
  · simp [isWord, h]

theorem isNamePart_of_isNameStart {c : Char} (h : isNameStart c) : isNamePart c := by
  simp only [isNameStart, Bool.or_eq_true] at h
  obtain h | h := h
  · simp [isNamePart, Char.isAlphanum, h]
  · simp [isNamePart, h]

theorem IsName.isWord {w : List Char} (h : IsName w) : ∀ c ∈ w, isWord c := by
  obtain ⟨c, s, rfl, hc, hs⟩ := h
  intro d hd
  obtain rfl | hd := List.mem_cons.1 hd
  · exact isWord_of_isNamePart (isNamePart_of_isNameStart hc)
  · exact isWord_of_isNamePart (hs d hd)

theorem isName_iff {w : List Char} :
    IsName w ↔ w.head?.any isNameStart ∧ w.tail.all isNamePart := by
  cases w with
  | nil => simp [IsName]
  | cons c s =>
    constructor
    · rintro ⟨c, s, ⟨⟩, hc, hs⟩
      exact ⟨by simpa using hc, List.all_eq_true.2 hs⟩
    · rintro ⟨hc, hs⟩
      exact ⟨c, s, rfl, by simpa using hc, List.all_eq_true.1 hs⟩

instance : DecidablePred IsName := fun _ => decidable_of_iff _ isName_iff.symm

theorem isName_of_mem_keywords {k : String} (h : k ∈ Library.keywords) : IsName k.toList := by
  have hall : ∀ k ∈ Library.keywords, k.toList.head?.any isNameStart ∧
      k.toList.tail.all isNamePart := by decide
  exact isName_iff.2 (hall k h)

theorem skip_rule {s : List Char} {kind : Option TokenKind} {rule : Rule}
    {rs : List (Option TokenKind × Rule)} (h : rule s = none) :
    ((kind, rule) :: rs).findSome? (tryRule s) = rs.findSome? (tryRule s) := by
  simp [tryRule, h]

theorem take_rule {s : List Char} {kind : Option TokenKind} {rule : Rule} {n : Nat}
    {rs : List (Option TokenKind × Rule)} (h : rule s = some n) (hn : 0 < n) :
    ((kind, rule) :: rs).findSome? (tryRule s) = some (kind, n) := by
  simp [tryRule, h, hn]

theorem lineComment_eq_none {c : Char} (s : List Char) (h : c ≠ '/') :
    Rule.lineComment (c :: s) = none := by
  rw [Rule.lineComment]
  rintro t ⟨⟩
  exact h rfl

theorem blockComment_eq_none {c : Char} (s : List Char) (h : c ≠ '/') :
    Rule.blockComment (c :: s) = none := by
  rw [Rule.blockComment]
  rintro t ⟨⟩
  exact h rfl

theorem takeWhile_isNamePart {rest : List Char} (h : atWordEnd rest) :
    rest.takeWhile isNamePart = [] := by
  cases rest with
  | nil => rfl
  | cons c s =>
    have hc : isNamePart c = false := by
      rw [Bool.eq_false_iff]
      intro hc
      simp [atWordEnd, isWord_of_isNamePart hc] at h
    simp [hc]

theorem identifier_append {c : Char} {s rest : List Char} (hc : isNameStart c)
    (hs : ∀ d ∈ s, isNamePart d) (hrest : atWordEnd rest) :
    Rule.identifier (c :: s ++ rest) = some (c :: s).length := by
  rw [List.cons_append, Rule.identifier, if_pos hc, List.takeWhile_append_of_pos hs,
    takeWhile_isNamePart hrest, List.append_nil, List.length_cons, Nat.add_comm]

theorem literalLength_eq_none {w rest : List Char} (hw : IsName w)
    (hprim : String.ofList w ∉ Ty.primitives) (hrest : atWordEnd rest) :
    Ty.literalLength (w ++ rest) = none := by
  have hwords : ∀ k ∈ Ty.primitives, k.toList.all isWord := by decide
  rw [Ty.literalLength, Ty.memberLength, primitiveLength_eq_findWord,
    findWord_append hwords hw.isWord hrest, if_neg hprim]
  rfl

theorem firstMatch_name {w rest : List Char} (hw : IsName w)
    (hprim : String.ofList w ∉ Ty.primitives) (hrest : atWordEnd rest) :
    firstMatch (w ++ rest) =
      some (some (if String.ofList w ∈ Library.keywords then .keyword else .identifier),
        w.length) := by
  have hkeyword : Rule.keyword (w ++ rest) =
      if String.ofList w ∈ Library.keywords then some w.length else none :=
    findWord_append (fun k hk => List.all_eq_true.2 (isName_of_mem_keywords hk).isWord) hw.isWord
      hrest
  have htype := literalLength_eq_none hw hprim hrest
  obtain ⟨c, s, rfl, hc, hs⟩ := hw
  have hslash : c ≠ '/' := by
    rintro rfl
    exact absurd hc (by decide)
  have hline : Rule.lineComment (c :: s ++ rest) = none := lineComment_eq_none _ hslash
  have hblock : Rule.blockComment (c :: s ++ rest) = none := blockComment_eq_none _ hslash
  rw [firstMatch, rules, skip_rule hline, skip_rule hblock]
  by_cases hk : String.ofList (c :: s) ∈ Library.keywords
  · rw [if_pos hk] at hkeyword ⊢
    exact take_rule hkeyword (Nat.succ_pos _)
  · rw [if_neg hk] at hkeyword ⊢
    rw [skip_rule hkeyword, skip_rule htype]
    exact take_rule (identifier_append hc hs hrest) (Nat.succ_pos _)

theorem findWord_eq_none_of_isNameStart {words : List String} {c : Char} {s : List Char}
    (hwords : ∀ k ∈ words, k.toList.head?.any isNameStart) (h : isNameStart c = false) :
    findWord words (c :: s) = none := by
  apply findWord_eq_none
  intro k hk
  have hhead := hwords k hk
  cases hl : k.toList with
  | nil => simp [hl] at hhead
  | cons d u =>
    have hd : isNameStart d := by simpa [hl] using hhead
    have hne : d ≠ c := by
      rintro rfl
      simp [h] at hd
    simpa using hne

def markRules : List (Option TokenKind × Rule) := [
  (some .number, Rule.number),
  (some .string, Rule.string),
  (some .symbol, Rule.symbol),
  (some .operator, Rule.longOperator),
  (some .operator, Rule.shortOperator),
  (none, Rule.blank)]

theorem firstMatch_mark {c : Char} {s : List Char} (hline : Rule.lineComment (c :: s) = none)
    (hblock : Rule.blockComment (c :: s) = none) (hc : isNameStart c = false) :
    firstMatch (c :: s) = markRules.findSome? (tryRule (c :: s)) := by
  have hkeyword : Rule.keyword (c :: s) = none :=
    findWord_eq_none_of_isNameStart (by decide) hc
  have htype : Ty.literalLength (c :: s) = none := by
    rw [Ty.literalLength, Ty.memberLength, primitiveLength_eq_findWord,
      findWord_eq_none_of_isNameStart (by decide) hc]
    rfl
  have hident : Rule.identifier (c :: s) = none := by simp [Rule.identifier, hc]
  rw [firstMatch, rules, skip_rule hline, skip_rule hblock, skip_rule hkeyword, skip_rule htype,
    skip_rule hident]
  rfl

theorem unsigned_eq_none {s : List Char} (h : s.takeWhile isDecimal = []) :
    Rule.unsigned s = none := by
  simp [Rule.unsigned, h]

theorem number_eq_none {c : Char} {s : List Char} (hminus : c ≠ '-') (hc : isDecimal c = false) :
    Rule.number (c :: s) = none := by
  rw [Rule.number]
  · exact unsigned_eq_none (by simp [hc])
  · rintro t ⟨⟩
    exact hminus rfl

theorem string_eq_none {c : Char} {s : List Char} (hdouble : c ≠ '"') (hsingle : c ≠ '\'') :
    Rule.string (c :: s) = none := by
  rw [Rule.string]
  · rintro t ⟨⟩
    exact hdouble rfl
  · rintro t ⟨⟩
    exact hsingle rfl

/-- What follows does not go on with a number: neither a digit nor a point and a digit. -/
structure EndsNumber (rest : List Char) : Prop where
  digit : rest.takeWhile isDecimal = []
  point : ∀ t, rest = '.' :: t → t.takeWhile isDecimal = []

theorem unsigned_append {ds rest : List Char} (hds : ∀ c ∈ ds, isDecimal c) (hne : ds ≠ [])
    (hrest : EndsNumber rest) : Rule.unsigned (ds ++ rest) = some ds.length := by
  have htake : (ds ++ rest).takeWhile isDecimal = ds := by
    rw [List.takeWhile_append_of_pos hds, hrest.digit, List.append_nil]
  have hdrop : (ds ++ rest).dropWhile isDecimal = rest := by
    rw [List.dropWhile_append_of_pos hds]
    have hall := List.takeWhile_append_dropWhile (p := isDecimal) (l := rest)
    rwa [hrest.digit, List.nil_append] at hall
  rw [Rule.unsigned, htake, hdrop]
  cases ds with
  | nil => exact absurd rfl hne
  | cons d ds =>
    split
    · rename_i hlength
      simp at hlength
    · rename_i hpoint
      rw [hrest.point _ rfl]
      rfl
    · rfl

theorem firstMatch_number (n : Int) {rest : List Char} (hrest : EndsNumber rest) :
    firstMatch ((toString n).toList ++ rest) = some (some .number, (toString n).toList.length) := by
  rw [toList_toString_int]
  have hunsigned : Rule.unsigned (decimalDigits n ++ rest) = some (decimalDigits n).length :=
    unsigned_append (fun c hc => isDecimal_of_isDigit (isDigit_of_mem_decimalDigits hc))
      (decimalDigits_ne_nil n) hrest
  by_cases hn : n < 0
  · rw [if_pos hn]
    have hnumber : Rule.number ('-' :: (decimalDigits n ++ rest)) =
        some ('-' :: decimalDigits n).length := by
      rw [Rule.number, hunsigned]
      rfl
    rw [List.append_assoc, List.singleton_append, List.singleton_append,
      firstMatch_mark (lineComment_eq_none _ (by decide)) (blockComment_eq_none _ (by decide))
        (by decide)]
    exact take_rule hnumber (Nat.succ_pos _)
  · rw [if_neg hn, List.nil_append]
    cases hd : decimalDigits n with
    | nil => exact absurd hd (decimalDigits_ne_nil n)
    | cons d ds =>
      have hdigit : d.isDigit := isDigit_of_mem_decimalDigits (n := n) (by simp [hd])
      have hne : ∀ c, c.isDigit = false → d ≠ c := by
        rintro c hc rfl
        simp [hdigit] at hc
      have hnumber : Rule.number (d :: (ds ++ rest)) = some (d :: ds).length := by
        rw [Rule.number]
        · rw [hd] at hunsigned
          exact hunsigned
        · rintro t ⟨⟩
          exact hne '-' (by decide) rfl
      have hname : isNameStart d = false := by
        have hc := forall_ascii (p := fun c => !(c.isDigit && isNameStart c)) (by decide)
          (toNat_lt_of_isDigit hdigit)
        simpa [hdigit] using hc
      rw [List.cons_append, firstMatch_mark (lineComment_eq_none _ (hne '/' (by decide)))
        (blockComment_eq_none _ (hne '/' (by decide))) hname]
      exact take_rule hnumber (Nat.succ_pos _)

theorem firstMatch_string {s : List Char} (hs : '"' ∉ s) (rest : List Char) :
    firstMatch ('"' :: s ++ '"' :: rest) = some (some .string, s.length + 2) := by
  have htake : (s ++ '"' :: rest).takeWhile (· ≠ '"') = s := by
    rw [List.takeWhile_append_of_pos]
    · simp
    · intro c hc
      have hne : c ≠ '"' := by
        rintro rfl
        exact hs hc
      simpa using hne
  have hstring : Rule.string ('"' :: (s ++ '"' :: rest)) = some (s.length + 2) := by
    rw [Rule.string, Rule.quoted, htake]
    simp
  rw [List.cons_append, firstMatch_mark (lineComment_eq_none _ (by decide))
    (blockComment_eq_none _ (by decide)) (by decide)]
  rw [markRules, skip_rule (number_eq_none (by decide) (by decide))]
  exact take_rule hstring (Nat.succ_pos _)

theorem firstMatch_symbol {c : Char} (hc : c ∈ Rule.symbols) (rest : List Char) :
    firstMatch (c :: rest) = some (some .symbol, 1) := by
  have hall : Rule.symbols.all fun c => !isNameStart c && !isDecimal c &&
      !(['/', '-', '"', '\'', '='].contains c) := by decide
  have hmarks := List.all_eq_true.1 hall c hc
  simp only [Bool.and_eq_true, Bool.not_eq_true', List.contains_cons, Bool.or_eq_false_iff,
    beq_eq_false_iff_ne] at hmarks
  obtain ⟨⟨hname, hdigit⟩, hslash, hminus, hdouble, hsingle, hequal, -⟩ := hmarks
  have hsymbol : Rule.symbol (c :: rest) = some 1 := by
    rw [Rule.symbol]
    · simp [hc]
    · rintro t ⟨⟩ _
      exact hequal rfl
  rw [firstMatch_mark (lineComment_eq_none _ hslash) (blockComment_eq_none _ hslash) hname]
  rw [markRules, skip_rule (number_eq_none hminus hdigit),
    skip_rule (string_eq_none hdouble hsingle)]
  exact take_rule hsymbol Nat.one_pos

theorem firstMatch_punctuation {c : Char} {s : List Char}
    (hline : Rule.lineComment (c :: s) = none) (hblock : Rule.blockComment (c :: s) = none)
    (hc : isNameStart c = false) (hnumber : Rule.number (c :: s) = none)
    (hstring : Rule.string (c :: s) = none) (hsymbol : Rule.symbol (c :: s) = none) :
    firstMatch (c :: s) = [(some .operator, Rule.longOperator),
      (some .operator, Rule.shortOperator), (none, Rule.blank)].findSome? (tryRule (c :: s)) := by
  rw [firstMatch_mark hline hblock hc, markRules, skip_rule hnumber, skip_rule hstring,
    skip_rule hsymbol]

theorem firstMatch_operator (op : Operator) (rest : List Char) :
    firstMatch (op.symbol.toList ++ ' ' :: rest) =
      some (some .operator, op.symbol.toList.length) := by
  have hspace : Rule.unsigned (' ' :: rest) = none :=
    unsigned_eq_none (List.takeWhile_cons_of_neg (by decide))
  cases op with
  | sub =>
    change firstMatch ('-' :: ' ' :: rest) = _
    rw [firstMatch_punctuation rfl rfl (by decide) (by rw [Rule.number, hspace]; rfl) rfl rfl]
    rfl
  | _ =>
    exact firstMatch_punctuation rfl rfl (by decide) (number_eq_none (by decide) (by decide))
      rfl rfl

theorem firstMatch_blank {c : Char} (hc : isBlank c) (s : List Char) :
    firstMatch (c :: s) = some (none, (s.takeWhile isBlank).length + 1) := by
  have hmarks : ∀ {ms : List Char}, (ms.all fun m => !isBlank m) → c ∉ ms := by
    intro ms hms hmem
    have hblank := List.all_eq_true.1 hms c hmem
    simp [hc] at hblank
  have hne : ∀ m, isBlank m = false → c ≠ m := by
    rintro m hm rfl
    simp [hm] at hc
  have hname : isNameStart c = false := by
    rw [isNameStart, Bool.or_eq_false_iff, beq_eq_false_iff_ne]
    refine ⟨Bool.eq_false_iff.2 fun halpha => ?_, hne '_' (by decide)⟩
    simp [isBlank_of_isAlphanum (c := c) (by simp [Char.isAlphanum, halpha])] at hc
  have hdigit : isDecimal c = false := by
    rw [Bool.eq_false_iff]
    intro hdigit
    simp [isBlank_of_isDecimal hdigit] at hc
  have hsymbol : Rule.symbol (c :: s) = none := by
    rw [Rule.symbol.eq_def]
    split
    · rfl
    · rename_i heq
      cases heq
      exact if_neg (mt List.mem_cons.2 (hmarks (by decide)))
    · rfl
  have hlong : Rule.longOperator (c :: s) = none := by
    cases s with
    | nil => rfl
    | cons d s =>
      exact if_neg fun hmem => hmarks (by decide) (List.mem_map_of_mem (f := Prod.fst) hmem)
  have hshort : Rule.shortOperator (c :: s) = none := if_neg (hmarks (by decide))
  have hblank : Rule.blank (c :: s) = some ((s.takeWhile isBlank).length + 1) := by
    simp [Rule.blank, hc]
  have hslash : c ≠ '/' := hne '/' (by decide)
  rw [firstMatch_punctuation (lineComment_eq_none _ hslash) (blockComment_eq_none _ hslash) hname
    (number_eq_none (hne '-' (by decide)) hdigit)
    (string_eq_none (hne '"' (by decide)) (hne '\'' (by decide))) hsymbol,
    skip_rule hlong, skip_rule hshort]
  exact take_rule hblank (Nat.succ_pos _)

theorem firstMatch_space {rest : List Char} (hrest : rest.takeWhile isBlank = []) :
    firstMatch (' ' :: rest) = some (none, 1) := by
  rw [firstMatch_blank (by decide), hrest]
  rfl

end StructLang.Token
