import StructLang.Proofs.Token.Covering
import StructLang.Proofs.Token.Hygiene

namespace StructLang.Token

open Text Rule

def IsFixed (w : String) : Prop := w ∈ Library.keywords ∨ w ∈ Ty.primitives

/-- The text begins with a decimal digit beyond ASCII. -/
def BeginsWide (s : List Char) : Prop := ∃ d ∈ s.head?, isDecimal d ∧ 128 ≤ d.toNat

structure Taken (s : List Char) (o : Nat) (t : Token) : Prop where
  stands : StandsAt s o t
  first : ∃ n ws, firstMatch (s.drop o) = some (some t.kind, n) ∧
    (s.drop o).take n = t.text.toList ∧ Lexes ((s.drop o).drop n) ws

theorem scanFrom_taken {file : String} {c last : Cursor} {before rest : List Char}
    {ts : List Token} (hc : c = ({} : Cursor).advance before)
    (h : scanFrom file c rest = .ok (ts, last)) : ∀ t ∈ ts, ∃ o, Taken (before ++ rest) o t := by
  induction c, rest using scanFrom.induct generalizing before ts with
  | case1 c =>
    rw [scanFrom] at h
    cases h
    simp
  | case2 c ch rest hmatch =>
    rw [scanFrom] at h
    split at h
    · cases h
    · rename_i hsome
      cases hmatch.symm.trans hsome
  | case3 c ch rest kind n hmatch text =>
    rename_i ih
    rw [scanFrom_of_firstMatch file c hmatch] at h
    obtain ⟨⟨us, last'⟩, hscan, h⟩ := bind_eq_ok.1 h
    cases h
    have hsplit : before ++ text ++ (ch :: rest).drop n = before ++ ch :: rest := by
      rw [List.append_assoc, List.take_append_drop]
    have hadvance : c.advance text = ({} : Cursor).advance (before ++ text) := by
      rw [hc, Cursor.advance_append]
    have hlater := ih hadvance hscan
    rw [hsplit] at hlater
    cases kind with
    | none => exact hlater
    | some k =>
      have hline : c.line = lineAt before before.length := by rw [hc, Cursor.advance_eq]
      have hcolumn : c.column = columnAt before before.length := by rw [hc, Cursor.column_advance]
      refine List.forall_mem_cons.2 ⟨⟨before.length, ?_, n, us.map word, ?_, ?_, ?_⟩, hlater⟩
      · rw [hline, hcolumn]
        exact standsAt_take before (ch :: rest) n k
      · rw [List.drop_left]
        exact hmatch
      · rw [List.drop_left, String.toList_ofList]
      · rw [List.drop_left]
        exact lexes_of_scanFrom hscan

theorem taken_of_scan {file source : String} {ts : List Token} {t : Token}
    (h : scan file source = .ok ts) (ht : t ∈ ts) (hreturn : t.kind ≠ .returnType)
    (htext : t.text ≠ "") : ∃ o, Taken source.toList o t := by
  obtain ⟨⟨us, last⟩, hscan, h⟩ := bind_eq_ok.1 h
  cases h
  have hstart : ({} : Cursor) = ({} : Cursor).advance [] := rfl
  obtain ht | rfl := by simpa using ht
  · exact scanFrom_taken hstart hscan t (mem_of_mem_mergeReturnTypes ht hreturn)
  · exact absurd rfl htext

theorem IsFixed.isName {w : String} (h : IsFixed w) : IsName w.toList := by
  obtain h | h := h
  · exact isName_of_mem_keywords h
  · have hall : ∀ p ∈ Ty.primitives, p.toList.head?.any isNameStart ∧
        p.toList.tail.all isNamePart := by decide
    exact isName_iff.2 (hall w h)

theorem IsFixed.ne_empty {w : String} (h : IsFixed w) : w ≠ "" := by
  obtain ⟨c, s, hs, -, -⟩ := h.isName
  rintro rfl
  cases hs

theorem isWord_of_isDecimal {c : Char} (h : isDecimal c) (hc : 128 ≤ c.toNat) : isWord c := by
  obtain ⟨z, hz, hle, hlt⟩ := exists_zero_of_isDecimal h
  have hall : digitZeros.all fun z => z == 48 ||
      wordRanges.any fun p => Nat.ble p.1 z && Nat.ble (z + 9) p.2 := by
    decide +kernel
  have hz := List.all_eq_true.1 hall z hz
  simp only [Bool.or_eq_true, beq_iff_eq, List.any_eq_true, Bool.and_eq_true, Nat.ble_eq] at hz
  obtain rfl | ⟨p, hp, hpz, hzp⟩ := hz
  · omega
  · have hhas : wordRanges.has c := List.any_eq_true.2 ⟨p, hp, by simp; omega⟩
    simp [isWord, hc, hhas]

theorem isDecimal_of_number {c : Char} {s : List Char} {n : Nat}
    (h : firstMatch (c :: s) = some (some .number, n)) (hc : c ≠ '-') : isDecimal c := by
  obtain ⟨rule, hrule, htry⟩ := List.exists_of_findSome?_eq_some h
  obtain ⟨hkind, hlength⟩ := tryRule_eq_some htry
  have hnumbers : ∀ r ∈ rules, r.1 = some .number → r.2 = Rule.number := by simp [rules]
  rw [hnumbers rule hrule hkind] at hlength
  by_contra hdecimal
  rw [number_eq_none hc (by simpa using hdecimal)] at hlength
  cases hlength

theorem Lexes.beginsWide {c : Char} {s : List Char} {ws : List (TokenKind × String)}
    (h : Lexes (c :: s) ws) (hc : isWord c) (hpart : isNamePart c = false) :
    BeginsWide (c :: s) := by
  obtain ⟨hwide, -⟩ := isWide_of_isWord hc hpart
  have hminus : c ≠ '-' := by
    rintro rfl
    exact absurd hwide (by decide)
  refine ⟨c, rfl, ?_, hwide⟩
  cases h with
  | skip hmatch _ => cases number_of_isWord hc hpart hmatch
  | token hmatch _ =>
    cases number_of_isWord hc hpart hmatch
    exact isDecimal_of_number hmatch hminus

theorem beginsWide_of_identifier {s : List Char} {n : Nat} {ws : List (TokenKind × String)}
    (h : firstMatch s = some (some .identifier, n)) (hrest : Lexes (s.drop n) ws)
    (hend : atWordEnd (s.drop n) = false) : BeginsWide (s.drop n) := by
  have hpart := isNamePart_of_identifier (identifier_of_firstMatch h)
  cases hs : s.drop n with
  | nil =>
    rw [hs] at hend
    cases hend
  | cons c r =>
    rw [hs] at hrest hpart hend
    exact hrest.beginsWide (by simpa [atWordEnd] using hend) (hpart c rfl)

theorem BeginsWide.atWordEnd {s : List Char} (h : BeginsWide s) : atWordEnd s = false := by
  obtain ⟨d, hd, hdecimal, hwide⟩ := h
  cases s with
  | nil => cases hd
  | cons c s =>
    cases hd
    simp [Text.atWordEnd, isWord_of_isDecimal hdecimal hwide]

def nameRules : List (Option TokenKind × Rule) := [
  (some .keyword, Rule.keyword),
  (some .type, Ty.literalLength),
  (some .identifier, Rule.identifier)]

theorem firstMatch_nameStart {c : Char} {s : List Char} (hc : isNameStart c) :
    firstMatch (c :: s) = nameRules.findSome? (tryRule (c :: s)) := by
  have hslash : c ≠ '/' := by
    rintro rfl
    exact absurd hc (by decide)
  have hidentifier : Rule.identifier (c :: s) = some (1 + (s.takeWhile isNamePart).length) := by
    rw [Rule.identifier, if_pos hc]
  have hpos : 0 < 1 + (s.takeWhile isNamePart).length := by omega
  rw [firstMatch, rules, skip_rule (lineComment_eq_none _ hslash),
    skip_rule (blockComment_eq_none _ hslash), nameRules]
  simp only [List.findSome?_cons, tryRule, hidentifier, Option.bind_some, if_pos hpos]

theorem atWordEnd_of_findWord {words : List String} {s : List Char} {m n : Nat}
    (h : findWord words s = some m) (hm : m ≤ n) (hword : ∀ c ∈ s.take n, isWord c) :
    atWordEnd (s.drop n) := by
  obtain ⟨-, -, -, -, hend⟩ := Ty.exists_of_findWord h
  rw [← slice_append_drop s hm] at hend
  have hnil : slice s m n = [] :=
    atWordEnd_append (fun c hc => hword c (List.mem_of_mem_drop hc)) hend
  rwa [hnil, List.nil_append] at hend

theorem exists_of_literalLength_eq {s : List Char} {n : Nat} (h : Ty.literalLength s = some n) :
    ∃ m ≤ n, findWord Ty.primitives s = some m := by
  obtain ⟨l, hl, rfl⟩ := Option.map_eq_some_iff.1 h
  obtain ⟨m, hm, rfl⟩ := Option.map_eq_some_iff.1 hl
  refine ⟨m, ?_, hm⟩
  split <;> omega

theorem identifier_of_isName {s : List Char} {k : TokenKind} {n : Nat}
    (h : firstMatch s = some (some k, n)) (hname : IsName (s.take n))
    (hend : atWordEnd (s.drop n) = false) : k = .identifier := by
  have hword := hname.isWord
  obtain ⟨c, u, htake, hc, -⟩ := hname
  cases s with
  | nil => simp at htake
  | cons d r =>
    obtain rfl : d = c := by
      cases n with
      | zero => cases htake
      | succ n => exact (List.cons.inj htake).1
    rw [firstMatch_nameStart hc] at h
    obtain ⟨rule, hrule, htry⟩ := List.exists_of_findSome?_eq_some h
    obtain ⟨hkind, hlength⟩ := tryRule_eq_some htry
    simp only [nameRules, List.mem_cons, List.not_mem_nil, or_false] at hrule
    -- the first two rules stop only where a word ends, in the name or behind it
    obtain rfl | rfl | rfl := hrule
    · rw [atWordEnd_of_findWord hlength (Nat.le_refl n) hword] at hend
      cases hend
    · obtain ⟨m, hm, hfound⟩ := exists_of_literalLength_eq hlength
      rw [atWordEnd_of_findWord hfound hm hword] at hend
      cases hend
    · exact (Option.some.inj hkind).symm

theorem kind_of_atWordEnd {s : List Char} {k : TokenKind} {n : Nat} {w : String}
    (hw : IsFixed w) (h : firstMatch s = some (some k, n)) (htake : s.take n = w.toList)
    (hend : atWordEnd (s.drop n)) : k = if w ∈ Library.keywords then .keyword else .type := by
  have hapart : ∀ p ∈ Ty.primitives, p ∉ Library.keywords := by decide
  rw [← List.take_append_drop n s, htake] at h
  by_cases hprim : w ∈ Ty.primitives
  · obtain ⟨m, hm⟩ := firstMatch_primitive hprim hend
    rw [if_neg (hapart w hprim)]
    cases h.symm.trans hm
    rfl
  · have hkeyword : w ∈ Library.keywords := hw.resolve_right hprim
    have hm := firstMatch_name hw.isName (by rwa [String.ofList_toList]) hend
    rw [String.ofList_toList, if_pos hkeyword] at hm
    rw [if_pos hkeyword]
    cases h.symm.trans hm
    rfl

/-- A token that is spelled like a keyword or a primitive type is one, unless a digit beyond ASCII
stands right behind it: then, and only then, it is an identifier. -/
theorem identifier_iff_beginsWide {file source : String} {ts : List Token} {t : Token}
    (h : scan file source = .ok ts) (ht : t ∈ ts) (hreturn : t.kind ≠ .returnType)
    (hw : IsFixed t.text) :
    ∃ o, StandsAt source.toList o t ∧
      (t.kind = .identifier ↔ BeginsWide (source.toList.drop (o + t.text.length))) ∧
      (t.kind ≠ .identifier →
        t.kind = if t.text ∈ Library.keywords then .keyword else .type) := by
  obtain ⟨o, hstands, n, ws, hmatch, htake, hrest⟩ := taken_of_scan h ht hreturn hw.ne_empty
  have hname : IsName ((source.toList.drop o).take n) := htake ▸ hw.isName
  have hdrop : source.toList.drop (o + t.text.length) = (source.toList.drop o).drop n := by
    rw [← String.length_toList, ← htake, List.length_take, ← List.drop_drop,
      ← List.drop_eq_drop_min]
  refine ⟨o, hstands, ?_⟩
  rw [hdrop]
  refine ⟨⟨fun hkind => ?_, fun hwide => ?_⟩, fun hkind => ?_⟩
  · rw [hkind] at hmatch
    apply beginsWide_of_identifier hmatch hrest
    rw [Bool.eq_false_iff]
    intro hend
    have hclash := kind_of_atWordEnd hw hmatch htake hend
    split at hclash
    · cases hclash
    · cases hclash
  · exact identifier_of_isName hmatch hname hwide.atWordEnd
  · cases hend : atWordEnd ((source.toList.drop o).drop n) with
    | false => exact absurd (identifier_of_isName hmatch hname hend) hkind
    | true => exact kind_of_atWordEnd hw hmatch htake hend

namespace Mixed

def source : String := "len٣ len"

def tokens : List Token :=
  [⟨.identifier, "len", 1, 1⟩, ⟨.number, "٣", 1, 4⟩, ⟨.keyword, "len", 1, 6⟩, ⟨.eof, "", 1, 9⟩]

theorem scan_source : scan "main.struct" source = .ok tokens :=
  toOption_eq_some.1 (by decide +kernel)

end Mixed

open Mixed in
theorem identifier_iff_beginsWide_mixed :
    scan "main.struct" source = .ok tokens ∧ IsFixed "len" ∧
      (∃ o, StandsAt source.toList o ⟨.identifier, "len", 1, 1⟩ ∧
        BeginsWide (source.toList.drop (o + 3))) ∧
      ∃ o, StandsAt source.toList o ⟨.keyword, "len", 1, 6⟩ ∧
        ¬BeginsWide (source.toList.drop (o + 3)) := by
  have hw : IsFixed "len" := .inl (by decide)
  obtain ⟨o, hstands, hiff, -⟩ := identifier_iff_beginsWide scan_source
    (List.mem_cons_self ..) (by decide) hw
  obtain ⟨o', hstands', hiff', -⟩ := identifier_iff_beginsWide scan_source
    (t := ⟨.keyword, "len", 1, 6⟩) (by simp [tokens]) (by decide) hw
  have hnarrow : ¬BeginsWide (source.toList.drop (o' + 3)) := fun hwide => by cases hiff'.2 hwide
  exact ⟨scan_source, hw, ⟨o, hstands, hiff.1 rfl⟩, o', hstands', hnarrow⟩

theorem identifier_len : ∃ ts, scan "main.struct" "len٣" = .ok ts ∧
    ∃ t ∈ ts, t.kind = .identifier ∧ t.text ∈ Library.keywords := by
  have hscan : scan "main.struct" "len٣" =
      .ok [⟨.identifier, "len", 1, 1⟩, ⟨.number, "٣", 1, 4⟩, ⟨.eof, "", 1, 5⟩] :=
    toOption_eq_some.1 (by decide +kernel)
  exact ⟨_, hscan, _, List.mem_cons_self .., rfl, by decide⟩

end StructLang.Token
