import StructLang.Proofs.Token.Lexes
import StructLang.Proofs.Ty.Written

namespace StructLang.Token

open Text Rule

theorem isPrefixOf_append_space {k : List Char} (hk : ' ' ∉ k) (s rest : List Char) :
    k.isPrefixOf (s ++ ' ' :: rest) = k.isPrefixOf s := by
  induction k generalizing s with
  | nil => simp
  | cons c k ih =>
    rw [List.mem_cons, not_or] at hk
    cases s with
    | nil => simp [List.isPrefixOf, Ne.symm hk.1]
    | cons d s => simp only [List.cons_append, List.isPrefixOf, ih hk.2]

theorem takeWhile_append_space {p : Char → Bool} (hp : p ' ' = false) (s rest : List Char) :
    (s ++ ' ' :: rest).takeWhile p = s.takeWhile p := by
  induction s with
  | nil => simp [hp]
  | cons c s ih => simp only [List.cons_append, List.takeWhile_cons, ih]

theorem dropWhile_append_space {p : Char → Bool} (hp : p ' ' = false) (s rest : List Char) :
    (s ++ ' ' :: rest).dropWhile p = s.dropWhile p ++ ' ' :: rest := by
  induction s with
  | nil => simp [hp]
  | cons c s ih =>
    simp only [List.cons_append, List.dropWhile_cons, ih]
    split <;> rfl

theorem atWordEnd_append_space (s rest : List Char) :
    atWordEnd (s ++ ' ' :: rest) = atWordEnd s := by
  cases s with
  | nil => exact (by decide : (!isWord ' ') = true)
  | cons c s => rfl

/-- A rule that reads within the text, and that a space stops like the end of the text. -/
structure StopsAtSpace (r : Rule) : Prop where
  le_length : ∀ {s n}, r s = some n → n ≤ s.length
  append_space : ∀ s rest, r (s ++ ' ' :: rest) = r s

theorem stopsAtSpace_findWord (words : List String) (h : ∀ k ∈ words, ' ' ∉ k.toList) :
    StopsAtSpace (findWord words) where
  le_length hfound := by
    obtain ⟨w, -, htake, hlength, -⟩ := Ty.exists_of_findWord hfound
    have hle := congrArg List.length htake
    rw [String.length_toList, hlength, List.length_take] at hle
    omega
  append_space s rest := by
    induction words with
    | nil => rfl
    | cons k words ih =>
      have hfound : (k.toList.isPrefixOf (s ++ ' ' :: rest) &&
          atWordEnd ((s ++ ' ' :: rest).drop k.length)) =
          (k.toList.isPrefixOf s && atWordEnd (s.drop k.length)) := by
        rw [isPrefixOf_append_space (h k (by simp))]
        cases hk : k.toList.isPrefixOf s with
        | false => rfl
        | true =>
          have hle := (List.isPrefixOf_iff_prefix.1 hk).length_le
          rw [String.length_toList] at hle
          rw [List.drop_append_of_le_length hle, atWordEnd_append_space]
      have htail := ih fun k' hk' => h k' (by simp [hk'])
      rw [findWord, findWord] at htail ⊢
      rw [List.findSome?_cons, List.findSome?_cons, hfound, htail]

theorem stopsAtSpace_keyword : StopsAtSpace Rule.keyword :=
  stopsAtSpace_findWord Library.keywords (by decide)

theorem stopsAtSpace_memberLength : StopsAtSpace Ty.memberLength where
  le_length {s n} h := by
    obtain ⟨m, hm, rfl⟩ := Option.map_eq_some_iff.1 h
    have hle := (stopsAtSpace_findWord Ty.primitives (by decide)).le_length hm
    split
    · rename_i hbrackets
      have hlength := (List.isPrefixOf_iff_prefix.1 hbrackets).length_le
      simp only [List.length_cons, List.length_nil, List.length_drop] at hlength
      omega
    · exact hle
  append_space s rest := by
    have hstops := stopsAtSpace_findWord Ty.primitives (by decide)
    rw [Ty.memberLength, Ty.memberLength, primitiveLength_eq_findWord,
      primitiveLength_eq_findWord, hstops.append_space]
    refine Option.map_congr fun n hn => ?_
    rw [List.drop_append_of_le_length (hstops.le_length hn), isPrefixOf_append_space (by decide)]

theorem furtherLength_le (s : List Char) : Ty.furtherLength s ≤ s.length := by
  fun_induction Ty.furtherLength s with
  | case1 s n hn ih =>
    have hle := stopsAtSpace_memberLength.le_length hn
    simp only [List.length_drop] at ih
    simp only [List.length_cons]
    omega
  | case2 | case3 => exact Nat.zero_le _

theorem furtherLength_append_space (s rest : List Char) :
    Ty.furtherLength (s ++ ' ' :: rest) = Ty.furtherLength s := by
  fun_induction Ty.furtherLength s with
  | case1 s n hn ih =>
    have hmember := stopsAtSpace_memberLength.append_space s rest
    rw [hn] at hmember
    rw [List.cons_append, Ty.furtherLength, hmember]
    simp only
    rw [List.drop_append_of_le_length (stopsAtSpace_memberLength.le_length hn), ih]
  | case2 s hnone =>
    have hmember := stopsAtSpace_memberLength.append_space s rest
    rw [hnone] at hmember
    rw [List.cons_append, Ty.furtherLength, hmember]
  | case3 s hbar =>
    cases s with
    | nil => rw [List.nil_append, Ty.furtherLength]; simp
    | cons c s =>
      rw [List.cons_append, Ty.furtherLength]
      rintro t ⟨⟩
      exact hbar s rfl

theorem stopsAtSpace_literalLength : StopsAtSpace Ty.literalLength where
  le_length {s n} h := by
    obtain ⟨m, hm, rfl⟩ := Option.map_eq_some_iff.1 h
    have hle := stopsAtSpace_memberLength.le_length hm
    have hfurther := furtherLength_le (s.drop m)
    rw [List.length_drop] at hfurther
    omega
  append_space s rest := by
    rw [Ty.literalLength, Ty.literalLength, stopsAtSpace_memberLength.append_space]
    refine Option.map_congr fun n hn => ?_
    rw [List.drop_append_of_le_length (stopsAtSpace_memberLength.le_length hn),
      furtherLength_append_space]

theorem stopsAtSpace_identifier : StopsAtSpace Rule.identifier where
  le_length {s n} h := by
    cases s with
    | nil => cases h
    | cons c s =>
      rw [Rule.identifier] at h
      split at h
      · cases h
        have hle := (List.takeWhile_prefix (l := s) isNamePart).length_le
        simp only [List.length_cons]
        omega
      · cases h
  append_space s rest := by
    cases s with
    | nil => rfl
    | cons c s =>
      rw [List.cons_append, Rule.identifier, Rule.identifier,
        takeWhile_append_space (by decide)]

theorem stopsAtSpace_unsigned : StopsAtSpace Rule.unsigned where
  le_length {s n} h := by
    have hsplit := congrArg List.length (List.takeWhile_append_dropWhile (p := isDecimal) (l := s))
    rw [List.length_append] at hsplit
    rw [Rule.unsigned] at h
    split at h
    · cases h
    · rename_i t hdrop _
      have hle := (List.takeWhile_prefix (l := t) isDecimal).length_le
      rw [hdrop, List.length_cons] at hsplit
      split at h
      · cases h
        omega
      · cases h
        omega
    · cases h
      omega
  append_space s rest := by
    have hspace : isDecimal ' ' = false := by decide
    rw [Rule.unsigned, Rule.unsigned, takeWhile_append_space hspace,
      dropWhile_append_space hspace]
    generalize (s.takeWhile isDecimal).length = n
    generalize s.dropWhile isDecimal = t
    cases t with
    | nil => cases n <;> rfl
    | cons c t =>
      by_cases hpoint : c = '.'
      · subst hpoint
        cases n with
        | zero => rfl
        | succ n => simp only [List.cons_append, takeWhile_append_space hspace]
      · cases n with
        | zero => rfl
        | succ n => simp [hpoint]

theorem stopsAtSpace_number : StopsAtSpace Rule.number where
  le_length {s n} h := by
    rw [Rule.number.eq_def] at h
    split at h
    · obtain ⟨m, hm, rfl⟩ := Option.map_eq_some_iff.1 h
      exact Nat.succ_le_succ (stopsAtSpace_unsigned.le_length hm)
    · exact stopsAtSpace_unsigned.le_length h
  append_space s rest := by
    have hunsigned := stopsAtSpace_unsigned.append_space
    cases s with
    | nil => exact hunsigned [] rest
    | cons c s =>
      by_cases hminus : c = '-'
      · subst hminus
        rw [List.cons_append, Rule.number, Rule.number, hunsigned]
      · rw [List.cons_append, Rule.number, Rule.number, ← List.cons_append, hunsigned]
        all_goals
          rintro t ⟨⟩
          exact hminus rfl

theorem stopsAtSpace_symbol : StopsAtSpace Rule.symbol where
  le_length {s n} h := by
    rw [Rule.symbol.eq_def] at h
    split at h
    · cases h
    · split at h
      · cases h
        simp
      · cases h
    · cases h
  append_space s rest := by
    cases s with
    | nil => rfl
    | cons c s =>
      cases s with
      | nil => simp [Rule.symbol]
      | cons d s =>
        by_cases hdouble : c = '=' ∧ d = '='
        · obtain ⟨rfl, rfl⟩ := hdouble
          rfl
        · rw [List.cons_append, List.cons_append, Rule.symbol, Rule.symbol]
          all_goals
            rintro t hc ht
            exact hdouble ⟨hc, (List.cons.inj ht).1⟩

theorem stopsAtSpace_longOperator : StopsAtSpace Rule.longOperator where
  le_length {s n} h := by
    rw [Rule.longOperator.eq_def] at h
    split at h
    · split at h
      · cases h
        simp
      · cases h
    · cases h
  append_space s rest := by
    match s with
    | [] => cases rest <;> simp [Rule.longOperator]
    | [c] => simp [Rule.longOperator]
    | _ :: _ :: _ => rfl

theorem stopsAtSpace_shortOperator : StopsAtSpace Rule.shortOperator where
  le_length {s n} h := by
    cases s with
    | nil => cases h
    | cons c s =>
      rw [Rule.shortOperator] at h
      split at h
      · cases h
        simp
      · cases h
  append_space s rest := by
    cases s with
    | nil => rfl
    | cons c s => rfl

theorem quoted_append {q : Char} {s : List Char} {n : Nat} (h : quoted q s = some n)
    (rest : List Char) : quoted q (s ++ rest) = some n := by
  simp only [quoted] at h ⊢
  split at h
  · rename_i hlt
    have htake : (s ++ rest).takeWhile (· ≠ q) = s.takeWhile (· ≠ q) := by
      rw [List.takeWhile_append, if_neg (by omega)]
    rw [htake, List.length_append, if_pos (by omega), h]
  · cases h

theorem le_length_of_string {s : List Char} {n : Nat} (h : Rule.string s = some n) :
    n ≤ s.length := by
  have hquoted : ∀ {q u}, quoted q u = some n → n ≤ u.length + 1 := by
    intro q u hq
    rw [quoted] at hq
    split at hq
    · cases hq
      omega
    · cases hq
  rw [Rule.string.eq_def] at h
  split at h
  · exact hquoted h
  · exact hquoted h
  · cases h

theorem firstMatch_openQuote {q : Char} {s : List Char} (hq : q = '"' ∨ q = '\'')
    (h : Rule.string (q :: s) = none) (k : TokenKind) (n : Nat) :
    firstMatch (q :: s) ≠ some (some k, n) := by
  intro hmatch
  have hlong : Rule.longOperator (q :: s) = none := by
    cases s with
    | nil => rfl
    | cons c s => obtain rfl | rfl := hq <;> simp [Rule.longOperator]
  have hmarks : firstMatch (q :: s) = [(none, Rule.blank)].findSome? (tryRule (q :: s)) := by
    obtain rfl | rfl := hq
    all_goals
      rw [firstMatch_punctuation (lineComment_eq_none _ (by decide))
        (blockComment_eq_none _ (by decide)) (by decide) (number_eq_none (by decide) (by decide)) h
        (by simp [Rule.symbol, symbols]), skip_rule hlong, skip_rule rfl]
  rw [hmarks] at hmatch
  obtain ⟨rule, hrule, htry⟩ := List.exists_of_findSome?_eq_some hmatch
  cases List.mem_singleton.1 hrule
  cases (tryRule_eq_some htry).1

theorem string_append_space {s : List Char} {k : TokenKind} {n : Nat}
    (h : firstMatch s = some (some k, n)) (rest : List Char) :
    Rule.string (s ++ ' ' :: rest) = Rule.string s := by
  cases s with
  | nil => rfl
  | cons c s =>
    by_cases hquote : c = '"' ∨ c = '\''
    · cases hstring : Rule.string (c :: s) with
      | none => exact absurd h (firstMatch_openQuote hquote hstring k n)
      | some m => obtain rfl | rfl := hquote <;> exact quoted_append hstring _
    · rw [not_or] at hquote
      rw [List.cons_append, string_eq_none hquote.1 hquote.2, string_eq_none hquote.1 hquote.2]

theorem comments_eq_none {s : List Char} {k : TokenKind} {n : Nat}
    (h : firstMatch s = some (some k, n)) :
    Rule.lineComment s = none ∧ Rule.blockComment s = none := by
  have hline : Rule.lineComment s = none := by
    rw [Rule.lineComment.eq_def]
    split
    · rw [firstMatch, rules, take_rule rfl (by omega)] at h
      cases h
    · rfl
  refine ⟨hline, ?_⟩
  cases hblock : Rule.blockComment s with
  | none => rfl
  | some m =>
    have hpos : 0 < m := by
      rw [Rule.blockComment.eq_def] at hblock
      split at hblock
      · obtain ⟨l, -, rfl⟩ := Option.map_eq_some_iff.1 hblock
        omega
      · cases hblock
    rw [firstMatch, rules, skip_rule hline, take_rule hblock hpos] at h
    cases h

theorem lineComment_append_space {s : List Char} (h : Rule.lineComment s = none)
    (rest : List Char) : Rule.lineComment (s ++ ' ' :: rest) = none := by
  rw [Rule.lineComment.eq_def] at h ⊢
  split at h
  · cases h
  · rename_i hopen
    split
    · rename_i t heq
      match s with
      | [] => simp at heq
      | [c] => simp at heq
      | c :: d :: u =>
        simp only [List.cons_append, List.cons.injEq] at heq
        obtain ⟨rfl, rfl, -⟩ := heq
        exact absurd rfl (hopen u)
    · rfl

/-- An opened comment is read as an operator, so it is not the whole of a token. -/
theorem blockComment_append_space {s : List Char} {k : TokenKind}
    (h : firstMatch s = some (some k, s.length)) (rest : List Char) :
    Rule.blockComment (s ++ ' ' :: rest) = none := by
  have hblock := (comments_eq_none h).2
  match s with
  | [] => rfl
  | [c] =>
    rw [List.singleton_append, Rule.blockComment]
    simp
  | c :: d :: u =>
    by_cases hopen : c = '/' ∧ d = '*'
    · obtain ⟨rfl, rfl⟩ := hopen
      rw [firstMatch_punctuation rfl hblock (by decide) (number_eq_none (by decide) (by decide))
        rfl (by simp [Rule.symbol, symbols]), skip_rule (by simp [Rule.longOperator]),
        take_rule (n := 1) (by simp [Rule.shortOperator]) Nat.one_pos] at h
      simp at h
    · rw [List.cons_append, List.cons_append, Rule.blockComment]
      intro t ht
      simp only [List.cons.injEq] at ht
      exact hopen ⟨ht.1, ht.2.1⟩

theorem le_length_of_firstMatch {s : List Char} {k : TokenKind} {n : Nat}
    (h : firstMatch s = some (some k, n)) : n ≤ s.length := by
  obtain ⟨rule, hrule, htry⟩ := List.exists_of_findSome?_eq_some h
  obtain ⟨hkind, hlength⟩ := tryRule_eq_some htry
  have hrules : ∀ r ∈ rules, r.1 = none ∨ StopsAtSpace r.2 ∨ r.2 = Rule.string := by
    simp [rules, stopsAtSpace_keyword, stopsAtSpace_literalLength, stopsAtSpace_identifier,
      stopsAtSpace_number, stopsAtSpace_symbol, stopsAtSpace_longOperator,
      stopsAtSpace_shortOperator]
  obtain hnone | hstops | hstring := hrules rule hrule
  · rw [hnone] at hkind
    cases hkind
  · exact hstops.le_length hlength
  · rw [hstring] at hlength
    exact le_length_of_string hlength

theorem firstMatch_append_space {s : List Char} {k : TokenKind}
    (h : firstMatch s = some (some k, s.length)) (rest : List Char) :
    firstMatch (s ++ ' ' :: rest) = some (some k, s.length) := by
  have hcomments := comments_eq_none h
  have hline : Rule.lineComment (s ++ ' ' :: rest) = Rule.lineComment s := by
    rw [lineComment_append_space hcomments.1, hcomments.1]
  have hblock : Rule.blockComment (s ++ ' ' :: rest) = Rule.blockComment s := by
    rw [blockComment_append_space h, hcomments.2]
  have hagree : ∀ r ∈ rules.dropLast, tryRule (s ++ ' ' :: rest) r = tryRule s r := by
    simp [rules, tryRule, hline, hblock, string_append_space h,
      stopsAtSpace_keyword.append_space, stopsAtSpace_literalLength.append_space,
      stopsAtSpace_identifier.append_space, stopsAtSpace_number.append_space,
      stopsAtSpace_symbol.append_space, stopsAtSpace_longOperator.append_space,
      stopsAtSpace_shortOperator.append_space]
  have hsplit : rules = rules.dropLast ++ [(none, Rule.blank)] := rfl
  rw [firstMatch, hsplit, List.findSome?_append, Option.or_eq_some_iff] at h ⊢
  obtain hfound | ⟨-, hblank⟩ := h
  · left
    rwa [← List.head?_filterMap, List.filterMap_congr hagree, List.head?_filterMap]
  · obtain ⟨rule, hrule, htry⟩ := List.exists_of_findSome?_eq_some hblank
    cases List.mem_singleton.1 hrule
    cases (tryRule_eq_some htry).1

theorem isBlank_of_firstMatch {c : Char} {s : List Char} {k : TokenKind} {n : Nat}
    (h : firstMatch (c :: s) = some (some k, n)) : isBlank c = false := by
  rw [Bool.eq_false_iff]
  intro hc
  rw [firstMatch_blank hc] at h
  cases h

theorem mergeReturnTypes_cons {a : Token} {ts : List Token}
    (h : ∀ b t rest, ts = b :: t :: rest → ¬(a.isSymbol ")" && b.isSymbol ":" &&
      (t.kind == .type || t.kind == .identifier))) :
    mergeReturnTypes (a :: ts) = a :: mergeReturnTypes ts := by
  match ts with
  | [] => rfl
  | [b] => rfl
  | b :: t :: rest => rw [mergeReturnTypes, if_neg (h b t rest rfl)]

theorem mergeReturnTypes_idem (ts : List Token) :
    mergeReturnTypes (mergeReturnTypes ts) = mergeReturnTypes ts := by
  fun_induction mergeReturnTypes ts with
  | case1 a b t rest hmerge ih =>
    rw [mergeReturnTypes_cons, mergeReturnTypes_cons, ih]
    · rintro c u us -
      simp [isSymbol]
    · rintro c u us heq
      obtain ⟨rfl, -⟩ := List.cons.inj heq
      simp [isSymbol]
  | case2 a b t rest hmerge ih =>
    rw [mergeReturnTypes_cons, ih]
    intro c u us heq hclash
    have hc : c = b := by
      have hhead := head?_mergeReturnTypes (b :: t :: rest)
      simpa [heq] using hhead
    subst hc
    -- A colon closes no parentheses, so the token after it stays as it is.
    have hcolon : mergeReturnTypes (c :: t :: rest) = c :: mergeReturnTypes (t :: rest) := by
      apply mergeReturnTypes_cons
      rintro d v vs - hc
      simp_all [isSymbol]
    have hu : u = t := by
      have hhead := head?_mergeReturnTypes (t :: rest)
      rw [hcolon] at heq
      rw [(List.cons.inj heq).2] at hhead
      simpa using hhead
    subst hu
    exact hmerge hclash
  | case3 ts hshort => rw [mergeReturnTypes]; exact hshort

theorem isSymbol_of_word {a b : Token} (h : word a = word b) (s : String) :
    a.isSymbol s = b.isSymbol s := by
  obtain ⟨hkind, htext⟩ := Prod.mk.inj h
  rw [isSymbol, isSymbol, hkind, htext]

theorem map_word_mergeReturnTypes {ts us : List Token} (h : ts.map word = us.map word) :
    (mergeReturnTypes ts).map word = (mergeReturnTypes us).map word := by
  fun_induction mergeReturnTypes ts generalizing us with
  | case1 a b t rest hmerge ih =>
    obtain ⟨a', us, rfl, ha, h⟩ := List.map_eq_cons_iff.1 h.symm
    obtain ⟨b', us, rfl, hb, h⟩ := List.map_eq_cons_iff.1 h
    obtain ⟨t', us, rfl, ht, h⟩ := List.map_eq_cons_iff.1 h
    obtain ⟨hkind, htext⟩ := Prod.mk.inj ht
    rw [mergeReturnTypes, isSymbol_of_word ha, isSymbol_of_word hb, hkind, if_pos hmerge]
    simp only [List.map_cons, ha, ih h.symm]
    simp [word, htext]
  | case2 a b t rest hmerge ih =>
    obtain ⟨a', us, rfl, ha, h⟩ := List.map_eq_cons_iff.1 h.symm
    obtain ⟨b', us, rfl, hb, h'⟩ := List.map_eq_cons_iff.1 h
    obtain ⟨t', us, rfl, ht, -⟩ := List.map_eq_cons_iff.1 h'
    obtain ⟨hkind, -⟩ := Prod.mk.inj ht
    rw [mergeReturnTypes, isSymbol_of_word ha, isSymbol_of_word hb, hkind, if_neg hmerge,
      List.map_cons, List.map_cons, ha, ih h.symm]
  | case3 ts hshort =>
    rw [mergeReturnTypes]
    · exact h
    · rintro a b t rest rfl
      obtain ⟨a', ts, rfl, -, h⟩ := List.map_eq_cons_iff.1 h
      obtain ⟨b', ts, rfl, -, h⟩ := List.map_eq_cons_iff.1 h
      obtain ⟨t', ts, rfl, -, -⟩ := List.map_eq_cons_iff.1 h
      exact hshort a' b' t' ts rfl

/-- The scanner reads the token's text as that token and nothing else. -/
def ScansAlone (file : String) (t : Token) : Prop :=
  ∃ us, scan file t.text = .ok us ∧ us.map word = [word t, (.eof, "")]

theorem Lexes.scan_merged {source : String} {ws : List (TokenKind × String)}
    {ts : List Token} (h : Lexes source.toList ws) (hts : ts.map Token.word = ws)
    (file : String) :
    ∃ us, Token.scan file source = .ok us ∧
      us.map Token.word = (mergeReturnTypes ts).map Token.word ++ [(.eof, "")] := by
  obtain ⟨us, last, hscan, hus⟩ := h.scanFrom file {}
  refine ⟨mergeReturnTypes us ++ [⟨.eof, "", last.line, last.column⟩], ?_, ?_⟩
  · rw [Token.scan, hscan]
    rfl
  · rw [List.map_append, map_word_mergeReturnTypes (hus.trans hts.symm)]
    rfl

theorem Lexes.single {t : Token}
    (h : firstMatch t.text.toList = some (some t.kind, t.text.toList.length)) :
    Lexes t.text.toList [t.word] := by
  have hword : Lexes (t.text.toList ++ []) [(t.kind, String.ofList t.text.toList)] :=
    Lexes.word (by rwa [List.append_nil]) .nil
  rwa [List.append_nil, String.ofList_toList] at hword

theorem scansAlone_iff {file : String} {t : Token} : ScansAlone file t ↔
    firstMatch t.text.toList = some (some t.kind, t.text.toList.length) := by
  constructor
  · rintro ⟨us, hscan, hus⟩
    obtain ⟨⟨ts, last⟩, hfrom, h⟩ := bind_eq_ok.1 hscan
    cases h
    have hmerge : (mergeReturnTypes ts).map word = [word t] := by
      have hinit := congrArg List.dropLast hus
      simpa using hinit
    obtain ⟨u, hu, hword⟩ := List.map_eq_singleton_iff.1 hmerge
    have hlexes := lexes_of_scanFrom hfrom
    rw [mergeReturnTypes_eq_singleton hu, List.map_singleton, hword] at hlexes
    obtain ⟨m, hmatch, htake⟩ := hlexes.firstMatch_of_single
    have hle := le_length_of_firstMatch hmatch
    have hge := congrArg List.length htake
    rw [List.length_take, Nat.min_eq_left hle] at hge
    rw [hmatch, hge]
  · intro h
    have hwords : [t].map word = [word t] := rfl
    exact (Lexes.single h).scan_merged hwords file

theorem lexes_intercalate {ts : List Token}
    (h : ∀ t ∈ ts, firstMatch t.text.toList = some (some t.kind, t.text.toList.length)) :
    Lexes (List.intercalate [' '] (ts.map (·.text.toList))) (ts.map word) := by
  induction ts with
  | nil => exact .nil
  | cons t ts ih =>
    rw [List.forall_mem_cons] at h
    have htail := ih h.2
    cases ts with
    | nil => simpa using Lexes.single h.1
    | cons u ts =>
      have hblank : (List.intercalate [' '] ((u :: ts).map (·.text.toList))).takeWhile isBlank =
          [] := by
        have hu := h.2 u (by simp)
        cases htext : u.text.toList with
        | nil =>
          rw [htext, firstMatch_nil] at hu
          cases hu
        | cons c v =>
          rw [htext] at hu
          have hc := isBlank_of_firstMatch hu
          cases ts <;> simp [htext, hc, List.intercalate_cons_cons]
      have hword := Lexes.word (firstMatch_append_space h.1 _) (Lexes.space hblank htail)
      rw [String.ofList_toList] at hword
      rw [List.map_cons, List.map_cons, List.intercalate_cons_cons, List.append_assoc]
      exact hword

theorem scan_intercalate (file : String) {ts : List Token} (h : ∀ t ∈ ts, ScansAlone file t) :
    (∃ us, scan file (" ".intercalate (ts.map Token.text)) = .ok us ∧
      us.map word = (mergeReturnTypes ts).map word ++ [(.eof, "")]) ∧
    ∀ us, mergeReturnTypes (mergeReturnTypes us) = mergeReturnTypes us := by
  refine ⟨?_, mergeReturnTypes_idem⟩
  have hlexes := lexes_intercalate fun t ht => scansAlone_iff.1 (h t ht)
  refine Lexes.scan_merged ?_ rfl file
  rw [String.toList_intercalate, List.map_map]
  exact hlexes

namespace Samples

def apart : List Token := [
  ⟨.identifier, "f", 1, 1⟩, ⟨.symbol, "(", 1, 2⟩, ⟨.symbol, ")", 1, 3⟩, ⟨.symbol, ":", 1, 4⟩,
  ⟨.type, "number|string[]", 1, 5⟩, ⟨.operator, "|", 1, 20⟩, ⟨.type, "boolean", 1, 21⟩,
  ⟨.operator, "-", 1, 28⟩, ⟨.number, "5", 1, 29⟩, ⟨.symbol, ".", 1, 30⟩, ⟨.number, "25", 1, 31⟩,
  ⟨.operator, "/", 1, 33⟩, ⟨.operator, "/", 1, 34⟩, ⟨.symbol, "=", 1, 35⟩, ⟨.symbol, "=", 1, 36⟩,
  ⟨.operator, "/", 1, 37⟩, ⟨.operator, "*", 1, 38⟩, ⟨.string, "\" )\"", 1, 39⟩,
  ⟨.keyword, "return", 1, 43⟩]

theorem firstMatch_apart : ∀ t ∈ apart,
    firstMatch t.text.toList = some (some t.kind, t.text.toList.length) := by
  decide +kernel

end Samples

theorem scan_intercalate_apart :
    (∀ t ∈ Samples.apart, ScansAlone "main.struct" t) ∧
    ∃ us, scan "main.struct"
        "f ( ) : number|string[] | boolean - 5 . 25 / / = = / * \" )\" return" = .ok us ∧
      us.map word = [(.identifier, "f"), (.symbol, "("), (.symbol, ")"),
        (.returnType, "number|string[]"), (.operator, "|"), (.type, "boolean"), (.operator, "-"),
        (.number, "5"), (.symbol, "."), (.number, "25"), (.operator, "/"), (.operator, "/"),
        (.symbol, "="), (.symbol, "="), (.operator, "/"), (.operator, "*"), (.string, "\" )\""),
        (.keyword, "return"), (.eof, "")] := by
  have halone : ∀ t ∈ Samples.apart, ScansAlone "main.struct" t := fun t ht =>
    scansAlone_iff.2 (Samples.firstMatch_apart t ht)
  obtain ⟨us, hscan, hus⟩ := (scan_intercalate "main.struct" halone).1
  exact ⟨halone, us, hscan, hus⟩

end StructLang.Token
