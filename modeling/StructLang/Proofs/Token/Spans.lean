import Mathlib.Data.List.TakeDrop
import StructLang.Proofs.Token.Lines
import StructLang.Proofs.Ty.Written

/-!
Spans as stretches of a source. Places come in the order of their offsets, so a span holds the
characters from its begin up to its end. The span of a token ends on the line where it begins: it
holds the text of the token up to the first line end in it, and only a string can have one.
-/

namespace StructLang

namespace Text

theorem lastPiece_append {sep : Char} {v : List Char} (h : sep ∉ v) (u : List Char) :
    lastPiece sep (u ++ v) = lastPiece sep u ++ v := by
  have hall : ∀ c ∈ v.reverse, decide (c ≠ sep) := fun c hc =>
    decide_eq_true fun heq => h (heq ▸ List.mem_reverse.1 hc)
  rw [lastPiece, List.reverse_append, List.takeWhile_append_of_pos hall, List.reverse_append,
    List.reverse_reverse]
  rfl

theorem firstPiece_eq_self_iff {sep : Char} {s : List Char} : firstPiece sep s = s ↔ sep ∉ s := by
  rw [firstPiece, List.takeWhile_eq_self_iff]
  constructor
  · exact fun h hmem => by simpa using h sep hmem
  · exact fun h c hc => decide_eq_true fun heq => h (heq ▸ hc)

theorem firstPiece_take (sep : Char) (s : List Char) (n : Nat) :
    firstPiece sep (s.take n) = (firstPiece sep s).take n :=
  List.take_takeWhile.symm

theorem notMem_take_iff {sep : Char} {s : List Char} {n : Nat} (h : n ≤ s.length) :
    sep ∉ s.take n ↔ n ≤ (firstPiece sep s).length := by
  rw [← firstPiece_eq_self_iff, firstPiece_take]
  constructor
  · intro heq
    have hlength := congrArg List.length heq
    rw [List.length_take, List.length_take_of_le h] at hlength
    omega
  · intro hle
    have hprefix : (firstPiece sep s).take n <+: s :=
      (List.take_prefix _ _).trans (List.takeWhile_prefix _)
    have heq := List.prefix_iff_eq_take.1 hprefix
    rwa [List.length_take_of_le hle] at heq

def firstLine (s : List Char) : List Char := s.take ((firstPiece '\n' s).length + 1)

theorem length_firstLine (s : List Char) :
    (firstLine s).length = min ((firstPiece '\n' s).length + 1) s.length := by
  rw [firstLine, List.length_take]

theorem firstLine_eq_self_iff {s : List Char} (h : s.getLast? ≠ some '\n') :
    firstLine s = s ↔ '\n' ∉ s := by
  induction s using List.reverseRecOn with
  | nil => simp [firstLine]
  | append_singleton s c _ =>
    have hc : '\n' ≠ c := fun heq => h (by simp [← heq])
    have hinit : '\n' ∉ (s ++ [c]).take s.length ↔ _ := notMem_take_iff (by simp)
    rw [List.take_left] at hinit
    rw [List.mem_append, List.mem_singleton, or_iff_left hc, hinit, firstLine,
      List.take_eq_self_iff, List.length_append, List.length_singleton, Nat.add_le_add_iff_right]

end Text

namespace Token

open Text

variable {s : List Char} {a b : Nat}

theorem take_append_slice (s : List Char) (h : a ≤ b) : s.take a ++ slice s a b = s.take b :=
  slice_append_slice s (Nat.zero_le a) h

theorem length_slice (s : List Char) (a b : Nat) :
    (slice s a b).length = min b s.length - a := by
  rw [slice, List.length_drop, List.length_take]

theorem lineAt_of_le (h : a ≤ b) : lineAt s b = lineAt s a + (slice s a b).count '\n' := by
  rw [lineAt, lineAt, ← take_append_slice s h, List.count_append, Nat.add_assoc]

theorem lineAt_eq_iff (h : a ≤ b) : lineAt s b = lineAt s a ↔ '\n' ∉ slice s a b := by
  rw [lineAt_of_le h, ← List.count_eq_zero]
  omega

theorem columnAt_add (h : a ≤ b) (hb : b ≤ s.length) (hline : '\n' ∉ slice s a b) :
    columnAt s b = columnAt s a + (b - a) := by
  rw [length_lastPiece s b hb, length_lastPiece s a (h.trans hb), ← take_append_slice s h,
    lastPiece_append hline, List.length_append, length_slice, Nat.min_eq_left hb]
  omega

def placeAt (s : List Char) (o : Nat) : Int × Int := (lineAt s o, columnAt s o)

def Before (p q : Int × Int) : Prop := p.1 < q.1 ∨ p.1 = q.1 ∧ p.2 < q.2

instance (p q : Int × Int) : Decidable (Before p q) := inferInstanceAs (Decidable (_ ∨ _))

theorem not_before_self (p : Int × Int) : ¬Before p p := by
  rw [Before]
  omega

theorem before_placeAt (h : a < b) (hb : b ≤ s.length) :
    Before (placeAt s a) (placeAt s b) := by
  by_cases hline : '\n' ∈ slice s a b
  · have hcount := List.count_pos_iff.2 hline
    have hlines := lineAt_of_le (s := s) h.le
    left
    simp only [placeAt]
    omega
  · have hlines := (lineAt_eq_iff h.le).2 hline
    have hcolumns := columnAt_add h.le hb hline
    right
    simp only [placeAt]
    omega

theorem before_placeAt_iff (ha : a ≤ s.length) (hb : b ≤ s.length) :
    Before (placeAt s a) (placeAt s b) ↔ a < b := by
  refine ⟨fun h => ?_, fun h => before_placeAt h hb⟩
  by_contra hle
  obtain rfl | hlt := (Nat.not_lt.1 hle).eq_or_lt
  · exact not_before_self _ h
  · have hback := before_placeAt hlt ha
    simp only [Before] at h hback
    omega

end Token

/-- The character at an offset lies in the span: not before its begin, but before its end. -/
def Span.Holds (l : Span) (s : List Char) (o : Nat) : Prop :=
  ¬Token.Before (Token.placeAt s o) (l.line, l.column) ∧
    Token.Before (Token.placeAt s o) (l.endLine, l.endColumn)

instance (l : Span) (s : List Char) (o : Nat) : Decidable (l.Holds s o) :=
  inferInstanceAs (Decidable (_ ∧ _))

def Span.excerpt (l : Span) (s : List Char) : List Char :=
  (s.zipIdx.filter fun p => l.Holds s p.2).map Prod.fst

theorem Span.excerpt_eq_slice {l : Span} {s : List Char} {a b : Nat} (hab : a ≤ b)
    (h : ∀ o < s.length, l.Holds s o ↔ a ≤ o ∧ o < b) : l.excerpt s = Token.slice s a b := by
  have hzip : s.zipIdx = (s.take a).zipIdx ++ ((Token.slice s a b).zipIdx (s.take a).length ++
      (s.drop b).zipIdx ((s.take a).length + (Token.slice s a b).length)) := by
    rw [← List.zipIdx_append, ← Nat.zero_add (s.take a).length, ← List.zipIdx_append,
      Token.slice_append_drop s hab, List.take_append_drop]
  have hslice := Token.length_slice s a b
  have htake := List.length_take (i := a) (l := s)
  have hdrop := List.length_drop (i := b) (l := s)
  have hbefore : ∀ p ∈ (s.take a).zipIdx, ¬decide (l.Holds s p.2) := by
    rintro ⟨c, i⟩ hp
    have hi := List.mem_zipIdx hp
    rw [decide_eq_true_iff, h i (by omega)]
    omega
  have hinside : ∀ p ∈ (Token.slice s a b).zipIdx (s.take a).length, decide (l.Holds s p.2) := by
    rintro ⟨c, i⟩ hp
    have hi := List.mem_zipIdx hp
    rw [decide_eq_true_iff, h i (by omega)]
    omega
  have hafter : ∀ p ∈ (s.drop b).zipIdx ((s.take a).length + (Token.slice s a b).length),
      ¬decide (l.Holds s p.2) := by
    rintro ⟨c, i⟩ hp
    have hi := List.mem_zipIdx hp
    rw [decide_eq_true_iff, h i (by omega)]
    omega
  rw [excerpt, hzip, List.filter_append, List.filter_append, List.filter_eq_nil_iff.2 hbefore,
    List.filter_eq_self.2 hinside, List.filter_eq_nil_iff.2 hafter, List.nil_append,
    List.append_nil, List.zipIdx_map_fst]

namespace Token

open Text

variable {file : String} {s : List Char} {o i : Nat} {t : Token}

theorem StandsAt.end_le_length (h : StandsAt s o t) (hpos : 0 < t.text.length) :
    o + t.text.length ≤ s.length := by
  have hlength := congrArg List.length h.text
  rw [length_slice, String.length_toList] at hlength
  omega

theorem StandsAt.slice_eq_take (h : StandsAt s o t) (hi : i ≤ t.text.length) :
    slice s o (o + i) = t.text.toList.take i := by
  rw [← h.text, slice, slice, List.drop_take, List.drop_take, List.take_take]
  congr 1
  omega

theorem StandsAt.lt_firstLine_iff (h : StandsAt s o t) (hle : o ≤ i) :
    i < o + (firstLine t.text.toList).length ↔
      '\n' ∉ slice s o i ∧ i < o + t.text.length := by
  rw [length_firstLine, String.length_toList]
  by_cases hlt : i < o + t.text.length
  · have hslice : slice s o i = t.text.toList.take (i - o) := by
      rw [← h.slice_eq_take (by omega), Nat.add_sub_cancel' hle]
    rw [hslice, notMem_take_iff (by rw [String.length_toList]; omega)]
    omega
  · omega

/-- The span of a token holds the token as far as its first line goes. -/
theorem StandsAt.holds_iff (h : StandsAt s o t) (hpos : 0 < t.text.length) (hi : i < s.length) :
    (t.span file).Holds s i ↔ o ≤ i ∧ i < o + (firstLine t.text.toList).length := by
  have hend := h.end_le_length hpos
  have hbegin : (t.line, t.column) = placeAt s o := by rw [h.line, h.column, placeAt]
  rw [Span.Holds, span, hbegin, before_placeAt_iff hi.le (by omega), Nat.not_lt]
  refine and_congr_right fun hle => ?_
  rw [h.lt_firstLine_iff hle, Before, placeAt, h.line, h.column]
  by_cases hline : '\n' ∈ slice s o i
  · have hcount := List.count_pos_iff.2 hline
    have hlines := lineAt_of_le (s := s) hle
    simp only [hline, not_true, false_and, iff_false]
    omega
  · have hlines := (lineAt_eq_iff hle).2 hline
    have hcolumns := columnAt_add hle hi.le hline
    simp only [hline, not_false_iff, true_and]
    omega

theorem StandsAt.excerpt_span (h : StandsAt s o t) (hpos : 0 < t.text.length) :
    (t.span file).excerpt s = firstLine t.text.toList := by
  rw [Span.excerpt_eq_slice (Nat.le_add_right o _) fun i hi => h.holds_iff hpos hi,
    h.slice_eq_take (by rw [length_firstLine, String.length_toList]; omega), length_firstLine,
    ← List.take_eq_take_min, firstLine]

theorem StandsAt.span_ne {u : Token} (h : StandsAt s o t) (h' : StandsAt s i u) (hlt : o < i)
    (hi : i ≤ s.length) : t.span file ≠ u.span file := by
  intro heq
  have hline : t.line = u.line := congrArg Span.line heq
  have hcolumn : t.column = u.column := congrArg Span.column heq
  rw [h.line, h'.line] at hline
  rw [h.column, h'.column] at hcolumn
  have hplaces : placeAt s o = placeAt s i := by rw [placeAt, placeAt, hline, hcolumn]
  exact not_before_self _ (hplaces ▸ before_placeAt hlt hi)

theorem nodup_spans_of_scan {source : String} {ts : List Token} (h : scan file source = .ok ts) :
    (ts.map (span file)).Nodup := by
  obtain ⟨ps, eof, rfl, hpairs, hps, -, heof⟩ := (scan_standsAt file source).of_ok h
  rw [List.map_append, List.map_map, List.nodup_append]
  refine ⟨List.pairwise_map.2 (hpairs.imp_of_mem fun {p q} hp hq hpq => ?_), by simp, ?_⟩
  · obtain ⟨hpos, hstands⟩ := hps p hp
    obtain ⟨hpos', hstands'⟩ := hps q hq
    exact hstands.span_ne hstands' (by omega) (hstands'.le_length hpos')
  · simp only [List.map_cons, List.map_nil, List.mem_map, List.mem_singleton, forall_eq]
    rintro _ ⟨p, hp, rfl⟩
    obtain ⟨hpos, hstands⟩ := hps p hp
    have hend := hstands.end_le_length hpos
    exact hstands.span_ne heof (by omega) (Nat.le_refl _)

theorem StandsAt.exists_line (h : StandsAt s o t) (hpos : 0 < t.text.length) :
    ∃ (k m : Nat) (line : List Char), (splitAt '\n' s)[k]? = some line ∧ t.line = k + 1 ∧
      t.column = m + 1 ∧ (line.drop m).take t.text.length = firstPiece '\n' t.text.toList ∧
      (m + t.text.length ≤ line.length ↔ '\n' ∉ t.text.toList) := by
  have hend := h.end_le_length hpos
  have htext : (s.drop o).take t.text.length = t.text.toList := by
    rw [← h.text, slice, List.drop_take, Nat.add_sub_cancel_left]
  have hget := getElem?_splitAt_append '\n' (s.take o) (s.drop o)
  rw [List.take_append_drop] at hget
  refine ⟨_, (lastPiece '\n' (s.take o)).length, _, hget, ?_, ?_, ?_, ?_⟩
  · rw [h.line, lineAt]
    omega
  · rw [h.column, length_lastPiece s o (by omega)]
    omega
  · rw [List.drop_left, ← firstPiece_take, htext]
  · rw [← htext, notMem_take_iff (by rw [List.length_drop]; omega), List.length_append]
    omega

/-! ## Line ends in tokens -/

open Rule

theorem forall_mergeReturnTypes {P : Token → Prop} {ts : List Token} (h : ∀ t ∈ ts, P t)
    (hP : ∀ t, P t → t.kind = .type ∨ t.kind = .identifier → P { t with kind := .returnType }) :
    ∀ t ∈ mergeReturnTypes ts, P t := by
  fun_induction mergeReturnTypes ts with
  | case1 a b t rest hmerge ih =>
    simp only [List.forall_mem_cons] at h ⊢
    obtain ⟨ha, -, ht, hrest⟩ := h
    have hkind : t.kind = .type ∨ t.kind = .identifier := by
      simpa using (Bool.and_eq_true_iff.1 hmerge).2
    exact ⟨ha, hP t ht hkind, ih hrest⟩
  | case2 a b t rest _ ih =>
    rw [List.forall_mem_cons] at h ⊢
    exact ⟨h.1, ih h.2⟩
  | case3 => exact h

theorem newline_notMem_name {w : List Char} (h : IsName w) : '\n' ∉ w := fun hmem => by
  have hline : isWord '\n' = false := by decide +kernel
  simpa [hline] using h.isWord _ hmem

theorem newline_notMem_literal {t : Ty} (h : t.IsLiteral) : '\n' ∉ t.text.toList := by
  have hprimitives : ∀ p ∈ Ty.primitives, '\n' ∉ p.toList := by decide
  have hmember : ∀ {m : Ty}, m.IsMember → '\n' ∉ m.text.toList := by
    rintro m (hp | hp)
    · exact hprimitives _ hp
    · simpa [Ty.text] using hprimitives _ hp
  cases h with
  | member hm => exact hmember hm
  | union hm hn hms =>
    rw [Ty.toList_text_union]
    simpa [Ty.furtherText, hmember hm, hmember hn] using fun o ho => hmember (hms o ho)

theorem newline_notMem_numeral {w : List Char} (h : Numeral.IsNumeral w) : '\n' ∉ w := by
  have hline : isDecimal '\n' = false := by decide +kernel
  have hdigits : ∀ {ds : List Char}, Numeral.IsDigits ds → '\n' ∉ ds := fun hds hmem => by
    simpa [hline] using hds.decimal _ hmem
  have hsign : ∀ negative, '\n' ∉ Numeral.sign negative := by decide
  cases h with
  | whole hds => simp [hsign, hdigits hds]
  | real hds hfs => simp [hsign, hdigits hds, hdigits hfs]

theorem getLast?_of_quoted {q : Char} {s : List Char} {n : Nat} (h : quoted q s = some n) :
    ((q :: s).take n).getLast? = some q := by
  rw [quoted] at h
  split at h
  · rename_i hlt
    cases h
    have hsplit := List.takeWhile_append_dropWhile (p := (· ≠ q)) (l := s)
    obtain ⟨c, r, hr⟩ : ∃ c r, s.dropWhile (· ≠ q) = c :: r := by
      apply List.exists_cons_of_ne_nil
      intro hnil
      rw [hnil, List.append_nil] at hsplit
      rw [hsplit] at hlt
      exact Nat.lt_irrefl _ hlt
    have hc : c = q := by
      have hnot := List.head?_dropWhile_not (· ≠ q) s
      rw [hr] at hnot
      simpa using hnot
    rw [hr, hc] at hsplit
    generalize s.takeWhile (· ≠ q) = w at hsplit ⊢
    rw [← hsplit, List.take_succ_cons, List.take_append, List.take_of_length_le (Nat.le_succ _),
      Nat.add_sub_cancel_left, List.take_succ_cons, List.take_zero, ← List.cons_append,
      List.getLast?_concat]
  · cases h

theorem newline_notMem_of_symbol {s : List Char} {n : Nat} (h : Rule.symbol s = some n) :
    '\n' ∉ s.take n := by
  have hsymbols : '\n' ∉ '=' :: symbols := by decide
  rw [Rule.symbol.eq_def] at h
  split at h
  · cases h
  · split at h
    · rename_i hc
      cases h
      exact fun hline => hsymbols (List.mem_singleton.1 hline ▸ List.mem_cons.2 hc)
    · cases h
  · cases h

theorem newline_notMem_of_operator {s : List Char} {n : Nat}
    (h : longOperator s = some n ∨ shortOperator s = some n) : '\n' ∉ s.take n := by
  rw [longOperator.eq_def, shortOperator.eq_def] at h
  obtain h | h := h
  · split at h
    · split at h
      · rename_i hc
        cases h
        have hpairs : ∀ p ∈ [('&', '&'), ('|', '|'), ('=', '='), ('!', '='), ('<', '='),
            ('>', '=')], '\n' ∉ [p.1, p.2] := by decide
        exact hpairs _ hc
      · cases h
    · cases h
  · split at h
    · split at h
      · rename_i hc
        cases h
        have hmarks : '\n' ∉ ['+', '-', '*', '/', '<', '>', '!', '|'] := by decide
        exact fun hline => hmarks (List.mem_singleton.1 hline ▸ hc)
      · cases h
    · cases h

theorem newline_notMem_of_firstMatch {s : List Char} {k : TokenKind} {n : Nat}
    (h : firstMatch s = some (some k, n)) (hk : k ≠ .string) : '\n' ∉ s.take n := by
  obtain ⟨rule, hrule, htry⟩ := List.exists_of_findSome?_eq_some h
  obtain ⟨hkind, hlength⟩ := tryRule_eq_some htry
  cases k with
  | keyword | identifier =>
    exact newline_notMem_name (isName_of_firstMatch h (by simp))
  | number => exact newline_notMem_numeral (isNumeral_of_firstMatch h)
  | type =>
    have hliteral : ∀ r ∈ rules, r.1 = some .type → r.2 = Ty.literalLength := by simp [rules]
    rw [hliteral rule hrule hkind] at hlength
    obtain ⟨t, ht, htext⟩ := Ty.exists_of_literalLength hlength
    rw [← htext]
    exact newline_notMem_literal ht
  | string => exact absurd rfl hk
  | symbol =>
    have hsymbol : ∀ r ∈ rules, r.1 = some .symbol → r.2 = Rule.symbol := by simp [rules]
    rw [hsymbol rule hrule hkind] at hlength
    exact newline_notMem_of_symbol hlength
  | operator =>
    have hoperator : ∀ r ∈ rules, r.1 = some .operator →
        r.2 = longOperator ∨ r.2 = shortOperator := by simp [rules]
    refine newline_notMem_of_operator ((hoperator rule hrule hkind).imp ?_ ?_)
    · exact fun hr => hr ▸ hlength
    · exact fun hr => hr ▸ hlength
  | returnType | eof =>
    have hscanned := isScanned_of_firstMatch h "" 0 0
    simp [IsScanned] at hscanned

theorem getLast?_of_firstMatch {s : List Char} {n : Nat}
    (h : firstMatch s = some (some .string, n)) : (s.take n).getLast? ≠ some '\n' := by
  obtain ⟨rule, hrule, htry⟩ := List.exists_of_findSome?_eq_some h
  obtain ⟨hkind, hlength⟩ := tryRule_eq_some htry
  have hstring : ∀ r ∈ rules, r.1 = some .string → r.2 = Rule.string := by simp [rules]
  rw [hstring rule hrule hkind, Rule.string.eq_def] at hlength
  split at hlength
  · simp [getLast?_of_quoted hlength]
  · simp [getLast?_of_quoted hlength]
  · cases hlength

def Breaks (t : Token) : Prop :=
  '\n' ∈ t.text.toList → t.kind = .string ∧ t.text.toList.getLast? ≠ some '\n'

theorem breaks_of_scan {file source : String} {ts : List Token} (h : scan file source = .ok ts) :
    ∀ t ∈ ts, Breaks t := by
  obtain ⟨⟨us, last⟩, hscan, h⟩ := bind_eq_ok.1 h
  cases h
  have hlexes := lexes_of_scanFrom hscan
  have hus : ∀ u ∈ us, Breaks u := by
    intro u hu hmem
    have hword := List.mem_map_of_mem (f := word) hu
    by_cases hkind : u.kind = .string
    · refine ⟨hkind, hlexes.forall_word (K := (· = .string)) (P := (·.getLast? ≠ some '\n')) ?_ _
        hword hkind⟩
      rintro s k n hmatch rfl
      exact getLast?_of_firstMatch hmatch
    · exact absurd hmem (hlexes.forall_word (K := (· ≠ .string)) (P := ('\n' ∉ ·))
        newline_notMem_of_firstMatch _ hword hkind)
  rw [List.forall_mem_append]
  refine ⟨forall_mergeReturnTypes hus fun t ht hkind hmem => ?_, by simp [Breaks]⟩
  have hstring := (ht hmem).1
  rw [hstring] at hkind
  simp at hkind

end Token

end StructLang
