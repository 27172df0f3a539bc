import StructLang.Proofs.SExpr.Reading
import StructLang.SExpr.Compact

namespace StructLang.SExpr

theorem compactAll_eq_mapM (es : List SExpr) : compactAll es = es.mapM compact := by
  induction es with
  | nil => rfl
  | cons e es ih => rw [compactAll, ih, List.mapM_cons]

theorem isQuotable_stringEscape (c : Char) {s : List Char} (h : Text.IsQuotable s) :
    Text.IsQuotable (stringEscape c ++ s) := by
  unfold stringEscape
  split_ifs with hmarks
  iterate 6 · exact .escaped h
  · rw [not_or] at hmarks
    exact .plain hmarks.1 hmarks.2 h

theorem isQuoted_quote (s : String) : IsQuoted (quote s) where
  body := by
    refine ⟨s.toList.flatMap stringEscape, by simp [quote], ?_⟩
    induction s.toList with
    | nil => exact .nil
    | cons c cs ih => exact isQuotable_stringEscape c ih
  line_notMem := by
    have hescape (c : Char) : '\n' ∉ stringEscape c := by
      unfold stringEscape
      split_ifs with hmarks
      · obtain rfl | rfl := hmarks <;> decide
      all_goals simp_all [eq_comm]
    simp [quote, hescape]

theorem escapeSymbol_of_isPlain {s : String} (h : s.toList.all isPlain) : escapeSymbol s = s := by
  have hspecial : ['\\', '\'', '\x60', '"', '(', ')', '[', ']', ' ', ',', '?', ';', '#'].all
      fun c => !isPlain c := by
    decide
  have hchars : s.toList.flatMap symbolEscape = s.toList.flatMap fun c => [c] := by
    refine List.flatMap_congr fun c hc => if_neg fun hmem => ?_
    have hplain := List.all_eq_true.1 h c hc
    simpa [hplain] using List.all_eq_true.1 hspecial c hmem
  rw [escapeSymbol, hchars, List.flatMap_singleton', String.ofList_toList]

theorem compact_lawful : Writer.Lawful compact where
  text s := ⟨quote s, rfl, isQuoted_quote s⟩
  int _ := rfl
  real _ := rfl
  symbol s _ hs := by rw [compact, escapeSymbol_of_isPlain hs]
  list es := by rw [compact, compactAll_eq_mapM]

theorem compact_isSafe : Writer.IsSafe compact := by
  intro e
  match e with
  | .atom v =>
    rw [compact, compactAtom.eq_def]
    split
    · exact .ok trivial
    · exact .ok trivial
    · exact .ok trivial
    · exact .ok trivial
    · exact v.listing_settles.yields
  | .symbol s => exact .ok trivial
  | .list items =>
    rw [compact, compactAll_eq_mapM]
    exact (Yields.mapM fun e _ => compact_isSafe e).bind fun _ _ => .ok trivial

def unescape : Char → Char
  | 'n' => '\n'
  | 'r' => '\r'
  | 't' => '\t'
  | 'b' => '\x08'
  | 'f' => '\x0c'
  | c => c

def unescapeAll : List Char → List Char
  | '\\' :: c :: s => unescape c :: unescapeAll s
  | c :: s => c :: unescapeAll s
  | [] => []

def unquote (t : String) : Option String :=
  some (String.ofList (unescapeAll t.toList.tail.dropLast))

theorem unescapeAll_stringEscape (c : Char) (s : List Char) :
    unescapeAll (stringEscape c ++ s) = c :: unescapeAll s := by
  unfold stringEscape
  split_ifs with hmarks hline hreturn htab hback hfeed
  · obtain rfl | rfl := hmarks <;> rfl
  · rw [hline]
    rfl
  · rw [hreturn]
    rfl
  · rw [htab]
    rfl
  · rw [hback]
    rfl
  · rw [hfeed]
    rfl
  · rw [not_or] at hmarks
    rw [List.singleton_append, unescapeAll]
    exact fun _ _ hslash => absurd hslash hmarks.2

theorem unescapeAll_flatMap (s : List Char) : unescapeAll (s.flatMap stringEscape) = s := by
  induction s with
  | nil => rfl
  | cons c s ih => rw [List.flatMap_cons, unescapeAll_stringEscape, ih]

theorem compact_readBy : Writer.ReadBy compact unquote := by
  intro s t ht
  cases ht
  simp [unquote, quote, unescapeAll_flatMap]

end StructLang.SExpr
