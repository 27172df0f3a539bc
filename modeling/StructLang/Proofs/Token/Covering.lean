import Mathlib.Data.List.Induction
import StructLang.Proofs.Token.Lexes

/-!
The tokens of a source and the stretches between them. Every token stands in the source at its line
and column, in order, and nothing lies before, between or after tokens but comments and white space,
and the colon before the type of a result.
-/

namespace StructLang.Token

open Text

def lineStart (s : List Char) (o : Nat) : Nat := ((s.take o).reverse.dropWhile (· ≠ '\n')).length

def lineAt (s : List Char) (o : Nat) : Nat := 1 + (s.take o).count '\n'

def columnAt (s : List Char) (o : Nat) : Nat := o - lineStart s o + 1

def slice (s : List Char) (a b : Nat) : List Char := (s.take b).drop a

structure StandsAt (s : List Char) (o : Nat) (t : Token) : Prop where
  text : slice s o (o + t.text.length) = t.text.toList
  line : t.line = lineAt s o
  column : t.column = columnAt s o

/-- Comments and white space, before a rest. A line comment goes on to the end of its line, and a
block comment to the first mark that closes it. -/
inductive Filler : List Char → List Char → Prop
  | nil : Filler [] rest
  | line : '\n' ∉ w → (∀ c ∈ (g ++ rest).head?, c = '\n') → Filler g rest →
      Filler ('/' :: '/' :: w ++ g) rest
  | block : ¬['*', '/'] <:+: w → Filler g rest → Filler ('/' :: '*' :: w ++ ['*', '/'] ++ g) rest
  | blank : isBlank c → Filler g rest → Filler (c :: g) rest

def Skips (s : List Char) (a b : Nat) : Prop :=
  a ≤ b ∧ b ≤ s.length ∧ Filler (slice s a b) (s.drop b)

/-- The source from one offset up to another, divided into tokens at their offsets. The token before
the first one is known, since the type of a result stands only after a closing parenthesis. -/
inductive Covers (s : List Char) : Option Token → Nat → List (Nat × Token) → Nat → Prop
  | nil : Skips s a b → Covers s before a [] b
  | token : t.kind ≠ .returnType → Skips s a o → StandsAt s o t → 0 < t.text.length →
      Covers s (some t) (o + t.text.length) ps b → Covers s before a ((o, t) :: ps) b
  | returnType : t.kind = .returnType → p.isSymbol ")" → Skips s a c → s[c]? = some ':' →
      Skips s (c + 1) o → StandsAt s o t → 0 < t.text.length →
      Covers s (some t) (o + t.text.length) ps b → Covers s (some p) a ((o, t) :: ps) b

namespace Cursor

theorem advance_append (c : Cursor) (s t : List Char) :
    c.advance (s ++ t) = (c.advance s).advance t := List.foldl_append

theorem advance_eq (s : List Char) :
    ({} : Cursor).advance s = ⟨s.length, lineAt s s.length, Token.lineStart s s.length⟩ := by
  induction s using List.reverseRecOn with
  | nil => rfl
  | append_singleton s ch ih =>
    have htake : (s ++ [ch]).take (s.length + 1) = s ++ [ch] := List.take_of_length_le (by simp)
    rw [advance_append, ih]
    by_cases hch : ch = '\n'
    · subst hch
      simp [advance, step, lineAt, Token.lineStart, htake, Nat.add_assoc]
    · simp [advance, step, lineAt, Token.lineStart, htake, hch]

theorem column_advance (s : List Char) :
    (({} : Cursor).advance s).column = columnAt s s.length := by
  rw [advance_eq, column, columnAt]

end Cursor

theorem slice_append (u w v : List Char) : slice (u ++ (w ++ v)) u.length (u ++ w).length = w := by
  rw [slice, ← List.append_assoc, List.take_left, List.drop_left]

theorem lineAt_append (u v : List Char) : lineAt (u ++ v) u.length = lineAt u u.length := by
  simp [lineAt]

theorem columnAt_append (u v : List Char) : columnAt (u ++ v) u.length = columnAt u u.length := by
  simp [columnAt, lineStart]

theorem Filler.append {g h rest : List Char} (hg : Filler g (h ++ rest)) (hh : Filler h rest) :
    Filler (g ++ h) rest := by
  generalize hr : h ++ rest = r at hg
  induction hg with
  | nil => exact hh
  | @line w g r hw hend _ ih =>
    subst hr
    rw [List.append_assoc]
    exact .line hw (by rwa [List.append_assoc]) (ih rfl)
  | block hw _ ih =>
    rw [List.append_assoc]
    exact .block hw (ih hr)
  | blank hc _ ih => exact .blank hc (ih hr)

theorem filler_of_forall_isBlank {w : List Char} (h : ∀ c ∈ w, isBlank c) (rest : List Char) :
    Filler w rest := by
  induction w with
  | nil => exact .nil
  | cons c w ih =>
    rw [List.forall_mem_cons] at h
    exact .blank h.1 (ih h.2)

theorem filler_of_lineComment {s : List Char} {n : Nat} (h : Rule.lineComment s = some n) :
    Filler (s.take n) (s.drop n) := by
  rw [Rule.lineComment.eq_def] at h
  split at h
  · rename_i t
    cases h
    have hsplit := List.takeWhile_append_dropWhile (p := (· ≠ '\n')) (l := t)
    have hword : '\n' ∉ t.takeWhile (· ≠ '\n') := fun hmem => by
      simpa using List.mem_takeWhile_imp hmem
    have hend : ∀ c ∈ (t.dropWhile (· ≠ '\n')).head?, c = '\n' := by
      intro c hc
      have hnot := List.head?_dropWhile_not (· ≠ '\n') t
      rw [Option.mem_def.1 hc] at hnot
      simpa using hnot
    have hline : Filler ('/' :: '/' :: t.takeWhile (· ≠ '\n') ++ []) (t.dropWhile (· ≠ '\n')) :=
      .line hword hend .nil
    rw [Nat.add_comm]
    generalize t.takeWhile (· ≠ '\n') = w at *
    rw [← hsplit]
    simpa using hline
  · cases h

theorem exists_of_closing {s : List Char} {n : Nat} (h : Rule.closing s = some n) :
    ∃ w, s.take n = w ++ ['*', '/'] ∧ ¬['*', '/'] <:+: w := by
  fun_induction Rule.closing s generalizing n with
  | case1 => cases h
  | case2 s =>
    cases h
    exact ⟨[], rfl, by simp⟩
  | case3 c s hne ih =>
    obtain ⟨m, hm, rfl⟩ := Option.map_eq_some_iff.1 h
    obtain ⟨w, hw, hfirst⟩ := ih hm
    refine ⟨c :: w, by simp [hw], ?_⟩
    rw [List.infix_cons_iff]
    rintro (hhead | htail)
    · obtain ⟨rfl, u, rfl⟩ := List.cons_prefix_cons.1 hhead
      have htake : s.take m <+: s := List.take_prefix m s
      rw [hw] at htake
      obtain ⟨v, rfl⟩ := htake
      exact hne _ rfl rfl
    · exact hfirst htail

theorem filler_of_blockComment {s : List Char} {n : Nat} (h : Rule.blockComment s = some n) :
    Filler (s.take n) (s.drop n) := by
  rw [Rule.blockComment.eq_def] at h
  split at h
  · rename_i t
    obtain ⟨m, hm, rfl⟩ := Option.map_eq_some_iff.1 h
    obtain ⟨w, hw, hfirst⟩ := exists_of_closing hm
    have hblock : Filler ('/' :: '*' :: w ++ ['*', '/'] ++ []) (t.drop m) := .block hfirst .nil
    simpa [hw] using hblock
  · cases h

theorem filler_of_firstMatch {s : List Char} {n : Nat} (h : firstMatch s = some (none, n)) :
    Filler (s.take n) (s.drop n) := by
  obtain ⟨rule, hrule, htry⟩ := List.exists_of_findSome?_eq_some h
  obtain ⟨hkind, hlength⟩ := tryRule_eq_some htry
  have hskipped : ∀ r ∈ rules, r.1 = none →
      r.2 = Rule.lineComment ∨ r.2 = Rule.blockComment ∨ r.2 = Rule.blank := by simp [rules]
  obtain hr | hr | hr := hskipped rule hrule hkind
  · exact filler_of_lineComment (hr ▸ hlength)
  · exact filler_of_blockComment (hr ▸ hlength)
  · rw [hr] at hlength
    cases hlength
    rw [← List.prefix_iff_eq_take.1 (List.takeWhile_prefix isBlank)]
    exact filler_of_forall_isBlank (fun c hc => List.mem_takeWhile_imp hc) _

theorem slice_append_drop (s : List Char) {a b : Nat} (h : a ≤ b) :
    slice s a b ++ s.drop b = s.drop a := by
  rw [slice, List.drop_take, ← Nat.add_sub_cancel' h, ← List.drop_drop, Nat.add_sub_cancel_left,
    List.take_append_drop]

theorem slice_append_slice (s : List Char) {a b c : Nat} (hab : a ≤ b) (hbc : b ≤ c) :
    slice s a b ++ slice s b c = slice s a c := by
  have hsum : c - a = (b - a) + (c - b) := by omega
  rw [slice, slice, slice, List.drop_take, List.drop_take, List.drop_take, hsum, List.take_add,
    List.drop_drop, Nat.add_sub_cancel' hab]

theorem Skips.trans {s : List Char} {a b c : Nat} (h : Skips s a b) (h' : Skips s b c) :
    Skips s a c := by
  obtain ⟨hab, _, hfill⟩ := h
  obtain ⟨hbc, hc, hfill'⟩ := h'
  rw [← slice_append_drop s hbc] at hfill
  refine ⟨hab.trans hbc, hc, ?_⟩
  rw [← slice_append_slice s hab hbc]
  exact hfill.append hfill'

theorem skips_refl {s : List Char} {a : Nat} (h : a ≤ s.length) : Skips s a a := by
  refine ⟨Nat.le_refl a, h, ?_⟩
  rw [slice, List.drop_take, Nat.sub_self, List.take_zero]
  exact .nil

theorem Skips.covers {s : List Char} {before : Option Token} {a b c : Nat}
    {ps : List (Nat × Token)} (h : Skips s a b) (hcovers : Covers s before b ps c) :
    Covers s before a ps c := by
  cases hcovers with
  | nil hskips => exact .nil (h.trans hskips)
  | token hkind hskips hstands hpos hrest => exact .token hkind (h.trans hskips) hstands hpos hrest
  | returnType hkind hp hskips hcolon hskips' hstands hpos hrest =>
    exact .returnType hkind hp (h.trans hskips) hcolon hskips' hstands hpos hrest

def IsScanned (t : Token) : Prop := t.kind ≠ .returnType ∧ t.kind ≠ .eof

theorem Covers.after {s : List Char} {before : Option Token} {a b : Nat} {ps : List (Nat × Token)}
    (h : Covers s before a ps b) (hps : ∀ p ∈ ps, IsScanned p.2) (before' : Option Token) :
    Covers s before' a ps b := by
  cases h with
  | nil hskips => exact .nil hskips
  | token hkind hskips hstands hpos hrest => exact .token hkind hskips hstands hpos hrest
  | returnType hkind => exact absurd hkind (hps _ List.mem_cons_self).1

theorem isScanned_of_firstMatch {s : List Char} {k : TokenKind} {n : Nat}
    (h : firstMatch s = some (some k, n)) (text : String) (line column : Int) :
    IsScanned ⟨k, text, line, column⟩ := by
  obtain ⟨rule, hrule, htry⟩ := List.exists_of_findSome?_eq_some h
  have hkinds : ∀ r ∈ rules, r.1 ≠ some .returnType ∧ r.1 ≠ some .eof := by simp [rules]
  have hkind := hkinds rule hrule
  rw [(tryRule_eq_some htry).1] at hkind
  simpa [IsScanned] using hkind

theorem length_take_of_firstMatch {s : List Char} {kind : Option TokenKind} {n : Nat}
    (h : firstMatch s = some (kind, n)) : 0 < (s.take n).length := by
  cases s with
  | nil => cases firstMatch_nil.symm.trans h
  | cons c s =>
    have hpos := firstMatch_pos h
    simp only [List.length_take, List.length_cons]
    omega

theorem slice_take (before rest : List Char) (n : Nat) :
    slice (before ++ rest) before.length (before ++ rest.take n).length = rest.take n := by
  have hsplit : before ++ rest = before ++ (rest.take n ++ rest.drop n) := by
    rw [List.take_append_drop]
  rw [hsplit, slice_append]

theorem standsAt_take (before rest : List Char) (n : Nat) (kind : TokenKind) :
    StandsAt (before ++ rest) before.length ⟨kind, String.ofList (rest.take n),
      lineAt before before.length, columnAt before before.length⟩ where
  text := by rw [String.length_ofList, String.toList_ofList, ← List.length_append, slice_take]
  line := by rw [lineAt_append]
  column := by rw [columnAt_append]

theorem Covers.prepend {before rest : List Char} {kind : Option TokenKind} {n b : Nat}
    {ps : List (Nat × Token)} (hmatch : firstMatch rest = some (kind, n))
    (hps : ∀ p ∈ ps, IsScanned p.2)
    (h : Covers (before ++ rest) none (before ++ rest.take n).length ps b) :
    ∃ qs : List (Nat × Token), qs.map Prod.snd = kind.toList.map (⟨·, String.ofList (rest.take n),
        lineAt before before.length, columnAt before before.length⟩) ++ ps.map Prod.snd ∧
      (∀ q ∈ qs, IsScanned q.2) ∧ Covers (before ++ rest) none before.length qs b := by
  have hle : (before ++ rest.take n).length ≤ (before ++ rest).length := by
    rw [List.length_append, List.length_append]
    exact Nat.add_le_add_left (List.length_take_le' n rest) _
  have hpos := length_take_of_firstMatch hmatch
  cases kind with
  | none =>
    have hsplit : before ++ rest = before ++ rest.take n ++ rest.drop n := by
      rw [List.append_assoc, List.take_append_drop]
    refine ⟨ps, rfl, hps, Skips.covers ⟨by simp, hle, ?_⟩ h⟩
    rw [slice_take, hsplit, List.drop_left]
    exact filler_of_firstMatch hmatch
  | some k =>
    have hscanned := isScanned_of_firstMatch hmatch (String.ofList (rest.take n))
      (lineAt before before.length) (columnAt before before.length)
    refine ⟨(before.length, _) :: ps, rfl, List.forall_mem_cons.2 ⟨hscanned, hps⟩, ?_⟩
    refine .token hscanned.1 (skips_refl (by simp)) (standsAt_take before rest n k) ?_ ?_
    · rwa [String.length_ofList]
    · rw [String.length_ofList, ← List.length_append]
      exact h.after hps _

/-- The failure names a character of the source that no rule takes, with its place; up to there the
source is divided into tokens. -/
def Strays (file : String) (s : List Char) (a : Nat) (f : Failure) : Prop :=
  ∃ (o : Nat) (c : Char) (ps : List (Nat × Token)), f = ⟨.strayCharacter o (String.singleton c),
      some ⟨file, lineAt s o, columnAt s o, 0, 0⟩⟩ ∧
    s[o]? = some c ∧ (∀ rule ∈ rules, tryRule (s.drop o) rule = none) ∧
    (∀ p ∈ ps, IsScanned p.2) ∧ Covers s none a ps o

theorem scanFrom_yields {file : String} {c : Cursor} {before rest : List Char}
    (hc : c = ({} : Cursor).advance before) :
    Yields (scanFrom file c rest)
      (fun r => r.2 = ({} : Cursor).advance (before ++ rest) ∧
        ∃ ps : List (Nat × Token), ps.map Prod.snd = r.1 ∧ (∀ p ∈ ps, IsScanned p.2) ∧
          Covers (before ++ rest) none before.length ps (before ++ rest).length)
      (Strays file (before ++ rest) before.length) := by
  induction c, rest using scanFrom.induct generalizing before with
  | case1 c =>
    rw [scanFrom, List.append_nil]
    exact .ok ⟨hc, [], rfl, by simp, .nil (skips_refl (Nat.le_refl _))⟩
  | case2 c ch rest hmatch =>
    have hstray : scanFrom file c (ch :: rest) = .error ⟨.strayCharacter c.offset
        (String.singleton ch), some ⟨file, c.line, c.column, 0, 0⟩⟩ := by
      rw [scanFrom]
      split
      · rfl
      · rename_i hsome
        cases hmatch.symm.trans hsome
    rw [hstray]
    refine .error ⟨before.length, ch, [], ?_, ?_, ?_, ?_, .nil (skips_refl (by simp))⟩
    · rw [hc, Cursor.column_advance, lineAt_append, columnAt_append, Cursor.advance_eq]
    · simp
    · rw [List.drop_left]
      exact List.findSome?_eq_none_iff.1 hmatch
    · simp
  | case3 c ch rest kind n hmatch text =>
    rename_i ih
    have hsplit : before ++ text ++ (ch :: rest).drop n = before ++ ch :: rest := by
      rw [List.append_assoc, List.take_append_drop]
    have hadvance : c.advance text = ({} : Cursor).advance (before ++ text) := by
      rw [hc, Cursor.advance_append]
    have hscan := ih hadvance
    rw [hsplit] at hscan
    have hline : c.line = lineAt before before.length := by rw [hc, Cursor.advance_eq]
    have hcolumn : c.column = columnAt before before.length := by rw [hc, Cursor.column_advance]
    rw [scanFrom_of_firstMatch file c hmatch, hline, hcolumn]
    refine .bind (hscan.mono (fun _ => id) ?_) ?_
    · rintro f ⟨o, d, ps, hf, hd, hrules, hps, hcovers⟩
      obtain ⟨qs, -, hqs, hcovers⟩ := hcovers.prepend hmatch hps
      exact ⟨o, d, qs, hf, hd, hrules, hqs, hcovers⟩
    · rintro r ⟨hlast, ps, hmap, hps, hcovers⟩
      obtain ⟨qs, hqmap, hqs, hcovers⟩ := hcovers.prepend hmatch hps
      exact .ok ⟨hlast, qs, by rw [hqmap, hmap], hqs, hcovers⟩

theorem Covers.head {s : List Char} {before : Option Token} {a b o : Nat} {t : Token}
    {ps : List (Nat × Token)} (h : Covers s before a ((o, t) :: ps) b) (ht : IsScanned t) :
    Skips s a o ∧ StandsAt s o t ∧ 0 < t.text.length ∧
      Covers s (some t) (o + t.text.length) ps b := by
  cases h with
  | token _ hskips hstands hpos hrest => exact ⟨hskips, hstands, hpos, hrest⟩
  | returnType hkind => exact absurd hkind ht.1

theorem StandsAt.getElem? {s : List Char} {o : Nat} {t : Token} (h : StandsAt s o t)
    (htext : t.text = ":") : s[o]? = some ':' := by
  have hslice := h.text
  rw [htext, slice, List.drop_take] at hslice
  have hhead := congrArg List.head? hslice
  rw [List.head?_take, if_neg (by simp), List.head?_drop] at hhead
  exact hhead

theorem Covers.merge {s : List Char} {before : Option Token} {a b : Nat} {ps : List (Nat × Token)}
    (h : Covers s before a ps b) (hps : ∀ p ∈ ps, IsScanned p.2) :
    ∃ qs : List (Nat × Token), qs.map Prod.snd = mergeReturnTypes (ps.map Prod.snd) ∧
      Covers s before a qs b := by
  generalize hts : ps.map Prod.snd = ts
  induction ts using mergeReturnTypes.induct generalizing ps before a with
  | case1 p c t rest hmerge ih =>
    obtain ⟨⟨o₁, _⟩, ps₁, rfl, rfl, hts₁⟩ := List.map_eq_cons_iff.1 hts
    obtain ⟨⟨o₂, _⟩, ps₂, rfl, rfl, hts₂⟩ := List.map_eq_cons_iff.1 hts₁
    obtain ⟨⟨o₃, _⟩, ps₃, rfl, rfl, hts₃⟩ := List.map_eq_cons_iff.1 hts₂
    rename_i p c t
    simp only [List.forall_mem_cons] at hps
    obtain ⟨hp, hc, ht, hps⟩ := hps
    obtain ⟨hskips₁, hstands₁, hpos₁, h⟩ := h.head hp
    obtain ⟨hskips₂, hstands₂, -, h⟩ := h.head hc
    obtain ⟨hskips₃, hstands₃, hpos₃, h⟩ := h.head ht
    rw [mergeReturnTypes, if_pos hmerge]
    simp only [Bool.and_eq_true] at hmerge
    obtain ⟨⟨hparen, hcolon⟩, -⟩ := hmerge
    have htext : c.text = ":" := by simpa [isSymbol] using (Bool.and_eq_true_iff.1 hcolon).2
    -- The colon is no token any more, and the type is of another kind to what comes after it.
    obtain ⟨qs, hqs, hcovers⟩ := ih (h.after hps (some { t with kind := .returnType })) hps hts₃
    refine ⟨(o₁, p) :: (o₃, { t with kind := .returnType }) :: qs, by rw [← hqs]; rfl, ?_⟩
    refine .token hp.1 hskips₁ hstands₁ hpos₁ ?_
    refine .returnType rfl hparen hskips₂ (hstands₂.getElem? htext) ?_
      ⟨hstands₃.text, hstands₃.line, hstands₃.column⟩ hpos₃ hcovers
    rwa [htext] at hskips₃
  | case2 p c t rest hmerge ih =>
    obtain ⟨⟨o, _⟩, ps₁, rfl, rfl, hts₁⟩ := List.map_eq_cons_iff.1 hts
    rename_i p
    rw [List.forall_mem_cons] at hps
    obtain ⟨hskips, hstands, hpos, h⟩ := h.head hps.1
    obtain ⟨qs, hqs, hcovers⟩ := ih h hps.2 hts₁
    rw [mergeReturnTypes, if_neg hmerge]
    exact ⟨(o, p) :: qs, by rw [← hqs]; rfl, .token hps.1.1 hskips hstands hpos hcovers⟩
  | case3 ts hshort =>
    rw [mergeReturnTypes]
    · exact ⟨ps, hts, h⟩
    · exact hshort

theorem Covers.pairwise {s : List Char} {before : Option Token} {a b : Nat}
    {ps : List (Nat × Token)} (h : Covers s before a ps b) :
    (∀ p ∈ ps, a ≤ p.1) ∧ ps.Pairwise fun p q => p.1 + p.2.text.length ≤ q.1 := by
  induction h with
  | nil => simp
  | token _ hskips _ _ _ ih =>
    rw [List.forall_mem_cons, List.pairwise_cons]
    exact ⟨⟨hskips.1, fun p hp => by have := ih.1 p hp; have := hskips.1; omega⟩, ih⟩
  | returnType _ _ hskips _ hskips' _ _ _ ih =>
    rw [List.forall_mem_cons, List.pairwise_cons]
    have hle := hskips.1
    have hle' := hskips'.1
    exact ⟨⟨by omega, fun p hp => by have := ih.1 p hp; omega⟩, ih⟩

theorem Covers.standsAt {s : List Char} {before : Option Token} {a b : Nat}
    {ps : List (Nat × Token)} (h : Covers s before a ps b) :
    ∀ p ∈ ps, 0 < p.2.text.length ∧ StandsAt s p.1 p.2 := by
  induction h with
  | nil => simp
  | token _ _ hstands hpos _ ih => exact List.forall_mem_cons.2 ⟨⟨hpos, hstands⟩, ih⟩
  | returnType _ _ _ _ _ hstands hpos _ ih => exact List.forall_mem_cons.2 ⟨⟨hpos, hstands⟩, ih⟩

theorem standsAt_end (s : List Char) : StandsAt s s.length
    ⟨.eof, "", (({} : Cursor).advance s).line, (({} : Cursor).advance s).column⟩ where
  text := by simp [slice]
  line := by rw [Cursor.advance_eq]
  column := by rw [Cursor.column_advance]

/-- Every source falls into tokens that stand in it one after the other, with comments and white
space between them and the end mark after them, or has a character that no rule takes. -/
theorem scan_covers (file source : String) :
    Yields (scan file source)
      (fun ts => ∃ ps eof, ts = ps.map Prod.snd ++ [eof] ∧
        Covers source.toList none 0 ps source.length ∧
        (ps.Pairwise fun p q => p.1 + p.2.text.length ≤ q.1) ∧
        (∀ p ∈ ps, p.2.kind ≠ .eof ∧ 0 < p.2.text.length ∧ StandsAt source.toList p.1 p.2) ∧
        eof.kind = .eof ∧ StandsAt source.toList source.length eof)
      (Strays file source.toList 0) := by
  rw [scan, ← String.length_toList]
  have hstart : ({} : Cursor) = ({} : Cursor).advance [] := rfl
  refine (scanFrom_yields hstart).bind ?_
  rintro ⟨ts, last⟩ ⟨rfl, ps, rfl, hps, hcovers⟩
  rw [List.nil_append] at hcovers
  obtain ⟨qs, hqs, hcovers⟩ := hcovers.merge hps
  have hkind : ∀ q ∈ qs, q.2.kind ≠ .eof := by
    intro q hq heof
    have hmem : q.2 ∈ mergeReturnTypes (ps.map Prod.snd) := hqs ▸ List.mem_map_of_mem hq
    obtain ⟨p, hp, hpq⟩ := List.mem_map.1 (mem_of_mem_mergeReturnTypes hmem (by simp [heof]))
    exact (hps p hp).2 (hpq ▸ heof)
  refine .ok ⟨qs, _, by rw [hqs, List.nil_append], hcovers, hcovers.pairwise.2, ?_, rfl,
    standsAt_end _⟩
  exact fun q hq => ⟨hkind q hq, hcovers.standsAt q hq⟩

end StructLang.Token
