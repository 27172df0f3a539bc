import StructLang.Proofs.Token.Covering

namespace StructLang

namespace Text

def lastPiece (sep : Char) (u : List Char) : List Char := (u.reverse.takeWhile (· ≠ sep)).reverse

theorem lastPiece_concat_self (sep : Char) (u : List Char) : lastPiece sep (u ++ [sep]) = [] := by
  simp [lastPiece]

theorem lastPiece_concat {sep c : Char} (h : c ≠ sep) (u : List Char) :
    lastPiece sep (u ++ [c]) = lastPiece sep u ++ [c] := by
  simp [lastPiece, h]

theorem drop_splitAt_append (sep : Char) (u v : List Char) :
    ∃ w ws, splitAt sep v = w :: ws ∧
      (splitAt sep (u ++ v)).drop (u.count sep) = (lastPiece sep u ++ w) :: ws := by
  induction u using List.reverseRecOn generalizing v with
  | nil =>
    obtain ⟨w, ws, h⟩ := List.exists_cons_of_ne_nil (splitAt_ne_nil sep v)
    exact ⟨w, ws, h, h⟩
  | append_singleton u c ih =>
    obtain ⟨w, ws, hv, hdrop⟩ := ih (c :: v)
    rw [List.append_assoc, List.singleton_append, List.count_append]
    by_cases hc : c = sep
    · subst hc
      rw [splitAt, if_pos rfl] at hv
      cases hv
      obtain ⟨w, ws, h⟩ := List.exists_cons_of_ne_nil (splitAt_ne_nil c v)
      refine ⟨w, ws, h, ?_⟩
      rw [List.count_singleton_self, ← List.drop_drop, hdrop, lastPiece_concat_self, h]
      rfl
    · rw [splitAt, if_neg hc] at hv
      obtain ⟨w', ws', h⟩ := List.exists_cons_of_ne_nil (splitAt_ne_nil sep v)
      rw [h] at hv
      cases hv
      refine ⟨w', ws, h, ?_⟩
      rw [List.count_singleton, if_neg (by simpa using hc), Nat.add_zero, hdrop,
        lastPiece_concat hc, List.append_assoc, List.singleton_append]

def firstPiece (sep : Char) (s : List Char) : List Char := s.takeWhile (· ≠ sep)

theorem head?_splitAt (sep : Char) (s : List Char) :
    (splitAt sep s).head? = some (firstPiece sep s) := by
  induction s with
  | nil => rfl
  | cons c s ih =>
    rw [splitAt]
    split
    · rename_i hc
      simp [firstPiece, hc]
    · rename_i hc
      obtain ⟨w, ws, hs⟩ := List.exists_cons_of_ne_nil (splitAt_ne_nil sep s)
      rw [hs, List.head?_cons, Option.some.injEq] at ih
      simp [hs, ih, firstPiece, hc]

theorem getElem?_splitAt_append (sep : Char) (u v : List Char) :
    (splitAt sep (u ++ v))[u.count sep]? = some (lastPiece sep u ++ firstPiece sep v) := by
  obtain ⟨w, ws, hv, hdrop⟩ := drop_splitAt_append sep u v
  have hw := head?_splitAt sep v
  rw [hv, List.head?_cons, Option.some.injEq] at hw
  rw [← List.head?_drop, hdrop, List.head?_cons, hw]

theorem notMem_of_mem_splitAt {sep : Char} {s w : List Char} (h : w ∈ splitAt sep s) : sep ∉ w := by
  induction s generalizing w with
  | nil =>
    cases List.mem_singleton.1 h
    exact List.not_mem_nil
  | cons c s ih =>
    rw [splitAt] at h
    split at h
    · obtain rfl | h := List.mem_cons.1 h
      · exact List.not_mem_nil
      · exact ih h
    · rename_i hc
      obtain ⟨v, vs, hs⟩ := List.exists_cons_of_ne_nil (splitAt_ne_nil sep s)
      rw [hs] at h ih
      obtain rfl | h := List.mem_cons.1 h
      · rw [List.mem_cons, not_or]
        exact ⟨Ne.symm hc, ih List.mem_cons_self⟩
      · exact ih (List.mem_cons_of_mem _ h)

end Text

namespace Token

theorem length_lastPiece (s : List Char) (o : Nat) (h : o ≤ s.length) :
    columnAt s o = (Text.lastPiece '\n' (s.take o)).length + 1 := by
  have hsplit := congrArg List.length
    (List.takeWhile_append_dropWhile (p := (· ≠ '\n')) (l := (s.take o).reverse))
  rw [List.length_append, List.length_reverse, List.length_take_of_le h] at hsplit
  rw [columnAt, lineStart, Text.lastPiece, List.length_reverse]
  omega

end Token

/-- The span begins at a character of the source, or at its end. -/
structure Span.PointsInto (l : Span) (file : String) (s : List Char) : Prop where
  file_eq : l.file = file
  offset : ∃ o ≤ s.length, l.line = Token.lineAt s o ∧ l.column = Token.columnAt s o

theorem Span.PointsInto.exists_line {l : Span} {file : String} {s : List Char}
    (h : l.PointsInto file s) :
    ∃ (k : Nat) (line : List Char), (Text.splitAt '\n' s)[k]? = some line ∧ l.line = k + 1 ∧
      1 ≤ l.column ∧ l.column ≤ line.length + 1 := by
  obtain ⟨o, ho, hline, hcolumn⟩ := h.offset
  have hget := Text.getElem?_splitAt_append '\n' (s.take o) (s.drop o)
  rw [List.take_append_drop] at hget
  refine ⟨_, _, hget, ?_, ?_, ?_⟩
  · rw [hline, Token.lineAt]
    omega
  · rw [hcolumn, Token.columnAt]
    omega
  · rw [hcolumn, Token.length_lastPiece s o ho, List.length_append]
    omega

namespace Token

variable {file : String} {s : List Char} {o : Nat} {t : Token}

theorem StandsAt.pointsInto (h : StandsAt s o t) (ho : o ≤ s.length) :
    (t.span file).PointsInto file s :=
  ⟨rfl, o, ho, h.line, h.column⟩

theorem StandsAt.le_length (h : StandsAt s o t) (hpos : 0 < t.text.length) : o ≤ s.length := by
  by_contra hlt
  have hempty : slice s o (o + t.text.length) = [] := by
    rw [slice, List.drop_eq_nil_iff]
    exact (List.length_take_le' _ _).trans (by omega)
  have hlength := congrArg List.length (hempty.symm.trans h.text)
  rw [List.length_nil, String.length_toList] at hlength
  omega

theorem Strays.pointsInto {a : Nat} {f : Failure} (h : Strays file s a f) :
    ∃ l, f.loc = some l ∧ l.PointsInto file s := by
  obtain ⟨o, c, ps, rfl, hc, -⟩ := h
  have hlt := (List.getElem?_eq_some_iff.1 hc).1
  exact ⟨_, rfl, rfl, o, hlt.le, rfl, rfl⟩

theorem scan_standsAt (file source : String) :
    Yields (scan file source)
      (fun ts => ∃ (ps : List (Nat × Token)) (eof : Token), ts = ps.map Prod.snd ++ [eof] ∧
        (ps.Pairwise fun p q => p.1 + p.2.text.length ≤ q.1) ∧
        (∀ p ∈ ps, 0 < p.2.text.length ∧ StandsAt source.toList p.1 p.2) ∧
        eof.kind = .eof ∧ StandsAt source.toList source.toList.length eof)
      (Strays file source.toList 0) := by
  have hstart : ({} : Cursor) = ({} : Cursor).advance [] := rfl
  rw [scan]
  refine (scanFrom_yields hstart).bind ?_
  rintro ⟨ts, last⟩ ⟨rfl, ps, rfl, hps, hcovers⟩
  rw [List.nil_append] at hcovers
  obtain ⟨qs, hqs, hcovers⟩ := hcovers.merge hps
  exact .ok ⟨qs, _, by rw [hqs, List.nil_append], hcovers.pairwise.2, hcovers.standsAt, rfl,
    standsAt_end _⟩

/-- Every token of a source points into it, with an end mark among them; or the failure does. -/
theorem scan_pointsInto (file source : String) :
    Yields (scan file source)
      (fun ts => (∀ t ∈ ts, (t.span file).PointsInto file source.toList) ∧ ∃ t ∈ ts, t.kind = .eof)
      (fun f => ∃ l, f.loc = some l ∧ l.PointsInto file source.toList) := by
  refine (scan_standsAt file source).mono ?_ fun f hf => hf.pointsInto
  rintro ts ⟨ps, eof, rfl, -, hps, heof, hend⟩
  refine ⟨fun t ht => ?_, eof, List.mem_append_right _ List.mem_cons_self, heof⟩
  obtain ht | ht := List.mem_append.1 ht
  · obtain ⟨p, hp, rfl⟩ := List.mem_map.1 ht
    obtain ⟨hpos, hstands⟩ := hps p hp
    exact hstands.pointsInto (hstands.le_length hpos)
  · cases List.mem_singleton.1 ht
    exact hend.pointsInto (Nat.le_refl _)

end Token

end StructLang
