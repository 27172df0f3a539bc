import StructLang.Proofs.Token.Match

namespace StructLang

namespace Text

theorem splitAt_of_notMem {sep : Char} {w : List Char} (h : sep ∉ w) : splitAt sep w = [w] := by
  induction w with
  | nil => rfl
  | cons c w ih =>
    rw [List.mem_cons, not_or] at h
    rw [splitAt, if_neg (Ne.symm h.1), ih h.2]

theorem splitAt_append {sep : Char} {w : List Char} (h : sep ∉ w) (s : List Char) :
    splitAt sep (w ++ sep :: s) = w :: splitAt sep s := by
  induction w with
  | nil => simp [splitAt]
  | cons c w ih =>
    rw [List.mem_cons, not_or] at h
    rw [List.cons_append, splitAt, if_neg (Ne.symm h.1), ih h.2]

theorem splitAt_flatMap {sep : Char} {w : List Char} {ws : List (List Char)} (hw : sep ∉ w)
    (hws : ∀ v ∈ ws, sep ∉ v) : splitAt sep (w ++ ws.flatMap (sep :: ·)) = w :: ws := by
  induction ws generalizing w with
  | nil => simp [splitAt_of_notMem hw]
  | cons v ws ih =>
    rw [List.forall_mem_cons] at hws
    rw [List.flatMap_cons, List.cons_append, splitAt_append hw, ih hws.1 hws.2]

end Text

namespace Ty

open Text Token

inductive IsMember : Ty → Prop
  | prim : p ∈ primitives → IsMember (.prim p)
  | array : p ∈ primitives → IsMember (.array (.prim p))

inductive IsLiteral : Ty → Prop
  | member : IsMember m → IsLiteral m
  | union : IsMember m → IsMember n → (∀ o ∈ ms, IsMember o) → IsLiteral (.union (m :: n :: ms))

theorem texts_eq_map (ts : List Ty) : texts ts = ts.map text := by
  induction ts with
  | nil => rfl
  | cons t ts ih => rw [texts, ih, List.map_cons]

def furtherText (ms : List Ty) : List Char := (ms.map (·.text.toList)).flatMap ('|' :: ·)

theorem toList_text_union (m : Ty) (ms : List Ty) :
    (union (m :: ms)).text.toList = m.text.toList ++ furtherText ms := by
  rw [text, texts_eq_map, String.toList_intercalate]
  induction ms generalizing m with
  | nil => simp [furtherText]
  | cons n ms ih =>
    have hsplit : furtherText (n :: ms) = "|".toList ++ (n.text.toList ++ furtherText ms) := rfl
    rw [hsplit, ← ih n, List.map_cons, List.map_cons, List.map_cons, List.map_cons,
      List.intercalate_cons_cons, List.append_assoc]

theorem primitives_isWord : ∀ p ∈ primitives, p.toList.all isWord := by decide

theorem exists_of_findWord {words : List String} {s : List Char} {n : Nat}
    (h : findWord words s = some n) :
    ∃ w ∈ words, w.toList = s.take n ∧ w.length = n ∧ atWordEnd (s.drop n) := by
  obtain ⟨w, hw, hfound⟩ := List.exists_of_findSome?_eq_some h
  split at hfound
  · rename_i hword
    simp only [Bool.and_eq_true, List.isPrefixOf_iff_prefix] at hword
    cases hfound
    refine ⟨w, hw, ?_, rfl, hword.2⟩
    rw [← String.length_toList]
    exact List.prefix_iff_eq_take.1 hword.1
  · cases hfound

theorem exists_of_memberLength {s : List Char} {n : Nat} (h : memberLength s = some n) :
    ∃ m : Ty, m.IsMember ∧ m.text.toList = s.take n ∧ 0 < n := by
  obtain ⟨k, hk, rfl⟩ := Option.map_eq_some_iff.1 h
  obtain ⟨p, hp, htake, rfl, -⟩ := exists_of_findWord hk
  have hpos : ∀ p ∈ primitives, 0 < p.length := by decide
  split
  · rename_i harray
    refine ⟨.array (.prim p), .array hp, ?_, by omega⟩
    obtain ⟨r, hr⟩ := List.isPrefixOf_iff_prefix.1 harray
    rw [text, text, String.toList_append, htake, List.take_add, ← hr]
    rfl
  · exact ⟨.prim p, .prim hp, htake, hpos p hp⟩

theorem exists_of_furtherLength (s : List Char) :
    ∃ ms : List Ty, (∀ m ∈ ms, m.IsMember) ∧ furtherText ms = s.take (furtherLength s) := by
  fun_induction furtherLength s with
  | case1 s n hn ih =>
    obtain ⟨m, hm, htext, -⟩ := exists_of_memberLength hn
    obtain ⟨ms, hms, hfurther⟩ := ih
    refine ⟨m :: ms, List.forall_mem_cons.2 ⟨hm, hms⟩, ?_⟩
    rw [Nat.add_assoc, Nat.add_comm 1, List.take_succ_cons, List.take_add, ← htext, ← hfurther]
    rfl
  | case2 | case3 => exact ⟨[], by simp, by simp [furtherText]⟩

theorem exists_of_literalLength {s : List Char} {n : Nat} (h : literalLength s = some n) :
    ∃ t : Ty, t.IsLiteral ∧ t.text.toList = s.take n := by
  obtain ⟨k, hk, rfl⟩ := Option.map_eq_some_iff.1 h
  obtain ⟨m, hm, htext, -⟩ := exists_of_memberLength hk
  obtain ⟨ms, hms, hfurther⟩ := exists_of_furtherLength (s.drop k)
  rw [List.take_add, ← htext, ← hfurther]
  cases ms with
  | nil => exact ⟨m, .member hm, by simp [furtherText]⟩
  | cons n ms =>
    rw [List.forall_mem_cons] at hms
    exact ⟨.union (m :: n :: ms), .union hm hms.1 hms.2, toList_text_union m _⟩

theorem memberLength_append {m : Ty} (hm : m.IsMember) {rest : List Char}
    (hrest : ∀ c ∈ rest.head?, c = '|') :
    memberLength (m.text.toList ++ rest) = some m.text.toList.length := by
  have hend : atWordEnd rest := by
    cases rest with
    | nil => rfl
    | cons c rest =>
      cases hrest c rfl
      exact (by decide : (!isWord '|') = true)
  have hfound : ∀ {p : String} {r : List Char}, p ∈ primitives → atWordEnd r →
      primitiveLength (p.toList ++ r) = some p.toList.length := by
    intro p r hp hr
    rw [primitiveLength_eq_findWord, findWord_append primitives_isWord
      (List.all_eq_true.1 (primitives_isWord p hp)) hr, String.ofList_toList, if_pos hp]
  cases hm with
  | prim hp =>
    have hplain : ['[', ']'].isPrefixOf rest = false := by
      cases rest with
      | nil => rfl
      | cons c rest =>
        cases hrest c rfl
        rfl
    rw [text, memberLength, hfound hp hend, Option.map_some, List.drop_left, hplain]
    rfl
  | @array p hp =>
    have hbrackets : atWordEnd ("[]".toList ++ rest) := (by decide : (!isWord '[') = true)
    rw [text, text, String.toList_append, List.append_assoc, memberLength,
      hfound hp hbrackets, Option.map_some, List.drop_left]
    simp

theorem furtherLength_furtherText {ms : List Ty} (h : ∀ m ∈ ms, m.IsMember) :
    furtherLength (furtherText ms) = (furtherText ms).length := by
  induction ms with
  | nil => simp [furtherText, furtherLength]
  | cons m ms ih =>
    rw [List.forall_mem_cons] at h
    have hhead : ∀ c ∈ (furtherText ms).head?, c = '|' := by
      cases ms <;> simp [furtherText]
    have hcons : furtherText (m :: ms) = '|' :: (m.text.toList ++ furtherText ms) := rfl
    rw [hcons, furtherLength, memberLength_append h.1 hhead]
    simp only [List.drop_left, ih h.2, List.length_cons, List.length_append]
    omega

theorem literalLength_text {t : Ty} (h : t.IsLiteral) :
    literalLength t.text.toList = some t.text.length := by
  rw [← String.length_toList]
  cases h with
  | member hm =>
    have hlength := memberLength_append hm (by simp : ∀ c ∈ [].head?, c = '|')
    rw [List.append_nil] at hlength
    simp [literalLength, hlength, furtherLength]
  | @union m n ms hm hn hms =>
    rw [toList_text_union, literalLength, memberLength_append hm (by simp [furtherText])]
    simp [furtherLength_furtherText (List.forall_mem_cons.2 ⟨hn, hms⟩)]

theorem ofMember_text {m : Ty} (h : m.IsMember) : ofMember m.text.toList = m ∧
    '|' ∉ m.text.toList := by
  cases h with
  | prim hp | array hp =>
    simp only [primitives, List.mem_cons, List.not_mem_nil, or_false] at hp
    obtain rfl | rfl | rfl | rfl | rfl := hp <;> exact ⟨rfl, by decide⟩

theorem ofLiteral_text {t : Ty} (h : t.IsLiteral) : ofLiteral t.text = t := by
  cases h with
  | member hm =>
    obtain ⟨hof, hbar⟩ := ofMember_text hm
    simp [ofLiteral, splitAt_of_notMem hbar, hof]
  | @union m n ms hm hn hms =>
    have hms := List.forall_mem_cons.2 ⟨hn, hms⟩
    have hbars : ∀ w ∈ (n :: ms).map (·.text.toList), '|' ∉ w :=
      List.forall_mem_map.2 fun o ho => (ofMember_text (hms o ho)).2
    have hof : ((n :: ms).map (·.text.toList)).map ofMember = n :: ms := by
      rw [List.map_map]
      calc (n :: ms).map (ofMember ∘ (·.text.toList))
          = (n :: ms).map id := List.map_congr_left fun o ho => (ofMember_text (hms o ho)).1
        _ = n :: ms := List.map_id _
    rw [ofLiteral, toList_text_union, furtherText, splitAt_flatMap (ofMember_text hm).2 hbars,
      List.map_cons, (ofMember_text hm).1, hof]

theorem literalLength_eq_length_iff (s : String) :
    literalLength s.toList = some s.length ↔ ∃ t : Ty, t.IsLiteral ∧ t.text = s := by
  constructor
  · intro h
    obtain ⟨t, ht, htext⟩ := exists_of_literalLength h
    rw [← String.length_toList, List.take_length] at htext
    exact ⟨t, ht, String.toList_inj.1 htext⟩
  · rintro ⟨t, ht, rfl⟩
    exact literalLength_text ht

/-- The types that their texts tell: the literals, and the aliases that are not spelled like one. -/
inductive IsTold : Ty → Prop
  | literal : IsLiteral t → IsTold t
  | alias : (∀ t, IsLiteral t → t.text ≠ n) → IsTold (.alias n)

theorem ofText_of_isTold {t : Ty} (h : t.IsTold) : ofText t.text = t := by
  match t, h with
  | t, .literal h => rw [ofText, if_pos (literalLength_text h), ofLiteral_text h]
  | .alias n, .alias h =>
    have hword : ¬literalLength n.toList = some n.length := by
      rw [literalLength_eq_length_iff]
      rintro ⟨t, ht, htext⟩
      exact h t ht htext
    rw [text, ofText, if_neg hword]

theorem exists_isTold (s : String) : ∃ t : Ty, t.IsTold ∧ t.text = s := by
  by_cases h : ∃ t : Ty, t.IsLiteral ∧ t.text = s
  · obtain ⟨t, ht, htext⟩ := h
    exact ⟨t, .literal ht, htext⟩
  · exact ⟨.alias s, .alias fun t ht htext => h ⟨t, ht, htext⟩, rfl⟩

/-- Reading and writing are inverse to each other, between all texts and the types that their texts
tell; no other type is read back from its text. -/
theorem ofText_inverse_text :
    (∀ s, (ofText s).IsTold ∧ (ofText s).text = s) ∧ ∀ t, ofText t.text = t ↔ t.IsTold := by
  have htold (s : String) : (ofText s).IsTold ∧ (ofText s).text = s := by
    obtain ⟨t, ht, rfl⟩ := exists_isTold s
    rw [ofText_of_isTold ht]
    exact ⟨ht, rfl⟩
  refine ⟨htold, fun t => ⟨fun h => ?_, ofText_of_isTold⟩⟩
  rw [← h]
  exact (htold t.text).1

end Ty

end StructLang
