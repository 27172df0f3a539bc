import Mathlib.Data.List.Forall2
import Mathlib.Data.List.Induction
import StructLang.Table

namespace StructLang

theorem eraseDups_concat (l : List String) (a : String) :
    (l ++ [a]).eraseDups = if a ∈ l then l.eraseDups else l.eraseDups ++ [a] := by
  rw [List.eraseDups_append]
  by_cases h : a ∈ l <;> simp [List.removeAll, h, List.eraseDups_cons]

theorem nodup_eraseDups (l : List String) : l.eraseDups.Nodup := by
  induction l using List.reverseRecOn with
  | nil => simp
  | append_singleton l a ih =>
    rw [eraseDups_concat]
    split
    · exact ih
    · rename_i ha
      rw [← List.mem_eraseDups] at ha
      refine List.nodup_append.2 ⟨ih, by simp, ?_⟩
      intro b hb c hc hbc
      rw [List.mem_singleton.1 hc] at hbc
      exact ha (hbc ▸ hb)

namespace Table

variable {α β : Type}

theorem get?_eq_none_iff {t : Table α} {name : String} : t.get? name = none ↔ name ∉ t.names := by
  induction t with
  | nil => simp [get?, names]
  | cons e t ih =>
    by_cases h : e.1 = name
    · simp [get?, names, h]
    · rw [get?, if_neg h, ih]
      simp [names, Ne.symm h]

theorem mem_of_get? {t : Table α} {name : String} {a : α} (h : t.get? name = some a) :
    (name, a) ∈ t := by
  induction t with
  | nil => cases h
  | cons e t ih =>
    rw [get?] at h
    split at h
    · rename_i hname
      cases h
      rw [← hname]
      exact List.mem_cons_self
    · exact List.mem_cons_of_mem _ (ih h)

theorem names_put (t : Table α) (name : String) (a : α) :
    (t.put name a).names = if name ∈ t.names then t.names else t.names ++ [name] := by
  induction t with
  | nil => simp [put, names]
  | cons e t ih =>
    by_cases h : e.1 = name
    · simp [put, names, h]
    · have hmem : name ∈ names (e :: t) ↔ name ∈ names t := by simp [names, Ne.symm h]
      simp only [hmem]
      rw [put, if_neg h]
      change e.1 :: (put t name a).names = _
      rw [ih]
      split <;> rfl

theorem put_of_notMem {t : Table α} {name : String} (h : name ∉ t.names) (a : α) :
    t.put name a = t ++ [(name, a)] := by
  induction t with
  | nil => rfl
  | cons e t ih =>
    rw [names, List.map_cons, List.mem_cons, not_or] at h
    rw [put, if_neg (Ne.symm h.1), ih h.2, List.cons_append]

theorem ofList_of_nodup {es : List (String × α)} (h : (names es).Nodup) : ofList es = es := by
  induction es using List.reverseRecOn with
  | nil => rfl
  | append_singleton es e ih =>
    rw [names, List.map_append, List.nodup_append] at h
    have hfresh : e.1 ∉ names es := fun hmem => h.2.2 _ hmem _ (by simp) rfl
    have hes : es.foldl (fun t e => put t e.1 e.2) [] = es := ih h.1
    rw [ofList, List.foldl_concat, hes, put_of_notMem hfresh]

theorem get?_of_mem {t : Table α} (h : t.names.Nodup) {name : String} {a : α}
    (hmem : (name, a) ∈ t) : t.get? name = some a := by
  induction t with
  | nil => cases hmem
  | cons e t ih =>
    rw [names, List.map_cons, List.nodup_cons] at h
    obtain rfl | hmem := List.mem_cons.1 hmem
    · rw [get?, if_pos rfl]
    · have hne : e.1 ≠ name := fun heq => h.1 (heq ▸ List.mem_map.2 ⟨_, hmem, rfl⟩)
      rw [get?, if_neg hne, ih h.2 hmem]

theorem mem_put {t : Table α} {name : String} {a : α} {e : String × α} (h : e ∈ t.put name a) :
    e = (name, a) ∨ e ∈ t := by
  induction t with
  | nil => simpa [put] using h
  | cons f t ih =>
    rw [put] at h
    split at h
    · grind
    · grind

def keep (better : α → α → Bool) (t : Table α) (e : String × α) : Table α :=
  match t.get? e.1 with
  | none => t.put e.1 e.2
  | some old => if better e.2 old then t.put e.1 e.2 else t

variable {better : α → α → Bool} {better' : β → β → Bool}

theorem keep_cases (better : α → α → Bool) (t : Table α) (e : String × α) :
    t.keep better e = t.put e.1 e.2 ∨ e.1 ∈ t.names ∧ t.keep better e = t := by
  rw [keep]
  split
  · exact .inl rfl
  · rename_i old hold
    split
    · exact .inl rfl
    · exact .inr ⟨List.mem_map.2 ⟨_, mem_of_get? hold, rfl⟩, rfl⟩

theorem names_keep (t : Table α) (e : String × α) :
    (t.keep better e).names = if e.1 ∈ t.names then t.names else t.names ++ [e.1] := by
  obtain h | ⟨hmem, h⟩ := keep_cases better t e
  · rw [h, names_put]
  · rw [h, if_pos hmem]

theorem names_foldl_keep (es : List (String × α)) :
    (es.foldl (keep better) []).names = (es.map Prod.fst).eraseDups := by
  induction es using List.reverseRecOn with
  | nil => rfl
  | append_singleton es e ih =>
    rw [List.foldl_concat, names_keep, ih, List.map_append, List.map_singleton, eraseDups_concat]
    simp only [List.mem_eraseDups]

theorem mem_of_mem_foldl_keep {es : List (String × α)} {e : String × α}
    (h : e ∈ es.foldl (keep better) []) : e ∈ es := by
  induction es using List.reverseRecOn with
  | nil => cases h
  | append_singleton es f ih =>
    rw [List.foldl_concat] at h
    rw [List.mem_append, List.mem_singleton]
    obtain hput | ⟨_, hsame⟩ := keep_cases better (es.foldl (keep better) []) f
    · rw [hput] at h
      exact (mem_put h).symm.imp_left ih
    · rw [hsame] at h
      exact .inl (ih h)

def Related (R : α → β → Prop) (e : String × α) (f : String × β) : Prop := e.1 = f.1 ∧ R e.2 f.2

variable {R : α → β → Prop} {t : Table α} {u : Table β}

theorem names_eq_of_related (h : List.Forall₂ (Related R) t u) : t.names = u.names := by
  induction h with
  | nil => rfl
  | cons h _ ih => simpa [names, h.1] using ih

theorem get?_related (h : List.Forall₂ (Related R) t u) (name : String) :
    (t.get? name = none ∧ u.get? name = none) ∨
      ∃ a b, t.get? name = some a ∧ u.get? name = some b ∧ R a b := by
  induction h with
  | nil => exact .inl ⟨rfl, rfl⟩
  | cons h _ ih =>
    rw [get?, get?, h.1]
    split
    · exact .inr ⟨_, _, rfl, rfl, h.2⟩
    · exact ih

theorem put_related (h : List.Forall₂ (Related R) t u) {name : String} {a : α} {b : β}
    (hab : R a b) : List.Forall₂ (Related R) (t.put name a) (u.put name b) := by
  induction h with
  | nil => exact .cons ⟨rfl, hab⟩ .nil
  | cons h hs ih =>
    rw [put, put, h.1]
    split
    · exact .cons ⟨rfl, hab⟩ hs
    · exact .cons ⟨rfl, h.2⟩ ih

theorem keep_related (hbetter : ∀ a b a' b', R a b → R a' b' → better a a' = better' b b')
    (h : List.Forall₂ (Related R) t u) {e : String × α} {f : String × β} (hef : Related R e f) :
    List.Forall₂ (Related R) (t.keep better e) (u.keep better' f) := by
  obtain ⟨hname, hval⟩ := hef
  rw [keep, keep, hname]
  obtain ⟨ht, hu⟩ | ⟨a, b, ht, hu, hold⟩ := get?_related h f.1
  · rw [ht, hu]
    exact put_related h hval
  · rw [ht, hu]
    simp only [hbetter _ _ _ _ hval hold]
    split
    · exact put_related h hval
    · exact h

theorem foldl_keep_related (hbetter : ∀ a b a' b', R a b → R a' b' → better a a' = better' b b')
    {es : List (String × α)} {fs : List (String × β)} (h : List.Forall₂ (Related R) es fs)
    (ht : List.Forall₂ (Related R) t u) :
    List.Forall₂ (Related R) (es.foldl (keep better) t) (fs.foldl (keep better') u) := by
  induction h generalizing t u with
  | nil => exact ht
  | cons hef _ ih => exact ih (keep_related hbetter ht hef)

end Table

end StructLang
