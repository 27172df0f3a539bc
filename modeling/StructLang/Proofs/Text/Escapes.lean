namespace StructLang.Text

def escape : Char := '\x1b'

def isEscapeArgument (c : Char) : Bool := c.isDigit || c == ';'

def afterSequence? : List Char → Option (List Char)
  | '[' :: s =>
    match s.dropWhile isEscapeArgument with
    | 'm' :: t => some t
    | _ => none
  | _ => none

theorem afterSequence?_eq_some {s t : List Char} :
    afterSequence? s = some t ↔
      ∃ args, s = '[' :: (args ++ 'm' :: t) ∧ ∀ c ∈ args, isEscapeArgument c := by
  constructor
  · intro h
    fun_cases afterSequence? s with
    | case1 u v hdrop =>
      rw [afterSequence?, hdrop] at h
      cases h
      refine ⟨u.takeWhile isEscapeArgument, ?_, List.all_eq_true.1 List.all_takeWhile⟩
      rw [← hdrop, List.takeWhile_append_dropWhile]
    | case2 u hdrop =>
      rw [afterSequence?] at h
      split at h
      · exact absurd ‹_› (hdrop _)
      · cases h
    | case3 _ hopen =>
      rw [afterSequence?] at h
      · cases h
      · exact hopen
  · rintro ⟨args, rfl, hargs⟩
    have hend : ('m' :: t).dropWhile isEscapeArgument = 'm' :: t :=
      List.dropWhile_cons_of_neg (by decide)
    rw [afterSequence?, List.dropWhile_append_of_pos hargs, hend]
    rfl

theorem length_lt_of_afterSequence? {s t : List Char} (h : afterSequence? s = some t) :
    t.length < s.length := by
  obtain ⟨args, rfl, -⟩ := afterSequence?_eq_some.1 h
  simp only [List.length_cons, List.length_append]
  omega

theorem afterSequence?_append {s u : List Char} (h : afterSequence? s = some u) (t : List Char) :
    afterSequence? (s ++ t) = some (u ++ t) := by
  obtain ⟨args, rfl, hargs⟩ := afterSequence?_eq_some.1 h
  exact afterSequence?_eq_some.2 ⟨args, by simp, hargs⟩

theorem afterSequence?_bracket {s : List Char} (h : afterSequence? s = none) (t : List Char) :
    afterSequence? (s ++ ']' :: t) = none := by
  rw [Option.eq_none_iff_forall_ne_some] at h ⊢
  intro v hv
  obtain ⟨args, hs, hargs⟩ := afterSequence?_eq_some.1 hv
  cases s with
  | nil => simp at hs
  | cons c s =>
    rw [List.cons_append, List.cons.injEq] at hs
    obtain ⟨rfl, happend⟩ := hs
    obtain ⟨as, rfl, htail⟩ | ⟨w, rfl, htail⟩ := List.append_eq_append_iff.1 happend
    · cases as with
      | nil => simp at htail
      | cons a as =>
        obtain ⟨rfl, -⟩ := List.cons.inj htail
        exact absurd (hargs ']' (by simp)) (by decide)
    · cases w with
      | nil => simp at htail
      | cons m w =>
        obtain ⟨rfl, -⟩ := List.cons.inj htail
        exact h w (afterSequence?_eq_some.2 ⟨args, rfl, hargs⟩)

def stripped : List Char → List Char
  | [] => []
  | c :: s =>
    match _h : if c = escape then afterSequence? s else none with
    | some t => stripped t
    | none => c :: stripped s
termination_by s => s.length
decreasing_by
  · split at _h
    · exact Nat.lt_succ_of_lt (length_lt_of_afterSequence? _h)
    · cases _h
  · exact Nat.lt_succ_self _

@[simp] theorem stripped_nil : stripped [] = [] := by rw [stripped]

theorem stripped_cons (c : Char) (s : List Char) :
    stripped (c :: s) =
      ((if c = escape then afterSequence? s else none).map stripped).getD (c :: stripped s) := by
  rw [stripped]
  split
  · rename_i hnext
    rw [hnext]
    rfl
  · rename_i hnext
    rw [hnext]
    rfl

theorem stripped_sequence (args : List Char) (hargs : args.all isEscapeArgument) (t : List Char) :
    stripped (escape :: '[' :: (args ++ 'm' :: t)) = stripped t := by
  rw [stripped_cons, if_pos rfl,
    afterSequence?_eq_some.2 ⟨args, rfl, List.all_eq_true.1 hargs⟩]
  rfl

theorem stripped_append_of_notMem {s : List Char} (h : escape ∉ s) (t : List Char) :
    stripped (s ++ t) = s ++ stripped t := by
  induction s with
  | nil => rfl
  | cons c s ih =>
    rw [List.mem_cons, not_or] at h
    rw [List.cons_append, stripped_cons, if_neg (Ne.symm h.1), ih h.2]
    rfl

theorem stripped_of_notMem {s : List Char} (h : escape ∉ s) : stripped s = s := by
  have hs := stripped_append_of_notMem h []
  rwa [List.append_nil, stripped_nil, List.append_nil] at hs

theorem stripped_append_bracket (s t : List Char) :
    stripped (s ++ ']' :: t) = stripped s ++ ']' :: stripped t := by
  fun_induction stripped s with
  | case1 => exact stripped_append_of_notMem (s := [']']) (by decide) t
  | case2 c s u hnext ih =>
    split at hnext
    · rw [List.cons_append, stripped_cons, if_pos ‹_›, afterSequence?_append hnext]
      exact ih
    · cases hnext
  | case3 c s hnext ih =>
    rw [List.cons_append, stripped_cons, List.cons_append, ← ih]
    split at hnext
    · rw [if_pos ‹_›, afterSequence?_bracket hnext]
      rfl
    · rw [if_neg ‹_›]
      rfl

theorem length_stripped_le (s : List Char) : (stripped s).length ≤ s.length := by
  fun_induction stripped s with
  | case1 => exact Nat.le_refl _
  | case2 c s u hnext ih =>
    split at hnext
    · have hlt := length_lt_of_afterSequence? hnext
      rw [List.length_cons]
      omega
    · cases hnext
  | case3 c s _ ih =>
    rw [List.length_cons, List.length_cons]
    omega

/-- Somewhere in the text there is a sequence. -/
def HasSequence (s : List Char) : Prop :=
  ∃ before args after, s = before ++ escape :: '[' :: (args ++ 'm' :: after) ∧
    ∀ c ∈ args, isEscapeArgument c

theorem stripped_eq_self_iff {s : List Char} : stripped s = s ↔ ¬HasSequence s := by
  constructor
  · rintro h ⟨before, args, after, rfl, hargs⟩
    induction before with
    | nil =>
      rw [List.nil_append, stripped_sequence args (List.all_eq_true.2 hargs)] at h
      have hle := length_stripped_le after
      rw [h] at hle
      simp only [List.length_cons, List.length_append] at hle
      omega
    | cons c before ih =>
      rw [List.cons_append, stripped_cons] at h
      cases hnext : if c = escape then
        afterSequence? (before ++ escape :: '[' :: (args ++ 'm' :: after)) else none with
      | none =>
        rw [hnext] at h
        exact ih (List.cons.inj h).2
      | some t =>
        rw [hnext] at h
        split at hnext
        · have hlt := length_lt_of_afterSequence? hnext
          have hle := length_stripped_le t
          have hlength := congrArg List.length h
          simp only [Option.map_some, Option.getD_some, List.length_cons] at hlength
          omega
        · cases hnext
  · intro h
    fun_induction stripped s with
    | case1 => rfl
    | case2 c s u hnext _ =>
      split at hnext
      · rename_i hc
        obtain ⟨args, rfl, hargs⟩ := afterSequence?_eq_some.1 hnext
        exact absurd ⟨[], args, u, by rw [hc, List.nil_append], hargs⟩ h
      · cases hnext
    | case3 c s _ ih =>
      congr 1
      apply ih
      rintro ⟨before, args, after, rfl, hargs⟩
      exact h ⟨c :: before, args, after, rfl, hargs⟩

/-- No sequence runs over the end of the text, whatever follows it. -/
def IsWhole (s : List Char) : Prop := ∀ t, stripped (s ++ t) = stripped s ++ stripped t

theorem isWhole_of_notMem {s : List Char} (h : escape ∉ s) : IsWhole s := by
  intro t
  rw [stripped_append_of_notMem h, stripped_of_notMem h]

theorem isWhole_of_erased {s : List Char} (h : ∀ t, stripped (s ++ t) = stripped t) :
    IsWhole s ∧ stripped s = [] := by
  have hs : stripped s = [] := by
    have hnil := h []
    rwa [List.append_nil, stripped_nil] at hnil
  refine ⟨fun t => ?_, hs⟩
  rw [h, hs, List.nil_append]

theorem isWhole_bracket (s : List Char) : IsWhole (s ++ [']']) := by
  intro t
  rw [List.append_assoc, List.singleton_append, stripped_append_bracket, stripped_append_bracket,
    stripped_nil, List.append_assoc, List.singleton_append]

theorem IsWhole.append {s t : List Char} (hs : IsWhole s) (ht : IsWhole t) : IsWhole (s ++ t) := by
  intro u
  rw [List.append_assoc, hs, ht, hs, List.append_assoc]

theorem IsWhole.stripped_append_eq_iff {s : List Char} (hs : IsWhole s) (t : List Char) :
    stripped (s ++ t) = s ++ t ↔ stripped s = s ∧ stripped t = t := by
  rw [hs]
  constructor
  · intro h
    have hlength := congrArg List.length h
    have hle := length_stripped_le s
    have hle' := length_stripped_le t
    rw [List.length_append, List.length_append] at hlength
    exact List.append_inj h (by omega)
  · rintro ⟨hs', ht'⟩
    rw [hs', ht']

end StructLang.Text
