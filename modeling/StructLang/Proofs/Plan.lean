import Mathlib.Data.Fintype.Card
import Mathlib.Data.Set.Finite.Basic
import Mathlib.Logic.Relation
import StructLang.Plan
import StructLang.Proofs.Outcome
import StructLang.Proofs.Table

namespace StructLang.Plan

variable {σ : Type} {passes : List (Pass σ)} {done : List String} {p : Progress}

def names (passes : List (Pass σ)) : List String := passes.map Pass.name

def Requires (passes : List (Pass σ)) (a b : String) : Prop :=
  b ∈ names passes ∧ ∃ p ∈ passes, p.name = a ∧ b ∈ p.requires

def Acyclic (passes : List (Pass σ)) : Prop :=
  ∀ n, ¬Relation.TransGen (Requires passes) n n

def unmet (passes : List (Pass σ)) (done : List String) (p : Pass σ) : List String :=
  p.requires.eraseDups.filter fun r => passes.any (·.name == r) && !done.contains r

theorem mem_unmet {q : Pass σ} {r : String} :
    r ∈ unmet passes done q ↔ r ∈ q.requires ∧ r ∈ names passes ∧ r ∉ done := by
  simp [unmet, names]

theorem nodup_unmet (passes : List (Pass σ)) (done : List String) (q : Pass σ) :
    (unmet passes done q).Nodup :=
  (nodup_eraseDups q.requires).filter _

theorem openRequirements_eq (passes : List (Pass σ)) (q : Pass σ) :
    openRequirements passes q = (unmet passes [] q).length := by
  simp [openRequirements, unmet]

theorem unmet_concat (passes : List (Pass σ)) (done : List String) (name : String) (q : Pass σ) :
    unmet passes (done ++ [name]) q = (unmet passes done q).erase name := by
  rw [(nodup_unmet passes done q).erase_eq_filter, unmet, unmet, List.filter_filter]
  refine List.filter_congr fun r _ => ?_
  rw [Bool.eq_iff_iff]
  simp only [Bool.and_eq_true, Bool.not_eq_true', List.contains_eq_mem, decide_eq_false_iff_not,
    List.mem_append, List.mem_singleton, not_or, bne_iff_ne]
  tauto

theorem length_unmet_concat {name : String} (hname : name ∈ names passes) (hdone : name ∉ done)
    (q : Pass σ) : ((unmet passes (done ++ [name]) q).length : Int) =
      if name ∈ q.requires then ((unmet passes done q).length : Int) - 1
      else (unmet passes done q).length := by
  rw [unmet_concat]
  split
  · rename_i hreq
    have hmem := mem_unmet.2 ⟨hreq, hname, hdone⟩
    have hpos := List.length_pos_of_mem hmem
    rw [List.length_erase_of_mem hmem]
    omega
  · rename_i hreq
    rw [List.erase_of_not_mem fun hmem => hreq (mem_unmet.1 hmem).1]

theorem get?_lessOne_self (w : Table Int) (name : String) :
    (lessOne w name).get? name = (w.get? name).map (· - 1) := by
  induction w with
  | nil => rfl
  | cons e w ih =>
    rw [lessOne]
    split
    · rename_i he
      simp [Table.get?, he]
    · rename_i he
      simp [Table.get?, he, ih]

theorem get?_lessOne_of_ne (w : Table Int) {name n : String} (h : n ≠ name) :
    (lessOne w name).get? n = w.get? n := by
  induction w with
  | nil => rfl
  | cons e w ih =>
    rw [lessOne]
    split
    · rename_i he
      simp [Table.get?, he, Ne.symm h]
    · simp [Table.get?, ih]

def isLast (name : String) (waiting : Table Int) (q : Pass σ) : Bool :=
  name ∈ q.requires && waiting.get? q.name == some 1

theorem meet_eq (name : String) (p : Progress) (q : Pass σ) :
    meet name p q = ⟨p.queue ++ names ([q].filter (isLast name p.waiting)),
      if name ∈ q.requires then lessOne p.waiting q.name else p.waiting⟩ := by
  rw [meet]
  split
  · rename_i hreq
    have hone : (lessOne p.waiting q.name).get? q.name = some 0 ↔
        p.waiting.get? q.name = some 1 := by
      rw [get?_lessOne_self, Option.map_eq_some_iff]
      constructor
      · rintro ⟨k, hk, hzero⟩
        rw [hk, Int.sub_eq_zero.1 hzero]
      · exact fun hk => ⟨1, hk, rfl⟩
    simp only [hone]
    split
    · rename_i hlast
      simp [isLast, hreq, hlast, names]
    · rename_i hlast
      simp [isLast, hreq, hlast, names]
  · rename_i hreq
    simp [isLast, hreq, names]

theorem meet_waiting (name : String) (p : Progress) (q : Pass σ) :
    (meet name p q).waiting.get? q.name =
      (p.waiting.get? q.name).map fun k => if name ∈ q.requires then k - 1 else k := by
  rw [meet_eq]
  by_cases hreq : name ∈ q.requires <;> simp [hreq, get?_lessOne_self]

theorem meet_waiting_of_ne (name : String) (p : Progress) (q : Pass σ) {n : String}
    (h : n ≠ q.name) : (meet name p q).waiting.get? n = p.waiting.get? n := by
  rw [meet_eq]
  by_cases hreq : name ∈ q.requires <;> simp [hreq, get?_lessOne_of_ne _ h]

theorem meetAll_queue {qs : List (Pass σ)} (h : (names qs).Nodup) (name : String) (p : Progress) :
    (meetAll qs name p).queue = p.queue ++ names (qs.filter (isLast name p.waiting)) := by
  induction qs generalizing p with
  | nil => simp [meetAll, names]
  | cons q qs ih =>
    rw [names, List.map_cons, List.nodup_cons] at h
    have hsame : qs.filter (isLast name (meet name p q).waiting) =
        qs.filter (isLast name p.waiting) := by
      refine List.filter_congr fun r hr => ?_
      have hne : r.name ≠ q.name := fun heq => h.1 (heq ▸ List.mem_map_of_mem hr)
      rw [isLast, isLast, meet_waiting_of_ne name p q hne]
    calc (meetAll (q :: qs) name p).queue = (meetAll qs name (meet name p q)).queue := rfl
      _ = (meet name p q).queue ++ names (qs.filter (isLast name p.waiting)) := by
        rw [ih h.2, hsame]
      _ = p.queue ++ (names ([q].filter (isLast name p.waiting)) ++
          names (qs.filter (isLast name p.waiting))) := by rw [meet_eq, List.append_assoc]
      _ = p.queue ++ names ((q :: qs).filter (isLast name p.waiting)) := by
        rw [names, names, ← List.map_append, ← List.filter_append]
        rfl

theorem meetAll_waiting_of_notMem {qs : List (Pass σ)} (name : String) (p : Progress) {n : String}
    (h : n ∉ names qs) : (meetAll qs name p).waiting.get? n = p.waiting.get? n := by
  induction qs generalizing p with
  | nil => rfl
  | cons q qs ih =>
    rw [names, List.map_cons, List.mem_cons, not_or] at h
    exact (ih (meet name p q) h.2).trans (meet_waiting_of_ne name p q h.1)

theorem meetAll_waiting {qs : List (Pass σ)} (h : (names qs).Nodup) (name : String) (p : Progress)
    {q : Pass σ} (hq : q ∈ qs) :
    (meetAll qs name p).waiting.get? q.name =
      (p.waiting.get? q.name).map fun k => if name ∈ q.requires then k - 1 else k := by
  induction qs generalizing p with
  | nil => cases hq
  | cons r qs ih =>
    rw [names, List.map_cons, List.nodup_cons] at h
    obtain rfl | hq := List.mem_cons.1 hq
    · exact (meetAll_waiting_of_notMem name _ h.1).trans (meet_waiting name p q)
    · have hne : q.name ≠ r.name := fun heq => h.1 (heq ▸ List.mem_map_of_mem hq)
      have hrest := ih h.2 (meet name p r) hq
      rwa [meet_waiting_of_ne name p r hne] at hrest

def Peers (passes : List (Pass σ)) (q r : Pass σ) : Prop :=
  ∀ n ∈ names passes, n ∈ q.requires ↔ n ∈ r.requires

structure Ordered (passes : List (Pass σ)) (ns : List String) : Prop where
  nodup : ns.Nodup
  registered : ns ⊆ names passes
  after : ∀ before n rest, ns = before ++ n :: rest → ∀ m, Requires passes n m → m ∈ before
  stable : ∀ q r, [q, r].Sublist passes → Peers passes q r → q.name ∈ ns ∨ r.name ∈ ns →
    [q.name, r.name].Sublist ns

theorem Ordered.nil (passes : List (Pass σ)) : Ordered passes [] where
  nodup := .nil
  registered := nofun
  after before n rest h := by simp at h
  stable q r _ _ h := by simp at h

theorem eq_of_name_eq (hnames : (names passes).Nodup) {q r : Pass σ} (hq : q ∈ passes)
    (hr : r ∈ passes) (h : q.name = r.name) : q = r :=
  List.inj_on_of_nodup_map hnames hq hr h

theorem name_mem_filter_iff (hnames : (names passes).Nodup) {q : Pass σ} (hq : q ∈ passes)
    (ready : Pass σ → Bool) : q.name ∈ names (passes.filter ready) ↔ ready q := by
  constructor
  · intro h
    obtain ⟨r, hr, hname⟩ := List.mem_map.1 h
    rw [List.mem_filter] at hr
    rw [← eq_of_name_eq hnames hr.1 hq hname]
    exact hr.2
  · exact fun h => List.mem_map_of_mem (List.mem_filter.2 ⟨hq, h⟩)

theorem Peers.unmet_eq_nil_iff {q r : Pass σ} (h : Peers passes q r) :
    unmet passes done q = [] ↔ unmet passes done r = [] := by
  simp only [List.eq_nil_iff_forall_not_mem, mem_unmet]
  refine forall_congr' fun n => not_congr ?_
  constructor
  · rintro ⟨hn, hnames, hdone⟩
    exact ⟨(h n hnames).1 hn, hnames, hdone⟩
  · rintro ⟨hn, hnames, hdone⟩
    exact ⟨(h n hnames).2 hn, hnames, hdone⟩

theorem cut_append {ns new before rest : List String} {n : String}
    (h : ns ++ new = before ++ n :: rest) :
    (∃ rest', ns = before ++ n :: rest') ∨ n ∈ new ∧ ns ⊆ before := by
  obtain ⟨ns', rfl, hnew⟩ | ⟨ns', rfl, hrest⟩ := List.append_eq_append_iff.1 h
  · exact .inr ⟨by simp [hnew], List.subset_append_left _ _⟩
  · cases ns' with
    | nil =>
      rw [List.nil_append] at hrest
      exact .inr ⟨by simp [← hrest], by simp⟩
    | cons m ns' =>
      obtain ⟨rfl, -⟩ := List.cons.inj hrest
      exact .inl ⟨ns', rfl⟩

theorem Ordered.append {ns : List String} (h : Ordered passes ns) (hnames : (names passes).Nodup)
    (hdone : done ⊆ ns) {ready : Pass σ → Bool}
    (hready : ∀ q ∈ passes, ready q ↔ q.name ∉ ns ∧ unmet passes done q = []) :
    Ordered passes (ns ++ names (passes.filter ready)) := by
  have hnew : ∀ n ∈ names (passes.filter ready), ∃ q ∈ passes, q.name = n ∧ ready q := by
    intro n hn
    obtain ⟨q, hq, rfl⟩ := List.mem_map.1 hn
    exact ⟨q, List.mem_of_mem_filter hq, rfl, (List.mem_filter.1 hq).2⟩
  have hmet : ∀ n ∈ names (passes.filter ready), ∀ m, Requires passes n m → m ∈ ns := by
    rintro n hn m ⟨hm, r, hr, hname, hrequires⟩
    obtain ⟨q, hq, rfl, hqready⟩ := hnew n hn
    rw [eq_of_name_eq hnames hr hq hname] at hrequires
    by_contra hnot
    have hopen := mem_unmet.2 ⟨hrequires, hm, fun hmem => hnot (hdone hmem)⟩
    rw [((hready q hq).1 hqready).2] at hopen
    cases hopen
  constructor
  case nodup =>
    refine List.nodup_append.2 ⟨h.nodup, hnames.sublist (List.filter_sublist.map _), ?_⟩
    rintro n hn _ hn' rfl
    obtain ⟨q, hq, rfl, hqready⟩ := hnew _ hn'
    exact ((hready q hq).1 hqready).1 hn
  case registered =>
    refine List.append_subset.2 ⟨h.registered, fun n hn => ?_⟩
    obtain ⟨q, hq, rfl, -⟩ := hnew n hn
    exact List.mem_map_of_mem hq
  case after =>
    intro before n rest hsplit m hm
    obtain ⟨rest', hcut⟩ | ⟨hn, hsub⟩ := cut_append hsplit
    · exact h.after before n rest' hcut m hm
    · exact hsub (hmet n hn m hm)
  case stable =>
    intro q r hqr hpeers hmem
    have hq : q ∈ passes := hqr.subset (by simp)
    have hr : r ∈ passes := hqr.subset (by simp)
    by_cases hold : q.name ∈ ns ∨ r.name ∈ ns
    · exact (h.stable q r hqr hpeers hold).trans (List.sublist_append_left _ _)
    · -- one of the two is new, and then the other has become ready with it
      rw [not_or] at hold
      have hboth : unmet passes done q = [] := by
        simp only [List.mem_append, hold, false_or, name_mem_filter_iff hnames hq,
          name_mem_filter_iff hnames hr] at hmem
        obtain hq' | hr' := hmem
        · exact ((hready q hq).1 hq').2
        · exact hpeers.unmet_eq_nil_iff.2 ((hready r hr).1 hr').2
      have hqready : ready q := (hready q hq).2 ⟨hold.1, hboth⟩
      have hrready : ready r := (hready r hr).2 ⟨hold.2, hpeers.unmet_eq_nil_iff.1 hboth⟩
      have hsub := hqr.filter ready
      simp only [List.filter_cons, hqready, hrready, if_true, List.filter_nil] at hsub
      exact (hsub.map Pass.name).trans (List.sublist_append_right _ _)

/-- What holds each time before a pass leaves the queue. -/
structure Invariant (passes : List (Pass σ)) (done : List String) (p : Progress) : Prop where
  waiting : ∀ q ∈ passes, p.waiting.get? q.name = some ((unmet passes done q).length : Int)
  ordered : Ordered passes (done ++ p.queue)
  ready_iff : ∀ q ∈ passes, q.name ∈ done ++ p.queue ↔ unmet passes done q = []

theorem invariant_start (hnames : (names passes).Nodup) : Invariant passes [] (start passes) := by
  have hwaiting : ∀ q ∈ passes, (start passes).waiting.get? q.name =
      some ((unmet passes [] q).length : Int) := by
    intro q hq
    have hentries : Table.names (passes.map fun q => (q.name, openRequirements passes q)) =
        names passes := by simp [Table.names, names]
    rw [start, Table.ofList_of_nodup (hentries ▸ hnames), ← openRequirements_eq]
    exact Table.get?_of_mem (hentries ▸ hnames) (List.mem_map.2 ⟨q, hq, rfl⟩)
  have hready : ∀ q ∈ passes, ((start passes).waiting.get? q.name == some 0) ↔
      q.name ∉ ([] : List String) ∧ unmet passes [] q = [] := by
    intro q hq
    rw [hwaiting q hq]
    simp
  refine ⟨hwaiting, (Ordered.nil passes).append hnames (List.Subset.refl _) hready, ?_⟩
  intro q hq
  exact (name_mem_filter_iff hnames hq _).trans ((hready q hq).trans (by simp))

theorem Invariant.step (hnames : (names passes).Nodup) {name : String} {queue : List String}
    (h : Invariant passes done p) (hqueue : p.queue = name :: queue) :
    Invariant passes (done ++ [name]) (meetAll passes name { p with queue }) := by
  have hall : done ++ p.queue = (done ++ [name]) ++ queue := by rw [hqueue]; simp
  have hname : name ∈ names passes := h.ordered.registered (by simp [hqueue])
  have hfresh : name ∉ done := by
    have hnodup := h.ordered.nodup
    rw [hqueue, List.nodup_append] at hnodup
    exact fun hmem => hnodup.2.2 _ hmem _ List.mem_cons_self rfl
  have hlength := length_unmet_concat hname hfresh
  have hlast : ∀ q ∈ passes, isLast name p.waiting q ↔
      q.name ∉ (done ++ [name]) ++ queue ∧ unmet passes (done ++ [name]) q = [] := by
    intro q hq
    have hq' := hlength q
    rw [← hall, h.ready_iff q hq, isLast, h.waiting q hq]
    by_cases hreq : name ∈ q.requires
    · rw [if_pos hreq] at hq'
      simp only [hreq, decide_true, Bool.true_and, beq_iff_eq, Option.some.injEq,
        ← List.length_eq_zero_iff]
      omega
    · rw [if_neg hreq] at hq'
      simp only [hreq, decide_false, Bool.false_and, Bool.false_eq_true, false_iff,
        ← List.length_eq_zero_iff]
      omega
  have hqueue' : (meetAll passes name { p with queue }).queue =
      queue ++ names (passes.filter (isLast name p.waiting)) :=
    meetAll_queue hnames name _
  refine ⟨?_, ?_, ?_⟩
  · intro q hq
    rw [meetAll_waiting hnames name _ hq, h.waiting q hq, hlength q, Option.map_some]
  · have hordered := h.ordered
    rw [hall] at hordered
    rw [hqueue', ← List.append_assoc]
    exact hordered.append hnames (List.subset_append_left _ _) hlast
  · intro q hq
    rw [hqueue', ← List.append_assoc, List.mem_append, name_mem_filter_iff hnames hq, hlast q hq,
      ← hall, h.ready_iff q hq]
    have hmono : unmet passes done q = [] → unmet passes (done ++ [name]) q = [] := by
      intro hnil
      rw [unmet_concat, hnil, List.erase_nil]
    tauto

theorem drain_of_nil (h : p.queue = []) : drain passes p = [] := by
  rw [drain]
  split
  · rfl
  · rename_i hqueue
    rw [h] at hqueue
    cases hqueue

theorem drain_of_cons {name : String} {queue : List String} (h : p.queue = name :: queue) :
    drain passes p = name :: drain passes (meetAll passes name { p with queue }) := by
  rw [drain]
  split
  · rename_i hqueue
    rw [h] at hqueue
    cases hqueue
  · rename_i hqueue
    rw [h] at hqueue
    cases hqueue
    rfl

theorem Invariant.drain (hnames : (names passes).Nodup) (h : Invariant passes done p) :
    ∃ waiting, Invariant passes (done ++ drain passes p) ⟨[], waiting⟩ := by
  induction p using drain.induct passes generalizing done with
  | case1 p hqueue =>
    have hp : p = ⟨[], p.waiting⟩ := by rw [← hqueue]
    rw [drain_of_nil hqueue, List.append_nil]
    exact ⟨p.waiting, hp ▸ h⟩
  | case2 p name queue hqueue ih =>
    rw [drain_of_cons hqueue, ← List.singleton_append, ← List.append_assoc]
    exact ih (h.step hnames hqueue)

section

variable (hnames : (names passes).Nodup)
include hnames

theorem ordered_drain : Ordered passes (drain passes (start passes)) := by
  obtain ⟨w, h⟩ := (invariant_start hnames).drain hnames
  simpa using h.ordered

theorem name_mem_drain {q : Pass σ} (hq : q ∈ passes)
    (h : ∀ n, Requires passes q.name n → n ∈ drain passes (start passes)) :
    q.name ∈ drain passes (start passes) := by
  obtain ⟨w, hinv⟩ := (invariant_start hnames).drain hnames
  have hready := (hinv.ready_iff q hq).2
  simp only [List.nil_append, List.append_nil] at hready
  refine hready (List.eq_nil_iff_forall_not_mem.2 fun n hn => ?_)
  obtain ⟨hrequires, hregistered, hdone⟩ := mem_unmet.1 hn
  exact hdone (h n ⟨hregistered, q, hq, rfl, hrequires⟩)

/-- By induction along what is required, which ends where nothing requires itself. -/
theorem names_subset_drain (h : Acyclic passes) :
    names passes ⊆ drain passes (start passes) := by
  let needed (b a : { n // n ∈ names passes }) : Prop :=
    Relation.TransGen (Requires passes) a.1 b.1
  have htrans : IsTrans _ needed := ⟨fun _ _ _ hab hbc => hbc.trans hab⟩
  have hirrefl : Std.Irrefl needed := ⟨fun a => h a.1⟩
  have hfinite : Finite { n // n ∈ names passes } := (List.finite_toSet (names passes)).to_subtype
  have hwf := Finite.wellFounded_of_trans_of_irrefl needed
  have hall : ∀ a : { n // n ∈ names passes }, a.1 ∈ drain passes (start passes) := by
    intro a
    induction a using hwf.induction with
    | _ a ih =>
      obtain ⟨q, hq, hname⟩ := List.mem_map.1 a.2
      have hmem := name_mem_drain hnames hq fun m hm =>
        ih ⟨m, hm.1⟩ (.single (hname ▸ hm))
      rwa [hname] at hmem
  exact fun n hn => hall ⟨n, hn⟩

end

theorem Ordered.idxOf_lt {ns : List String} (h : Ordered passes ns) {a b : String} (ha : a ∈ ns)
    (hab : Requires passes a b) : ns.idxOf b < ns.idxOf a := by
  obtain ⟨before, rest, rfl⟩ := List.append_of_mem ha
  have hb := h.after before a rest rfl b hab
  have hfresh : a ∉ before := by
    have hnodup := h.nodup
    rw [List.nodup_append] at hnodup
    exact fun hmem => hnodup.2.2 a hmem a List.mem_cons_self rfl
  rw [List.idxOf_append_of_mem hb, List.idxOf_append_of_notMem hfresh, List.idxOf_cons_self]
  exact List.idxOf_lt_length_of_mem hb

theorem Ordered.acyclic {ns : List String} (h : Ordered passes ns) (hall : names passes ⊆ ns) :
    Acyclic passes := by
  have hdown {a b : String} (hab : Relation.TransGen (Requires passes) a b) :
      ns.idxOf b < ns.idxOf a := by
    induction hab with
    | single hab =>
      obtain ⟨-, q, hq, rfl, -⟩ := id hab
      exact h.idxOf_lt (hall (List.mem_map_of_mem hq)) hab
    | tail _ hbc ih =>
      obtain ⟨-, q, hq, rfl, -⟩ := id hbc
      exact (h.idxOf_lt (hall (List.mem_map_of_mem hq)) hbc).trans ih
  exact fun n hn => Nat.lt_irrefl _ (hdown hn)

theorem Ordered.length_eq_iff {ns : List String} (h : Ordered passes ns)
    (hnames : (names passes).Nodup) : ns.length = passes.length ↔ names passes ⊆ ns := by
  have hlength : (names passes).length = passes.length := List.length_map _
  have hsub := List.subperm_of_subset h.nodup h.registered
  constructor
  · intro heq
    exact (hsub.perm_of_length_le (by omega)).symm.subset
  · intro hall
    have hle := (List.subperm_of_subset hnames hall).length_le
    have hle' := hsub.length_le
    omega

theorem acyclic_iff_length_drain (hnames : (names passes).Nodup) :
    Acyclic passes ↔ (drain passes (start passes)).length = passes.length := by
  have hordered := ordered_drain hnames
  rw [hordered.length_eq_iff hnames]
  exact ⟨names_subset_drain hnames, hordered.acyclic⟩

structure IsSchedule (passes ps : List (Pass σ)) : Prop where
  perm : ps.Perm passes
  after : ∀ before p rest, ps = before ++ p :: rest → ∀ q ∈ passes, q.name ∈ p.requires → q ∈ before
  stable : ∀ p q, [p, q].Sublist passes → Peers passes p q → [p, q].Sublist ps

def select (passes : List (Pass σ)) (ns : List String) : List (Pass σ) :=
  ns.filterMap fun n => passes.find? (·.name == n)

theorem names_select {ns : List String} (h : ns ⊆ names passes) :
    names (select passes ns) = ns := by
  induction ns with
  | nil => rfl
  | cons n ns ih =>
    obtain ⟨hn, hns⟩ := List.cons_subset.1 h
    obtain ⟨q, hq, hname⟩ := List.mem_map.1 hn
    cases hfind : passes.find? (·.name == n) with
    | none =>
      have hnone := List.find?_eq_none.1 hfind q hq
      simp [hname] at hnone
    | some r =>
      have hr : r.name = n := by simpa using List.find?_some hfind
      have hselect : select passes (n :: ns) = r :: select passes ns := by
        simp only [select, List.filterMap_cons, hfind]
      rw [hselect, names, List.map_cons, hr]
      exact congrArg (n :: ·) (ih hns)

theorem select_subset (passes : List (Pass σ)) (ns : List String) : select passes ns ⊆ passes := by
  intro q hq
  obtain ⟨n, -, hfind⟩ := List.mem_filterMap.1 hq
  exact List.mem_of_find?_eq_some hfind

theorem Ordered.isSchedule {ns : List String} (h : Ordered passes ns)
    (hnames : (names passes).Nodup) (hall : names passes ⊆ ns) :
    IsSchedule passes (select passes ns) := by
  have hselect := names_select h.registered
  have hsub := select_subset passes ns
  constructor
  case perm =>
    have hnodup : (select passes ns).Nodup := .of_map Pass.name (by
      change (names _).Nodup
      rw [hselect]
      exact h.nodup)
    have hlength : (names (select passes ns)).length = (select passes ns).length :=
      List.length_map _
    rw [hselect] at hlength
    have hcount := (h.length_eq_iff hnames).2 hall
    exact (List.subperm_of_subset hnodup hsub).perm_of_length_le (by omega)
  case after =>
    intro before p rest hsplit q hq hrequires
    have hp : p ∈ passes := hsub (by simp [hsplit])
    rw [hsplit, names, List.map_append, List.map_cons] at hselect
    have hmem := h.after _ _ _ hselect.symm q.name
      ⟨List.mem_map_of_mem hq, p, hp, rfl, hrequires⟩
    obtain ⟨r, hr, hname⟩ := List.mem_map.1 hmem
    have hrq := eq_of_name_eq hnames (hsub (by simp [hsplit, hr])) hq hname
    exact hrq ▸ hr
  case stable =>
    intro p q hpq hpeers
    have hp : p ∈ passes := hpq.subset (by simp)
    have hq : q ∈ passes := hpq.subset (by simp)
    have hnamed := h.stable p q hpq hpeers (.inl (hall (List.mem_map_of_mem hp)))
    rw [← hselect] at hnamed
    obtain ⟨l, hl, hpair⟩ := List.sublist_map_iff.1 hnamed
    obtain ⟨p', l', rfl, hp', hl'⟩ := List.map_eq_cons_iff.1 hpair.symm
    obtain ⟨q', rfl, hq'⟩ := List.map_eq_singleton_iff.1 hl'
    rwa [eq_of_name_eq hnames (hsub (hl.subset (by simp))) hp hp',
      eq_of_name_eq hnames (hsub (hl.subset (by simp))) hq hq'] at hl

theorem order_eq (passes : List (Pass σ)) :
    order passes = if (drain passes (start passes)).length = passes.length then
      .ok (select passes (drain passes (start passes)))
    else .error (.internal "Circular dependency detected in passes") := rfl

/-- All passes run, each once and after what it requires, passes with the same requirements in the
order of registration. If a pass requires itself, through others or not, the fault is the same
whatever the passes would do: none of them has run. -/
theorem runAll_schedules (hnames : (passes.map Pass.name).Nodup) (after : Pass σ → σ → σ) (s : σ) :
    (Acyclic passes → ∃ ps, IsSchedule passes ps ∧
      runAll passes after s = ps.foldlM (fun s p => do return after p (← p.run s)) s) ∧
    (¬Acyclic passes →
      runAll passes after s = .error (.internal "Circular dependency detected in passes")) := by
  have hordered := ordered_drain hnames
  rw [runAll, order_eq, acyclic_iff_length_drain hnames]
  constructor
  · intro h
    refine ⟨_, hordered.isSchedule hnames ((hordered.length_eq_iff hnames).1 h), ?_⟩
    rw [if_pos h]
    rfl
  · intro h
    rw [if_neg h]
    rfl

namespace Samples

def logged (name : String) (requires : List String) : Pass (List String) where
  name
  requires
  run ran := .ok (ran ++ [name])

def hook (p : Pass (List String)) (ran : List String) : List String := ran ++ ["after " ++ p.name]

def chain : List (Pass (List String)) := [logged "b" ["a", "c"], logged "a" []]

def loop : List (Pass (List String)) := [logged "a" ["b"], logged "b" ["a"]]

theorem requires_chain {a b : String} (h : Requires chain a b) : a = "b" ∧ b = "a" := by
  obtain ⟨hb, p, hp, rfl, hrequires⟩ := h
  obtain rfl | rfl : p = logged "b" ["a", "c"] ∨ p = logged "a" [] := by simpa [chain] using hp
  · have hnames : b = "b" ∨ b = "a" := by simpa [names, chain, logged] using hb
    have hneeds : b = "a" ∨ b = "c" := by simpa [logged] using hrequires
    refine ⟨rfl, hneeds.resolve_right ?_⟩
    rintro rfl
    exact absurd hnames (by decide)
  · exact absurd hrequires List.not_mem_nil

theorem acyclic_chain : Acyclic chain := by
  intro n hn
  obtain ⟨m, hfirst, -⟩ := Relation.TransGen.head'_iff.1 hn
  obtain ⟨k, -, hlast⟩ := Relation.TransGen.tail'_iff.1 hn
  have hclash := (requires_chain hfirst).1.symm.trans (requires_chain hlast).2
  exact absurd hclash (by decide)

theorem not_acyclic_loop : ¬Acyclic loop := by
  intro h
  have hab : Requires loop "a" "b" := ⟨by decide, _, List.mem_cons_self, rfl, by decide⟩
  have hba : Requires loop "b" "a" :=
    ⟨by decide, _, List.mem_cons_of_mem _ List.mem_cons_self, rfl, by decide⟩
  exact h "a" (.tail (.single hab) hba)

end Samples

open Samples in
theorem runAll_schedules_samples :
    ((names chain).Nodup ∧ Acyclic chain ∧ ∃ ps, IsSchedule chain ps ∧ runAll chain hook [] =
      ps.foldlM (fun ran p => do return hook p (← p.run ran)) []) ∧
    (names loop).Nodup ∧ ¬Acyclic loop ∧
      runAll loop hook [] = .error (.internal "Circular dependency detected in passes") :=
  ⟨⟨by decide, acyclic_chain, (runAll_schedules (by decide) hook []).1 acyclic_chain⟩,
    by decide, not_acyclic_loop, (runAll_schedules (by decide) hook []).2 not_acyclic_loop⟩

end StructLang.Plan
