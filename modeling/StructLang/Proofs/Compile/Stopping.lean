import Mathlib.Data.List.Permutation
import StructLang.Proofs.Compile.Stages
import StructLang.Proofs.Typing.Numeric

namespace StructLang

namespace Outcome

def Has (o : Outcome) : Stage → Prop
  | .lex => o.tokens ≠ none
  | .parse => o.tree ≠ none
  | .check => o.types ≠ {}
  | .lower => o.code ≠ none
  | .optimize => o.called ≠ none
  | .emit => o.output ≠ none

/-- Nothing but what the stages make differs between two outcomes. -/
structure Frame (ss : List Stage) (o o' : Outcome) : Prop where
  tokens : .lex ∉ ss → o'.tokens = o.tokens
  tree : .parse ∉ ss → o'.tree = o.tree
  types : .check ∉ ss → o'.types = o.types
  code : .lower ∉ ss → .optimize ∉ ss → o'.code = o.code
  called : .optimize ∉ ss → o'.called = o.called
  output : .emit ∉ ss → o'.output = o.output

namespace Frame

variable {job : Job} {o o' o'' : Outcome} {ss rest : List Stage}

theorem refl (ss : List Stage) (o : Outcome) : Frame ss o o where
  tokens _ := rfl
  tree _ := rfl
  types _ := rfl
  code _ _ := rfl
  called _ := rfl
  output _ := rfl

theorem trans (h : Frame ss o o') (h' : Frame rest o' o'') : Frame (ss ++ rest) o o'' where
  tokens hs := (h'.tokens (by simp_all)).trans (h.tokens (by simp_all))
  tree hs := (h'.tree (by simp_all)).trans (h.tree (by simp_all))
  types hs := (h'.types (by simp_all)).trans (h.types (by simp_all))
  code hs hs' := (h'.code (by simp_all) (by simp_all)).trans (h.code (by simp_all) (by simp_all))
  called hs := (h'.called (by simp_all)).trans (h.called (by simp_all))
  output hs := (h'.output (by simp_all)).trans (h.output (by simp_all))

theorem mono (h : Frame ss o o') (hss : ss ⊆ rest) : Frame rest o o' where
  tokens hs := h.tokens fun hmem => hs (hss hmem)
  tree hs := h.tree fun hmem => hs (hss hmem)
  types hs := h.types fun hmem => hs (hss hmem)
  code hs hs' := h.code (fun hmem => hs (hss hmem)) fun hmem => hs' (hss hmem)
  called hs := h.called fun hmem => hs (hss hmem)
  output hs := h.output fun hmem => hs (hss hmem)

theorem not_has (h : Frame ss job.start o) {s : Stage} (hs : s ∉ ss)
    (hopt : .optimize ∈ ss → .lower ∈ ss) : ¬o.Has s := by
  cases s with
  | lex => simp [Has, h.tokens hs, Job.start]
  | parse => simp [Has, h.tree hs, Job.start]
  | check => simp [Has, h.types hs, Job.start]
  | lower => simp [Has, h.code hs fun hmem => hs (hopt hmem), Job.start]
  | optimize => simp [Has, h.called hs, Job.start]
  | emit => simp [Has, h.output hs, Job.start]

end Frame

end Outcome

namespace Stage

open Outcome

def rank (s : Stage) : Nat := all.idxOf s

def between (s s' : Stage) : List Stage :=
  all.filter fun r => s.rank < r.rank && r.rank ≤ s'.rank

theorem upTo_eq_append {s s' : Stage} (h : s.rank < s'.rank) :
    upTo s' all = upTo s all ++ between s s' := by
  revert h
  cases s <;> cases s' <;> decide

theorem mem_upTo {s r : Stage} : r ∈ upTo s all ↔ r.rank ≤ s.rank := by
  cases s <;> cases r <;> decide

theorem mem_between {s s' r : Stage} : r ∈ between s s' ↔ s.rank < r.rank ∧ r.rank ≤ s'.rank := by
  cases s <;> cases s' <;> cases r <;> decide

variable {job : Job} {o o' : Outcome}

theorem frame_add (ss : List Stage) (o : Outcome) (steps : List Step) : Frame ss o (o.add steps) :=
  ⟨fun _ => rfl, fun _ => rfl, fun _ => rfl, fun _ _ => rfl, fun _ => rfl, fun _ => rfl⟩

theorem frame_fail (ss : List Stage) (o : Outcome) (file : String) (f : Failure) :
    Frame ss o (o.fail file f) :=
  ⟨fun _ => rfl, fun _ => rfl, fun _ => rfl, fun _ _ => rfl, fun _ => rfl, fun _ => rfl⟩

theorem frame_refuse {file : String} {e : Fault} (h : o.refuse file e = .ok o') (ss : List Stage) :
    Frame ss o o' := by
  cases e with
  | refused f =>
    cases h
    exact frame_fail ss o file f
  | _ => cases h

theorem frame_foldPass (h : foldPass o = .ok o') : Frame [.optimize] o o' := by
  rw [foldPass] at h
  split at h
  · cases h
    exact .refl _ _
  · split at h
    · cases h
      exact ⟨fun _ => rfl, fun _ => rfl, fun _ => rfl, by simp, fun _ => rfl, fun _ => rfl⟩
    · cases h

theorem frame_usagePass (h : usagePass o = .ok o') : Frame [.optimize] o o' := by
  rw [usagePass] at h
  split at h
  · cases h
    exact .refl _ _
  · cases h
    exact ⟨fun _ => rfl, fun _ => rfl, fun _ => rfl, by simp, by simp, fun _ => rfl⟩

theorem frame_afterPass (p : Plan.Pass Outcome) (o : Outcome) :
    Frame [.optimize] o (afterPass p o) := by
  rw [afterPass]
  split
  · exact .refl _ _
  · exact frame_add _ _ _

theorem frame_of_mem_passes {p : Plan.Pass Outcome} (hp : p ∈ passes) (h : p.run o = .ok o') :
    Frame [.optimize] o o' := by
  have hnote (name : String) := frame_add [.optimize] o [.note (.running name)]
  simp only [passes, List.mem_cons, List.not_mem_nil, or_false] at hp
  obtain rfl | rfl := hp
  · exact ((hnote _).trans (frame_foldPass h)).mono (by simp)
  · exact ((hnote _).trans (frame_usagePass h)).mono (by simp)

theorem frame_foldlM {ps : List (Plan.Pass Outcome)} (hps : ps ⊆ passes)
    (h : ps.foldlM (fun o p => do return afterPass p (← p.run o)) o = .ok o') :
    Frame [.optimize] o o' := by
  induction ps generalizing o with
  | nil =>
    cases h
    exact .refl _ _
  | cons p ps ih =>
    rw [List.cons_subset] at hps
    rw [List.foldlM_cons] at h
    obtain ⟨o₁, hrun, h⟩ := bind_eq_ok.1 h
    obtain ⟨o₂, hpass, hafter⟩ := bind_eq_ok.1 hrun
    cases hafter
    have hstep := (frame_of_mem_passes hps.1 hpass).trans (frame_afterPass p o₂)
    exact (hstep.trans (ih hps.2 h)).mono (by simp)

theorem frame_of_run {s : Stage} (h : s.run job o = .ok o') : Frame [s] o o' := by
  cases s with
  | lex =>
    rw [run] at h
    split at h
    · cases h
      exact frame_fail _ _ _ _
    · cases h
      exact ⟨by simp, fun _ => rfl, fun _ => rfl, fun _ _ => rfl, fun _ => rfl, fun _ => rfl⟩
  | parse =>
    rw [run] at h
    split at h
    · cases h
      exact frame_fail _ _ _ _
    · cases h
      exact ⟨fun _ => rfl, by simp, fun _ => rfl, fun _ _ => rfl, fun _ => rfl, fun _ => rfl⟩
  | check =>
    rw [run] at h
    generalize o.types.check (o.tree.getD (.stray .nothing)) = r at h
    obtain ⟨types, result⟩ := r
    have htypes (e : Event) : Frame [.check] o ({ o with types }.note e) :=
      ⟨fun _ => rfl, fun _ => rfl, by simp, fun _ _ => rfl, fun _ => rfl, fun _ => rfl⟩
    dsimp only at h
    split at h
    · exact ((htypes _).trans (frame_refuse h [])).mono (by simp)
    · cases h
      exact ((htypes _).trans (frame_add [] _ _)).mono (by simp)
  | lower =>
    rw [run] at h
    split at h
    · exact frame_refuse h _
    · cases h
      exact ⟨fun _ => rfl, fun _ => rfl, fun _ => rfl, by simp, fun _ => rfl, fun _ => rfl⟩
  | optimize =>
    rw [run, Plan.runAll, order_passes, ok_bind] at h
    exact frame_foldlM (List.Subset.refl _) h
  | emit =>
    rw [run] at h
    split at h
    · cases h
    · cases h
      exact ⟨fun _ => rfl, fun _ => rfl, fun _ => rfl, fun _ _ => rfl, fun _ => rfl, by simp⟩

theorem frame_succeed (ss : List Stage) (o : Outcome) : Frame ss o o.succeed :=
  ⟨fun _ => rfl, fun _ => rfl, fun _ => rfl, fun _ _ => rfl, fun _ => rfl, fun _ => rfl⟩

theorem frame_of_runAll {ss : List Stage} (h : runAll job ss o = .ok o') : Frame ss o o' := by
  induction ss generalizing o with
  | nil =>
    cases h
    exact frame_succeed _ _
  | cons s ss ih =>
    rw [runAll] at h
    obtain ⟨o₁, hrun, h⟩ := bind_eq_ok.1 h
    have hstep := frame_of_run hrun
    split at h
    · cases h
      exact hstep.mono (by simp)
    · exact hstep.trans (ih h)

theorem runAll_append {ss rest : List Stage} (h : runAll job (ss ++ rest) o = .ok o') :
    (∃ o₁, runAll job ss o = .ok o₁.succeed ∧ runAll job rest o₁ = .ok o') ∨
      runAll job ss o = .ok o' ∧ o'.failure.isSome := by
  induction ss generalizing o with
  | nil => exact .inl ⟨o, rfl, h⟩
  | cons s ss ih =>
    rw [List.cons_append, runAll] at h
    obtain ⟨o₁, hrun, h⟩ := bind_eq_ok.1 h
    rw [runAll, hrun, ok_bind]
    split at h
    · rename_i hfails
      cases h
      rw [if_pos hfails]
      exact .inr ⟨rfl, hfails⟩
    · rename_i hfails
      rw [if_neg hfails]
      exact ih h

end Stage

variable {job : Job} {o o' : Outcome} {s s' : Stage}

open Stage

theorem frame_of_compile (h : compile job (some s) = .ok o) :
    Outcome.Frame (upTo s all) job.start o :=
  frame_of_runAll h

theorem success_iff {last : Option Stage} (h : compile job last = .ok o) :
    (o.success ↔ o.failure = none) ∧ (o.failure = none ↔ o.reporter.errors = []) := by
  obtain ⟨hsuccess, hready⟩ | hrefused := ((compile_settles job last).of_ok h).2
  · simp [hsuccess, hready.failure, hready.reporter, Job.reporter]
  · obtain ⟨f, hf, hreporter, -⟩ := hrefused.failure
    simp [hrefused.success, hf, hreporter, Job.reporter, Reporter.report]

theorem compile_of_rank_lt (hlt : s.rank < s'.rank) (h : compile job (some s') = .ok o') :
    ∃ o, compile job (some s) = .ok o ∧
      (o.success ∧ (∃ o₁, o = o₁.succeed ∧ runAll job (between s s') o₁ = .ok o') ∨
        ¬o.success ∧ o' = o) := by
  have hruns : runAll job (upTo s' all) job.start = .ok o' := h
  rw [upTo_eq_append hlt] at hruns
  obtain ⟨o₁, ho₁, hrest⟩ | ⟨ho', hfails⟩ := runAll_append hruns
  · exact ⟨_, ho₁, .inl ⟨rfl, o₁, rfl, hrest⟩⟩
  · refine ⟨o', ho', .inr ⟨fun hsuccess => ?_, rfl⟩⟩
    have hshort : compile job (some s) = .ok o' := ho'
    rw [(success_iff hshort).1.1 hsuccess] at hfails
    cases hfails

theorem eq_of_not_success (hlt : s.rank < s'.rank) (h : compile job (some s) = .ok o)
    (h' : compile job (some s') = .ok o') (hfails : ¬o.success) : o' = o := by
  obtain ⟨o₁, ho₁, ⟨hs, _⟩ | ⟨_, rfl⟩⟩ := compile_of_rank_lt hlt h'
  · cases h.symm.trans ho₁
    exact absurd hs hfails
  · cases h.symm.trans ho₁
    rfl

theorem frame_of_success (hlt : s.rank < s'.rank) (h : compile job (some s) = .ok o)
    (h' : compile job (some s') = .ok o') (hs : o.success) :
    Outcome.Frame (between s s') o o' := by
  obtain ⟨o₁, ho₁, ⟨_, o₂, rfl, hrun⟩ | ⟨hfails, _⟩⟩ := compile_of_rank_lt hlt h'
  · cases h.symm.trans ho₁
    have hframe := frame_of_runAll hrun
    exact ⟨hframe.tokens, hframe.tree, hframe.types, hframe.code, hframe.called, hframe.output⟩
  · cases h.symm.trans ho₁
    exact absurd hs hfails

/-- The stage with which a compilation ends: the last it is to run, or the first that fails. -/
structure Job.EndsAt (job : Job) (last : Option Stage) (k : Stage) (o : Outcome) : Prop where
  within : k.rank ≤ (last.getD .emit).rank
  compiled : compile job (some k) = .ok o
  earlier : ∀ r : Stage, r.rank < k.rank → ∃ o₁, compile job (some r) = .ok o₁ ∧ o₁.success
  stopped : o.success → k = last.getD .emit

theorem rank_inj {s s' : Stage} (h : s.rank = s'.rank) : s = s' := by
  revert h
  cases s <;> cases s' <;> decide

theorem exists_endsAt {last : Option Stage} (h : compile job last = .ok o) :
    ∃ k, job.EndsAt last k o := by
  have hlast : compile job (some (last.getD .emit)) = .ok o := by
    cases last with
    | none => exact h
    | some s => exact h
  by_cases hs : o.success
  · refine ⟨last.getD .emit, le_rfl, hlast, fun r hr => ?_, fun _ => rfl⟩
    obtain ⟨o₁, ho₁, ⟨hs₁, _⟩ | ⟨hfails, rfl⟩⟩ := compile_of_rank_lt hr hlast
    · exact ⟨o₁, ho₁, hs₁⟩
    · exact absurd hs hfails
  · -- the first stage that fails, by its rank
    let Fails (n : Nat) : Prop := ∃ k : Stage, k.rank = n ∧ ∃ o₁, compile job (some k) = .ok o₁ ∧
      ¬o₁.success
    have hfails : ∃ n, Fails n := ⟨_, _, rfl, o, hlast, hs⟩
    classical
    obtain ⟨k, hk, o₁, ho₁, hs₁⟩ := Nat.find_spec hfails
    have hmin : ∀ r : Stage, r.rank < k.rank → ¬Fails r.rank :=
      fun r hr => Nat.find_min hfails (hk ▸ hr)
    have hle : k.rank ≤ (last.getD .emit).rank := by
      rw [hk]
      exact Nat.find_min' hfails ⟨_, rfl, o, hlast, hs⟩
    have heq : o = o₁ := by
      obtain hlt | heq := Nat.lt_or_eq_of_le hle
      · exact eq_of_not_success hlt ho₁ hlast hs₁
      · rw [rank_inj heq] at ho₁
        exact Except.ok.inj (hlast.symm.trans ho₁)
    subst heq
    refine ⟨k, hle, ho₁, fun r hr => ?_, fun h => absurd h hs⟩
    obtain ⟨o₂, ho₂, -⟩ := compile_of_rank_lt hr ho₁
    refine ⟨o₂, ho₂, ?_⟩
    by_contra hs₂
    exact hmin r hr ⟨r, rfl, o₂, ho₂, hs₂⟩

theorem Job.EndsAt.not_has {last : Option Stage} {k r : Stage} (h : job.EndsAt last k o)
    (hr : k.rank < r.rank) : ¬o.Has r := by
  refine (frame_of_compile h.compiled).not_has ?_ ?_
  · rw [mem_upTo]
    omega
  · rw [mem_upTo, mem_upTo]
    exact fun hle => le_trans (by decide) hle

theorem ready_of_success (h : compile job (some s) = .ok o) (hs : o.success) :
    job.Ready s.next? o := by
  obtain ⟨-, hready⟩ | hrefused := ((compile_settles job (some s)).of_ok h).2
  · exact hready
  · simp [hrefused.success] at hs

theorem Job.EndsAt.exists_earlier {last : Option Stage} {k r : Stage} (h : job.EndsAt last k o)
    (hs : o.success) (hr : r.rank ≤ k.rank) :
    ∃ o₁, job.Ready r.next? o₁ ∧ Outcome.Frame (between r k) o₁ o := by
  obtain hlt | heq := Nat.lt_or_eq_of_le hr
  · obtain ⟨o₁, ho₁, hs₁⟩ := h.earlier r hlt
    exact ⟨o₁, ready_of_success ho₁ hs₁, frame_of_success hlt ho₁ h.compiled hs₁⟩
  · obtain rfl := rank_inj heq
    exact ⟨o, ready_of_success h.compiled hs, .refl _ _⟩

theorem Job.EndsAt.has {last : Option Stage} {k r : Stage} (h : job.EndsAt last k o)
    (hs : o.success) (hr : r.rank ≤ k.rank) (hne : r ≠ .check) : o.Has r := by
  obtain ⟨o₁, hready, hframe⟩ := h.exists_earlier hs hr
  have hnotMem {s : Stage} (hs : s.rank ≤ r.rank) : s ∉ between r k := by
    rw [mem_between]
    omega
  cases r with
  | lex =>
    obtain ⟨ts, _, htokens, _⟩ := hready.holds
    simp [Outcome.Has, hframe.tokens (hnotMem le_rfl), htokens]
  | parse =>
    obtain ⟨t, _, htree, _⟩ := hready.holds
    simp [Outcome.Has, hframe.tree (hnotMem le_rfl), htree]
  | check => exact absurd rfl hne
  | lower =>
    obtain hle | hlt := Nat.lt_or_ge Stage.lower.rank k.rank
    · obtain ⟨o₂, hready₂, hframe₂⟩ := h.exists_earlier (r := .optimize) hs hle
      obtain ⟨c, _, hcode, _⟩ := hready₂.holds
      have hnotMem₂ {s : Stage} (hs : s.rank ≤ Stage.optimize.rank) : s ∉ between .optimize k := by
        rw [mem_between]
        omega
      simp [Outcome.Has, hframe₂.code (hnotMem₂ (by decide)) (hnotMem₂ le_rfl), hcode]
    · obtain ⟨c, _, hcode⟩ := hready.holds
      have hopt : .optimize ∉ between .lower k := by
        rw [mem_between]
        intro hmem
        have : Stage.lower.rank < Stage.optimize.rank := by decide
        omega
      simp [Outcome.Has, hframe.code (hnotMem le_rfl) hopt, hcode]
  | optimize =>
    obtain ⟨c, _, _, hcalled⟩ := hready.holds
    simp [Outcome.Has, hframe.called (hnotMem le_rfl), hcalled]
  | emit =>
    obtain ⟨c, m, _, _, houtput⟩ := hready.holds
    simp [Outcome.Has, hframe.output (hnotMem le_rfl), houtput]

theorem Job.EndsAt.success_of_emit {last : Option Stage} (h : job.EndsAt last .emit o) :
    o.success := by
  obtain ⟨hsuccess, -⟩ | hrefused := ((compile_settles job (some .emit)).of_ok h.compiled).2
  · exact hsuccess
  · obtain ⟨o₁, ho₁, hs₁⟩ := h.earlier .optimize (by decide)
    obtain ⟨c, ⟨c₀, ⟨t, hchecks, _⟩, _⟩, _⟩ := (ready_of_success ho₁ hs₁).holds
    exact absurd hchecks (hrefused.notChecks t)

theorem Job.EndsAt.output_iff {last : Option Stage} {k : Stage} (h : job.EndsAt last k o) :
    o.output.isSome ↔ o.success ∧ last.getD .emit = .emit := by
  rw [Option.isSome_iff_ne_none]
  constructor
  · intro hout
    have hle : Stage.emit.rank ≤ k.rank := by
      by_contra hlt
      exact h.not_has (r := .emit) (by omega) hout
    obtain rfl : k = .emit := by
      revert hle
      cases k <;> decide
    have hs := h.success_of_emit
    exact ⟨hs, (h.stopped hs).symm⟩
  · rintro ⟨hs, hlast⟩
    have hk := (h.stopped hs).trans hlast
    exact h.has (r := .emit) hs (hk ▸ le_rfl) nofun

/-- A compilation that stops after a stage is the first part of one that goes further: it ends with
the same failure or leaves the same tokens, tree and tables. The stage that a compilation ends with
is the last to leave anything, and the script is there if that is the last stage of all. -/
theorem compile_stopped_early (job : Job) :
    (∀ s s' o o', s.rank < s'.rank → compile job (some s) = .ok o →
      compile job (some s') = .ok o' →
        (¬o.success → o' = o) ∧ (o'.success → o.success) ∧
        (o.success → o'.tokens = o.tokens ∧ (Stage.parse.rank ≤ s.rank → o'.tree = o.tree) ∧
          (Stage.check.rank ≤ s.rank → o'.types = o.types))) ∧
    ∀ last o, compile job last = .ok o →
      (o.success ↔ o.failure = none) ∧ (o.failure = none ↔ o.reporter.errors = []) ∧
      (o.output.isSome ↔ o.success ∧ last.getD .emit = .emit) ∧
      ∃ k, job.EndsAt last k o ∧ (∀ r, k.rank < r.rank → ¬o.Has r) ∧
        (o.success → ∀ r, r.rank ≤ k.rank → r ≠ .check → o.Has r) := by
  constructor
  · intro s s' o o' hlt h h'
    have hfails := eq_of_not_success hlt h h'
    refine ⟨hfails, fun hs' => ?_, fun hs => ?_⟩
    · by_contra hs
      exact hs (hfails hs ▸ hs')
    · have hframe := frame_of_success hlt h h' hs
      have hnotMem {r : Stage} (hr : r.rank ≤ s.rank) : r ∉ between s s' := by
        rw [mem_between]
        omega
      exact ⟨hframe.tokens (hnotMem (Nat.zero_le _)), fun hle => hframe.tree (hnotMem hle),
        fun hle => hframe.types (hnotMem hle)⟩
  · intro last o h
    obtain ⟨k, hk⟩ := exists_endsAt h
    obtain ⟨hsuccess, hreporter⟩ := success_iff h
    refine ⟨hsuccess, hreporter, hk.output_iff, k, hk, ?_, ?_⟩
    · exact fun r => hk.not_has
    · exact fun hs r hr hne => hk.has hs hr hne

namespace Misused

open Typing

def sample : Job := { source := "f(x: number): number;\n  f(1, 2);" }

def tokens : List Token :=
  [⟨.identifier, "f", 1, 1⟩, ⟨.symbol, "(", 1, 2⟩, ⟨.identifier, "x", 1, 3⟩, ⟨.symbol, ":", 1, 4⟩,
    ⟨.type, "number", 1, 6⟩, ⟨.symbol, ")", 1, 12⟩, ⟨.returnType, "number", 1, 15⟩,
    ⟨.symbol, ";", 1, 21⟩, ⟨.identifier, "f", 2, 3⟩, ⟨.symbol, "(", 2, 4⟩, ⟨.number, "1", 2, 5⟩,
    ⟨.symbol, ",", 2, 6⟩, ⟨.number, "2", 2, 8⟩, ⟨.symbol, ")", 2, 9⟩, ⟨.symbol, ";", 2, 10⟩,
    ⟨.eof, "", 2, 11⟩]

open MainFile (place)

def tree : Tree := .program
  [.declare "f" [.param "x" .number (place 3 1)] .number (place 1 1),
    .expr (.call (.name "f" (place 3 1 2)) [.number "1" (place 5 1 2), .number "2" (place 8 1 2)]
      (place 3 1 2)) none (place 3 1 2)]
  "main.struct" (place 1 1)

def failure : Failure := ⟨.arity "f" 1 2, place 3 1 2⟩

theorem scan_source : Token.scan sample.file sample.source = .ok tokens :=
  toOption_eq_some.1 (by decide +kernel)

theorem parse_tokens : Tree.parse sample.file tokens = .ok tree := by cbv

theorem check_tree : (({} : State).check tree).2 = .error (.refused failure) := by
  let st : State := {
    signatures := [("f", ⟨[.number], .number, false⟩)]
    declarations := [("f", ⟨[.param "x" .number (place 3 1)], .number, false⟩)] }
  have hdeclare : Passes st.scope (.declare "f" [.param "x" .number (place 3 1)] .number
      (place 1 1)) :=
    passes_declare_number (List.forall_mem_singleton.2 ⟨_, _, _, rfl, Scope.isNumber_number _⟩)
      (Scope.isNumber_number _) (by rintro s ⟨⟩)
  have hcall : visit st.scope (.call (.name "f" (place 3 1 2))
      [.number "1" (place 5 1 2), .number "2" (place 8 1 2)] (place 3 1 2)) =
      .error (.refused failure) :=
    visit_call_of_arity (s := ⟨[.number], .number, false⟩) rfl rfl (by decide)
  exact congrArg Prod.snd (State.check_of_error rfl (by simp [st])
    (List.forall_mem_singleton.2 hdeclare) (visit_expr_of_error hcall none) _ _)

theorem exists_runAll (ss : List Stage) :
    ∃ o, Stage.runAll sample (.lex :: .parse :: .check :: ss) sample.start = .ok o ∧
      o.failure = some failure := by
  have hcheck := check_tree
  cases hstate : ({} : State).check tree with
  | mk types result =>
    rw [hstate] at hcheck
    cases hcheck
    simp [Stage.runAll, Stage.run, Job.start, scan_source, parse_tokens, hstate, Outcome.note,
      Outcome.add, Outcome.refuse, Outcome.fail]

end Misused

theorem compile_stopped_early_misused :
    ∃ o, compile Misused.sample (some .check) = .ok o ∧ o.failure = some Misused.failure ∧
      compile Misused.sample (some .emit) = .ok o ∧ o.output = none := by
  obtain ⟨hpairs, hruns⟩ := compile_stopped_early Misused.sample
  obtain ⟨o, ho, hfailure⟩ := Misused.exists_runAll []
  obtain ⟨o', ho', hfailure'⟩ := Misused.exists_runAll [.lower, .optimize, .emit]
  have hfails : ¬o.success := by simp [(hruns (some .check) o ho).1, hfailure]
  obtain ⟨hsame, _⟩ := hpairs .check .emit o o' (by decide) ho ho'
  cases hsame hfails
  obtain ⟨_, _, houtput, _⟩ := hruns (some .emit) o ho'
  refine ⟨o, ho, hfailure, ho', ?_⟩
  rw [← Option.not_isSome_iff_eq_none, houtput]
  exact fun h => hfails h.1

end StructLang
