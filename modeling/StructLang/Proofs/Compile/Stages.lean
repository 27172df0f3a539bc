import StructLang.Compile
import StructLang.Proofs.Compile.Faults
import StructLang.Proofs.Typing.Refusals

namespace StructLang

namespace Stage

def next? : Stage → Option Stage
  | .lex => some .parse
  | .parse => some .check
  | .check => some .lower
  | .lower => some .optimize
  | .optimize => some .emit
  | .emit => none

def through : Option Stage → List Stage
  | none => all
  | some s => upTo s all

end Stage

namespace Job

variable (job : Job)

def Parses (t : Tree) : Prop :=
  ∃ ts, Token.scan job.file job.source = .ok ts ∧ Tree.parse job.file ts = .ok t

def Checks (t : Tree) : Prop := job.Parses t ∧ (({} : Typing.State).check t).2 = .ok ()

def Lowers (c : Code) : Prop := ∃ t, job.Checks t ∧ t.lower = .ok c

def Folds (c : Code) : Prop := ∃ c₀, job.Lowers c₀ ∧ (c₀.fold {}).1 = .ok c

/-- The numbers of a program that comes to the stage are not too large to be read, added or
written there. -/
def Fits : Stage → Prop
  | .lower => ∀ t, job.Checks t → t.IsReadable
  | .optimize => ∀ c, job.Lowers c → c.IsSummable
  | .emit => ∀ c, job.Folds c → ∀ d ∈ Script.emitted c c.calledBuiltins, d.IsWritable
  | .lex | .parse | .check => True

def Holds (o : Outcome) : Option Stage → Prop
  | some .lex => o.types = {}
  | some .parse => ∃ ts, Token.scan job.file job.source = .ok ts ∧ o.tokens = some ts ∧ o.types = {}
  | some .check => ∃ t, job.Parses t ∧ o.tree = some t ∧ o.types = {}
  | some .lower => ∃ t, job.Checks t ∧ o.tree = some t
  | some .optimize => ∃ c, job.Lowers c ∧ o.code = some c
  | some .emit => ∃ c, job.Folds c ∧ o.code = some c ∧ o.called = some c.calledBuiltins
  | none => ∃ c m, job.Folds c ∧ Script.ofCode job.options c c.calledBuiltins = .ok m ∧
      o.output = some m.text

structure Ready (s : Option Stage) (o : Outcome) : Prop where
  failure : o.failure = none
  reporter : o.reporter = job.reporter
  holds : job.Holds o s

inductive Fails : Failure → Prop
  | lex : Token.scan job.file job.source = .error f → Fails f
  | parse : Token.scan job.file job.source = .ok ts → Tree.parse job.file ts = .error f → Fails f
  | check : job.Parses t → (({} : Typing.State).check t).2 = .error (.refused f) → Fails f

structure Refused (o : Outcome) : Prop where
  success : o.success = false
  failure : ∃ f, o.failure = some f ∧ o.reporter = job.reporter.report (.ofFailure f) ∧ job.Fails f
  notChecks : ∀ t, ¬job.Checks t

variable {job : Job} {o : Outcome}

theorem Ready.succeed {s : Option Stage} (h : job.Ready s o) : job.Ready s o.succeed where
  failure := h.failure
  reporter := h.reporter
  holds := by
    cases s with
    | none => exact h.holds
    | some s => cases s <;> exact h.holds

theorem refused_fail (h : o.reporter = job.reporter) {f : Failure} (hfails : job.Fails f)
    (hnot : ∀ t, ¬job.Checks t) : job.Refused (o.fail job.file f) where
  success := rfl
  failure := ⟨f, rfl, congrArg (·.report (.ofFailure f)) h, hfails⟩
  notChecks := hnot

theorem Refused.fits (h : job.Refused o) (s : Stage) : job.Fits s := by
  cases s with
  | lex | parse | check => trivial
  | lower => exact fun t ht => absurd ht (h.notChecks t)
  | optimize =>
    rintro c ⟨t, ht, _⟩
    exact absurd ht (h.notChecks t)
  | emit =>
    rintro c ⟨c₀, ⟨t, ht, _⟩, _⟩
    exact absurd ht (h.notChecks t)

theorem Parses.unique {t t' : Tree} (h : job.Parses t) (h' : job.Parses t') : t = t' := by
  obtain ⟨ts, hs, hp⟩ := h
  obtain ⟨ts', hs', hp'⟩ := h'
  cases hs.symm.trans hs'
  cases hp.symm.trans hp'
  rfl

theorem Parses.isProgram {t : Tree} (h : job.Parses t) : t.IsProgram Tree.IsNumeral := by
  obtain ⟨ts, hs, hp⟩ := h
  exact Tree.isProgram_of_scan hs hp

theorem Lowers.unique {c c' : Code} (h : job.Lowers c) (h' : job.Lowers c') : c = c' := by
  obtain ⟨t, ht, hl⟩ := h
  obtain ⟨t', ht', hl'⟩ := h'
  cases ht.1.unique ht'.1
  cases hl.symm.trans hl'
  rfl

theorem Lowers.isProgram {c : Code} (h : job.Lowers c) : c.IsProgram := by
  obtain ⟨t, ht, hl⟩ := h
  exact (ht.1.isProgram.lowersTo.of_ok hl).2

theorem Folds.isProgram {c : Code} (h : job.Folds c) : c.IsProgram := by
  obtain ⟨c₀, hl, hfold⟩ := h
  exact ((hl.isProgram.foldsTo {}).of_ok hfold).2

theorem Folds.reserved_of_mem_calledBuiltins {c : Code} (h : job.Folds c) :
    ∀ n ∈ c.calledBuiltins, Library.reserved n := by
  obtain ⟨c₀, ⟨t, ht, hl⟩, hfold⟩ := h
  exact ht.1.isProgram.reserved_of_mem_calledBuiltins hl (Code.folds_of_fold hfold).builtinCalls_eq

theorem Folds.unique {c c' : Code} (h : job.Folds c) (h' : job.Folds c') : c = c' := by
  obtain ⟨d, hd, hf⟩ := h
  obtain ⟨d', hd', hf'⟩ := h'
  cases hd.unique hd'
  cases hf.symm.trans hf'
  rfl

end Job

def Fault.IsNumeric (e : Fault) : Prop :=
  (∃ n, Numeral.digitLimit < n ∧ e = .numeral (.tooManyDigits n)) ∨ e = .unwritable ∨ e = .tooLarge

namespace Stage

variable {job : Job} {o : Outcome}

/-- The stage leaves what the next one needs, or the program is refused; it fails only on numbers
that it cannot deal with. -/
def Steps (job : Job) (s : Stage) (o : Outcome) : Prop :=
  Settles (s.run job o) (job.Fits s) (fun o' => job.Ready s.next? o' ∨ job.Refused o')
    Fault.IsNumeric

theorem lex_steps (h : job.Ready (some .lex) o) : Steps job .lex o := by
  rw [Steps, run]
  cases hs : Token.scan job.file job.source with
  | ok ts => exact .ok trivial (.inl ⟨h.failure, h.reporter, ts, hs, rfl, h.holds⟩)
  | error f =>
    refine .ok trivial (.inr (Job.refused_fail h.reporter (.lex hs) ?_))
    rintro t ⟨⟨ts, hts, _⟩, _⟩
    cases hs.symm.trans hts

theorem parse_steps (h : job.Ready (some .parse) o) : Steps job .parse o := by
  obtain ⟨ts, hs, htokens, htypes⟩ := h.holds
  rw [Steps, run, htokens, Option.getD_some]
  cases hp : Tree.parse job.file ts with
  | ok t => exact .ok trivial (.inl ⟨h.failure, h.reporter, t, ⟨ts, hs, hp⟩, rfl, htypes⟩)
  | error f =>
    refine .ok trivial (.inr (Job.refused_fail h.reporter (.parse hs hp) ?_))
    rintro t ⟨⟨ts', hs', hp'⟩, _⟩
    cases hs.symm.trans hs'
    cases hp.symm.trans hp'

theorem check_steps (h : job.Ready (some .check) o) : Steps job .check o := by
  obtain ⟨t, ht, htree, htypes⟩ := h.holds
  have hyields := Typing.State.isNative_empty.check_yields (P := fun _ => True) ht.isProgram
    (fun _ _ => trivial) fun _ _ => trivial
  rw [Steps, run, htree, htypes, Option.getD_some]
  cases hc : ({} : Typing.State).check t with
  | mk types result =>
    rw [hc] at hyields
    cases result with
    | ok _ =>
      exact .ok trivial (.inl ⟨h.failure, h.reporter, t, ⟨ht, congrArg Prod.snd hc⟩, rfl⟩)
    | error e =>
      obtain ⟨f, rfl, _⟩ := hyields.of_error rfl
      have hnot : ∀ t, ¬job.Checks t := by
        rintro t' ⟨ht', hc'⟩
        cases ht.unique ht'
        rw [hc] at hc'
        cases hc'
      refine .ok trivial (.inr (Job.refused_fail ?_ (.check ht (congrArg Prod.snd hc)) hnot))
      exact h.reporter

theorem lower_steps (h : job.Ready (some .lower) o) : Steps job .lower o := by
  obtain ⟨t, ht, htree⟩ := h.holds
  have hfits : job.Fits .lower ↔ t.IsReadable := by
    refine ⟨fun h => h t ht, fun h t' ht' => ?_⟩
    cases ht.1.unique ht'.1
    exact h
  have hlowers := ht.1.isProgram.lowersTo
  rw [Steps, run, htree, Option.getD_some]
  cases hc : t.lower with
  | ok c =>
    exact .ok (hfits.2 (hlowers.of_ok hc).1) (.inl ⟨h.failure, h.reporter, c, ⟨t, ht, hc⟩, rfl⟩)
  | error e =>
    obtain ⟨hnot, n, hn, rfl⟩ := hlowers.of_error hc
    exact .error (fun h => hnot (hfits.1 h)) (.inl ⟨n, hn, rfl⟩)

theorem order_passes : Plan.order passes = .ok passes := by
  have hnames : Plan.drain passes (Plan.start passes) = ["IROptimizer", "BuiltinUsagePass"] := by
    decide +kernel
  rw [Plan.order, hnames]
  rfl

theorem foldPass_settles {c : Code} (hcode : o.code = some c) (hc : c.IsProgram) :
    Settles (foldPass o) c.IsSummable
      (fun o' => o'.failure = o.failure ∧ o'.reporter = o.reporter ∧
        ∃ c', (c.fold {}).1 = .ok c' ∧ o'.code = some c') Code.IsSumFault := by
  have hfolds : Settles (c.fold {}).1 c.IsSummable Code.IsProgram Code.IsSumFault := hc.foldsTo {}
  simp only [foldPass, hcode]
  cases hfold : c.fold {} with
  | mk r tally =>
    rw [hfold] at hfolds
    cases r with
    | ok c' => exact .ok (hfolds.of_ok rfl).1 ⟨rfl, rfl, c', rfl, rfl⟩
    | error e => exact .error (hfolds.of_error rfl).1 (hfolds.of_error rfl).2

theorem usagePass_of_code {c : Code} (hcode : o.code = some c) :
    ∃ o', usagePass o = .ok o' ∧ o'.failure = o.failure ∧ o'.reporter = o.reporter ∧
      o'.code = some c ∧ o'.called = some c.calledBuiltins := by
  rw [usagePass, hcode]
  exact ⟨_, rfl, rfl, rfl, rfl, rfl⟩

theorem afterPass_of_code {c : Code} (hcode : o.code = some c) (p : Plan.Pass Outcome) :
    (afterPass p o).failure = o.failure ∧ (afterPass p o).reporter = o.reporter ∧
      (afterPass p o).code = some c ∧ (afterPass p o).called = o.called := by
  rw [afterPass, hcode]
  exact ⟨rfl, rfl, hcode, rfl⟩

theorem runAll_passes_settles {c : Code} (hcode : o.code = some c) (hc : c.IsProgram) :
    Settles (Plan.runAll passes afterPass o) c.IsSummable
      (fun o' => o'.failure = o.failure ∧ o'.reporter = o.reporter ∧
        ∃ c', (c.fold {}).1 = .ok c' ∧ o'.code = some c' ∧ o'.called = some c'.calledBuiltins)
      Code.IsSumFault := by
  rw [Plan.runAll, order_passes, ok_bind, passes]
  simp only [List.foldlM_cons, List.foldlM_nil, bind_assoc, pure_bind]
  have hpass := foldPass_settles (o := o.note (.running "IROptimizer")) hcode hc
  refine hpass.andThen ?_
  rintro o₁ ⟨hfail₁, hreporter₁, c', hfold, hcode₁⟩
  obtain ⟨hfail₂, hreporter₂, hcode₂, -⟩ :=
    afterPass_of_code hcode₁ (announced "IROptimizer" [] foldPass)
  obtain ⟨o₃, husage, hfail₃, hreporter₃, hcode₃, hcalled₃⟩ :=
    usagePass_of_code (o := (afterPass (announced "IROptimizer" [] foldPass) o₁).note
      (.running "BuiltinUsagePass")) hcode₂
  obtain ⟨hfail₄, hreporter₄, hcode₄, hcalled₄⟩ :=
    afterPass_of_code hcode₃ (announced "BuiltinUsagePass" ["IROptimizer"] usagePass)
  have hrun : (announced "BuiltinUsagePass" ["IROptimizer"] usagePass).run
      (afterPass (announced "IROptimizer" [] foldPass) o₁) = .ok o₃ := husage
  rw [hrun, ok_bind]
  exact .ok trivial ⟨(hfail₄.trans hfail₃).trans (hfail₂.trans hfail₁),
    (hreporter₄.trans hreporter₃).trans (hreporter₂.trans hreporter₁), c', hfold, hcode₄,
    hcalled₄.trans hcalled₃⟩

theorem optimize_steps (h : job.Ready (some .optimize) o) : Steps job .optimize o := by
  obtain ⟨c, hc, hcode⟩ := h.holds
  have hfits : c.IsSummable ↔ job.Fits .optimize := by
    refine ⟨fun h c' hc' => ?_, fun h => h c hc⟩
    cases hc.unique hc'
    exact h
  have hpasses := (runAll_passes_settles hcode hc.isProgram).congr hfits
  refine (hpasses.gives fun o' ho' => ?_).weaken fun _ => .inr
  obtain ⟨-, hfail, hreporter, c', hfold, hcode', hcalled⟩ := hpasses.of_ok ho'
  exact .inl ⟨hfail.trans h.failure, hreporter.trans h.reporter, c', ⟨c, hc, hfold⟩, hcode',
    hcalled⟩

theorem emit_steps (h : job.Ready (some .emit) o) : Steps job .emit o := by
  obtain ⟨c, hc, hcode, hcalled⟩ := h.holds
  have hfits : job.Fits .emit ↔ ∀ d ∈ Script.emitted c c.calledBuiltins, d.IsWritable := by
    refine ⟨fun h => h c hc, fun h c' hc' => ?_⟩
    cases hc.unique hc'
    exact h
  have hcode' := Script.ofCode_settles job.options hc.isProgram hc.reserved_of_mem_calledBuiltins
  rw [Steps, run, hcode, hcalled, Option.getD_some, Option.getD_some]
  cases hm : Script.ofCode job.options c c.calledBuiltins with
  | ok m =>
    exact .ok (hfits.2 (hcode'.of_ok hm).1) (.inl ⟨h.failure, h.reporter, c, m, hc, hm, rfl⟩)
  | error e =>
    obtain ⟨hnot, rfl⟩ := hcode'.of_error hm
    exact .error (fun h => hnot (hfits.1 h)) (.inr (.inl rfl))

theorem steps {s : Stage} (h : job.Ready (some s) o) : Steps job s o := by
  cases s with
  | lex => exact lex_steps h
  | parse => exact parse_steps h
  | check => exact check_steps h
  | lower => exact lower_steps h
  | optimize => exact optimize_steps h
  | emit => exact emit_steps h

def end? (s : Stage) (ss : List Stage) : Option Stage := ((s :: ss).getLast (by simp)).next?

theorem runAll_settles {s : Stage} {ss : List Stage}
    (hchain : (s :: ss).IsChain fun s s' => s.next? = some s') (h : job.Ready (some s) o) :
    Settles (runAll job (s :: ss) o) (∀ s' ∈ s :: ss, job.Fits s')
      (fun o' => o'.success ∧ job.Ready (end? s ss) o' ∨ job.Refused o') Fault.IsNumeric := by
  induction ss generalizing s o with
  | nil =>
    rw [runAll]
    refine ((steps h).andThen fun o' ho' => ?_).congr (by simp)
    obtain hready | hrefused := ho'
    · rw [if_neg (by simp [hready.failure]), runAll]
      exact .ok trivial (.inl ⟨rfl, hready.succeed⟩)
    · obtain ⟨f, hf, -⟩ := hrefused.failure
      rw [if_pos (by simp [hf])]
      exact .ok trivial (.inr hrefused)
  | cons s' ss ih =>
    rw [List.isChain_cons_cons] at hchain
    rw [runAll, List.forall_mem_cons]
    refine (steps h).bind fun o' ho' => ?_
    obtain hready | hrefused := ho'
    · rw [hchain.1] at hready
      rw [if_neg (by simp [hready.failure])]
      exact ih hchain.2 hready
    · obtain ⟨f, hf, -⟩ := hrefused.failure
      rw [if_pos (by simp [hf])]
      exact .ok (fun s' _ => hrefused.fits s') (.inr hrefused)

end Stage

theorem compile_settles (job : Job) (last : Option Stage) :
    Settles (compile job last) (∀ s ∈ Stage.through last, job.Fits s)
      (fun o => o.success ∧ job.Ready (last.bind Stage.next?) o ∨ job.Refused o)
      Fault.IsNumeric := by
  have hready : job.Ready (some .lex) job.start := ⟨rfl, rfl, rfl⟩
  cases last with
  | none => exact Stage.runAll_settles (by decide) hready
  | some s => cases s <;> exact Stage.runAll_settles (by decide) hready

theorem ready_of_compile {job : Job} {last : Option Stage} {o : Outcome}
    (h : compile job last = .ok o) (hfailure : o.failure = none) :
    job.Ready (last.bind Stage.next?) o := by
  obtain ⟨-, hready⟩ | hrefused := ((compile_settles job last).of_ok h).2
  · exact hready
  · obtain ⟨f, hf, -⟩ := hrefused.failure
    cases hfailure.symm.trans hf

theorem Job.Checks.compiles {job : Job} {t : Tree} {c c' : Code} {m : Script.Module}
    (h : job.Checks t) (hlower : t.lower = .ok c) (hfold : (c.fold {}).1 = .ok c')
    (hm : Script.ofCode job.options c' c'.calledBuiltins = .ok m) :
    ∃ o, compile job = .ok o ∧ o.failure = none ∧ o.output = some m.text := by
  have hlowers : job.Lowers c := ⟨t, h, hlower⟩
  have hfolds : job.Folds c' := ⟨c, hlowers, hfold⟩
  have hfits : ∀ s ∈ Stage.through none, job.Fits s := by
    intro s _
    cases s with
    | lex | parse | check => trivial
    | lower =>
      intro t' ht'
      cases h.1.unique ht'.1
      exact (h.1.isProgram.lowersTo.of_ok hlower).1
    | optimize =>
      intro d hd
      cases hlowers.unique hd
      exact ((hlowers.isProgram.foldsTo {}).of_ok hfold).1
    | emit =>
      intro d hd
      cases hfolds.unique hd
      exact ((Script.ofCode_settles job.options hfolds.isProgram
        hfolds.reserved_of_mem_calledBuiltins).of_ok hm).1
  have hsettles := compile_settles job none
  obtain ⟨o, ho⟩ := hsettles.isOk_iff.2 hfits
  obtain ⟨-, hready⟩ | hrefused := (hsettles.of_ok ho).2
  · obtain ⟨d, m', hd, hm', houtput⟩ := hready.holds
    cases hfolds.unique hd
    cases hm.symm.trans hm'
    exact ⟨o, ho, hready.failure, houtput⟩
  · exact absurd h (hrefused.notChecks t)

end StructLang
