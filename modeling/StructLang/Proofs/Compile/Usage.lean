import StructLang.Proofs.Compile.Stages

namespace StructLang

section FirstVisit

variable {α : Type} {f : α → Option String} {l : List α} {n : String}

theorem findIdx_lt_length_of_mem_filterMap (h : n ∈ l.filterMap f) :
    l.findIdx (f · == some n) < l.length := by
  obtain ⟨a, ha, hn⟩ := List.mem_filterMap.1 h
  exact List.findIdx_lt_length_of_exists ⟨a, ha, by simp [hn]⟩

theorem findIdx_append_of_mem_filterMap (h : n ∈ l.filterMap f) (l' : List α) :
    (l ++ l').findIdx (f · == some n) = l.findIdx (f · == some n) := by
  rw [List.findIdx_append, if_pos (findIdx_lt_length_of_mem_filterMap h)]

theorem findIdx_concat_of_notMem_filterMap (h : n ∉ l.filterMap f) {a : α} (ha : f a = some n) :
    (l ++ [a]).findIdx (f · == some n) = l.length := by
  have hnone : l.findIdx (f · == some n) = l.length := by
    refine List.findIdx_eq_length_of_false fun b hb => ?_
    simpa using fun hfb => h (List.mem_filterMap.2 ⟨b, hb, hfb⟩)
  rw [List.findIdx_append, hnone, if_neg (Nat.lt_irrefl _)]
  simp [ha]

theorem pairwise_eraseDups_filterMap (f : α → Option String) (l : List α) :
    (l.filterMap f).eraseDups.Pairwise fun m n =>
      l.findIdx (f · == some m) < l.findIdx (f · == some n) := by
  induction l using List.reverseRecOn with
  | nil => simp
  | append_singleton l a ih =>
    -- a further visit changes nothing about the names that have been met
    have hmet : (l.filterMap f).eraseDups.Pairwise fun m n =>
        (l ++ [a]).findIdx (f · == some m) < (l ++ [a]).findIdx (f · == some n) := by
      refine ih.imp_of_mem fun hm hn hlt => ?_
      rwa [findIdx_append_of_mem_filterMap (List.mem_eraseDups.1 hm),
        findIdx_append_of_mem_filterMap (List.mem_eraseDups.1 hn)]
    cases ha : f a with
    | none => simpa [ha] using hmet
    | some n =>
      rw [List.filterMap_append, List.filterMap_cons_some ha, List.filterMap_nil, eraseDups_concat]
      split
      · exact hmet
      · rename_i hn
        refine List.pairwise_append.2 ⟨hmet, List.pairwise_singleton .., ?_⟩
        intro m hm n' hn'
        rw [List.mem_eraseDups] at hm
        rw [List.mem_singleton.1 hn', findIdx_append_of_mem_filterMap hm,
          findIdx_concat_of_notMem_filterMap hn ha]
        exact findIdx_lt_length_of_mem_filterMap hm

end FirstVisit

namespace Code

mutual

def walk : Code → List Code
  | .binary op l r place => .binary op l r place :: (l.walk ++ r.walk)
  | .call f args builtin place => .call f args builtin place :: (f.walk ++ walkAll args)
  | .member o property place => .member o property place :: o.walk
  | .expr e place => .expr e place :: e.walk
  | .ret e place => .ret e place :: e.walk
  | .define n params result body builtin place =>
    .define n params result body builtin place :: walkAll body
  | .program ss file place => .program ss file place :: walkAll ss
  | c => [c]

def walkAll : List Code → List Code
  | [] => []
  | c :: cs => c.walk ++ walkAll cs

end

def libraryCall? : Code → Option String
  | .call f _ _ _ => f.calleeName?.filter Library.reserved
  | _ => none

theorem libraryCall?_eq_some {c : Code} {n : String} :
    c.libraryCall? = some n ↔
      Library.reserved n ∧
        ∃ args builtin place place', c = .call (.name n place') args builtin place := by
  constructor
  · intro h
    cases c with
    | call f args builtin place =>
      obtain ⟨hname, hn⟩ := Option.filter_eq_some_iff.1 h
      cases f with
      | name m place' =>
        cases hname
        exact ⟨hn, args, builtin, place, place', rfl⟩
      | _ => cases hname
    | _ => cases h
  · rintro ⟨hn, args, builtin, place, place', rfl⟩
    simp [libraryCall?, calleeName?, hn]

mutual

theorem builtinCalls_eq_filterMap (c : Code) : c.builtinCalls = c.walk.filterMap libraryCall? := by
  match c with
  | .binary op l r place =>
    rw [walk, builtinCalls, builtinCalls_eq_filterMap l, builtinCalls_eq_filterMap r,
      List.filterMap_cons_none rfl, List.filterMap_append]
  | .call f args builtin place =>
    rw [walk, builtinCalls, builtinCalls_eq_filterMap f, builtinCallsAll_eq_filterMap args,
      List.filterMap_cons, List.filterMap_append, libraryCall?]
    cases f.calleeName?.filter Library.reserved <;> rfl
  | .member o property place => exact builtinCalls_eq_filterMap o
  | .expr e place => exact builtinCalls_eq_filterMap e
  | .ret e place => exact builtinCalls_eq_filterMap e
  | .define n params result body builtin place => exact builtinCallsAll_eq_filterMap body
  | .program ss file place => exact builtinCallsAll_eq_filterMap ss
  | .literal .. | .name .. | .param .. | .alias .. | .declare .. | .unruled .. | .nothing => rfl

theorem builtinCallsAll_eq_filterMap (cs : List Code) :
    builtinCallsAll cs = (walkAll cs).filterMap libraryCall? := by
  match cs with
  | [] => rfl
  | c :: cs =>
    rw [builtinCallsAll, walkAll, builtinCalls_eq_filterMap c, builtinCallsAll_eq_filterMap cs,
      List.filterMap_append]

end

def firstCall (n : String) (c : Code) : Nat := c.walk.findIdx (·.libraryCall? == some n)

theorem mem_calledBuiltins {c : Code} {n : String} :
    n ∈ c.calledBuiltins ↔ Library.reserved n ∧
      ∃ args builtin place place', .call (.name n place') args builtin place ∈ c.walk := by
  rw [calledBuiltins, List.mem_eraseDups, builtinCalls_eq_filterMap, List.mem_filterMap]
  simp only [libraryCall?_eq_some]
  constructor
  · rintro ⟨_, hmem, hn, args, builtin, place, place', rfl⟩
    exact ⟨hn, args, builtin, place, place', hmem⟩
  · rintro ⟨hn, args, builtin, place, place', hmem⟩
    exact ⟨_, hmem, hn, args, builtin, place, place', rfl⟩

theorem pairwise_firstCall (c : Code) :
    c.calledBuiltins.Pairwise fun m n => c.firstCall m < c.firstCall n := by
  rw [calledBuiltins, builtinCalls_eq_filterMap]
  exact pairwise_eraseDups_filterMap libraryCall? c.walk

theorem Folds.calledBuiltins_eq {c c' : Code} (h : Folds c c') :
    c'.calledBuiltins = c.calledBuiltins := by
  rw [calledBuiltins, calledBuiltins, h.builtinCalls_eq]

end Code

namespace Stage

variable {job : Job} {o o' : Outcome} {c : Code}

theorem code_of_foldPass (hcode : o.code = some c) (h : foldPass o = .ok o') :
    ∃ c', (c.fold {}).1 = .ok c' ∧ o'.code = some c' := by
  simp only [foldPass, hcode] at h
  split at h
  · rename_i c' tally hfold
    cases h
    exact ⟨c', congrArg Prod.fst hfold, rfl⟩
  · cases h

theorem called_of_optimize (hcode : o.code = some c) (h : run job o .optimize = .ok o') :
    ∃ c', (c.fold {}).1 = .ok c' ∧ o'.code = some c' ∧ o'.called = some c.calledBuiltins := by
  rw [run, Plan.runAll, order_passes, ok_bind, passes] at h
  simp only [List.foldlM_cons, List.foldlM_nil, bind_assoc, pure_bind] at h
  obtain ⟨o₁, h₁, h⟩ := bind_eq_ok.1 h
  obtain ⟨o₂, h₂, h⟩ := bind_eq_ok.1 h
  cases h
  obtain ⟨c', hfold, hcode₁⟩ := code_of_foldPass (o := o.note (.running "IROptimizer")) hcode h₁
  obtain ⟨-, -, hcode₁, -⟩ := afterPass_of_code hcode₁ (announced "IROptimizer" [] foldPass)
  obtain ⟨_, husage, -, -, hcode₂, hcalled₂⟩ := usagePass_of_code
    (o := (afterPass (announced "IROptimizer" [] foldPass) o₁).note (.running "BuiltinUsagePass"))
    hcode₁
  cases husage.symm.trans h₂
  obtain ⟨-, -, hcode₂, hsame⟩ :=
    afterPass_of_code hcode₂ (announced "BuiltinUsagePass" ["IROptimizer"] usagePass)
  refine ⟨c', hfold, hcode₂, ?_⟩
  rw [hsame, hcalled₂, (Code.folds_of_fold hfold).calledBuiltins_eq]

end Stage

/-- The library functions that are found to be called are those that some call names, each once and
in the order of the first calls, and folding leaves them as they are: what the driver finds, what
the emitter would find by itself, and what was called in the code before it was folded are one. -/
theorem calledBuiltins_exact (c : Code) :
    c.calledBuiltins.Nodup ∧
    (∀ n, n ∈ c.calledBuiltins ↔ Library.reserved n ∧
      ∃ args builtin place place', .call (.name n place') args builtin place ∈ c.walk) ∧
    (c.calledBuiltins.Pairwise fun m n => c.firstCall m < c.firstCall n) ∧
    (∀ t c', (c.fold t).1 = .ok c' → c'.calledBuiltins = c.calledBuiltins ∧
      ∀ o, Script.emit o c' = Script.emit o c' c.calledBuiltins) ∧
    ∀ job o o', o.code = some c → Stage.run job o .optimize = .ok o' →
      ∃ c', (c.fold {}).1 = .ok c' ∧ o'.code = some c' ∧ o'.called = some c.calledBuiltins := by
  refine ⟨nodup_eraseDups _, fun n => Code.mem_calledBuiltins, c.pairwise_firstCall, ?_, ?_⟩
  · intro t c' hfold
    have heq := (Code.folds_of_fold hfold).calledBuiltins_eq
    exact ⟨heq, fun o => by rw [heq]⟩
  · intro job o o' hcode h
    exact Stage.called_of_optimize hcode h

theorem calledBuiltins_exact_nested :
    let s (text : String) : Code := .literal (.text text) .string none
    let abs (n : Int) : Code := .call (.name "abs" none) [.literal (.int n) .number none] true none
    let print (e : Code) : Code := .call (.name "print" none) [e] true none
    let program (e : Code) : Code := .program
      [.define "g" [] .any [.ret (print (s "a")) none] false none,
        .expr (.call (.name "f" none) [e, .member (print (abs 1)) "length" none] false none) none,
        .expr (abs 2) none] "main" none
    let c := program (.binary .add (s "a") (s "b") none)
    let c' := program (s "ab")
    (c.fold {}).1 = .ok c' ∧ c'.calledBuiltins = c.calledBuiltins ∧
      c.calledBuiltins = ["print", "abs"] ∧ c.firstCall "print" < c.firstCall "abs" := by
  intro s abs print program c c'
  have hfold : (c.fold {}).1 = .ok c' := rfl
  have hcalled : c.calledBuiltins = ["print", "abs"] := by decide +kernel
  obtain ⟨-, -, horder, hfolded, -⟩ := calledBuiltins_exact c
  rw [hcalled] at horder
  exact ⟨hfold, (hfolded {} c' hfold).1, hcalled, List.rel_of_pairwise_cons horder (by simp)⟩

end StructLang
