import Mathlib.Logic.Function.Basic
import StructLang.Proofs.ThreeAddress.Emission

/-!
Three-address code computes what the code computes. The lines run on a memory that holds a value
for each name; a temporary is held under its own spelling, so that a name which is spelled like one
would be overwritten. Between the lines of an operand and its use only later temporaries are
assigned, and these the operand does not read.
-/

namespace StructLang

structure Model (D : Type) where
  literal : Value → D
  apply : Operator → D → D → D
  call : D → List D → D
  member : D → String → D

variable {D : Type} {M : Model D}

namespace Code

mutual

def value (M : Model D) (env : String → D) : Code → Option D
  | .literal v _ _ => some (M.literal v)
  | .name n _ => some (env n)
  | .binary op left right _ => do return M.apply op (← left.value M env) (← right.value M env)
  | .call callee args _ _ => do return M.call (← callee.value M env) (← values M env args)
  | .member object property _ => do return M.member (← object.value M env) property
  | _ => none

def values (M : Model D) (env : String → D) : List Code → Option (List D)
  | [] => some []
  | c :: cs => do return (← c.value M env) :: (← values M env cs)

end

mutual

def usedNames : Code → List String
  | .name n _ => [n]
  | .binary _ l r _ => l.usedNames ++ r.usedNames
  | .call f args _ _ => f.usedNames ++ usedNamesAll args
  | .member o _ _ => o.usedNames
  | .expr e _ | .ret e _ => e.usedNames
  | .define _ _ _ body _ _ => usedNamesAll body
  | .program ss _ _ => usedNamesAll ss
  | _ => []

def usedNamesAll : List Code → List String
  | [] => []
  | c :: cs => c.usedNames ++ usedNamesAll cs

end

mutual

def operations : Code → Nat
  | .binary _ l r _ => l.operations + r.operations + 1
  | .call f args _ _ => f.operations + operationsAll args + 1
  | .member o _ _ => o.operations
  | .expr e _ | .ret e _ => e.operations
  | .define _ _ _ body _ _ => operationsAll body
  | .program ss _ _ => operationsAll ss
  | _ => 0

def operationsAll : List Code → Nat
  | [] => 0
  | c :: cs => c.operations + operationsAll cs

end

end Code

namespace ThreeAddress

open Code

def tempName (k : Nat) : String := (Operand.temp k).text

theorem toList_tempName (k : Nat) : (tempName k).toList = 't' :: Nat.toDigits 10 k := by
  have htext : tempName k = "t" ++ String.ofList (Nat.toDigits 10 k) := rfl
  simp [htext]

theorem tempName_inj {j k : Nat} (h : tempName j = tempName k) : j = k := by
  have hdigits : Nat.toDigits 10 j = Nat.toDigits 10 k := by
    have hlist := congrArg String.toList h
    rw [toList_tempName, toList_tempName] at hlist
    exact List.tail_eq_of_cons_eq hlist
  rw [← Nat.ofDigitChars_ten_toDigits (n := j), hdigits, Nat.ofDigitChars_ten_toDigits]

/-- No name is spelled like a temporary after one up to another. -/
def AvoidsBetween (a b : Nat) (ns : List String) : Prop :=
  ∀ n ∈ ns, ∀ j, a < j → j ≤ b → n ≠ tempName j

theorem AvoidsBetween.mono {a a' b b' : Nat} {ns : List String} (h : AvoidsBetween a b ns)
    (ha : a ≤ a') (hb : b' ≤ b) : AvoidsBetween a' b' ns :=
  fun n hn j haj hjb => h n hn j (Nat.lt_of_le_of_lt ha haj) (hjb.trans hb)

theorem avoidsBetween_append {a b : Nat} {ns ms : List String} :
    AvoidsBetween a b (ns ++ ms) ↔ AvoidsBetween a b ns ∧ AvoidsBetween a b ms :=
  List.forall_mem_append

namespace Operand

def read (M : Model D) (env : String → D) : Operand → Option D
  | .literal v _ => some (M.literal v)
  | .name n => some (env n)
  | .temp k => some (env (tempName k))
  | .member o p => do return M.member (← o.read M env) p
  | .blank => none

def temps : Operand → List Nat
  | .temp k => [k]
  | .member o _ => o.temps
  | _ => []

def names : Operand → List String
  | .name n => [n]
  | .member o _ => o.names
  | _ => []

theorem read_congr {o : Operand} {env env' : String → D} (hnames : ∀ n ∈ o.names, env' n = env n)
    (htemps : ∀ j ∈ o.temps, env' (tempName j) = env (tempName j)) :
    o.read M env' = o.read M env := by
  induction o with
  | literal | blank => rfl
  | name n => rw [read, read, hnames n (by simp [names])]
  | temp k => rw [read, read, htemps k (by simp [temps])]
  | member o p ih => rw [read, read, ih hnames htemps]

end Operand

namespace Line

def target? : Line → Option Nat
  | .operation k _ _ _ | .call k _ _ => some k
  | _ => none

def uses : Line → List Nat
  | .operation _ _ l r => l.temps ++ r.temps
  | .call _ f xs => f.temps ++ xs.flatMap Operand.temps
  | .result x | .ret x => x.temps
  | _ => []

def run (M : Model D) (env : String → D) : Line → Option (String → D)
  | .operation k op l r => do
    return Function.update env (tempName k) (M.apply op (← l.read M env) (← r.read M env))
  | .call k f xs => do
    return Function.update env (tempName k)
      (M.call (← f.read M env) (← xs.mapM (Operand.read M env)))
  | _ => some env

end Line

def runLines (M : Model D) (env : String → D) (ls : List Line) : Option (String → D) :=
  ls.foldlM (Line.run M) env

def Ordered : List Nat → List Line → Prop
  | _, [] => True
  | assigned, l :: ls => (∀ j ∈ l.uses, j ∈ assigned) ∧ Ordered (assigned ++ l.target?.toList) ls

theorem ordered_append {ds : List Nat} {ls rs : List Line} :
    Ordered ds (ls ++ rs) ↔ Ordered ds ls ∧ Ordered (ds ++ ls.filterMap Line.target?) rs := by
  induction ls generalizing ds with
  | nil => simp [Ordered]
  | cons l ls ih =>
    have htargets : (l :: ls).filterMap Line.target? =
        l.target?.toList ++ ls.filterMap Line.target? := by
      cases hl : l.target? <;> simp [hl]
    rw [List.cons_append, Ordered, Ordered, ih, htargets, List.append_assoc, and_assoc]

theorem Ordered.mono {ds ds' : List Nat} {ls : List Line} (h : Ordered ds ls)
    (hd : ∀ j ∈ ds, j ∈ ds') : Ordered ds' ls := by
  induction ls generalizing ds ds' with
  | nil => trivial
  | cons l ls ih =>
    refine ⟨fun j hj => hd j (h.1 j hj), ih h.2 fun j hj => ?_⟩
    rw [List.mem_append] at hj ⊢
    exact hj.imp_left (hd j)

/-! ## The lines of an expression -/

theorem range'_append_concat (k a b : Nat) : List.range' (k + 1) (a + b + 1) =
    List.range' (k + 1) a ++ List.range' (k + a + 1) b ++ [k + a + b + 1] := by
  have hlast : k + 1 + (a + b) = k + a + b + 1 := by omega
  rw [List.range'_1_concat, hlast, ← List.range'_append_1, Nat.add_right_comm k 1 a]

mutual

theorem Compiles.counts {c : Code} {k k' : Nat} {ls : List Line} {o : Operand}
    (h : Compiles c k ls o k') :
    k' = k + c.operations ∧ ls.map Line.target? = (List.range' (k + 1) c.operations).map some := by
  match h with
  | .literal _ | .name => exact ⟨rfl, rfl⟩
  | .binary hl hr =>
    obtain ⟨rfl, hls⟩ := hl.counts
    obtain ⟨rfl, hrs⟩ := hr.counts
    rw [operations, range'_append_concat]
    exact ⟨by omega, by simp [hls, hrs, Line.target?]⟩
  | .call hf hargs =>
    obtain ⟨rfl, hls⟩ := hf.counts
    obtain ⟨rfl, hrs⟩ := hargs.counts
    rw [operations, range'_append_concat]
    exact ⟨by omega, by simp [hls, hrs, Line.target?]⟩
  | .member h => exact h.counts

theorem CompilesAll.counts {cs : List Code} {k k' : Nat} {ls : List Line} {os : List Operand}
    (h : CompilesAll cs k ls os k') :
    k' = k + operationsAll cs ∧
      ls.map Line.target? = (List.range' (k + 1) (operationsAll cs)).map some := by
  match h with
  | .nil => exact ⟨rfl, rfl⟩
  | .cons hc hcs =>
    obtain ⟨rfl, hls⟩ := hc.counts
    obtain ⟨rfl, hrs⟩ := hcs.counts
    rw [operationsAll, ← List.range'_append_1]
    refine ⟨by omega, ?_⟩
    rw [List.map_append, List.map_append, hls, hrs, Nat.add_right_comm]

end

theorem filterMap_of_map_eq {α β : Type} {f : α → Option β} {as : List α} {bs : List β}
    (h : as.map f = bs.map some) : as.filterMap f = bs := by
  have hid := congrArg (List.filterMap id) h
  simpa [List.filterMap_map] using hid

theorem Compiles.le {c : Code} {k k' : Nat} {ls : List Line} {o : Operand}
    (h : Compiles c k ls o k') : k ≤ k' := by
  rw [h.counts.1]
  exact Nat.le_add_right k _

theorem CompilesAll.le {cs : List Code} {k k' : Nat} {ls : List Line} {os : List Operand}
    (h : CompilesAll cs k ls os k') : k ≤ k' := by
  rw [h.counts.1]
  exact Nat.le_add_right k _

theorem Compiles.targets {c : Code} {k k' : Nat} {ls : List Line} {o : Operand}
    (h : Compiles c k ls o k') : ls.filterMap Line.target? = List.range' (k + 1) c.operations :=
  filterMap_of_map_eq h.counts.2

mutual

theorem Compiles.ordered {c : Code} {k k' : Nat} {ls : List Line} {o : Operand}
    (h : Compiles c k ls o k') : Ordered [] ls ∧ (∀ j ∈ o.temps, j ∈ ls.filterMap Line.target?) ∧
      ∀ n ∈ o.names, n ∈ c.usedNames := by
  match h with
  | .literal _ => exact ⟨trivial, by simp [Operand.temps], by simp [Operand.names]⟩
  | .name => exact ⟨trivial, by simp [Operand.temps], by simp [Operand.names, usedNames]⟩
  | .binary hl hr =>
    obtain ⟨hls, ha, -⟩ := hl.ordered
    obtain ⟨hrs, hb, -⟩ := hr.ordered
    refine ⟨ordered_append.2 ⟨ordered_append.2 ⟨hls, hrs.mono (by simp)⟩, ?_, trivial⟩,
      by simp [Operand.temps, Line.target?], by simp [Operand.names]⟩
    rw [Line.uses, List.filterMap_append, List.nil_append, List.forall_mem_append]
    exact ⟨fun j hj => List.mem_append_left _ (ha j hj),
      fun j hj => List.mem_append_right _ (hb j hj)⟩
  | .call hf hargs =>
    obtain ⟨hls, ha, -⟩ := hf.ordered
    obtain ⟨hrs, hbs⟩ := hargs.ordered
    refine ⟨ordered_append.2 ⟨ordered_append.2 ⟨hls, hrs.mono (by simp)⟩, ?_, trivial⟩,
      by simp [Operand.temps, Line.target?], by simp [Operand.names]⟩
    rw [Line.uses, List.filterMap_append, List.nil_append, List.forall_mem_append,
      List.forall_mem_flatMap]
    exact ⟨fun j hj => List.mem_append_left _ (ha j hj),
      fun b hb j hj => List.mem_append_right _ ((hbs b hb).1 j hj)⟩
  | .member h => exact h.ordered

theorem CompilesAll.ordered {cs : List Code} {k k' : Nat} {ls : List Line} {os : List Operand}
    (h : CompilesAll cs k ls os k') :
    Ordered [] ls ∧ ∀ o ∈ os, (∀ j ∈ o.temps, j ∈ ls.filterMap Line.target?) ∧
      ∀ n ∈ o.names, n ∈ usedNamesAll cs := by
  match h with
  | .nil => exact ⟨trivial, by simp⟩
  | .cons hc hcs =>
    obtain ⟨hls, ha, hn⟩ := hc.ordered
    obtain ⟨hrs, hbs⟩ := hcs.ordered
    refine ⟨ordered_append.2 ⟨hls, hrs.mono (by simp)⟩, List.forall_mem_cons.2 ⟨⟨?_, ?_⟩, ?_⟩⟩
    · intro j hj
      rw [List.filterMap_append]
      exact List.mem_append_left _ (ha j hj)
    · exact fun n hn' => List.mem_append_left _ (hn n hn')
    · intro b hb
      rw [List.filterMap_append]
      exact ⟨fun j hj => List.mem_append_right _ ((hbs b hb).1 j hj),
        fun n hn' => List.mem_append_right _ ((hbs b hb).2 n hn')⟩

end

/-! ## Running the lines -/

section Run

variable {env env₁ env₂ : String → D} {ls rs : List Line} {k : Nat} {a b : Operand} {x y : D}

theorem runLines_append (hl : runLines M env ls = some env₁) (hr : runLines M env₁ rs = some env₂) :
    runLines M env (ls ++ rs) = some env₂ := by
  rw [runLines, List.foldlM_append]
  change (runLines M env ls).bind (runLines M · rs) = some env₂
  rw [hl, Option.bind_some, hr]

theorem runLines_operation (op : Operator) (ha : a.read M env = some x)
    (hb : b.read M env = some y) : runLines M env [.operation k op a b] =
      some (Function.update env (tempName k) (M.apply op x y)) := by
  simp [runLines, Line.run, ha, hb]

theorem runLines_call {bs : List Operand} {ys : List D} (ha : a.read M env = some x)
    (hbs : bs.mapM (Operand.read M env) = some ys) : runLines M env [.call k a bs] =
      some (Function.update env (tempName k) (M.call x ys)) := by
  simp [runLines, Line.run, ha, hbs]

theorem read_update (M : Model D) (env : String → D) (k : Nat) (d : D) :
    (Operand.temp k).read M (Function.update env (tempName k) d) = some d := by
  rw [Operand.read, Function.update_self]

end Run

/-- Nothing is changed but temporaries after one up to another. -/
structure Frame (a b : Nat) (env env' : String → D) : Prop where
  le : a ≤ b
  eq : ∀ n, (∀ j, a < j → j ≤ b → n ≠ tempName j) → env' n = env n

namespace Frame

variable {a b c : Nat} {env env' env'' : String → D}

theorem refl (k : Nat) (env : String → D) : Frame k k env env := ⟨Nat.le_refl k, fun _ _ => rfl⟩

theorem trans (h : Frame a b env env') (h' : Frame b c env' env'') : Frame a c env env'' where
  le := h.le.trans h'.le
  eq n hn := by
    rw [h'.eq n fun j hj hjc => hn j (Nat.lt_of_le_of_lt h.le hj) hjc,
      h.eq n fun j hj hjb => hn j hj (hjb.trans h'.le)]

theorem update (k : Nat) (env : String → D) (d : D) :
    Frame k (k + 1) env (Function.update env (tempName (k + 1)) d) where
  le := Nat.le_succ k
  eq n hn := by rw [Function.update_of_ne (hn (k + 1) (Nat.lt_succ_self k) (Nat.le_refl _))]

theorem eq_of_avoids (h : Frame a b env env') {ns : List String} (hns : AvoidsBetween a b ns) :
    ∀ n ∈ ns, env' n = env n :=
  fun n hn => h.eq n (hns n hn)

end Frame

mutual

theorem value_congr {c : Code} {env env' : String → D}
    (h : ∀ n ∈ c.usedNames, env' n = env n) : c.value M env' = c.value M env := by
  match c with
  | .name n place => rw [value, value, h n (by simp [usedNames])]
  | .binary op l r place =>
    rw [usedNames, List.forall_mem_append] at h
    rw [value, value, value_congr h.1, value_congr h.2]
  | .call f args builtin place =>
    rw [usedNames, List.forall_mem_append] at h
    rw [value, value, value_congr h.1, values_congr h.2]
  | .member o property place =>
    rw [usedNames] at h
    rw [value, value, value_congr h]
  | .literal .. | .param .. | .expr .. | .ret .. | .alias .. | .declare .. | .define ..
  | .program .. | .unruled .. | .nothing => rfl

theorem values_congr {cs : List Code} {env env' : String → D}
    (h : ∀ n ∈ usedNamesAll cs, env' n = env n) : values M env' cs = values M env cs := by
  match cs with
  | [] => rfl
  | c :: cs =>
    rw [usedNamesAll, List.forall_mem_append] at h
    rw [values, values, value_congr h.1, values_congr h.2]

end

theorem Compiles.read_eq {c : Code} {k k' k'' : Nat} {ls : List Line} {o : Operand}
    (h : Compiles c k ls o k') (hc : AvoidsBetween k' k'' c.usedNames) {env env' : String → D}
    (hframe : Frame k' k'' env env') : o.read M env' = o.read M env := by
  obtain ⟨-, htemps, hnames⟩ := h.ordered
  refine Operand.read_congr (fun n hn => hframe.eq_of_avoids hc n (hnames n hn)) fun j hj => ?_
  refine hframe.eq _ fun i hi _ heq => ?_
  have hmem := htemps j hj
  rw [h.targets, List.mem_range'_1] at hmem
  have hk := h.counts.1
  have hji := tempName_inj heq
  omega

mutual

theorem Compiles.runs {c : Code} {k k' : Nat} {ls : List Line} {o : Operand}
    (h : Compiles c k ls o k') (hc : AvoidsBetween k k' c.usedNames) (M : Model D)
    (env : String → D) :
    ∃ env' d, runLines M env ls = some env' ∧ Frame k k' env env' ∧ c.value M env = some d ∧
      o.read M env' = some d := by
  match h with
  | .literal _ => exact ⟨env, _, rfl, .refl k env, rfl, rfl⟩
  | .name => exact ⟨env, _, rfl, .refl k env, rfl, rfl⟩
  | .binary hl hr =>
    rw [usedNames, avoidsBetween_append] at hc
    have hk₁ := hl.le
    have hk₂ := hr.le
    obtain ⟨env₁, x, hrun₁, hframe₁, hx, hreadx⟩ :=
      hl.runs (hc.1.mono (Nat.le_refl k) (by omega)) M env
    obtain ⟨env₂, y, hrun₂, hframe₂, hy, hready⟩ := hr.runs (hc.2.mono hk₁ (by omega)) M env₁
    rw [← hl.read_eq (hc.1.mono hk₁ (by omega)) hframe₂] at hreadx
    rw [value_congr (hframe₁.eq_of_avoids (hc.2.mono (Nat.le_refl k) (by omega)))] at hy
    exact ⟨_, _, runLines_append (runLines_append hrun₁ hrun₂) (runLines_operation _ hreadx hready),
      (hframe₁.trans hframe₂).trans (.update _ _ _), by simp [value, hx, hy], read_update _ _ _ _⟩
  | .call hf hargs =>
    rw [usedNames, avoidsBetween_append] at hc
    have hk₁ := hf.le
    have hk₂ := hargs.le
    obtain ⟨env₁, x, hrun₁, hframe₁, hx, hreadx⟩ :=
      hf.runs (hc.1.mono (Nat.le_refl k) (by omega)) M env
    obtain ⟨env₂, ys, hrun₂, hframe₂, hys, hreadys⟩ :=
      hargs.runs (hc.2.mono hk₁ (by omega)) M env₁
    rw [← hf.read_eq (hc.1.mono hk₁ (by omega)) hframe₂] at hreadx
    rw [values_congr (hframe₁.eq_of_avoids (hc.2.mono (Nat.le_refl k) (by omega)))] at hys
    exact ⟨_, _, runLines_append (runLines_append hrun₁ hrun₂) (runLines_call hreadx hreadys),
      (hframe₁.trans hframe₂).trans (.update _ _ _), by simp [value, hx, hys], read_update _ _ _ _⟩
  | .member (p := p) h =>
    obtain ⟨env₁, x, hrun, hframe, hx, hreadx⟩ := h.runs hc M env
    exact ⟨env₁, M.member x p, hrun, hframe, by simp [value, hx], by simp [Operand.read, hreadx]⟩

theorem CompilesAll.runs {cs : List Code} {k k' : Nat} {ls : List Line} {os : List Operand}
    (h : CompilesAll cs k ls os k') (hcs : AvoidsBetween k k' (usedNamesAll cs)) (M : Model D)
    (env : String → D) :
    ∃ env' ds, runLines M env ls = some env' ∧ Frame k k' env env' ∧ values M env cs = some ds ∧
      os.mapM (Operand.read M env') = some ds := by
  match h with
  | .nil => exact ⟨env, [], rfl, .refl k env, rfl, rfl⟩
  | .cons h hs =>
    rw [usedNamesAll, avoidsBetween_append] at hcs
    obtain ⟨env₁, x, hrun₁, hframe₁, hx, hreadx⟩ :=
      h.runs (hcs.1.mono (Nat.le_refl k) hs.le) M env
    obtain ⟨env₂, ys, hrun₂, hframe₂, hys, hreadys⟩ :=
      hs.runs (hcs.2.mono h.le (Nat.le_refl k')) M env₁
    rw [← h.read_eq (hcs.1.mono h.le (Nat.le_refl k')) hframe₂] at hreadx
    rw [values_congr (hframe₁.eq_of_avoids (hcs.2.mono (Nat.le_refl k) hs.le))] at hys
    exact ⟨env₂, x :: ys, runLines_append hrun₁ hrun₂, hframe₁.trans hframe₂,
      by simp [values, hx, hys], by simp [hreadx, hreadys]⟩

end

end ThreeAddress

end StructLang
