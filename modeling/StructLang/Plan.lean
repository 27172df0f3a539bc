import StructLang.Fault
import StructLang.Table

/-!
Passes that require one another, and the order to run them in. A pass is ready when all the
registered passes that it requires have run; passes that are ready wait in a queue, in the order of
registration among those that become ready together.
-/

namespace StructLang.Plan

structure Pass (σ : Type) where
  name : String
  requires : List String := []
  run : σ → Except Fault σ

structure Progress where
  queue : List String
  waiting : Table Int

def waitingCount : Table Int → Nat
  | [] => 0
  | (_, k) :: w => (if 0 < k then 1 else 0) + waitingCount w

def Progress.left (p : Progress) : Nat := p.queue.length + waitingCount p.waiting

def lessOne : Table Int → String → Table Int
  | [], _ => []
  | (n, k) :: w, name => if n = name then (n, k - 1) :: w else (n, k) :: lessOne w name

variable {σ : Type}

def meet (done : String) (p : Progress) (pass : Pass σ) : Progress :=
  if done ∈ pass.requires then
    let waiting := lessOne p.waiting pass.name
    if waiting.get? pass.name = some 0 then ⟨p.queue ++ [pass.name], waiting⟩
    else { p with waiting }
  else p

theorem waitingCount_lessOne_le (w : Table Int) (name : String) :
    waitingCount (lessOne w name) ≤ waitingCount w := by
  induction w with
  | nil => exact Nat.le_refl _
  | cons e w ih =>
    simp only [lessOne]
    split
    · simp only [waitingCount]
      split <;> split <;> omega
    · simp only [waitingCount]
      omega

theorem waitingCount_lessOne_lt {w : Table Int} {name : String}
    (h : (lessOne w name).get? name = some 0) : waitingCount (lessOne w name) < waitingCount w := by
  induction w with
  | nil => simp [lessOne, Table.get?] at h
  | cons e w ih =>
    simp only [lessOne] at h ⊢
    split at h
    · rename_i hn
      simp only [Table.get?, hn, if_true, Option.some.injEq] at h
      simp only [hn, if_true, waitingCount]
      split <;> split <;> omega
    · rename_i hn
      simp only [Table.get?, hn, if_false] at h
      have := ih h
      simp only [hn, if_false, waitingCount]
      omega

theorem left_meet_le (done : String) (p : Progress) (pass : Pass σ) :
    (meet done p pass).left ≤ p.left := by
  simp only [meet]
  split
  · split
    · rename_i h
      have := waitingCount_lessOne_lt h
      simp only [Progress.left, List.length_append, List.length_singleton]
      omega
    · have := waitingCount_lessOne_le p.waiting pass.name
      simp only [Progress.left]
      omega
  · exact Nat.le_refl _

def meetAll (passes : List (Pass σ)) (done : String) (p : Progress) : Progress :=
  passes.foldl (meet done) p

theorem left_meetAll_le (passes : List (Pass σ)) (done : String) (p : Progress) :
    (meetAll passes done p).left ≤ p.left := by
  induction passes generalizing p with
  | nil => exact Nat.le_refl _
  | cons pass passes ih => exact Nat.le_trans (ih _) (left_meet_le done p pass)

def drain (passes : List (Pass σ)) (p : Progress) : List String :=
  match _h : p.queue with
  | [] => []
  | name :: queue => name :: drain passes (meetAll passes name { p with queue })
termination_by p.left
decreasing_by
  have := left_meetAll_le passes name { p with queue }
  simp only [Progress.left, _h, List.length_cons] at this ⊢
  omega

def openRequirements (passes : List (Pass σ)) (pass : Pass σ) : Int :=
  (pass.requires.eraseDups.filter fun r => passes.any (·.name == r)).length

def start (passes : List (Pass σ)) : Progress :=
  let waiting := Table.ofList (passes.map fun p => (p.name, openRequirements passes p))
  ⟨(passes.filter fun p => waiting.get? p.name == some 0).map Pass.name, waiting⟩

/-- All passes in an order that meets their requirements, or none of them. -/
def order (passes : List (Pass σ)) : Except Fault (List (Pass σ)) :=
  let names := drain passes (start passes)
  if names.length = passes.length then
    .ok (names.filterMap fun n => passes.find? (·.name == n))
  else .error (.internal "Circular dependency detected in passes")

def runAll (passes : List (Pass σ)) (after : Pass σ → σ → σ) (s : σ) : Except Fault σ := do
  (← order passes).foldlM (fun s p => do return after p (← p.run s)) s

end StructLang.Plan
