import Mathlib.Data.List.Nodup
import StructLang.Proofs.Script.Binding

namespace StructLang

namespace Script

/-- What a parameter holds: one argument, or all the further ones. -/
inductive Held (α : Type) where
  | one (x : α)
  | further (xs : List α)

namespace Held

variable {α : Type}

def one? : Held α → Option α
  | .one x => some x
  | .further _ => none

def further? : Held α → Option (List α)
  | .one _ => none
  | .further xs => some xs

end Held

namespace Function

variable {α : Type}

def Takes (g : Function) (xs : List α) : Prop :=
  if g.rest.isSome then g.params.length ≤ xs.length else xs.length = g.params.length

def given (g : Function) (xs : List α) : List (String × Held α) :=
  g.params.zip (xs.map .one) ++ g.rest.toList.map fun r => (r, .further (xs.drop g.params.length))

def frame (g : Function) (xs : List α) : Table (Held α) := .ofList (g.given xs)

/-- The arguments of the call that a forwarder makes. One that is not a single argument of its own
call is `none`. -/
def passed (g : Function) (xs : List α) : List (Option α) :=
  g.params.map (fun n => ((g.frame xs).get? n).bind Held.one?) ++
    (g.rest.map fun r =>
      (((g.frame xs).get? r).bind Held.further?).elim [none] (·.map some)).getD []

/-- Whatever the arguments are, they are passed on in order. -/
def ForwardsInOrder (g : Function) : Prop :=
  ∀ (α : Type) (xs : List α), g.Takes xs → g.passed xs = xs.map some

variable {g : Function} {xs : List α}

theorem Takes.length_le (h : g.Takes xs) : g.params.length ≤ xs.length := by
  rw [Takes] at h
  split at h
  · exact h
  · exact h.ge

theorem names_given (h : g.Takes xs) : Table.names (g.given xs) = g.params ++ g.rest.toList := by
  have hlength : g.params.length ≤ (xs.map Held.one).length := by simpa using h.length_le
  rw [given, Table.names, List.map_append, List.map_fst_zip hlength, List.map_map]
  exact congrArg (g.params ++ ·) (List.map_id _)

theorem get?_frame (hnodup : (g.params ++ g.rest.toList).Nodup) (h : g.Takes xs) {n : String}
    {x : Held α} (hmem : (n, x) ∈ g.given xs) : (g.frame xs).get? n = some x := by
  have hnames : (Table.names (g.given xs)).Nodup := by rwa [names_given h]
  rw [frame, Table.ofList_of_nodup hnames]
  exact Table.get?_of_mem hnames hmem

theorem passed_of_nodup (hnodup : (g.params ++ g.rest.toList).Nodup) (h : g.Takes xs) :
    g.passed xs = xs.map some := by
  have hle := h.length_le
  have hparams : g.params.map (fun n => ((g.frame xs).get? n).bind Held.one?) =
      (xs.take g.params.length).map some := by
    refine List.ext_getElem (by simpa using hle) fun i hi hi' => ?_
    rw [List.length_map] at hi
    have hmem : (g.params[i], Held.one xs[i]) ∈ g.given xs :=
      List.mem_append_left _ (List.mem_iff_getElem.2 ⟨i, by simp; omega, by simp⟩)
    simp [get?_frame hnodup h hmem, Held.one?]
  rw [passed, hparams]
  cases hrest : g.rest with
  | none =>
    have hlength : xs.length = g.params.length := by simpa [Takes, hrest] using h
    simp [← hlength]
  | some r =>
    have hmem : (r, Held.further (xs.drop g.params.length)) ∈ g.given xs := by
      simp [given, hrest]
    simp [get?_frame hnodup h hmem, Held.further?]

theorem nodup_of_forwardsInOrder (h : g.ForwardsInOrder) :
    (g.params ++ g.rest.toList).Nodup := by
  -- numbers for arguments, each in one place only
  have htakes : g.Takes (List.range g.params.length) := by
    rw [Takes]
    split <;> simp
  have hpassed := h Nat _ htakes
  rw [passed] at hpassed
  obtain ⟨hparams, hrest⟩ := List.append_inj (hpassed.trans (List.append_nil _).symm) (by simp)
  have hrange : ((List.range g.params.length).map some).Nodup :=
    List.nodup_range.map (Option.some_injective Nat)
  have hnodup : g.params.Nodup := by
    rw [← hparams] at hrange
    exact hrange.of_map
  refine List.nodup_append.2 ⟨hnodup, by cases g.rest <;> simp, ?_⟩
  rintro n hn r hr rfl
  rw [Option.mem_toList.1 hr] at hrest
  have hmem : ((g.frame (List.range g.params.length)).get? n).bind Held.one? ∈
      (List.range g.params.length).map some := hparams ▸ List.mem_map.2 ⟨n, hn, rfl⟩
  obtain ⟨x, _, hx⟩ := List.mem_map.1 hmem
  obtain ⟨held, hheld, hone⟩ := Option.bind_eq_some_iff.1 hx.symm
  cases held with
  | one => simp [hheld, Held.further?] at hrest
  | further => cases hone

theorem forwardsInOrder_iff_nodup : g.ForwardsInOrder ↔ (g.params ++ g.rest.toList).Nodup :=
  ⟨nodup_of_forwardsInOrder, fun h _ _ => passed_of_nodup h⟩

theorem Declares.rest_notMem {binding r : String} {f : Code} (h : g.Declares binding f)
    (hr : g.rest = some r) : r ∉ g.params := by
  rw [h.rest, restName?] at hr
  split at hr
  · cases hr
    rw [h.params]
    exact freeName_notMem _ _
  · cases hr

theorem Declares.forwardsInOrder_iff {binding : String} {f : Code} (h : g.Declares binding f) :
    g.ForwardsInOrder ↔ (ownNames f).Nodup := by
  rw [forwardsInOrder_iff_nodup, ← h.params]
  cases hr : g.rest with
  | none => simp
  | some r =>
    rw [Option.toList_some, List.nodup_append_comm, List.singleton_append, List.nodup_cons,
      and_iff_right (h.rest_notMem hr)]

theorem nodup_argNames {n : String} {s : Signature} (h : Library.find? n = some s) :
    (argNames s.arity).Nodup := by
  have hall : ∀ e ∈ Library.functions, (argNames e.2.arity).Nodup := by decide
  exact hall _ (Table.mem_of_get? h)

theorem Stubs.forwardsInOrder {binding n : String} (h : g.Stubs binding n) :
    g.ForwardsInOrder := by
  obtain ⟨s, hs, hparams, hrest⟩ := h.signature
  rw [forwardsInOrder_iff_nodup, hparams, hrest]
  cases s.variadic with
  | true => simp
  | false => simpa using nodup_argNames hs

end Function

end Script

end StructLang
