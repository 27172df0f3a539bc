import Mathlib.Data.List.Permutation
import StructLang.Proofs.Typing.Numeric
import StructLang.Token.Scan

namespace StructLang

open Typing

namespace Tree

def runnable (body : List Tree) : List Tree :=
  body.takeWhile (!isReturn ·) ++ (body.find? isReturn).toList

def reached : Tree → List Tree
  | .expr e _ _ => [e]
  | .define _ _ _ body _ => (runnable body).flatMap children
  | _ => []

def reachedNodes (t : Tree) : List Tree := (t.statements.flatMap reached).flatMap preorder

def trimBody : Tree → Tree
  | .define n params result body place =>
    .define n params result (body.find? isReturn).toList place
  | t => t

/-- The program without what the check of its bodies passes over. -/
def trimmed : Tree → Tree
  | .program ss file place => .program (ss.map trimBody) file place
  | t => t

theorem find?_isReturn (body : List Tree) :
    (body.find? isReturn).toList.flatMap children = (body.findSome? returned?).toList := by
  induction body with
  | nil => rfl
  | cons s body ih =>
    cases s with
    | ret e place => rfl
    | _ => exact ih

theorem runnable_find? (body : List Tree) :
    runnable (body.find? isReturn).toList = (body.find? isReturn).toList := by
  cases h : body.find? isReturn with
  | none => rfl
  | some s =>
    have hs : isReturn s := List.find?_some h
    simp [runnable, hs]

theorem reached_trimBody {N : String → Prop} {t : Tree} (h : t.IsTopStatement N) :
    reached t.trimBody = t.checked?.toList := by
  match h with
  | .alias _ | .declare _ _ | .expr _ _ => rfl
  | .define _ _ _ =>
    rw [trimBody, reached, runnable_find?, find?_isReturn]
    rfl

theorem IsProgram.reachedNodes_trimmed {N : String → Prop} {t : Tree} (h : t.IsProgram N) :
    t.trimmed.reachedNodes = t.checkedNodes := by
  cases h with
  | @program ss file place hss =>
    have hreached : (ss.map trimBody).flatMap reached = ss.filterMap checked? := by
      rw [List.flatMap_map, List.filterMap_eq_flatMap_toList]
      exact List.flatMap_congr fun s hs => reached_trimBody (hss s hs)
    rw [reachedNodes, trimmed, statements, hreached]
    rfl

end Tree

namespace Typing

theorem Scope.signature_cases {sc : Scope} {n : String} {place : Option Span} {s : Signature}
    (h : sc.signature n place = .ok s) :
    Library.find? n = some s ∨ Library.find? n = none ∧ sc.signatures.get? n = some s := by
  rw [Scope.signature] at h
  cases hfind : Library.find? n with
  | some s' =>
    rw [hfind] at h
    cases h
    exact .inl rfl
  | none =>
    cases hget : sc.signatures.get? n with
    | some s' =>
      rw [hfind, hget] at h
      cases h
      exact .inr ⟨rfl, rfl⟩
    | none => simp [hfind, hget] at h

theorem firstReturn_find? (sc : Scope) (body : List Tree) :
    firstReturn sc (body.find? isReturn).toList = firstReturn sc body := by
  induction body with
  | nil => rfl
  | cons s body ih =>
    cases s with
    | ret e place => rfl
    | _ => exact ih

theorem any_find?_isReturn (body : List Tree) :
    (body.find? isReturn).toList.any isReturn = body.any isReturn := by
  cases h : body.find? isReturn with
  | none => simpa using h
  | some s =>
    have hany : body.any isReturn := by
      rw [List.any_eq_true]
      exact ⟨s, List.mem_of_find?_eq_some h, List.find?_some h⟩
    have hs : isReturn s := List.find?_some h
    simp [hany, hs]

theorem visit_trimBody (sc : Scope) (t : Tree) : visit sc t.trimBody = visit sc t := by
  cases t with
  | define n params result body place =>
    rw [Tree.trimBody, visit, visit, any_find?_isReturn]
    simp only [firstReturn_find?]
  | _ => rfl

theorem closesScope_trimBody (t : Tree) : closesScope t.trimBody = closesScope t := by
  cases t <;> rfl

theorem visitAll_map_trimBody (sc : Scope) (ss : List Tree) :
    visitAll sc (ss.map Tree.trimBody) = visitAll sc ss := by
  induction ss generalizing sc with
  | nil => rfl
  | cons s ss ih =>
    rw [List.map_cons, visitAll, visitAll, visit_trimBody, closesScope_trimBody]
    simp only [ih]

theorem aliasPlace_map_trimBody (name : String) (ss : List Tree) :
    aliasPlace name (ss.map Tree.trimBody) = aliasPlace name ss := by
  induction ss with
  | nil => rfl
  | cons s ss ih =>
    match s with
    | .alias n type place => simp only [List.map_cons, Tree.trimBody, aliasPlace, ih]
    | .number .. | .string .. | .name .. | .binary .. | .call .. | .member .. | .param .. | .ret ..
    | .expr .. | .declare .. | .define .. | .program .. | .unruled .. | .stray .. => exact ih

theorem resolveAliases_map_trimBody (sc : Scope) (ss : List Tree) (Γ : Aliases) :
    resolveAliases sc (ss.map Tree.trimBody) Γ = resolveAliases sc ss Γ := by
  induction Γ with
  | nil => rfl
  | cons e Γ ih => simp only [resolveAliases, aliasPlace_map_trimBody, ih]

namespace State

theorem addStatement_trimBody (st : State) (t : Tree) :
    st.addStatement t.trimBody = st.addStatement t := by
  cases t <;> rfl

theorem check_trimmed (st : State) (t : Tree) : st.check t.trimmed = st.check t := by
  cases t with
  | program ss file place =>
    have hcollect : st.collect (ss.map Tree.trimBody) = st.collect ss := by
      simp only [collect, List.foldl_map, addStatement_trimBody]
    have hvisit (sc : Scope) : visit sc (.program (ss.map Tree.trimBody) file place) =
        visit sc (.program ss file place) := by
      rw [visit, visit, visitAll_map_trimBody]
      simp only [resolveAliases_map_trimBody]
    simp only [Tree.trimmed, check, Tree.statements, hcollect, hvisit]
  | _ => rfl

theorem exists_declaration_of_signature {st : State} {t : Tree} {n : String} {s : Signature}
    (h : ({} : State).check t = (st, .ok ())) (hs : st.signatures.get? n = some s) :
    ∃ d, (n, d) ∈ t.declarations ∧ d.Signs s := by
  obtain ⟨_, hnone⟩ | ⟨d, s', hd, hs', hsigns⟩ := Table.get?_related (signatures_related h) n
  · cases hs.symm.trans hnone
  · cases hs.symm.trans hs'
    exact ⟨d, Table.mem_of_mem_foldl_keep (Table.mem_of_get? hd), hsigns⟩

end State

/-- A call by name in an expression that is checked goes to a library function or to a declared one,
with as many arguments as it has parameters unless it takes any number. The other statements of the
bodies have no part in this: what they call is left open. -/
theorem signature_of_checked_call {file : String} {ts : List Token} {t : Tree} {st : State}
    (hparse : Tree.parse file ts = .ok t) (hcheck : ({} : State).check t = (st, .ok ())) :
    (∀ n args place place', .call (.name n place') args place ∈ t.checkedNodes →
      ∃ s, (Library.find? n = some s ∨ Library.find? n = none ∧ st.signatures.get? n = some s ∧
          ∃ d, (n, d) ∈ t.declarations ∧ d.Signs s) ∧
        (s.variadic = false → args.length = s.arity)) ∧
      t.trimmed.reachedNodes = t.checkedNodes ∧
      ∀ t', t'.trimmed = t.trimmed → ({} : State).check t' = (st, .ok ()) := by
  have ht : t.IsProgram fun _ => True := Tree.isProgram_of_parse hparse fun _ _ _ => trivial
  refine ⟨?_, ht.reachedNodes_trimmed, ?_⟩
  · intro n args place place' hcall
    obtain ⟨s, hs, harity⟩ := State.signature_of_mem_checkedNodes ht hcheck hcall
    refine ⟨s, ?_, harity⟩
    obtain hfind | ⟨hnone, hget⟩ := Scope.signature_cases hs
    · exact .inl hfind
    · exact .inr ⟨hnone, hget, State.exists_declaration_of_signature hcheck hget⟩
  · intro t' heq
    rw [← State.check_trimmed, heq, State.check_trimmed, hcheck]

namespace Skipped

def source : String := "f(): number \x7b g(); return abs(2); \x7d print(f());"

def tokens : List Token :=
  [⟨.identifier, "f", 1, 1⟩, ⟨.symbol, "(", 1, 2⟩, ⟨.symbol, ")", 1, 3⟩,
    ⟨.returnType, "number", 1, 6⟩, ⟨.symbol, "\x7b", 1, 13⟩, ⟨.identifier, "g", 1, 15⟩,
    ⟨.symbol, "(", 1, 16⟩, ⟨.symbol, ")", 1, 17⟩, ⟨.symbol, ";", 1, 18⟩,
    ⟨.keyword, "return", 1, 20⟩, ⟨.keyword, "abs", 1, 27⟩, ⟨.symbol, "(", 1, 30⟩,
    ⟨.number, "2", 1, 31⟩, ⟨.symbol, ")", 1, 32⟩, ⟨.symbol, ";", 1, 33⟩,
    ⟨.symbol, "\x7d", 1, 35⟩, ⟨.keyword, "print", 1, 37⟩,
    ⟨.symbol, "(", 1, 42⟩, ⟨.identifier, "f", 1, 43⟩, ⟨.symbol, "(", 1, 44⟩, ⟨.symbol, ")", 1, 45⟩,
    ⟨.symbol, ")", 1, 46⟩, ⟨.symbol, ";", 1, 47⟩, ⟨.eof, "", 1, 48⟩]

open MainFile (place)

def tree : Tree := .program
  [.define "f" [] .number
      [.expr (.call (.name "g" (place 15 1)) [] (place 15 1)) none (place 15 1),
        .ret (.call (.name "abs" (place 27 3)) [.number "2" (place 31 1)] (place 27 3))
          (place 20 6)] (place 1 1),
    .expr (.call (.name "print" (place 37 5))
      [.call (.name "f" (place 43 1)) [] (place 43 1)] (place 37 5)) none (place 37 5)]
  "main.struct" (place 1 1)

def types : State where
  signatures := [("f", ⟨[], .number, false⟩)]
  declarations := [("f", ⟨[], .number, true⟩)]

theorem scan_source : Token.scan "main.struct" source = .ok tokens :=
  toOption_eq_some.1 (by decide +kernel)

theorem parse_tokens : Tree.parse "main.struct" tokens = .ok tree := by cbv

theorem check_tree : ({} : State).check tree = (types, .ok ()) := by
  have habs (sc : Scope) : visit sc (.call (.name "abs" (place 27 3)) [.number "2" (place 31 1)]
      (place 27 3)) = .ok (some .number) :=
    visit_call_number rfl (List.forall_mem_singleton.2 sc.takesNumber_number)
      (sc.isNumber_number.resolve _) (.inr rfl) (by decide)
      (List.forall_mem_singleton.2 (visit_number sc _ _))
  have hf : visit types.scope (.call (.name "f" (place 43 1)) [] (place 43 1)) =
      .ok (some .number) :=
    visit_call_number rfl (by simp) (types.scope.isNumber_number.resolve _) (.inr rfl) (by decide)
      (by simp)
  refine State.check_eq rfl (by simp [types])
    (List.forall_mem_cons.2 ⟨?_, List.forall_mem_singleton.2 (passes_print hf)⟩) _ _
  exact passes_define_number rfl (by simp [AreNumbers]) (Scope.isNumber_number _) rfl rfl
    (by simp [firstReturn, typed, habs])

end Skipped

theorem signature_of_checked_call_abs :
    Tree.parse "main.struct" Skipped.tokens = .ok Skipped.tree ∧
      ({} : State).check Skipped.tree = (Skipped.types, .ok ()) ∧
      ∃ s, Library.find? "abs" = some s ∧ (s.variadic = false → 1 = s.arity) := by
  refine ⟨Skipped.parse_tokens, Skipped.check_tree, ?_⟩
  obtain ⟨hcalls, _⟩ := signature_of_checked_call Skipped.parse_tokens Skipped.check_tree
  have hcall : .call (.name "abs" (MainFile.place 27 3)) [.number "2" (MainFile.place 31 1)]
      (MainFile.place 27 3) ∈ Skipped.tree.checkedNodes := by
    simp [Skipped.tree, Tree.checkedNodes, Tree.statements, Tree.checked?, Tree.returned?,
      List.findSome?, Tree.preorder, Tree.preorderAll]
  obtain ⟨s, hs, harity⟩ := hcalls _ _ _ _ hcall
  obtain hfind | ⟨hnone, _⟩ := hs
  · exact ⟨s, hfind, harity⟩
  · cases hnone

theorem undeclared_call_of_check :
    ∃ ts t st, Token.scan "main.struct" Skipped.source = .ok ts ∧
      Tree.parse "main.struct" ts = .ok t ∧ ({} : State).check t = (st, .ok ()) ∧
      (∃ args place place', .call (.name "g" place') args place ∈ t.reachedNodes) ∧
      Library.find? "g" = none ∧ ∀ d, ("g", d) ∉ t.declarations := by
  refine ⟨_, _, _, Skipped.scan_source, Skipped.parse_tokens, Skipped.check_tree,
    ⟨[], MainFile.place 15 1, MainFile.place 15 1, ?_⟩, rfl, ?_⟩
  · simp [Skipped.tree, Tree.reachedNodes, Tree.statements, Tree.reached, Tree.runnable, isReturn,
      Tree.children, Tree.preorder, Tree.preorderAll]
  · simp [Skipped.tree, Tree.declarations, Tree.declaration?, Tree.statements]

end Typing

end StructLang
