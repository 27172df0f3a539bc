import StructLang.Proofs.Code.Walk
import StructLang.Proofs.ThreeAddress.Listing
import StructLang.Proofs.ThreeAddress.Reading

namespace StructLang

variable {D : Type} {M : Model D}

/-- A literal means what its text means. -/
def Model.IsUniform (M : Model D) : Prop := ∀ v : Value, M.literal v.written = M.literal v

def Code.properties (c : Code) : List String := c.preorder.filterMap property?
where
  property? : Code → Option String
    | .member _ p _ => some p
    | _ => none

namespace ThreeAddress

open Code

theorem Operand.read_written (hM : M.IsUniform) (env : String → D) (o : Operand) :
    o.written.read M env = o.read M env := by
  induction o with
  | literal v s => exact congrArg some (hM v)
  | member o p ih => rw [written, read, read, ih]
  | name | temp | blank => rfl

theorem Operand.temps_written (o : Operand) : o.written.temps = o.temps := by
  induction o with
  | member o p ih => exact ih
  | literal | name | temp | blank => rfl

namespace Line

theorem run_written (hM : M.IsUniform) (env : String → D) (l : Line) :
    l.written.run M env = l.run M env := by
  cases l with
  | operation k op l r =>
    rw [written, run, run, Operand.read_written hM, Operand.read_written hM]
  | call k f xs =>
    have hread : Operand.read M env ∘ Operand.written = Operand.read M env :=
      funext (Operand.read_written hM env)
    rw [written, run, run, Operand.read_written hM, List.mapM_map, hread]
  | function | forwards | noBody | result | ret => rfl

theorem target?_written (l : Line) : l.written.target? = l.target? := by
  cases l <;> rfl

theorem uses_written (l : Line) : l.written.uses = l.uses := by
  cases l <;> simp [written, uses, Operand.temps_written, List.flatMap_map]

end Line

theorem runLines_written (hM : M.IsUniform) (env : String → D) (ls : List Line) :
    runLines M env (ls.map Line.written) = runLines M env ls := by
  rw [runLines, List.foldlM_map, runLines]
  simp only [Line.run_written hM]

theorem map_target?_written (ls : List Line) :
    (ls.map Line.written).map Line.target? = ls.map Line.target? := by
  simp [Function.comp_def, Line.target?_written]

theorem filterMap_target?_written (ls : List Line) :
    (ls.map Line.written).filterMap Line.target? = ls.filterMap Line.target? := by
  simp [List.filterMap_map, Line.target?_written]

theorem ordered_written {ds : List Nat} {ls : List Line} (h : Ordered ds ls) :
    Ordered ds (ls.map Line.written) := by
  induction ls generalizing ds with
  | nil => trivial
  | cons l ls ih =>
    rw [List.map_cons, Ordered, Line.uses_written, Line.target?_written]
    exact ⟨h.1, ih h.2⟩

mutual

theorem Compiles.isLegible {c : Code} {k k' : Nat} {ls : List Line} {o : Operand}
    (h : Compiles c k ls o k') (hnames : ∀ n ∈ c.usedNames, IsVariable n)
    (hproperties : ∀ p ∈ c.properties, Token.IsName p.toList) :
    (∀ l ∈ ls, l.IsLegible) ∧ o.IsLegible := by
  match h with
  | .literal hv => exact ⟨by simp, hv⟩
  | .name => exact ⟨by simp, hnames _ (by simp [usedNames])⟩
  | .binary hl hr =>
    rw [usedNames, List.forall_mem_append] at hnames
    rw [properties, preorder, List.filterMap_cons_none rfl, List.filterMap_append,
      List.forall_mem_append] at hproperties
    obtain ⟨hls, ha⟩ := hl.isLegible hnames.1 hproperties.1
    obtain ⟨hrs, hb⟩ := hr.isLegible hnames.2 hproperties.2
    refine ⟨List.forall_mem_append.2 ⟨List.forall_mem_append.2 ⟨hls, hrs⟩, ?_⟩, trivial⟩
    exact List.forall_mem_singleton.2 ⟨ha, hb⟩
  | .call hf hargs =>
    rw [usedNames, List.forall_mem_append] at hnames
    rw [properties, preorder, List.filterMap_cons_none rfl, List.filterMap_append,
      List.forall_mem_append] at hproperties
    obtain ⟨hls, ha⟩ := hf.isLegible hnames.1 hproperties.1
    obtain ⟨hrs, hbs⟩ := hargs.isLegible hnames.2 hproperties.2
    refine ⟨List.forall_mem_append.2 ⟨List.forall_mem_append.2 ⟨hls, hrs⟩, ?_⟩, trivial⟩
    exact List.forall_mem_singleton.2 ⟨ha, hbs⟩
  | .member h =>
    rw [properties, preorder, List.filterMap_cons_some (f := properties.property?) rfl,
      List.forall_mem_cons] at hproperties
    obtain ⟨hls, ha⟩ := h.isLegible hnames hproperties.2
    exact ⟨hls, ha, hproperties.1⟩

theorem CompilesAll.isLegible {cs : List Code} {k k' : Nat} {ls : List Line} {os : List Operand}
    (h : CompilesAll cs k ls os k') (hnames : ∀ n ∈ usedNamesAll cs, IsVariable n)
    (hproperties : ∀ p ∈ (preorderAll cs).filterMap properties.property?,
      Token.IsName p.toList) :
    (∀ l ∈ ls, l.IsLegible) ∧ ∀ o ∈ os, o.IsLegible := by
  match h with
  | .nil => exact ⟨by simp, by simp⟩
  | .cons hc hcs =>
    rw [usedNamesAll, List.forall_mem_append] at hnames
    rw [preorderAll, List.filterMap_append, List.forall_mem_append] at hproperties
    obtain ⟨hls, ha⟩ := hc.isLegible hnames.1 hproperties.1
    obtain ⟨hrs, hbs⟩ := hcs.isLegible hnames.2 hproperties.2
    exact ⟨List.forall_mem_append.2 ⟨hls, hrs⟩, List.forall_mem_cons.2 ⟨ha, hbs⟩⟩

end

def runTexts (M : Model D) (env : String → D) (ts : List String) : Option (String → D) := do
  runLines M env (← ts.mapM Line.ofText?)

def readText (M : Model D) (env : String → D) (t : String) : Option D := do
  (← Operand.ofText? t).read M env

/-- These texts compute the expression into the operand with this text. Each is read as a line that
assigns a temporary, the next ones in order, and no temporary is used before. When they have been
run in any memory, the text of the operand is read as the value that the expression has there, and
all else is unchanged. -/
structure ComputesText (c : Code) (k : Nat) (ts : List String) (t : String) : Prop where
  lines : ∃ ls o, ts.mapM Line.ofText? = some ls ∧ Operand.ofText? t = some o ∧
    ls.map Line.target? = (List.range' (k + 1) c.operations).map some ∧ Ordered [] ls ∧
    ∀ j ∈ o.temps, j ∈ ls.filterMap Line.target?
  runs : ∀ {D : Type} {M : Model D}, M.IsUniform → ∀ env, ∃ env' d,
    runTexts M env ts = some env' ∧ c.value M env = some d ∧ readText M env' t = some d ∧
      ∀ n, (∀ j ∈ List.range' (k + 1) c.operations, n ≠ tempName j) → env' n = env n

theorem Compiles.computesText {c : Code} {k k' : Nat} {ls : List Line} {o : Operand}
    (h : Compiles c k ls o k') (hnames : ∀ n ∈ c.usedNames, IsVariable n)
    (hproperties : ∀ p ∈ c.properties, Token.IsName p.toList) :
    ComputesText c k (ls.map Line.text) o.text := by
  obtain ⟨hls, ho⟩ := h.isLegible hnames hproperties
  have hcomputes := h.computes fun n hn j _ _ => (hnames n hn).temp j
  have hlines : (ls.map Line.text).mapM Line.ofText? = some (ls.map Line.written) := by
    rw [List.mapM_map]
    exact mapM_eq_some_map fun l hl => Line.ofText?_text (hls l hl)
  have hoperand := Operand.ofText?_text ho
  constructor
  · refine ⟨_, _, hlines, hoperand, ?_, ordered_written hcomputes.ordered, ?_⟩
    · rw [map_target?_written, hcomputes.targets]
    · rw [Operand.temps_written, filterMap_target?_written]
      exact hcomputes.operand
  · intro D M hM env
    obtain ⟨env', d, hrun, hd, hread, hframe⟩ := hcomputes.runs M env
    refine ⟨env', d, ?_, hd, ?_, ?_⟩
    · rw [runTexts, hlines, Option.bind_eq_bind, Option.bind_some, runLines_written hM, hrun]
    · rw [readText, hoperand, Option.bind_eq_bind, Option.bind_some, Operand.read_written hM, hread]
    · rwa [h.targets] at hframe

mutual

inductive ListsText : Code → Nat → List String → Prop
  | expr : ComputesText e k ts t → ListsText (.expr e place) k (ts ++ ["(result: " ++ t ++ ")"])
  | ret : ComputesText e k ts t → ListsText (.ret e place) k (ts ++ ["return " ++ t])
  | typeAlias : ListsText (.alias n type place) k []
  | declare : ListsText (.declare n params result b place) k
      [(Line.function n).text, (if b then Line.forwards n else .noBody).text]
  | empty : ListsText (.define n params result [] b place) k
      [(Line.function n).text, (if b then Line.forwards n else .noBody).text]
  | define : ListsTexts (s :: body) k ts →
      ListsText (.define n params result (s :: body) builtin place) k
        ((Line.function n).text :: ts)
  | program : ListsTexts ss k ts → ListsText (.program ss file place) k ts

inductive ListsTexts : List Code → Nat → List String → Prop
  | nil : ListsTexts [] k []
  | cons : ListsText c k ts → ListsTexts cs (k + c.operations) us →
      ListsTexts (c :: cs) k (ts ++ us)

end

mutual

theorem Writes.listsText {c : Code} {k k' : Nat} {ls : List Line} (h : Writes c k ls k')
    (hnames : ∀ n ∈ c.usedNames, IsVariable n)
    (hproperties : ∀ p ∈ c.properties, Token.IsName p.toList) :
    ListsText c k (ls.map Line.text) := by
  match h with
  | .expr h =>
    rw [List.map_append]
    exact .expr (h.computesText hnames hproperties)
  | .ret h =>
    rw [List.map_append]
    exact .ret (h.computesText hnames hproperties)
  | .typeAlias => exact .typeAlias
  | .declare => exact .declare
  | .empty => exact .empty
  | .define h =>
    rw [properties, preorder, List.filterMap_cons_none rfl, List.filterMap_append,
      List.forall_mem_append] at hproperties
    exact .define (h.listsTexts hnames hproperties.2)
  | .program h => exact .program (h.listsTexts hnames hproperties)

theorem WritesAll.listsTexts {cs : List Code} {k k' : Nat} {ls : List Line}
    (h : WritesAll cs k ls k') (hnames : ∀ n ∈ usedNamesAll cs, IsVariable n)
    (hproperties : ∀ p ∈ (preorderAll cs).filterMap properties.property?,
      Token.IsName p.toList) :
    ListsTexts cs k (ls.map Line.text) := by
  match h with
  | .nil => exact .nil
  | .cons h hs =>
    rw [usedNamesAll, List.forall_mem_append] at hnames
    rw [preorderAll, List.filterMap_append, List.forall_mem_append] at hproperties
    obtain rfl := h.counts
    rw [List.map_append]
    exact .cons (h.listsText hnames.1 hproperties.1) (hs.listsTexts hnames.2 hproperties.2)

end

/-- An expression is emitted as lines whose texts compute it, and a program as lines whose texts
compute the expressions of its statements one after the other, unless an integer is too long to be
written. -/
theorem emit_computes {c : Code} (hnames : ∀ n ∈ c.usedNames, IsVariable n)
    (hproperties : ∀ p ∈ c.properties, Token.IsName p.toList) (s : State) :
    (c.IsTerm →
      (c.IsWritable → ∃ ls o, run c s = (.ok o, ⟨s.temps + c.operations, s.lines ++ ls⟩) ∧
        ComputesText c s.temps (ls.map Line.text) o.text) ∧
      (¬c.IsWritable → (run c s).1 = .error .unwritable)) ∧
    (c.IsListed →
      (c.IsWritable → ∃ ls, run c s = (.ok .blank, ⟨s.temps + c.operations, s.lines ++ ls⟩) ∧
        ListsText c s.temps (ls.map Line.text) ∧ Ordered [] ls ∧
        ls.filterMap Line.target? = List.range' (s.temps + 1) c.operations) ∧
      (¬c.IsWritable → (run c s).1 = .error .unwritable)) := by
  constructor
  · intro hterm
    obtain ⟨hwritable, ls, o, k, hrun, h⟩ | ⟨hwritable, s', hrun⟩ :=
      emits_of_isTerm hterm s.temps s.lines
    · refine ⟨fun _ => ⟨ls, o, ?_, h.computesText hnames hproperties⟩,
        fun hnot => absurd hwritable hnot⟩
      rw [← h.counts.1]
      exact hrun
    · exact ⟨fun hall => absurd hall hwritable, fun _ => congrArg Prod.fst hrun⟩
  · intro hlisted
    obtain ⟨hwritable, ls, o, k, hrun, rfl, h⟩ | ⟨hwritable, s', hrun⟩ :=
      emits_writes hlisted s.temps s.lines
    · obtain rfl := h.counts
      exact ⟨fun _ => ⟨ls, hrun, h.listsText hnames hproperties, h.assigns.2, h.assigns.1⟩,
        fun hnot => absurd hwritable hnot⟩
    · exact ⟨fun hall => absurd hall hwritable, fun _ => congrArg Prod.fst hrun⟩

namespace Inlined

def sum : Code := .binary .add (.name "x" none) (.member (.name "x" none) "y" none) none

def program : Code := .program
  [.define "f" [.param "x" .any none] .any [.ret sum none] false none,
    .expr (.member (.call (.name "f" none)
      [.literal (.text "a, (b") .string none, .literal (.text "t1") .string none] false none)
      "z" none) none]
  "main.struct" none

def lines : List Line :=
  [.function "f", .operation 1 .add (.name "x") (.member (.name "x") "y"), .ret (.temp 1),
    .call 2 (.name "f") [.literal (.text "a, (b") "\"a, (b\"", .literal (.text "t1") "\"t1\""],
    .result (.member (.temp 2) "z")]

def texts : List String :=
  ["--- Function f ---", "t1 := x + x.y", "return t1", "t2 := f(\"a, (b\", \"t1\")",
    "(result: t2.z)"]

theorem isTerm_sum : sum.IsTerm := .binary .name (.member .name)

theorem isListed_program : program.IsListed := by
  refine .program (List.forall_mem_cons.2 ⟨.define ?_, List.forall_mem_singleton.2 (.expr ?_)⟩)
  · exact List.forall_mem_singleton.2 (.ret isTerm_sum)
  · exact .member (.call .name (by simpa using ⟨.literal, .literal⟩))

theorem isVariable_of_mem : ∀ n ∈ ["x", "f"], IsVariable n := by
  have hheads : ∀ n ∈ ["x", "f"], Token.IsName n.toList ∧ n.toList.head? ≠ some 't' ∧
      n ∉ Value.constants.map Prod.fst := by decide
  refine fun n hn => ⟨(hheads n hn).1, ?_, (hheads n hn).2.2⟩
  rintro k rfl
  exact (hheads _ hn).2.1 (by rw [toList_tempName, List.head?_cons])

end Inlined

open Inlined in
theorem emit_computes_inlined :
    (run sum = (.ok (.temp 1), ⟨1, [.operation 1 .add (.name "x") (.member (.name "x") "y")]⟩) ∧
      ComputesText sum 0 ["t1 := x + x.y"] "t1") ∧
    (run program = (.ok .blank, ⟨2, lines⟩) ∧ lines.map Line.text = texts ∧
      ListsText program 0 texts ∧ Ordered [] lines) := by
  constructor
  · have hwritable : sum.IsWritable := by simp [IsWritable, Inlined.sum, literals]
    have hcomputed : run sum =
        (.ok (.temp 1), ⟨1, [.operation 1 .add (.name "x") (.member (.name "x") "y")]⟩) := by rfl
    obtain ⟨ls, o, hrun, hcomputes⟩ := ((emit_computes
      (fun n hn => isVariable_of_mem n ((by decide : sum.usedNames ⊆ ["x", "f"]) hn))
      (by decide) {}).1 isTerm_sum).1 hwritable
    obtain ⟨hoperand, hstate⟩ := Prod.mk.inj (hcomputed.symm.trans hrun)
    obtain rfl := (Except.ok.inj hoperand).symm
    obtain rfl := (State.mk.inj hstate).2.symm
    exact ⟨hcomputed, hcomputes⟩
  · have hwritable : program.IsWritable := by
      intro v hv
      obtain rfl | rfl : v = .text "a, (b" ∨ v = .text "t1" := by
        simpa [Inlined.program, Inlined.sum, literals, literalsAll] using hv
      · rfl
      · rfl
    have hcomputed : run program = (.ok .blank, ⟨2, lines⟩) := by rfl
    have htexts : lines.map Line.text = texts := by decide
    obtain ⟨ls, hrun, hlists, hordered, -⟩ := ((emit_computes
      (fun n hn => isVariable_of_mem n ((by decide : program.usedNames ⊆ ["x", "f"]) hn))
      (by decide) {}).2 isListed_program).1 hwritable
    obtain rfl : lines = ls := (State.mk.inj (congrArg Prod.snd (hcomputed.symm.trans hrun))).2
    exact ⟨hcomputed, htexts, htexts ▸ hlists, hordered⟩

namespace Mistaken

def literal : Code :=
  .binary .add (.name "inf" none) (.literal (.real (.infinite false)) .number none) none

def name : Code := .binary .add (.name "inf" none) (.name "inf" none) none

def sums : Model Nat where
  literal _ := 1
  apply _ a b := a + b
  call _ _ := 0
  member _ _ := 0

end Mistaken

/-- There is an expression that cannot be listed, a literal with more digits than are written, and
there are two that have the same listing and not the same value. -/
theorem unwritable_or_mistaken :
    ((literal (.int (Nat.pow 10 Numeral.digitLimit)) .number none).IsTerm ∧
      (run (literal (.int (Nat.pow 10 Numeral.digitLimit)) .number none)).1 =
        .error .unwritable) ∧
    (Mistaken.literal.IsTerm ∧ Mistaken.name.IsTerm ∧ Mistaken.sums.IsUniform ∧
      (run Mistaken.literal).1 = .ok (.temp 1) ∧ (run Mistaken.name).1 = .ok (.temp 1) ∧
      (run Mistaken.literal).2.lines.map Line.text = ["t1 := inf + inf"] ∧
      (run Mistaken.name).2.lines.map Line.text = ["t1 := inf + inf"] ∧
      Mistaken.literal.value Mistaken.sums (fun _ => 0) = some 1 ∧
      Mistaken.name.value Mistaken.sums (fun _ => 0) = some 0) := by
  constructor
  · generalize hlimit : Nat.pow 10 Numeral.digitLimit = limit
    have hscript : (Value.int limit).script = .error .unwritable := by
      rw [Value.script, Value.listing, decimalText, hlimit, Int.natAbs_natCast,
        if_neg (Nat.lt_irrefl limit)]
      · rintro _ ⟨⟩
      · rintro _ ⟨⟩
    refine ⟨.literal, ?_⟩
    rw [run, emit, hscript]
    rfl
  · exact ⟨.binary .name .literal, .binary .name .name, fun _ => rfl, by rfl, by rfl, by decide,
      by decide, rfl, rfl⟩

end ThreeAddress

end StructLang
