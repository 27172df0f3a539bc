import StructLang.Code.Dump
import StructLang.Code.Fold
import StructLang.Code.Lower
import StructLang.Code.Usage
import StructLang.Diagnostic
import StructLang.Journal
import StructLang.Plan
import StructLang.Script.Module
import StructLang.Token.Scan
import StructLang.Tree.Parse
import StructLang.Typing

namespace StructLang

inductive Stage where
  | lex | parse | check | lower | optimize | emit
  deriving DecidableEq, Repr

namespace Stage

def all : List Stage := [lex, parse, check, lower, optimize, emit]

def name : Stage → String
  | lex => "lex"
  | parse => "parse"
  | check => "check"
  | lower => "lower"
  | optimize => "optimize"
  | emit => "emit"

def ofName? (s : String) : Option Stage := all.find? fun stage => stage.name == s

def upTo (last : Stage) : List Stage → List Stage
  | [] => []
  | s :: ss => if s = last then [s] else s :: upTo last ss

end Stage

inductive Step where
  | note (event : Event)
  | dump (name : String) (code : Code)

structure Job where
  source : String
  file : String := "main.struct"
  options : Script.Options := {}

structure Outcome where
  tokens : Option (List Token) := none
  tree : Option Tree := none
  types : Typing.State := {}
  code : Option Code := none
  called : Option (List String) := none
  output : Option String := none
  success : Bool := false
  failure : Option Failure := none
  reporter : Reporter := {}
  course : List Step := []

namespace Job

def reporter (job : Job) : Reporter where
  files := [(job.file, job.source)]

def start (job : Job) : Outcome where
  reporter := job.reporter

end Job

namespace Outcome

def add (o : Outcome) (steps : List Step) : Outcome := { o with course := o.course ++ steps }

def note (o : Outcome) (event : Event) : Outcome := o.add [.note event]

def succeed (o : Outcome) : Outcome := { o with success := true }

def fail (o : Outcome) (file : String) (f : Failure) : Outcome :=
  { o.note (.failed file f.cause.title f.message) with
    reporter := o.reporter.report (.ofFailure f)
    failure := some f
    success := false }

/-- A refusal is part of the outcome, other faults are not. -/
def refuse (o : Outcome) (file : String) : Fault → Except Fault Outcome
  | .refused f => .ok (o.fail file f)
  | fault => .error fault

def dumpCount (o : Outcome) : Nat :=
  o.course.countP fun
    | .dump _ _ => true
    | .note _ => false

def dump (o : Outcome) (after : String) (code : Code) : Outcome :=
  let n := o.dumpCount
  let number := (if n < 10 then "0" else "") ++ toString n
  o.add [.dump (number ++ "_after_" ++ after) code]

end Outcome

namespace Stage

def foldPass (o : Outcome) : Except Fault Outcome :=
  match o.code with
  | none => .ok o
  | some code =>
    match code.fold with
    | (.ok folded, t) =>
      let sums := t.sums.map fun s => Step.note (.folded s.1 s.2)
      .ok ({ o with code := some folded }.add
        (sums ++ [Step.note (.optimized t.folds t.builtins)]))
    | (.error e, _) => .error e

def usagePass (o : Outcome) : Except Fault Outcome :=
  match o.code with
  | none => .ok o
  | some code =>
    let called := code.calledBuiltins
    .ok ({ o with called := some called }.note (.used called))

def announced (name : String) (requires : List String) (run : Outcome → Except Fault Outcome) :
    Plan.Pass Outcome where
  name
  requires
  run o := run (o.note (.running name))

def passes : List (Plan.Pass Outcome) := [
  announced "IROptimizer" [] foldPass,
  announced "BuiltinUsagePass" ["IROptimizer"] usagePass]

def afterPass (p : Plan.Pass Outcome) (o : Outcome) : Outcome :=
  match o.code with
  | none => o
  | some code => o.dump p.name code

def emissionEvents (o : Script.Options) (program : Code) (called : List String)
    (m : Script.Module) : List Event :=
  let chosen := Script.chosenFunctions (Script.functions program)
  let stubs := called.filter fun n => !chosen.has n
  (if m.binding = o.binding then [] else [.renamed m.binding]) ++
    (chosen.names.filter (Script.isSkipped called)).map Event.skipped ++
    (if stubs.isEmpty then [] else [.synthesized stubs])

def run (job : Job) (o : Outcome) : Stage → Except Fault Outcome
  | .lex =>
    match Token.scan job.file job.source with
    | .error f => .ok (o.fail job.file f)
    | .ok ts => .ok ({ o with tokens := some ts }.note (.scanned job.file ts.length))
  | .parse =>
    match Tree.parse job.file (o.tokens.getD []) with
    | .error f => .ok (o.fail job.file f)
    | .ok t => .ok ({ o with tree := some t }.note (.parsed job.file t.statements.length))
  | .check =>
    let (types, result) := o.types.check (o.tree.getD (.stray .nothing))
    let o := { o with types }.note (.collected types.aliases.names types.declarations.names)
    match result with
    | .error e => o.refuse job.file e
    | .ok () => .ok (o.note (.checked types.aliases.length types.declarations.length))
  | .lower =>
    match (o.tree.getD (.stray .nothing)).lower with
    | .error e => o.refuse job.file e
    | .ok code =>
      .ok (({ o with code := some code }.note
        (.lowered code.statements.length job.file)).dump "ast_to_ir" code)
  | .optimize => Plan.runAll passes afterPass o
  | .emit =>
    let code := o.code.getD .nothing
    let called := o.called.getD []
    match Script.ofCode job.options code called with
    | .error e => .error e
    | .ok m =>
      let steps := (emissionEvents job.options code called m).map Step.note
      .ok ({ o with output := some m.text }.add steps)

def runAll (job : Job) : List Stage → Outcome → Except Fault Outcome
  | [], o => .ok o.succeed
  | s :: ss, o => do
    let o ← s.run job o
    if o.failure.isSome then return o else runAll job ss o

end Stage

def compile (job : Job) (last : Option Stage := none) : Except Fault Outcome :=
  let stages := match last with
    | none => Stage.all
    | some s => Stage.upTo s Stage.all
  Stage.runAll job stages job.start

def compileTo (job : Job) : Option String → Except Fault Outcome
  | none => compile job
  | some name =>
    match Stage.ofName? name with
    | some s => compile job (some s)
    | none => .error (.unknownStage name (Stage.all.map Stage.name))

def compileSource (job : Job) : Except Fault String := do
  let o ← compile job
  match o.failure with
  | some f => .error (.refused f)
  | none => return o.output.getD ""

end StructLang
