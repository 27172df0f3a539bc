import StructLang.Command.Args
import StructLang.Compile
import StructLang.Disk
import StructLang.SExpr.Compact
import StructLang.Text.Utf8
import StructLang.ThreeAddress
import StructLang.Tree.Listing

namespace StructLang.Command

structure Report where
  exit : Nat := 0
  out : String := ""
  err : String := ""
  deriving DecidableEq, Repr

inductive Crash where
  | fault (fault : Fault)
  | noMode
  | disk (error : DiskError)
  deriving Repr

def Crash.message : Crash → String
  | .fault f => f.message
  | .noMode => "no mode"
  | .disk e => e.text

def modes : String := ",".intercalate (Mode.all.map Mode.name)

def usage : String :=
  "usage: structura [-h] [-m \x7b" ++ modes ++ "\x7d] [-o OUTPUT] [--no-wrap]\n" ++
  "                 [--runtime-module RUNTIME_MODULE] [-v]\n" ++
  "                 file\n"

def help : String :=
  usage ++ "\nCompile a Structura (.struct) file to JavaScript.\n\n" ++
  "positional arguments:\n" ++
  "  file                  Path to .struct source file\n\n" ++
  "options:\n" ++
  "  -h, --help            show this help message and exit\n" ++
  "  -m \x7b" ++ modes ++ "\x7d, --mode \x7b" ++ modes ++ "\x7d\n" ++
  "                        What to print or write (default: js)\n" ++
  "  -o OUTPUT, --output OUTPUT\n" ++
  "                        Output path for js mode, '-' for stdout (default:\n" ++
  "                        build/<name>.js next to the source)\n" ++
  "  --no-wrap             Do not wrap emitted code in an IIFE\n" ++
  "  --runtime-module RUNTIME_MODULE\n" ++
  "                        Module path the emitted code requires (default:\n" ++
  "                        ./runtime/stdlib)\n" ++
  "  -v, --verbose         Debug logging\n"

def complaint (message : String) : String := "structura: error: " ++ message ++ "\n"

def Report.ofRefusal : Refusal → Report
  | .helpWanted => { out := help }
  | r => { exit := 2, err := usage ++ complaint r.message }

def Report.failed (message : String) : Report := { exit := 1, err := complaint message }

def lines (ls : List String) : String := String.join (ls.map (· ++ "\n"))

def Mode.lastStage : Mode → Option Stage
  | .tokens => some .lex
  | .ast => some .parse
  | .ir | .tac => some .optimize
  | .js => none

def listing (mode : Mode) (o : Outcome) : Except Fault String :=
  match mode with
  | .tokens => .ok (lines ((o.tokens.getD []).map Token.listing))
  | .ast => .ok (lines ((o.tree.getD (.stray .nothing)).statements.map Tree.listing))
  | .ir => do return (← (o.code.getD .nothing).prettyDump SExpr.compact false) ++ "\n"
  | .tac => do
    let text ← ThreeAddress.listing (o.code.getD .nothing)
    return "Three-Address Code (TAC):\n" ++ text ++ "\n"
  | .js => .ok (o.output.getD "")

section

variable {m : Type → Type} [Monad m] (s : Storage m)

def writeDump (name : String) (code : Code) : ExceptT Fault m (Except DiskError Unit) := do
  let folder : Path := ⟨.none, ["ir_dump"]⟩
  match ← ExceptT.lift (s.ensureFolders folder) with
  | .error e => return .error e
  | .ok () =>
    let text ← ExceptT.mk (pure (code.prettyDump SExpr.compact false))
    ExceptT.lift (s.writeTo (folder.child (name ++ ".sexpr")) text)

def follow (dumps : Bool) : List Step → ExceptT Fault m (List Event)
  | [] => return []
  | .note e :: steps => do return e :: (← follow dumps steps)
  | .dump name code :: steps => do
    if dumps then
      match ← writeDump s name code with
      | .ok () => follow dumps steps
      | .error e => do return .dumpFailed name e.text :: (← follow dumps steps)
    else follow dumps steps

def log (verbose : Bool) (events : List Event) : String :=
  lines ((events.filter fun e => verbose || e.isWarning).map Event.line)

def outputPath (args : Args) : Path :=
  match given args.output with
  | some o => Path.ofText o
  | none => (Path.ofText args.file).scriptPath

def orCrash {α : Type} (e : Except Fault α) : ExceptT Crash m α :=
  ExceptT.mk (pure (e.mapError .fault))

def runSource (env : Table String) (args : Args) (mode : Mode) (source : String) :
    ExceptT Crash m Report := do
  let job : Job := {
    source
    file := (Path.ofText args.file).text
    options := { wrap := args.wrap, runtime := args.runtime } }
  let o ← orCrash (compile job mode.lastStage)
  let dumps := (given (env.get? "STRUCTURA_DUMP_IR")).isSome
  let err := log args.verbose (← (follow s dumps o.course).adapt .fault)
  if !o.success then
    return { exit := 1, err := err ++ o.reporter.renderAll (useColor env) ++ "\n" }
  let text ← orCrash (listing mode o)
  if mode ≠ .js ∨ args.output = some "-" then return { out := text, err }
  let path := outputPath args
  match ← ExceptT.lift (s.save path text) with
  | .ok () =>
    return { out := "Compilation successful! Output written to " ++ path.text ++ "\n", err }
  | .error ⟨.zeroByte, p⟩ => throw (.disk ⟨.zeroByte, p⟩)
  | .error e =>
    return { exit := 1, err := err ++
      complaint ("could not write " ++ path.text ++ ": " ++ e.text) }

def run (env : Table String) (arguments : List String) : ExceptT Crash m Report := do
  match Args.read arguments with
  | .error r => return .ofRefusal r
  | .ok args =>
    let path := Path.ofText args.file
    if !path.isSource then return .failed "input file must have a .struct extension"
    match ← ExceptT.lift (s.read path) with
    | .error .denied => return .failed ("could not read file: " ++ DiskError.text ⟨.denied, path⟩)
    | .error .tooLong => throw (.disk ⟨.tooLong, path⟩)
    | .error _ => return .failed ("file not found: " ++ path.text)
    | .ok bytes =>
      match Text.Utf8.decode bytes, args.mode with
      | .error e, _ => return .failed ("could not read file: " ++ e.message)
      | .ok _, none => throw .noMode
      | .ok source, some mode => runSource s env args mode source

end

end StructLang.Command
