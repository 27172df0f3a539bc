import StructLang.Text.Digit
import StructLang.Text.Listed

namespace StructLang.Command

inductive Mode where
  | tokens | ast | ir | tac | js
  deriving DecidableEq, Repr

namespace Mode

def all : List Mode := [tokens, ast, ir, tac, js]

def name : Mode → String
  | tokens => "tokens"
  | ast => "ast"
  | ir => "ir"
  | tac => "tac"
  | js => "js"

def ofName? (s : String) : Option Mode := all.find? (·.name = s)

end Mode

structure Args where
  file : String
  mode : Option Mode := some .js
  output : Option String := none
  wrap : Bool := true
  runtime : Option String := some "./runtime/stdlib"
  verbose : Bool := false
  deriving DecidableEq, Repr

inductive Flag where
  | help | mode | output | noWrap | runtime | verbose
  deriving DecidableEq, Repr

namespace Flag

def all : List Flag := [help, mode, output, noWrap, runtime, verbose]

def short? : Flag → Option Char
  | help => some 'h'
  | mode => some 'm'
  | output => some 'o'
  | verbose => some 'v'
  | noWrap | runtime => none

def long : Flag → String
  | help => "help"
  | mode => "mode"
  | output => "output"
  | noWrap => "no-wrap"
  | runtime => "runtime-module"
  | verbose => "verbose"

def title (f : Flag) : String :=
  (f.short?.elim "" fun c => "-" ++ c.toString ++ "/") ++ "--" ++ f.long

def takesValue : Flag → Bool
  | mode | output | runtime => true
  | help | noWrap | verbose => false

def ofShort? (c : Char) : Option Flag := all.find? (·.short? = some c)

end Flag

inductive Refusal where
  | helpWanted
  | ambiguous (argument : String) (candidates : List Flag)
  | uselessValue (flag : Flag) (value : String)
  | missingValue (flag : Flag)
  | badMode (value : String)
  | noFile
  | unrecognized (arguments : List String)
  deriving DecidableEq, Repr

def Refusal.message : Refusal → String
  | .helpWanted => ""
  | .ambiguous argument candidates =>
    s!"ambiguous option: {argument} could match " ++
      ", ".intercalate (candidates.map fun f => "--" ++ f.long)
  | .uselessValue flag value =>
    s!"argument {flag.title}: ignored explicit argument {Text.listed value}"
  | .missingValue flag => s!"argument {flag.title}: expected one argument"
  | .badMode value =>
    s!"argument {Flag.mode.title}: invalid choice: {Text.listed value} (choose from " ++
      ", ".intercalate (Mode.all.map fun m => Text.listed m.name) ++ ")"
  | .noFile => "the following arguments are required: file"
  | .unrecognized arguments => "unrecognized arguments: " ++ " ".intercalate arguments

structure Cluster where
  flags : List Flag := []
  last : Option (Flag × Option String) := none
  deriving DecidableEq, Repr

namespace Cluster

def add (f : Flag) (c : Cluster) : Cluster := { c with flags := f :: c.flags }

def single (f : Flag) : Cluster :=
  if f.takesValue then { last := some (f, none) } else { flags := [f] }

def withValue (f : Flag) (value : List Char) : Except Refusal Cluster :=
  if f.takesValue then .ok { last := some (f, some (String.ofList value)) }
  else .error (.uselessValue f (String.ofList value))

def joined (f : Flag) : List Char → Except Refusal Cluster
  | [] => .ok (single f)
  | c :: s =>
    if f.takesValue then withValue f (c :: s)
    else match Flag.ofShort? c with
      | none => withValue f (c :: s)
      | some g => do return (← joined g s).add f

/-- The short option that an argument begins with, and the rest of the argument. An equals sign
right after the option is skipped, and an empty rest is then an empty value; further on it is a
letter like any other. -/
def short (f : Flag) : List Char → Except Refusal Cluster
  | ['='] => withValue f []
  | '=' :: s => joined f s
  | s => joined f s

def long (f : Flag) : List Char → Except Refusal Cluster
  | [] => .ok (single f)
  | _ :: s => withValue f s

end Cluster

inductive Word where
  | plain (text : String)
  | divider
  | options (cluster : Except Refusal Cluster)
  | unknown (text : String)

namespace Word

def isUnsigned (s : List Char) : Bool :=
  let s := if s.getLast? = some '\n' then s.dropLast else s
  match s.dropWhile Text.isDecimal with
  | [] => s ≠ []
  | '.' :: rest => rest ≠ [] && rest.all Text.isDecimal
  | _ => false

/-- A dash and a text that is no option is a plain argument if it may be a number or has a space. -/
def ofStranger (s : List Char) : Word :=
  let text := String.ofList ('-' :: s)
  if isUnsigned s || s.contains ' ' then .plain text else .unknown text

def candidates (word : List Char) : List Flag :=
  match Flag.all.filter (·.long.toList = word) with
  | [] => Flag.all.filter fun f => word.isPrefixOf f.long.toList
  | named => named

def ofArgument (argument : String) : Except Refusal Word :=
  match argument.toList with
  | ['-', '-'] => .ok .divider
  | '-' :: '-' :: s =>
    let (word, rest) := s.span (· ≠ '=')
    match candidates word with
    | [] => .ok (ofStranger ('-' :: s))
    | [f] => .ok (.options (Cluster.long f rest))
    | fs => .error (.ambiguous argument fs)
  | '-' :: c :: s =>
    match Flag.ofShort? c with
    | some f => .ok (.options (Cluster.short f s))
    | none => .ok (ofStranger (c :: s))
  | _ => .ok (.plain argument)

def ofArguments : List String → Except Refusal (List Word)
  | [] => .ok []
  | a :: args => do
    match ← ofArgument a with
    | .divider => return .divider :: args.map .plain
    | w => return w :: (← ofArguments args)

end Word

structure Progress where
  file : Option String := none
  settings : Args := { file := "" }
  extras : List String := []

namespace Progress

def extra (p : Progress) (s : String) : Progress := { p with extras := p.extras ++ [s] }

def takeFlag (p : Progress) : Flag → Except Refusal Progress
  | .help => .error .helpWanted
  | .noWrap => .ok { p with settings := { p.settings with wrap := false } }
  | .verbose => .ok { p with settings := { p.settings with verbose := true } }
  | _ => .ok p

def takeValue (p : Progress) (value : Option String) : Flag → Except Refusal Progress
  | .mode =>
    match value, value.bind Mode.ofName? with
    | some name, none => .error (.badMode name)
    | _, mode => .ok { p with settings := { p.settings with mode } }
  | .output => .ok { p with settings := { p.settings with output := value } }
  | .runtime => .ok { p with settings := { p.settings with runtime := value } }
  | _ => .ok p

def takePlain (p : Progress) (s : String) : Progress :=
  match p.file with
  | none => { p with file := some s }
  | some _ => p.extra s

def takeCluster (p : Progress) (c : Cluster) (value : Option (Flag × String)) :
    Except Refusal Progress := do
  let p ← c.flags.foldlM takeFlag p
  match value with
  | none => return p
  -- two dashes are no value, and none at all unsets the option
  | some (f, v) => p.takeValue (if v = "--" then none else some v) f

/-- Reads the words in order. A divider next to the file belongs to it; any other is an argument
that nothing takes. -/
def readAll (p : Progress) : List Word → Except Refusal Progress
  | [] => .ok p
  | .plain s :: .divider :: ws =>
    if p.file.isNone then readAll (p.takePlain s) ws else readAll ((p.extra s).extra "--") ws
  | .plain s :: ws => readAll (p.takePlain s) ws
  | .divider :: .plain s :: ws =>
    if p.file.isNone then readAll (p.takePlain s) ws else readAll ((p.extra "--").extra s) ws
  | .divider :: ws => readAll (p.extra "--") ws
  | .unknown s :: ws => readAll (p.extra s) ws
  | .options (.error e) :: _ => .error e
  | .options (.ok c) :: ws =>
    match c.last with
    | none => do readAll (← p.takeCluster c none) ws
    | some (f, some v) => do readAll (← p.takeCluster c (some (f, v))) ws
    | some (f, none) =>
      match ws with
      | .plain v :: ws => do readAll (← p.takeCluster c (some (f, v))) ws
      | _ => .error (.missingValue f)

end Progress

def Args.read (arguments : List String) : Except Refusal Args := do
  let p ← Progress.readAll {} (← Word.ofArguments arguments)
  match p.file, p.extras with
  | none, _ => .error .noFile
  | some file, [] => return { p.settings with file }
  | some _, extras => .error (.unrecognized extras)

end StructLang.Command
