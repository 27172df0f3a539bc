import StructLang.Text.Listed

namespace StructLang

inductive Event where
  | scanned (file : String) (tokens : Nat)
  | parsed (file : String) (statements : Nat)
  | collected (aliases functions : List String)
  | checked (aliases functions : Nat)
  | lowered (statements : Nat) (file : String)
  | running (pass : String)
  | folded (left right : String)
  | optimized (folds builtins : Nat)
  | used (names : List String)
  | renamed (binding : String)
  | skipped (name : String)
  | synthesized (names : List String)
  | failed (file title message : String)
  | dumpFailed (name reason : String)
  deriving DecidableEq, Repr

namespace Event

def isWarning : Event → Bool
  | .dumpFailed _ _ => true
  | _ => false

def logger : Event → String
  | .scanned _ _ => "structura.frontend.lexer"
  | .parsed _ _ => "structura.frontend.parser"
  | .collected _ _ | .checked _ _ => "structura.passes.type_checker"
  | .lowered _ _ => "structura.passes.ast_to_ir"
  | .running _ => "structura.passes.base"
  | .folded _ _ | .optimized _ _ => "structura.passes.const_folding"
  | .used _ => "structura.passes.builtin_usage"
  | .renamed _ | .skipped _ | .synthesized _ => "structura.backends.javascript"
  | .failed _ _ _ | .dumpFailed _ _ => "structura.compiler.driver"

def message : Event → String
  | .scanned file n => s!"Tokenized {file}: {n} tokens"
  | .parsed file n => s!"Parsed {file}: {n} top-level statements"
  | .collected aliases functions =>
    "Collected aliases " ++ Text.listedAll (sorted aliases) ++ " and functions " ++
      Text.listedAll (sorted functions)
  | .checked aliases functions =>
    s!"Type check passed: {aliases} aliases, {functions} user functions"
  | .lowered n file => s!"Lowered {n} top-level statements from {file}"
  | .running pass => "Running " ++ pass
  | .folded left right => s!"Folded {left} + {right}"
  | .optimized folds builtins =>
    s!"Constant folding: {folds} folds, {builtins} builtin declarations"
  | .used names => "Builtins called: " ++ Text.listedAll names
  | .renamed binding => s!"Runtime binding renamed to '{binding}'"
  | .skipped name => s!"Skipping uncalled builtin declaration '{name}'"
  | .synthesized names => "Synthesized builtin stubs: " ++ Text.listedAll names
  | .failed file title message => s!"Compilation of {file} failed: {title}: {message}"
  | .dumpFailed name reason => s!"Could not write IR dump {name}: {reason}"
where
  sorted (names : List String) : List String := names.mergeSort fun a b => decide (a ≤ b)

def line (e : Event) : String :=
  (if e.isWarning then "WARNING " else "DEBUG ") ++ e.logger ++ ": " ++ e.message

end Event

end StructLang
