import StructLang.Table
import StructLang.Ty.Basic

namespace StructLang

structure Signature where
  params : List Ty
  result : Ty
  variadic : Bool := false
  deriving Repr

def Signature.arity (s : Signature) : Nat := s.params.length

def Signature.text (s : Signature) : String :=
  "(" ++ ", ".intercalate (s.params.map Ty.text) ++ (if s.variadic then "..." else "") ++ ") -> " ++
    s.result.text

namespace Library

def functions : Table Signature := [
  ("abs", ⟨[.number], .number, false⟩),
  ("min", ⟨[.number, .number], .number, false⟩),
  ("max", ⟨[.number, .number], .number, false⟩),
  ("print", ⟨[.any], .any, true⟩),
  ("sumNumbers", ⟨[.array .number], .number, false⟩),
  ("concatStrings", ⟨[.array .string], .string, false⟩),
  ("hcf", ⟨[.number, .number], .number, false⟩),
  ("lcm", ⟨[.number, .number], .number, false⟩),
  ("capitalize", ⟨[.string], .string, false⟩),
  ("isURL", ⟨[.string], .boolean, false⟩),
  ("coalesce", ⟨[.any], .any, true⟩),
  ("slugify", ⟨[.string], .string, false⟩)]

def find? (name : String) : Option Signature := functions.get? name

def reserved (name : String) : Bool := functions.has name

/-- The words that are no identifiers: the reserved names, further helpers of the runtime, and the
words of statements. -/
def keywords : List String := [
  "abs", "capitalize", "coalesce", "concatStrings", "hcf", "isURL", "lcm", "max", "min", "print",
  "slugify", "sumNumbers",
  "len", "reverse", "sqrt", "sum", "push", "pop", "toUpperCase", "toLowerCase", "substring",
  "replace", "includes", "clamp", "startsWith", "endsWith", "unique", "range",
  "return", "for", "while", "if", "else", "let"]

end Library

end StructLang
