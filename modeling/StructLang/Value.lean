import StructLang.Fault
import StructLang.Number.Shortest
import StructLang.Text.Ascii

namespace StructLang

inductive Value where
  | null
  | bool (b : Bool)
  | int (n : Int)
  | real (d : Double)
  | text (s : String)
  deriving DecidableEq

def decimalText (n : Int) : Except Fault String :=
  if n.natAbs < Nat.pow 10 Numeral.digitLimit then .ok (toString n) else .error .unwritable

namespace Value

def toInt? : Value → Option Int
  | .bool b => some (if b then 1 else 0)
  | .int n => some n
  | _ => none

def toDouble (n : Int) : Except Fault Double :=
  match Double.ofInt? n with
  | some d => .ok d
  | none => .error .tooLarge

/-- Integers add exactly, texts are joined, and a fractional number makes the sum fractional. -/
def add : Value → Value → Except Fault Value
  | .text a, .text b => .ok (.text (a ++ b))
  | .real a, .real b => .ok (.real (a.add b))
  | .real a, b =>
    match b.toInt? with
    | some n => do return .real (a.add (← toDouble n))
    | none => .error .notAddable
  | a, .real b =>
    match a.toInt? with
    | some n => do return .real ((← toDouble n).add b)
    | none => .error .notAddable
  | a, b =>
    match a.toInt?, b.toInt? with
    | some m, some n => .ok (.int (m + n))
    | _, _ => .error .notAddable

def listing : Value → Except Fault String
  | .null => .ok "None"
  | .bool b => .ok (if b then "True" else "False")
  | .int n => decimalText n
  | .real d => .ok d.text
  | .text s => .ok (Text.listed s)

/-- The value in a script: a fractional number that is whole is written as an integer. -/
def script : Value → Except Fault String
  | .text s => .ok (Text.Ascii.encode s)
  | .real d =>
    match d.toInt? with
    | some n => decimalText n
    | none => .ok d.text
  | v => v.listing

end Value

def Value.ofNumeral (text : String) : Except Fault Value :=
  if text.toList.contains '.' then
    match Numeral.readReal text with
    | .ok d => .ok (.real d)
    | .error e => .error (.numeral e)
  else
    match Numeral.readInt text with
    | .ok n => .ok (.int n)
    | .error e => .error (.numeral e)

end StructLang
