import StructLang.Number.Double
import StructLang.Text.Blank
import StructLang.Text.Digit
import StructLang.Text.Listed

namespace StructLang

inductive NumeralError where
  | tooManyDigits (count : Nat)
  | badInteger (text : String)
  | badReal (text : String)
  deriving DecidableEq, Repr

namespace Numeral

abbrev digitLimit : Nat := 4300

/-- White space that may surround a number: all but the information separators. -/
def isEdge (c : Char) : Bool := Text.isBlank c && !(0x1C ≤ c.toNat && c.toNat ≤ 0x1F)

def joinDigits (afterDigit : Bool) : List Char → Option (List Char)
  | [] => some []
  | c :: s =>
    if c = '_' then
      -- it must stand between two digits
      match s with
      | d :: _ => if afterDigit && Text.isDecimal d then joinDigits false s else none
      | [] => none
    else (c :: ·) <$> joinDigits (Text.isDecimal c) s

def takeSign : List Char → Bool × List Char
  | '-' :: s => (true, s)
  | '+' :: s => (false, s)
  | s => (false, s)

/-- A run of digits is too long before what follows it is wrong. -/
def readInt (text : String) : Except NumeralError Int :=
  let (negative, s) := takeSign (text.toList.dropWhile isEdge)
  let inRun (c : Char) : Bool := Text.isDecimal c || c == '_'
  match joinDigits false (s.takeWhile inRun) with
  | none => .error (.badInteger text)
  | some digits =>
    if digitLimit < digits.length then .error (.tooManyDigits digits.length)
    else if digits.isEmpty || !(s.dropWhile inRun).all isEdge then .error (.badInteger text)
    else
      let n : Int := Text.digitsValue digits
      .ok (if negative then -n else n)

def readExponent : List Char → Option Int
  | [] => some 0
  | c :: s =>
    let (negative, digits) := takeSign s
    if (c = 'e' ∨ c = 'E') ∧ digits ≠ [] ∧ digits.all Text.isDecimal then
      let n : Int := Text.digitsValue digits
      some (if negative then -n else n)
    else none

def readDecimal (negative : Bool) (s : List Char) : Option Double :=
  let whole := s.takeWhile Text.isDecimal
  let rest := s.dropWhile Text.isDecimal
  let (part, rest) := match rest with
    | '.' :: r => (r.takeWhile Text.isDecimal, r.dropWhile Text.isDecimal)
    | r => ([], r)
  if whole.isEmpty && part.isEmpty then none
  else (readExponent rest).map fun e =>
    .ofDecimal negative (Text.digitsValue (whole ++ part)) (e - part.length)

def readUnsigned (negative : Bool) (s : List Char) : Option Double :=
  let word := String.ofList (s.map Char.toLower)
  if word = "inf" ∨ word = "infinity" then some (.infinite negative)
  else if word = "nan" then some .nan
  else readDecimal negative s

def readReal (text : String) : Except NumeralError Double :=
  let trimmed := (joinDigits false text.toList).map fun s =>
    ((s.dropWhile isEdge).reverse.dropWhile isEdge).reverse
  match trimmed.bind fun s => readUnsigned (takeSign s).1 (takeSign s).2 with
  | some d => .ok d
  | none => .error (.badReal text)

end Numeral

end StructLang
