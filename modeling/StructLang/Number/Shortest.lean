import StructLang.Number.Double

namespace StructLang.Double

def powerLe (k : Int) (u : Nat) : Bool :=
  if 0 ≤ k then Nat.pow 10 k.toNat * one ≤ u else one ≤ u * Nat.pow 10 (-k).toNat

/-- The place of the point before the digits of `u` units: `10 ^ (k - 1) ≤ u < 10 ^ k`. The first
guess comes from the binary logarithm and misses by one at most. -/
def pointOf (u : Nat) : Int :=
  let guess : Int := ((Nat.log2 u : Int) - 1074) * 30103 / 100000 + 1
  if !powerLe (guess - 1) u then guess - 1
  else if powerLe guess u then guess + 1
  else guess

/-- The better of the two neighbours of the number that have their last digit at `10 ^ e`, if one of
them reads back. -/
def neighbour? (rank : Nat) (e : Int) : Option (Nat × Int) :=
  let u := units rank
  let n := if e ≤ 0 then u * Nat.pow 10 (-e).toNat else u
  let d := if e ≤ 0 then one else one * Nat.pow 10 e.toNat
  let low := n / d
  let lowFits := rankDecimal low e = rank
  let highFits := rankDecimal (low + 1) e = rank
  let lowNearer := 2 * (n % d) < d ∨ (2 * (n % d) = d ∧ low % 2 = 0)
  if lowFits ∧ (lowNearer ∨ ¬highFits) then some (low, e)
  else if highFits then some (low + 1, e)
  else none

def exactDecimal (rank : Nat) : Nat × Int := (units rank * Nat.pow 5 1074, -1074)

def shortest (rank : Nat) : Nat × Int :=
  let point := pointOf (units rank)
  ((List.range 17).findSome? fun (count : Nat) => neighbour? rank (point - (count + 1))).getD
    (exactDecimal rank)

def zeros (n : Int) : List Char := List.replicate n.toNat '0'

def positional (ds : List Char) (point : Int) : List Char :=
  if point ≤ 0 then '0' :: '.' :: zeros (-point) ++ ds
  else if ds.length ≤ point then ds ++ zeros (point - ds.length) ++ ['.', '0']
  else ds.take point.toNat ++ '.' :: ds.drop point.toNat

def scientific (ds : List Char) (point : Int) : List Char :=
  let e := point - 1
  let digits := Nat.toDigits 10 e.natAbs
  ds.take 1 ++ (if ds.length ≤ 1 then [] else '.' :: ds.drop 1) ++
    ['e', if e < 0 then '-' else '+'] ++ zeros (2 - digits.length) ++ digits

/-- Exponents from `-4` to `15` are not written. -/
def layout (ds : List Char) (point : Int) : List Char :=
  if -4 < point ∧ point ≤ 16 then positional ds point else scientific ds point

def decimalChars (d : Nat) (e : Int) : List Char :=
  let ds := Nat.toDigits 10 d
  layout (ds.reverse.dropWhile (· = '0')).reverse (ds.length + e)

def magnitudeChars (rank : Nat) : List Char :=
  if rank = 0 then ['0', '.', '0']
  else decimalChars (shortest rank).1 (shortest rank).2

def chars : Double → List Char
  | .finite negative rank => (if negative then ['-'] else []) ++ magnitudeChars rank
  | .infinite negative => (if negative then ['-'] else []) ++ ['i', 'n', 'f']
  | .nan => ['n', 'a', 'n']

def text (d : Double) : String := String.ofList d.chars

end StructLang.Double
