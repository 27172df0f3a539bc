/-!
Double-precision numbers, with exact arithmetic and one rounding at the end.

The finite magnitudes are counted from zero in increasing order; the place of a magnitude in that
order is its rank. Rank `r` is `mantissa r * 2 ^ scale r` units of `2 ^ -1074`, so every finite
number is a whole number of units.
-/

namespace StructLang

namespace Double

abbrev rankCount : Nat := 2047 * Nat.pow 2 52

def mantissa (rank : Nat) : Nat :=
  if rank < Nat.pow 2 52 then rank else Nat.pow 2 52 + rank % Nat.pow 2 52

def scale (rank : Nat) : Nat := rank / Nat.pow 2 52 - 1

/-- The magnitude in units of `2 ^ -1074`. -/
def units (rank : Nat) : Nat := mantissa rank * Nat.pow 2 (scale rank)

abbrev one : Nat := Nat.pow 2 1074

def roundDiv (n d : Nat) : Nat :=
  if 2 * (n % d) < d then n / d
  else if d < 2 * (n % d) then n / d + 1
  else n / d + n / d % 2

/-- The rank nearest to `n / d` units. It may lie past the last finite one. -/
def rankUnits (n d : Nat) : Nat :=
  let shift := Nat.log2 (n / d) - 52
  shift * Nat.pow 2 52 + roundDiv n (d * Nat.pow 2 shift)

def rankRatio (n d : Nat) : Nat := rankUnits (n * one) d

def rankDecimal (d : Nat) (e : Int) : Nat :=
  if 0 ≤ e then rankRatio (d * Nat.pow 10 e.toNat) 1 else rankRatio d (Nat.pow 10 (-e).toNat)

end Double

inductive Double where
  | finite (negative : Bool) (rank : Fin Double.rankCount)
  | infinite (negative : Bool)
  | nan
  deriving DecidableEq

namespace Double

def zero (negative : Bool) : Double := .finite negative ⟨0, by decide⟩

def ofRank (negative : Bool) (rank : Nat) : Double :=
  if h : rank < rankCount then .finite negative ⟨rank, h⟩ else .infinite negative

def ofInt? (n : Int) : Option Double :=
  let rank := rankRatio n.natAbs 1
  if h : rank < rankCount then some (.finite (n < 0) ⟨rank, h⟩) else none

/-- The nearest number to `d * 10 ^ e`, with a sign. Powers of ten that lead far out of the range
are not computed. -/
def ofDecimal (negative : Bool) (d : Nat) (e : Int) : Double :=
  let point : Int := (Nat.toDigits 10 d).length + e
  if d = 0 ∨ point < -400 then zero negative
  else if 400 < point then .infinite negative
  else ofRank negative (rankDecimal d e)

def signedUnits (negative : Bool) (rank : Nat) : Int :=
  if negative then -(units rank : Int) else units rank

def add : Double → Double → Double
  | .nan, _ | _, .nan => .nan
  | .infinite a, .infinite b => if a = b then .infinite a else .nan
  | .infinite a, .finite _ _ | .finite _ _, .infinite a => .infinite a
  | .finite a r, .finite b s =>
    let sum := signedUnits a r + signedUnits b s
    if sum = 0 then zero (a && b) else ofRank (sum < 0) (rankUnits sum.natAbs 1)

def toInt? : Double → Option Int
  | .finite negative rank =>
    if units rank % one = 0 then
      some (if negative then -(units rank / one : Nat) else (units rank / one : Nat))
    else none
  | _ => none

end Double

end StructLang
