import StructLang.Text.Hex

namespace StructLang.Text.Utf8

inductive Fault where
  | badStart
  | badContinuation
  | cutShort
  deriving DecidableEq, Repr

structure BadBytes where
  start : Nat
  count : Nat
  first : Nat
  fault : Fault
  deriving DecidableEq, Repr

def Fault.reason : Fault → String
  | .badStart => "invalid start byte"
  | .badContinuation => "invalid continuation byte"
  | .cutShort => "unexpected end of data"

def BadBytes.message (e : BadBytes) : String :=
  let what :=
    if e.count = 1 then
      s!"byte 0x{String.ofList (hex 2 e.first)} in position {e.start}"
    else
      s!"bytes in position {e.start}-{e.start + e.count - 1}"
  "'utf-8' codec can't decode " ++ what ++ ": " ++ e.fault.reason

def isTail (b : Nat) : Bool := 0x80 ≤ b && b < 0xC0

/-- The second byte of a longer character is limited by the first, so that every character has one
spelling and surrogates have none. -/
def mayFollow (first second : Nat) : Bool :=
  isTail second &&
    (if first = 0xE0 then 0xA0 ≤ second
     else if first = 0xED then second < 0xA0
     else if first = 0xF0 then 0x90 ≤ second
     else if first = 0xF4 then second < 0x90
     else true)

def decodeFrom (pos : Nat) : List Nat → Except BadBytes (List Char)
  | [] => .ok []
  | a :: rest =>
    let bad (count : Nat) (fault : Fault) : Except BadBytes (List Char) :=
      .error ⟨pos, count, a, fault⟩
    if a < 0x80 then do
      return Char.ofNat a :: (← decodeFrom (pos + 1) rest)
    else if a < 0xC2 ∨ 0xF5 ≤ a then bad 1 .badStart
    else match rest with
      | [] => bad 1 .cutShort
      | b :: rest =>
        if !mayFollow a b then bad 1 .badContinuation
        else if a < 0xE0 then do
          return Char.ofNat (a % 0x20 * 0x40 + b % 0x40) :: (← decodeFrom (pos + 2) rest)
        else match rest with
          | [] => bad 2 .cutShort
          | c :: rest =>
            if !isTail c then bad 2 .badContinuation
            else if a < 0xF0 then do
              return Char.ofNat (a % 0x10 * 0x1000 + b % 0x40 * 0x40 + c % 0x40) ::
                (← decodeFrom (pos + 3) rest)
            else match rest with
              | [] => bad 3 .cutShort
              | d :: rest =>
                if !isTail d then bad 3 .badContinuation
                else do
                  return Char.ofNat
                      (a % 8 * 0x40000 + b % 0x40 * 0x1000 + c % 0x40 * 0x40 + d % 0x40) ::
                    (← decodeFrom (pos + 4) rest)

def oneLineEnd : List Char → List Char
  | [] => []
  | '\r' :: '\n' :: s => '\n' :: oneLineEnd s
  | c :: s => (if c = '\r' then '\n' else c) :: oneLineEnd s

def decode (bytes : List Nat) : Except BadBytes String := do
  return String.ofList (oneLineEnd (← decodeFrom 0 bytes))

end StructLang.Text.Utf8
