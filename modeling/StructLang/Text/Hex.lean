namespace StructLang.Text

def hexDigit (n : Nat) : Char :=
  if n < 10 then Char.ofNat (0x30 + n) else Char.ofNat (0x57 + n)

def hex (width n : Nat) : List Char :=
  match width with
  | 0 => []
  | w + 1 => hexDigit (n / Nat.pow 16 w % 16) :: hex w n

def hexValue? (c : Char) : Option Nat :=
  if '0' ≤ c ∧ c ≤ '9' then some (c.toNat - 0x30)
  else if 'a' ≤ c ∧ c ≤ 'f' then some (c.toNat - 0x57)
  else none

end StructLang.Text
