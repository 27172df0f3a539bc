import StructLang.Text.Hex
import StructLang.Text.Printable

/-!
The quoted form of a text in listings and messages. Single quotes are used unless the text has a
single quote and no double quote. The chosen quote, the backslash, line ends and tabs are escaped,
and so is every character that is not printable; all other characters stand for themselves.
-/

namespace StructLang.Text

def listingQuote (s : List Char) : Char :=
  if s.contains '\'' && !s.contains '"' then '"' else '\''

def hiddenEscape (c : Char) : List Char :=
  if c.toNat < 0x100 then '\\' :: 'x' :: hex 2 c.toNat
  else if c.toNat < 0x10000 then '\\' :: 'u' :: hex 4 c.toNat
  else '\\' :: 'U' :: hex 8 c.toNat

def listingEscape (quote c : Char) : List Char :=
  if c = quote ∨ c = '\\' then ['\\', c]
  else if c = '\n' then ['\\', 'n']
  else if c = '\r' then ['\\', 'r']
  else if c = '\t' then ['\\', 't']
  else if isPrintable c then [c]
  else hiddenEscape c

def listedChars (s : List Char) : List Char :=
  let quote := listingQuote s
  quote :: s.flatMap (listingEscape quote) ++ [quote]

def listed (s : String) : String := String.ofList (listedChars s.toList)

def listedAll (xs : List String) : String :=
  "[" ++ ", ".intercalate (xs.map listed) ++ "]"

end StructLang.Text
