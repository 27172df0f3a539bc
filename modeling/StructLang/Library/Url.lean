import StructLang.Text.Word

namespace StructLang.Library.Url

def isLetter (c : Char) : Bool :=
  c.isAlpha || c == '\u0130' || c == '\u0131' || c == '\u017f' || c == '\u212a'

def isHostChar (c : Char) : Bool := Text.isWord c || c == '.' || c == '-'

def isPathChar (c : Char) : Bool :=
  Text.isWord c || "-._~:/?#[]@!$&'()*+,;=".toList.contains c

def endsWell : List Char → Bool
  | [] => true
  | c :: s => c == '/' && s.all isPathChar

def domainThenPath (s : List Char) : Bool :=
  [2, 3, 4, 5, 6].any fun n =>
    n ≤ s.length && (s.take n).all isLetter && endsWell (s.drop n)

def hostEndsIn : List Char → Bool
  | [] => false
  | c :: s => (c == '.' && domainThenPath s) || (isHostChar c && hostEndsIn s)

def hostThenDomain : List Char → Bool
  | [] => false
  | c :: s => isHostChar c && hostEndsIn s

def dropLetter (low high : Char) : List Char → Option (List Char)
  | [] => none
  | c :: s => if c = low ∨ c = high then some s else none

def dropSecure : List Char → List Char
  | [] => []
  | c :: s => if c = 's' ∨ c = 'S' ∨ c = '\u017f' then s else c :: s

def dropScheme (s : List Char) : Option (List Char) := do
  let s ← dropLetter 'h' 'H' s
  let s ← dropLetter 't' 'T' s
  let s ← dropLetter 't' 'T' s
  let s ← dropLetter 'p' 'P' s
  match dropSecure s with
  | ':' :: '/' :: '/' :: s => some s
  | _ => none

def accepts (text : String) : Bool :=
  hostThenDomain text.toList || (dropScheme text.toList).any hostThenDomain

end StructLang.Library.Url
