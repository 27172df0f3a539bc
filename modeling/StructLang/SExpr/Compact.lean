import StructLang.SExpr

namespace StructLang.SExpr

def stringEscape (c : Char) : List Char :=
  if c = '"' ∨ c = '\\' then ['\\', c]
  else if c = '\n' then ['\\', 'n']
  else if c = '\r' then ['\\', 'r']
  else if c = '\t' then ['\\', 't']
  else if c = '\x08' then ['\\', 'b']
  else if c = '\x0c' then ['\\', 'f']
  else [c]

def quote (s : String) : String :=
  String.ofList ('"' :: s.toList.flatMap stringEscape ++ ['"'])

def symbolEscape (c : Char) : List Char :=
  if c ∈ ['\\', '\'', '\x60', '"', '(', ')', '[', ']', ' ', ',', '?', ';', '#'] then ['\\', c]
  else [c]

def escapeSymbol (s : String) : String := String.ofList (s.toList.flatMap symbolEscape)

def compactAtom : Value → Except Fault String
  | .null | .bool false => .ok "()"
  | .bool true => .ok "t"
  | .text s => .ok (quote s)
  | v => v.listing

mutual

def compact : Writer
  | .atom v => compactAtom v
  | .symbol s => .ok (escapeSymbol s)
  | .list items => do return parenthesize (← compactAll items)

def compactAll : List SExpr → Except Fault (List String)
  | [] => .ok []
  | e :: es => do return (← compact e) :: (← compactAll es)

end

end StructLang.SExpr
