import StructLang.Span
import StructLang.Text.Listed

namespace StructLang

inductive TokenKind where
  | keyword | identifier | type | number | string | symbol | operator
  | returnType
  | eof
  deriving DecidableEq, Repr

def TokenKind.title : TokenKind → String
  | keyword => "KEYWORD"
  | identifier => "IDENTIFIER"
  | type => "TYPE"
  | number => "NUMBER_LITERAL"
  | string => "STRING_LITERAL"
  | symbol => "SYMBOL"
  | operator => "OPERATOR"
  | returnType => "RETURN_TYPE"
  | eof => "EOF"

structure Token where
  kind : TokenKind
  text : String
  line : Int
  column : Int := 1
  deriving DecidableEq, Repr

namespace Token

def isSymbol (t : Token) (s : String) : Bool := t.kind == .symbol && t.text == s

def isName (t : Token) : Bool := t.kind == .identifier || t.kind == .keyword

def isReturn (t : Token) : Bool := t.kind == .keyword && t.text == "return"

def describe (t : Token) : String :=
  if t.kind = .eof then "end of input" else t.kind.title ++ " '" ++ t.text ++ "'"

def span (file : String) (t : Token) : Span where
  file
  line := t.line
  column := t.column
  endLine := t.line
  endColumn := t.column + max t.text.length 1

def listing (t : Token) : String :=
  s!"Token({t.kind.title}, {Text.listed t.text}, line={t.line})"

end Token

end StructLang
