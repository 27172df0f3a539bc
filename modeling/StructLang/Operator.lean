namespace StructLang

inductive Operator where
  | or | and | eq | ne | lt | gt | le | ge | add | sub | mul | div
  deriving DecidableEq, Repr

namespace Operator

def all : List Operator := [or, and, eq, ne, lt, gt, le, ge, add, sub, mul, div]

def symbol : Operator → String
  | or => "||"
  | and => "&&"
  | eq => "=="
  | ne => "!="
  | lt => "<"
  | gt => ">"
  | le => "<="
  | ge => ">="
  | add => "+"
  | sub => "-"
  | mul => "*"
  | div => "/"

def ofSymbol? (s : String) : Option Operator := all.find? fun op => op.symbol == s

def level : Operator → Nat
  | or => 1
  | and => 2
  | eq | ne => 3
  | lt | gt | le | ge => 4
  | add | sub => 5
  | mul | div => 6

def title : Operator → String
  | or => "OR"
  | and => "AND"
  | eq => "EQ"
  | ne => "NE"
  | lt => "LT"
  | gt => "GT"
  | le => "LE"
  | ge => "GE"
  | add => "ADD"
  | sub => "SUB"
  | mul => "MUL"
  | div => "DIV"

@[simp] theorem ofSymbol?_symbol (op : Operator) : ofSymbol? op.symbol = some op := by
  cases op <;> decide

end Operator

end StructLang
