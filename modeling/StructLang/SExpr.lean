import StructLang.Value

namespace StructLang

inductive SExpr where
  | atom (value : Value)
  | symbol (name : String)
  | list (items : List SExpr)

namespace SExpr

abbrev Writer := SExpr → Except Fault String

def parenthesize (parts : List String) : String := "(" ++ " ".intercalate parts ++ ")"

structure Layout where
  pad : String := "  "
  width : Int := 100

def Layout.indent (l : Layout) (level : Int) : String :=
  String.join (List.replicate level.toNat l.pad)

/-- One line if the parts fit on it and none of them is broken; else a line for each part after the
first and one for the closing parenthesis. -/
def Layout.arrange (l : Layout) (level : Int) : List String → String
  | [] => "()"
  | part :: parts =>
    let oneLine := parenthesize (part :: parts)
    if oneLine.length ≤ l.width ∧ ¬oneLine.toList.contains '\n' then oneLine
    else
      let rest := "\n".intercalate (parts.map (l.indent (level + 1) ++ ·))
      "(" ++ part ++ (if rest = "" then "" else "\n" ++ rest) ++ "\n" ++ l.indent level ++ ")"

section

variable (w : Writer)

def prettyAtom : Value → Except Fault String
  | .null => .ok "()"
  | .bool b => .ok (if b then "true" else "false")
  | .text s => w (.atom (.text s))
  | v => v.listing

mutual

def pretty (l : Layout) (level : Int) : SExpr → Except Fault String
  | .atom v => prettyAtom w v
  | .symbol s => .ok s
  | .list items => do return l.arrange level (← prettyAll l (level + 1) items)

def prettyAll (l : Layout) (level : Int) : List SExpr → Except Fault (List String)
  | [] => .ok []
  | e :: es => do return (← e.pretty l level) :: (← prettyAll l level es)

end

end

end SExpr

end StructLang
