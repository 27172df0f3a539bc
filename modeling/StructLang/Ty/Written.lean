import StructLang.Text.Blank
import StructLang.Text.Split
import StructLang.Text.Word
import StructLang.Ty.Basic

namespace StructLang.Ty

def primitiveLength (s : List Char) : Option Nat :=
  primitives.findSome? fun p =>
    if p.toList.isPrefixOf s && Text.atWordEnd (s.drop p.length) then some p.length else none

def memberLength (s : List Char) : Option Nat :=
  (primitiveLength s).map fun n => if ['[', ']'].isPrefixOf (s.drop n) then n + 2 else n

def furtherLength : List Char → Nat
  | '|' :: s =>
    match memberLength s with
    | some n => 1 + n + furtherLength (s.drop n)
    | none => 0
  | _ => 0
termination_by s => s.length
decreasing_by
  simp only [List.length_drop, List.length_cons]
  omega

def literalLength (s : List Char) : Option Nat :=
  (memberLength s).map fun n => n + furtherLength (s.drop n)

def ofMember (s : List Char) : Ty :=
  let s := Text.trimBlank s
  if ['[', ']'].isSuffixOf s then .array (.prim (String.ofList (s.take (s.length - 2))))
  else .prim (String.ofList s)

def ofLiteral (text : String) : Ty :=
  match (Text.splitAt '|' text.toList).map ofMember with
  | [t] => t
  | ts => .union ts

def ofText (text : String) : Ty :=
  if literalLength text.toList = some text.length then ofLiteral text else .alias text

end StructLang.Ty
