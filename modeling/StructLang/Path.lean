import StructLang.Text.Split

namespace StructLang

inductive Root where
  | none | slash
  | twoSlashes
  deriving DecidableEq, Repr

def Root.text : Root → String
  | none => ""
  | slash => "/"
  | twoSlashes => "//"

structure Path where
  root : Root := .none
  parts : List String
  deriving DecidableEq, Repr

namespace Path

def rootOf (s : List Char) : Root :=
  match (s.takeWhile (· = '/')).length with
  | 0 => .none
  | 2 => .twoSlashes
  | _ => .slash

def isPart (s : List Char) : Bool := s ≠ [] && s ≠ ['.']

def ofText (s : String) : Path :=
  ⟨rootOf s.toList, ((Text.splitAt '/' s.toList).filter isPart).map String.ofList⟩

def text (p : Path) : String :=
  match p.root, p.parts with
  | .none, [] => "."
  | root, parts => root.text ++ "/".intercalate parts

def name (p : Path) : String := p.parts.getLast?.getD ""

def parent (p : Path) : Path := { p with parts := p.parts.dropLast }

def child (p : Path) (name : String) : Path := { p with parts := p.parts ++ [name] }

def cutName (name : List Char) : List Char × List Char :=
  match name.reverse.span (· ≠ '.') with
  | (after, '.' :: before) =>
    -- a dot at either end of a name belongs to it
    if after = [] ∨ before = [] then (name, []) else (before.reverse, '.' :: after.reverse)
  | _ => (name, [])

def stem (p : Path) : String := String.ofList (cutName p.name.toList).1

def suffix (p : Path) : String := String.ofList (cutName p.name.toList).2

def isSource (p : Path) : Bool := p.suffix = ".struct"

def scriptPath (p : Path) : Path := (p.parent.child "build").child (p.stem ++ ".js")

end Path

end StructLang
