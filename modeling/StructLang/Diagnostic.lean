import StructLang.Fault
import StructLang.Table
import StructLang.Text.Split

namespace StructLang

inductive Ink where
  | none | bold | red | blue | cyan
  deriving DecidableEq, Repr

def Ink.codes : Ink → String
  | none => ""
  | bold => "\x1b[1m"
  | red => "\x1b[1m\x1b[31m"
  | blue => "\x1b[1m\x1b[34m"
  | cyan => "\x1b[1m\x1b[36m"

structure Piece where
  ink : Ink
  text : String
  deriving DecidableEq, Repr

def Piece.render (color : Bool) (p : Piece) : String :=
  if color ∧ p.ink ≠ .none then p.ink.codes ++ p.text ++ "\x1b[0m" else p.text

abbrev Page := List (List Piece)

def Page.render (color : Bool) (page : Page) : String :=
  "\n".intercalate (page.map fun line => String.join (line.map (Piece.render color)))

structure Diagnostic where
  message : String
  loc : Option Span := .none
  code : Option String := .none
  help : Option String := .none
  note : Option String := .none
  label : Option String := .none
  deriving Repr

namespace Diagnostic

def ofFailure (f : Failure) : Diagnostic where
  message := f.message
  loc := f.loc
  code := some f.code
  help := f.cause.help
  label := f.cause.label

def headline (kind message : String) : List Piece := [⟨.red, kind⟩, ⟨.bold, ": " ++ message⟩]

def blanks (n : Nat) : String := String.ofList (List.replicate n ' ')

def remarks (d : Diagnostic) (gutter : Nat) : Page :=
  let remark (title text : String) : List Piece :=
    [⟨.cyan, blanks (gutter + 1) ++ "= "⟩, ⟨.bold, title ++ ": "⟩, ⟨.none, text⟩]
  let lines := ((given d.help).map (remark "help")).toList ++
    ((given d.note).map (remark "note")).toList
  if lines.isEmpty then [] else [⟨.blue, blanks (gutter + 1) ++ "|"⟩] :: lines

def breaksSpan (c : Char) : Bool := c ∈ [' ', '\t', ';', ',', '(', ')', ']', '\x7d']

def guessSpan (line : List Char) (start : Nat) : Nat :=
  max 1 ((line.drop start).takeWhile (!breaksSpan ·)).length

/-- An end counts if it lies after the start on the same line. -/
def spanLength (l : Span) (line : List Char) (start : Nat) : Nat :=
  if l.column < l.endColumn ∧ (l.endLine = 0 ∨ l.endLine = l.line) then
    max 1 (l.endColumn - l.column).toNat
  else guessSpan line start

def sourceLine (source : String) (line : Int) : List Char :=
  if line < 1 then [] else ((Text.splitAt '\n' source.toList)[(line - 1).toNat]?).getD []

def snippet (d : Diagnostic) (l : Span) (source : String) : Page :=
  let number := toString l.line
  let gutter := number.length
  let line := sourceLine source l.line
  let start := (max l.column 1 - 1).toNat
  let carets := String.ofList (List.replicate (spanLength l line start) '^')
  let label := ((given d.label).map (" " ++ ·)).getD ""
  [[⟨.blue, blanks gutter ++ "--> "⟩, ⟨.none, l.text⟩],
    [⟨.blue, blanks (gutter + 1) ++ "|"⟩],
    [⟨.blue, number ++ " | "⟩, ⟨.none, String.ofList line⟩],
    [⟨.blue, blanks (gutter + 1) ++ "| "⟩, ⟨.red, blanks start ++ carets ++ label⟩]] ++
  d.remarks gutter

def page (files : Table String) (d : Diagnostic) : Page :=
  let code := ((given d.code).map fun c => "[" ++ c ++ "]").getD ""
  headline ("error" ++ code) d.message ::
    match d.loc with
    | .none => [⟨.blue, " --> "⟩, ⟨.none, "<unknown location>"⟩] :: d.remarks 1
    | some l =>
      match files.get? l.file with
      | .none => [⟨.blue, " --> "⟩, ⟨.none, l.text⟩] :: d.remarks 1
      | some source => d.snippet l source

end Diagnostic

structure Reporter where
  files : Table String := []
  errors : List Diagnostic := []
  deriving Repr

namespace Reporter

def report (r : Reporter) (d : Diagnostic) : Reporter := { r with errors := r.errors ++ [d] }

def render (r : Reporter) (color : Bool) (d : Diagnostic) : String := (d.page r.files).render color

def summary (r : Reporter) : Page :=
  let plural := if r.errors.length = 1 then "" else "s"
  [Diagnostic.headline "error" s!"aborting due to {r.errors.length} previous error{plural}"]

def renderAll (r : Reporter) (color : Bool) : String :=
  "\n\n".intercalate (r.errors.map (r.render color) ++ [r.summary.render color])

end Reporter

/-- Colour is used unless the environment says no: by any text in `NO_COLOR`, or by a word for no in
`STRUCTURA_COLOR`. -/
def useColor (env : Table String) : Bool :=
  let word := ((env.get? "STRUCTURA_COLOR").getD "").map Char.toLower
  (given (env.get? "NO_COLOR")).isNone && word ∉ ["0", "false", "no", "never"]

end StructLang
