import StructLang.Fault
import StructLang.Library
import StructLang.Text.Blank
import StructLang.Text.Digit
import StructLang.Text.Word
import StructLang.Token
import StructLang.Ty.Written

/-!
From a source text to its tokens. At each place the rules are tried in order and the first that
matches wins, so a keyword is never read as an identifier that begins like it. A rule gives the
length of its match.
-/

namespace StructLang.Token

abbrev Rule := List Char → Option Nat

namespace Rule

def lineComment : Rule
  | '/' :: '/' :: s => some (2 + (s.takeWhile (· ≠ '\n')).length)
  | _ => none

def closing : List Char → Option Nat
  | [] => none
  | '*' :: '/' :: _ => some 2
  | _ :: s => (closing s).map (· + 1)

def blockComment : Rule
  | '/' :: '*' :: s => (closing s).map (· + 2)
  | _ => none

def keyword : Rule := fun s =>
  Library.keywords.findSome? fun k =>
    if k.toList.isPrefixOf s && Text.atWordEnd (s.drop k.length) then some k.length else none

def isNameStart (c : Char) : Bool := c.isAlpha || c == '_'

def isNamePart (c : Char) : Bool := c.isAlphanum || c == '_'

def identifier : Rule
  | c :: s => if isNameStart c then some (1 + (s.takeWhile isNamePart).length) else none
  | [] => none

def unsigned : Rule := fun s =>
  match (s.takeWhile Text.isDecimal).length, s.dropWhile Text.isDecimal with
  | 0, _ => none
  | n, '.' :: t =>
    match (t.takeWhile Text.isDecimal).length with
    | 0 => some n
    | m => some (n + 1 + m)
  | n, _ => some n

def number : Rule
  | '-' :: s => (unsigned s).map (· + 1)
  | s => unsigned s

def quoted (quote : Char) (s : List Char) : Option Nat :=
  let n := (s.takeWhile (· ≠ quote)).length
  if n < s.length then some (n + 2) else none

def string : Rule
  | '"' :: s => quoted '"' s
  | '\'' :: s => quoted '\'' s
  | _ => none

def symbols : List Char :=
  ['(', ')', '[', ']', '\x7b', '\x7d', ':', ',', ';', '.']

def symbol : Rule
  | '=' :: '=' :: _ => none
  | c :: _ => if c = '=' ∨ c ∈ symbols then some 1 else none
  | [] => none

def longOperator : Rule
  | a :: b :: _ =>
    if (a, b) ∈ [('&', '&'), ('|', '|'), ('=', '='), ('!', '='), ('<', '='), ('>', '=')] then some 2
    else none
  | _ => none

def shortOperator : Rule
  | c :: _ => if c ∈ ['+', '-', '*', '/', '<', '>', '!', '|'] then some 1 else none
  | [] => none

def blank : Rule := fun s => some (s.takeWhile Text.isBlank).length

end Rule

def rules : List (Option TokenKind × Rule) := [
  (none, Rule.lineComment),
  (none, Rule.blockComment),
  (some .keyword, Rule.keyword),
  (some .type, Ty.literalLength),
  (some .identifier, Rule.identifier),
  (some .number, Rule.number),
  (some .string, Rule.string),
  (some .symbol, Rule.symbol),
  (some .operator, Rule.longOperator),
  (some .operator, Rule.shortOperator),
  (none, Rule.blank)]

def tryRule (s : List Char) (rule : Option TokenKind × Rule) : Option (Option TokenKind × Nat) :=
  (rule.2 s).bind fun n => if 0 < n then some (rule.1, n) else none

def firstMatch (s : List Char) : Option (Option TokenKind × Nat) := rules.findSome? (tryRule s)

theorem firstMatch_pos {s : List Char} {kind : Option TokenKind} {n : Nat}
    (h : firstMatch s = some (kind, n)) : 0 < n := by
  obtain ⟨rule, _, hr⟩ := List.exists_of_findSome?_eq_some h
  simp only [tryRule, Option.bind_eq_some_iff] at hr
  obtain ⟨m, _, hm⟩ := hr
  split at hm
  · simp only [Option.some.injEq, Prod.mk.injEq] at hm
    omega
  · cases hm

structure Cursor where
  offset : Nat := 0
  line : Nat := 1
  lineStart : Nat := 0
  deriving DecidableEq, Repr

namespace Cursor

def step (c : Cursor) (ch : Char) : Cursor :=
  if ch = '\n' then ⟨c.offset + 1, c.line + 1, c.offset + 1⟩
  else { c with offset := c.offset + 1 }

def advance (c : Cursor) (s : List Char) : Cursor := s.foldl step c

def column (c : Cursor) : Nat := c.offset - c.lineStart + 1

end Cursor

def scanFrom (file : String) (c : Cursor) (s : List Char) : Except Failure (List Token × Cursor) :=
  match s with
  | [] => .ok ([], c)
  | ch :: rest =>
    match _h : firstMatch (ch :: rest) with
    | none =>
      .error ⟨.strayCharacter c.offset (String.singleton ch), some ⟨file, c.line, c.column, 0, 0⟩⟩
    | some (kind, n) => do
      let text := (ch :: rest).take n
      let (tokens, last) ← scanFrom file (c.advance text) ((ch :: rest).drop n)
      match kind with
      | none => return (tokens, last)
      | some kind => return (⟨kind, String.ofList text, c.line, c.column⟩ :: tokens, last)
termination_by s.length
decreasing_by
  have := firstMatch_pos _h
  simp only [List.length_drop, List.length_cons]
  omega

/-- A type after a closing parenthesis and a colon becomes one token with the colon. -/
def mergeReturnTypes : List Token → List Token
  | a :: b :: t :: rest =>
    if a.isSymbol ")" && b.isSymbol ":" && (t.kind == .type || t.kind == .identifier) then
      a :: { t with kind := .returnType } :: mergeReturnTypes rest
    else a :: mergeReturnTypes (b :: t :: rest)
  | ts => ts

def scan (file : String) (source : String) : Except Failure (List Token) := do
  let (tokens, last) ← scanFrom file {} source.toList
  return mergeReturnTypes tokens ++ [⟨.eof, "", last.line, last.column⟩]

end StructLang.Token
