import StructLang.Fault
import StructLang.Library
import StructLang.Token
import StructLang.Tree.Basic
import StructLang.Ty.Written

/-!
From tokens to a tree, by recursive descent with the operators by precedence. Every part of the
grammar returns the tokens after it with a proof that they are fewer, so the descent ends. The first
token that does not fit ends it too, with what was expected there.
-/

namespace StructLang

structure Parsed (α : Type) (ts : List Token) where
  value : α
  rest : List Token
  shorter : rest.length < ts.length

structure Continued (α : Type) (ts : List Token) where
  value : α
  rest : List Token
  noLonger : rest.length ≤ ts.length

namespace Parse

structure Frame where
  file : String
  eof : Token

namespace Frame

variable {α : Type} (fr : Frame)

def place (t : Token) : Option Span := some (t.span fr.file)

def refuse (expected : String) (t : Token) : Except Failure α :=
  .error ⟨.unexpected expected t.describe, fr.place t⟩

def stop (expected : String) (ts : List Token) : Except Failure α :=
  fr.refuse expected (ts.headD fr.eof)

end Frame

def nextIs (s : String) : List Token → Bool
  | [] => false
  | t :: _ => t.isSymbol s

section

variable (fr : Frame)

def expect (test : Token → Bool) (expected : String) :
    (ts : List Token) → Except Failure (Parsed Token ts)
  | [] => fr.stop expected []
  | t :: ts => if test t then .ok ⟨t, ts, by simp⟩ else fr.stop expected (t :: ts)

def symbol (s : String) (ts : List Token) : Except Failure (Parsed Token ts) :=
  expect fr (·.isSymbol s) ("'" ++ s ++ "'") ts

def nameToken (ts : List Token) : Except Failure (Parsed Token ts) :=
  expect fr (·.isName) "identifier" ts

def ofKind (kind : TokenKind) (ts : List Token) : Except Failure (Parsed Token ts) :=
  expect fr (·.kind == kind) kind.title ts

mutual

def binary (min : Nat) (ts : List Token) : Except Failure (Parsed Tree ts) := do
  let ⟨left, us, _⟩ ← operand ts
  let ⟨e, vs, _⟩ ← binaryTail min left us
  return ⟨e, vs, by omega⟩
termination_by (ts.length, 2)

def binaryTail (min : Nat) (left : Tree) (ts : List Token) :
    Except Failure (Continued Tree ts) :=
  match ts with
  | [] => .ok ⟨left, [], by simp⟩
  | t :: rest =>
    match if t.kind = .operator then Operator.ofSymbol? t.text else none with
    | none => .ok ⟨left, t :: rest, by simp⟩
    | some op =>
      if op.level < min then .ok ⟨left, t :: rest, by simp⟩
      else do
        let ⟨right, us, _⟩ ← binary (op.level + 1) rest
        let ⟨e, vs, _⟩ ← binaryTail min (.binary op left right (fr.place t)) us
        return ⟨e, vs, by simp; omega⟩
termination_by (ts.length, 0)

def operand (ts : List Token) : Except Failure (Parsed Tree ts) := do
  let ⟨e, us, _⟩ ← primary ts
  let ⟨e, vs, _⟩ ← operandTail e us
  return ⟨e, vs, by omega⟩
termination_by (ts.length, 1)

def operandTail (e : Tree) (ts : List Token) : Except Failure (Continued Tree ts) :=
  match ts with
  | [] => .ok ⟨e, [], by simp⟩
  | t :: rest =>
    if t.isSymbol "." then do
      let ⟨name, us, _⟩ ← nameToken fr rest
      let ⟨e, vs, _⟩ ← operandTail (.member e name.text (fr.place name)) us
      return ⟨e, vs, by simp; omega⟩
    else if t.isSymbol "(" then do
      let ⟨args, us, _⟩ ← arguments rest
      let ⟨_, vs, _⟩ ← symbol fr ")" us
      let ⟨e, ws, _⟩ ← operandTail (.call e args e.loc) vs
      return ⟨e, ws, by simp; omega⟩
    else .ok ⟨e, t :: rest, by simp⟩
termination_by (ts.length, 0)

def primary (ts : List Token) : Except Failure (Parsed Tree ts) :=
  match ts with
  | [] => fr.stop "expression" []
  | t :: rest =>
    if t.kind = .number then .ok ⟨.number t.text (fr.place t), rest, by simp⟩
    else if t.kind = .string then .ok ⟨.string t.text (fr.place t), rest, by simp⟩
    else if t.isName && !t.isReturn then .ok ⟨.name t.text (fr.place t), rest, by simp⟩
    else if t.isSymbol "(" then do
      let ⟨e, us, _⟩ ← binary 0 rest
      let ⟨_, vs, _⟩ ← symbol fr ")" us
      return ⟨e, vs, by simp; omega⟩
    else fr.stop "expression" (t :: rest)
termination_by (ts.length, 0)

def arguments (ts : List Token) : Except Failure (Continued (List Tree) ts) :=
  if nextIs ")" ts then .ok ⟨[], ts, by simp⟩
  else do
    let ⟨e, us, _⟩ ← binary 0 ts
    let ⟨es, vs, _⟩ ← argumentsTail us
    return ⟨e :: es, vs, by omega⟩
termination_by (ts.length, 3)

def argumentsTail (ts : List Token) : Except Failure (Continued (List Tree) ts) :=
  match ts with
  | [] => .ok ⟨[], [], by simp⟩
  | t :: rest =>
    if t.isSymbol "," then do
      let ⟨e, us, _⟩ ← binary 0 rest
      let ⟨es, vs, _⟩ ← argumentsTail us
      return ⟨e :: es, vs, by simp; omega⟩
    else .ok ⟨[], t :: rest, by simp⟩
termination_by (ts.length, 0)

end

def expression (ts : List Token) : Except Failure (Parsed Tree ts) := binary fr 0 ts

def statement (ts : List Token) : Except Failure (Parsed Tree ts) :=
  match ts with
  | [] => fr.stop "expression" []
  | t :: rest =>
    if t.isReturn then do
      let ⟨e, us, _⟩ ← expression fr rest
      let ⟨_, vs, _⟩ ← symbol fr ";" us
      return ⟨.ret e (fr.place t), vs, by simp; omega⟩
    else do
      let ⟨e, us, _⟩ ← expression fr (t :: rest)
      let ⟨_, vs, _⟩ ← symbol fr ";" us
      return ⟨.expr e none (fr.place t), vs, by omega⟩

def bodyTail (ts : List Token) : Except Failure (Parsed (List Tree) ts) :=
  match ts with
  | [] => fr.stop "'\x7d'" []
  | t :: rest =>
    if t.isSymbol "\x7d" then .ok ⟨[], rest, by simp⟩
    else if t.kind = .eof then fr.stop "'\x7d'" (t :: rest)
    else do
      let ⟨s, us, _h⟩ ← statement fr (t :: rest)
      let ⟨body, vs, _⟩ ← bodyTail us
      return ⟨s :: body, vs, by omega⟩
termination_by ts.length
decreasing_by exact _h

def typeName (ts : List Token) : Except Failure (Parsed Ty ts) :=
  match ts with
  | [] => fr.stop "type annotation" []
  | t :: rest =>
    if t.kind = .type then .ok ⟨.ofLiteral t.text, rest, by simp⟩
    else if t.kind = .identifier then .ok ⟨.alias t.text, rest, by simp⟩
    else fr.stop "type annotation" (t :: rest)

def returnType (ts : List Token) : Except Failure (Parsed Ty ts) := do
  let ⟨t, us, h⟩ ← ofKind fr .returnType ts
  return ⟨.ofText t.text, us, h⟩

def parameter (ts : List Token) : Except Failure (Parsed Tree ts) :=
  match ts with
  | t :: colon :: rest =>
    if t.kind = .identifier ∧ colon.isSymbol ":" then do
      let ⟨ty, us, _⟩ ← typeName fr rest
      return ⟨.param t.text ty (fr.place t), us, by simp; omega⟩
    else fr.stop "parameter 'name: type'" (t :: colon :: rest)
  | ts => fr.stop "parameter 'name: type'" ts

def parametersTail (ts : List Token) : Except Failure (Continued (List Tree) ts) :=
  match ts with
  | [] => .ok ⟨[], [], by simp⟩
  | t :: rest =>
    if t.isSymbol "," then do
      let ⟨p, us, _⟩ ← parameter fr rest
      let ⟨ps, vs, _⟩ ← parametersTail us
      return ⟨p :: ps, vs, by simp; omega⟩
    else .ok ⟨[], t :: rest, by simp⟩
termination_by ts.length

def parameters (ts : List Token) : Except Failure (Continued (List Tree) ts) :=
  if nextIs ")" ts then .ok ⟨[], ts, by simp⟩
  else do
    let ⟨p, us, _⟩ ← parameter fr ts
    let ⟨ps, vs, _⟩ ← parametersTail fr us
    return ⟨p :: ps, vs, by omega⟩

def aliasStatement (ts : List Token) : Except Failure (Parsed Tree ts) := do
  let ⟨name, us, _⟩ ← ofKind fr .identifier ts
  let ⟨_, vs, _⟩ ← symbol fr "=" us
  let ⟨ty, ws, _⟩ ← typeName fr vs
  let ⟨_, xs, _⟩ ← symbol fr ";" ws
  return ⟨.alias name.text ty (fr.place name), xs, by omega⟩

/-- A reserved name is refused as soon as a body begins, whatever is in it. -/
def functionStatement (ts : List Token) : Except Failure (Parsed Tree ts) := do
  let ⟨name, us, _⟩ ← nameToken fr ts
  let ⟨_, vs, _⟩ ← symbol fr "(" us
  let ⟨params, ws, _⟩ ← parameters fr vs
  let ⟨_, xs, _⟩ ← symbol fr ")" ws
  let ⟨result, ys, _⟩ ← returnType fr xs
  if nextIs "\x7b" ys then
    if Library.reserved name.text then
      .error ⟨.reservedName name.text none, fr.place name⟩
    else
      let ⟨_, zs, _⟩ ← symbol fr "\x7b" ys
      let ⟨body, rest, _⟩ ← bodyTail fr zs
      return ⟨.define name.text params result body (fr.place name), rest, by omega⟩
  else
    let ⟨_, rest, _⟩ ← symbol fr ";" ys
    return ⟨.declare name.text params result (fr.place name), rest, by omega⟩

def ascription (ts : List Token) : Except Failure (Continued (Option Ty) ts) :=
  if (ts.head?.map Token.kind) = some .returnType then do
    let ⟨ty, us, _⟩ ← returnType fr ts
    return ⟨some ty, us, by omega⟩
  else .ok ⟨none, ts, by simp⟩

def callStatement (ts : List Token) : Except Failure (Parsed Tree ts) := do
  let ⟨name, us, _⟩ ← nameToken fr ts
  let ⟨_, vs, _⟩ ← symbol fr "(" us
  let ⟨args, ws, _⟩ ← arguments fr vs
  let ⟨_, xs, _⟩ ← symbol fr ")" ws
  let ⟨ascribed, ys, _⟩ ← ascription fr xs
  let ⟨_, rest, _⟩ ← symbol fr ";" ys
  let place := fr.place name
  return ⟨.expr (.call (.name name.text place) args place) ascribed place, rest, by omega⟩

/-- After the opening parenthesis, a declaration has its end or a name with a colon. -/
def isDeclaration : List Token → Bool
  | [] => false
  | t :: ts => t.isSymbol ")" || (t.kind == .identifier && nextIs ":" ts)

def topStatement (t : Token) (rest : List Token) : Except Failure (Parsed Tree (t :: rest)) :=
  if nextIs "=" rest then aliasStatement fr (t :: rest)
  else if nextIs "(" rest then
    if isDeclaration (rest.drop 1) then functionStatement fr (t :: rest)
    else callStatement fr (t :: rest)
  else fr.stop "'=' or '('" rest

def statements (ts : List Token) : Except Failure (List Tree) :=
  match ts with
  | [] => .ok []
  | t :: rest =>
    if t.kind = .eof then .ok []
    else if t.isName then do
      let ⟨s, us, _h⟩ ← topStatement fr t rest
      return s :: (← statements us)
    else if t.isSymbol ";" then statements rest
    else fr.refuse "declaration or call statement" t
termination_by ts.length
decreasing_by
  · exact _h
  · exact Nat.lt_succ_self _

end

def endToken (ts : List Token) : Token :=
  (ts.find? (·.kind == .eof)).getD ⟨.eof, "", (ts.getLast?.map Token.line).getD 1, 1⟩

end Parse

def Tree.parse (file : String) (ts : List Token) : Except Failure Tree := do
  let fr : Parse.Frame := ⟨file, Parse.endToken ts⟩
  let ss ← Parse.statements fr ts
  return .program ss file (fr.place (ts.headD fr.eof))

end StructLang
