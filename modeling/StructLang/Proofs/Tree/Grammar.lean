import StructLang.Proofs.Place
import StructLang.Token
import StructLang.Ty.Written

/-!
The grammar of programs, as relations between token lists and trees without places. An expression of
level `n` has only operators of level `n` and above outside its parentheses, so level zero admits
them all; operators of one level group to the left.
-/

namespace StructLang.Grammar

def IsOperator (t : Token) (op : Operator) : Prop := t.kind = .operator ∧ t.text = op.symbol

theorem IsOperator.unique {t : Token} {op op' : Operator} (h : IsOperator t op)
    (h' : IsOperator t op') : op = op' := by
  have hs := congrArg Operator.ofSymbol? (h.2.symm.trans h'.2)
  simpa using hs

mutual

inductive Expr : Nat → List Token → Tree → Prop
  | operand : Operand ts e → Expr n ts e
  | binary : n ≤ op.level → Expr op.level ls l → IsOperator t op → Expr (op.level + 1) rs r →
      Expr n (ls ++ t :: rs) (.binary op l r none)

inductive Operand : List Token → Tree → Prop
  | primary : Primary ts e → Operand ts e
  | member : Operand ts e → dot.isSymbol "." → x.isName →
      Operand (ts ++ [dot, x]) (.member e x.text none)
  | call : Operand ts e → a.isSymbol "(" → Arguments us es → b.isSymbol ")" →
      Operand (ts ++ a :: us ++ [b]) (.call e es none)

inductive Primary : List Token → Tree → Prop
  | number : t.kind = .number → Primary [t] (.number t.text none)
  | string : t.kind = .string → Primary [t] (.string t.text none)
  | name : t.isName → t.isReturn = false → Primary [t] (.name t.text none)
  | parens : a.isSymbol "(" → Expr 0 ts e → b.isSymbol ")" → Primary (a :: ts ++ [b]) e

inductive Arguments : List Token → List Tree → Prop
  | none : Arguments [] []
  | some : Items ts es → Arguments ts es

inductive Items : List Token → List Tree → Prop
  | one : Expr 0 ts e → Items ts [e]
  | cons : Expr 0 ts e → c.isSymbol "," → Items us es → Items (ts ++ c :: us) (e :: es)

end

theorem Expr.mono {n m : Nat} {ts : List Token} {e : Tree} (h : Expr n ts e) (hle : m ≤ n) :
    Expr m ts e := by
  cases h with
  | operand h => exact .operand h
  | binary hn hl hop hr => exact .binary (Nat.le_trans hle hn) hl hop hr

inductive Statement : List Token → Tree → Prop
  | ret : t.isReturn → Expr 0 ts e → s.isSymbol ";" → Statement (t :: ts ++ [s]) (.ret e none)
  | expr : Expr 0 ts e → s.isSymbol ";" → Statement (ts ++ [s]) (.expr e none none)

inductive Body : List Token → List Tree → Prop
  | nil : Body [] []
  | cons : Statement ts s → Body us ss → Body (ts ++ us) (s :: ss)

inductive TypeName : Token → Ty → Prop
  | literal : t.kind = .type → TypeName t (.ofLiteral t.text)
  | alias : t.kind = .identifier → TypeName t (.alias t.text)

inductive Param : List Token → Tree → Prop
  | mk : x.kind = .identifier → c.isSymbol ":" → TypeName t ty →
      Param [x, c, t] (.param x.text ty none)

inductive Params : List Token → List Tree → Prop
  | one : Param ts p → Params ts [p]
  | cons : Param ts p → c.isSymbol "," → Params us ps → Params (ts ++ c :: us) (p :: ps)

inductive Parameters : List Token → List Tree → Prop
  | none : Parameters [] []
  | some : Params ts ps → Parameters ts ps

inductive Header : List Token → String → List Tree → Ty → Prop
  | mk : x.isName → a.isSymbol "(" → Parameters ts ps → b.isSymbol ")" → r.kind = .returnType →
      Header (x :: a :: ts ++ [b, r]) x.text ps (.ofText r.text)

inductive Ascription : List Token → Option Ty → Prop
  | none : Ascription [] none
  | some : t.kind = .returnType → Ascription [t] (some (.ofText t.text))

inductive TopStatement : List Token → Tree → Prop
  | alias : x.kind = .identifier → eq.isSymbol "=" → TypeName t ty → s.isSymbol ";" →
      TopStatement [x, eq, t, s] (.alias x.text ty none)
  | declare : Header ts n ps ty → s.isSymbol ";" → TopStatement (ts ++ [s]) (.declare n ps ty none)
  | define : Header ts n ps ty → Library.reserved n = false → a.isSymbol "\x7b" → Body us ss →
      b.isSymbol "\x7d" → TopStatement (ts ++ a :: us ++ [b]) (.define n ps ty ss none)
  | call : x.isName → a.isSymbol "(" → Items ts es → b.isSymbol ")" → Ascription us ty →
      s.isSymbol ";" →
      TopStatement (x :: a :: ts ++ b :: us ++ [s])
        (.expr (.call (.name x.text none) es none) ty none)

inductive Program : List Token → List Tree → Prop
  | nil : Program [] []
  | semicolon : s.isSymbol ";" → Program ts ss → Program (s :: ts) ss
  | cons : TopStatement ts s → Program us ss → Program (ts ++ us) (s :: ss)

end StructLang.Grammar
