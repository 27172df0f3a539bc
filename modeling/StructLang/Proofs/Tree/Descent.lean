import StructLang.Proofs.Outcome
import StructLang.Proofs.Tree.Walk
import StructLang.Tree.Parse

/-!
The descent through the grammar, once for all that it keeps. Tokens are taken one after the other
and never an end mark, the nodes stand at the places of taken tokens, and a failure is the refusal
of the next token or of a reserved name that was taken.
-/

namespace StructLang

namespace Token

theorem ne_eof_of_isSymbol {t : Token} {s : String} (h : t.isSymbol s) : t.kind ≠ .eof := by
  intro heof
  simp [isSymbol, heof] at h

theorem ne_eof_of_isName {t : Token} (h : t.isName) : t.kind ≠ .eof := by
  intro heof
  simp [isName, heof] at h

end Token

namespace Parse

open Token

/-- What holds while tokens are taken: `I` of the tokens that are left, `P` of the places of those
that are taken, and `E` of the failures. -/
structure Keeps (fr : Frame) (I : List Token → Prop) (P : Option Span → Prop)
    (E : Failure → Prop) : Prop where
  place : ∀ {t ts}, I (t :: ts) → P (fr.place t)
  advance : ∀ {t ts}, I (t :: ts) → t.kind ≠ .eof → I ts
  stop : ∀ {ts} expected, I ts →
    E ⟨.unexpected expected (ts.headD fr.eof).describe, fr.place (ts.headD fr.eof)⟩
  reserved : ∀ {t ts}, I (t :: ts) → t.isName → Library.reserved t.text →
    E ⟨.reservedName t.text none, fr.place t⟩

def Reads {α : Type} (I : List Token → Prop) (E : Failure → Prop) (Q : α → Prop) {ts : List Token}
    (x : Except Failure (Parsed α ts)) : Prop :=
  Yields x (fun p => Q p.value ∧ I p.rest) E

def Continues {α : Type} (I : List Token → Prop) (E : Failure → Prop) (Q : α → Prop)
    {ts : List Token} (x : Except Failure (Continued α ts)) : Prop :=
  Yields x (fun p => Q p.value ∧ I p.rest) E

abbrev AllPlaced (P : Option Span → Prop) (ts : List Tree) : Prop := ∀ t ∈ ts, t.Placed P

theorem placed_leaf {P : Option Span → Prop} {t : Tree} (hloc : P t.loc)
    (hleaf : t.children = []) : t.Placed P := by
  rw [Tree.placed_iff, hleaf]
  exact ⟨hloc, nofun⟩

variable {fr : Frame} {I : List Token → Prop} {P : Option Span → Prop} {E : Failure → Prop}

section

variable {ts : List Token}

theorem stop_yields (hk : Keeps fr I P E) {α : Type} {Q : α → Prop} (h : I ts)
    (expected : String) : Yields (fr.stop expected ts : Except Failure α) Q E :=
  .error (hk.stop expected h)

theorem expect_reads (hk : Keeps fr I P E) {Q : Token → Prop} {test : Token → Bool}
    (htest : ∀ t, test t → t.kind ≠ .eof) (h : I ts)
    (hQ : ∀ t us, I (t :: us) → test t → Q t) (expected : String) :
    Reads I E Q (expect fr test expected ts) := by
  cases ts with
  | nil => exact stop_yields hk h expected
  | cons t ts =>
    rw [expect]
    split
    · rename_i ht
      exact .ok ⟨hQ t ts h ht, hk.advance h (htest t ht)⟩
    · exact stop_yields hk h expected

theorem symbol_reads (hk : Keeps fr I P E) (h : I ts) (s : String) :
    Reads I E (fun _ => True) (symbol fr s ts) :=
  expect_reads hk (fun _ => ne_eof_of_isSymbol) h (fun _ _ _ _ => trivial) _

theorem nameToken_reads (hk : Keeps fr I P E) (h : I ts) :
    Reads I E (fun t => P (fr.place t) ∧
      (Library.reserved t.text → E ⟨.reservedName t.text none, fr.place t⟩)) (nameToken fr ts) :=
  expect_reads hk (fun _ => ne_eof_of_isName) h
    (fun _ _ ht hname => ⟨hk.place ht, hk.reserved ht hname⟩) _

theorem ofKind_reads (hk : Keeps fr I P E) (h : I ts) {kind : TokenKind} (hkind : kind ≠ .eof) :
    Reads I E (fun t => P (fr.place t)) (ofKind fr kind ts) := by
  refine expect_reads hk ?_ h (fun _ _ ht _ => hk.place ht) _
  intro t ht
  rwa [eq_of_beq ht]

end

mutual

theorem binary_reads {min : Nat} {ts : List Token} (hk : Keeps fr I P E) (h : I ts) :
    Reads I E (Tree.Placed P) (binary fr min ts) := by
  rw [binary]
  refine (operand_reads hk h).bind fun p hp => ?_
  exact (binaryTail_continues hk hp.2 hp.1).bind fun q hq => .ok hq
termination_by (ts.length, 2)
decreasing_by
  · exact Prod.Lex.right _ (by decide)
  · exact Prod.Lex.left _ _ p.shorter

theorem binaryTail_continues {min : Nat} {left : Tree} {ts : List Token} (hk : Keeps fr I P E)
    (h : I ts) (hleft : left.Placed P) :
    Continues I E (Tree.Placed P) (binaryTail fr min left ts) := by
  match ts with
  | [] =>
    rw [binaryTail]
    exact .ok ⟨hleft, h⟩
  | t :: rest =>
    rw [binaryTail]
    split
    · exact .ok ⟨hleft, h⟩
    · rename_i op hop
      split
      · exact .ok ⟨hleft, h⟩
      · have ht : t.kind ≠ .eof := by
          intro heof
          simp [heof] at hop
        refine (binary_reads hk (hk.advance h ht)).bind fun p hp => ?_
        have hnode : (Tree.binary op left p.value (fr.place t)).Placed P :=
          Tree.placed_iff.2 ⟨hk.place h, by simpa [Tree.children] using ⟨hleft, hp.1⟩⟩
        exact (binaryTail_continues hk hp.2 hnode).bind fun q hq => .ok hq
termination_by (ts.length, 0)
decreasing_by
  · exact Prod.Lex.left _ _ (Nat.lt_succ_self _)
  · exact Prod.Lex.left _ _ (Nat.lt_succ_of_lt p.shorter)

theorem operand_reads {ts : List Token} (hk : Keeps fr I P E) (h : I ts) :
    Reads I E (Tree.Placed P) (operand fr ts) := by
  rw [operand]
  refine (primary_reads hk h).bind fun p hp => ?_
  exact (operandTail_continues hk hp.2 hp.1).bind fun q hq => .ok hq
termination_by (ts.length, 1)
decreasing_by
  · exact Prod.Lex.right _ (by decide)
  · exact Prod.Lex.left _ _ p.shorter

theorem operandTail_continues {e : Tree} {ts : List Token} (hk : Keeps fr I P E) (h : I ts)
    (he : e.Placed P) : Continues I E (Tree.Placed P) (operandTail fr e ts) := by
  match ts with
  | [] =>
    rw [operandTail]
    exact .ok ⟨he, h⟩
  | t :: rest =>
    rw [operandTail]
    split
    · rename_i ht
      refine (nameToken_reads hk (hk.advance h (ne_eof_of_isSymbol ht))).bind fun p hp => ?_
      have hnode : (Tree.member e p.value.text (fr.place p.value)).Placed P :=
        Tree.placed_iff.2 ⟨hp.1.1, List.forall_mem_singleton.2 he⟩
      exact (operandTail_continues hk hp.2 hnode).bind fun q hq => .ok hq
    · split
      · rename_i ht
        refine (arguments_continues hk (hk.advance h (ne_eof_of_isSymbol ht))).bind fun p hp =>
          (symbol_reads hk hp.2 _).bind fun q hq => ?_
        have hnode : (Tree.call e p.value e.loc).Placed P :=
          Tree.placed_iff.2 ⟨(Tree.placed_iff.1 he).1, List.forall_mem_cons.2 ⟨he, hp.1⟩⟩
        exact (operandTail_continues hk hq.2 hnode).bind fun r hr => .ok hr
      · exact .ok ⟨he, h⟩
termination_by (ts.length, 0)
decreasing_by
  · exact Prod.Lex.left _ _ (Nat.lt_succ_self _)
  · exact Prod.Lex.left _ _ (Nat.lt_succ_of_lt (Nat.lt_of_lt_of_le q.shorter p.noLonger))
  · exact Prod.Lex.left _ _ (Nat.lt_succ_of_lt p.shorter)

theorem primary_reads {ts : List Token} (hk : Keeps fr I P E) (h : I ts) :
    Reads I E (Tree.Placed P) (primary fr ts) := by
  match ts with
  | [] =>
    rw [primary]
    exact stop_yields hk h _
  | t :: rest =>
    rw [primary]
    split
    · rename_i ht
      exact .ok ⟨placed_leaf (hk.place h) rfl, hk.advance h (by simp [ht])⟩
    · split
      · rename_i ht
        exact .ok ⟨placed_leaf (hk.place h) rfl, hk.advance h (by simp [ht])⟩
      · split
        · rename_i ht
          have hname : t.isName := (Bool.and_eq_true_iff.1 ht).1
          exact .ok ⟨placed_leaf (hk.place h) rfl, hk.advance h (ne_eof_of_isName hname)⟩
        · split
          · rename_i ht
            refine (binary_reads hk (hk.advance h (ne_eof_of_isSymbol ht))).bind fun p hp => ?_
            exact (symbol_reads hk hp.2 _).bind fun q hq => .ok ⟨hp.1, hq.2⟩
          · exact stop_yields hk h _
termination_by (ts.length, 0)
decreasing_by exact Prod.Lex.left _ _ (Nat.lt_succ_self _)

theorem arguments_continues {ts : List Token} (hk : Keeps fr I P E) (h : I ts) :
    Continues I E (AllPlaced P) (arguments fr ts) := by
  rw [arguments]
  split
  · exact .ok ⟨nofun, h⟩
  · refine (binary_reads hk h).bind fun p hp =>
      (argumentsTail_continues hk hp.2).bind fun q hq => ?_
    exact .ok ⟨List.forall_mem_cons.2 ⟨hp.1, hq.1⟩, hq.2⟩
termination_by (ts.length, 3)
decreasing_by
  · exact Prod.Lex.right _ (by decide)
  · exact Prod.Lex.left _ _ p.shorter

theorem argumentsTail_continues {ts : List Token} (hk : Keeps fr I P E) (h : I ts) :
    Continues I E (AllPlaced P) (argumentsTail fr ts) := by
  match ts with
  | [] =>
    rw [argumentsTail]
    exact .ok ⟨nofun, h⟩
  | t :: rest =>
    rw [argumentsTail]
    split
    · rename_i ht
      refine (binary_reads hk (hk.advance h (ne_eof_of_isSymbol ht))).bind fun p hp =>
        (argumentsTail_continues hk hp.2).bind fun q hq => ?_
      exact .ok ⟨List.forall_mem_cons.2 ⟨hp.1, hq.1⟩, hq.2⟩
    · exact .ok ⟨nofun, h⟩
termination_by (ts.length, 0)
decreasing_by
  · exact Prod.Lex.left _ _ (Nat.lt_succ_self _)
  · exact Prod.Lex.left _ _ (Nat.lt_succ_of_lt p.shorter)

end

variable {ts : List Token}

theorem statement_reads (hk : Keeps fr I P E) (h : I ts) :
    Reads I E (Tree.Placed P) (statement fr ts) := by
  match ts with
  | [] => exact stop_yields hk h _
  | t :: rest =>
    have hnode (e : Tree) (he : e.Placed P) : (Tree.ret e (fr.place t)).Placed P ∧
        (Tree.expr e none (fr.place t)).Placed P :=
      ⟨Tree.placed_iff.2 ⟨hk.place h, List.forall_mem_singleton.2 he⟩,
        Tree.placed_iff.2 ⟨hk.place h, List.forall_mem_singleton.2 he⟩⟩
    rw [statement]
    split
    · rename_i ht
      have heof : t.kind ≠ .eof := by
        intro heof
        simp [isReturn, heof] at ht
      refine (binary_reads hk (hk.advance h heof)).bind fun p hp =>
        (symbol_reads hk hp.2 _).bind fun q hq => ?_
      exact .ok ⟨(hnode p.value hp.1).1, hq.2⟩
    · refine (binary_reads hk h).bind fun p hp => (symbol_reads hk hp.2 _).bind fun q hq => ?_
      exact .ok ⟨(hnode p.value hp.1).2, hq.2⟩

theorem bodyTail_reads {ts : List Token} (hk : Keeps fr I P E) (h : I ts) :
    Reads I E (AllPlaced P) (bodyTail fr ts) := by
  match ts with
  | [] =>
    rw [bodyTail]
    exact stop_yields hk h _
  | t :: rest =>
    rw [bodyTail]
    split
    · rename_i ht
      exact .ok ⟨nofun, hk.advance h (ne_eof_of_isSymbol ht)⟩
    · split
      · exact stop_yields hk h _
      · refine (statement_reads hk h).bind fun p hp => (bodyTail_reads hk hp.2).bind fun q hq => ?_
        exact .ok ⟨List.forall_mem_cons.2 ⟨hp.1, hq.1⟩, hq.2⟩
termination_by ts.length
decreasing_by exact p.shorter

theorem typeName_reads (hk : Keeps fr I P E) (h : I ts) :
    Reads I E (fun _ => True) (typeName fr ts) := by
  match ts with
  | [] => exact stop_yields hk h _
  | t :: rest =>
    rw [typeName]
    split
    · rename_i ht
      exact .ok ⟨trivial, hk.advance h (by simp [ht])⟩
    · split
      · rename_i ht
        exact .ok ⟨trivial, hk.advance h (by simp [ht])⟩
      · exact stop_yields hk h _

theorem returnType_reads (hk : Keeps fr I P E) (h : I ts) :
    Reads I E (fun _ => True) (returnType fr ts) :=
  (ofKind_reads hk h (by decide)).bind fun _ hp => .ok ⟨trivial, hp.2⟩

theorem parameter_reads (hk : Keeps fr I P E) (h : I ts) :
    Reads I E (Tree.Placed P) (parameter fr ts) := by
  match ts with
  | [] | [_] => exact stop_yields hk h _
  | t :: colon :: rest =>
    rw [parameter]
    split
    · rename_i ht
      have hcolon := hk.advance h (by simp [ht.1])
      refine (typeName_reads hk (hk.advance hcolon (ne_eof_of_isSymbol ht.2))).bind fun p hp => ?_
      exact .ok ⟨placed_leaf (hk.place h) rfl, hp.2⟩
    · exact stop_yields hk h _

theorem parametersTail_continues {ts : List Token} (hk : Keeps fr I P E) (h : I ts) :
    Continues I E (AllPlaced P) (parametersTail fr ts) := by
  match ts with
  | [] =>
    rw [parametersTail]
    exact .ok ⟨nofun, h⟩
  | t :: rest =>
    rw [parametersTail]
    split
    · rename_i ht
      refine (parameter_reads hk (hk.advance h (ne_eof_of_isSymbol ht))).bind fun p hp =>
        (parametersTail_continues hk hp.2).bind fun q hq => ?_
      exact .ok ⟨List.forall_mem_cons.2 ⟨hp.1, hq.1⟩, hq.2⟩
    · exact .ok ⟨nofun, h⟩
termination_by ts.length
decreasing_by exact Nat.lt_succ_of_lt p.shorter

theorem parameters_continues (hk : Keeps fr I P E) (h : I ts) :
    Continues I E (AllPlaced P) (parameters fr ts) := by
  rw [parameters]
  split
  · exact .ok ⟨nofun, h⟩
  · refine (parameter_reads hk h).bind fun p hp =>
      (parametersTail_continues hk hp.2).bind fun q hq => ?_
    exact .ok ⟨List.forall_mem_cons.2 ⟨hp.1, hq.1⟩, hq.2⟩

theorem aliasStatement_reads (hk : Keeps fr I P E) (h : I ts) :
    Reads I E (Tree.Placed P) (aliasStatement fr ts) := by
  rw [aliasStatement]
  refine (ofKind_reads hk h (by decide)).bind fun name hname => ?_
  refine (symbol_reads hk hname.2 _).bind fun q hq => (typeName_reads hk hq.2).bind fun r hr => ?_
  refine (symbol_reads hk hr.2 _).bind fun s hs => ?_
  exact .ok ⟨placed_leaf hname.1 rfl, hs.2⟩

theorem functionStatement_reads (hk : Keeps fr I P E) (h : I ts) :
    Reads I E (Tree.Placed P) (functionStatement fr ts) := by
  rw [functionStatement]
  refine (nameToken_reads hk h).bind fun name hname => ?_
  refine (symbol_reads hk hname.2 _).bind fun q hq => ?_
  refine (parameters_continues hk hq.2).bind fun params hparams => ?_
  refine (symbol_reads hk hparams.2 _).bind fun r hr => ?_
  refine (returnType_reads hk hr.2).bind fun s hs => ?_
  dsimp only
  split
  · split
    · rename_i hreserved
      exact .error (hname.1.2 hreserved)
    · refine (symbol_reads hk hs.2 _).bind fun u hu => ?_
      refine (bodyTail_reads hk hu.2).bind fun body hbody => ?_
      have hchildren := List.forall_mem_append.2 ⟨hparams.1, hbody.1⟩
      exact .ok ⟨Tree.placed_iff.2 ⟨hname.1.1, hchildren⟩, hbody.2⟩
  · refine (symbol_reads hk hs.2 _).bind fun u hu => ?_
    exact .ok ⟨Tree.placed_iff.2 ⟨hname.1.1, hparams.1⟩, hu.2⟩

theorem ascription_continues (hk : Keeps fr I P E) (h : I ts) :
    Continues I E (fun _ => True) (ascription fr ts) := by
  rw [ascription]
  split
  · exact (returnType_reads hk h).bind fun p hp => .ok ⟨trivial, hp.2⟩
  · exact .ok ⟨trivial, h⟩

theorem callStatement_reads (hk : Keeps fr I P E) (h : I ts) :
    Reads I E (Tree.Placed P) (callStatement fr ts) := by
  rw [callStatement]
  refine (nameToken_reads hk h).bind fun name hname => ?_
  refine (symbol_reads hk hname.2 _).bind fun q hq => ?_
  refine (arguments_continues hk hq.2).bind fun args hargs => ?_
  refine (symbol_reads hk hargs.2 _).bind fun r hr => ?_
  refine (ascription_continues hk hr.2).bind fun s hs => ?_
  refine (symbol_reads hk hs.2 _).bind fun u hu => ?_
  have hloc := hname.1.1
  have hcall : (Tree.call (.name name.value.text (fr.place name.value)) args.value
      (fr.place name.value)).Placed P :=
    Tree.placed_iff.2 ⟨hloc, List.forall_mem_cons.2 ⟨placed_leaf hloc rfl, hargs.1⟩⟩
  exact .ok ⟨Tree.placed_iff.2 ⟨hloc, List.forall_mem_singleton.2 hcall⟩, hu.2⟩

theorem topStatement_reads {t : Token} (hk : Keeps fr I P E) (ht : t.isName) (h : I (t :: ts)) :
    Reads I E (Tree.Placed P) (topStatement fr t ts) := by
  rw [topStatement]
  split
  · exact aliasStatement_reads hk h
  · split
    · split
      · exact functionStatement_reads hk h
      · exact callStatement_reads hk h
    · exact stop_yields hk (hk.advance h (ne_eof_of_isName ht)) _

theorem statements_yields {ts : List Token} (hk : Keeps fr I P E) (h : I ts) :
    Yields (statements fr ts) (AllPlaced P) E := by
  match ts with
  | [] =>
    rw [statements]
    exact .ok nofun
  | t :: rest =>
    rw [statements]
    split
    · exact .ok nofun
    · split
      · rename_i ht
        refine (topStatement_reads hk ht h).bind fun p hp =>
          (statements_yields hk hp.2).bind fun ss hss => ?_
        exact .ok (List.forall_mem_cons.2 ⟨hp.1, hss⟩)
      · split
        · rename_i ht
          exact statements_yields hk (hk.advance h (ne_eof_of_isSymbol ht))
        · exact stop_yields hk h _
termination_by ts.length
decreasing_by
  · exact Nat.lt_succ_self _
  · exact p.shorter

end Parse

end StructLang
