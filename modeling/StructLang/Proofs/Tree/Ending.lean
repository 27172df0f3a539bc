import Mathlib.Data.List.TakeWhile
import StructLang.Proofs.Tree.Descent

namespace StructLang

namespace Parse

open Token

structure Closes (fr : Frame) (after : List Token) : Prop where
  headD_eq : after.headD fr.eof = fr.eof
  kind : ∀ t ∈ after.head?, t.kind = .eof

/-- Two descents read the same and leave the same, but for the tokens in `after`. -/
def Agree {α : Type} {ts us : List Token} (after : List Token) (x : Except Failure (Parsed α ts))
    (y : Except Failure (Parsed α us)) : Prop :=
  Alike (fun p q => q.value = p.value ∧ q.rest = p.rest ++ after) x y

def GoOn {α : Type} {ts us : List Token} (after : List Token)
    (x : Except Failure (Continued α ts)) (y : Except Failure (Continued α us)) : Prop :=
  Alike (fun p q => q.value = p.value ∧ q.rest = p.rest ++ after) x y

section

variable {α β γ : Type} {ts us after : List Token} {R : β → γ → Prop}

theorem Agree.bind {x : Except Failure (Parsed α ts)} {y : Except Failure (Parsed α us)}
    {f : Parsed α ts → Except Failure β} {g : Parsed α us → Except Failure γ} (h : Agree after x y)
    (hf : ∀ p hlt, Alike R (f p) (g ⟨p.value, p.rest ++ after, hlt⟩)) :
    Alike R (x >>= f) (y >>= g) := by
  refine Alike.bind h fun p q hpq => ?_
  obtain ⟨value, rest, hlt⟩ := q
  obtain ⟨rfl, rfl⟩ := hpq
  exact hf p hlt

theorem GoOn.bind {x : Except Failure (Continued α ts)} {y : Except Failure (Continued α us)}
    {f : Continued α ts → Except Failure β} {g : Continued α us → Except Failure γ}
    (h : GoOn after x y)
    (hf : ∀ p hle, Alike R (f p) (g ⟨p.value, p.rest ++ after, hle⟩)) :
    Alike R (x >>= f) (y >>= g) := by
  refine Alike.bind h fun p q hpq => ?_
  obtain ⟨value, rest, hle⟩ := q
  obtain ⟨rfl, rfl⟩ := hpq
  exact hf p hle

end

namespace Closes

variable {fr : Frame} {after : List Token}

theorem headD_append (h : Closes fr after) (ts : List Token) :
    (ts ++ after).headD fr.eof = ts.headD fr.eof := by
  cases ts with
  | nil => exact h.headD_eq
  | cons t ts => rfl

theorem stop_alike (h : Closes fr after) {α β : Type} {R : α → β → Prop} (expected : String)
    (ts : List Token) : Alike R (fr.stop expected ts) (fr.stop expected (ts ++ after)) := by
  rw [Frame.stop, Frame.stop, h.headD_append]
  exact .error

theorem nextIs_append (h : Closes fr after) (s : String) (ts : List Token) :
    nextIs s (ts ++ after) = nextIs s ts := by
  cases ts with
  | cons t ts => rfl
  | nil =>
    cases after with
    | nil => rfl
    | cons e after =>
      have he : e.kind = .eof := h.kind e rfl
      simp [nextIs, isSymbol, he]

theorem isDeclaration_append (h : Closes fr after) (ts : List Token) :
    isDeclaration (ts ++ after) = isDeclaration ts := by
  cases ts with
  | cons t ts => rw [List.cons_append, isDeclaration, isDeclaration, h.nextIs_append]
  | nil =>
    cases after with
    | nil => rfl
    | cons e after =>
      have he : e.kind = .eof := h.kind e rfl
      simp [isDeclaration, isSymbol, he]

theorem expect_agree (h : Closes fr after) {test : Token → Bool}
    (htest : ∀ t, test t → t.kind ≠ .eof) (expected : String) (ts : List Token) :
    Agree after (expect fr test expected ts) (expect fr test expected (ts ++ after)) := by
  cases ts with
  | nil =>
    cases after with
    | nil => exact .error
    | cons e after =>
      have he : ¬test e := fun he => htest e he (h.kind e rfl)
      rw [List.nil_append, expect, expect, if_neg he]
      exact h.stop_alike expected []
  | cons t ts =>
    rw [List.cons_append, expect, expect]
    exact .ite (fun _ => .ok ⟨rfl, rfl⟩) fun _ => h.stop_alike expected (t :: ts)

theorem symbol_agree (h : Closes fr after) (s : String) (ts : List Token) :
    Agree after (symbol fr s ts) (symbol fr s (ts ++ after)) :=
  h.expect_agree (fun _ => ne_eof_of_isSymbol) _ ts

theorem nameToken_agree (h : Closes fr after) (ts : List Token) :
    Agree after (nameToken fr ts) (nameToken fr (ts ++ after)) :=
  h.expect_agree (fun _ => ne_eof_of_isName) _ ts

theorem ofKind_agree (h : Closes fr after) {kind : TokenKind} (hkind : kind ≠ .eof)
    (ts : List Token) : Agree after (ofKind fr kind ts) (ofKind fr kind (ts ++ after)) := by
  refine h.expect_agree (fun t ht => ?_) _ ts
  rwa [eq_of_beq ht]

mutual

theorem binary_agree (h : Closes fr after) (min : Nat) (ts : List Token) :
    Agree after (binary fr min ts) (binary fr min (ts ++ after)) := by
  rw [binary, binary]
  refine (h.operand_agree ts).bind fun p _ => ?_
  exact (h.binaryTail_goOn min p.value p.rest).bind fun _ _ => .ok ⟨rfl, rfl⟩
termination_by (ts.length, 2)
decreasing_by
  · exact Prod.Lex.right _ (by decide)
  · exact Prod.Lex.left _ _ p.shorter

theorem binaryTail_goOn (h : Closes fr after) (min : Nat) (left : Tree) (ts : List Token) :
    GoOn after (binaryTail fr min left ts) (binaryTail fr min left (ts ++ after)) := by
  match ts with
  | [] =>
    cases after with
    | nil =>
      rw [List.nil_append, binaryTail]
      exact .ok ⟨rfl, rfl⟩
    | cons e after =>
      have he : e.kind = .eof := h.kind e rfl
      rw [List.nil_append, binaryTail, binaryTail, he]
      exact .ok ⟨rfl, rfl⟩
  | t :: rest =>
    rw [List.cons_append, binaryTail, binaryTail]
    split
    · exact .ok ⟨rfl, rfl⟩
    · rename_i op hop
      refine .ite (fun _ => .ok ⟨rfl, rfl⟩) fun _ => ?_
      refine (h.binary_agree (op.level + 1) rest).bind fun p _ => ?_
      exact (h.binaryTail_goOn min (.binary op left p.value (fr.place t)) p.rest).bind
        fun _ _ => .ok ⟨rfl, rfl⟩
termination_by (ts.length, 0)
decreasing_by
  · exact Prod.Lex.left _ _ (Nat.lt_succ_self _)
  · exact Prod.Lex.left _ _ (Nat.lt_succ_of_lt p.shorter)

theorem operand_agree (h : Closes fr after) (ts : List Token) :
    Agree after (operand fr ts) (operand fr (ts ++ after)) := by
  rw [operand, operand]
  refine (h.primary_agree ts).bind fun p _ => ?_
  exact (h.operandTail_goOn p.value p.rest).bind fun _ _ => .ok ⟨rfl, rfl⟩
termination_by (ts.length, 1)
decreasing_by
  · exact Prod.Lex.right _ (by decide)
  · exact Prod.Lex.left _ _ p.shorter

theorem operandTail_goOn (h : Closes fr after) (e : Tree) (ts : List Token) :
    GoOn after (operandTail fr e ts) (operandTail fr e (ts ++ after)) := by
  match ts with
  | [] =>
    cases after with
    | nil =>
      rw [List.nil_append, operandTail]
      exact .ok ⟨rfl, rfl⟩
    | cons t after =>
      have ht : t.kind = .eof := h.kind t rfl
      rw [List.nil_append, operandTail, operandTail, if_neg (by simp [isSymbol, ht]),
        if_neg (by simp [isSymbol, ht])]
      exact .ok ⟨rfl, rfl⟩
  | t :: rest =>
    rw [List.cons_append, operandTail, operandTail]
    refine .ite (fun _ => ?_) fun _ => .ite (fun _ => ?_) fun _ => .ok ⟨rfl, rfl⟩
    · refine (h.nameToken_agree rest).bind fun p _ => ?_
      exact (h.operandTail_goOn (.member e p.value.text (fr.place p.value)) p.rest).bind
        fun _ _ => .ok ⟨rfl, rfl⟩
    · refine (h.arguments_goOn rest).bind fun p _ => ?_
      refine (h.symbol_agree ")" p.rest).bind fun q _ => ?_
      exact (h.operandTail_goOn (.call e p.value e.loc) q.rest).bind fun _ _ => .ok ⟨rfl, rfl⟩
termination_by (ts.length, 0)
decreasing_by
  · exact Prod.Lex.left _ _ (Nat.lt_succ_of_lt p.shorter)
  · exact Prod.Lex.left _ _ (Nat.lt_succ_self _)
  · exact Prod.Lex.left _ _ (Nat.lt_succ_of_lt (Nat.lt_of_lt_of_le q.shorter p.noLonger))

theorem primary_agree (h : Closes fr after) (ts : List Token) :
    Agree after (primary fr ts) (primary fr (ts ++ after)) := by
  match ts with
  | [] =>
    cases after with
    | nil =>
      rw [List.nil_append, primary]
      exact .error
    | cons t after =>
      have ht : t.kind = .eof := h.kind t rfl
      rw [List.nil_append, primary, primary, if_neg (by simp [ht]), if_neg (by simp [ht]),
        if_neg (by simp [isName, ht]), if_neg (by simp [isSymbol, ht])]
      exact h.stop_alike _ []
  | t :: rest =>
    rw [List.cons_append, primary, primary]
    refine .ite (fun _ => .ok ⟨rfl, rfl⟩) fun _ => .ite (fun _ => .ok ⟨rfl, rfl⟩) fun _ => ?_
    refine .ite (fun _ => .ok ⟨rfl, rfl⟩) fun _ => .ite (fun _ => ?_) fun _ => ?_
    · refine (h.binary_agree 0 rest).bind fun p _ => ?_
      exact (h.symbol_agree ")" p.rest).bind fun _ _ => .ok ⟨rfl, rfl⟩
    · exact h.stop_alike _ (t :: rest)
termination_by (ts.length, 0)
decreasing_by exact Prod.Lex.left _ _ (Nat.lt_succ_self _)

theorem arguments_goOn (h : Closes fr after) (ts : List Token) :
    GoOn after (arguments fr ts) (arguments fr (ts ++ after)) := by
  rw [arguments, arguments, h.nextIs_append]
  refine .ite (fun _ => .ok ⟨rfl, rfl⟩) fun _ => ?_
  refine (h.binary_agree 0 ts).bind fun p _ => ?_
  exact (h.argumentsTail_goOn p.rest).bind fun _ _ => .ok ⟨rfl, rfl⟩
termination_by (ts.length, 3)
decreasing_by
  · exact Prod.Lex.right _ (by decide)
  · exact Prod.Lex.left _ _ p.shorter

theorem argumentsTail_goOn (h : Closes fr after) (ts : List Token) :
    GoOn after (argumentsTail fr ts) (argumentsTail fr (ts ++ after)) := by
  match ts with
  | [] =>
    cases after with
    | nil =>
      rw [List.nil_append, argumentsTail]
      exact .ok ⟨rfl, rfl⟩
    | cons t after =>
      have ht : t.kind = .eof := h.kind t rfl
      rw [List.nil_append, argumentsTail, argumentsTail, if_neg (by simp [isSymbol, ht])]
      exact .ok ⟨rfl, rfl⟩
  | t :: rest =>
    rw [List.cons_append, argumentsTail, argumentsTail]
    refine .ite (fun _ => ?_) fun _ => .ok ⟨rfl, rfl⟩
    refine (h.binary_agree 0 rest).bind fun p _ => ?_
    exact (h.argumentsTail_goOn p.rest).bind fun _ _ => .ok ⟨rfl, rfl⟩
termination_by (ts.length, 0)
decreasing_by
  · exact Prod.Lex.left _ _ (Nat.lt_succ_self _)
  · exact Prod.Lex.left _ _ (Nat.lt_succ_of_lt p.shorter)

end

theorem statement_agree (h : Closes fr after) (ts : List Token) :
    Agree after (statement fr ts) (statement fr (ts ++ after)) := by
  cases ts with
  | nil =>
    cases after with
    | nil => exact .error
    | cons t after =>
      have ht : t.kind = .eof := h.kind t rfl
      have hstop : binary fr 0 [] = fr.stop "expression" [] := by
        rw [binary, operand, primary]
        rfl
      have hexpression := h.binary_agree 0 []
      rw [hstop, Frame.stop, Frame.refuse, List.nil_append] at hexpression
      rw [List.nil_append, statement, statement, if_neg (by simp [isReturn, ht]), expression]
      generalize binary fr 0 (t :: after) = y at hexpression ⊢
      cases hexpression
      exact .error
  | cons t rest =>
    rw [List.cons_append, statement, statement]
    refine .ite (fun _ => ?_) fun _ => ?_
    · refine (h.binary_agree 0 rest).bind fun p _ => ?_
      exact (h.symbol_agree ";" p.rest).bind fun _ _ => .ok ⟨rfl, rfl⟩
    · refine (h.binary_agree 0 (t :: rest)).bind fun p _ => ?_
      exact (h.symbol_agree ";" p.rest).bind fun _ _ => .ok ⟨rfl, rfl⟩

theorem bodyTail_agree (h : Closes fr after) (ts : List Token) :
    Agree after (bodyTail fr ts) (bodyTail fr (ts ++ after)) := by
  match ts with
  | [] =>
    cases after with
    | nil =>
      rw [List.nil_append, bodyTail]
      exact .error
    | cons t after =>
      have ht : t.kind = .eof := h.kind t rfl
      rw [List.nil_append, bodyTail, bodyTail, if_neg (by simp [isSymbol, ht]), if_pos ht]
      exact h.stop_alike _ []
  | t :: rest =>
    rw [List.cons_append, bodyTail, bodyTail]
    refine .ite (fun _ => .ok ⟨rfl, rfl⟩) fun _ => ?_
    refine .ite (fun _ => h.stop_alike _ (t :: rest)) fun _ => ?_
    refine (h.statement_agree (t :: rest)).bind fun p _ => ?_
    exact (h.bodyTail_agree p.rest).bind fun _ _ => .ok ⟨rfl, rfl⟩
termination_by ts.length
decreasing_by exact p.shorter

theorem typeName_agree (h : Closes fr after) (ts : List Token) :
    Agree after (typeName fr ts) (typeName fr (ts ++ after)) := by
  cases ts with
  | nil =>
    cases after with
    | nil => exact .error
    | cons t after =>
      have ht : t.kind = .eof := h.kind t rfl
      rw [List.nil_append, typeName, typeName, if_neg (by simp [ht]), if_neg (by simp [ht])]
      exact h.stop_alike _ []
  | cons t rest =>
    rw [List.cons_append, typeName, typeName]
    exact .ite (fun _ => .ok ⟨rfl, rfl⟩) fun _ =>
      .ite (fun _ => .ok ⟨rfl, rfl⟩) fun _ => h.stop_alike _ (t :: rest)

theorem returnType_agree (h : Closes fr after) (ts : List Token) :
    Agree after (returnType fr ts) (returnType fr (ts ++ after)) :=
  (h.ofKind_agree (by decide) ts).bind fun _ _ => .ok ⟨rfl, rfl⟩

theorem parameter_of_length_lt {ts : List Token} (h : ts.length < 2) :
    parameter fr ts = fr.stop "parameter 'name: type'" ts := by
  rw [parameter]
  rintro t colon rest rfl
  simp only [List.length_cons] at h
  omega

theorem parameter_agree (h : Closes fr after) (ts : List Token) :
    Agree after (parameter fr ts) (parameter fr (ts ++ after)) := by
  obtain _ | ⟨t, _ | ⟨colon, rest⟩⟩ := ts
  · rw [parameter_of_length_lt (by simp)]
    obtain _ | ⟨t, _ | ⟨u, after⟩⟩ := after
    · rw [parameter_of_length_lt (by simp)]
      exact h.stop_alike _ []
    · rw [parameter_of_length_lt (by simp)]
      exact h.stop_alike _ []
    · have ht : t.kind = .eof := h.kind t rfl
      rw [List.nil_append, parameter, if_neg (by simp [ht])]
      exact h.stop_alike _ []
  · rw [parameter_of_length_lt (by simp)]
    obtain _ | ⟨u, after⟩ := after
    · rw [parameter_of_length_lt (by simp)]
      exact h.stop_alike _ [t]
    · have hu : u.kind = .eof := h.kind u rfl
      rw [List.singleton_append, parameter, if_neg (by simp [isSymbol, hu])]
      exact h.stop_alike _ [t]
  · rw [List.cons_append, List.cons_append, parameter, parameter]
    refine .ite (fun _ => ?_) fun _ => h.stop_alike _ (t :: colon :: rest)
    exact (h.typeName_agree rest).bind fun _ _ => .ok ⟨rfl, rfl⟩

theorem parametersTail_goOn (h : Closes fr after) (ts : List Token) :
    GoOn after (parametersTail fr ts) (parametersTail fr (ts ++ after)) := by
  match ts with
  | [] =>
    cases after with
    | nil =>
      rw [List.nil_append, parametersTail]
      exact .ok ⟨rfl, rfl⟩
    | cons t after =>
      have ht : t.kind = .eof := h.kind t rfl
      rw [List.nil_append, parametersTail, parametersTail, if_neg (by simp [isSymbol, ht])]
      exact .ok ⟨rfl, rfl⟩
  | t :: rest =>
    rw [List.cons_append, parametersTail, parametersTail]
    refine .ite (fun _ => ?_) fun _ => .ok ⟨rfl, rfl⟩
    refine (h.parameter_agree rest).bind fun p _ => ?_
    exact (h.parametersTail_goOn p.rest).bind fun _ _ => .ok ⟨rfl, rfl⟩
termination_by ts.length
decreasing_by exact Nat.lt_succ_of_lt p.shorter

theorem parameters_goOn (h : Closes fr after) (ts : List Token) :
    GoOn after (parameters fr ts) (parameters fr (ts ++ after)) := by
  rw [parameters, parameters, h.nextIs_append]
  refine .ite (fun _ => .ok ⟨rfl, rfl⟩) fun _ => ?_
  refine (h.parameter_agree ts).bind fun p _ => ?_
  exact (h.parametersTail_goOn p.rest).bind fun _ _ => .ok ⟨rfl, rfl⟩

theorem aliasStatement_agree (h : Closes fr after) (ts : List Token) :
    Agree after (aliasStatement fr ts) (aliasStatement fr (ts ++ after)) := by
  rw [aliasStatement, aliasStatement]
  refine (h.ofKind_agree (by decide) ts).bind fun p _ => ?_
  refine (h.symbol_agree "=" p.rest).bind fun q _ => ?_
  refine (h.typeName_agree q.rest).bind fun r _ => ?_
  exact (h.symbol_agree ";" r.rest).bind fun _ _ => .ok ⟨rfl, rfl⟩

theorem functionStatement_agree (h : Closes fr after) (ts : List Token) :
    Agree after (functionStatement fr ts) (functionStatement fr (ts ++ after)) := by
  rw [functionStatement, functionStatement]
  refine (h.nameToken_agree ts).bind fun name _ => ?_
  refine (h.symbol_agree "(" name.rest).bind fun q _ => ?_
  refine (h.parameters_goOn q.rest).bind fun params _ => ?_
  refine (h.symbol_agree ")" params.rest).bind fun r _ => ?_
  refine (h.returnType_agree r.rest).bind fun result _ => ?_
  dsimp only
  rw [h.nextIs_append]
  refine .ite (fun _ => .ite (fun _ => .error) fun _ => ?_) fun _ => ?_
  · refine (h.symbol_agree "\x7b" result.rest).bind fun s _ => ?_
    exact (h.bodyTail_agree s.rest).bind fun _ _ => .ok ⟨rfl, rfl⟩
  · exact (h.symbol_agree ";" result.rest).bind fun _ _ => .ok ⟨rfl, rfl⟩

theorem ascription_goOn (h : Closes fr after) (ts : List Token) :
    GoOn after (ascription fr ts) (ascription fr (ts ++ after)) := by
  have hkind : (ts ++ after).head?.map Token.kind = some .returnType ↔
      ts.head?.map Token.kind = some .returnType := by
    cases ts with
    | cons t ts => rfl
    | nil =>
      cases after with
      | nil => rfl
      | cons e after =>
        have he : e.kind = .eof := h.kind e rfl
        simp [he]
  simp only [ascription, hkind]
  refine .ite (fun _ => ?_) fun _ => .ok ⟨rfl, rfl⟩
  exact (h.returnType_agree ts).bind fun _ _ => .ok ⟨rfl, rfl⟩

theorem callStatement_agree (h : Closes fr after) (ts : List Token) :
    Agree after (callStatement fr ts) (callStatement fr (ts ++ after)) := by
  rw [callStatement, callStatement]
  refine (h.nameToken_agree ts).bind fun name _ => ?_
  refine (h.symbol_agree "(" name.rest).bind fun q _ => ?_
  refine (h.arguments_goOn q.rest).bind fun args _ => ?_
  refine (h.symbol_agree ")" args.rest).bind fun r _ => ?_
  refine (h.ascription_goOn r.rest).bind fun ascribed _ => ?_
  exact (h.symbol_agree ";" ascribed.rest).bind fun _ _ => .ok ⟨rfl, rfl⟩

theorem topStatement_agree (h : Closes fr after) (t : Token) (ts : List Token) :
    Agree after (topStatement fr t ts) (topStatement fr t (ts ++ after)) := by
  rw [topStatement, topStatement, h.nextIs_append, h.nextIs_append]
  refine .ite (fun _ => h.aliasStatement_agree (t :: ts)) fun _ => ?_
  by_cases hopen : nextIs "(" ts
  · -- the token after the parenthesis is not the last that is looked at
    have hdrop : (ts ++ after).drop 1 = ts.drop 1 ++ after := by
      cases ts with
      | nil => cases hopen
      | cons u ts => rfl
    rw [if_pos hopen, if_pos hopen, hdrop, h.isDeclaration_append]
    exact .ite (fun _ => h.functionStatement_agree (t :: ts)) fun _ =>
      h.callStatement_agree (t :: ts)
  · rw [if_neg hopen, if_neg hopen]
    exact h.stop_alike _ ts

theorem statements_alike (h : Closes fr after) (ts : List Token) :
    Alike (· = ·) (statements fr ts) (statements fr (ts ++ after)) := by
  match ts with
  | [] =>
    cases after with
    | nil =>
      rw [List.nil_append, statements]
      exact .ok rfl
    | cons e after =>
      have he : e.kind = .eof := h.kind e rfl
      rw [List.nil_append, statements, statements, if_pos he]
      exact .ok rfl
  | t :: rest =>
    rw [List.cons_append, statements, statements]
    refine .ite (fun _ => .ok rfl) fun _ => .ite (fun _ => ?_) fun _ =>
      .ite (fun _ => h.statements_alike rest) fun _ => .error
    refine (h.topStatement_agree t rest).bind fun p _ => ?_
    exact (h.statements_alike p.rest).bind fun _ _ hss => .ok (by rw [hss])
termination_by ts.length
decreasing_by
  · exact p.shorter
  · exact Nat.lt_succ_self _

end Closes

theorem find?_eof_eq (ts : List Token) :
    ts.find? (·.kind == .eof) = (ts.dropWhile (·.kind != .eof)).head? :=
  ts.find?_eq_head?_dropWhile_not (·.kind == .eof)

theorem ends_dropWhile (file : String) (ts : List Token) :
    Closes ⟨file, endToken ts⟩ (ts.dropWhile (·.kind != .eof)) where
  headD_eq := by
    rw [endToken, find?_eof_eq]
    cases ts.dropWhile (·.kind != .eof) <;> rfl
  kind t ht := by
    rw [← find?_eof_eq] at ht
    simpa using List.find?_some ht

end Parse

/-- The tokens after the first end mark are not read. -/
theorem Tree.parse_eq (file : String) (ts : List Token) :
    Tree.parse file ts = do
      let ss ← Parse.statements ⟨file, Parse.endToken ts⟩ (ts.takeWhile (·.kind != .eof))
      return .program ss file (some ((ts.headD (Parse.endToken ts)).span file)) := by
  have halike := (Parse.ends_dropWhile file ts).statements_alike (ts.takeWhile (·.kind != .eof))
  rw [List.takeWhile_append_dropWhile] at halike
  rw [Tree.parse, halike.eq]
  rfl

end StructLang
