import StructLang.Proofs.Tree.ParseSound

/-!
What the grammar derives, the parser accepts, with the tree of the derivation. The parser has a loop
where the grammar recurs on the left, so the statement about a derivation is that after its tokens
the loop goes on with its tree.
-/

namespace StructLang

def Parsed.pair {α : Type} {ts : List Token} (p : Parsed α ts) : α × List Token :=
  (p.value, p.rest)

def Continued.pair {α : Type} {ts : List Token} (p : Continued α ts) : α × List Token :=
  (p.value, p.rest)

namespace Parse

variable {α : Type} {ts : List Token}

theorem exists_of_parsed {x : Except Failure (Parsed α ts)} {a : α} {rest : List Token}
    (h : Parsed.pair <$> x = .ok (a, rest)) : ∃ hlt, x = .ok ⟨a, rest, hlt⟩ := by
  cases x with
  | error e => cases h
  | ok p =>
    cases h
    exact ⟨p.shorter, rfl⟩

open Grammar

variable {fr : Frame}

theorem isSymbol_iff {t : Token} {s : String} : t.isSymbol s ↔ t.kind = .symbol ∧ t.text = s := by
  simp [Token.isSymbol]

theorem isSymbol_eq_false {t : Token} {s s' : String} (h : t.isSymbol s) (hs : s ≠ s') :
    t.isSymbol s' = false := by
  simp [Token.isSymbol, (isSymbol_iff.1 h).2, hs]

theorem nextIs_cons {t : Token} {s : String} (h : t.isSymbol s) (rest : List Token) :
    nextIs s (t :: rest) = true := h

theorem nextIs_cons_of_ne {t : Token} {s s' : String} (h : t.isSymbol s) (hs : s ≠ s')
    (rest : List Token) : ¬ nextIs s' (t :: rest) = true := by
  simp [nextIs, isSymbol_eq_false h hs]

theorem symbol_cons {t : Token} {s : String} (h : t.isSymbol s) (rest : List Token) :
    symbol fr s (t :: rest) = .ok ⟨t, rest, Nat.lt_succ_self _⟩ := by
  simp [symbol, expect, h]

theorem nameToken_cons {t : Token} (h : t.isName) (rest : List Token) :
    nameToken fr (t :: rest) = .ok ⟨t, rest, Nat.lt_succ_self _⟩ := by
  simp [nameToken, expect, h]

theorem ofKind_cons {t : Token} {kind : TokenKind} (h : t.kind = kind) (rest : List Token) :
    ofKind fr kind (t :: rest) = .ok ⟨t, rest, Nat.lt_succ_self _⟩ := by
  simp [ofKind, expect, h]

def Rests (ts : List Token) : Prop := nextIs "." ts = false ∧ nextIs "(" ts = false

def Ends (ts : List Token) : Prop := ∀ t us, ts = t :: us → ∃ s ∈ [")", ",", ";"], t.isSymbol s

theorem Ends.nil : Ends [] := by
  intro t us h
  cases h

theorem Ends.cons {t : Token} {s : String} (hs : s ∈ [")", ",", ";"]) (h : t.isSymbol s)
    (us : List Token) : Ends (t :: us) := by
  intro t' us' heq
  cases heq
  exact ⟨s, hs, h⟩

theorem Ends.rests (h : Ends ts) : Rests ts := by
  cases ts with
  | nil => exact ⟨rfl, rfl⟩
  | cons t us =>
    obtain ⟨s, hs, ht⟩ := h t us rfl
    constructor
    · exact isSymbol_eq_false ht (by rintro rfl; simp at hs)
    · exact isSymbol_eq_false ht (by rintro rfl; simp at hs)

theorem Ends.stops (h : Ends ts) (n : Nat) : Stops n ts := by
  intro t us op heq hop
  obtain ⟨s, _, ht⟩ := h t us heq
  rw [IsOperator, (isSymbol_iff.1 ht).1] at hop
  cases hop.1

theorem Stops.mono {n m : Nat} (h : Stops n ts) (hle : n ≤ m) : Stops m ts :=
  fun t us op heq hop => Nat.lt_of_lt_of_le (h t us op heq hop) hle

theorem operandTail_rests {e : Tree} (h : Rests ts) :
    operandTail fr e ts = .ok ⟨e, ts, Nat.le_refl _⟩ := by
  cases ts with
  | nil => rw [operandTail]
  | cons t rest =>
    have hdot : t.isSymbol "." = false := h.1
    have hopen : t.isSymbol "(" = false := h.2
    rw [operandTail]
    simp [hdot, hopen]

theorem binaryTail_stops {min : Nat} {e : Tree} (h : Stops min ts) :
    binaryTail fr min e ts = .ok ⟨e, ts, Nat.le_refl _⟩ := by
  cases ts with
  | nil => rw [binaryTail]
  | cons t rest =>
    rw [binaryTail]
    split
    · rfl
    · rename_i op hop
      rw [if_pos (h t rest op rfl (operator_eq_some.1 hop))]

theorem pair_binary (min : Nat) (ts : List Token) :
    Parsed.pair <$> binary fr min ts =
      Parsed.pair <$> operand fr ts >>= fun p => Continued.pair <$> binaryTail fr min p.1 p.2 := by
  rw [binary]
  cases operand fr ts with
  | error e => rfl
  | ok p =>
    change Parsed.pair <$> (binaryTail fr min p.value p.rest >>= _) =
      Continued.pair <$> binaryTail fr min p.value p.rest
    cases binaryTail fr min p.value p.rest with
    | error e => rfl
    | ok q => rfl

theorem pair_operand (ts : List Token) :
    Parsed.pair <$> operand fr ts =
      Parsed.pair <$> primary fr ts >>= fun p => Continued.pair <$> operandTail fr p.1 p.2 := by
  rw [operand]
  cases primary fr ts with
  | error e => rfl
  | ok p =>
    change Parsed.pair <$> (operandTail fr p.value p.rest >>= _) =
      Continued.pair <$> operandTail fr p.value p.rest
    cases operandTail fr p.value p.rest with
    | error e => rfl
    | ok q => rfl

theorem pair_binaryTail {t : Token} {op : Operator} {min : Nat} (h : IsOperator t op)
    (hle : min ≤ op.level) (left : Tree) (rest : List Token) :
    Continued.pair <$> binaryTail fr min left (t :: rest) =
      Parsed.pair <$> binary fr (op.level + 1) rest >>= fun p =>
        Continued.pair <$> binaryTail fr min (.binary op left p.1 (fr.place t)) p.2 := by
  rw [binaryTail, operator_eq_some.2 h]
  dsimp only
  rw [if_neg (Nat.not_lt.2 hle)]
  cases binary fr (op.level + 1) rest with
  | error e => rfl
  | ok p =>
    change Continued.pair <$> (binaryTail fr min _ p.rest >>= _) =
      Continued.pair <$> binaryTail fr min (.binary op left p.value (fr.place t)) p.rest
    cases binaryTail fr min (.binary op left p.value (fr.place t)) p.rest with
    | error e => rfl
    | ok q => rfl

theorem pair_operandTail_member {dot x : Token} (hdot : dot.isSymbol ".") (hx : x.isName) (e : Tree)
    (rest : List Token) :
    Continued.pair <$> operandTail fr e (dot :: x :: rest) =
      Continued.pair <$> operandTail fr (.member e x.text (fr.place x)) rest := by
  rw [operandTail, if_pos hdot, nameToken_cons hx]
  change Continued.pair <$> (operandTail fr _ rest >>= _) = _
  cases operandTail fr (.member e x.text (fr.place x)) rest with
  | error e => rfl
  | ok q => rfl

theorem pair_operandTail_call {a b : Token} {us rest : List Token} {es : List Tree} {hle}
    (ha : a.isSymbol "(") (hb : b.isSymbol ")")
    (hargs : arguments fr us = .ok ⟨es, b :: rest, hle⟩) (e : Tree) :
    Continued.pair <$> operandTail fr e (a :: us) =
      Continued.pair <$> operandTail fr (.call e es e.loc) rest := by
  rw [operandTail, if_neg (by simp [isSymbol_eq_false ha]), if_pos ha, hargs]
  change Continued.pair <$> (symbol fr ")" (b :: rest) >>= _) = _
  rw [symbol_cons hb]
  change Continued.pair <$> (operandTail fr _ rest >>= _) = _
  cases operandTail fr (.call e es e.loc) rest with
  | error e => rfl
  | ok q => rfl

/-- After `ts`, the loop that looks for operators of level `m` and below stands at `e`. -/
def Reaches (fr : Frame) (m : Nat) (ts : List Token) (e : Tree) : Prop :=
  ∀ min rest, min ≤ m → Rests rest → Stops (m + 1) rest →
    Parsed.pair <$> binary fr min (ts ++ rest) = Continued.pair <$> binaryTail fr min e rest

theorem Reaches.read {m : Nat} {e : Tree} {rest : List Token} (h : Reaches fr m ts e)
    (hrest : Ends rest) : ∃ hlt, binary fr 0 (ts ++ rest) = .ok ⟨e, rest, hlt⟩ := by
  have hpair := h 0 rest (Nat.zero_le m) hrest.rests (hrest.stops _)
  rw [binaryTail_stops (hrest.stops 0)] at hpair
  exact exists_of_parsed hpair

def Starts (t : Token) : Prop :=
  t.kind = .number ∨ t.kind = .string ∨ (t.isName ∧ t.isReturn = false) ∨ t.isSymbol "("

theorem Starts.isSymbol_eq_false {t : Token} (h : Starts t) {s : String} (hs : s ≠ "(") :
    t.isSymbol s = false := by
  obtain h | h | h | h := h
  · simp [Token.isSymbol, h]
  · simp [Token.isSymbol, h]
  · obtain h | h := by simpa [Token.isName] using h.1
    · simp [Token.isSymbol, h]
    · simp [Token.isSymbol, h]
  · exact Parse.isSymbol_eq_false h hs.symm

end Parse

namespace Grammar

open Parse

mutual

theorem Expr.starts {n : Nat} {ts : List Token} {e : Tree} (h : Expr n ts e) :
    ∃ t us, ts = t :: us ∧ Starts t := by
  cases h with
  | operand h => exact h.starts
  | binary _ hl _ _ =>
    obtain ⟨t, us, rfl, ht⟩ := hl.starts
    exact ⟨t, _, rfl, ht⟩

theorem Operand.starts {ts : List Token} {e : Tree} (h : Operand ts e) :
    ∃ t us, ts = t :: us ∧ Starts t := by
  cases h with
  | primary h => exact h.starts
  | member h _ _ =>
    obtain ⟨t, us, rfl, ht⟩ := h.starts
    exact ⟨t, _, rfl, ht⟩
  | call h _ _ _ =>
    obtain ⟨t, us, rfl, ht⟩ := h.starts
    exact ⟨t, _, rfl, ht⟩

theorem Primary.starts {ts : List Token} {e : Tree} (h : Primary ts e) :
    ∃ t us, ts = t :: us ∧ Starts t := by
  cases h with
  | number h => exact ⟨_, _, rfl, .inl h⟩
  | string h => exact ⟨_, _, rfl, .inr (.inl h)⟩
  | name h hr => exact ⟨_, _, rfl, .inr (.inr (.inl ⟨h, hr⟩))⟩
  | parens h _ _ => exact ⟨_, _, rfl, .inr (.inr (.inr h))⟩

end

theorem Items.starts {ts : List Token} {es : List Tree} (h : Items ts es) :
    ∃ t us, ts = t :: us ∧ Starts t := by
  cases h with
  | one h => exact h.starts
  | cons h _ _ =>
    obtain ⟨t, us, rfl, ht⟩ := h.starts
    exact ⟨t, _, rfl, ht⟩

def InExpr (t : Token) : Prop :=
  t.kind ∈ [.number, .string, .identifier, .keyword, .operator] ∨
    ∃ s ∈ ["(", ")", ".", ","], t.isSymbol s

theorem InExpr.of_isName {t : Token} (h : t.isName) : InExpr t := by
  left
  obtain h | h := by simpa [Token.isName] using h
  · simp [h]
  · simp [h]

theorem InExpr.kind_ne_eof {t : Token} (h : InExpr t) : t.kind ≠ .eof := by
  intro heof
  obtain h | ⟨s, _, h⟩ := h
  · simp [heof] at h
  · simp [Token.isSymbol, heof] at h

theorem InExpr.noColon {t : Token} (h : InExpr t) : t.isSymbol ":" = false := by
  obtain h | ⟨s, hs, h⟩ := h
  · rw [Bool.eq_false_iff]
    intro hcolon
    simp [(isSymbol_iff.1 hcolon).1] at h
  · apply isSymbol_eq_false h
    rintro rfl
    simp at hs

mutual

theorem Expr.inExpr {n : Nat} {ts : List Token} {e : Tree} (h : Expr n ts e) :
    ∀ t ∈ ts, InExpr t := by
  match h with
  | .operand h => exact h.inExpr
  | .binary _ hl hop hr =>
    intro t ht
    obtain ht | rfl | ht := by simpa using ht
    · exact hl.inExpr t ht
    · exact .inl (by simp [hop.1])
    · exact hr.inExpr t ht

theorem Operand.inExpr {ts : List Token} {e : Tree} (h : Operand ts e) :
    ∀ t ∈ ts, InExpr t := by
  match h with
  | .primary h => exact h.inExpr
  | .member h hdot hx =>
    intro t ht
    obtain ht | rfl | rfl := by simpa using ht
    · exact h.inExpr t ht
    · exact .inr ⟨".", by simp, hdot⟩
    · exact .of_isName hx
  | .call h ha hargs hb =>
    intro t ht
    obtain ht | rfl | ht | rfl := by simpa using ht
    · exact h.inExpr t ht
    · exact .inr ⟨"(", by simp, ha⟩
    · exact hargs.inExpr t ht
    · exact .inr ⟨")", by simp, hb⟩

theorem Primary.inExpr {ts : List Token} {e : Tree} (h : Primary ts e) :
    ∀ t ∈ ts, InExpr t := by
  match h with
  | .number h => simp [InExpr, h]
  | .string h => simp [InExpr, h]
  | .name h _ =>
    intro t ht
    obtain rfl := List.mem_singleton.1 ht
    exact .of_isName h
  | .parens ha h hb =>
    intro t ht
    obtain rfl | ht | rfl := by simpa using ht
    · exact .inr ⟨"(", by simp, ha⟩
    · exact h.inExpr t ht
    · exact .inr ⟨")", by simp, hb⟩

theorem Arguments.inExpr {ts : List Token} {es : List Tree} (h : Arguments ts es) :
    ∀ t ∈ ts, InExpr t := by
  match h with
  | .none => simp
  | .some h => exact h.inExpr

theorem Items.inExpr {ts : List Token} {es : List Tree} (h : Items ts es) :
    ∀ t ∈ ts, InExpr t := by
  match h with
  | .one h => exact h.inExpr
  | .cons h hc hs =>
    intro t ht
    obtain ht | rfl | ht := by simpa using ht
    · exact h.inExpr t ht
    · exact .inr ⟨",", by simp, hc⟩
    · exact hs.inExpr t ht

end

variable {fr : Frame}

theorem arguments_of_binary {ts us rest vs : List Token} {e : Tree} {es : List Tree} {hlt hle}
    (he : Expr 0 ts e) {e' : Tree}
    (h : binary fr 0 (ts ++ us) = .ok ⟨e', rest, hlt⟩)
    (htail : argumentsTail fr rest = .ok ⟨es, vs, hle⟩) :
    ∃ hle, arguments fr (ts ++ us) = .ok ⟨e' :: es, vs, hle⟩ := by
  obtain ⟨t, ws, rfl, ht⟩ := he.starts
  refine ⟨by omega, ?_⟩
  rw [arguments, if_neg (by simp [nextIs, ht.isSymbol_eq_false]), h]
  simp [htail]

theorem argumentsTail_of_binary {c : Token} {us rest vs : List Token} {e : Tree} {es : List Tree}
    {hlt hle} (hc : c.isSymbol ",") (h : binary fr 0 us = .ok ⟨e, rest, hlt⟩)
    (htail : argumentsTail fr rest = .ok ⟨es, vs, hle⟩) :
    ∃ hle, argumentsTail fr (c :: us) = .ok ⟨e :: es, vs, hle⟩ := by
  refine ⟨by simp; omega, ?_⟩
  rw [argumentsTail, if_pos hc, h]
  simp [htail]

variable (fr)

mutual

theorem Expr.complete {m : Nat} {ts : List Token} {e : Tree} (h : Expr m ts e) :
    ∃ e', e'.unplaced = e ∧ Reaches fr m ts e' := by
  match h with
  | .operand h =>
    obtain ⟨e', hu, he⟩ := h.complete
    refine ⟨e', hu, ?_⟩
    intro min rest _ hrest _
    rw [pair_binary, he rest, operandTail_rests hrest]
    rfl
  | @Expr.binary _ ls l t op rs r hm hl ht hr =>
    obtain ⟨l', hlu, hl'⟩ := hl.complete
    obtain ⟨r', hru, hr'⟩ := hr.complete
    refine ⟨.binary op l' r' (fr.place t), by rw [Tree.unplaced, hlu, hru], ?_⟩
    intro min rest hmin hrest hstops
    have hop : Rests (t :: rs ++ rest) ∧ Stops (op.level + 1) (t :: rs ++ rest) := by
      refine ⟨⟨?_, ?_⟩, ?_⟩
      · simp [nextIs, Token.isSymbol, ht.1]
      · simp [nextIs, Token.isSymbol, ht.1]
      · intro t' us op' heq hop'
        cases heq
        rw [hop'.unique ht]
        exact Nat.lt_succ_self _
    have hright := hr' (op.level + 1) rest (Nat.le_refl _) hrest
      (hstops.mono (by omega))
    rw [binaryTail_stops (hstops.mono (by omega))] at hright
    calc Parsed.pair <$> binary fr min (ls ++ t :: rs ++ rest)
        = Parsed.pair <$> binary fr min (ls ++ (t :: rs ++ rest)) := by rw [List.append_assoc]
      _ = Continued.pair <$> binaryTail fr min l' (t :: (rs ++ rest)) :=
          hl' min _ (Nat.le_trans hmin hm) hop.1 hop.2
      _ = Continued.pair <$> binaryTail fr min (.binary op l' r' (fr.place t)) rest := by
          rw [pair_binaryTail ht (Nat.le_trans hmin hm), hright]
          rfl

theorem Operand.complete {ts : List Token} {e : Tree} (h : Operand ts e) :
    ∃ e', e'.unplaced = e ∧ ∀ rest,
      Parsed.pair <$> operand fr (ts ++ rest) = Continued.pair <$> operandTail fr e' rest := by
  match h with
  | .primary h =>
    obtain ⟨e', hu, he⟩ := h.complete
    refine ⟨e', hu, ?_⟩
    intro rest
    obtain ⟨hlt, hp⟩ := he rest
    rw [pair_operand, hp]
    rfl
  | @Operand.member ts e dot x h hdot hx =>
    obtain ⟨e', hu, he⟩ := h.complete
    refine ⟨.member e' x.text (fr.place x), by rw [Tree.unplaced, hu], ?_⟩
    intro rest
    rw [List.append_assoc, he]
    exact pair_operandTail_member hdot hx e' rest
  | @Operand.call ts e us es a b h ha hargs hb =>
    obtain ⟨e', hu, he⟩ := h.complete
    obtain ⟨es', hus, hes⟩ := hargs.complete
    refine ⟨.call e' es' e'.loc, by rw [Tree.unplaced, hu, hus], ?_⟩
    intro rest
    obtain ⟨hle, hp⟩ := hes b rest hb
    rw [List.append_assoc, List.append_assoc, he]
    exact pair_operandTail_call ha hb hp e'

theorem Primary.complete {ts : List Token} {e : Tree} (h : Primary ts e) :
    ∃ e', e'.unplaced = e ∧ ∀ rest, ∃ hlt, primary fr (ts ++ rest) = .ok ⟨e', rest, hlt⟩ := by
  match h with
  | @Primary.number t h =>
    refine ⟨.number t.text (fr.place t), rfl, ?_⟩
    intro rest
    exact ⟨Nat.lt_succ_self _, by simp [primary, h]⟩
  | @Primary.string t h =>
    refine ⟨.string t.text (fr.place t), rfl, ?_⟩
    intro rest
    exact ⟨Nat.lt_succ_self _, by simp [primary, h]⟩
  | @Primary.name t h hr =>
    refine ⟨.name t.text (fr.place t), rfl, ?_⟩
    intro rest
    refine ⟨Nat.lt_succ_self _, ?_⟩
    obtain hk | hk := by simpa [Token.isName] using h
    · simp [primary, hk, h, hr]
    · simp [primary, hk, h, hr]
  | @Primary.parens ts e a b ha h hb =>
    obtain ⟨e', hu, he⟩ := h.complete
    refine ⟨e', hu, ?_⟩
    intro rest
    rw [List.append_assoc, List.cons_append, List.singleton_append]
    obtain ⟨hlt, hp⟩ := he.read (.cons (by simp) hb rest)
    have hk := (isSymbol_iff.1 ha).1
    refine ⟨by simp; omega, ?_⟩
    rw [primary]
    simp [hk, ha, hp, Token.isName, symbol_cons hb]

theorem Arguments.complete {ts : List Token} {es : List Tree} (h : Arguments ts es) :
    ∃ es', Tree.unplacedAll es' = es ∧ ∀ b rest, b.isSymbol ")" →
      ∃ hle, arguments fr (ts ++ b :: rest) = .ok ⟨es', b :: rest, hle⟩ := by
  match h with
  | .none =>
    refine ⟨[], rfl, ?_⟩
    intro b rest hb
    exact ⟨Nat.le_refl _, by simp [arguments, nextIs, hb]⟩
  | .some h =>
    obtain ⟨es', hus, hes⟩ := h.complete
    exact ⟨es', hus, fun b rest hb => (hes b rest hb).1⟩

theorem Items.complete {ts : List Token} {es : List Tree} (h : Items ts es) :
    ∃ es', Tree.unplacedAll es' = es ∧ ∀ b rest, b.isSymbol ")" →
      (∃ hle, arguments fr (ts ++ b :: rest) = .ok ⟨es', b :: rest, hle⟩) ∧
      ∀ c, c.isSymbol "," →
        ∃ hle, argumentsTail fr (c :: ts ++ b :: rest) = .ok ⟨es', b :: rest, hle⟩ := by
  match h with
  | @Items.one ts e h =>
    obtain ⟨e', hu, he⟩ := h.complete
    refine ⟨[e'], by rw [Tree.unplacedAll, hu, Tree.unplacedAll], ?_⟩
    intro b rest hb
    obtain ⟨hlt, hp⟩ := he.read (.cons (by simp) hb rest)
    have htail : argumentsTail fr (b :: rest) = .ok ⟨[], b :: rest, Nat.le_refl _⟩ := by
      rw [argumentsTail, if_neg (by simp [isSymbol_eq_false hb])]
    exact ⟨arguments_of_binary h hp htail, fun c hc => argumentsTail_of_binary hc hp htail⟩
  | @Items.cons ts e us es c h hc hs =>
    obtain ⟨e', hu, he⟩ := h.complete
    obtain ⟨es', hus, hes⟩ := hs.complete
    refine ⟨e' :: es', by rw [Tree.unplacedAll, hu, hus], ?_⟩
    intro b rest hb
    obtain ⟨hlt, hp⟩ := he.read (.cons (by simp) hc (us ++ b :: rest))
    obtain ⟨hle, htail⟩ := (hes b rest hb).2 c hc
    refine ⟨?_, fun c' hc' => ?_⟩
    · rw [List.append_assoc]
      exact arguments_of_binary h hp htail
    · rw [List.cons_append, List.append_assoc]
      exact argumentsTail_of_binary hc' hp htail

end

end Grammar

end StructLang
