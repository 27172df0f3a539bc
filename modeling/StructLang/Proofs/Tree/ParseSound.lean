import StructLang.Proofs.Outcome
import StructLang.Proofs.Tree.Grammar
import StructLang.Tree.Parse

namespace StructLang

namespace Operator

theorem ofSymbol?_eq_some {s : String} {op : Operator} : ofSymbol? s = some op ↔ s = op.symbol := by
  constructor
  · intro h
    have hs := List.find?_some h
    exact (beq_iff_eq.1 hs).symm
  · rintro rfl
    exact ofSymbol?_symbol op

end Operator

namespace Parse

open Grammar

def Stops (n : Nat) (ts : List Token) : Prop :=
  ∀ t us op, ts = t :: us → IsOperator t op → op.level < n

theorem operator_eq_some {t : Token} {op : Operator} :
    (if t.kind = .operator then Operator.ofSymbol? t.text else none) = some op ↔
      IsOperator t op := by
  by_cases h : t.kind = .operator <;> simp [IsOperator, h, Operator.ofSymbol?_eq_some]

theorem append_trans {ts us vs ls rs : List Token} (h : ts = ls ++ us) (h' : us = rs ++ vs) :
    ts = ls ++ rs ++ vs := by
  rw [h, h', List.append_assoc]

variable {fr : Frame} {ts : List Token}

theorem expect_sound {test : Token → Bool} {expected : String} {p : Parsed Token ts}
    (h : expect fr test expected ts = .ok p) : ts = p.value :: p.rest ∧ test p.value := by
  cases ts with
  | nil => cases h
  | cons t ts =>
    rw [expect] at h
    split at h
    · cases h
      exact ⟨rfl, ‹_›⟩
    · cases h

theorem symbol_sound {s : String} {p : Parsed Token ts} (h : symbol fr s ts = .ok p) :
    ts = p.value :: p.rest ∧ p.value.isSymbol s :=
  expect_sound h

theorem nameToken_sound {p : Parsed Token ts} (h : nameToken fr ts = .ok p) :
    ts = p.value :: p.rest ∧ p.value.isName :=
  expect_sound h

theorem ofKind_sound {kind : TokenKind} {p : Parsed Token ts} (h : ofKind fr kind ts = .ok p) :
    ts = p.value :: p.rest ∧ p.value.kind = kind := by
  simpa using expect_sound h

mutual

theorem binary_sound {min : Nat} {ts : List Token} {p : Parsed Tree ts}
    (h : binary fr min ts = .ok p) :
    ∃ us, ts = us ++ p.rest ∧ Expr min us p.value.unplaced ∧ Stops min p.rest := by
  rw [binary] at h
  obtain ⟨q, hq, h⟩ := bind_eq_ok.1 h
  obtain ⟨r, hr, h⟩ := bind_eq_ok.1 h
  cases h
  obtain ⟨ls, hls, hl⟩ := operand_sound hq
  obtain ⟨us, hus, he, hs⟩ := binaryTail_sound hr (.operand hl) fun _ _ _ _ _ _ => .operand hl
  exact ⟨ls ++ us, append_trans hls hus, he, hs⟩
termination_by (ts.length, 2)
decreasing_by
  · exact Prod.Lex.right _ (by decide)
  · exact Prod.Lex.left _ _ q.shorter

theorem binaryTail_sound {min : Nat} {left : Tree} {ls ts : List Token} {p : Continued Tree ts}
    (h : binaryTail fr min left ts = .ok p) (hl : Expr min ls left.unplaced)
    (hnext : ∀ t us op, ts = t :: us → IsOperator t op → min ≤ op.level →
      Expr op.level ls left.unplaced) :
    ∃ us, ts = us ++ p.rest ∧ Expr min (ls ++ us) p.value.unplaced ∧ Stops min p.rest := by
  match ts with
  | [] =>
    rw [binaryTail] at h
    cases h
    exact ⟨[], rfl, by simpa using hl, by simp [Stops]⟩
  | t :: rest =>
    rw [binaryTail] at h
    split at h
    · rename_i hop
      cases h
      refine ⟨[], rfl, by simpa using hl, ?_⟩
      intro t' us op ht hop'
      cases ht
      rw [operator_eq_some.2 hop'] at hop
      cases hop
    · rename_i op hop
      rw [operator_eq_some] at hop
      split at h
      · rename_i hlt
        cases h
        refine ⟨[], rfl, by simpa using hl, ?_⟩
        intro t' us op' ht hop'
        cases ht
        rwa [hop'.unique hop]
      · rename_i hlt
        obtain ⟨q, hq, h⟩ := bind_eq_ok.1 h
        obtain ⟨r, hr, h⟩ := bind_eq_ok.1 h
        cases h
        obtain ⟨rs, hrs, hr', hs⟩ := binary_sound hq
        have hle : min ≤ op.level := Nat.le_of_not_lt hlt
        have hleft := hnext t rest op rfl hop hle
        -- the right side ends before an operator that binds tighter, so the next one is no tighter
        have hbin : ∀ n, n ≤ op.level → Expr n (ls ++ t :: rs)
            (Tree.binary op left q.value (fr.place t)).unplaced :=
          fun n hn => .binary hn hleft hop hr'
        obtain ⟨us, hus, he, hs'⟩ := binaryTail_sound hr (hbin min hle)
          fun t' us' op' ht hop' _ => hbin op'.level (Nat.le_of_lt_succ (hs t' us' op' ht hop'))
        exact ⟨t :: rs ++ us, append_trans (congrArg (t :: ·) hrs) hus, by simpa using he, hs'⟩
termination_by (ts.length, 0)
decreasing_by
  · exact Prod.Lex.left _ _ (Nat.lt_succ_self _)
  · exact Prod.Lex.left _ _ (Nat.lt_succ_of_lt q.shorter)

theorem operand_sound {ts : List Token} {p : Parsed Tree ts} (h : operand fr ts = .ok p) :
    ∃ us, ts = us ++ p.rest ∧ Operand us p.value.unplaced := by
  rw [operand] at h
  obtain ⟨q, hq, h⟩ := bind_eq_ok.1 h
  obtain ⟨r, hr, h⟩ := bind_eq_ok.1 h
  cases h
  obtain ⟨ls, hls, hl⟩ := primary_sound hq
  obtain ⟨us, hus, he⟩ := operandTail_sound hr (.primary hl)
  exact ⟨ls ++ us, append_trans hls hus, he⟩
termination_by (ts.length, 1)
decreasing_by
  · exact Prod.Lex.right _ (by decide)
  · exact Prod.Lex.left _ _ q.shorter

theorem operandTail_sound {e : Tree} {ls ts : List Token} {p : Continued Tree ts}
    (h : operandTail fr e ts = .ok p) (he : Operand ls e.unplaced) :
    ∃ us, ts = us ++ p.rest ∧ Operand (ls ++ us) p.value.unplaced := by
  match ts with
  | [] =>
    rw [operandTail] at h
    cases h
    exact ⟨[], rfl, by simpa using he⟩
  | t :: rest =>
    rw [operandTail] at h
    split at h
    · rename_i hdot
      obtain ⟨x, hx, h⟩ := bind_eq_ok.1 h
      obtain ⟨r, hr, h⟩ := bind_eq_ok.1 h
      cases h
      obtain ⟨hrest, hname⟩ := nameToken_sound hx
      obtain ⟨us, hus, he'⟩ := operandTail_sound hr (.member he hdot hname)
      exact ⟨[t, x.value] ++ us, append_trans (congrArg (t :: ·) hrest) hus, by simpa using he'⟩
    · split at h
      · rename_i hopen
        obtain ⟨q, hq, h⟩ := bind_eq_ok.1 h
        obtain ⟨b, hb, h⟩ := bind_eq_ok.1 h
        obtain ⟨r, hr, h⟩ := bind_eq_ok.1 h
        cases h
        obtain ⟨as, has, ha⟩ := arguments_sound hq
        obtain ⟨hrest, hclose⟩ := symbol_sound hb
        obtain ⟨us, hus, he'⟩ := operandTail_sound hr (.call he hopen ha hclose)
        exact ⟨t :: as ++ [b.value] ++ us,
          append_trans (append_trans (congrArg (t :: ·) has) hrest) hus, by simpa using he'⟩
      · cases h
        exact ⟨[], rfl, by simpa using he⟩
termination_by (ts.length, 0)
decreasing_by
  · exact Prod.Lex.left _ _ (Nat.lt_succ_self _)
  · exact Prod.Lex.left _ _ (Nat.lt_succ_of_lt (Nat.lt_of_lt_of_le b.shorter q.noLonger))
  · exact Prod.Lex.left _ _ (Nat.lt_succ_of_lt x.shorter)

theorem primary_sound {ts : List Token} {p : Parsed Tree ts} (h : primary fr ts = .ok p) :
    ∃ us, ts = us ++ p.rest ∧ Primary us p.value.unplaced := by
  match ts with
  | [] =>
    rw [primary] at h
    cases h
  | t :: rest =>
    rw [primary] at h
    split at h
    · cases h
      exact ⟨[t], rfl, .number ‹_›⟩
    · split at h
      · cases h
        exact ⟨[t], rfl, .string ‹_›⟩
      · split at h
        · rename_i hname
          cases h
          simp only [Bool.and_eq_true, Bool.not_eq_true'] at hname
          exact ⟨[t], rfl, .name hname.1 hname.2⟩
        · split at h
          · rename_i hopen
            obtain ⟨q, hq, h⟩ := bind_eq_ok.1 h
            obtain ⟨b, hb, h⟩ := bind_eq_ok.1 h
            cases h
            obtain ⟨us, hus, he, _⟩ := binary_sound hq
            obtain ⟨hrest, hclose⟩ := symbol_sound hb
            exact ⟨t :: us ++ [b.value], append_trans (congrArg (t :: ·) hus) hrest,
              .parens hopen he hclose⟩
          · cases h
termination_by (ts.length, 0)
decreasing_by exact Prod.Lex.left _ _ (Nat.lt_succ_self _)

theorem arguments_sound {ts : List Token} {p : Continued (List Tree) ts}
    (h : arguments fr ts = .ok p) :
    ∃ us, ts = us ++ p.rest ∧ Arguments us (Tree.unplacedAll p.value) := by
  rw [arguments] at h
  split at h
  · cases h
    exact ⟨[], rfl, .none⟩
  · obtain ⟨q, hq, h⟩ := bind_eq_ok.1 h
    obtain ⟨r, hr, h⟩ := bind_eq_ok.1 h
    cases h
    obtain ⟨ls, hls, hl, _⟩ := binary_sound hq
    obtain ⟨us, hus, he⟩ := argumentsTail_sound hr hl
    exact ⟨ls ++ us, append_trans hls hus, .some he⟩
termination_by (ts.length, 3)
decreasing_by
  · exact Prod.Lex.right _ (by decide)
  · exact Prod.Lex.left _ _ q.shorter

theorem argumentsTail_sound {e : Tree} {ls ts : List Token} {p : Continued (List Tree) ts}
    (h : argumentsTail fr ts = .ok p) (he : Expr 0 ls e.unplaced) :
    ∃ us, ts = us ++ p.rest ∧ Items (ls ++ us) (Tree.unplacedAll (e :: p.value)) := by
  match ts with
  | [] =>
    rw [argumentsTail] at h
    cases h
    exact ⟨[], rfl, by simpa [Tree.unplacedAll] using Items.one he⟩
  | t :: rest =>
    rw [argumentsTail] at h
    split at h
    · rename_i hcomma
      obtain ⟨q, hq, h⟩ := bind_eq_ok.1 h
      obtain ⟨r, hr, h⟩ := bind_eq_ok.1 h
      cases h
      obtain ⟨rs, hrs, hr', _⟩ := binary_sound hq
      obtain ⟨us, hus, hes⟩ := argumentsTail_sound hr hr'
      exact ⟨t :: rs ++ us, append_trans (congrArg (t :: ·) hrs) hus, .cons he hcomma hes⟩
    · cases h
      exact ⟨[], rfl, by simpa [Tree.unplacedAll] using Items.one he⟩
termination_by (ts.length, 0)
decreasing_by
  · exact Prod.Lex.left _ _ (Nat.lt_succ_self _)
  · exact Prod.Lex.left _ _ (Nat.lt_succ_of_lt q.shorter)

end

theorem statement_sound {p : Parsed Tree ts} (h : statement fr ts = .ok p) :
    ∃ us, ts = us ++ p.rest ∧ Statement us p.value.unplaced := by
  cases ts with
  | nil => cases h
  | cons t rest =>
    rw [statement] at h
    split at h
    · rename_i hret
      obtain ⟨q, hq, h⟩ := bind_eq_ok.1 h
      obtain ⟨s, hs, h⟩ := bind_eq_ok.1 h
      cases h
      obtain ⟨us, hus, he, _⟩ := binary_sound hq
      obtain ⟨hrest, hsemi⟩ := symbol_sound hs
      exact ⟨t :: us ++ [s.value], append_trans (congrArg (t :: ·) hus) hrest, .ret hret he hsemi⟩
    · obtain ⟨q, hq, h⟩ := bind_eq_ok.1 h
      obtain ⟨s, hs, h⟩ := bind_eq_ok.1 h
      cases h
      obtain ⟨us, hus, he, _⟩ := binary_sound hq
      obtain ⟨hrest, hsemi⟩ := symbol_sound hs
      exact ⟨us ++ [s.value], append_trans hus hrest, .expr he hsemi⟩

theorem bodyTail_sound {ts : List Token} {p : Parsed (List Tree) ts} (h : bodyTail fr ts = .ok p) :
    ∃ us b, ts = us ++ [b] ++ p.rest ∧ Body us (Tree.unplacedAll p.value) ∧ b.isSymbol "\x7d" := by
  match ts with
  | [] =>
    rw [bodyTail] at h
    cases h
  | t :: rest =>
    rw [bodyTail] at h
    split at h
    · cases h
      exact ⟨[], t, rfl, .nil, ‹_›⟩
    · split at h
      · cases h
      · obtain ⟨s, hs, h⟩ := bind_eq_ok.1 h
        obtain ⟨q, hq, h⟩ := bind_eq_ok.1 h
        cases h
        obtain ⟨us, hus, hstmt⟩ := statement_sound hs
        obtain ⟨vs, b, hvs, hbody, hb⟩ := bodyTail_sound hq
        exact ⟨us ++ vs, b, by simpa using append_trans hus (hvs.trans (List.append_assoc ..)),
          .cons hstmt hbody, hb⟩
termination_by ts.length
decreasing_by exact s.shorter

theorem typeName_sound {p : Parsed Ty ts} (h : typeName fr ts = .ok p) :
    ∃ t, ts = t :: p.rest ∧ TypeName t p.value := by
  cases ts with
  | nil => cases h
  | cons t rest =>
    rw [typeName] at h
    split at h
    · cases h
      exact ⟨t, rfl, .literal ‹_›⟩
    · split at h
      · cases h
        exact ⟨t, rfl, .alias ‹_›⟩
      · cases h

theorem returnType_sound {p : Parsed Ty ts} (h : returnType fr ts = .ok p) :
    ∃ t, ts = t :: p.rest ∧ t.kind = .returnType ∧ p.value = .ofText t.text := by
  rw [returnType] at h
  obtain ⟨t, ht, h⟩ := bind_eq_ok.1 h
  cases h
  obtain ⟨hts, hkind⟩ := ofKind_sound ht
  exact ⟨t.value, hts, hkind, rfl⟩

theorem parameter_sound {p : Parsed Tree ts} (h : parameter fr ts = .ok p) :
    ∃ us, ts = us ++ p.rest ∧ Param us p.value.unplaced := by
  match ts with
  | [] => cases h
  | [t] => cases h
  | t :: colon :: rest =>
    rw [parameter] at h
    split at h
    · rename_i hhead
      obtain ⟨ty, hty, h⟩ := bind_eq_ok.1 h
      cases h
      obtain ⟨u, hu, htype⟩ := typeName_sound hty
      exact ⟨[t, colon, u], congrArg (t :: colon :: ·) hu, .mk hhead.1 hhead.2 htype⟩
    · cases h

theorem parametersTail_sound {x : Tree} {ls ts : List Token} {p : Continued (List Tree) ts}
    (h : parametersTail fr ts = .ok p) (hx : Param ls x.unplaced) :
    ∃ us, ts = us ++ p.rest ∧ Params (ls ++ us) (Tree.unplacedAll (x :: p.value)) := by
  match ts with
  | [] =>
    rw [parametersTail] at h
    cases h
    exact ⟨[], rfl, by simpa [Tree.unplacedAll] using Params.one hx⟩
  | t :: rest =>
    rw [parametersTail] at h
    split at h
    · rename_i hcomma
      obtain ⟨q, hq, h⟩ := bind_eq_ok.1 h
      obtain ⟨r, hr, h⟩ := bind_eq_ok.1 h
      cases h
      obtain ⟨rs, hrs, hr'⟩ := parameter_sound hq
      obtain ⟨us, hus, hes⟩ := parametersTail_sound hr hr'
      exact ⟨t :: rs ++ us, append_trans (congrArg (t :: ·) hrs) hus, .cons hx hcomma hes⟩
    · cases h
      exact ⟨[], rfl, by simpa [Tree.unplacedAll] using Params.one hx⟩
termination_by ts.length
decreasing_by exact Nat.lt_succ_of_lt q.shorter

theorem parameters_sound {p : Continued (List Tree) ts} (h : parameters fr ts = .ok p) :
    ∃ us, ts = us ++ p.rest ∧ Parameters us (Tree.unplacedAll p.value) := by
  rw [parameters] at h
  split at h
  · cases h
    exact ⟨[], rfl, .none⟩
  · obtain ⟨q, hq, h⟩ := bind_eq_ok.1 h
    obtain ⟨r, hr, h⟩ := bind_eq_ok.1 h
    cases h
    obtain ⟨ls, hls, hl⟩ := parameter_sound hq
    obtain ⟨us, hus, he⟩ := parametersTail_sound hr hl
    exact ⟨ls ++ us, append_trans hls hus, .some he⟩

theorem aliasStatement_sound {p : Parsed Tree ts} (h : aliasStatement fr ts = .ok p) :
    ∃ us, ts = us ++ p.rest ∧ TopStatement us p.value.unplaced := by
  rw [aliasStatement] at h
  obtain ⟨x, hx, h⟩ := bind_eq_ok.1 h
  obtain ⟨eq, heq, h⟩ := bind_eq_ok.1 h
  obtain ⟨ty, hty, h⟩ := bind_eq_ok.1 h
  obtain ⟨s, hs, h⟩ := bind_eq_ok.1 h
  cases h
  obtain ⟨hus, hname⟩ := ofKind_sound hx
  obtain ⟨hvs, heq⟩ := symbol_sound heq
  obtain ⟨t, hws, htype⟩ := typeName_sound hty
  obtain ⟨hxs, hsemi⟩ := symbol_sound hs
  refine ⟨[x.value, eq.value, t, s.value], ?_, .alias hname heq htype hsemi⟩
  calc ts = x.value :: x.rest := hus
    _ = x.value :: eq.value :: eq.rest := congrArg _ hvs
    _ = x.value :: eq.value :: t :: ty.rest := congrArg (_ :: _ :: ·) hws
    _ = x.value :: eq.value :: t :: s.value :: s.rest := congrArg (_ :: _ :: _ :: ·) hxs

theorem header_sound {x : Parsed Token ts} {a : Parsed Token x.rest}
    {q : Continued (List Tree) a.rest} {b : Parsed Token q.rest} {r : Parsed Ty b.rest}
    (hx : nameToken fr ts = .ok x) (ha : symbol fr "(" x.rest = .ok a)
    (hq : parameters fr a.rest = .ok q) (hb : symbol fr ")" q.rest = .ok b)
    (hr : returnType fr b.rest = .ok r) :
    ∃ us, ts = us ++ r.rest ∧ Header us x.value.text (Tree.unplacedAll q.value) r.value := by
  obtain ⟨hus, hname⟩ := nameToken_sound hx
  obtain ⟨hvs, hopen⟩ := symbol_sound ha
  obtain ⟨ps, hws, hps⟩ := parameters_sound hq
  obtain ⟨hxs, hclose⟩ := symbol_sound hb
  obtain ⟨t, hys, hkind, hty⟩ := returnType_sound hr
  refine ⟨x.value :: a.value :: ps ++ [b.value, t], ?_, hty ▸ .mk hname hopen hps hclose hkind⟩
  calc ts = x.value :: x.rest := hus
    _ = x.value :: a.value :: a.rest := congrArg _ hvs
    _ = x.value :: a.value :: (ps ++ q.rest) := congrArg (_ :: _ :: ·) hws
    _ = x.value :: a.value :: (ps ++ b.value :: b.rest) := congrArg (_ :: _ :: ps ++ ·) hxs
    _ = x.value :: a.value :: (ps ++ b.value :: t :: r.rest) :=
      congrArg (_ :: _ :: ps ++ _ :: ·) hys
    _ = x.value :: a.value :: ps ++ [b.value, t] ++ r.rest := by simp

theorem functionStatement_sound {p : Parsed Tree ts} (h : functionStatement fr ts = .ok p) :
    ∃ us, ts = us ++ p.rest ∧ TopStatement us p.value.unplaced := by
  rw [functionStatement] at h
  obtain ⟨x, hx, h⟩ := bind_eq_ok.1 h
  obtain ⟨a, ha, h⟩ := bind_eq_ok.1 h
  obtain ⟨q, hq, h⟩ := bind_eq_ok.1 h
  obtain ⟨b, hb, h⟩ := bind_eq_ok.1 h
  obtain ⟨r, hr, h⟩ := bind_eq_ok.1 h
  obtain ⟨us, hus, hhead⟩ := header_sound hx ha hq hb hr
  dsimp only at h
  split at h
  · split at h
    · cases h
    · rename_i hfree
      obtain ⟨c, hc, h⟩ := bind_eq_ok.1 h
      obtain ⟨body, hbody, h⟩ := bind_eq_ok.1 h
      cases h
      obtain ⟨hzs, hopen⟩ := symbol_sound hc
      obtain ⟨bs, d, hbs, hstmts, hclose⟩ := bodyTail_sound hbody
      refine ⟨us ++ c.value :: bs ++ [d], ?_,
        .define hhead (by simpa using hfree) hopen hstmts hclose⟩
      calc ts = us ++ r.rest := hus
        _ = us ++ c.value :: c.rest := congrArg _ hzs
        _ = us ++ c.value :: (bs ++ [d] ++ body.rest) := congrArg (us ++ _ :: ·) hbs
        _ = us ++ c.value :: bs ++ [d] ++ body.rest := by simp
  · obtain ⟨s, hs, h⟩ := bind_eq_ok.1 h
    cases h
    obtain ⟨hrest, hsemi⟩ := symbol_sound hs
    exact ⟨us ++ [s.value], append_trans hus hrest, .declare hhead hsemi⟩

theorem ascription_sound {p : Continued (Option Ty) ts} (h : ascription fr ts = .ok p) :
    ∃ us, ts = us ++ p.rest ∧ Ascription us p.value := by
  rw [ascription] at h
  split at h
  · obtain ⟨r, hr, h⟩ := bind_eq_ok.1 h
    cases h
    obtain ⟨t, ht, hkind, hty⟩ := returnType_sound hr
    exact ⟨[t], ht, hty ▸ .some hkind⟩
  · cases h
    exact ⟨[], rfl, .none⟩

/-- Without arguments it would have been read as a declaration. -/
theorem callStatement_sound {x : Token} {p : Parsed Tree (x :: ts)}
    (h : callStatement fr (x :: ts) = .ok p) (hd : isDeclaration (ts.drop 1) = false) :
    ∃ us, x :: ts = us ++ p.rest ∧ TopStatement us p.value.unplaced := by
  rw [callStatement] at h
  obtain ⟨y, hy, h⟩ := bind_eq_ok.1 h
  obtain ⟨a, ha, h⟩ := bind_eq_ok.1 h
  obtain ⟨q, hq, h⟩ := bind_eq_ok.1 h
  obtain ⟨b, hb, h⟩ := bind_eq_ok.1 h
  obtain ⟨c, hc, h⟩ := bind_eq_ok.1 h
  obtain ⟨s, hs, h⟩ := bind_eq_ok.1 h
  cases h
  obtain ⟨hus, hname⟩ := nameToken_sound hy
  obtain ⟨hvs, hopen⟩ := symbol_sound ha
  obtain ⟨as, hws, has⟩ := arguments_sound hq
  obtain ⟨hxs, hclose⟩ := symbol_sound hb
  obtain ⟨cs, hys, hcs⟩ := ascription_sound hc
  obtain ⟨hrest, hsemi⟩ := symbol_sound hs
  have hitems : Items as (Tree.unplacedAll q.value) := by
    generalize Tree.unplacedAll q.value = es at has
    cases has with
    | some has => exact has
    | none =>
      have hts : ts = a.value :: b.value :: b.rest := calc
        ts = y.rest := (List.cons.inj hus).2
        _ = a.value :: a.rest := hvs
        _ = a.value :: b.value :: b.rest := congrArg _ (hws.trans hxs)
      rw [hts] at hd
      simp [isDeclaration, hclose] at hd
  refine ⟨y.value :: a.value :: as ++ b.value :: cs ++ [s.value], ?_,
    .call hname hopen hitems hclose hcs hsemi⟩
  calc x :: ts = y.value :: y.rest := hus
    _ = y.value :: a.value :: a.rest := congrArg _ hvs
    _ = y.value :: a.value :: (as ++ q.rest) := congrArg (_ :: _ :: ·) hws
    _ = y.value :: a.value :: (as ++ b.value :: b.rest) := congrArg (_ :: _ :: as ++ ·) hxs
    _ = y.value :: a.value :: (as ++ b.value :: (cs ++ c.rest)) :=
      congrArg (_ :: _ :: as ++ _ :: ·) hys
    _ = y.value :: a.value :: (as ++ b.value :: (cs ++ s.value :: s.rest)) :=
      congrArg (fun r => _ :: _ :: (as ++ _ :: (cs ++ r))) hrest
    _ = y.value :: a.value :: as ++ b.value :: cs ++ [s.value] ++ s.rest := by simp

theorem topStatement_sound {t : Token} {p : Parsed Tree (t :: ts)}
    (h : topStatement fr t ts = .ok p) :
    ∃ us, t :: ts = us ++ p.rest ∧ TopStatement us p.value.unplaced := by
  rw [topStatement] at h
  split at h
  · exact aliasStatement_sound h
  · split at h
    · split at h
      · exact functionStatement_sound h
      · rename_i hd
        exact callStatement_sound h (by simpa using hd)
    · cases h

theorem statements_sound {ts : List Token} {ss : List Tree} (hts : ∀ t ∈ ts, t.kind ≠ .eof)
    (h : statements fr ts = .ok ss) : Program ts (Tree.unplacedAll ss) := by
  match ts with
  | [] =>
    rw [statements] at h
    cases h
    exact .nil
  | t :: rest =>
    rw [statements, if_neg (hts t List.mem_cons_self)] at h
    split at h
    · obtain ⟨p, hp, h⟩ := bind_eq_ok.1 h
      obtain ⟨ss, hss, h⟩ := bind_eq_ok.1 h
      cases h
      obtain ⟨us, hus, hs⟩ := topStatement_sound hp
      rw [hus, List.forall_mem_append] at hts
      have hprogram := Program.cons hs (statements_sound hts.2 hss)
      rwa [← hus] at hprogram
    · split at h
      · exact .semicolon ‹_› (statements_sound (List.forall_mem_cons.1 hts).2 h)
      · cases h
termination_by ts.length
decreasing_by
  · exact Nat.lt_succ_self _
  · exact p.shorter

end Parse

end StructLang
