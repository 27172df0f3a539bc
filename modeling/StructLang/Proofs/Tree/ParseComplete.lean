import StructLang.Proofs.Tree.Ending
import StructLang.Proofs.Tree.ExprComplete

namespace StructLang

namespace Grammar

open Parse

theorem TypeName.kind_ne_eof {t : Token} {ty : Ty} (h : TypeName t ty) : t.kind ≠ .eof := by
  match h with
  | .literal h => simp [h]
  | .alias h => simp [h]

theorem Ascription.kind_ne_eof {ts : List Token} {ty : Option Ty} (h : Ascription ts ty) :
    ∀ t ∈ ts, t.kind ≠ .eof := by
  cases h with
  | none => exact List.forall_mem_nil _
  | some h => simp [h]

theorem Param.kind_ne_eof {ts : List Token} {p : Tree} (h : Param ts p) :
    ∀ t ∈ ts, t.kind ≠ .eof := by
  cases h with
  | mk hx hc htype => simp [hx, (isSymbol_iff.1 hc).1, htype.kind_ne_eof]

theorem Params.kind_ne_eof {ts : List Token} {ps : List Tree} (h : Params ts ps) :
    ∀ t ∈ ts, t.kind ≠ .eof := by
  induction h with
  | one h => exact h.kind_ne_eof
  | cons h hc _ ih =>
    rw [List.forall_mem_append, List.forall_mem_cons]
    exact ⟨h.kind_ne_eof, by simp [(isSymbol_iff.1 hc).1], ih⟩

theorem Header.kind_ne_eof {ts : List Token} {n : String} {ps : List Tree} {ty : Ty}
    (h : Header ts n ps ty) : ∀ t ∈ ts, t.kind ≠ .eof := by
  cases h with
  | @mk ts ps x a b r hx ha hps hb hr =>
    have hparams : ∀ t ∈ ts, t.kind ≠ .eof := by
      cases hps with
      | none => simp
      | some hps => exact hps.kind_ne_eof
    have hname : x.kind ≠ .eof := (InExpr.of_isName hx).kind_ne_eof
    have hopen := (isSymbol_iff.1 ha).1
    have hclose := (isSymbol_iff.1 hb).1
    simpa [or_imp, forall_and, hname, hopen, hclose, hr] using hparams

theorem Expr.kind_ne_eof {n : Nat} {ts : List Token} {e : Tree} (h : Expr n ts e) :
    ∀ t ∈ ts, t.kind ≠ .eof :=
  fun t ht => (h.inExpr t ht).kind_ne_eof

theorem Statement.kind_ne_eof {ts : List Token} {s : Tree} (h : Statement ts s) :
    ∀ t ∈ ts, t.kind ≠ .eof := by
  cases h with
  | @ret ts e t s ht he hs =>
    have hkind : t.kind = .keyword := by
      simp only [Token.isReturn, Bool.and_eq_true, beq_iff_eq] at ht
      exact ht.1
    simpa [or_imp, forall_and, hkind, (isSymbol_iff.1 hs).1] using he.kind_ne_eof
  | expr he hs => simpa [or_imp, forall_and, (isSymbol_iff.1 hs).1] using he.kind_ne_eof

theorem Body.kind_ne_eof {ts : List Token} {ss : List Tree} (h : Body ts ss) :
    ∀ t ∈ ts, t.kind ≠ .eof := by
  induction h with
  | nil => exact List.forall_mem_nil _
  | cons h _ ih => exact List.forall_mem_append.2 ⟨h.kind_ne_eof, ih⟩

theorem TopStatement.kind_ne_eof {ts : List Token} {s : Tree} (h : TopStatement ts s) :
    ∀ t ∈ ts, t.kind ≠ .eof := by
  match h with
  | .alias hx heq htype hs =>
    simp [hx, (isSymbol_iff.1 heq).1, htype.kind_ne_eof, (isSymbol_iff.1 hs).1]
  | .declare hhead hs =>
    simpa [or_imp, forall_and, (isSymbol_iff.1 hs).1] using hhead.kind_ne_eof
  | .define hhead _ ha hbody hb =>
    simpa [or_imp, forall_and, (isSymbol_iff.1 ha).1, (isSymbol_iff.1 hb).1]
      using ⟨hhead.kind_ne_eof, hbody.kind_ne_eof⟩
  | .call hx ha hitems hb hty hs =>
    have hargs := fun t ht => (hitems.inExpr t ht).kind_ne_eof
    have hascribed := hty.kind_ne_eof
    simpa [or_imp, forall_and, (isSymbol_iff.1 ha).1, (isSymbol_iff.1 hb).1,
      (isSymbol_iff.1 hs).1, Token.ne_eof_of_isName hx] using ⟨hargs, hascribed⟩

theorem Program.kind_ne_eof {ts : List Token} {ss : List Tree} (h : Program ts ss) :
    ∀ t ∈ ts, t.kind ≠ .eof := by
  induction h with
  | nil => exact List.forall_mem_nil _
  | semicolon hs _ ih =>
    exact List.forall_mem_cons.2 ⟨Token.ne_eof_of_isSymbol hs, ih⟩
  | cons h _ ih => exact List.forall_mem_append.2 ⟨h.kind_ne_eof, ih⟩

variable (fr : Frame)

theorem Statement.starts {ts : List Token} {s : Tree} (h : Statement ts s) :
    ∃ t us, ts = t :: us ∧ t.isSymbol "\x7d" = false := by
  cases h with
  | @ret ts e t s ht _ _ =>
    have hk : t.kind = .keyword := by
      simp only [Token.isReturn, Bool.and_eq_true, beq_iff_eq] at ht
      exact ht.1
    exact ⟨t, _, rfl, by simp [Token.isSymbol, hk]⟩
  | expr h _ =>
    obtain ⟨t, us, rfl, ht⟩ := h.starts
    exact ⟨t, _, rfl, ht.isSymbol_eq_false (by simp)⟩

theorem Starts.isReturn_eq_false {t : Token} (h : Starts t) : t.isReturn = false := by
  obtain h | h | h | h := h
  · simp [Token.isReturn, h]
  · simp [Token.isReturn, h]
  · exact h.2
  · simp [Token.isReturn, (isSymbol_iff.1 h).1]

theorem Statement.complete {ts : List Token} {s : Tree} (h : Statement ts s) :
    ∃ s', s'.unplaced = s ∧ ∀ rest, ∃ hlt, statement fr (ts ++ rest) = .ok ⟨s', rest, hlt⟩ := by
  cases h with
  | @ret ts e t s ht h hs =>
    obtain ⟨e', rfl, he⟩ := h.complete fr
    refine ⟨.ret e' (fr.place t), rfl, ?_⟩
    intro rest
    rw [List.append_assoc, List.cons_append, List.singleton_append]
    obtain ⟨hlt, hp⟩ := he.read (.cons (by simp) hs rest)
    refine ⟨by simp; omega, ?_⟩
    rw [statement, if_pos ht, expression, hp]
    simp [symbol_cons hs]
  | @expr ts e s h hs =>
    obtain ⟨e', rfl, he⟩ := h.complete fr
    obtain ⟨t, us, rfl, ht⟩ := h.starts
    refine ⟨.expr e' none (fr.place t), rfl, ?_⟩
    intro rest
    have hread := he.read (.cons (by simp) hs rest)
    rw [List.cons_append] at hread
    rw [List.append_assoc, List.singleton_append, List.cons_append]
    obtain ⟨hlt, hp⟩ := hread
    refine ⟨Nat.lt_trans (Nat.lt_succ_self _) hlt, ?_⟩
    rw [statement, if_neg (by simp [Starts.isReturn_eq_false ht]), expression, hp]
    simp [symbol_cons hs]

theorem Body.complete {ts : List Token} {ss : List Tree} (h : Body ts ss) :
    ∃ ss', Tree.unplacedAll ss' = ss ∧ ∀ b rest, b.isSymbol "\x7d" →
      ∃ hlt, bodyTail fr (ts ++ b :: rest) = .ok ⟨ss', rest, hlt⟩ := by
  induction h with
  | nil =>
    refine ⟨[], rfl, ?_⟩
    intro b rest hb
    exact ⟨Nat.lt_succ_self _, by simp [bodyTail, hb]⟩
  | @cons ts s us ss hs _ ih =>
    obtain ⟨s', rfl, hstmt⟩ := hs.complete fr
    obtain ⟨ss', rfl, hbody⟩ := ih
    obtain ⟨t, ws, rfl, ht⟩ := hs.starts
    refine ⟨s' :: ss', rfl, ?_⟩
    intro b rest hb
    have hread := hstmt (us ++ b :: rest)
    rw [List.cons_append] at hread
    rw [List.append_assoc, List.cons_append]
    obtain ⟨hlt, hp⟩ := hread
    obtain ⟨hlt', hq⟩ := hbody b rest hb
    refine ⟨Nat.lt_trans hlt' hlt, ?_⟩
    rw [bodyTail, if_neg (by simp [ht]), if_neg (hs.kind_ne_eof t List.mem_cons_self), hp]
    simp [hq]

theorem TypeName.complete {t : Token} {ty : Ty} (h : TypeName t ty) (rest : List Token) :
    typeName fr (t :: rest) = .ok ⟨ty, rest, Nat.lt_succ_self _⟩ := by
  match h with
  | .literal h => simp [typeName, h]
  | .alias h => simp [typeName, h]

theorem Param.complete {ts : List Token} {p : Tree} (h : Param ts p) :
    ∃ p', p'.unplaced = p ∧ ∀ rest, ∃ hlt, parameter fr (ts ++ rest) = .ok ⟨p', rest, hlt⟩ := by
  cases h with
  | @mk t ty x c hx hc ht =>
    refine ⟨.param x.text ty (fr.place x), rfl, ?_⟩
    intro rest
    refine ⟨by simp; omega, ?_⟩
    simp [parameter, hx, hc, ht.complete fr rest]

theorem Param.starts {ts : List Token} {p : Tree} (h : Param ts p) :
    ∃ x c us, ts = x :: c :: us ∧ x.kind = .identifier ∧ c.isSymbol ":" := by
  cases h with
  | mk hx hc _ => exact ⟨_, _, _, rfl, hx, hc⟩

theorem Params.starts {ts : List Token} {ps : List Tree} (h : Params ts ps) :
    ∃ x c us, ts = x :: c :: us ∧ x.kind = .identifier ∧ c.isSymbol ":" := by
  cases h with
  | one h => exact h.starts
  | cons h _ _ =>
    obtain ⟨x, c, us, rfl, hx, hc⟩ := h.starts
    exact ⟨x, c, _, rfl, hx, hc⟩

theorem parameters_of_parameter {ts us rest vs : List Token} {p p' : Tree} {ps : List Tree}
    {hlt hle} (hp : Param ts p) (h : parameter fr (ts ++ us) = .ok ⟨p', rest, hlt⟩)
    (htail : parametersTail fr rest = .ok ⟨ps, vs, hle⟩) :
    ∃ hle, parameters fr (ts ++ us) = .ok ⟨p' :: ps, vs, hle⟩ := by
  obtain ⟨x, c, ws, rfl, hx, _⟩ := hp.starts
  refine ⟨by omega, ?_⟩
  rw [parameters, if_neg (by simp [nextIs, Token.isSymbol, hx]), h]
  simp [htail]

theorem parametersTail_of_parameter {c : Token} {us rest vs : List Token} {p : Tree}
    {ps : List Tree} {hlt hle} (hc : c.isSymbol ",") (h : parameter fr us = .ok ⟨p, rest, hlt⟩)
    (htail : parametersTail fr rest = .ok ⟨ps, vs, hle⟩) :
    ∃ hle, parametersTail fr (c :: us) = .ok ⟨p :: ps, vs, hle⟩ := by
  refine ⟨by simp; omega, ?_⟩
  rw [parametersTail, if_pos hc, h]
  simp [htail]

theorem Params.complete {ts : List Token} {ps : List Tree} (h : Params ts ps) :
    ∃ ps', Tree.unplacedAll ps' = ps ∧ ∀ b rest, b.isSymbol ")" →
      (∃ hle, parameters fr (ts ++ b :: rest) = .ok ⟨ps', b :: rest, hle⟩) ∧
      ∀ c, c.isSymbol "," →
        ∃ hle, parametersTail fr (c :: ts ++ b :: rest) = .ok ⟨ps', b :: rest, hle⟩ := by
  induction h with
  | @one ts p h =>
    obtain ⟨p', rfl, hp⟩ := h.complete fr
    refine ⟨[p'], rfl, ?_⟩
    intro b rest hb
    obtain ⟨hlt, hp⟩ := hp (b :: rest)
    have htail : parametersTail fr (b :: rest) = .ok ⟨[], b :: rest, Nat.le_refl _⟩ := by
      rw [parametersTail, if_neg (by simp [isSymbol_eq_false hb])]
    exact ⟨parameters_of_parameter fr h hp htail,
      fun c hc => parametersTail_of_parameter fr hc hp htail⟩
  | @cons ts p us ps c h hc _ ih =>
    obtain ⟨p', rfl, hp⟩ := h.complete fr
    obtain ⟨ps', rfl, hps⟩ := ih
    refine ⟨p' :: ps', rfl, ?_⟩
    intro b rest hb
    obtain ⟨hlt, hp⟩ := hp (c :: us ++ b :: rest)
    obtain ⟨hle, htail⟩ := (hps b rest hb).2 c hc
    refine ⟨?_, fun c' hc' => ?_⟩
    · rw [List.append_assoc]
      exact parameters_of_parameter fr h hp htail
    · rw [List.cons_append, List.append_assoc]
      exact parametersTail_of_parameter fr hc' hp htail

theorem Parameters.complete {ts : List Token} {ps : List Tree} (h : Parameters ts ps) :
    ∃ ps', Tree.unplacedAll ps' = ps ∧ ∀ b rest, b.isSymbol ")" →
      ∃ hle, parameters fr (ts ++ b :: rest) = .ok ⟨ps', b :: rest, hle⟩ := by
  cases h with
  | none =>
    refine ⟨[], rfl, ?_⟩
    intro b rest hb
    exact ⟨Nat.le_refl _, by simp [parameters, nextIs, hb]⟩
  | some h =>
    obtain ⟨ps', hps, hread⟩ := h.complete fr
    exact ⟨ps', hps, fun b rest hb => (hread b rest hb).1⟩

theorem returnType_cons {r : Token} (h : r.kind = .returnType) (rest : List Token) :
    returnType fr (r :: rest) = .ok ⟨.ofText r.text, rest, Nat.lt_succ_self _⟩ := by
  rw [returnType, ofKind_cons h]
  rfl

theorem Items.isDeclaration_eq_false {ts : List Token} {es : List Tree} (h : Items ts es)
    {b : Token} (hb : b.isSymbol ")") (rest : List Token) :
    isDeclaration (ts ++ b :: rest) = false := by
  have hin := h.inExpr
  obtain ⟨t, us, rfl, ht⟩ := h.starts
  have hsecond : nextIs ":" (us ++ b :: rest) = false := by
    cases us with
    | nil => exact isSymbol_eq_false hb (by simp)
    | cons u us => exact (hin u (by simp)).noColon
  simp [isDeclaration, ht.isSymbol_eq_false, hsecond]

theorem Parameters.isDeclaration {ts : List Token} {ps : List Tree} (h : Parameters ts ps)
    {b : Token} (hb : b.isSymbol ")") (rest : List Token) :
    Parse.isDeclaration (ts ++ b :: rest) = true := by
  cases h with
  | none => simp [Parse.isDeclaration, hb]
  | some h =>
    obtain ⟨x, c, us, rfl, hx, hc⟩ := h.starts
    simp [Parse.isDeclaration, nextIs, hx, hc]

def declarationEnd (name : Token) (params : List Tree) (result : Ty) (ts : List Token) :
    Except Failure (Tree × List Token) :=
  if nextIs "\x7b" ts then
    if Library.reserved name.text then .error ⟨.reservedName name.text none, fr.place name⟩
    else do
      let brace ← symbol fr "\x7b" ts
      let body ← bodyTail fr brace.rest
      return (.define name.text params result body.value (fr.place name), body.rest)
  else do
    let semicolon ← symbol fr ";" ts
    return (.declare name.text params result (fr.place name), semicolon.rest)

theorem pair_functionStatement {x a b r : Token} {ts rest : List Token} {ps : List Tree} {hle}
    (hx : x.isName) (ha : a.isSymbol "(") (hb : b.isSymbol ")") (hr : r.kind = .returnType)
    (hps : parameters fr ts = .ok ⟨ps, b :: r :: rest, hle⟩) :
    Parsed.pair <$> functionStatement fr (x :: a :: ts) =
      declarationEnd fr x ps (.ofText r.text) rest := by
  rw [functionStatement, nameToken_cons hx]
  simp only [ok_bind, symbol_cons ha, hps, symbol_cons hb, returnType_cons fr hr]
  rw [declarationEnd]
  split
  · split
    · rfl
    · cases symbol fr "\x7b" rest with
      | error e => rfl
      | ok q =>
        simp only [ok_bind]
        cases bodyTail fr q.rest with
        | error e => rfl
        | ok body => rfl
  · cases symbol fr ";" rest with
    | error e => rfl
    | ok q => rfl

theorem Header.complete {ts : List Token} {n : String} {ps : List Tree} {ty : Ty}
    (h : Header ts n ps ty) :
    ∃ x us ps', ts = x :: us ∧ x.isName ∧ x.text = n ∧ Tree.unplacedAll ps' = ps ∧
      ∀ rest, Parsed.pair <$> topStatement fr x (us ++ rest) =
        declarationEnd fr x ps' ty rest := by
  cases h with
  | @mk ts ps x a b r hx ha hps hb hr =>
    obtain ⟨ps', hps', hread⟩ := hps.complete fr
    refine ⟨x, a :: ts ++ [b, r], ps', rfl, hx, rfl, hps', ?_⟩
    intro rest
    obtain ⟨hle, hp⟩ := hread b (r :: rest) hb
    have happ : a :: ts ++ [b, r] ++ rest = a :: (ts ++ b :: r :: rest) := by simp
    rw [happ, topStatement, if_neg (nextIs_cons_of_ne ha (by simp) _), if_pos (nextIs_cons ha _),
      List.drop_one, List.tail_cons, if_pos (hps.isDeclaration hb (r :: rest))]
    exact pair_functionStatement fr hx ha hb hr hp

theorem Ascription.complete {ts : List Token} {ty : Option Ty} (h : Ascription ts ty) {s : Token}
    (hs : s.isSymbol ";") (rest : List Token) :
    ∃ hle, ascription fr (ts ++ s :: rest) = .ok ⟨ty, s :: rest, hle⟩ := by
  cases h with
  | none =>
    have hk : s.kind ≠ .returnType := by simp [(isSymbol_iff.1 hs).1]
    exact ⟨Nat.le_refl _, by simp [ascription, hk]⟩
  | some h =>
    refine ⟨Nat.le_succ _, ?_⟩
    simp [ascription, h, returnType_cons]

theorem TopStatement.complete {ts : List Token} {s : Tree} (h : TopStatement ts s) :
    ∃ s' x us, ts = x :: us ∧ x.isName ∧ s'.unplaced = s ∧
      ∀ rest, Parsed.pair <$> topStatement fr x (us ++ rest) = .ok (s', rest) := by
  match h with
  | @TopStatement.alias t ty x eq s hx heq ht hs =>
    refine ⟨.alias x.text ty (fr.place x), x, _, rfl, by simp [Token.isName, hx], rfl, ?_⟩
    intro rest
    simp [topStatement, nextIs, heq, aliasStatement, ofKind_cons hx, symbol_cons heq,
      ht.complete fr, symbol_cons hs, Parsed.pair]
  | @TopStatement.declare ts n ps ty s hhead hs =>
    obtain ⟨x, us, ps', rfl, hx, rfl, rfl, hread⟩ := hhead.complete fr
    refine ⟨.declare x.text ps' ty (fr.place x), x, us ++ [s], by simp, hx, rfl, ?_⟩
    intro rest
    rw [List.append_assoc, hread, List.singleton_append, declarationEnd,
      if_neg (nextIs_cons_of_ne hs (by simp) _), symbol_cons hs]
    rfl
  | @TopStatement.define ts n ps ty us ss a b hhead hfree ha hbody hb =>
    obtain ⟨x, vs, ps', rfl, hx, rfl, rfl, hread⟩ := hhead.complete fr
    obtain ⟨ss', rfl, hss⟩ := hbody.complete fr
    refine ⟨.define x.text ps' ty ss' (fr.place x), x, vs ++ a :: us ++ [b], by simp, hx, rfl, ?_⟩
    intro rest
    obtain ⟨hlt, hp⟩ := hss b rest hb
    have happ : vs ++ a :: us ++ [b] ++ rest = vs ++ a :: (us ++ b :: rest) := by simp
    rw [happ, hread, declarationEnd, if_pos (nextIs_cons ha _), if_neg (by simp [hfree]),
      symbol_cons ha]
    simp [hp]
  | @TopStatement.call ts es us ty x a b s hx ha hitems hb hty hs =>
    obtain ⟨es', rfl, hes⟩ := hitems.complete fr
    refine ⟨.expr (.call (.name x.text (fr.place x)) es' (fr.place x)) ty (fr.place x), x,
      a :: ts ++ b :: us ++ [s], rfl, hx, rfl, ?_⟩
    intro rest
    obtain ⟨⟨hle, hp⟩, -⟩ := hes b (us ++ s :: rest) hb
    obtain ⟨hle', hq⟩ := hty.complete fr hs rest
    have happ : a :: ts ++ b :: us ++ [s] ++ rest = a :: (ts ++ b :: (us ++ s :: rest)) := by simp
    have hcall := hitems.isDeclaration_eq_false hb (us ++ s :: rest)
    rw [happ, topStatement, if_neg (nextIs_cons_of_ne ha (by simp) _), if_pos (nextIs_cons ha _),
      if_neg (by simp [hcall]), callStatement, nameToken_cons hx]
    simp [symbol_cons ha, hp, symbol_cons hb, hq, symbol_cons hs, Parsed.pair]

theorem Program.complete {ts : List Token} {ss : List Tree} (h : Program ts ss) :
    ∃ ss', Tree.unplacedAll ss' = ss ∧
      ∀ rest, statements fr (ts ++ rest) = (ss' ++ ·) <$> statements fr rest := by
  induction h with
  | nil =>
    refine ⟨[], rfl, ?_⟩
    intro rest
    simp
  | @semicolon ts ss s hs _ ih =>
    obtain ⟨ss', rfl, hread⟩ := ih
    refine ⟨ss', rfl, ?_⟩
    intro rest
    rw [List.cons_append, statements, if_neg (Token.ne_eof_of_isSymbol hs),
      if_neg (by simp [Token.isName, (isSymbol_iff.1 hs).1]), if_pos hs]
    exact hread rest
  | @cons ts s us ss hs _ ih =>
    obtain ⟨s', x, vs, rfl, hx, rfl, htop⟩ := hs.complete fr
    obtain ⟨ss', rfl, hread⟩ := ih
    refine ⟨s' :: ss', rfl, ?_⟩
    intro rest
    obtain ⟨hlt, hp⟩ := exists_of_parsed (htop (us ++ rest))
    rw [List.append_assoc, List.cons_append, statements, if_neg (Token.ne_eof_of_isName hx),
      if_pos hx, hp]
    simp only [ok_bind, hread rest]
    cases statements fr rest with
    | error e => rfl
    | ok rs => rfl

end Grammar

namespace Tree

theorem parse_eq_ok_iff {file : String} {ts : List Token} {ss : List Tree} :
    (∃ p, parse file ts = .ok p ∧ p.unplaced = .program ss file none) ↔
      Grammar.Program (ts.takeWhile (·.kind != .eof)) ss := by
  constructor
  · rintro ⟨p, hp, hss⟩
    rw [parse_eq] at hp
    obtain ⟨rs, hrs, hp⟩ := bind_eq_ok.1 hp
    cases hp
    cases hss
    exact Parse.statements_sound (fun t ht => by simpa using List.mem_takeWhile_imp ht) hrs
  · intro h
    obtain ⟨rs, rfl, hread⟩ := h.complete ⟨file, Parse.endToken ts⟩
    have hrs := hread []
    rw [List.append_nil, Parse.statements, map_ok, List.append_nil] at hrs
    exact ⟨.program rs file _, by rw [parse_eq, hrs]; rfl, rfl⟩

theorem exists_unplaced_of_parse {file : String} {ts : List Token} {p : Tree}
    (h : parse file ts = .ok p) : ∃ ss, p.unplaced = .program ss file none := by
  rw [parse] at h
  obtain ⟨rs, _, h⟩ := bind_eq_ok.1 h
  cases h
  exact ⟨unplacedAll rs, rfl⟩

theorem exists_parse_iff {file : String} {ts : List Token} (hts : ∀ t ∈ ts, t.kind ≠ .eof) :
    (∃ p, parse file ts = .ok p) ↔ ∃ ss, Grammar.Program ts ss := by
  have htake : ts.takeWhile (·.kind != .eof) = ts :=
    List.takeWhile_eq_self_iff.2 (by simpa using hts)
  constructor
  · rintro ⟨p, hp⟩
    obtain ⟨ss, hss⟩ := exists_unplaced_of_parse hp
    exact ⟨ss, htake ▸ parse_eq_ok_iff.1 ⟨p, hp, hss⟩⟩
  · rintro ⟨ss, hss⟩
    obtain ⟨p, hp, _⟩ := parse_eq_ok_iff.2 (htake.symm ▸ hss)
    exact ⟨p, hp⟩

theorem takeWhile_eq_filter_of_dropLast {ts : List Token} (h : ∀ t ∈ ts.dropLast, t.kind ≠ .eof) :
    ts.takeWhile (·.kind != .eof) = ts.filter (·.kind != .eof) := by
  induction ts with
  | nil => rfl
  | cons t ts ih =>
    cases ts with
    | nil => by_cases ht : t.kind = .eof <;> simp [ht]
    | cons u us =>
      have ht : t.kind ≠ .eof := h t (by simp)
      have hrest := ih fun v hv => h v (by simp [hv])
      simp only [List.takeWhile_cons, List.filter_cons, bne_iff_ne, ne_eq, ht, not_false_eq_true,
        ↓reduceIte] at hrest ⊢
      rw [hrest]

/-- The parser accepts exactly the programs of the grammar and returns the tree of the derivation,
which is the only one. -/
theorem parse_iff_program (file : String) (ts : List Token)
    (hts : ∀ t ∈ ts.dropLast, t.kind ≠ .eof) :
    ((∃ p, parse file ts = .ok p) ↔ ∃ ss, Grammar.Program (ts.filter (·.kind != .eof)) ss) ∧
      ∀ p, parse file ts = .ok p → ∀ ss,
        Grammar.Program (ts.filter (·.kind != .eof)) ss ↔ p.unplaced = .program ss file none := by
  rw [← takeWhile_eq_filter_of_dropLast hts]
  refine ⟨⟨?_, ?_⟩, ?_⟩
  · rintro ⟨p, hp⟩
    obtain ⟨ss, hss⟩ := exists_unplaced_of_parse hp
    exact ⟨ss, parse_eq_ok_iff.1 ⟨p, hp, hss⟩⟩
  · rintro ⟨ss, hss⟩
    obtain ⟨p, hp, _⟩ := parse_eq_ok_iff.2 hss
    exact ⟨p, hp⟩
  · intro p hp ss
    constructor
    · intro hss
      obtain ⟨q, hq, hu⟩ := parse_eq_ok_iff.2 hss
      cases hp.symm.trans hq
      exact hu
    · intro hu
      exact parse_eq_ok_iff.1 ⟨p, hp, hu⟩

theorem parse_call_of_sum :
    ∃ p, parse "main.struct" ([(.identifier, "f"), (.symbol, "("), (.number, "1"), (.operator, "+"),
        (.number, "2"), (.operator, "*"), (.identifier, "x"), (.symbol, ")"), (.symbol, ";"),
        (.eof, "")].map fun w => ⟨w.1, w.2, 1, 1⟩) = .ok p ∧
      p.unplaced = .program [.expr (.call (.name "f" none) [.binary .add (.number "1" none)
        (.binary .mul (.number "2" none) (.name "x" none) none) none] none) none none]
        "main.struct" none := by
  let word (kind : TokenKind) (text : String) : Token := ⟨kind, text, 1, 1⟩
  have hproduct : Grammar.Expr 6 ([word .number "2"] ++ word .operator "*" ::
      [word .identifier "x"]) (.binary .mul (.number "2" none) (.name "x" none) none) :=
    .binary (by decide) (.operand (.primary (.number rfl))) ⟨rfl, rfl⟩
      (.operand (.primary (.name rfl rfl)))
  have hsum : Grammar.Expr 0 ([word .number "1"] ++ word .operator "+" :: _)
      (.binary .add (.number "1" none) _ none) :=
    .binary (by decide) (.operand (.primary (.number rfl))) ⟨rfl, rfl⟩ hproduct
  have hcall : Grammar.TopStatement (word .identifier "f" :: word .symbol "(" :: _ ++
      word .symbol ")" :: [] ++ [word .symbol ";"]) _ :=
    .call rfl rfl (.one hsum) rfl .none rfl
  have h := parse_iff_program "main.struct" ([(.identifier, "f"), (.symbol, "("), (.number, "1"),
    (.operator, "+"), (.number, "2"), (.operator, "*"), (.identifier, "x"), (.symbol, ")"),
    (.symbol, ";"), (.eof, "")].map fun w => ⟨w.1, w.2, 1, 1⟩) (by decide)
  obtain ⟨p, hp⟩ := h.1.2 ⟨_, .cons hcall .nil⟩
  exact ⟨p, hp, (h.2 p hp _).1 (.cons hcall .nil)⟩

end Tree

end StructLang
