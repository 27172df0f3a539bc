import StructLang.Proofs.Tree.Names

namespace StructLang

namespace Tree

def givenName? : Tree → Option String
  | .name n _ | .declare n _ _ _ | .define n _ _ _ _ => some n
  | _ => none

def names (t : Tree) : List String := t.preorder.filterMap givenName?

theorem names_eq_append (t : Tree) :
    t.names = t.givenName?.toList ++ t.children.flatMap names := by
  rw [names, preorder_eq_cons, List.filterMap_cons, List.filterMap_flatMap]
  cases t.givenName? <;> rfl

theorem givenName?_unplaced (t : Tree) : t.unplaced.givenName? = t.givenName? := by
  cases t <;> rfl

theorem names_unplaced (t : Tree) : t.unplaced.names = t.names := by
  rw [names_eq_append, names_eq_append t, givenName?_unplaced, children_unplaced, List.flatMap_map]
  congr 1
  exact List.flatMap_congr fun s hs => s.names_unplaced
termination_by sizeOf t
decreasing_by exact sizeOf_lt_of_mem_children hs

theorem statements_unplaced (t : Tree) : t.unplaced.statements = t.statements.map unplaced := by
  cases t <;> simp [unplaced, statements, unplacedAll_eq_map]

end Tree

namespace Token

def canName (t : Token) : Bool := t.isName && !t.isReturn

/-- After this symbol a name is a property or a type. -/
def isMark (t : Token) : Bool := t.isSymbol "." || t.isSymbol ":" || t.isSymbol "="

/-- Before these tokens a name is that of a parameter or of an alias. -/
def binds (ts : List Token) : Bool := Parse.nextIs ":" ts || Parse.nextIs "=" ts

/-- The tokens that stand for a name, given whether a mark comes before them all. -/
def named : Bool → List Token → List Token
  | _, [] => []
  | marked, t :: ts =>
    (if t.canName && !marked && !binds ts then [t] else []) ++ named t.isMark ts

structure IsNeutral (t : Token) : Prop where
  canName : t.canName = false
  isMark : t.isMark = false

variable {t : Token} {ts us : List Token} {ns ms : List String}

theorem isNeutral_of_isSymbol {s : String} (h : t.isSymbol s) (hs : s ∉ [".", ":", "="]) :
    t.IsNeutral := by
  obtain ⟨hkind, htext⟩ := Parse.isSymbol_iff.1 h
  simp only [List.mem_cons, List.not_mem_nil, or_false, not_or] at hs
  exact ⟨by simp [Token.canName, isName, hkind],
    by simp [Token.isMark, isSymbol, htext, hs.1, hs.2.1, hs.2.2]⟩

theorem isMark_of_kind (h : t.kind ≠ .symbol) : t.isMark = false := by
  simp [isMark, isSymbol, h]

theorem isNeutral_of_kind {kind : TokenKind} (h : t.kind = kind)
    (hkind : kind ∉ [.identifier, .keyword, .symbol]) : t.IsNeutral := by
  simp only [List.mem_cons, List.not_mem_nil, or_false, not_or] at hkind
  subst h
  exact ⟨by simp [Token.canName, isName, hkind.1, hkind.2.1], isMark_of_kind hkind.2.2⟩

theorem isMark_of_isName (h : t.isName) : t.isMark = false :=
  isMark_of_kind fun hkind => by simp [isName, hkind] at h

theorem isNeutral_of_isReturn (h : t.isReturn) : t.IsNeutral := by
  have hkind : t.kind = .keyword := by
    simp only [isReturn, Bool.and_eq_true, beq_iff_eq] at h
    exact h.1
  exact ⟨by simp [Token.canName, h], isMark_of_kind (by simp [hkind])⟩

theorem binds_append (hts : binds ts = false) (hus : binds us = false) :
    binds (ts ++ us) = false := by
  cases ts with
  | nil => exact hus
  | cons t ts => exact hts

theorem binds_cons (h : t.isMark = false) (ts : List Token) : binds (t :: ts) = false := by
  simp only [isMark, Bool.or_eq_false_iff] at h
  simp [binds, Parse.nextIs, h]

def Tells (ts : List Token) (ns : List String) : Prop :=
  ∀ rest, binds rest = false →
    (named false (ts ++ rest)).map text = ns ++ (named false rest).map text

namespace Tells

theorem nil : Tells [] [] := fun _ _ => rfl

theorem append (h : Tells ts ns) (h' : Tells us ms) (hus : binds us = false) :
    Tells (ts ++ us) (ns ++ ms) := by
  intro rest hrest
  rw [List.append_assoc, h _ (binds_append hus hrest), h' rest hrest, List.append_assoc]

theorem neutral (ht : t.IsNeutral) : Tells [t] [] := by
  intro rest _
  simp [named, ht.canName, ht.isMark]

theorem cons (ht : t.IsNeutral) (h : Tells ts ns) : Tells (t :: ts) ns := by
  intro rest hrest
  rw [← h rest hrest]
  simp [named, ht.canName, ht.isMark]

theorem concat (h : Tells ts ns) (ht : t.IsNeutral) : Tells (ts ++ [t]) ns := by
  have htells := h.append (neutral ht) (binds_cons ht.isMark [])
  rwa [List.append_nil] at htells

theorem join (h : Tells ts ns) (ht : t.IsNeutral) (h' : Tells us ms) :
    Tells (ts ++ t :: us) (ns ++ ms) :=
  h.append (h'.cons ht) (binds_cons ht.isMark us)

theorem name (h : t.canName) : Tells [t] [t.text] := by
  intro rest hrest
  have hname : t.isName := by
    simp only [canName, Bool.and_eq_true] at h
    exact h.1
  simp [named, h, hrest, isMark_of_isName hname]

theorem member {m x : Token} (h : Tells ts ns) (hm : m.isSymbol ".") (hx : x.isName) :
    Tells (ts ++ [m, x]) ns := by
  have hmark : m.isMark := by simp [isMark, hm]
  have hcan : m.canName = false := by simp [canName, isName, (Parse.isSymbol_iff.1 hm).1]
  have hbinds : binds [m, x] = false := by simp [binds, Parse.nextIs, Parse.isSymbol_eq_false hm]
  have hproperty : Tells [m, x] [] := by
    intro rest _
    simp [named, hcan, hmark, isMark_of_isName hx]
  simpa using h.append hproperty hbinds

theorem bound {x m : Token} (hm : m.isSymbol ":" ∨ m.isSymbol "=") (hx : x.isName)
    (ht : t.isMark = false) : Tells [x, m, t] [] := by
  intro rest _
  have hbinds (ts : List Token) : binds (m :: ts) := by
    obtain hm | hm := hm <;> simp [binds, Parse.nextIs, hm]
  have hmark : m.isMark := by
    obtain hm | hm := hm <;> simp [isMark, hm]
  have hcan : m.canName = false := by
    obtain hm | hm := hm <;> simp [canName, isName, (Parse.isSymbol_iff.1 hm).1]
  simp [named, hcan, hmark, hbinds, ht, isMark_of_isName hx]

end Tells

theorem mem_named {marked : Bool} :
    t ∈ named marked ts ↔ ∃ us vs, ts = us ++ t :: vs ∧ t.canName ∧
      (us.getLast?.map isMark).getD marked = false ∧ binds vs = false := by
  induction ts generalizing marked with
  | nil => simp [named]
  | cons u ts ih =>
    rw [named, List.mem_append, ih]
    constructor
    · rintro (h | ⟨us, vs, rfl, hcan, hlast, hbinds⟩)
      · split at h
        · rename_i hcond
          cases List.mem_singleton.1 h
          simp only [Bool.and_eq_true, Bool.not_eq_true'] at hcond
          exact ⟨[], ts, rfl, hcond.1.1, hcond.1.2, hcond.2⟩
        · cases h
      · refine ⟨u :: us, vs, rfl, hcan, ?_, hbinds⟩
        rw [List.getLast?_cons]
        cases hus : us.getLast? <;> simpa [hus] using hlast
    · rintro ⟨us, vs, heq, hcan, hlast, hbinds⟩
      cases us with
      | nil =>
        cases heq
        have hmarked : marked = false := hlast
        simp [hcan, hmarked, hbinds]
      | cons v us =>
        cases heq
        refine .inr ⟨us, vs, rfl, hcan, ?_, hbinds⟩
        rw [List.getLast?_cons] at hlast
        cases hus : us.getLast? <;> simpa [hus] using hlast

theorem canName_iff_identifier (h : t.text = "return") : t.canName ↔ t.kind = .identifier := by
  simp only [canName, isName, isReturn, h]
  cases t.kind <;> decide

theorem Tells.return_mem_iff {ns : List String} (h : Tells ts ns) :
    "return" ∈ ns ↔ ∃ us x vs, ts = us ++ x :: vs ∧ x.kind = .identifier ∧ x.text = "return" ∧
      us.getLast?.any isMark = false ∧ binds vs = false := by
  have hlast (us : List Token) : (us.getLast?.map isMark).getD false = us.getLast?.any isMark := by
    cases us.getLast? <;> rfl
  have hns : (named false ts).map text = ns := by simpa [named] using h [] rfl
  simp only [← hns, List.mem_map, mem_named, hlast]
  constructor
  · rintro ⟨x, ⟨us, vs, hts, hcan, hmark⟩, htext⟩
    exact ⟨us, x, vs, hts, (canName_iff_identifier htext).1 hcan, htext, hmark⟩
  · rintro ⟨us, x, vs, hts, hkind, htext, hmark⟩
    exact ⟨x, ⟨us, vs, hts, (canName_iff_identifier htext).2 hkind, hmark⟩, htext⟩

end Token

namespace Grammar

open Token StructLang.Tree

theorem Expr.binds_eq_false {n : Nat} {ts : List Token} {e : Tree} (h : Expr n ts e) :
    binds ts = false := by
  obtain ⟨t, us, rfl, ht⟩ := h.starts
  simp [binds, Parse.nextIs, Parse.Starts.isSymbol_eq_false ht]

mutual

theorem Expr.tells {n : Nat} {ts : List Token} {e : Tree} (h : Expr n ts e) : Tells ts e.names := by
  match h with
  | .operand h => exact h.tells
  | .binary _ hl hop hr =>
    rw [names_eq_append]
    simpa [givenName?, children] using hl.tells.join (isNeutral_of_kind hop.1 (by decide)) hr.tells

theorem Operand.tells {ts : List Token} {e : Tree} (h : Operand ts e) : Tells ts e.names := by
  match h with
  | .primary h => exact h.tells
  | .member h hdot hx =>
    rw [names_eq_append]
    simpa [givenName?, children] using h.tells.member hdot hx
  | .call h ha hargs hb =>
    rw [names_eq_append]
    have hcall := (h.tells.join (isNeutral_of_isSymbol ha (by decide)) hargs.tells).concat
      (isNeutral_of_isSymbol hb (by decide))
    simpa [givenName?, children] using hcall

theorem Primary.tells {ts : List Token} {e : Tree} (h : Primary ts e) : Tells ts e.names := by
  match h with
  | .number h | .string h => exact .neutral (isNeutral_of_kind h (by decide))
  | .name hx hreturn => exact .name (by simp [canName, hx, hreturn])
  | .parens ha h hb =>
    exact (h.tells.cons (isNeutral_of_isSymbol ha (by decide))).concat
      (isNeutral_of_isSymbol hb (by decide))

theorem Arguments.tells {ts : List Token} {es : List Tree} (h : Arguments ts es) :
    Tells ts (es.flatMap names) := by
  match h with
  | .none => exact .nil
  | .some h => exact h.tells

theorem Items.tells {ts : List Token} {es : List Tree} (h : Items ts es) :
    Tells ts (es.flatMap names) := by
  match h with
  | .one h => simpa using h.tells
  | .cons h hc hs =>
    rw [List.flatMap_cons]
    exact h.tells.join (isNeutral_of_isSymbol hc (by decide)) hs.tells

end

theorem Statement.tells {ts : List Token} {s : Tree} (h : Statement ts s) : Tells ts s.names := by
  rw [names_eq_append]
  cases h with
  | ret ht h hs =>
    have htells := (h.tells.cons (isNeutral_of_isReturn ht)).concat
      (isNeutral_of_isSymbol hs (by decide))
    simpa [givenName?, children] using htells
  | expr h hs =>
    have htells := h.tells.concat (isNeutral_of_isSymbol hs (by decide))
    simpa [givenName?, children] using htells

theorem Statement.binds_eq_false {ts : List Token} {s : Tree} (h : Statement ts s) :
    binds ts = false := by
  cases h with
  | ret ht _ _ => exact binds_cons (isNeutral_of_isReturn ht).isMark _
  | expr h hs =>
    have hend := binds_cons (isNeutral_of_isSymbol hs (by decide)).isMark []
    exact binds_append h.binds_eq_false hend

theorem Body.tells {ts : List Token} {ss : List Tree} (h : Body ts ss) :
    Tells ts (ss.flatMap names) ∧ binds ts = false := by
  induction h with
  | nil => exact ⟨.nil, rfl⟩
  | cons h _ ih => exact ⟨h.tells.append ih.1 ih.2, binds_append h.binds_eq_false ih.2⟩

theorem TypeName.isMark_eq_false {t : Token} {ty : Ty} (h : TypeName t ty) : t.isMark = false := by
  match h with
  | .literal h | .alias h => exact isMark_of_kind (by simp [h])

theorem Params.tells {ts : List Token} {ps : List Tree} (h : Params ts ps) : Tells ts [] := by
  have hparam : ∀ {ts p}, Param ts p → Tells ts [] := by
    rintro _ _ ⟨hx, hc, ht⟩
    exact .bound (.inl hc) (by simp [isName, hx]) ht.isMark_eq_false
  induction h with
  | one h => exact hparam h
  | cons h hc _ ih => exact (hparam h).join (isNeutral_of_isSymbol hc (by decide)) ih

theorem Header.tells {ts : List Token} {n : String} {ps : List Tree} {ty : Ty}
    (h : Header ts n ps ty) :
    ∃ x a us, ts = x :: a :: us ∧ x.isName ∧ x.text = n ∧ a.isSymbol "(" ∧ Tells (a :: us) [] ∧
      ps.flatMap names = [] := by
  have hnames : ps.flatMap names = [] := by
    refine List.flatMap_eq_nil_iff.2 fun p hp => ?_
    cases h.shape.1 p hp
    rfl
  cases h with
  | @mk ts ps x a b r hx ha hps hb hr =>
    have hparams : Tells ts [] := by
      cases hps with
      | none => exact .nil
      | some h => exact h.tells
    refine ⟨x, a, ts ++ [b, r], by simp, hx, rfl, ha, ?_, hnames⟩
    refine .cons (isNeutral_of_isSymbol ha (by decide)) ?_
    have hresult : Tells [r] [] := .neutral (isNeutral_of_kind hr (by decide))
    exact hparams.join (isNeutral_of_isSymbol hb (by decide)) hresult

theorem Ascription.tells {ts : List Token} {ty : Option Ty} (h : Ascription ts ty) :
    Tells ts [] := by
  cases h with
  | none => exact .nil
  | some h => exact .neutral (isNeutral_of_kind h (by decide))

def Heads (ts : List Token) (s : Tree) : Prop :=
  ∃ x us ns, ts = x :: us ∧ x.isName ∧ Tells ts ns ∧
    (x.isReturn = false ∧ s.names = ns ∨
      x.isReturn ∧ Parse.nextIs "(" us ∧ s.names = "return" :: ns)

theorem heads_of_tells {x a : Token} {us : List Token} {s : Tree} {ns : List String} (hx : x.isName)
    (ha : a.isSymbol "(") (h : Tells (a :: us) ns) (hs : s.names = x.text :: ns) :
    Heads (x :: a :: us) s := by
  have hmark := (isNeutral_of_isSymbol ha (by decide)).isMark
  cases hreturn : x.isReturn with
  | true =>
    have htext : x.text = "return" := by
      simp only [isReturn, Bool.and_eq_true, beq_iff_eq] at hreturn
      exact hreturn.2
    refine ⟨x, a :: us, ns, rfl, hx, h.cons (isNeutral_of_isReturn hreturn), .inr ⟨hreturn, ha, ?_⟩⟩
    rw [hs, htext]
  | false =>
    have hcan : x.canName := by simp [canName, hx, hreturn]
    exact ⟨x, a :: us, _, rfl, hx, (Tells.name hcan).append h (binds_cons hmark us),
      .inl ⟨hreturn, hs⟩⟩

theorem TopStatement.heads {ts : List Token} {s : Tree} (h : TopStatement ts s) : Heads ts s := by
  match h with
  | @TopStatement.alias t ty x eq s hx heq ht hs =>
    have hname : x.isName := by simp [isName, hx]
    have hreturn : x.isReturn = false := by simp [isReturn, hx]
    have htells := (Tells.bound (.inr heq) hname ht.isMark_eq_false).concat
      (isNeutral_of_isSymbol hs (by decide))
    exact ⟨x, _, [], rfl, hname, htells, .inl ⟨hreturn, rfl⟩⟩
  | .declare hhead hs =>
    obtain ⟨x, a, us, rfl, hx, rfl, ha, htells, hps⟩ := hhead.tells
    refine heads_of_tells hx ha (htells.concat (isNeutral_of_isSymbol hs (by decide))) ?_
    rw [names_eq_append]
    simp [givenName?, children, hps]
  | .define hhead _ hopen hbody hclose =>
    obtain ⟨x, a, us, rfl, hx, rfl, ha, htells, hps⟩ := hhead.tells
    have hall := (htells.join (isNeutral_of_isSymbol hopen (by decide)) hbody.tells.1).concat
      (isNeutral_of_isSymbol hclose (by decide))
    refine heads_of_tells hx ha hall ?_
    rw [names_eq_append]
    simp [givenName?, children, hps]
  | .call hx ha hargs hb hty hs =>
    have hneutral := isNeutral_of_isSymbol ha (by decide)
    have hall := ((hargs.tells.join (isNeutral_of_isSymbol hb (by decide)) hty.tells).concat
      (isNeutral_of_isSymbol hs (by decide))).cons hneutral
    refine heads_of_tells hx ha hall ?_
    rw [names_eq_append, children, List.flatMap_singleton, names_eq_append, children,
      List.flatMap_cons, names_eq_append (.name ..)]
    simp [givenName?, children]

/-- Somewhere the keyword `return` and a parenthesis begin a statement of the top level. -/
def BeginsReturn (ts : List Token) : Prop :=
  ∃ us x a vs, ts = us ++ x :: a :: vs ∧ (∃ ss, Program us ss) ∧ x.isReturn ∧ a.isSymbol "("

theorem BeginsReturn.append {ts us : List Token} (h : BeginsReturn us)
    (hts : ∀ vs ss, Program vs ss → ∃ ss', Program (ts ++ vs) ss') : BeginsReturn (ts ++ us) := by
  obtain ⟨vs, x, a, ws, rfl, ⟨ss, hvs⟩, hxa⟩ := h
  exact ⟨ts ++ vs, x, a, ws, by rw [List.append_assoc], hts vs ss hvs, hxa⟩

theorem Heads.mem_names {ts : List Token} {s : Tree} (h : Heads ts s) (us : List Token) :
    ∃ ns, Tells ts ns ∧ binds ts = false ∧ (∀ n ∈ ns, n ∈ s.names) ∧
      ∀ n ∈ s.names, n ∈ ns ∨ n = "return" ∧ BeginsReturn (ts ++ us) := by
  obtain ⟨x, ts, ns, rfl, hx, htells, hhead⟩ := h
  refine ⟨ns, htells, binds_cons (isMark_of_isName hx) ts, ?_⟩
  obtain ⟨_, h⟩ | ⟨hreturn, hnext, h⟩ := hhead
  · rw [h]
    exact ⟨fun _ => id, fun _ => .inl⟩
  · rw [h]
    refine ⟨fun _ => List.mem_cons_of_mem _, fun n hn => ?_⟩
    refine (List.mem_cons.1 hn).symm.imp_right fun hn => ⟨hn, ?_⟩
    cases ts with
    | nil => cases hnext
    | cons a vs => exact ⟨[], x, a, vs ++ us, rfl, ⟨[], .nil⟩, hreturn, hnext⟩

theorem Program.split {us vs : List Token} {ss ss' : List Tree} (h : Program us ss)
    (h' : Program (us ++ vs) ss') : ∃ ss'', Program vs ss'' ∧ ss' = ss ++ ss'' := by
  -- The grammar alone does not say where a statement ends; the parser reads both lists alike.
  let fr : Parse.Frame := ⟨"", ⟨.eof, "", 1, 1⟩⟩
  obtain ⟨rs, rfl, hread⟩ := h.complete fr
  obtain ⟨rs', rfl, hread'⟩ := h'.complete fr
  have hall := hread' []
  rw [List.append_nil, hread vs] at hall
  cases hrest : Parse.statements fr vs with
  | error e =>
    rw [hrest, Parse.statements] at hall
    cases hall
  | ok rs'' =>
    rw [hrest, Parse.statements] at hall
    have heq : rs ++ rs'' = rs' := by simpa using hall
    have hvs : ∀ t ∈ vs, t.kind ≠ .eof := (List.forall_mem_append.1 h'.kind_ne_eof).2
    exact ⟨unplacedAll rs'', Parse.statements_sound hvs hrest, by
      rw [← heq, unplacedAll_eq_map, unplacedAll_eq_map, unplacedAll_eq_map, List.map_append]⟩

theorem Program.tells {ts : List Token} {ss : List Tree} (h : Program ts ss) :
    ∃ ns, Tells ts ns ∧ binds ts = false ∧ (∀ n ∈ ns, n ∈ ss.flatMap names) ∧
      ∀ n ∈ ss.flatMap names, n ∈ ns ∨ n = "return" ∧ BeginsReturn ts := by
  induction h with
  | nil => exact ⟨[], .nil, rfl, nofun, nofun⟩
  | @semicolon ts ss s hs _ ih =>
    obtain ⟨ns, htells, -, hsub, hnames⟩ := ih
    have hneutral := isNeutral_of_isSymbol hs (by decide)
    have hbegins (h : BeginsReturn ts) : BeginsReturn ([s] ++ ts) :=
      h.append fun vs ss hvs => ⟨ss, .semicolon hs hvs⟩
    exact ⟨ns, htells.cons hneutral, binds_cons hneutral.isMark ts, hsub,
      fun n hn => (hnames n hn).imp_right (And.imp_right hbegins)⟩
  | @cons ts s us ss hs _ ih =>
    obtain ⟨ns, htells, hbinds, hsub, hnames⟩ := ih
    obtain ⟨ms, htells', hbinds', hsub', hnames'⟩ := hs.heads.mem_names us
    have hbegins (h : BeginsReturn us) : BeginsReturn (ts ++ us) :=
      h.append fun vs ss hvs => ⟨s :: ss, .cons hs hvs⟩
    refine ⟨ms ++ ns, htells'.append htells hbinds, binds_append hbinds' hbinds, ?_, ?_⟩
    · intro n hn
      rw [List.flatMap_cons, List.mem_append]
      exact (List.mem_append.1 hn).imp (hsub' n) (hsub n)
    · intro n hn
      rw [List.mem_append]
      rw [List.flatMap_cons, List.mem_append] at hn
      obtain hn | hn := hn
      · exact (hnames' n hn).imp_left .inl
      · exact (hnames n hn).imp .inr (And.imp_right hbegins)

theorem Program.exists_of_mem {ts : List Token} {ss : List Tree} (h : Program ts ss) {s : Tree}
    (hs : s ∈ ss) : ∃ us, us ⊆ ts ∧ TopStatement us s := by
  induction h with
  | nil => cases hs
  | semicolon _ _ ih =>
    obtain ⟨us, hus, hstatement⟩ := ih hs
    exact ⟨us, List.subset_cons_of_subset _ hus, hstatement⟩
  | cons hstatement _ ih =>
    obtain rfl | hs := List.mem_cons.1 hs
    · exact ⟨_, List.subset_append_left .., hstatement⟩
    · obtain ⟨us, hus, hstatement⟩ := ih hs
      exact ⟨us, List.subset_append_of_subset_right _ hus, hstatement⟩

theorem Program.mem_names_of_beginsReturn {ts : List Token} {ss : List Tree} (h : Program ts ss)
    (hbegins : BeginsReturn ts) : "return" ∈ ss.flatMap names := by
  obtain ⟨us, x, a, vs, rfl, ⟨ss', hus⟩, hx, ha⟩ := hbegins
  obtain ⟨ss'', hrest, rfl⟩ := hus.split h
  rw [List.flatMap_append]
  refine List.mem_append_right _ ?_
  generalize hts : x :: a :: vs = ts at hrest
  cases hrest with
  | nil => cases hts
  | semicolon hs _ =>
    cases hts
    simp [Token.isReturn, (Parse.isSymbol_iff.1 hs).1] at hx
  | cons hs _ =>
    obtain ⟨y, us', ns, rfl, _, _, hhead⟩ := hs.heads
    obtain rfl : x = y := (List.cons.inj hts).1
    obtain ⟨hreturn, _⟩ | ⟨_, _, h⟩ := hhead
    · cases hx.symm.trans hreturn
    · rw [List.flatMap_cons, h]
      exact List.mem_cons_self

theorem Program.return_mem_names_iff {ts : List Token} {ss : List Tree} (h : Program ts ss) :
    "return" ∈ ss.flatMap names ↔ BeginsReturn ts ∨
      ∃ us x vs, ts = us ++ x :: vs ∧ x.kind = .identifier ∧ x.text = "return" ∧
        us.getLast?.any isMark = false ∧ binds vs = false := by
  obtain ⟨ns, htells, -, hsub, hnames⟩ := h.tells
  rw [← htells.return_mem_iff]
  constructor
  · intro hmem
    exact (hnames _ hmem).symm.imp_left And.right
  · rintro (hbegins | hmem)
    · exact h.mem_names_of_beginsReturn hbegins
    · exact hsub _ hmem

theorem Program.return_notMem_tail {ts : List Token} {ss : List Tree} (h : Program ts ss)
    (hts : ∀ x ∈ ts, x.kind = .identifier → x.text ≠ "return") :
    ∀ s ∈ ss, "return" ∉ s.names.tail := by
  intro s hs hmem
  obtain ⟨us, hus, hstatement⟩ := h.exists_of_mem hs
  obtain ⟨x, us', ns, rfl, -, htells, hhead⟩ := hstatement.heads
  have hreturn : "return" ∈ ns := by
    obtain ⟨_, h⟩ | ⟨_, _, h⟩ := hhead
    · exact List.mem_of_mem_tail (h ▸ hmem)
    · rwa [h] at hmem
  obtain ⟨vs, y, ws, heq, hkind, htext, _⟩ := htells.return_mem_iff.1 hreturn
  exact hts y (hus (heq ▸ by simp)) hkind htext

theorem beginsReturn_takeWhile_iff {file : String} {ts : List Token} :
    BeginsReturn (ts.takeWhile (·.kind != .eof)) ↔
      ∃ us x a vs, ts.takeWhile (·.kind != .eof) = us ++ x :: a :: vs ∧
        (∃ q, Tree.parse file us = .ok q) ∧ x.isReturn ∧ a.isSymbol "(" := by
  refine exists_congr fun us => exists_congr fun x => exists_congr fun a => exists_congr fun vs =>
    and_congr_right fun hts => and_congr_left' ?_
  refine (exists_parse_iff fun t ht => ?_).symm
  have hmem : t ∈ ts.takeWhile (·.kind != .eof) := hts ▸ List.mem_append_left _ ht
  simpa using List.mem_takeWhile_imp hmem

end Grammar

open Token

/-- Where `return` is a name. Of the names in a statement of the top level only the first one can be
the keyword, and it is wherever such a statement begins with it; all others are identifiers of that
spelling that no mark makes a property, a type, a parameter or an alias. -/
theorem return_named_iff {file : String} {ts : List Token} {p : Tree}
    (h : Tree.parse file ts = .ok p) :
    ("return" ∈ p.names ↔
      (∃ us x a vs, ts.takeWhile (·.kind != .eof) = us ++ x :: a :: vs ∧
        (∃ q, Tree.parse file us = .ok q) ∧ x.isReturn ∧ a.isSymbol "(") ∨
      ∃ us x vs, ts.takeWhile (·.kind != .eof) = us ++ x :: vs ∧ x.kind = .identifier ∧
        x.text = "return" ∧ us.getLast?.any isMark = false ∧ binds vs = false) ∧
    ((∀ x ∈ ts, x.kind = .identifier → x.text ≠ "return") →
      ∀ s ∈ p.statements, "return" ∉ s.names.tail) := by
  obtain ⟨ss, hss⟩ := Tree.exists_unplaced_of_parse h
  have hprogram := Tree.parse_eq_ok_iff.1 ⟨p, h, hss⟩
  have hnames : p.names = ss.flatMap Tree.names := by
    rw [← Tree.names_unplaced, hss, Tree.names_eq_append]
    rfl
  have hstatements : ss = p.statements.map Tree.unplaced := by
    rw [← Tree.statements_unplaced, hss]
    rfl
  constructor
  · rw [hnames, hprogram.return_mem_names_iff, Grammar.beginsReturn_takeWhile_iff]
  · intro hts s hs
    rw [← s.names_unplaced]
    refine hprogram.return_notMem_tail (fun x hx => ?_) _ (hstatements ▸ List.mem_map_of_mem hs)
    exact hts x ((List.takeWhile_sublist _).subset hx)

namespace Returning

def before : List Token := [⟨.identifier, "f", 1, 1⟩, ⟨.symbol, "(", 1, 2⟩, ⟨.symbol, ")", 1, 3⟩,
  ⟨.returnType, "number", 1, 6⟩, ⟨.symbol, "\x7b", 1, 13⟩, ⟨.keyword, "return", 1, 15⟩,
  ⟨.number, "2", 1, 22⟩, ⟨.symbol, ";", 1, 23⟩, ⟨.symbol, "\x7d", 1, 25⟩]

def call : List Token := [⟨.keyword, "return", 1, 1⟩, ⟨.symbol, "(", 1, 7⟩, ⟨.number, "1", 1, 8⟩,
  ⟨.symbol, ")", 1, 9⟩, ⟨.symbol, ";", 1, 10⟩]

theorem topStatement_before : ∃ s, Grammar.TopStatement before s := by
  have hhead : Grammar.Header [⟨.identifier, "f", 1, 1⟩, ⟨.symbol, "(", 1, 2⟩, ⟨.symbol, ")", 1, 3⟩,
      ⟨.returnType, "number", 1, 6⟩] "f" [] (.ofText "number") := .mk rfl rfl .none rfl rfl
  have hbody : Grammar.Body [⟨.keyword, "return", 1, 15⟩, ⟨.number, "2", 1, 22⟩,
      ⟨.symbol, ";", 1, 23⟩] _ :=
    .cons (.ret rfl (.operand (.primary (.number (t := ⟨.number, "2", 1, 22⟩) rfl))) rfl) .nil
  exact ⟨_, .define hhead rfl rfl hbody rfl⟩

theorem topStatement_call : Grammar.TopStatement call
    (.expr (.call (.name "return" none) [.number "1" none] none) none none) := by
  have hone : Grammar.Items [⟨.number, "1", 1, 8⟩] [.number "1" none] :=
    .one (.operand (.primary (.number (t := ⟨.number, "1", 1, 8⟩) rfl)))
  exact .call (x := ⟨.keyword, "return", 1, 1⟩) rfl rfl hone rfl .none rfl

end Returning

open Returning in
theorem return_named_iff_called : ∃ p, Tree.parse "main.struct" (before ++ call) = .ok p ∧
    "return" ∈ p.names ∧ ∀ s ∈ p.statements, "return" ∉ s.names.tail := by
  obtain ⟨s, hbefore⟩ := topStatement_before
  have hprogram : Grammar.Program (before ++ (call ++ [])) _ :=
    .cons hbefore (.cons topStatement_call .nil)
  obtain ⟨p, hp⟩ := (@Tree.exists_parse_iff "main.struct" (before ++ call) (by decide)).2
    ⟨_, hprogram⟩
  obtain ⟨q, hq⟩ := (@Tree.exists_parse_iff "main.struct" before (by decide)).2
    ⟨_, .cons hbefore .nil⟩
  obtain ⟨hnamed, htail⟩ := return_named_iff hp
  have hreturn : "return" ∈ p.names :=
    hnamed.2 (.inl ⟨before, _, _, _, rfl, ⟨q, hq⟩, rfl, rfl⟩)
  exact ⟨p, hp, hreturn, htail (by decide)⟩

open Returning in
theorem return_called : ∃ ts p, Token.scan "main.struct" "return(1);" = .ok ts ∧
    Tree.parse "main.struct" ts = .ok p ∧ "return" ∈ p.names := by
  let ts : List Token := call ++ [⟨.eof, "", 1, 11⟩]
  have hscan : Token.scan "main.struct" "return(1);" = .ok ts :=
    toOption_eq_some.1 (by decide +kernel)
  have hprogram : Grammar.Program (call ++ []) _ := .cons topStatement_call .nil
  obtain ⟨p, hp, hss⟩ := (@Tree.parse_eq_ok_iff "main.struct" ts _).2 hprogram
  refine ⟨ts, p, hscan, hp, ?_⟩
  rw [← p.names_unplaced, hss]
  decide

end StructLang
