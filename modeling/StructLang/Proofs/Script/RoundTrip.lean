import StructLang.Proofs.Token.Lexes
import StructLang.Proofs.Tree.ExprComplete
import StructLang.Script.Expr

namespace StructLang

namespace Token

open Text

def Spells (x : List Char) (us : List (TokenKind × String)) : Prop :=
  ∀ rest ws, Boundary rest → Lexes rest ws → Lexes (x ++ rest) (us ++ ws)

def Solid (x : List Char) : Prop := x.head?.any (!isBlank ·)

instance : DecidablePred Solid := fun _ => inferInstanceAs (Decidable (_ = true))

theorem Solid.takeWhile_append {x : List Char} (h : Solid x) (rest : List Char) :
    (x ++ rest).takeWhile isBlank = [] := by
  cases x with
  | nil => cases h
  | cons c x =>
    have hc : isBlank c = false := by simpa [Solid] using h
    simp [hc]

theorem Solid.append {x : List Char} (h : Solid x) (y : List Char) : Solid (x ++ y) := by
  cases x with
  | nil => cases h
  | cons c x => exact h

theorem Spells.name {n : String} (hn : ScansAsName n) : Spells n.toList [(nameKind n, n)] :=
  fun _ _ hb h => .name hn.isName.1 hn.isName.2 hb h

theorem Spells.number (n : Int) : Spells (toString n).toList [(.number, toString n)] :=
  fun _ _ hb h => .number n hb h

theorem Spells.nil : Spells [] [] := fun _ _ _ h => h

variable {x y : List Char} {us vs : List (TokenKind × String)}

theorem Spells.parens (h : Spells x us) :
    Spells ('(' :: x ++ [')']) ((.symbol, "(") :: us ++ [(.symbol, ")")]) := by
  intro rest ws _ hrest
  have hclose : Lexes (')' :: rest) ((.symbol, ")") :: ws) := .symbol (by decide) hrest
  have hinner := h _ _ (.mark (by decide) rest) hclose
  have hopen : Lexes ('(' :: (x ++ ')' :: rest)) _ := .symbol (by decide) hinner
  simpa using hopen

theorem Spells.member {p : String} (h : Spells x us) (hp : ScansAsName p) :
    Spells (x ++ '.' :: p.toList) (us ++ [(.symbol, "."), (nameKind p, p)]) := by
  intro rest ws hb hrest
  have hname := Spells.name hp _ _ hb hrest
  have hpoint : Lexes ('.' :: (p.toList ++ rest)) _ :=
    .symbol (by decide) hname
  have hwhole := h _ _ (.point hp.isName.1 rest) hpoint
  simpa using hwhole

theorem Spells.call (h : Spells x us) (hargs : Spells y vs) :
    Spells (x ++ '(' :: y ++ [')']) (us ++ (.symbol, "(") :: vs ++ [(.symbol, ")")]) := by
  intro rest ws hb hrest
  have hparens := hargs.parens _ _ hb hrest
  have hwhole := h _ _ (.mark (by decide) _) hparens
  simpa using hwhole

theorem Spells.binary (op : Operator) (hx : Spells x us) (hy : Spells y vs) (hsolid : Solid y) :
    Spells (x ++ ' ' :: op.symbol.toList ++ ' ' :: y) (us ++ (.operator, op.symbol) :: vs) := by
  intro rest ws hb hrest
  have hright : Lexes (' ' :: (y ++ rest)) _ :=
    .space (hsolid.takeWhile_append rest) (hy _ _ hb hrest)
  have hop : Lexes (op.symbol.toList ++ ' ' :: (y ++ rest)) _ := .operator op hright
  have hsymbol : Solid op.symbol.toList := by cases op <;> decide +kernel
  have hspace : Lexes (' ' :: (op.symbol.toList ++ ' ' :: (y ++ rest))) _ :=
    .space (hsymbol.takeWhile_append _) hop
  have hwhole := hx _ _ (.mark (by decide) _) hspace
  simpa using hwhole

theorem Spells.comma (hx : Spells x us) (hy : Spells y vs) (hsolid : Solid y) :
    Spells (x ++ ',' :: ' ' :: y) (us ++ (.symbol, ",") :: vs) := by
  intro rest ws hb hrest
  have hright : Lexes (' ' :: (y ++ rest)) _ :=
    .space (hsolid.takeWhile_append rest) (hy _ _ hb hrest)
  have hcomma : Lexes (',' :: ' ' :: (y ++ rest)) _ := .symbol (by decide) hright
  have hwhole := hx _ _ (.mark (by decide) _) hcomma
  simpa using hwhole

def IsPlainChar (c : Char) : Prop := 0x20 ≤ c.toNat ∧ c.toNat ≤ 0x7E ∧ c ≠ '"' ∧ c ≠ '\\'

instance : DecidablePred IsPlainChar := fun _ => inferInstanceAs (Decidable (_ ∧ _))

theorem escape_of_isPlainChar {c : Char} (h : IsPlainChar c) : Ascii.escape c = [c] := by
  obtain ⟨hlow, hhigh, hquote, hslash⟩ := h
  have hne : ∀ d : Char, d.toNat < 0x20 → c ≠ d := by
    rintro d hd rfl
    exact Nat.not_lt.2 hlow hd
  rw [Ascii.escape, if_neg (by simp [hquote, hslash]), if_neg (hne '\n' (by decide)),
    if_neg (hne '\r' (by decide)), if_neg (hne '\t' (by decide)), if_neg (hne '\x08' (by decide)),
    if_neg (hne '\x0c' (by decide)), if_pos ⟨hlow, hhigh⟩]

theorem flatMap_escape {s : List Char} (hs : ∀ c ∈ s, IsPlainChar c) :
    s.flatMap Ascii.escape = s := by
  induction s with
  | nil => rfl
  | cons c s ih =>
    rw [List.flatMap_cons, escape_of_isPlainChar (hs c (by simp)),
      ih fun d hd => hs d (by simp [hd])]
    rfl

theorem encode_of_isPlainChar {s : String} (hs : ∀ c ∈ s.toList, IsPlainChar c) :
    Ascii.encode s = String.ofList ('"' :: s.toList ++ ['"']) := by
  rw [Ascii.encode, Ascii.encodeChars, flatMap_escape hs]

theorem Spells.string {s : String} (hs : ∀ c ∈ s.toList, IsPlainChar c) :
    Spells ('"' :: s.toList ++ ['"']) [(.string, String.ofList ('"' :: s.toList ++ ['"']))] := by
  intro rest ws _ hrest
  have hquote : '"' ∉ s.toList := fun hmem => (hs _ hmem).2.2.1 rfl
  have hstring := Lexes.string hquote hrest
  simpa using hstring

theorem solid_of_isName (h : IsName x) : Solid x := by
  obtain ⟨c, s, rfl, hc, -⟩ := h
  have hblank := forall_ascii (p := fun c => !(Rule.isNameStart c && isBlank c)) (by decide +kernel)
    (toNat_lt_of_isNameStart hc)
  simpa [Solid, hc] using hblank

theorem solid_toString (n : Int) : Solid (toString n).toList := by
  rw [toList_toString_int]
  by_cases hn : n < 0
  · rw [if_pos hn]
    exact (by decide +kernel : Solid ['-']).append _
  · rw [if_neg hn, List.nil_append]
    cases hd : decimalDigits n with
    | nil => exact absurd hd (decimalDigits_ne_nil n)
    | cons d ds =>
      have hdigit : d.isDigit := isDigit_of_mem_decimalDigits (n := n) (by simp [hd])
      simpa [Solid] using isBlank_of_isAlphanum (by simp [Char.isAlphanum, hdigit])

end Token

namespace Code

open Token Grammar

/-- The expressions whose texts can be read back: their literals are integers within the limit on
digits or texts of plain characters, their names are names to the scanner, and a call knows by the
name of its callee whether it goes to the library. -/
inductive Plain : Code → Prop
  | name : ScansAsName n → n ≠ "return" → Plain (.name n place)
  | int : n.natAbs < Nat.pow 10 Numeral.digitLimit → Plain (.literal (.int n) .number place)
  | text : (∀ c ∈ s.toList, IsPlainChar c) → Plain (.literal (.text s) .string place)
  | binary : Plain l → Plain r → Plain (.binary op l r place)
  | member : Plain o → ScansAsName p → Plain (.member o p place)
  | call : Plain f → (∀ a ∈ args, Plain a) → builtin = f.calleeName?.any Library.reserved →
      Plain (.call f args builtin place)

def Reads (x : String) (P : List Token → Prop) : Prop :=
  ∃ us, Spells x.toList us ∧ ∀ ts, ts.map word = us → P ts

def Derives : Option Nat → Tree → List Token → Prop
  | some n, t, ts => Expr n ts t
  | none, t, ts => Operand ts t

structure Written (e : Code) (x : String) (t : Tree) : Prop where
  script : e.script = .ok x
  lower : t.lower = .ok e.unplaced
  callee : t.calleeName? = e.calleeName?
  solid : Solid x.toList
  reads : Reads x (Derives e.level? t)

variable {e l r f o : Code} {x y : String} {t u : Tree}

theorem Reads.mono {P Q : List Token → Prop} (h : Reads x P) (hPQ : ∀ ts, P ts → Q ts) :
    Reads x Q := by
  obtain ⟨us, hus, hP⟩ := h
  exact ⟨us, hus, fun ts hts => hPQ ts (hP ts hts)⟩

theorem Derives.expr {level : Option Nat} {ts : List Token} (h : Derives level t ts) :
    Expr 0 ts t := by
  cases level with
  | none => exact .operand h
  | some n => exact Grammar.Expr.mono h (Nat.zero_le n)

theorem isSymbol_of_word {a : Token} {s : String} (h : word a = (.symbol, s)) : a.isSymbol s :=
  Parse.isSymbol_iff.2 (Prod.mk.inj h)

theorem Reads.parens (h : Reads x (Expr 0 · t)) : Reads ("(" ++ x ++ ")") (Operand · t) := by
  obtain ⟨us, hus, hP⟩ := h
  refine ⟨(.symbol, "(") :: us ++ [(.symbol, ")")], by simpa using hus.parens, ?_⟩
  intro ts hts
  obtain ⟨ls, bs, rfl, hls, hbs⟩ := List.map_eq_append_iff.1 hts
  obtain ⟨a, rs, rfl, ha, hrs⟩ := List.map_eq_cons_iff.1 hls
  obtain ⟨b, rfl, hb⟩ := List.map_eq_singleton_iff.1 hbs
  exact .primary (.parens (isSymbol_of_word ha) (hP rs hrs) (isSymbol_of_word hb))

theorem Written.reads_expr (h : Written e x t) (m : Nat) :
    Reads (parens (e.level?.any (· < m)) x) (Expr m · t) := by
  have hreads := h.reads
  cases hlevel : e.level? with
  | none =>
    rw [hlevel] at hreads
    exact hreads.mono fun _ => .operand
  | some n =>
    by_cases hlt : n < m
    · have hparens := (hreads.mono fun _ => Derives.expr).parens
      simpa [parens, hlt] using hparens.mono fun _ => .operand
    · rw [hlevel] at hreads
      have hexpr : Reads x (Expr m · t) := hreads.mono fun _ h => h.mono (Nat.not_lt.1 hlt)
      simpa [parens, hlt] using hexpr

theorem Written.reads_operand (h : Written e x t) :
    Reads (parens e.level?.isSome x) (Operand · t) := by
  have hreads := h.reads
  cases hlevel : e.level? with
  | none =>
    rw [hlevel] at hreads
    exact hreads
  | some n => exact (hreads.mono fun _ => Derives.expr).parens

theorem solid_append (h : Solid x.toList) (y : String) : Solid (x ++ y).toList := by
  rw [String.toList_append]
  exact h.append _

theorem solid_parens (b : Bool) (h : Solid x.toList) : Solid (parens b x).toList := by
  cases b with
  | false => exact h
  | true =>
    rw [parens, if_pos rfl, String.append_assoc]
    exact solid_append (by decide +kernel) _

theorem Reads.binary {op : Operator} (hx : Reads x (Expr op.level · t))
    (hy : Reads y (Expr (op.level + 1) · u)) (hsolid : Solid y.toList) :
    Reads (x ++ " " ++ op.symbol ++ " " ++ y) (Expr op.level · (.binary op t u none)) := by
  obtain ⟨us, hus, hP⟩ := hx
  obtain ⟨vs, hvs, hQ⟩ := hy
  refine ⟨us ++ (.operator, op.symbol) :: vs, by simpa using hus.binary op hvs hsolid, ?_⟩
  intro ts hts
  obtain ⟨ls, rs, rfl, hls, hrs⟩ := List.map_eq_append_iff.1 hts
  obtain ⟨a, rs, rfl, ha, hrs⟩ := List.map_eq_cons_iff.1 hrs
  exact .binary (Nat.le_refl _) (hP ls hls) (Prod.mk.inj ha) (hQ rs hrs)

theorem Reads.member {p : String} (hx : Reads x (Operand · t)) (hp : ScansAsName p) :
    Reads (x ++ "." ++ p) (Operand · (.member t p none)) := by
  obtain ⟨us, hus, hP⟩ := hx
  refine ⟨us ++ [(.symbol, "."), (nameKind p, p)], by simpa using hus.member hp, ?_⟩
  intro ts hts
  obtain ⟨ls, rs, rfl, hls, hrs⟩ := List.map_eq_append_iff.1 hts
  obtain ⟨dot, rs, rfl, hdot, hrs⟩ := List.map_eq_cons_iff.1 hrs
  obtain ⟨a, rfl, ha⟩ := List.map_eq_singleton_iff.1 hrs
  obtain rfl : a.text = p := (Prod.mk.inj ha).2
  exact .member (hP ls hls) (isSymbol_of_word hdot) (isName_of_word ha)

theorem Reads.call {args : List Tree} (hx : Reads x (Operand · t))
    (hy : Reads y (Arguments · args)) :
    Reads (x ++ "(" ++ y ++ ")") (Operand · (.call t args none)) := by
  obtain ⟨us, hus, hP⟩ := hx
  obtain ⟨vs, hvs, hQ⟩ := hy
  refine ⟨us ++ (.symbol, "(") :: vs ++ [(.symbol, ")")], by simpa using hus.call hvs, ?_⟩
  intro ts hts
  obtain ⟨ts, bs, rfl, hts, hbs⟩ := List.map_eq_append_iff.1 hts
  obtain ⟨ls, rs, rfl, hls, hrs⟩ := List.map_eq_append_iff.1 hts
  obtain ⟨a, rs, rfl, ha, hrs⟩ := List.map_eq_cons_iff.1 hrs
  obtain ⟨b, rfl, hb⟩ := List.map_eq_singleton_iff.1 hbs
  exact .call (hP ls hls) (isSymbol_of_word ha) (hQ rs hrs) (isSymbol_of_word hb)

theorem Reads.comma {args : List Tree} (hx : Reads x (Expr 0 · t)) (hy : Reads y (Items · args))
    (hsolid : Solid y.toList) : Reads (x ++ ", " ++ y) (Items · (t :: args)) := by
  obtain ⟨us, hus, hP⟩ := hx
  obtain ⟨vs, hvs, hQ⟩ := hy
  refine ⟨us ++ (.symbol, ",") :: vs, by simpa using hus.comma hvs hsolid, ?_⟩
  intro ts hts
  obtain ⟨ls, rs, rfl, hls, hrs⟩ := List.map_eq_append_iff.1 hts
  obtain ⟨c, rs, rfl, hc, hrs⟩ := List.map_eq_cons_iff.1 hrs
  exact .cons (hP ls hls) (isSymbol_of_word hc) (hQ rs hrs)

theorem Reads.name {n : String} (hn : ScansAsName n) (hreturn : n ≠ "return") :
    Reads n (Operand · (.name n none)) := by
  refine ⟨[(nameKind n, n)], .name hn, ?_⟩
  intro ts hts
  obtain ⟨a, rfl, ha⟩ := List.map_eq_singleton_iff.1 hts
  obtain rfl : a.text = n := (Prod.mk.inj ha).2
  exact .primary (.name (isName_of_word ha) (by simp [Token.isReturn, hreturn]))

theorem Reads.number (n : Int) : Reads (toString n) (Operand · (.number (toString n) none)) := by
  refine ⟨[(.number, toString n)], .number n, ?_⟩
  intro ts hts
  obtain ⟨a, rfl, ha⟩ := List.map_eq_singleton_iff.1 hts
  obtain ⟨hkind, htext⟩ := Prod.mk.inj ha
  rw [← htext]
  exact .primary (.number hkind)

theorem Reads.string {s : String} (hs : ∀ c ∈ s.toList, IsPlainChar c) :
    Reads (Text.Ascii.encode s) (Operand · (.string (Text.Ascii.encode s) none)) := by
  refine ⟨[(.string, Text.Ascii.encode s)], ?_, ?_⟩
  · rw [encode_of_isPlainChar hs, String.toList_ofList]
    exact .string hs
  · intro ts hts
    obtain ⟨a, rfl, ha⟩ := List.map_eq_singleton_iff.1 hts
    obtain ⟨hkind, htext⟩ := Prod.mk.inj ha
    rw [← htext]
    exact .primary (.string hkind)

theorem written_items {a : Code} {args : List Code} (h : ∀ e ∈ a :: args, ∃ x t, Written e x t) :
    ∃ x xs ts, scripts (a :: args) = .ok (x :: xs) ∧
      Tree.lowerAll ts = .ok (unplacedAll (a :: args)) ∧
      Solid (", ".intercalate (x :: xs)).toList ∧
      Reads (", ".intercalate (x :: xs)) (Items · ts) := by
  induction args generalizing a with
  | nil =>
    obtain ⟨x, t, hw⟩ := h a (by simp)
    refine ⟨x, [], [t], ?_, ?_, hw.solid, hw.reads.mono fun _ h => .one h.expr⟩
    · rw [scripts, hw.script]
      rfl
    · rw [Tree.lowerAll, hw.lower]
      rfl
  | cons b args ih =>
    obtain ⟨x, t, hw⟩ := h a (by simp)
    obtain ⟨y, ys, ts, hscripts, hlower, hsolid, hreads⟩ :=
      ih fun e he => h e (List.mem_cons_of_mem a he)
    have hjoin : ", ".intercalate (x :: y :: ys) = x ++ ", " ++ ", ".intercalate (y :: ys) := by
      rw [String.intercalate_cons_cons]
    refine ⟨x, y :: ys, t :: ts, ?_, ?_, ?_, ?_⟩
    · rw [scripts, hw.script, hscripts]
      rfl
    · rw [Tree.lowerAll, hw.lower, hlower]
      rfl
    · rw [hjoin, String.append_assoc]
      exact solid_append hw.solid _
    · rw [hjoin]
      exact (hw.reads.mono fun _ h => h.expr).comma hreads hsolid

theorem written_arguments {args : List Code} (h : ∀ e ∈ args, ∃ x t, Written e x t) :
    ∃ xs ts, scripts args = .ok xs ∧ Tree.lowerAll ts = .ok (unplacedAll args) ∧
      Reads (", ".intercalate xs) (Arguments · ts) := by
  cases args with
  | nil =>
    refine ⟨[], [], rfl, rfl, [], .nil, ?_⟩
    intro ts hts
    obtain rfl := List.map_eq_nil_iff.1 hts
    exact .none
  | cons a args =>
    obtain ⟨x, xs, ts, hscripts, hlower, _, hreads⟩ := written_items h
    exact ⟨x :: xs, ts, hscripts, hlower, hreads.mono fun _ => .some⟩

theorem Plain.written {e : Code} (h : Plain e) : ∃ x t, Written e x t := by
  induction h with
  | @name n place hn hreturn =>
    exact ⟨n, .name n none, rfl, rfl, rfl, solid_of_isName hn.isName.1, .name hn hreturn⟩
  | @int n place hn =>
    refine ⟨toString n, .number (toString n) none, ?_, ?_, rfl, solid_toString n, .number n⟩
    · rw [script, Value.script]
      · rw [Value.listing, decimalText, if_pos hn]
      · simp
      · simp
    · rw [Tree.lower, Value.ofNumeral_toString hn]
      rfl
  | @text s place hs =>
    refine ⟨Text.Ascii.encode s, .string (Text.Ascii.encode s) none, rfl, ?_, rfl, ?_, .string hs⟩
    · rw [Tree.lower, Tree.unquote, encode_of_isPlainChar hs]
      simp [unplaced]
    · rw [encode_of_isPlainChar hs, String.toList_ofList]
      exact (by decide +kernel : Solid ['"']).append _
  | @binary l r op place _ _ ihl ihr =>
    obtain ⟨x, t, hl⟩ := ihl
    obtain ⟨y, u, hr⟩ := ihr
    have hright := hr.reads_expr (op.level + 1)
    simp only [Nat.lt_succ_iff] at hright
    refine ⟨_, .binary op t u none, ?_, ?_, rfl, ?_, (hl.reads_expr op.level).binary hright ?_⟩
    · rw [script, hl.script, hr.script]
      rfl
    · rw [Tree.lower, hl.lower, hr.lower]
      rfl
    · simp only [String.append_assoc]
      exact solid_append (solid_parens _ hl.solid) _
    · exact solid_parens _ hr.solid
  | @member o p place _ hp ih =>
    obtain ⟨x, t, ho⟩ := ih
    refine ⟨_, .member t p none, ?_, ?_, rfl, ?_, ho.reads_operand.member hp⟩
    · rw [script, ho.script]
      rfl
    · rw [Tree.lower, ho.lower]
      rfl
    · rw [String.append_assoc]
      exact solid_append (solid_parens _ ho.solid) _
  | @call f args builtin place _ _ hbuiltin ihf ihargs =>
    obtain ⟨x, t, hf⟩ := ihf
    obtain ⟨xs, ts, hscripts, hlower, hreads⟩ := written_arguments ihargs
    refine ⟨_, .call t ts none, ?_, ?_, rfl, ?_, hf.reads_operand.call hreads⟩
    · rw [script, hscripts, hf.script]
      rfl
    · rw [Tree.lower, hf.lower, hlower, hf.callee, ← hbuiltin]
      rfl
    · simp only [String.append_assoc]
      exact solid_append (solid_parens _ hf.solid) _

end Code

def Tree.parseExpression (file : String) (ts : List Token) :
    Except Failure (Tree × List Token) := do
  let p ← Parse.expression ⟨file, Parse.endToken ts⟩ (ts.takeWhile (·.kind != .eof))
  return (p.value, p.rest)

theorem Tree.parseExpression_of_expr (file : String) {ts : List Token} {t : Tree}
    (h : Grammar.Expr 0 (ts.takeWhile (·.kind != .eof)) t) :
    ∃ t', parseExpression file ts = .ok (t', []) ∧ t'.unplaced = t := by
  obtain ⟨t', ht', hreaches⟩ := h.complete ⟨file, Parse.endToken ts⟩
  obtain ⟨hlt, hread⟩ := hreaches.read Parse.Ends.nil
  refine ⟨t', ?_, ht'⟩
  have hpair : Parsed.pair <$> Parse.binary ⟨file, Parse.endToken ts⟩ 0 _ = .ok (t', []) :=
    congrArg (Parsed.pair <$> ·) hread
  rw [List.append_nil] at hpair
  rw [parseExpression, Parse.expression]
  obtain ⟨hlt, hbinary⟩ := Parse.exists_of_parsed hpair
  rw [hbinary]
  rfl

namespace Code

open Token Grammar

/-- The text of a plain expression, scanned, parsed to its end and lowered, gives the expression. -/
theorem lower_parse_scan_script (file : String) {e : Code} (h : Plain e) :
    ∃ text ts t c, e.script = .ok text ∧ Token.scan file text = .ok ts ∧
      Tree.parseExpression file ts = .ok (t, []) ∧ t.lower = .ok c ∧ c.unplaced = e.unplaced := by
  obtain ⟨text, t, hw⟩ := h.written
  obtain ⟨us, hus, hderives⟩ := hw.reads
  obtain ⟨ts, last, hscan, hts⟩ := (hus [] [] .nil .nil).scanFrom file {}
  rw [List.append_nil] at hscan hts
  have hexpr : Expr 0 ts t := (hderives ts hts).expr
  have hmerge : mergeReturnTypes ts = ts :=
    mergeReturnTypes_of_noColon fun a ha => (hexpr.inExpr a ha).noColon
  have htake : (ts ++ [(⟨.eof, "", last.line, last.column⟩ : Token)]).takeWhile
      (·.kind != .eof) = ts := by
    rw [List.takeWhile_append_of_pos fun a ha => by simpa using (hexpr.inExpr a ha).kind_ne_eof]
    simp
  rw [← htake] at hexpr
  obtain ⟨t', hparse, ht'⟩ := Tree.parseExpression_of_expr file hexpr
  have hlower : t'.unplaced.lower = .ok e.unplaced := by rw [ht', hw.lower]
  obtain ⟨c, hc, hunplaced⟩ := Tree.exists_lower_of_unplaced hlower
  refine ⟨text, _, t', c, hw.script, ?_, hparse, hc, hunplaced⟩
  simp only [Token.scan, hscan, ok_bind, hmerge, pure_eq_ok]

theorem lower_parse_scan_difference :
    ∃ text ts t c,
      (Code.binary .sub (.name "x" none)
        (.binary .sub
          (.call (.member (.literal (.int (-5)) .number none) "max" none)
            [.literal (.text "a, b") .string none,
              .binary .or (.name "y" none) (.name "print" none) none] false none)
          (.literal (.int 2) .number none) none) none).script = .ok text ∧
      Token.scan "main.struct" text = .ok ts ∧
      Tree.parseExpression "main.struct" ts = .ok (t, []) ∧ t.lower = .ok c ∧
      c.unplaced = .binary .sub (.name "x" none)
        (.binary .sub
          (.call (.member (.literal (.int (-5)) .number none) "max" none)
            [.literal (.text "a, b") .string none,
              .binary .or (.name "y" none) (.name "print" none) none] false none)
          (.literal (.int 2) .number none) none) none := by
  have hname : ∀ n ∈ ["x", "y", "print", "max"], ScansAsName n := by
    have hall : ∀ n ∈ ["x", "y", "print", "max"], (n.toList.head?.any Rule.isNameStart ∧
        n.toList.tail.all Rule.isNamePart) ∧ n ∉ Ty.primitives := by decide
    exact fun n hn => scansAsName_iff.2 ((hall n hn).imp_left isName_iff.2)
  have hlt : ∀ n ∈ [-5, 2], Int.natAbs n < Nat.pow 10 Numeral.digitLimit := by
    have hall : ∀ n ∈ [-5, 2], Int.natAbs n < 10 := by decide
    have hpow : ∀ k, k ≠ 0 → 10 ≤ Nat.pow 10 k := fun k hk => Nat.le_self_pow hk 10
    exact fun n hn => (hall n hn).trans_le (hpow _ (by decide))
  have htext : ∀ c ∈ "a, b".toList, IsPlainChar c := by
    have hall : "a, b".toList.all fun c => IsPlainChar c := by decide
    simpa using hall
  have hargs : ∀ a ∈ [Code.literal (.text "a, b") .string none,
      .binary .or (.name "y" none) (.name "print" none) none], Plain a := by
    simp only [List.forall_mem_cons]
    refine ⟨.text htext, .binary (.name (hname _ (by simp)) (by decide))
      (.name (hname _ (by simp)) (by decide)), by simp⟩
  exact lower_parse_scan_script "main.struct"
    (.binary (.name (hname _ (by simp)) (by decide))
      (.binary (.call (.member (.int (hlt _ (by simp))) (hname _ (by simp))) hargs rfl)
        (.int (hlt _ (by simp)))))

end Code

end StructLang
