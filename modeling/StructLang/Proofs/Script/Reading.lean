import StructLang.Proofs.Code.Rendering
import StructLang.Proofs.Script.Numbers

/-!
What an emitted expression is to a reader of the script. It is read as the expression that was
meant, unless a number is called or has a member: a sign before it then belongs to the whole, and
the point after a whole number belongs to the number.
-/

namespace StructLang

namespace Code

def isNegative : Code → Bool
  | .literal v _ _ => v.isNegative
  | _ => false

def isWhole : Code → Bool
  | .literal v _ _ => v.isWhole
  | _ => false

mutual

/-- No number has a sign before it or a point after it that is read otherwise. -/
def separated : Code → Bool
  | .binary _ left right _ => left.separated && right.separated
  | .call callee args _ _ => !callee.isNegative && callee.separated && allSeparated args
  | .member object _ _ => !object.isNegative && !object.isWhole && object.separated
  | _ => true

def allSeparated : List Code → Bool
  | [] => true
  | c :: cs => c.separated && allSeparated cs

end

inductive Legible : Code → Prop
  | number : v.isNumber → v.isFinite → v.isWritable → Legible (.literal v type place)
  | text : Legible (.literal (.text s) type place)
  | name : Token.IsName n.toList → Legible (.name n place)
  | binary : Legible l → Legible r → Legible (.binary op l r place)
  | call : Legible f → (∀ a ∈ args, Legible a) → Legible (.call f args builtin place)
  | member : Legible o → Token.IsName p.toList → Legible (.member o p place)

end Code

namespace Script

inductive Represents : Expr → Code → Prop
  | number : v.isNegative = false → v.HasMagnitude q →
      Represents (.number q) (.literal v type place)
  | negative : v.isNegative → v.HasMagnitude q →
      Represents (.minus (.number q)) (.literal v type place)
  | text : Represents (.string (s.toList.flatMap units16)) (.literal (.text s) type place)
  | name : Represents (.name n) (.name n place)
  | binary : Represents l cl → Represents r cr →
      Represents (.binary op l r) (.binary op cl cr place)
  | call : Represents f c → List.Forall₂ Represents args cs →
      Represents (.call f args) (.call c cs builtin place)
  | member : Represents o c → Represents (.member o p) (.member c p place)

def Reads (text : String) (e : Expr) : Prop := ∃ ws, words text.toList = some ws ∧ Derives 0 ws e

theorem Reads.unique {text : String} {e e' : Expr} (h : Reads text e) (h' : Reads text e') :
    e = e' := by
  obtain ⟨ws, hws, hderives⟩ := h
  obtain ⟨ws', hws', hderives'⟩ := h'
  obtain rfl : ws = ws' := Option.some.inj (hws.symm.trans hws')
  exact hderives.unique hderives'

def ReadsBack (text : String) (e : Code) : Prop :=
  ∃ t, (∀ u, Reads text u ↔ u = t) ∧ Represents t e

/-- The expression is what stands before a call or a member, but for a sign. -/
inductive Accessed (e : Code) : List Word → Expr → Prop
  | plain : e.isNegative = false → Derives accessPrecedence ws t → Accessed e ws t
  | signed : Derives accessPrecedence ws t → Accessed e (.operator .sub :: ws) (.minus t)

inductive Reading (e : Code) : List Word → Expr → Prop
  | operand : e.level? = none → Accessed e ws t → Reading e ws t
  | binary : e.level? = some op.level → Derives (precedence op) ws t → Reading e ws t

def enclosed (needed : Bool) (ws : List Word) : List Word :=
  if needed then .opening :: ws ++ [.closing] else ws

variable {e l r f o : Code} {ws : List Word} {t u : Expr} {n : Nat}

theorem Accessed.derives (h : Accessed e ws t) (hn : n ≤ signPrecedence) : Derives n ws t := by
  cases h with
  | plain _ h => exact h.mono (hn.trans (by decide))
  | signed h => exact .minus hn (h.mono (by decide))

theorem Reading.derives (h : Reading e ws t) : Derives 0 ws t := by
  cases h with
  | operand _ h => exact h.derives (by decide)
  | binary _ h => exact h.mono (Nat.zero_le _)

theorem Reading.enclosed (h : Reading e ws t) (hn : n ≤ signPrecedence) {needed : Bool}
    (hneeded : ∀ op, e.level? = some op.level → needed = false → n ≤ precedence op) :
    Derives n (enclosed needed ws) t := by
  cases needed with
  | true => exact .parens h.derives
  | false =>
    cases h with
    | operand _ h => exact h.derives hn
    | binary hlevel h => exact h.mono (hneeded _ hlevel rfl)

theorem Reading.accessed (h : Reading e ws t) :
    Accessed e (Script.enclosed e.level?.isSome ws) t := by
  cases h with
  | operand hlevel h => simpa [Script.enclosed, hlevel] using h
  | binary hlevel h =>
    have hnegative : e.isNegative = false := by
      cases e with
      | literal => cases hlevel
      | _ => rfl
    rw [hlevel]
    exact .plain hnegative (.parens (h.mono (Nat.zero_le _)))

@[simp] theorem represents_binary_iff {op : Operator} {place : Option Span} :
    Represents (.binary op t u) (.binary op l r place) ↔ Represents t l ∧ Represents u r := by
  constructor
  · rintro ⟨⟩
    exact ⟨‹_›, ‹_›⟩
  · exact fun h => .binary h.1 h.2

@[simp] theorem represents_call_iff {us : List Expr} {args : List Code} {builtin : Bool}
    {place : Option Span} :
    Represents (.call t us) (.call f args builtin place) ↔
      Represents t f ∧ List.Forall₂ Represents us args := by
  constructor
  · rintro ⟨⟩
    exact ⟨‹_›, ‹_›⟩
  · exact fun h => .call h.1 h.2

@[simp] theorem represents_member_iff {p : String} {place : Option Span} :
    Represents (.member t p) (.member o p place) ↔ Represents t o := by
  constructor
  · rintro ⟨⟩
    assumption
  · exact .member

theorem isNegative_of_represents (h : Represents (.minus t) e) : e.isNegative := by
  cases h with
  | negative hnegative => exact hnegative

theorem Accessed.member (h : Accessed o ws t) (p : String) (place : Option Span) :
    ∃ u, Accessed (.member o p place) (ws ++ [.point, .name p]) u ∧
      (Represents u (.member o p place) ↔ o.isNegative = false ∧ Represents t o) := by
  cases h with
  | plain hnegative h => exact ⟨.member t p, .plain rfl (.member h), by simp [hnegative]⟩
  | @signed ws t h =>
    refine ⟨.minus (.member t p), .signed (.member h), ?_⟩
    refine iff_of_false (by rintro ⟨⟩) ?_
    rintro ⟨hnegative, hrepresents⟩
    simp [isNegative_of_represents hrepresents] at hnegative

theorem Accessed.call (h : Accessed f ws t) {vs : List Word} {us : List Expr}
    (hargs : Arguments vs us) (args : List Code) (builtin : Bool) (place : Option Span) :
    ∃ u, Accessed (.call f args builtin place) (ws ++ .opening :: vs ++ [.closing]) u ∧
      (Represents u (.call f args builtin place) ↔
        (f.isNegative = false ∧ Represents t f) ∧ List.Forall₂ Represents us args) := by
  cases h with
  | plain hnegative h => exact ⟨.call t us, .plain rfl (.call h hargs), by simp [hnegative]⟩
  | @signed ws t h =>
    refine ⟨.minus (.call t us), .signed (.call h hargs), ?_⟩
    refine iff_of_false (by rintro ⟨⟩) ?_
    rintro ⟨⟨hnegative, hrepresents⟩, -⟩
    simp [isNegative_of_represents hrepresents] at hnegative

/-- The words, if there are any, make something that is as it should be just if the code that they
come from is separated. -/
def Tells {α : Type} (R : List Word → α → Prop) (Q : α → Prop) (separated : Bool) :
    Option (List Word) → Prop
  | none => separated = false
  | some ws => ∃ a, R ws a ∧ (Q a ↔ separated)

abbrev Conveys (R : List Word → Expr → Prop) (e : Code) : Option (List Word) → Prop :=
  Tells R (Represents · e) e.separated

abbrev ConveysAll (R : List Word → List Expr → Prop) (es : List Code) :
    Option (List Word) → Prop :=
  Tells R (List.Forall₂ Represents · es) (Code.allSeparated es)

section

variable {α β γ : Type} {R : List Word → α → Prop} {S : List Word → β → Prop}
  {T : List Word → γ → Prop} {Q : α → Prop} {Q' : β → Prop} {Q'' : γ → Prop} {a b c : Bool}
  {us vs : Option (List Word)}

theorem Tells.map (h : Tells R Q a us) {f : List Word → List Word} (hb : b → a)
    (hstep : ∀ ws t, R ws t → (Q t ↔ a) → ∃ u, S (f ws) u ∧ (Q' u ↔ b)) :
    Tells S Q' b (us.map f) := by
  cases us with
  | none => exact Bool.eq_false_iff.2 fun hseparated => Bool.eq_false_iff.1 h (hb hseparated)
  | some ws =>
    obtain ⟨t, ht, hiff⟩ := h
    exact hstep ws t ht hiff

theorem Tells.map₂ (h : Tells R Q a us) (h' : Tells S Q' b vs)
    {f : List Word → List Word → List Word} (hc : c → a ∧ b)
    (hstep : ∀ ws t vs u, R ws t → S vs u → (Q t ↔ a) → (Q' u ↔ b) →
      ∃ v, T (f ws vs) v ∧ (Q'' v ↔ c)) :
    Tells T Q'' c (Option.map₂ f us vs) := by
  match us, vs with
  | none, _ => exact Bool.eq_false_iff.2 fun hseparated => Bool.eq_false_iff.1 h (hc hseparated).1
  | some _, none =>
    exact Bool.eq_false_iff.2 fun hseparated => Bool.eq_false_iff.1 h' (hc hseparated).2
  | some ws, some vs =>
    obtain ⟨t, ht, hiff⟩ := h
    obtain ⟨u, hu, hiff'⟩ := h'
    exact hstep ws t vs u ht hu hiff hiff'

theorem Tells.mono {R' : List Word → α → Prop} (h : Tells R Q a us)
    (hR : ∀ ws t, R ws t → R' ws t) : Tells R' Q a us := by
  rw [← Option.map_id_apply (x := us)]
  exact h.map id fun ws t ht hiff => ⟨t, hR ws t ht, hiff⟩

end

variable {us vs : Option (List Word)} {place : Option Span}

theorem Conveys.binary {op : Operator} (hl : Conveys (Derives (precedence op)) l us)
    (hr : Conveys (Derives (precedence op + 1)) r vs) :
    Conveys (Reading (.binary op l r place)) (.binary op l r place)
      (Option.map₂ (fun us vs => us ++ .operator op :: vs) us vs) := by
  refine hl.map₂ hr (by simp [Code.separated]) fun _ t _ u ht hu hiffl hiffr => ?_
  refine ⟨.binary op t u, .binary rfl (.binary (Nat.le_refl _) ht hu), ?_⟩
  rw [represents_binary_iff, hiffl, hiffr, Code.separated, Bool.and_eq_true]

theorem Conveys.member {p : String} (h : Conveys (Accessed o) o us) (hwhole : o.isWhole = false) :
    Conveys (Reading (.member o p place)) (.member o p place)
      (us.map (· ++ [.point, .name p])) := by
  refine h.map (by simp [Code.separated]) fun _ t ht hiff => ?_
  obtain ⟨u, hu, hmember⟩ := ht.member p place
  refine ⟨u, .operand rfl hu, ?_⟩
  rw [hmember, hiff, Code.separated]
  simp [hwhole]

theorem Conveys.call {args : List Code} {builtin : Bool} (h : Conveys (Accessed f) f us)
    (hargs : ConveysAll Arguments args vs) :
    Conveys (Reading (.call f args builtin place)) (.call f args builtin place)
      (Option.map₂ (fun us vs => us ++ .opening :: vs ++ [.closing]) us vs) := by
  refine h.map₂ hargs (by simp +contextual [Code.separated]) fun _ t _ ts ht hts hiff hall => ?_
  obtain ⟨u, hu, hcall⟩ := ht.call hts args builtin place
  refine ⟨u, .operand rfl hu, ?_⟩
  rw [hcall, hiff, hall, Code.separated]
  simp

theorem Conveys.one (h : Conveys (Derives 0) e us) : ConveysAll Items [e] us := by
  rw [← Option.map_id_apply (x := us)]
  refine h.map (by simp [Code.allSeparated]) fun _ t ht hiff => ⟨[t], .one ht, ?_⟩
  simp [Code.allSeparated, hiff]

theorem Conveys.cons {es : List Code} (h : Conveys (Derives 0) e us)
    (hs : ConveysAll Items es vs) :
    ConveysAll Items (e :: es) (Option.map₂ (fun us vs => us ++ .comma :: vs) us vs) := by
  refine h.map₂ hs (by simp [Code.allSeparated]) fun _ t _ ts ht hts hiff hall => ?_
  refine ⟨t :: ts, .cons ht hts, ?_⟩
  rw [List.forall₂_cons, hiff, hall, Code.allSeparated, Bool.and_eq_true]

structure Written (e : Code) (text : String) (us : Option (List Word)) : Prop where
  script : e.script = .ok text
  spells : Spells IsEnd text.toList us
  spells_operand : e.level? = none → e.isWhole = false → Spells IsBreak text.toList us
  conveys : Conveys (Reading e) e us

variable {text x y : String}

theorem toList_parens (needed : Bool) (text : String) : (Code.parens needed text).toList =
    if needed then '(' :: (text.toList ++ [')']) else text.toList := by
  cases needed <;> simp [Code.parens]

theorem Spells.enclosed {P : List Char → Prop} (h : Spells IsEnd text.toList us) :
    Spells P (Code.parens true text).toList (us.map (enclosed true)) := by
  rw [toList_parens]
  exact h.parens

theorem map_enclosed_false (us : Option (List Word)) : us.map (enclosed false) = us :=
  Option.map_id_apply

theorem Written.spells_parens (h : Written e text us) (needed : Bool) :
    Spells IsEnd (Code.parens needed text).toList (us.map (enclosed needed)) := by
  cases needed with
  | false =>
    rw [map_enclosed_false]
    exact h.spells
  | true => exact h.spells.enclosed

theorem Written.spells_access (h : Written e text us) (hwhole : e.isWhole = false) :
    Spells IsBreak (Code.parens e.level?.isSome text).toList
      (us.map (enclosed e.level?.isSome)) := by
  cases hlevel : e.level? with
  | none =>
    rw [Option.isSome_none, map_enclosed_false]
    exact h.spells_operand hlevel hwhole
  | some _ => exact h.spells.enclosed

theorem Written.conveys_access (h : Written e text us) :
    Conveys (Accessed e) e (us.map (enclosed e.level?.isSome)) :=
  h.conveys.map id fun _ t hreading hiff => ⟨t, hreading.accessed, hiff⟩

theorem precedence_le_iff (op op' : Operator) :
    precedence op ≤ precedence op' ↔ op.level ≤ op'.level := by
  cases op <;> cases op' <;> decide

theorem Written.conveys_left (h : Written e text us) (op : Operator) :
    Conveys (Derives (precedence op)) e (us.map (enclosed (e.level?.any (· < op.level)))) := by
  refine h.conveys.map id fun _ t hreading hiff => ⟨t, ?_, hiff⟩
  refine hreading.enclosed (precedence_lt_sign op).le fun op' hlevel hneeded => ?_
  rw [precedence_le_iff]
  simpa [hlevel] using hneeded

theorem Written.conveys_right (h : Written e text us) (op : Operator) :
    Conveys (Derives (precedence op + 1)) e (us.map (enclosed (e.level?.any (· ≤ op.level)))) := by
  refine h.conveys.map id fun _ t hreading hiff => ⟨t, ?_, hiff⟩
  refine hreading.enclosed (precedence_lt_sign op) fun op' hlevel hneeded => ?_
  rw [Nat.succ_le_iff, ← Nat.not_le, precedence_le_iff]
  simpa [hlevel] using hneeded

theorem Written.binary (op : Operator) (hl : Written l x us) (hr : Written r y vs) :
    Written (.binary op l r place)
      (Code.parens (l.level?.any (· < op.level)) x ++ " " ++ op.symbol ++ " " ++
        Code.parens (r.level?.any (· ≤ op.level)) y)
      (Option.map₂ (fun us vs => us ++ .operator op :: vs)
        (us.map (enclosed (l.level?.any (· < op.level))))
        (vs.map (enclosed (r.level?.any (· ≤ op.level))))) where
  script := by
    rw [Code.script, hl.script, hr.script]
    rfl
  spells := by simpa using (hl.spells_parens _).binary op (hr.spells_parens _)
  spells_operand hlevel := nomatch hlevel
  conveys := (hl.conveys_left op).binary (hr.conveys_right op)

theorem Written.member {p : String} (h : Written o x us) (hwhole : o.isWhole = false)
    (hp : Token.IsName p.toList) :
    Written (.member o p place) (Code.parens o.level?.isSome x ++ "." ++ p)
      ((us.map (enclosed o.level?.isSome)).map (· ++ [.point, .name p])) := by
  have hspells : Spells IsBreak (Code.parens o.level?.isSome x ++ "." ++ p).toList
      ((us.map (enclosed o.level?.isSome)).map (· ++ [.point, .name p])) := by
    simpa using (h.spells_access hwhole).member hp
  refine ⟨?_, hspells.mono fun _ => IsEnd.isBreak, fun _ _ => hspells,
    h.conveys_access.member hwhole⟩
  rw [Code.script, h.script]
  rfl

theorem written_items {a : Code} {args : List Code}
    (h : ∀ e ∈ a :: args, ∃ text us, Written e text us) :
    ∃ x xs us, Code.scripts (a :: args) = .ok (x :: xs) ∧
      Spells IsEnd (", ".intercalate (x :: xs)).toList us ∧ ConveysAll Items (a :: args) us := by
  induction args generalizing a with
  | nil =>
    obtain ⟨x, us, hw⟩ := h a (by simp)
    have hderives : Conveys (Derives 0) a us := hw.conveys.mono fun _ _ => Reading.derives
    refine ⟨x, [], us, ?_, hw.spells, hderives.one⟩
    rw [Code.scripts, hw.script]
    rfl
  | cons b args ih =>
    obtain ⟨x, us, hw⟩ := h a (by simp)
    obtain ⟨y, ys, vs, hscripts, hspells, hconveys⟩ :=
      ih fun e he => h e (List.mem_cons_of_mem a he)
    have hderives : Conveys (Derives 0) a us := hw.conveys.mono fun _ _ => Reading.derives
    refine ⟨x, y :: ys, _, ?_, ?_, hderives.cons hconveys⟩
    · rw [Code.scripts, hw.script, hscripts]
      rfl
    · rw [String.intercalate_cons_cons]
      simpa using hw.spells.comma hspells

theorem written_arguments {args : List Code} (h : ∀ e ∈ args, ∃ text us, Written e text us) :
    ∃ xs us, Code.scripts args = .ok xs ∧ Spells IsEnd (", ".intercalate xs).toList us ∧
      ConveysAll Arguments args us := by
  cases args with
  | nil => exact ⟨[], some [], rfl, .nil, [], .none, by simp [Code.allSeparated]⟩
  | cons a args =>
    obtain ⟨x, xs, us, hscripts, hspells, hconveys⟩ := written_items h
    exact ⟨x :: xs, us, hscripts, hspells, hconveys.mono fun _ _ => .some⟩

theorem Written.call {args : List Code} {builtin : Bool} (h : Written f x us)
    (hargs : ∀ e ∈ args, ∃ text us, Written e text us) :
    ∃ text us, Written (.call f args builtin place) text us := by
  obtain ⟨xs, vs, hscripts, hspells, hconveys⟩ := written_arguments hargs
  have hcall {P : List Char → Prop} := (h.spells_parens f.level?.isSome).call (P := P) hspells
  refine ⟨Code.parens f.level?.isSome x ++ "(" ++ ", ".intercalate xs ++ ")", _, ?_,
    by simpa using hcall, fun _ _ => by simpa using hcall, h.conveys_access.call hconveys⟩
  rw [Code.script, hscripts, h.script]
  rfl

theorem Accessed.number {negative : Bool} {q : ℚ} (h : negative = false → e.isNegative = false) :
    Accessed e (signWords negative ++ [.number q])
      (if negative then .minus (.number q) else .number q) := by
  cases negative with
  | false => exact .plain (h rfl) .number
  | true => exact .signed .number

variable {v : Value} {type : Ty}

theorem written_number (h : WritesNumber v) :
    ∃ text us, Written (.literal v type place) text us := by
  obtain ⟨text, m, q, hscript, htext, hmagnitude, hm⟩ := h
  obtain ⟨c, x, rfl, hc⟩ := hm.exists_cons
  have hspells {P : List Char → Prop}
      (hword : ∀ rest, P rest → word? (c :: x ++ rest) = some (.number q, rest)) :
      Spells P text.toList (some (signWords v.isNegative ++ [.number q])) := by
    rw [htext]
    exact (Spells.word hword).sign hc v.isNegative
  refine ⟨text, some (signWords v.isNegative ++ [.number q]), hscript, hspells hm.word?, ?_, ?_⟩
  · intro _ hwhole
    rw [show v.isWhole = false from hwhole] at hm
    cases hm with
    | fractional hword => exact hspells hword
  · refine ⟨_, .operand rfl (.number id), iff_of_true ?_ rfl⟩
    cases hnegative : v.isNegative with
    | false => exact .number hnegative hmagnitude
    | true => exact .negative hnegative hmagnitude

theorem written_member_of_whole {p : String} {place' : Option Span} (h : WritesNumber v)
    (hwhole : v.isWhole) (hp : Token.IsName p.toList) :
    ∃ text us, Written (.member (.literal v type place) p place') text us := by
  obtain ⟨text, m, q, hscript, htext, -, hm⟩ := h
  obtain ⟨c, x, hcx, hc⟩ := hm.exists_cons
  rw [hwhole] at hm
  cases hm with
  | whole hne hds =>
    obtain ⟨q, hq⟩ := word?_whole_point hne hds hp
    have hpoint : Spells IsBreak (m ++ '.' :: p.toList) (q.map fun q => [.number q]) := by
      intro rest hrest
      have hword := hq rest hrest
      rw [List.append_assoc, List.cons_append]
      cases q with
      | none =>
        rw [hcx, List.cons_append] at hword ⊢
        exact words_eq_none (isWhitespace_of_isDigit hc) hword
      | some q =>
        rw [words_of_word? hword]
        rfl
    rw [hcx, List.cons_append] at hpoint
    have hspells : Spells IsBreak (text ++ "." ++ p).toList
        ((q.map fun q => [.number q]).map (signWords v.isNegative ++ ·)) := by
      have hsigned := hpoint.sign hc v.isNegative
      simpa [htext, hcx] using hsigned
    refine ⟨text ++ "." ++ p, _, ?_, hspells.mono fun _ => IsEnd.isBreak, fun _ _ => hspells, ?_⟩
    · rw [Code.script, Code.script, hscript]
      rfl
    · cases q with
      | none => simp [Tells, Code.separated, Code.isWhole, hwhole]
      | some q =>
        refine ⟨_, .operand rfl (.number fun _ => rfl), iff_of_false ?_ ?_⟩
        · cases v.isNegative <;> rintro ⟨⟩
        · simp [Code.separated, Code.isWhole, hwhole]

theorem written_of_legible (h : e.Legible) : ∃ text us, Written e text us := by
  induction h with
  | number hnumber hfinite hwritable =>
    exact written_number (writesNumber hnumber hfinite hwritable)
  | @text s type place =>
    have hspells {P : List Char → Prop} : Spells P (Text.Ascii.encode s).toList
        (some [.string (s.toList.flatMap units16)]) := by
      refine Spells.word fun rest _ => ?_
      rw [Text.Ascii.encode, String.toList_ofList]
      exact word?_encodeChars s.toList rest
    exact ⟨Text.Ascii.encode s, _, rfl, hspells, fun _ _ => hspells, _,
      .operand rfl (.plain rfl .string), iff_of_true .text rfl⟩
  | @name n place hn =>
    have hspells : Spells IsBreak n.toList (some [.name n]) :=
      Spells.word fun rest hrest => word?_name hn hrest
    exact ⟨n, _, rfl, hspells.mono fun _ => IsEnd.isBreak, fun _ _ => hspells, _,
      .operand rfl (.plain rfl .name), iff_of_true .name rfl⟩
  | @binary l r op place _ _ ihl ihr =>
    obtain ⟨x, us, hl⟩ := ihl
    obtain ⟨y, vs, hr⟩ := ihr
    exact ⟨_, _, hl.binary op hr⟩
  | call _ _ ihf ihargs =>
    obtain ⟨x, us, hf⟩ := ihf
    exact hf.call ihargs
  | @member o p place ho hp ih =>
    cases hwhole : o.isWhole with
    | false =>
      obtain ⟨x, us, hw⟩ := ih
      exact ⟨_, _, hw.member hwhole hp⟩
    | true =>
      cases ho with
      | number hnumber hfinite hwritable =>
        exact written_member_of_whole (writesNumber hnumber hfinite hwritable) hwhole hp
      | _ => cases hwhole

/-- The text of a legible expression is read as the expression just if it is separated. -/
theorem readsBack_iff_separated (h : e.Legible) :
    ∃ text, e.script = .ok text ∧ (ReadsBack text e ↔ e.separated) := by
  obtain ⟨text, us, hw⟩ := written_of_legible h
  have hwords : words text.toList = us := by
    have hspells := hw.spells [] rfl
    rw [List.append_nil] at hspells
    rw [hspells]
    cases us <;> simp
  refine ⟨text, hw.script, ?_⟩
  have hconveys := hw.conveys
  cases us with
  | none =>
    have hseparated : e.separated = false := hconveys
    refine iff_of_false ?_ (by simp [hseparated])
    rintro ⟨t, honly, -⟩
    obtain ⟨ws, hws, -⟩ := (honly t).2 rfl
    cases hwords.symm.trans hws
  | some ws =>
    obtain ⟨t, ht, hiff⟩ := hconveys
    have hreads : Reads text t := ⟨ws, hwords, ht.derives⟩
    rw [← hiff]
    constructor
    · rintro ⟨t', honly, hrepresents⟩
      rwa [(honly t).1 hreads]
    · intro hrepresents
      refine ⟨t, fun u => ⟨fun hu => hu.unique hreads, ?_⟩, hrepresents⟩
      rintro rfl
      exact hreads

end Script

end StructLang
