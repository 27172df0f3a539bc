import StructLang.Proofs.Script.Numbers
import StructLang.Proofs.Script.Quoting
import StructLang.Proofs.ThreeAddress.Meaning

/-!
Three-address code as it is read from its texts. What an operand is can only be told from its
spelling: a literal, a temporary or a name, and what follows the last point is a property if it is a
name. So a name that is spelled like a temporary or like a literal is not read as that name, and a
fractional number that is whole is read as an integer.
-/

namespace StructLang

namespace Value

/-- The value that the text of a literal has: a fractional number that is whole is an integer. -/
def written : Value → Value
  | .real d =>
    match d.toInt? with
    | some n => .int n
    | none => .real d
  | v => v

def constants : List (String × Value) :=
  [("None", .null), ("True", .bool true), ("False", .bool false), ("nan", .real .nan),
    ("inf", .real (.infinite false)), ("-inf", .real (.infinite true))]

def startsNumber : List Char → Bool
  | '-' :: c :: _ => c.isDigit
  | c :: _ => c.isDigit
  | [] => false

def readNumber? (s : String) : Option Value :=
  if s.toList.any fun c => c == '.' || c == 'e' then (Numeral.readReal s).toOption.map .real
  else (Numeral.readInt s).toOption.map .int

def read? (s : String) : Option Value :=
  if startsNumber s.toList then readNumber? s
  else if s.toList.head? = some '"' then (Script.literal? s).map .text
  else constants.lookup s

theorem startsNumber_sign (negative : Bool) {c : Char} (hc : c.isDigit) (x : List Char) :
    startsNumber (Numeral.sign negative ++ c :: x) := by
  cases negative with
  | true => exact hc
  | false =>
    rw [Numeral.sign, if_neg Bool.false_ne_true, List.nil_append, startsNumber.eq_def]
    split
    · rename_i heq
      cases heq
      cases hc
    · rename_i heq
      cases heq
      exact hc
    · rename_i heq
      cases heq

theorem startsNumber_eq_false {c : Char} {x : List Char} (hdigit : c.isDigit = false)
    (hsign : c ≠ '-') : startsNumber (c :: x) = false := by
  rw [startsNumber.eq_def]
  split
  · rename_i heq
    cases heq
    exact absurd rfl hsign
  · rename_i heq
    cases heq
    exact hdigit
  · rfl

inductive Spells : Value → String → Prop
  | constant : (t, v) ∈ constants → Spells v t
  | int : Numeral.isShort n → Spells (.int n) (toString n)
  | real : t.toList = Numeral.sign negative ++ m → Double.Spelled m q →
      Numeral.readReal t = .ok d → Spells (.real d) t
  | text : Spells (.text s) (Text.Ascii.encode s)

theorem spells_of_script {v : Value} {t : String} (h : v.script = .ok t) : Spells v.written t := by
  cases v with
  | null =>
    cases h
    exact .constant (by decide)
  | bool b =>
    cases h
    cases b <;> exact .constant (by decide)
  | int n =>
    have hshort : Numeral.isShort n := (script_settles _).of_ok h |>.1
    rw [Script.script_int hshort] at h
    cases h
    exact .int hshort
  | text s =>
    cases h
    exact .text
  | real d =>
    rw [script] at h
    cases d with
    | infinite negative =>
      cases h
      cases negative <;> exact .constant (by decide)
    | nan =>
      cases h
      exact .constant (by decide)
    | finite negative rank =>
      rw [written]
      cases hd : (Double.finite negative rank).toInt? with
      | some n =>
        have hshort := Numeral.isShort_of_toInt? hd
        simp only [hd, decimalText_of_isShort hshort] at h
        cases h
        exact .int hshort
      | none =>
        rw [hd] at h
        cases h
        obtain ⟨q, -, hspelled⟩ := Double.spelled_magnitudeChars rank
        exact .real (Numeral.toList_text negative rank) hspelled
          (Numeral.readReal_text negative rank)

theorem notMem_toString {n : Int} {c : Char} (hdigit : c.isDigit = false) (hsign : c ≠ '-') :
    c ∉ (toString n).toList := by
  rw [Numeral.toList_toString_eq_sign, List.mem_append, not_or]
  refine ⟨fun hc => hsign (Numeral.eq_of_mem_sign hc), fun hc => ?_⟩
  rw [isDigit_of_mem_decimalDigits hc] at hdigit
  cases hdigit

theorem Spells.read? {v : Value} {t : String} (h : Spells v t) : read? t = some v := by
  cases h with
  | constant hmem =>
    have hall : ∀ p ∈ constants, Value.read? p.1 = some p.2 := by decide
    exact hall (t, v) hmem
  | @int n hshort =>
    obtain ⟨c, x, hcx⟩ := List.exists_cons_of_ne_nil (decimalDigits_ne_nil n)
    have hc : c.isDigit := isDigit_of_mem_decimalDigits (n := n) (by simp [hcx])
    have hstarts : startsNumber (toString n).toList := by
      rw [Numeral.toList_toString_eq_sign, hcx]
      exact startsNumber_sign _ hc x
    have hmarks : ((toString n).toList.any fun c => c == '.' || c == 'e') = false := by
      rw [List.any_eq_false]
      intro c hc hmark
      obtain rfl | rfl : c = '.' ∨ c = 'e' := by simpa using hmark
      · exact notMem_toString (by decide) (by decide) hc
      · exact notMem_toString (by decide) (by decide) hc
    have hread : Numeral.readInt (toString n) = .ok n :=
      Numeral.readInt_toString (of_decide_eq_true hshort)
    rw [Value.read?, if_pos hstarts, readNumber?, hmarks, if_neg Bool.false_ne_true, hread]
    rfl
  | real htext hspelled hread =>
    obtain ⟨ds, rest, hm, hne, hds⟩ := hspelled.exists_digits
    obtain ⟨c, x, rfl⟩ := List.exists_cons_of_ne_nil hne
    have hstarts : startsNumber t.toList := by
      rw [htext, hm]
      exact startsNumber_sign _ (hds c List.mem_cons_self) _
    have hmarks : t.toList.any fun c => c == '.' || c == 'e' := by
      rw [htext, List.any_append, hspelled.any_mark, Bool.or_true]
    rw [Value.read?, if_pos hstarts, readNumber?, if_pos hmarks, hread]
    rfl
  | text =>
    rw [Value.read?, Text.Ascii.toList_encode, startsNumber_eq_false (by decide) (by decide),
      if_neg Bool.false_ne_true, List.head?_cons, if_pos rfl, Script.literal?_encode]
    rfl

theorem read?_eq_none {n : String} (h : Token.IsName n.toList)
    (hn : n ∉ constants.map Prod.fst) : read? n = none := by
  have hlookup : constants.lookup n = none := by
    rw [List.lookup_eq_none_iff]
    intro p hp
    exact bne_iff_ne.2 fun heq => hn (List.mem_map.2 ⟨p, hp, heq.symm⟩)
  obtain ⟨c, x, hcx, hc, -⟩ := h
  have hsign : c ≠ '-' := by
    rintro rfl
    cases hc
  have hquote : c ≠ '"' := by
    rintro rfl
    cases hc
  rw [read?, hcx, startsNumber_eq_false (Script.isDigit_of_isNameStart hc) hsign,
    if_neg Bool.false_ne_true, if_neg (by simpa using hquote), hlookup]

end Value

namespace Text

def marked : Bool → List Char → List (Char × Bool)
  | _, [] => []
  | true, '\\' :: c :: s => ('\\', false) :: (c, false) :: marked true s
  | quoted, c :: s =>
    if c = '"' then (c, false) :: marked (!quoted) s else (c, !quoted) :: marked quoted s

theorem marked_plain {c : Char} (hc : c ≠ '"') (s : List Char) :
    marked false (c :: s) = (c, true) :: marked false s := by
  rw [marked.eq_def]
  simp [hc]

theorem marked_quote (s : List Char) :
    marked false ('"' :: s) = ('"', false) :: marked true s := by
  rw [marked.eq_def]
  simp

theorem map_fst_marked (quoted : Bool) (s : List Char) : (marked quoted s).map Prod.fst = s := by
  fun_induction marked quoted s <;> simp_all

/-- A part of a line that ends at a character of these and not before. -/
structure Bounded (stops x : List Char) : Prop where
  append : ∀ r, marked false (x ++ r) = marked false x ++ marked false r
  free : ∀ m ∈ marked false x, m.2 → m.1 ∉ stops

namespace Bounded

variable {stops x y : List Char}

theorem concat (hx : Bounded stops x) (hy : Bounded stops y) : Bounded stops (x ++ y) where
  append r := by rw [List.append_assoc, hx.append, hy.append, hx.append, List.append_assoc]
  free m hm := by
    rw [hx.append, List.mem_append] at hm
    exact hm.elim (hx.free m) (hy.free m)

theorem mono {stops' : List Char} (h : Bounded stops x) (hstops : stops' ⊆ stops) :
    Bounded stops' x where
  append := h.append
  free m hm hfree hmem := h.free m hm hfree (hstops hmem)

theorem of_forall (h : ∀ c ∈ x, c ≠ '"' ∧ c ∉ stops) : Bounded stops x := by
  induction x with
  | nil => exact ⟨fun r => rfl, by simp [marked]⟩
  | cons c x ih =>
    rw [List.forall_mem_cons] at h
    have hx := ih h.2
    constructor
    · intro r
      rw [List.cons_append, marked_plain h.1.1, marked_plain h.1.1, hx.append, List.cons_append]
    · rw [marked_plain h.1.1, List.forall_mem_cons]
      exact ⟨fun _ => h.1.2, hx.free⟩

-- Decided on the list itself, where a quantifier may be decided over all characters there are.
theorem of_all (h : (x.all fun c => c != '"' && !(stops.contains c)) = true) : Bounded stops x :=
  of_forall (by simpa using h)

end Bounded

theorem marked_quotable {body : List Char} (h : IsQuotable body) (r : List Char) :
    marked true (body ++ '"' :: r) = body.map (·, false) ++ ('"', false) :: marked false r := by
  induction h with
  | nil => simp [marked]
  | @plain c s hquote hslash _ ih =>
    rw [List.cons_append, marked.eq_def]
    simp [hquote, hslash, ih]
  | escaped _ ih => simp [marked, ih]

theorem bounded_encode (s : String) (stops : List Char) :
    Bounded stops (Ascii.encode s).toList := by
  have hmarked (r : List Char) : marked false ((Ascii.encode s).toList ++ r) =
      ('"', false) :: ((s.toList.flatMap Ascii.escape).map (·, false) ++
        ('"', false) :: marked false r) := by
    rw [Ascii.toList_encode, List.cons_append, List.append_assoc, List.singleton_append,
      marked_quote, marked_quotable (Ascii.isQuotable_flatMap_escape _)]
  have hself := hmarked []
  rw [List.append_nil] at hself
  constructor
  · intro r
    rw [hmarked, hself]
    simp [marked]
  · rw [hself]
    simp [marked]

def isWithin (m : Char × Bool) : Bool := !m.2 || m.1 ∉ [' ', '(']

theorem isWithin_iff {m : Char × Bool} : isWithin m ↔ (m.2 → m.1 ∉ [' ', '(']) := by
  rw [isWithin, Bool.or_eq_true, decide_eq_true_eq]
  cases m.2 <;> simp

def cut (s : List Char) : List Char × List Char :=
  (((marked false s).takeWhile isWithin).map Prod.fst,
    ((marked false s).dropWhile isWithin).map Prod.fst)

def parts (s : List Char) : List (List Char) :=
  ((marked false s).splitOnP fun m => m.2 && m.1 == ',').map (List.map Prod.fst)

theorem Bounded.cut {x : List Char} (h : Bounded [' ', '('] x) {c : Char} (hc : c ∈ [' ', '('])
    (r : List Char) : cut (x ++ c :: r) = (x, c :: r) := by
  have hwithin : ∀ m ∈ marked false x, isWithin m := fun m hm => isWithin_iff.2 (h.free m hm)
  have hstop : ¬isWithin (c, true) := fun hwithin => isWithin_iff.1 hwithin rfl hc
  have hquote : c ≠ '"' := by
    rintro rfl
    simp at hc
  rw [Text.cut, h.append, marked_plain hquote, List.takeWhile_append_of_pos hwithin,
    List.dropWhile_append_of_pos hwithin, List.takeWhile_cons_of_neg hstop,
    List.dropWhile_cons_of_neg hstop, List.append_nil, List.map_cons, map_fst_marked,
    map_fst_marked]

theorem parts_of_bounded {x : List Char} (h : Bounded [','] x) : parts x = [x] := by
  have hfree : ∀ m ∈ marked false x, (m.2 && m.1 == ',') = false := by
    intro m hm
    have hm' := h.free m hm
    cases hm2 : m.2 <;> simp_all
  rw [parts, List.splitOnP_eq_singleton hfree, List.map_singleton, map_fst_marked]

theorem parts_append {x : List Char} (h : Bounded [','] x) (r : List Char) :
    parts (x ++ ',' :: r) = x :: parts r := by
  have hx := parts_of_bounded h
  rw [parts] at hx
  rw [parts, h.append, marked_plain (by decide), List.splitOnP_append_cons _ _ rfl,
    List.map_append, hx, List.singleton_append, parts]

theorem parts_intercalate {x : List Char} {xs : List (List Char)} (hx : Bounded [','] x)
    (hxs : ∀ y ∈ xs, Bounded [','] y) :
    parts ([',', ' '].intercalate (x :: xs)) = x :: xs.map (' ' :: ·) := by
  induction xs generalizing x with
  | nil => simpa using parts_of_bounded hx
  | cons y ys ih =>
    rw [List.forall_mem_cons] at hxs
    have hspace : Bounded [','] (' ' :: y) := .concat (x := [' ']) (.of_all (by decide)) hxs.1
    have hcons : ' ' :: [',', ' '].intercalate (y :: ys) =
        [',', ' '].intercalate ((' ' :: y) :: ys) := by
      cases ys with
      | nil => simp
      | cons z zs => simp [List.intercalate_cons_cons]
    rw [List.intercalate_cons_cons, List.append_assoc, List.cons_append, List.singleton_append,
      parts_append hx, hcons, ih hspace hxs.2, List.map_cons]

theorem Bounded.dropWhile {x stops : List Char} (h : Bounded stops x) (hspace : ' ' ∈ stops) :
    x.dropWhile (· == ' ') = x := by
  cases x with
  | nil => rfl
  | cons c x =>
    refine List.dropWhile_cons_of_neg fun hc => ?_
    obtain rfl : c = ' ' := by simpa using hc
    refine h.free (' ', true) ?_ rfl hspace
    rw [marked_plain (by decide)]
    exact List.mem_cons_self

end Text

open Text

theorem splitOn_of_notMem {sep : Char} {s : List Char} (h : sep ∉ s) : s.splitOn sep = [s] :=
  List.splitOnP_eq_singleton fun _ hc => beq_eq_false_iff_ne.2 fun heq => h (heq ▸ hc)

theorem splitOn_append {sep : Char} (x : List Char) {y : List Char} (h : sep ∉ y) :
    (x ++ sep :: y).splitOn sep = x.splitOn sep ++ [y] := by
  rw [← splitOn_of_notMem h]
  exact List.splitOnP_append_cons x y (beq_self_eq_true sep)

theorem mem_of_splitOn {sep : Char} {s p : List Char} {ps : List (List Char)}
    (h : s.splitOn sep = ps ++ [p]) (hps : ps ≠ []) : sep ∈ s := by
  by_contra hnot
  rw [splitOn_of_notMem hnot, ← List.nil_append [s]] at h
  exact hps (List.append_inj_left' h rfl).symm

theorem eq_of_splitOn_append {sep : Char} {x y p : List Char} {ps : List (List Char)}
    (h : (x ++ sep :: y).splitOn sep = ps ++ [p]) (hy : sep ∉ y) : p = y := by
  rw [splitOn_append x hy] at h
  exact (List.singleton_injective (List.append_inj_right' h rfl)).symm

theorem mapM_eq_some_map {α β : Type} {f : α → Option β} {g : α → β} {as : List α}
    (h : ∀ a ∈ as, f a = some (g a)) : as.mapM f = some (as.map g) := by
  induction as with
  | nil => rfl
  | cons a as ih =>
    rw [List.forall_mem_cons] at h
    rw [List.mapM_cons, h.1, ih h.2]
    rfl

theorem suffix_of_splitOn {sep : Char} {s p : List Char} {ps : List (List Char)}
    (h : s.splitOn sep = ps ++ [p]) : p <:+ s := by
  have hjoined : [sep].intercalate (s.splitOn sep) = s := List.intercalate_splitOn sep
  rw [h] at hjoined
  rw [← hjoined]
  clear h hjoined
  induction ps with
  | nil => simp
  | cons q ps ih =>
    obtain ⟨v, vs, hvs⟩ := List.exists_cons_of_ne_nil (List.append_ne_nil_of_right_ne_nil ps
      (List.cons_ne_nil p []))
    rw [hvs] at ih
    rw [List.cons_append, hvs, List.intercalate_cons_cons]
    exact ih.trans (List.suffix_append _ _)

namespace Value

theorem not_isName_of_spelled {m p : List Char} {q : ℚ} (h : Double.Spelled m q)
    {negative : Bool} {ps : List (List Char)}
    (hsplit : (Numeral.sign negative ++ m).splitOn '.' = ps ++ [p]) (hps : ps ≠ []) :
    ¬Token.IsName p := by
  have hdigits {ds : List Char} (hds : ∀ c ∈ ds, c.isDigit) : '.' ∉ ds :=
    fun hmem => absurd (hds _ hmem) (by decide)
  cases h with
  | fraction _ _ hfs =>
    rw [← List.append_assoc] at hsplit
    obtain rfl := eq_of_splitOn_append hsplit (hdigits hfs)
    rintro ⟨c, x, rfl, hc, -⟩
    have hdigit := hfs c List.mem_cons_self
    rw [Script.isDigit_of_isNameStart hc] at hdigit
    cases hdigit
  | @exponent _ _ sign _ hds _ hes =>
    have hpoint := mem_of_splitOn hsplit hps
    rw [List.mem_append] at hpoint
    obtain hpoint | hpoint := hpoint
    · cases Numeral.eq_of_mem_sign hpoint
    · cases sign <;> simp [hdigits hds, hdigits hes] at hpoint
  | @both _ fs es sign _ _ hfs _ hes =>
    rw [← List.append_assoc] at hsplit
    obtain rfl := eq_of_splitOn_append hsplit (by cases sign <;> simp [hdigits hfs, hdigits hes])
    have hsign : (if sign then '-' else '+') ∈
        fs ++ 'e' :: (if sign then '-' else '+') :: es := by simp
    exact fun hname => absurd (hname.isWord _ hsign) (by cases sign <;> decide)

theorem Spells.not_isName {v : Value} {t : String} (h : Spells v t) {p : List Char}
    {ps : List (List Char)} (hsplit : t.toList.splitOn '.' = ps ++ [p]) (hps : ps ≠ []) :
    ¬Token.IsName p := by
  have hpoint := mem_of_splitOn hsplit hps
  cases h with
  | constant hmem =>
    have hall : ∀ p ∈ constants, '.' ∉ p.1.toList := by decide
    exact absurd hpoint (hall (t, v) hmem)
  | int => exact absurd hpoint (notMem_toString (by decide) (by decide))
  | real htext hspelled _ =>
    rw [htext] at hsplit
    exact not_isName_of_spelled hspelled hsplit hps
  | text =>
    have hsuffix := suffix_of_splitOn hsplit
    rw [Ascii.toList_encode, ← List.cons_append, List.suffix_concat_iff] at hsuffix
    obtain rfl | ⟨x, rfl, -⟩ := hsuffix
    · rintro ⟨_, _, ⟨⟩, -⟩
    · intro hname
      have hquote : '"' ∈ x ++ ['"'] := List.mem_append_right x (List.mem_singleton_self _)
      exact absurd (hname.isWord _ hquote) (by decide)

theorem Spells.bounded {v : Value} {t : String} (h : Spells v t) :
    Bounded [' ', '(', ')', ','] t.toList := by
  have hmarks {x : List Char} (hx : ∀ c ∈ x, c.isDigit ∨ c ∈ ['.', 'e', '-', '+']) :
      Bounded [' ', '(', ')', ','] x := by
    refine .of_forall fun c hc => ?_
    have hmark := hx c hc
    constructor
    · rintro rfl
      exact absurd hmark (by decide)
    · intro hstop
      simp only [List.mem_cons, List.not_mem_nil, or_false] at hstop
      obtain rfl | rfl | rfl | rfl := hstop <;> exact absurd hmark (by decide)
  have hsign (negative : Bool) : Bounded [' ', '(', ')', ','] (Numeral.sign negative) :=
    hmarks fun c hc => by
      rw [Numeral.eq_of_mem_sign hc]
      decide
  cases h with
  | constant hmem =>
    have hall : ∀ p ∈ constants,
        (p.1.toList.all fun c => c != '"' && !([' ', '(', ')', ','].contains c)) = true := by decide
    exact .of_all (hall (t, v) hmem)
  | int =>
    rw [Numeral.toList_toString_eq_sign]
    exact (hsign _).concat (hmarks fun c hc => .inl (isDigit_of_mem_decimalDigits hc))
  | real htext hspelled _ =>
    rw [htext]
    exact (hsign _).concat (hmarks fun c hc => hspelled.isMark hc)
  | text => exact bounded_encode _ _

end Value

namespace ThreeAddress

def tempIndex? (s : String) : Option Nat :=
  let k := Nat.ofDigitChars 10 s.toList.tail 0
  if s = tempName k then some k else none

@[simp] theorem tempIndex?_tempName (k : Nat) : tempIndex? (tempName k) = some k := by
  rw [tempIndex?, toList_tempName, List.tail_cons, Nat.ofDigitChars_ten_toDigits]
  exact if_pos rfl

theorem isName_tempName (k : Nat) : Token.IsName (tempName k).toList := by
  rw [toList_tempName]
  refine ⟨_, _, rfl, by decide, fun c hc => ?_⟩
  have hdigit : c.isDigit := Double.isDigit_of_mem_toDigits hc
  simp [Token.Rule.isNamePart, Char.isAlphanum, hdigit]

theorem read?_tempName (k : Nat) : Value.read? (tempName k) = none := by
  have hheads : ∀ s ∈ Value.constants.map Prod.fst, s.toList.head? ≠ some 't' := by decide
  refine Value.read?_eq_none (isName_tempName k) fun hmem => ?_
  exact hheads _ hmem (by rw [toList_tempName, List.head?_cons])

/-- A name that can only be read as itself: it is spelled neither like a temporary nor like a
literal. -/
structure IsVariable (n : String) : Prop where
  name : Token.IsName n.toList
  temp : ∀ k, n ≠ tempName k
  literal : n ∉ Value.constants.map Prod.fst

namespace Operand

def ofWord? (s : String) : Option Operand :=
  match Value.read? s with
  | some v => some (.literal v s)
  | none =>
    match tempIndex? s with
    | some k => some (.temp k)
    | none => if Token.IsName s.toList then some (.name s) else none

def ofParts? : List (List Char) → Option Operand
  | [] => none
  | [w] => ofWord? (String.ofList w)
  | p :: q :: ps =>
    if Token.IsName p then do return .member (← ofParts? (q :: ps)) (String.ofList p)
    else ofWord? (String.ofList (['.'].intercalate (p :: q :: ps).reverse))

def ofText? (s : String) : Option Operand := ofParts? (s.toList.splitOn '.').reverse

def written : Operand → Operand
  | .literal v s => .literal v.written s
  | .member o p => .member o.written p
  | o => o

def IsLegible : Operand → Prop
  | .literal v s => v.script = .ok s
  | .name n => IsVariable n
  | .temp _ => True
  | .member o p => o.IsLegible ∧ Token.IsName p.toList
  | .blank => False

theorem point_notMem_of_isName {n : List Char} (h : Token.IsName n) : '.' ∉ n :=
  fun hmem => absurd (h.isWord _ hmem) (by decide)

theorem ofText?_of_splitOn {s : String}
    (h : ∀ ps p, s.toList.splitOn '.' = ps ++ [p] → ps ≠ [] → ¬Token.IsName p) :
    ofText? s = ofWord? s := by
  rw [ofText?]
  cases hreverse : (s.toList.splitOn '.').reverse with
  | nil => exact absurd (List.reverse_eq_nil_iff.1 hreverse) (List.splitOn_ne_nil _ _)
  | cons p ps =>
    have hparts : s.toList.splitOn '.' = ps.reverse ++ [p] := by
      rw [← List.reverse_cons, ← hreverse, List.reverse_reverse]
    cases ps with
    | nil =>
      have hs : ['.'].intercalate (s.toList.splitOn '.') = s.toList := List.intercalate_splitOn '.'
      rw [hparts] at hs
      rw [ofParts?, ← String.ofList_toList (s := s), ← hs]
      simp
    | cons q ps =>
      rw [ofParts?, if_neg (h _ _ hparts (by simp)), List.reverse_cons, ← hparts,
        List.intercalate_splitOn, String.ofList_toList]

theorem ofText?_of_isName {n : String} (h : Token.IsName n.toList) : ofText? n = ofWord? n := by
  refine ofText?_of_splitOn fun ps p hsplit hps => ?_
  exact absurd (mem_of_splitOn hsplit hps) (point_notMem_of_isName h)

theorem ofText?_member (s : String) {p : String} (h : Token.IsName p.toList) :
    ofText? (s ++ "." ++ p) = (ofText? s).map (.member · p) := by
  have hsplit : (s ++ "." ++ p).toList.splitOn '.' = s.toList.splitOn '.' ++ [p.toList] := by
    rw [String.toList_append, String.toList_append, List.append_assoc]
    exact splitOn_append _ (point_notMem_of_isName h)
  rw [ofText?, hsplit, List.reverse_append, List.reverse_singleton, List.singleton_append, ofText?]
  cases hreverse : (s.toList.splitOn '.').reverse with
  | nil => exact absurd (List.reverse_eq_nil_iff.1 hreverse) (List.splitOn_ne_nil _ _)
  | cons q ps =>
    rw [ofParts?, if_pos h, String.ofList_toList]
    cases ofParts? (q :: ps) <;> rfl

theorem ofText?_text {o : Operand} (h : o.IsLegible) : ofText? o.text = some o.written := by
  induction o with
  | literal v s =>
    have hspells := Value.spells_of_script h
    have htext : ofText? s = ofWord? s := ofText?_of_splitOn fun _ _ => hspells.not_isName
    rw [text, htext, ofWord?, hspells.read?]
    rfl
  | name n =>
    have htemp : tempIndex? n = none := if_neg (h.temp _)
    rw [text, ofText?_of_isName h.name, ofWord?, Value.read?_eq_none h.name h.literal, htemp]
    exact if_pos h.name
  | temp k =>
    change ofText? (tempName k) = _
    rw [ofText?_of_isName (isName_tempName k), ofWord?, read?_tempName, tempIndex?_tempName]
    rfl
  | member o p ih =>
    rw [text, ofText?_member _ h.2, ih h.1]
    rfl
  | blank => cases h

theorem bounded_of_isName {n : List Char} (h : Token.IsName n) :
    Bounded [' ', '(', ')', ','] n := by
  refine .of_forall fun c hc => ?_
  have hword := h.isWord c hc
  constructor
  · rintro rfl
    exact absurd hword (by decide)
  · intro hstop
    simp only [List.mem_cons, List.not_mem_nil, or_false] at hstop
    obtain rfl | rfl | rfl | rfl := hstop <;> exact absurd hword (by decide)

theorem IsLegible.bounded {o : Operand} (h : o.IsLegible) :
    Bounded [' ', '(', ')', ','] o.text.toList := by
  induction o with
  | literal v s => exact (Value.spells_of_script h).bounded
  | name n => exact bounded_of_isName h.name
  | temp k => exact bounded_of_isName (isName_tempName k)
  | member o p ih =>
    rw [text, String.toList_append, String.toList_append]
    exact ((ih h.1).concat (.of_all (by decide))).concat (bounded_of_isName h.2)
  | blank => cases h

theorem bounded_symbol (op : Operator) : Bounded [' ', '(', ')', ','] op.symbol.toList := by
  refine .of_all ?_
  cases op <;> decide

end Operand

namespace Line

def after? (w : String) (s : List Char) : Option (List Char) :=
  if w.toList.isPrefixOf s then some (s.drop w.toList.length) else none

@[simp] theorem after?_append (w : String) (s : List Char) : after? w (w.toList ++ s) = some s := by
  simp [after?]

def args? (s : List Char) : Option (List Operand) :=
  if s = [] then some []
  else (parts s).mapM fun w => Operand.ofText? (String.ofList (w.dropWhile (· == ' ')))

def ofRest? (k : Nat) (l : Operand) : List Char → Option Line
  | ' ' :: s => do
    let op ← Operator.ofSymbol? (String.ofList (cut s).1)
    let s ← after? " " (cut s).2
    return .operation k op l (← Operand.ofText? (String.ofList s))
  | '(' :: s => do
    guard (s.getLast? = some ')')
    return .call k l (← args? s.dropLast)
  | _ => none

def ofText? (s : String) : Option Line := do
  let k ← tempIndex? (String.ofList (cut s.toList).1)
  let s ← after? " := " (cut s.toList).2
  let l ← Operand.ofText? (String.ofList (cut s).1)
  ofRest? k l (cut s).2

def written : Line → Line
  | .operation k op l r => .operation k op l.written r.written
  | .call k f xs => .call k f.written (xs.map Operand.written)
  | .result x => .result x.written
  | .ret x => .ret x.written
  | l => l

def IsLegible : Line → Prop
  | .operation _ _ l r => l.IsLegible ∧ r.IsLegible
  | .call _ f xs => f.IsLegible ∧ ∀ x ∈ xs, x.IsLegible
  | _ => False

theorem args?_text {xs : List Operand} (h : ∀ x ∈ xs, x.IsLegible) :
    args? (", ".intercalate (xs.map Operand.text)).toList = some (xs.map Operand.written) := by
  cases xs with
  | nil => rfl
  | cons x xs =>
    rw [List.forall_mem_cons] at h
    have hbounded {o : Operand} (ho : o.IsLegible) : Bounded [','] o.text.toList :=
      ho.bounded.mono (by decide)
    have hparts : parts (", ".intercalate ((x :: xs).map Operand.text)).toList =
        x.text.toList :: xs.map fun o => ' ' :: o.text.toList := by
      rw [String.toList_intercalate, List.map_cons, List.map_cons]
      refine (parts_intercalate (hbounded h.1) ?_).trans (by simp)
      simpa using fun o ho => hbounded (h.2 o ho)
    have hne : (", ".intercalate ((x :: xs).map Operand.text)).toList ≠ [] := by
      intro hnil
      rw [hnil] at hparts
      have hempty : x.text = "" := String.toList_eq_nil_iff.1 (List.head_eq_of_cons_eq hparts).symm
      have hread := Operand.ofText?_text h.1
      rw [hempty] at hread
      cases hread
    have hread {o : Operand} (ho : o.IsLegible) :
        Operand.ofText? (String.ofList (o.text.toList.dropWhile (· == ' '))) = some o.written := by
      rw [ho.bounded.dropWhile (by decide), String.ofList_toList, Operand.ofText?_text ho]
    have hrest := mapM_eq_some_map fun o ho => hread (h.2 o ho)
    rw [args?, if_neg hne, hparts, List.mapM_cons, hread h.1, List.mapM_map]
    simp only [Function.comp_def, List.dropWhile_cons_of_pos (p := (· == ' ')) (a := ' ') rfl]
    rw [hrest]
    rfl

theorem ofText?_eq_ofRest? {s : String} {k : Nat} {l : Operand} (hl : l.IsLegible) {c : Char}
    (hc : c ∈ [' ', '(']) {r : List Char}
    (hs : s.toList = (tempName k).toList ++ (" := ".toList ++ (l.text.toList ++ c :: r))) :
    ofText? s = ofRest? k l.written (c :: r) := by
  have htarget : cut s.toList =
      ((tempName k).toList, " := ".toList ++ (l.text.toList ++ c :: r)) := by
    rw [hs]
    exact ((Operand.bounded_of_isName (isName_tempName k)).mono (by decide)).cut (by decide) _
  have hleft : cut (l.text.toList ++ c :: r) = (l.text.toList, c :: r) :=
    (hl.bounded.mono (by decide)).cut hc r
  rw [ofText?, htarget]
  simp only [String.ofList_toList, tempIndex?_tempName, after?_append, hleft,
    Operand.ofText?_text hl, Option.bind_eq_bind, Option.bind_some]

theorem ofText?_text {l : Line} (h : l.IsLegible) : ofText? l.text = some l.written := by
  cases l with
  | operation k op l r =>
    have htext : (Line.operation k op l r).text =
        tempName k ++ " := " ++ l.text ++ " " ++ op.symbol ++ " " ++ r.text := rfl
    have hsymbol : cut (op.symbol.toList ++ ' ' :: r.text.toList) =
        (op.symbol.toList, ' ' :: r.text.toList) :=
      ((Operand.bounded_symbol op).mono (by decide)).cut (by decide) _
    have hline : (Line.operation k op l r).text.toList = (tempName k).toList ++ (" := ".toList ++
        (l.text.toList ++ ' ' :: (op.symbol.toList ++ ' ' :: r.text.toList))) := by
      rw [htext]
      simp only [String.toList_append, List.append_assoc]
      rfl
    have hright : after? " " (' ' :: r.text.toList) = some r.text.toList := after?_append " " _
    rw [ofText?_eq_ofRest? h.1 (by decide) hline, ofRest?, hsymbol]
    simp only [String.ofList_toList, Operator.ofSymbol?_symbol, hright, Operand.ofText?_text h.2,
      Option.bind_eq_bind, Option.bind_some]
    rfl
  | call k f xs =>
    have htext : (Line.call k f xs).text = tempName k ++ " := " ++ f.text ++ "(" ++
        ", ".intercalate (xs.map Operand.text) ++ ")" := rfl
    have hline : (Line.call k f xs).text.toList = (tempName k).toList ++ (" := ".toList ++
        (f.text.toList ++ '(' :: ((", ".intercalate (xs.map Operand.text)).toList ++ [')']))) := by
      rw [htext]
      simp only [String.toList_append, List.append_assoc]
      rfl
    rw [ofText?_eq_ofRest? h.1 (by decide) hline, ofRest?, List.getLast?_concat,
      List.dropLast_concat, args?_text h.2]
    rfl
  | function | forwards | noBody | result | ret => cases h

end Line

end ThreeAddress

end StructLang
