import Mathlib.Data.List.Forall2
import StructLang.Proofs.Text.Classes
import StructLang.Proofs.Ty.Agreement
import StructLang.Proofs.Ty.Expansion
import StructLang.Typing

namespace StructLang

open Text

namespace Library.Url

def casePartners : List (Char × Char) :=
  [('i', '\u0130'), ('i', '\u0131'), ('s', '\u017f'), ('k', '\u212a')]

def IsCaseOf (letter c : Char) : Prop :=
  c = letter ∨ c = letter.toUpper ∨ (letter, c) ∈ casePartners

inductive IsScheme : List Char → Prop
  | none : IsScheme []
  | plain : List.Forall₂ IsCaseOf ['h', 't', 't', 'p'] s → IsScheme (s ++ [':', '/', '/'])
  | secure : List.Forall₂ IsCaseOf ['h', 't', 't', 'p', 's'] s → IsScheme (s ++ [':', '/', '/'])

structure IsHost (s : List Char) : Prop where
  ne_nil : s ≠ []
  chars : ∀ c ∈ s, isWord c ∨ c ∈ ['.', '-']

structure IsDomain (s : List Char) : Prop where
  two_le : 2 ≤ s.length
  le_six : s.length ≤ 6
  letters : ∀ c ∈ s, ∃ letter, letter.isLower ∧ IsCaseOf letter c

inductive IsPath : List Char → Prop
  | none : IsPath []
  | slash : (∀ c ∈ s, isWord c ∨ c ∈ "-._~:/?#[]@!$&'()*+,;=".toList) → IsPath ('/' :: s)

/-- The text is cut into the parts of an address, and nothing is left over. -/
inductive IsAddress : List Char → Prop
  | parts : IsScheme scheme → IsHost host → IsDomain domain → IsPath path →
      IsAddress (scheme ++ (host ++ '.' :: (domain ++ path)))

theorem isAlpha_of_isLower {c : Char} (h : c.isLower) : c.isAlpha :=
  (Bool.or_eq_true ..).mpr (.inr h)

theorem isLetter_iff {c : Char} : isLetter c ↔ ∃ letter, letter.isLower ∧ IsCaseOf letter c := by
  constructor
  · intro h
    simp only [isLetter, Bool.or_eq_true, beq_iff_eq] at h
    obtain (((h | rfl) | rfl) | rfl) | rfl := h
    · have hascii : c.toNat < 128 := toNat_lt_of_isAlphanum (by simp [Char.isAlphanum, h])
      have hcase := forall_ascii
        (p := fun c => !c.isAlpha ||
          c.toLower.isLower && (c == c.toLower || c == c.toLower.toUpper))
        (by decide +kernel) hascii
      simp only [h, Bool.not_true, Bool.false_or, Bool.and_eq_true, Bool.or_eq_true,
        beq_iff_eq] at hcase
      exact ⟨c.toLower, hcase.1, hcase.2.imp_right .inl⟩
    · exact ⟨'i', rfl, .inr (.inr (by decide))⟩
    · exact ⟨'i', rfl, .inr (.inr (by decide))⟩
    · exact ⟨'s', rfl, .inr (.inr (by decide))⟩
    · exact ⟨'k', rfl, .inr (.inr (by decide))⟩
  · rintro ⟨letter, hlower, rfl | rfl | hpartner⟩
    · simp [isLetter, isAlpha_of_isLower hlower]
    · have hascii : letter.toNat < 128 :=
        toNat_lt_of_isAlphanum (by simp [Char.isAlphanum, isAlpha_of_isLower hlower])
      have hupper := forall_ascii (p := fun c => !c.isLower || c.toUpper.isAlpha)
        (by decide +kernel) hascii
      have halpha : letter.toUpper.isAlpha := by simpa [hlower] using hupper
      simp [isLetter, halpha]
    · have hall : ∀ p ∈ casePartners, isLetter p.2 := by decide
      exact hall (letter, c) hpartner

theorem endsWell_iff {s : List Char} : endsWell s ↔ IsPath s := by
  have hchar (c : Char) : isPathChar c ↔ isWord c ∨ c ∈ "-._~:/?#[]@!$&'()*+,;=".toList := by
    rw [isPathChar, Bool.or_eq_true, List.contains_iff_mem]
  cases s with
  | nil => exact iff_of_true rfl .none
  | cons c s =>
    simp only [endsWell, Bool.and_eq_true, beq_iff_eq, List.all_eq_true, hchar]
    constructor
    · rintro ⟨rfl, h⟩
      exact .slash h
    · rintro (_ | h)
      exact ⟨rfl, h⟩

theorem domainThenPath_iff {s : List Char} :
    domainThenPath s ↔ ∃ domain path, s = domain ++ path ∧ IsDomain domain ∧ IsPath path := by
  have hlengths {n : Nat} : n ∈ [2, 3, 4, 5, 6] ↔ 2 ≤ n ∧ n ≤ 6 := by
    simp only [List.mem_cons, List.not_mem_nil, or_false]
    omega
  simp only [domainThenPath, List.any_eq_true, hlengths, Bool.and_eq_true, decide_eq_true_eq,
    List.all_eq_true, isLetter_iff, endsWell_iff]
  constructor
  · rintro ⟨n, ⟨htwo, hsix⟩, ⟨hn, hletters⟩, hpath⟩
    have hlength : (s.take n).length = n := List.length_take_of_le hn
    exact ⟨s.take n, s.drop n, (List.take_append_drop n s).symm,
      ⟨by omega, by omega, hletters⟩, hpath⟩
  · rintro ⟨domain, path, rfl, hdomain, hpath⟩
    refine ⟨domain.length, ⟨hdomain.two_le, hdomain.le_six⟩, ⟨by simp, ?_⟩, ?_⟩
    · rw [List.take_left]
      exact hdomain.letters
    · rw [List.drop_left]
      exact hpath

theorem isHostChar_iff {c : Char} : isHostChar c ↔ isWord c ∨ c ∈ ['.', '-'] := by
  simp [isHostChar, or_assoc]

theorem hostEndsIn_iff {s : List Char} :
    hostEndsIn s ↔ ∃ host rest, s = host ++ '.' :: rest ∧
      (∀ c ∈ host, isWord c ∨ c ∈ ['.', '-']) ∧ domainThenPath rest := by
  induction s with
  | nil => simp [hostEndsIn]
  | cons c s ih =>
    rw [hostEndsIn, Bool.or_eq_true, Bool.and_eq_true, Bool.and_eq_true, beq_iff_eq, ih,
      isHostChar_iff]
    constructor
    · rintro (⟨rfl, hrest⟩ | ⟨hc, host, rest, rfl, hhost, hrest⟩)
      · exact ⟨[], s, rfl, by simp, hrest⟩
      · exact ⟨c :: host, rest, rfl, List.forall_mem_cons.2 ⟨hc, hhost⟩, hrest⟩
    · rintro ⟨host, rest, hs, hhost, hrest⟩
      cases host with
      | nil =>
        cases hs
        exact .inl ⟨rfl, hrest⟩
      | cons d host =>
        cases hs
        rw [List.forall_mem_cons] at hhost
        exact .inr ⟨hhost.1, host, rest, rfl, hhost.2, hrest⟩

theorem hostThenDomain_iff {s : List Char} :
    hostThenDomain s ↔ ∃ host domain path, s = host ++ '.' :: (domain ++ path) ∧
      IsHost host ∧ IsDomain domain ∧ IsPath path := by
  cases s with
  | nil => simp [hostThenDomain]
  | cons c s =>
    rw [hostThenDomain, Bool.and_eq_true, hostEndsIn_iff, isHostChar_iff]
    constructor
    · rintro ⟨hc, host, rest, rfl, hhost, hrest⟩
      obtain ⟨domain, path, rfl, hdomain, hpath⟩ := domainThenPath_iff.1 hrest
      exact ⟨c :: host, domain, path, rfl,
        ⟨List.cons_ne_nil c host, List.forall_mem_cons.2 ⟨hc, hhost⟩⟩, hdomain, hpath⟩
    · rintro ⟨host, domain, path, hs, hhost, hdomain, hpath⟩
      obtain ⟨d, host, rfl⟩ := List.exists_cons_of_ne_nil hhost.ne_nil
      cases hs
      have hchars := List.forall_mem_cons.1 hhost.chars
      exact ⟨hchars.1, host, _, rfl, hchars.2, domainThenPath_iff.2 ⟨domain, path, rfl, hdomain,
        hpath⟩⟩

theorem dropLetter_eq_some {letter : Char} (hletter : ∀ p ∈ casePartners, p.1 ≠ letter)
    {s r : List Char} :
    dropLetter letter letter.toUpper s = some r ↔ ∃ c, IsCaseOf letter c ∧ s = c :: r := by
  have hcase (c : Char) : IsCaseOf letter c ↔ c = letter ∨ c = letter.toUpper := by
    refine or_congr_right (or_iff_left fun hpartner => hletter _ hpartner rfl)
  cases s with
  | nil => simp [dropLetter]
  | cons c s =>
    simp only [dropLetter, hcase, List.cons.injEq]
    constructor
    · intro h
      split at h
      · rename_i hc
        cases h
        exact ⟨c, hc, rfl, rfl⟩
      · cases h
    · rintro ⟨_, hc, rfl, rfl⟩
      rw [if_pos hc]

theorem dropSecure_eq {s r : List Char} :
    dropSecure s = ':' :: r ↔ s = ':' :: r ∨ ∃ c, IsCaseOf 's' c ∧ s = c :: ':' :: r := by
  have hcase (c : Char) : IsCaseOf 's' c ↔ c = 's' ∨ c = 'S' ∨ c = '\u017f' := by
    have hpartner : ('s', c) ∈ casePartners ↔ c = '\u017f' := by simp [casePartners]
    rw [IsCaseOf, hpartner]
    rfl
  cases s with
  | nil => simp [dropSecure]
  | cons c s =>
    simp only [dropSecure, hcase, List.cons.injEq]
    by_cases hc : c = 's' ∨ c = 'S' ∨ c = '\u017f'
    · have hcolon : c ≠ ':' := by
        rintro rfl
        exact absurd hc (by decide)
      simp [hc, hcolon]
    · simp only [hc, if_false, List.cons.injEq]
      constructor
      · exact .inl
      · rintro (h | ⟨_, hc', rfl, _⟩)
        · exact h
        · exact absurd hc' hc

theorem dropScheme_eq_some {s r : List Char} :
    dropScheme s = some r ↔ ∃ letters t, List.Forall₂ IsCaseOf ['h', 't', 't', 'p'] letters ∧
      s = letters ++ t ∧ dropSecure t = ':' :: '/' :: '/' :: r := by
  have hh {s r : List Char} : dropLetter 'h' 'H' s = some r ↔ ∃ c, IsCaseOf 'h' c ∧ s = c :: r :=
    dropLetter_eq_some (by decide)
  have ht {s r : List Char} : dropLetter 't' 'T' s = some r ↔ ∃ c, IsCaseOf 't' c ∧ s = c :: r :=
    dropLetter_eq_some (by decide)
  have hp {s r : List Char} : dropLetter 'p' 'P' s = some r ↔ ∃ c, IsCaseOf 'p' c ∧ s = c :: r :=
    dropLetter_eq_some (by decide)
  simp only [dropScheme, Option.bind_eq_bind, Option.bind_eq_some_iff, hh, ht, hp]
  constructor
  · rintro ⟨_, ⟨c₁, h₁, rfl⟩, _, ⟨c₂, h₂, rfl⟩, _, ⟨c₃, h₃, rfl⟩, t, ⟨c₄, h₄, rfl⟩, hmarks⟩
    refine ⟨[c₁, c₂, c₃, c₄], t, .cons h₁ (.cons h₂ (.cons h₃ (.cons h₄ .nil))), rfl, ?_⟩
    split at hmarks
    · rename_i hsecure
      rw [hsecure, Option.some.inj hmarks]
    · cases hmarks
  · rintro ⟨_, t, ⟨⟩ | ⟨h₁, ⟨⟩ | ⟨h₂, ⟨⟩ | ⟨h₃, ⟨⟩ | ⟨h₄, ⟨⟩⟩⟩⟩⟩, rfl, hsecure⟩
    refine ⟨_, ⟨_, h₁, rfl⟩, _, ⟨_, h₂, rfl⟩, _, ⟨_, h₃, rfl⟩, t, ⟨_, h₄, rfl⟩, ?_⟩
    rw [hsecure]
    rfl

theorem isScheme_append_iff {s r : List Char} :
    (∃ scheme, IsScheme scheme ∧ s = scheme ++ r) ↔ s = r ∨ dropScheme s = some r := by
  rw [dropScheme_eq_some]
  constructor
  · rintro ⟨scheme, hscheme, rfl⟩
    cases hscheme with
    | none => exact .inl rfl
    | plain hletters =>
      refine .inr ⟨_, _, hletters, List.append_assoc .., dropSecure_eq.2 (.inl rfl)⟩
    | secure hletters =>
      obtain ⟨⟩ | ⟨h₁, ⟨⟩ | ⟨h₂, ⟨⟩ | ⟨h₃, ⟨⟩ | ⟨h₄, ⟨⟩ | ⟨h₅, ⟨⟩⟩⟩⟩⟩⟩ := hletters
      exact .inr ⟨_, _, .cons h₁ (.cons h₂ (.cons h₃ (.cons h₄ .nil))), rfl,
        dropSecure_eq.2 (.inr ⟨_, h₅, rfl⟩)⟩
  · rintro (rfl | ⟨letters, t, hletters, rfl, hsecure⟩)
    · exact ⟨[], .none, rfl⟩
    · obtain rfl | ⟨c, hc, rfl⟩ := dropSecure_eq.1 hsecure
      · exact ⟨_, .plain hletters, by simp⟩
      · have hall := List.rel_append hletters (.cons hc .nil)
        exact ⟨_, .secure hall, by simp⟩

theorem accepts_iff {text : String} : accepts text ↔ IsAddress text.toList := by
  have hany : (dropScheme text.toList).any hostThenDomain ↔
      ∃ r, dropScheme text.toList = some r ∧ hostThenDomain r := by
    cases dropScheme text.toList <;> simp
  rw [accepts, Bool.or_eq_true, hany]
  constructor
  · intro h
    obtain ⟨r, hr, hhost⟩ : ∃ r, (text.toList = r ∨ dropScheme text.toList = some r) ∧
        hostThenDomain r := by
      obtain h | ⟨r, hr, h⟩ := h
      · exact ⟨_, .inl rfl, h⟩
      · exact ⟨r, .inr hr, h⟩
    obtain ⟨scheme, hscheme, htext⟩ := isScheme_append_iff.2 hr
    obtain ⟨host, domain, path, rfl, hhost, hdomain, hpath⟩ := hostThenDomain_iff.1 hhost
    rw [htext]
    exact .parts hscheme hhost hdomain hpath
  · intro h
    generalize hs : text.toList = s at h ⊢
    obtain ⟨hscheme, hhost, hdomain, hpath⟩ := h
    have hrest := hostThenDomain_iff.2 ⟨_, _, _, rfl, hhost, hdomain, hpath⟩
    obtain heq | hdrop := isScheme_append_iff.1 ⟨_, hscheme, rfl⟩
    · rw [heq]
      exact .inl hrest
    · exact .inr ⟨_, hdrop, hrest⟩

end Library.Url

namespace Typing

open Library.Url

theorem checkArguments_string (sc : Scope) (name text : String) {s : Signature}
    (hs : s.params = [.string]) (place loc : Option Span) :
    checkArguments sc name s loc 0 [.string text place] = .ok () := by
  have hresolve : sc.resolve .string loc = .ok .string := by
    rw [Scope.resolve, Aliases.resolve_of_isClosed _ rfl]
    rfl
  have hfits : sc.fits .string .string = .ok true := by
    rw [Scope.fits, Aliases.fits_of_resolve (sc.aliases.resolve_of_isClosed rfl)
      (sc.aliases.resolve_of_isClosed rfl)]
    simp [atPlace, Ty.passes, Ty.agrees, Ty.string]
  rw [checkArguments, hs]
  simp [Signature.arity, hs, hresolve, visit, typed, hfits, checkArguments]

theorem visit_isURL (sc : Scope) (text : String) (callee place loc : Option Span) :
    visit sc (.call (.name "isURL" callee) [.string text place] loc) =
      if accepts (Tree.unquote text) then .ok (some .boolean)
      else .error (.refused ⟨.badLiteral "isURL" (Tree.unquote text), place <|> loc⟩) := by
  have hsignature : sc.signature "isURL" loc = .ok ⟨[.string], .boolean, false⟩ := rfl
  have hresult : sc.resolve .boolean loc = .ok .boolean := by
    rw [Scope.resolve, Aliases.resolve_of_isClosed _ rfl]
    rfl
  rw [visit]
  simp only [Tree.calleeName?, hsignature, ok_bind]
  rw [checkArguments_string sc "isURL" text rfl place loc]
  rw [if_neg (by simp [Signature.arity]), ok_bind, hresult, checkLiteral]
  split <;> rfl

theorem check_statement (e : Tree) (file : String) (place whole : Option Span) :
    (State.check {} (.program [.expr e none place] file whole)).2 =
      (typed e (visit (State.scope {}) e)).map fun _ => () := by
  simp only [State.check, Tree.statements, State.collect, List.foldl_cons, List.foldl_nil,
    State.addStatement, State.addSignatures, visit, State.scope, resolveAliases, visitAll, ok_bind]
  cases typed e (visit ⟨[], [], []⟩ e) <;> rfl

/-- A call of `isURL` with a string that is written out passes exactly if the string is an address;
if it is not, the call is refused and the string is named. That holds in every scope, and of the
call as a program. -/
theorem isURL_checked_iff (sc : Scope) {text v : String} (htext : Tree.unquote text = v)
    (file : String) (callee place loc whole : Option Span) :
    let call : Tree := .call (.name "isURL" callee) [.string text place] loc
    let refusal : Fault := .refused ⟨.badLiteral "isURL" v, place <|> loc⟩
    let checked := (State.check {} (.program [.expr call none loc] file whole)).2
    (IsAddress v.toList → visit sc call = .ok (some .boolean) ∧ checked = .ok ()) ∧
      (¬IsAddress v.toList → visit sc call = .error refusal ∧ checked = .error refusal) := by
  intro call refusal checked
  have hchecked : checked = (typed call (visit (State.scope {}) call)).map fun _ => () :=
    check_statement call file loc whole
  have hvisit (sc : Scope) := visit_isURL sc text callee place loc
  rw [htext] at hvisit
  rw [hchecked, hvisit sc, hvisit, ← accepts_iff]
  cases accepts v with
  | true => exact ⟨fun _ => ⟨rfl, rfl⟩, fun h => absurd rfl h⟩
  | false => exact ⟨fun h => absurd h Bool.false_ne_true, fun _ => ⟨rfl, rfl⟩⟩

theorem isURL_checked_iff_partners :
    let sc : Scope := ⟨[("Page", .string)], [], []⟩
    let v := "hTTp\u017f://a.b-c.\u0131\u212a/x?y"
    let call (text : String) : Tree := .call (.name "isURL" none) [.string text none] none
    Tree.unquote ("'" ++ v ++ "'") = v ∧ IsAddress v.toList ∧
      visit sc (call ("'" ++ v ++ "'")) = .ok (some .boolean) ∧
      Tree.unquote ("'" ++ v ++ "\n'") = v ++ "\n" ∧ ¬IsAddress (v ++ "\n").toList ∧
      visit sc (call ("'" ++ v ++ "\n'")) =
        .error (.refused ⟨.badLiteral "isURL" (v ++ "\n"), none⟩) := by
  intro sc v call
  have hv : Tree.unquote ("'" ++ v ++ "'") = v := by decide +kernel
  have hline : Tree.unquote ("'" ++ v ++ "\n'") = v ++ "\n" := by decide +kernel
  have haddress : IsAddress v.toList := accepts_iff.1 (by decide +kernel)
  have hother : ¬IsAddress (v ++ "\n").toList := mt accepts_iff.2 (by decide +kernel)
  exact ⟨hv, haddress, ((isURL_checked_iff sc hv "" none none none none).1 haddress).1, hline,
    hother, ((isURL_checked_iff sc hline "" none none none none).2 hother).1⟩

end Typing

end StructLang
