import Mathlib.Data.List.Chain
import StructLang.Proofs.Token.Lexes
import StructLang.Proofs.Ty.Written

/-!
The spelling of identifiers and types. A word that is spelled like a keyword or a primitive is an
identifier only if it runs on into a word character beyond ASCII. Such a character begins a number
or nothing at all, so before a symbol an identifier is neither a keyword nor a primitive, and what
stands in the place of a type is read the same way wherever it stands.
-/

namespace StructLang

open Text Token

structure Token.IsPlain (n : String) : Prop where
  name : IsName n.toList
  keyword : n ∉ Library.keywords
  primitive : n ∉ Ty.primitives

namespace Ty

inductive IsWritten : Ty → Prop
  | literal : IsLiteral t → IsWritten t
  | alias : IsPlain n → IsWritten (.alias n)

theorem IsWritten.isTold {t : Ty} (h : t.IsWritten) : t.IsTold := by
  match t, h with
  | t, .literal h => exact .literal h
  | .alias n, .alias h =>
    refine .alias fun t ht htext => ?_
    have hsome := (literalLength_eq_length_iff n).2 ⟨t, ht, htext⟩
    have hnone : literalLength (n.toList ++ []) = none :=
      literalLength_eq_none h.name (by rw [String.ofList_toList]; exact h.primitive) rfl
    rw [List.append_nil, hsome] at hnone
    cases hnone

theorem ofText_text {t : Ty} (h : t.IsWritten) : ofText t.text = t := ofText_of_isTold h.isTold

end Ty

namespace Token

open Rule

/-! ## Identifiers that are no plain names -/

theorem firstMatch_primitive {p : String} (hp : p ∈ Ty.primitives) {rest : List Char}
    (hrest : atWordEnd rest) : ∃ n, firstMatch (p.toList ++ rest) = some (some .type, n) := by
  have hall : ∀ p ∈ Ty.primitives, p.toList.head?.any isNameStart ∧ p.toList.tail.all isNamePart ∧
      p ∉ Library.keywords := by decide
  obtain ⟨hhead, htail, hword⟩ := hall p hp
  have hname : IsName p.toList := isName_iff.2 ⟨hhead, htail⟩
  have hkeyword : Rule.keyword (p.toList ++ rest) = none := by
    have hfound : findWord Library.keywords (p.toList ++ rest) = _ :=
      findWord_append (fun k hk => List.all_eq_true.2 (isName_of_mem_keywords hk).isWord)
        hname.isWord hrest
    rwa [String.ofList_toList, if_neg hword] at hfound
  have hprimitive : Ty.primitiveLength (p.toList ++ rest) = some p.toList.length := by
    rw [primitiveLength_eq_findWord, findWord_append Ty.primitives_isWord hname.isWord hrest,
      String.ofList_toList, if_pos hp]
  obtain ⟨m, hm⟩ : ∃ m, Ty.memberLength (p.toList ++ rest) = some m := by
    rw [Ty.memberLength, hprimitive]
    exact ⟨_, rfl⟩
  obtain ⟨n, hn, hpos⟩ : ∃ n, Ty.literalLength (p.toList ++ rest) = some n ∧ 0 < n := by
    obtain ⟨-, -, -, hpos⟩ := Ty.exists_of_memberLength hm
    rw [Ty.literalLength, hm]
    exact ⟨_, rfl, Nat.lt_of_lt_of_le hpos (Nat.le_add_right _ _)⟩
  obtain ⟨c, s, hs, hc, -⟩ := hname
  have hslash : c ≠ '/' := by
    rintro rfl
    exact absurd hc (by decide)
  refine ⟨n, ?_⟩
  rw [hs, List.cons_append] at hkeyword hn ⊢
  rw [firstMatch, rules, skip_rule (lineComment_eq_none _ hslash),
    skip_rule (blockComment_eq_none _ hslash), skip_rule hkeyword]
  exact take_rule hn hpos

theorem isPlain_of_firstMatch {s : List Char} {n : Nat}
    (h : firstMatch s = some (some .identifier, n)) (hend : atWordEnd (s.drop n)) :
    IsPlain (String.ofList (s.take n)) := by
  have hname := isName_of_firstMatch h (.inl rfl)
  have hprim : String.ofList (s.take n) ∉ Ty.primitives := by
    intro hprim
    obtain ⟨m, hm⟩ := firstMatch_primitive hprim hend
    rw [String.toList_ofList, List.take_append_drop, h] at hm
    cases hm
  refine ⟨by rwa [String.toList_ofList], ?_, hprim⟩
  have hkind := firstMatch_name hname hprim hend
  rw [List.take_append_drop, h] at hkind
  intro hword
  rw [if_pos hword] at hkind
  cases hkind

theorem identifier_of_firstMatch {s : List Char} {n : Nat}
    (h : firstMatch s = some (some .identifier, n)) : Rule.identifier s = some n := by
  obtain ⟨rule, hrule, htry⟩ := List.exists_of_findSome?_eq_some h
  obtain ⟨hkind, hlength⟩ := tryRule_eq_some htry
  have hnames : ∀ r ∈ rules, r.1 = some .identifier → r.2 = Rule.identifier := by simp [rules]
  rwa [hnames rule hrule hkind] at hlength

theorem isNamePart_of_identifier {s : List Char} {n : Nat} (h : Rule.identifier s = some n) :
    ∀ c ∈ (s.drop n).head?, isNamePart c = false := by
  cases s with
  | nil => cases h
  | cons d s =>
    rw [Rule.identifier] at h
    split at h
    · cases h
      intro c hc
      have hdrop : (s.takeWhile isNamePart ++ s.dropWhile isNamePart).drop
          (s.takeWhile isNamePart).length = s.dropWhile isNamePart := List.drop_left
      rw [List.takeWhile_append_dropWhile] at hdrop
      rw [Nat.add_comm, List.drop_succ_cons, hdrop] at hc
      have hhead := List.head?_dropWhile_not isNamePart s
      rw [Option.mem_def.1 hc] at hhead
      simpa using hhead
    · cases h

theorem isWide_of_isWord {c : Char} (h : isWord c) (hc : isNamePart c = false) :
    128 ≤ c.toNat ∧ isBlank c = false := by
  have hwide : 128 ≤ c.toNat ∧ wordRanges.has c := by
    simp only [isWord, Bool.or_eq_true, Bool.and_eq_true, decide_eq_true_eq] at h
    exact h.resolve_left (by simpa [isNamePart] using hc)
  have hapart : ∀ p ∈ wordRanges, ∀ q ∈ blankRanges, p.2 < q.1 ∨ q.2 < p.1 := by decide +kernel
  obtain ⟨p, hp, hpc⟩ := List.any_eq_true.1 hwide.2
  refine ⟨hwide.1, ?_⟩
  rw [isBlank, Ranges.has, List.any_eq_false]
  intro q hq
  have hpq := hapart p hp q hq
  simp only [Bool.and_eq_true, decide_eq_true_eq] at hpc ⊢
  omega

theorem number_of_isWord {c : Char} {s : List Char} {kind : Option TokenKind} {n : Nat}
    (hc : isWord c) (hpart : isNamePart c = false) (h : firstMatch (c :: s) = some (kind, n)) :
    kind = some .number := by
  obtain ⟨hwide, hblank⟩ := isWide_of_isWord hc hpart
  have hnot : ∀ ds : List Char, ds.all (·.toNat < 128) → c ∉ ds := by
    intro ds hds hmem
    have hlt := List.all_eq_true.1 hds c hmem
    exact absurd (of_decide_eq_true hlt) (Nat.not_lt.2 hwide)
  have hne : ∀ d : Char, d.toNat < 128 → c ≠ d :=
    fun d hd heq => hnot [d] (by simpa using hd) (by simp [heq])
  have hstart : isNameStart c = false := by
    rw [Bool.eq_false_iff]
    intro hstart
    simp [isNamePart_of_isNameStart hstart] at hpart
  have hpos := firstMatch_pos h
  rw [firstMatch_mark (lineComment_eq_none _ (hne _ (by decide)))
    (blockComment_eq_none _ (hne _ (by decide))) hstart] at h
  obtain ⟨⟨k, rule⟩, hrule, htry⟩ := List.exists_of_findSome?_eq_some h
  obtain ⟨hkind, hlength⟩ := tryRule_eq_some htry
  simp only [markRules, List.mem_cons, Prod.mk.injEq, List.not_mem_nil, or_false] at hrule
  dsimp only at hkind hlength
  obtain ⟨rfl, rfl⟩ | ⟨rfl, rfl⟩ | ⟨rfl, rfl⟩ | ⟨rfl, rfl⟩ | ⟨rfl, rfl⟩ | ⟨rfl, rfl⟩ := hrule
  · exact hkind.symm
  · rw [string_eq_none (hne _ (by decide)) (hne _ (by decide))] at hlength
    cases hlength
  · have hsymbol := hnot ('=' :: Rule.symbols) (by decide)
    rw [Rule.symbol.eq_def] at hlength
    grind
  · have hlong := hnot ['&', '|', '=', '!', '<', '>'] (by decide)
    cases s with
    | nil => cases hlength
    | cons d s =>
      rw [Rule.longOperator, if_neg fun hmem => hlong (List.mem_map_of_mem (f := Prod.fst) hmem)]
        at hlength
      cases hlength
  · have hshort := hnot ['+', '-', '*', '/', '<', '>', '!', '|'] (by decide)
    rw [Rule.shortOperator, if_neg hshort] at hlength
    cases hlength
  · rw [Rule.blank, List.takeWhile_cons_of_neg (by simp [hblank])] at hlength
    cases hlength
    cases hpos

theorem Lexes.head_of_isWord {c : Char} {s : List Char} {ws : List (TokenKind × String)}
    (h : Lexes (c :: s) ws) (hc : isWord c) (hpart : isNamePart c = false) :
    ∀ w ∈ ws.head?, w.1 = .number := by
  cases h with
  | skip hmatch _ => cases number_of_isWord hc hpart hmatch
  | token hmatch _ =>
    cases number_of_isWord hc hpart hmatch
    simp

/-! ## Words before symbols -/

def wordType? : TokenKind × String → Option Ty
  | (.type, text) => some (.ofLiteral text)
  | (.identifier, text) => some (.alias text)
  | (.returnType, text) => some (.ofText text)
  | _ => none

/-- An identifier is plain, and the text of a type is the word itself. -/
structure IsTidy (w : TokenKind × String) : Prop where
  name : w.1 = .identifier → IsPlain w.2
  type : ∀ t ∈ wordType? w, t.IsWritten ∧ t.text = w.2

theorem isTidy_of_firstMatch {s : List Char} {k : TokenKind} {n : Nat}
    {ws : List (TokenKind × String)} (h : firstMatch s = some (some k, n))
    (hrest : Lexes (s.drop n) ws) (hws : ∃ w ∈ ws.head?, w.1 = .symbol) :
    IsTidy (k, String.ofList (s.take n)) := by
  cases k with
  | identifier =>
    have hend : atWordEnd (s.drop n) := by
      have hpart := isNamePart_of_identifier (identifier_of_firstMatch h)
      cases hs : s.drop n with
      | nil => rfl
      | cons c r =>
        rw [hs] at hrest hpart
        rw [atWordEnd, Bool.not_eq_true']
        by_contra hc
        obtain ⟨w, hw, hsymbol⟩ := hws
        have hnumber := hrest.head_of_isWord (by simpa using hc) (hpart c rfl) w hw
        cases hsymbol.symm.trans hnumber
    have hplain := isPlain_of_firstMatch h hend
    refine ⟨fun _ => hplain, ?_⟩
    rintro t ⟨⟩
    exact ⟨.alias hplain, rfl⟩
  | type =>
    obtain ⟨rule, hrule, htry⟩ := List.exists_of_findSome?_eq_some h
    obtain ⟨hkind, hlength⟩ := tryRule_eq_some htry
    have htypes : ∀ r ∈ rules, r.1 = some .type → r.2 = Ty.literalLength := by simp [rules]
    rw [htypes rule hrule hkind] at hlength
    obtain ⟨t, ht, htext⟩ := Ty.exists_of_literalLength hlength
    rw [← htext, String.ofList_toList]
    refine ⟨by simp, ?_⟩
    rintro u ⟨⟩
    rw [Ty.ofLiteral_text ht]
    exact ⟨.literal ht, rfl⟩
  | returnType =>
    obtain ⟨rule, hrule, htry⟩ := List.exists_of_findSome?_eq_some h
    have hnever : ∀ r ∈ rules, r.1 ≠ some .returnType := by simp [rules]
    exact absurd (tryRule_eq_some htry).1 (hnever rule hrule)
  | _ => exact ⟨by simp, by simp [wordType?]⟩

theorem Lexes.isChain {s : List Char} {ws : List (TokenKind × String)} (h : Lexes s ws) :
    ws.IsChain fun w v => v.1 = .symbol → IsTidy w := by
  induction h with
  | nil => exact .nil
  | skip _ _ ih => exact ih
  | token hmatch hrest ih =>
    rw [List.isChain_cons]
    exact ⟨fun v hv hsymbol => isTidy_of_firstMatch hmatch hrest ⟨v, hv, hsymbol⟩, ih⟩

theorem IsTidy.returnType {t : Token} (h : IsTidy t.word)
    (hkind : t.kind = .type ∨ t.kind = .identifier) :
    IsTidy (word { t with kind := .returnType }) := by
  obtain ⟨u, hu⟩ : ∃ u, wordType? t.word = some u := by
    obtain hkind | hkind := hkind <;> exact ⟨_, by rw [word, hkind, wordType?]⟩
  obtain ⟨hwritten, htext⟩ := h.type u hu
  have hof : Ty.ofText t.word.2 = u := by rw [← htext, Ty.ofText_text hwritten]
  refine ⟨by simp [word], ?_⟩
  rintro v ⟨⟩
  change (Ty.ofText t.word.2).IsWritten ∧ (Ty.ofText t.word.2).text = t.word.2
  rw [hof]
  exact ⟨hwritten, htext⟩

def Tidy (ts : List Token) : Prop := ts.IsChain fun t u => u.kind = .symbol → IsTidy t.word

theorem tidy_cons {t : Token} {ts : List Token} :
    Tidy (t :: ts) ↔ (∀ u ∈ ts.head?, u.kind = .symbol → IsTidy t.word) ∧ Tidy ts :=
  List.isChain_cons

theorem Tidy.upTo {ts us : List Token} {t : Token} (h : Tidy (ts ++ t :: us)) :
    Tidy (ts ++ [t]) := by
  rw [← List.singleton_append, ← List.append_assoc] at h
  exact h.left_of_append

theorem Tidy.mergeReturnTypes {ts : List Token} (h : Tidy ts) : Tidy (mergeReturnTypes ts) := by
  fun_induction Token.mergeReturnTypes ts with
  | case1 a b t rest hmerge ih =>
    obtain ⟨-, -, ht, hrest⟩ : _ ∧ _ ∧ _ ∧ _ := by simpa only [tidy_cons] using h
    have hkind : t.kind = .type ∨ t.kind = .identifier := by
      simp only [Bool.and_eq_true, Bool.or_eq_true, beq_iff_eq] at hmerge
      exact hmerge.2
    rw [tidy_cons, tidy_cons, head?_mergeReturnTypes]
    exact ⟨by simp, fun u hu hsymbol => (ht u hu hsymbol).returnType hkind, ih hrest⟩
  | case2 a b t rest _ ih =>
    rw [tidy_cons] at h ⊢
    rw [head?_mergeReturnTypes]
    exact ⟨h.1, ih h.2⟩
  | case3 => exact h

theorem tidy_of_scan {file source : String} {ts : List Token} (h : scan file source = .ok ts) :
    Tidy ts := by
  obtain ⟨⟨us, last⟩, hscan, h⟩ := bind_eq_ok.1 h
  cases h
  have hchain : Tidy us := (List.isChain_map word).1 (lexes_of_scanFrom hscan).isChain
  refine List.IsChain.append hchain.mergeReturnTypes (.singleton _) ?_
  rintro t _ u hu hsymbol
  cases hu
  cases hsymbol

end Token

end StructLang
