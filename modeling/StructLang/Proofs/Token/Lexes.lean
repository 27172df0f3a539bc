import StructLang.Proofs.Outcome
import StructLang.Proofs.Token.Match

namespace StructLang.Token

open Text Rule

def word (t : Token) : TokenKind × String := (t.kind, t.text)

/-- A text falls into these words, one match after the other. -/
inductive Lexes : List Char → List (TokenKind × String) → Prop
  | nil : Lexes [] []
  | skip : firstMatch s = some (none, n) → Lexes (s.drop n) ws → Lexes s ws
  | token : firstMatch s = some (some k, n) → Lexes (s.drop n) ws →
      Lexes s ((k, String.ofList (s.take n)) :: ws)

theorem firstMatch_nil : firstMatch [] = none := by decide

theorem scanFrom_of_firstMatch (file : String) (c : Cursor) {s : List Char} {n : Nat}
    {kind : Option TokenKind} (h : firstMatch s = some (kind, n)) :
    scanFrom file c s = do
      let p ← scanFrom file (c.advance (s.take n)) (s.drop n)
      return (kind.toList.map (⟨·, String.ofList (s.take n), c.line, c.column⟩) ++ p.1, p.2) := by
  cases s with
  | nil =>
    rw [firstMatch_nil] at h
    cases h
  | cons ch s =>
    rw [scanFrom]
    split
    · rename_i hnone
      rw [h] at hnone
      cases hnone
    · rename_i kind' n' hsome
      obtain ⟨rfl, rfl⟩ : kind = kind' ∧ n = n' := by simpa using h.symm.trans hsome
      cases kind with
      | none => rfl
      | some kind => rfl

theorem Lexes.scanFrom {s : List Char} {ws : List (TokenKind × String)} (h : Lexes s ws)
    (file : String) (c : Cursor) :
    ∃ ts last, scanFrom file c s = .ok (ts, last) ∧ ts.map word = ws := by
  induction h generalizing c with
  | nil => exact ⟨[], c, by rw [Token.scanFrom], rfl⟩
  | @skip s n ws hmatch _ ih =>
    obtain ⟨ts, last, hscan, hts⟩ := ih (c.advance (s.take n))
    refine ⟨ts, last, ?_, hts⟩
    rw [scanFrom_of_firstMatch file c hmatch, hscan]
    rfl
  | @token s k n ws hmatch _ ih =>
    obtain ⟨ts, last, hscan, hts⟩ := ih (c.advance (s.take n))
    refine ⟨⟨k, String.ofList (s.take n), c.line, c.column⟩ :: ts, last, ?_, ?_⟩
    · rw [scanFrom_of_firstMatch file c hmatch, hscan]
      rfl
    · rw [List.map_cons, hts]
      rfl

theorem lexes_of_scanFrom {file : String} {s : List Char} {c last : Cursor} {ts : List Token}
    (h : scanFrom file c s = .ok (ts, last)) : Lexes s (ts.map word) := by
  induction c, s using scanFrom.induct generalizing ts with
  | case1 c =>
    rw [scanFrom] at h
    cases h
    exact .nil
  | case2 c ch s hmatch =>
    rw [scanFrom] at h
    split at h
    · cases h
    · rename_i hsome
      rw [hmatch] at hsome
      cases hsome
  | case3 c ch s k n hmatch text =>
    rename_i ih
    rw [scanFrom_of_firstMatch file c hmatch] at h
    obtain ⟨⟨us, last'⟩, hscan, h⟩ := bind_eq_ok.1 h
    cases h
    cases k with
    | none => exact .skip hmatch (ih hscan)
    | some k => exact .token hmatch (ih hscan)

theorem Lexes.length_le {s : List Char} {ws : List (TokenKind × String)} (h : Lexes s ws) :
    ∀ w ∈ ws, w.2.length ≤ s.length := by
  induction h with
  | nil => simp
  | skip _ _ ih =>
    intro w hw
    exact (ih w hw).trans (by simp)
  | token _ _ ih =>
    intro w hw
    obtain rfl | hw := List.mem_cons.1 hw
    · simp only [String.length_ofList, List.length_take]
      exact Nat.min_le_right _ _
    · exact (ih w hw).trans (by simp)

theorem Lexes.firstMatch_of_single {n : String} {k : TokenKind} (h : Lexes n.toList [(k, n)]) :
    ∃ m, firstMatch n.toList = some (some k, m) ∧ n.toList.take m = n.toList := by
  generalize hs : n.toList = s at h
  generalize hws : [(k, n)] = ws at h
  cases h with
  | nil => cases hws
  | @skip _ m _ hmatch htail =>
    subst hws
    have hle : n.length ≤ _ := htail.length_le (k, n) (by simp)
    have hpos := firstMatch_pos hmatch
    rw [List.length_drop, ← hs, String.length_toList] at hle
    have hnil : s = [] := by
      rw [← List.length_eq_zero_iff, ← hs, String.length_toList]
      omega
    rw [hnil, firstMatch_nil] at hmatch
    cases hmatch
  | @token _ k' m _ hmatch htail =>
    simp only [List.cons.injEq, Prod.mk.injEq] at hws
    obtain ⟨⟨rfl, hn⟩, -⟩ := hws
    refine ⟨m, hmatch, ?_⟩
    rw [← String.toList_ofList (l := s.take m), ← hn, hs]

theorem head?_mergeReturnTypes (ts : List Token) : (mergeReturnTypes ts).head? = ts.head? := by
  fun_cases mergeReturnTypes ts with
  | case1 | case2 | case3 => rfl

theorem mergeReturnTypes_eq_singleton {ts : List Token} {t : Token}
    (h : mergeReturnTypes ts = [t]) : ts = [t] := by
  fun_cases mergeReturnTypes ts with
  | case1 a b r rest hmerge =>
    rw [mergeReturnTypes, if_pos hmerge] at h
    cases h
  | case2 a b r rest hmerge =>
    rw [mergeReturnTypes, if_neg hmerge] at h
    have hhead := head?_mergeReturnTypes (b :: r :: rest)
    rw [(List.cons.inj h).2] at hhead
    cases hhead
  | case3 _ hshort =>
    rwa [mergeReturnTypes] at h
    exact hshort

theorem mergeReturnTypes_of_noColon {ts : List Token}
    (h : ∀ t ∈ ts, t.isSymbol ":" = false) : mergeReturnTypes ts = ts := by
  fun_induction mergeReturnTypes ts with
  | case1 a b r rest hmerge => simp [h b (by simp)] at hmerge
  | case2 a b r rest _ ih => rw [ih fun t ht => h t (by simp [ht])]
  | case3 => rfl

theorem Lexes.scan {source : String} {ws : List (TokenKind × String)} (h : Lexes source.toList ws)
    (hcolon : (.symbol, ":") ∉ ws) (file : String) :
    ∃ ts e, Token.scan file source = .ok (ts ++ [e]) ∧ ts.map word = ws ∧ e.kind = .eof := by
  obtain ⟨ts, last, hscan, hts⟩ := h.scanFrom file {}
  have hmerge : mergeReturnTypes ts = ts := by
    refine mergeReturnTypes_of_noColon fun t ht => Bool.eq_false_iff.2 fun hsymbol => hcolon ?_
    have hword : word t = (.symbol, ":") := by simpa [isSymbol, word] using hsymbol
    rw [← hts, ← hword]
    exact List.mem_map_of_mem ht
  refine ⟨ts, ⟨.eof, "", last.line, last.column⟩, ?_, hts, rfl⟩
  simp only [Token.scan, hscan, ok_bind, hmerge, pure_eq_ok]

def ScansAsName (n : String) : Prop :=
  ∃ file t e, scan file n = .ok [t, e] ∧ t.isName ∧ t.text = n

theorem keyword_eq_some {s : List Char} {m : Nat} (h : Rule.keyword s = some m) :
    IsName (s.take m) := by
  obtain ⟨k, hk, hfound⟩ := List.exists_of_findSome?_eq_some h
  split at hfound
  · rename_i hword
    simp only [Bool.and_eq_true, List.isPrefixOf_iff_prefix] at hword
    cases hfound
    have htake := List.prefix_iff_eq_take.1 hword.1
    rw [String.length_toList] at htake
    rw [← htake]
    exact isName_of_mem_keywords hk
  · cases hfound

theorem identifier_eq_some {s : List Char} {m : Nat} (h : Rule.identifier s = some m) :
    IsName (s.take m) := by
  cases s with
  | nil => cases h
  | cons c s =>
    rw [Rule.identifier] at h
    split at h
    · rename_i hc
      cases h
      refine ⟨c, s.takeWhile isNamePart, ?_, hc, fun d hd => List.mem_takeWhile_imp hd⟩
      rw [Nat.add_comm, List.take_succ_cons,
        ← List.prefix_iff_eq_take.1 (List.takeWhile_prefix isNamePart)]
    · cases h

theorem tryRule_eq_some {s : List Char} {rule : Option TokenKind × Rule}
    {kind : Option TokenKind} {n : Nat} (h : tryRule s rule = some (kind, n)) :
    rule.1 = kind ∧ rule.2 s = some n := by
  obtain ⟨m, hrule, h⟩ := Option.bind_eq_some_iff.1 h
  split at h
  · cases h
    exact ⟨rfl, hrule⟩
  · cases h

theorem isName_of_firstMatch {s : List Char} {k : TokenKind} {m : Nat}
    (h : firstMatch s = some (some k, m)) (hk : k = .identifier ∨ k = .keyword) :
    IsName (s.take m) := by
  obtain ⟨rule, hrule, htry⟩ := List.exists_of_findSome?_eq_some h
  obtain ⟨hkind, hlength⟩ := tryRule_eq_some htry
  have hnames : ∀ r ∈ rules, r.1 = some .identifier ∨ r.1 = some .keyword →
      r.2 = Rule.identifier ∨ r.2 = Rule.keyword := by
    simp [rules]
  obtain hr | hr := hnames rule hrule (by simpa [hkind] using hk)
  · rw [hr] at hlength
    exact identifier_eq_some hlength
  · rw [hr] at hlength
    exact keyword_eq_some hlength

theorem ScansAsName.isName {n : String} (h : ScansAsName n) :
    IsName n.toList ∧ n ∉ Ty.primitives := by
  obtain ⟨file, t, e, hscan, ht, rfl⟩ := h
  obtain ⟨⟨ts, last⟩, hfrom, hmerge⟩ := bind_eq_ok.1 hscan
  have hts : ts = [t] := by
    apply mergeReturnTypes_eq_singleton
    have happend := congrArg List.dropLast (Except.ok.inj hmerge)
    simpa using happend
  subst hts
  obtain ⟨m, hmatch, htake⟩ := (lexes_of_scanFrom hfrom).firstMatch_of_single
  have hkind : t.kind = .identifier ∨ t.kind = .keyword := by simpa [Token.isName] using ht
  have hname := isName_of_firstMatch hmatch hkind
  rw [htake] at hname
  refine ⟨hname, ?_⟩
  intro hprim
  have htype : ∀ p ∈ Ty.primitives, (firstMatch p.toList).map Prod.fst = some (some .type) := by
    decide +kernel
  have hclash := htype t.text hprim
  rw [hmatch] at hclash
  simp only [Option.map_some, Option.some.injEq] at hclash
  rw [hclash] at hkind
  simp at hkind

/-- Neither a name nor a number runs on into what follows. -/
structure Boundary (rest : List Char) : Prop where
  word : atWordEnd rest
  number : EndsNumber rest

theorem Boundary.nil : Boundary [] where
  word := rfl
  number := ⟨rfl, fun _ h => by cases h⟩

theorem Boundary.mark {c : Char} (hc : c ∈ [' ', '(', ')', ',']) (s : List Char) :
    Boundary (c :: s) := by
  have hall : [' ', '(', ')', ','].all fun c => !isWord c && !isDecimal c && c != '.' := by
    decide +kernel
  have hmark := List.all_eq_true.1 hall c hc
  simp only [Bool.and_eq_true, Bool.not_eq_true', bne_iff_ne] at hmark
  obtain ⟨⟨hword, hdigit⟩, hpoint⟩ := hmark
  refine ⟨by simp [atWordEnd, hword], by simp [hdigit], ?_⟩
  intro t ht
  exact absurd (List.cons.inj ht).1 hpoint

theorem toNat_lt_of_isNameStart {c : Char} (h : isNameStart c) : c.toNat < 128 := by
  simp only [isNameStart, Bool.or_eq_true, beq_iff_eq] at h
  obtain h | rfl := h
  · exact toNat_lt_of_isAlphanum (by simp [Char.isAlphanum, h])
  · decide

theorem Boundary.point {w : List Char} (hw : IsName w) (s : List Char) :
    Boundary ('.' :: w ++ s) := by
  obtain ⟨c, u, rfl, hc, -⟩ := hw
  have hdigit : isDecimal c = false := by
    have hsplit := forall_ascii (p := fun c => !(isNameStart c && isDecimal c))
      (by decide +kernel) (toNat_lt_of_isNameStart hc)
    simpa [hc] using hsplit
  have hpoint : isWord '.' = false ∧ isDecimal '.' = false := by decide +kernel
  refine ⟨by simp [atWordEnd, hpoint.1], by simp [hpoint.2], ?_⟩
  intro t ht
  rw [← (List.cons.inj ht).2]
  simp [hdigit]

theorem Lexes.word {w rest : List Char} {k : TokenKind} {ws : List (TokenKind × String)}
    (h : firstMatch (w ++ rest) = some (some k, w.length)) (hrest : Lexes rest ws) :
    Lexes (w ++ rest) ((k, String.ofList w) :: ws) := by
  have hdrop : Lexes ((w ++ rest).drop w.length) ws := by rwa [List.drop_left]
  have htoken := Lexes.token h hdrop
  rwa [List.take_left] at htoken

def nameKind (n : String) : TokenKind :=
  if n ∈ Library.keywords then .keyword else .identifier

variable {rest : List Char} {ws : List (TokenKind × String)}

theorem Lexes.name {n : String} (hn : IsName n.toList) (hprim : n ∉ Ty.primitives)
    (hb : Boundary rest) (h : Lexes rest ws) :
    Lexes (n.toList ++ rest) ((nameKind n, n) :: ws) := by
  have hword := Lexes.word (firstMatch_name hn (by rwa [String.ofList_toList]) hb.word) h
  rwa [String.ofList_toList] at hword

theorem isName_of_word {t : Token} {n : String} (h : word t = (nameKind n, n)) : t.isName := by
  have hkind : t.kind = nameKind n := (Prod.mk.inj h).1
  rw [Token.isName, hkind, nameKind]
  split
  · rfl
  · rfl

theorem scansAsName_iff {n : String} :
    ScansAsName n ↔ IsName n.toList ∧ n ∉ Ty.primitives := by
  refine ⟨ScansAsName.isName, ?_⟩
  rintro ⟨hn, hprim⟩
  obtain ⟨ts, last, hscan, hts⟩ := (Lexes.name hn hprim .nil .nil).scanFrom "" {}
  obtain ⟨t, rfl, ht⟩ := List.map_eq_singleton_iff.1 hts
  rw [List.append_nil] at hscan
  refine ⟨"", t, ⟨.eof, "", last.line, last.column⟩, ?_, isName_of_word ht, (Prod.mk.inj ht).2⟩
  rw [scan, hscan]
  rfl

theorem Lexes.number (n : Int) (hb : Boundary rest) (h : Lexes rest ws) :
    Lexes ((toString n).toList ++ rest) ((.number, toString n) :: ws) := by
  have hword := Lexes.word (firstMatch_number n hb.number) h
  rwa [String.ofList_toList] at hword

theorem Lexes.string {s : List Char} (hs : '"' ∉ s) (h : Lexes rest ws) :
    Lexes ('"' :: s ++ '"' :: rest) ((.string, String.ofList ('"' :: s ++ ['"'])) :: ws) := by
  have hsplit : '"' :: s ++ '"' :: rest = ('"' :: s ++ ['"']) ++ rest := by simp
  have hmatch := firstMatch_string hs rest
  rw [hsplit] at hmatch ⊢
  exact Lexes.word (by simpa using hmatch) h

theorem Lexes.symbol {c : Char} (hc : c ∈ Rule.symbols) (h : Lexes rest ws) :
    Lexes (c :: rest) ((.symbol, String.singleton c) :: ws) :=
  Lexes.word (w := [c]) (firstMatch_symbol hc rest) h

theorem Lexes.operator (op : Operator) (h : Lexes (' ' :: rest) ws) :
    Lexes (op.symbol.toList ++ ' ' :: rest) ((.operator, op.symbol) :: ws) := by
  have hword := Lexes.word (firstMatch_operator op rest) h
  rwa [String.ofList_toList] at hword

theorem Lexes.space (hrest : rest.takeWhile isBlank = []) (h : Lexes rest ws) :
    Lexes (' ' :: rest) ws :=
  .skip (firstMatch_space hrest) h

theorem isDigits_takeWhile {s : List Char} (h : (s.takeWhile isDecimal).length ≠ 0) :
    Numeral.IsDigits (s.takeWhile isDecimal) where
  ne_nil hnil := h (by simp [hnil])
  decimal _ hc := List.mem_takeWhile_imp hc

theorem isNumeral_of_unsigned {s : List Char} {n : Nat} (h : Rule.unsigned s = some n)
    (negative : Bool) : Numeral.IsNumeral (Numeral.sign negative ++ s.take n) := by
  have hsplit := List.takeWhile_append_dropWhile (p := isDecimal) (l := s)
  have hwhole : s.take (s.takeWhile isDecimal).length = s.takeWhile isDecimal :=
    (List.prefix_iff_eq_take.1 (List.takeWhile_prefix _)).symm
  rw [Rule.unsigned] at h
  split at h
  · cases h
  · rename_i t hdrop hne
    have hdigits := isDigits_takeWhile hne
    split at h
    · cases h
      rw [hwhole]
      exact .whole hdigits
    · rename_i hpart
      cases h
      have hfraction := isDigits_takeWhile hpart
      have htake : t.take (t.takeWhile isDecimal).length = t.takeWhile isDecimal :=
        (List.prefix_iff_eq_take.1 (List.takeWhile_prefix _)).symm
      have htext : s.take ((s.takeWhile isDecimal).length + 1 + (t.takeWhile isDecimal).length) =
          s.takeWhile isDecimal ++ '.' :: t.takeWhile isDecimal := by
        rw [hdrop] at hsplit
        generalize s.takeWhile isDecimal = w at hsplit
        rw [← hsplit, Nat.add_assoc, List.take_length_add_append, Nat.add_comm 1,
          List.take_succ_cons, htake]
      rw [htext]
      exact .real hdigits hfraction
  · rename_i hne _
    cases h
    rw [hwhole]
    exact .whole (isDigits_takeWhile hne)

theorem isNumeral_of_number {s : List Char} {n : Nat} (h : Rule.number s = some n) :
    Numeral.IsNumeral (s.take n) := by
  rw [Rule.number.eq_def] at h
  split at h
  · obtain ⟨m, hm, rfl⟩ := Option.map_eq_some_iff.1 h
    exact isNumeral_of_unsigned hm true
  · exact isNumeral_of_unsigned h false

theorem isNumeral_of_firstMatch {s : List Char} {n : Nat}
    (h : firstMatch s = some (some .number, n)) : Numeral.IsNumeral (s.take n) := by
  obtain ⟨rule, hrule, htry⟩ := List.exists_of_findSome?_eq_some h
  obtain ⟨hkind, hlength⟩ := tryRule_eq_some htry
  have hnumbers : ∀ r ∈ rules, r.1 = some .number → r.2 = Rule.number := by simp [rules]
  rw [hnumbers rule hrule hkind] at hlength
  exact isNumeral_of_number hlength

theorem Lexes.forall_word {K : TokenKind → Prop} {P : List Char → Prop}
    (hP : ∀ {s k n}, firstMatch s = some (some k, n) → K k → P (s.take n)) {s : List Char}
    {ws : List (TokenKind × String)} (h : Lexes s ws) : ∀ w ∈ ws, K w.1 → P w.2.toList := by
  induction h with
  | nil => simp
  | skip _ _ ih => exact ih
  | token hmatch _ ih =>
    rw [List.forall_mem_cons]
    refine ⟨?_, ih⟩
    rw [String.toList_ofList]
    exact hP hmatch

theorem mem_of_mem_mergeReturnTypes {t : Token} {ts : List Token} (h : t ∈ mergeReturnTypes ts)
    (hkind : t.kind ≠ .returnType) : t ∈ ts := by
  fun_induction mergeReturnTypes ts with
  | case1 a b r rest _ ih =>
    obtain rfl | rfl | h := by simpa using h
    · simp
    · exact absurd rfl hkind
    · simp [ih h]
  | case2 a b r rest _ ih =>
    obtain rfl | h := List.mem_cons.1 h
    · simp
    · simp [ih h]
  | case3 => exact h

theorem forall_of_scan {K : TokenKind → Prop} {P : List Char → Prop}
    (hP : ∀ {s k n}, firstMatch s = some (some k, n) → K k → P (s.take n))
    (hreturn : ¬K .returnType) (heof : ¬K .eof) {file source : String} {ts : List Token}
    (h : scan file source = .ok ts) : ∀ t ∈ ts, K t.kind → P t.text.toList := by
  obtain ⟨⟨us, last⟩, hscan, h⟩ := bind_eq_ok.1 h
  cases h
  intro t ht hkind
  obtain ht | rfl := by simpa using ht
  · have hmem := mem_of_mem_mergeReturnTypes ht fun hclash => hreturn (hclash ▸ hkind)
    exact (lexes_of_scanFrom hscan).forall_word hP (word t) (List.mem_map_of_mem hmem) hkind
  · exact absurd hkind heof

theorem isNumeral_of_scan {file source : String} {ts : List Token}
    (h : scan file source = .ok ts) :
    ∀ t ∈ ts, t.kind = .number → Numeral.IsNumeral t.text.toList := by
  refine forall_of_scan (K := (· = .number)) ?_ (by decide) (by decide) h
  rintro s k n hmatch rfl
  exact isNumeral_of_firstMatch hmatch

theorem isName_of_scan {file source : String} {ts : List Token} (h : scan file source = .ok ts) :
    ∀ t ∈ ts, t.isName → IsName t.text.toList := by
  intro t ht hname
  have hkind : t.kind = .identifier ∨ t.kind = .keyword := by simpa [Token.isName] using hname
  exact forall_of_scan (K := fun k => k = .identifier ∨ k = .keyword) isName_of_firstMatch
    (by decide) (by decide) h t ht hkind

end StructLang.Token
