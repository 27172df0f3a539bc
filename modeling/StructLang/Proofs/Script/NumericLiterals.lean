import StructLang.Proofs.Number.Rounding
import StructLang.Proofs.Script.Numbers
import StructLang.Proofs.Token.Lexes

namespace StructLang

open Text

namespace Script

structure IsDigitRun (ds : List Char) : Prop where
  ne_nil : ds ≠ []
  digit : ∀ c ∈ ds, c.isDigit

structure IsWholePart (ds : List Char) : Prop extends IsDigitRun ds where
  head : ds.head? = some '0' → ds = ['0']

inductive IsFraction : List Char → Prop
  | absent : IsFraction []
  | present : IsDigitRun fs → IsFraction ('.' :: fs)

inductive IsExponent : List Char → Prop
  | absent : IsExponent []
  | present : mark ∈ ['e', 'E'] → sign ∈ [[], ['-'], ['+']] → IsDigitRun es →
    IsExponent (mark :: (sign ++ es))

inductive IsUnsigned : List Char → Prop
  | intro : IsWholePart ds → IsFraction f → IsExponent x → IsUnsigned (ds ++ (f ++ x))

def IsNumericLiteral (s : List Char) : Prop :=
  ∃ negative m, s = Numeral.sign negative ++ m ∧ IsUnsigned m

theorem IsUnsigned.exists_cons {m : List Char} (h : IsUnsigned m) :
    ∃ c r, m = c :: r ∧ c.isDigit := by
  cases h with
  | @intro ds f x hds _ _ =>
    obtain ⟨d, ds, rfl⟩ := List.exists_cons_of_ne_nil hds.ne_nil
    exact ⟨d, _, rfl, hds.digit d List.mem_cons_self⟩

theorem head_toDigits {n : Nat} (h : n ≠ 0) : (Nat.toDigits 10 n).head? ≠ some '0' := by
  induction n using Nat.strongRecOn with
  | ind n ih =>
    have hdigit : ∀ k < 10, k ≠ 0 → Nat.digitChar k ≠ '0' := by decide
    rw [Nat.toDigits_eq_if (by decide)]
    split
    · rename_i hlt
      simpa using hdigit n hlt h
    · rename_i hge
      rw [List.head?_append_of_ne_nil _ Nat.toDigits_ne_nil]
      exact ih (n / 10) (by omega) (by omega)

theorem isWholePart_of_head {ds : List Char} (h : IsDigitRun ds) (hhead : ds.head? ≠ some '0') :
    IsWholePart ds where
  toIsDigitRun := h
  head hzero := absurd hzero hhead

theorem isWholePart_zero : IsWholePart ['0'] where
  ne_nil := List.cons_ne_nil _ _
  digit := by simp
  head _ := rfl

theorem isWholePart_toDigits (n : Nat) : IsWholePart (Nat.toDigits 10 n) := by
  obtain rfl | hn := eq_or_ne n 0
  · exact isWholePart_zero
  · refine isWholePart_of_head ⟨Nat.toDigits_ne_nil, ?_⟩ (head_toDigits hn)
    exact fun c hc => Double.isDigit_of_mem_toDigits hc

theorem IsWholePart.isUnsigned {ds : List Char} (h : IsWholePart ds) : IsUnsigned ds := by
  simpa using IsUnsigned.intro h .absent .absent

theorem isUnsigned_fraction {ds fs : List Char} (hds : IsWholePart ds) (hfs : IsDigitRun fs) :
    IsUnsigned (ds ++ '.' :: fs) := by
  simpa using IsUnsigned.intro hds (.present hfs) .absent

section Layout

variable {ds : List Char} (hds : IsDigitRun ds) (hhead : ds.head? ≠ some '0')

include hds hhead

theorem isWholePart_append {zs : List Char} (hzs : ∀ c ∈ zs, c.isDigit) :
    IsWholePart (ds ++ zs) := by
  refine isWholePart_of_head ⟨by simp [hds.ne_nil], List.forall_mem_append.2 ⟨hds.digit, hzs⟩⟩ ?_
  rwa [List.head?_append_of_ne_nil _ hds.ne_nil]

theorem isWholePart_take {n : Nat} (hn : n ≠ 0) : IsWholePart (ds.take n) := by
  refine isWholePart_of_head ⟨?_, fun c hc => hds.digit c (List.mem_of_mem_take hc)⟩ ?_
  · simp [List.take_eq_nil_iff, hn, hds.ne_nil]
  · rwa [List.head?_take, if_neg hn]

omit hhead in
theorem isDigitRun_drop {n : Nat} (hn : n < ds.length) : IsDigitRun (ds.drop n) where
  ne_nil := by simpa [List.drop_eq_nil_iff] using hn
  digit c hc := hds.digit c (List.mem_of_mem_drop hc)

theorem isUnsigned_positional (point : Int) : IsUnsigned (Double.positional ds point) := by
  rw [Double.positional]
  split
  · refine isUnsigned_fraction isWholePart_zero ⟨by simp [hds.ne_nil], ?_⟩
    exact List.forall_mem_append.2 ⟨fun c hc => Double.isDigit_of_mem_zeros hc, hds.digit⟩
  · split
    · refine isUnsigned_fraction ?_ isWholePart_zero.toIsDigitRun
      exact isWholePart_append hds hhead fun c hc => Double.isDigit_of_mem_zeros hc
    · exact isUnsigned_fraction (isWholePart_take hds hhead (by omega))
        (isDigitRun_drop hds (by omega))

theorem isUnsigned_scientific (point : Int) : IsUnsigned (Double.scientific ds point) := by
  obtain ⟨es, hes, hne, hdigit, -⟩ := Double.exists_exponentValue (point - 1)
  have hfraction : IsFraction (if ds.length ≤ 1 then [] else '.' :: ds.drop 1) := by
    split
    · exact .absent
    · exact .present (isDigitRun_drop hds (by omega))
  have hexponent : IsExponent ('e' :: ([if point - 1 < 0 then '-' else '+'] ++ es)) :=
    .present (by simp) (by split <;> simp) ⟨hne, hdigit⟩
  have hunsigned :=
    IsUnsigned.intro (isWholePart_take hds hhead Nat.one_ne_zero) hfraction hexponent
  simpa [Double.scientific, hes] using hunsigned

end Layout

theorem isUnsigned_decimalChars {d : Nat} (hd : d ≠ 0) (e : Int) :
    IsUnsigned (Double.decimalChars d e) := by
  obtain ⟨ds, n, hstrip, hn, -, hne, hdigit⟩ := Double.exists_significant hd
  have hhead : ds.head? ≠ some '0' := by
    have hdigits := head_toDigits hd
    rwa [hn, List.head?_append_of_ne_nil _ hne] at hdigits
  rw [Double.decimalChars, hstrip, Double.layout]
  split
  · exact isUnsigned_positional ⟨hne, hdigit⟩ hhead _
  · exact isUnsigned_scientific ⟨hne, hdigit⟩ hhead _

theorem isUnsigned_magnitudeChars (rank : Nat) : IsUnsigned (Double.magnitudeChars rank) := by
  rw [Double.magnitudeChars]
  split
  · exact isUnsigned_fraction isWholePart_zero isWholePart_zero.toIsDigitRun
  · rename_i hrank
    exact isUnsigned_decimalChars (Double.shortest_ne_zero hrank) _

theorem isNumericLiteral_toString (n : Int) : IsNumericLiteral (toString n).toList :=
  ⟨_, _, Numeral.toList_toString_eq_sign n, (isWholePart_toDigits _).isUnsigned⟩

theorem isNumericLiteral_text (negative : Bool) (rank : Fin Double.rankCount) :
    IsNumericLiteral (Double.finite negative rank).text.toList :=
  ⟨_, _, Numeral.toList_text negative rank, isUnsigned_magnitudeChars rank⟩

theorem isNumericLiteral_script {v : Value} (hnumber : v.isNumber) (hfinite : v.isFinite)
    (hwritable : v.isWritable) : ∃ out, v.script = .ok out ∧ IsNumericLiteral out.toList := by
  cases v with
  | int n => exact ⟨_, script_int hwritable, isNumericLiteral_toString n⟩
  | real d =>
    cases d with
    | finite negative rank =>
      rw [Value.script]
      cases hd : (Double.finite negative rank).toInt? with
      | some n =>
        exact ⟨_, decimalText_of_isShort (Numeral.isShort_of_toInt? hd),
          isNumericLiteral_toString n⟩
      | none => exact ⟨_, rfl, isNumericLiteral_text negative rank⟩
    | infinite => cases hfinite
    | nan => cases hfinite
  | _ => cases hnumber

def infinity (negative : Bool) : List Char := Numeral.sign negative ++ ['i', 'n', 'f']

theorem script_infinite (negative : Bool) :
    (Value.real (.infinite negative)).script = .ok (String.ofList (infinity negative)) := rfl

theorem not_isNumericLiteral_infinity (negative : Bool) :
    ¬IsNumericLiteral (infinity negative) := by
  rintro ⟨negative', m, heq, hm⟩
  obtain ⟨c, r, rfl, hc⟩ := hm.exists_cons
  cases negative <;> cases negative' <;> cases heq <;> cases hc

end Script

namespace Numeral

/-- A fractional numeral for a number that is too large to have a nearest double. -/
inductive Overflows : List Char → Prop
  | intro : IsDigits ds → IsDigits fs →
    Double.overflow * 10 ^ fs.length ≤ digitsValue (ds ++ fs) →
    Overflows (sign negative ++ (ds ++ '.' :: fs))

theorem overflow_le_iff (d k : Nat) :
    (Double.overflow : ℚ) ≤ d * 10 ^ (-(k : Int)) ↔ Double.overflow * 10 ^ k ≤ d := by
  generalize Double.overflow = bound
  rw [zpow_neg, zpow_natCast, ← div_eq_mul_inv, le_div_iff₀ (by positivity)]
  exact_mod_cast Iff.rfl

theorem ofNumeral_of_overflows {text : String} (h : Overflows text.toList) :
    ∃ negative, Value.ofNumeral text = .ok (.real (.infinite negative)) := by
  generalize hs : text.toList = s at h
  cases h with
  | @intro ds fs negative hds hfs hlarge =>
    have hread := Value.ofNumeral_of_isDigits hds hfs hs
    rw [Double.ofDecimal_of_le ((overflow_le_iff _ _).2 hlarge)] at hread
    exact ⟨negative, hread⟩

theorem isFinite_of_not_overflows {text : String} {v : Value} (htext : IsNumeral text.toList)
    (h : ¬Overflows text.toList) (hv : Value.ofNumeral text = .ok v) : v.isFinite := by
  generalize hs : text.toList = s at htext h
  cases htext with
  | @whole ds negative hds =>
    rw [Value.ofNumeral, hs, hds.contains_point, if_neg Bool.false_ne_true] at hv
    split at hv
    · cases hv
      rfl
    · cases hv
  | @real ds fs negative hds hfs =>
    have hsmall : ¬Double.overflow * 10 ^ fs.length ≤ digitsValue (ds ++ fs) :=
      fun hlarge => h (.intro hds hfs hlarge)
    rw [← overflow_le_iff, not_le] at hsmall
    obtain ⟨rank, hrank⟩ := Double.ofDecimal_of_lt hsmall negative
    rw [Value.ofNumeral_of_isDigits hds hfs hs, hrank] at hv
    cases hv
    rfl

end Numeral

namespace Script

/-- A number of a program is written as a literal exactly if it does not overflow. -/
theorem numeral_written_iff {file source : String} {ts : List Token} {tok : Token} {v : Value}
    (hscan : Token.scan file source = .ok ts) (hmem : tok ∈ ts) (hkind : tok.kind = .number)
    (hread : Value.ofNumeral tok.text = .ok v) :
    ∃ out, v.script = .ok out ∧
      (IsNumericLiteral out.toList ↔ ¬Numeral.Overflows tok.text.toList) ∧
      (Numeral.Overflows tok.text.toList → ∃ negative, out.toList = infinity negative) := by
  have hnumeral := Token.isNumeral_of_scan hscan tok hmem hkind
  by_cases h : Numeral.Overflows tok.text.toList
  · obtain ⟨negative, hinfinite⟩ := Numeral.ofNumeral_of_overflows h
    cases hread.symm.trans hinfinite
    refine ⟨_, script_infinite negative, ?_, fun _ => ⟨negative, String.toList_ofList⟩⟩
    rw [String.toList_ofList]
    exact iff_of_false (not_isNumericLiteral_infinity negative) (not_not.2 h)
  · have hfinite := Numeral.isFinite_of_not_overflows hnumeral h hread
    obtain ⟨out, hout, hliteral⟩ := isNumericLiteral_script (Value.isNumber_of_ofNumeral hread)
      hfinite (Value.isWritable_of_ofNumeral hread)
    exact ⟨out, hout, iff_of_true hliteral h, fun hlarge => absurd hlarge h⟩

theorem numeral_written_iff_small :
    ∃ ts v, Token.scan "main.struct" "-٠.00001" = .ok ts ∧
      (⟨.number, "-٠.00001", 1, 1⟩ : Token) ∈ ts ∧ Value.ofNumeral "-٠.00001" = .ok v ∧
      ∃ out, v.script = .ok out ∧
        (IsNumericLiteral out.toList ↔ ¬Numeral.Overflows "-٠.00001".toList) ∧
        (Numeral.Overflows "-٠.00001".toList → ∃ negative, out.toList = infinity negative) := by
  have hscan : Token.scan "main.struct" "-٠.00001" =
      .ok [⟨.number, "-٠.00001", 1, 1⟩, ⟨.eof, "", 1, 9⟩] :=
    toOption_eq_some.1 (by decide +kernel)
  have hread : Value.ofNumeral "-٠.00001" =
      .ok (.real (.finite true ⟨4532020583610935537, by decide⟩)) :=
    toOption_eq_some.1 (by decide +kernel)
  exact ⟨_, _, hscan, List.mem_cons_self, hread,
    numeral_written_iff hscan List.mem_cons_self rfl hread⟩

theorem numeral_written_infinite :
    ∃ text ts tok v, Token.scan "main.struct" text = .ok ts ∧ tok ∈ ts ∧ tok.kind = .number ∧
      Value.ofNumeral tok.text = .ok v ∧ v.script = .ok "inf" ∧ ¬IsNumericLiteral "inf".toList := by
  have hdigits (n : Nat) : Numeral.IsDigits ('1' :: List.replicate n '0') := by
    refine Numeral.isDigits_of_isDigit (List.cons_ne_nil _ _) (List.forall_mem_cons.2 ⟨rfl, ?_⟩)
    intro c hc
    rw [List.eq_of_mem_replicate hc]
    rfl
  -- The digits are made a variable once all that depends on them is computed.
  obtain ⟨ds, hds, hmatch, hlarge⟩ : ∃ ds, Numeral.IsDigits ds ∧
      Token.firstMatch ((ds ++ '.' :: ['5']) ++ []) =
        some (some .number, (ds ++ '.' :: ['5']).length) ∧
      Double.overflow * 10 ^ ['5'].length ≤ digitsValue (ds ++ ['5']) :=
    ⟨'1' :: List.replicate 309 '0', hdigits 309, by decide +kernel, by decide +kernel⟩
  obtain ⟨text, htext⟩ : ∃ text : String, text.toList = ds ++ '.' :: ['5'] :=
    ⟨_, String.toList_ofList⟩
  have hfs : Numeral.IsDigits ['5'] := Numeral.isDigits_of_isDigit (by simp) (by simp)
  have hsign : text.toList = Numeral.sign false ++ (ds ++ '.' :: ['5']) := htext
  have hread := Value.ofNumeral_of_isDigits hds hfs hsign
  rw [Double.ofDecimal_of_le ((Numeral.overflow_le_iff _ _).2 hlarge)] at hread
  have hlexes := Token.Lexes.word hmatch .nil
  rw [List.append_nil, ← htext, String.ofList_toList] at hlexes
  obtain ⟨ts, e, hscan, hts, -⟩ := hlexes.scan (by simp) "main.struct"
  obtain ⟨tok, rfl, htok⟩ := List.map_eq_singleton_iff.1 hts
  obtain ⟨hkind, rfl⟩ := Prod.mk.inj htok
  exact ⟨_, _, tok, _, hscan, List.mem_cons_self, hkind, hread, script_infinite false,
    not_isNumericLiteral_infinity false⟩

end Script

end StructLang
