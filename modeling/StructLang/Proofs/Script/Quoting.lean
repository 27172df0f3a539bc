import StructLang.Proofs.Script.Spelling
import StructLang.Script.Module
import StructLang.ThreeAddress

namespace StructLang

namespace Script

def isHighSurrogate (u : Nat) : Bool := 0xD800 ≤ u && u < 0xDC00

def isLowSurrogate (u : Nat) : Bool := 0xDC00 ≤ u && u < 0xE000

def joinSurrogates (high low : Nat) : Char :=
  Char.ofNat (0x10000 + (high - 0xD800) * 0x400 + (low - 0xDC00))

/-- The characters that sixteen-bit units make. A surrogate is no character without its other
half. -/
def joinUnits : List Nat → Option (List Char)
  | [] => some []
  | [u] => if isHighSurrogate u || isLowSurrogate u then none else some [Char.ofNat u]
  | u :: v :: us =>
    if isHighSurrogate u && isLowSurrogate v then (joinSurrogates u v :: ·) <$> joinUnits us
    else if isHighSurrogate u || isLowSurrogate u then none
    else (Char.ofNat u :: ·) <$> joinUnits (v :: us)

def literal? (text : String) : Option String :=
  match word? text.toList with
  | some (.string us, []) => (joinUnits us).map String.ofList
  | _ => none

theorem toNat_bounds (c : Char) :
    c.toNat < 0xD800 ∨ 0xDFFF < c.toNat ∧ c.toNat < 0x110000 := c.valid

theorem joinUnits_of_lt {u : Nat} (h : isHighSurrogate u = false) (h' : isLowSurrogate u = false)
    (us : List Nat) : joinUnits (u :: us) = (Char.ofNat u :: ·) <$> joinUnits us := by
  cases us <;> simp [joinUnits, h, h']

theorem joinUnits_units16 (c : Char) (us : List Nat) :
    joinUnits (units16 c ++ us) = (c :: ·) <$> joinUnits us := by
  have hc := toNat_bounds c
  rw [units16]
  split
  · have hhigh : isHighSurrogate c.toNat = false := by
      simp only [isHighSurrogate, Bool.and_eq_false_iff, decide_eq_false_iff_not]
      omega
    have hlow : isLowSurrogate c.toNat = false := by
      simp only [isLowSurrogate, Bool.and_eq_false_iff, decide_eq_false_iff_not]
      omega
    rw [List.singleton_append, joinUnits_of_lt hhigh hlow, Char.ofNat_toNat]
  · have hhigh : isHighSurrogate (0xD800 + (c.toNat - 0x10000) / 0x400) := by
      simp only [isHighSurrogate, Bool.and_eq_true, decide_eq_true_eq]
      omega
    have hlow : isLowSurrogate (0xDC00 + (c.toNat - 0x10000) % 0x400) := by
      simp only [isLowSurrogate, Bool.and_eq_true, decide_eq_true_eq]
      omega
    have hjoin : joinSurrogates (0xD800 + (c.toNat - 0x10000) / 0x400)
        (0xDC00 + (c.toNat - 0x10000) % 0x400) = c := by
      rw [joinSurrogates, show 0x10000 + (0xD800 + (c.toNat - 0x10000) / 0x400 - 0xD800) * 0x400 +
        (0xDC00 + (c.toNat - 0x10000) % 0x400 - 0xDC00) = c.toNat by omega, Char.ofNat_toNat]
    rw [List.cons_append, List.cons_append, List.nil_append, joinUnits, hhigh, hlow, hjoin]
    rfl

theorem joinUnits_flatMap_units16 (s : List Char) : joinUnits (s.flatMap units16) = some s := by
  induction s with
  | nil => rfl
  | cons c s ih =>
    rw [List.flatMap_cons, joinUnits_units16, ih]
    rfl

theorem literal?_encode (s : String) : literal? (Text.Ascii.encode s) = some s := by
  have hword := word?_encodeChars s.toList []
  rw [List.append_nil] at hword
  rw [literal?, Text.Ascii.encode, String.toList_ofList, hword]
  simp [joinUnits_flatMap_units16]

end Script

namespace Text.Ascii

open Script

def IsPrintable (c : Char) : Prop := 0x20 ≤ c.toNat ∧ c.toNat ≤ 0x7E

theorem plain_of_mem_hex {width n : Nat} {c : Char} (h : c ∈ hex width n) :
    IsPrintable c ∧ c ≠ '"' ∧ c ≠ '\\' := by
  have hdigits : ∀ k < 16, (0x20 ≤ (hexDigit k).toNat ∧ (hexDigit k).toNat ≤ 0x7E) ∧
      hexDigit k ≠ '"' ∧ hexDigit k ≠ '\\' := by decide
  induction width with
  | zero => cases h
  | succ w ih =>
    rw [hex] at h
    obtain rfl | h := List.mem_cons.1 h
    · exact hdigits _ (Nat.mod_lt _ (by decide))
    · exact ih h

theorem printable_of_mem_unitEscape {n : Nat} {c : Char} (h : c ∈ unitEscape n) :
    IsPrintable c := by
  simp only [unitEscape, List.mem_cons] at h
  obtain rfl | rfl | h := h
  · exact ⟨by decide, by decide⟩
  · exact ⟨by decide, by decide⟩
  · exact (plain_of_mem_hex h).1

theorem printable_of_mem_escape {c d : Char} (h : d ∈ escape c) : IsPrintable d := by
  have hpair {a : Char} (ha : IsPrintable a) (h : d ∈ ['\\', a]) : IsPrintable d := by
    obtain rfl | rfl := by simpa using h
    · exact ⟨by decide, by decide⟩
    · exact ha
  unfold escape at h
  split_ifs at h with hmarks hline hreturn htab hback hfeed hplain hbasic
  · refine hpair ?_ h
    obtain rfl | rfl := hmarks <;> exact ⟨by decide, by decide⟩
  · exact hpair ⟨by decide, by decide⟩ h
  · exact hpair ⟨by decide, by decide⟩ h
  · exact hpair ⟨by decide, by decide⟩ h
  · exact hpair ⟨by decide, by decide⟩ h
  · exact hpair ⟨by decide, by decide⟩ h
  · rw [List.mem_singleton.1 h]
    exact hplain
  · exact printable_of_mem_unitEscape h
  · obtain h | h := List.mem_append.1 h <;> exact printable_of_mem_unitEscape h

theorem isQuotable_unitEscape (n : Nat) {s : List Char} (h : IsQuotable s) :
    IsQuotable (unitEscape n ++ s) := by
  refine .escaped ?_
  have hplain (c : Char) (hc : c ∈ hex 4 n) := (plain_of_mem_hex hc).2
  generalize hex 4 n = x at hplain
  induction x with
  | nil => exact h
  | cons c x ih =>
    rw [List.forall_mem_cons] at hplain
    exact .plain hplain.1.1 hplain.1.2 (ih hplain.2)

theorem isQuotable_escape (c : Char) {s : List Char} (h : IsQuotable s) :
    IsQuotable (escape c ++ s) := by
  unfold escape
  split_ifs with hmarks
  iterate 6 · exact .escaped h
  · exact .plain (fun hc => hmarks (.inl hc)) (fun hc => hmarks (.inr hc)) h
  · exact isQuotable_unitEscape _ h
  · rw [List.append_assoc]
    exact isQuotable_unitEscape _ (isQuotable_unitEscape _ h)

theorem isQuotable_flatMap_escape (s : List Char) : IsQuotable (s.flatMap escape) := by
  induction s with
  | nil => exact .nil
  | cons c s ih => exact isQuotable_escape c ih

theorem toList_encode (s : String) :
    (encode s).toList = '"' :: (s.toList.flatMap escape ++ ['"']) := by
  rw [encode, String.toList_ofList, encodeChars, List.cons_append]

theorem printable_of_mem_encode {s : String} {c : Char} (h : c ∈ (encode s).toList) :
    IsPrintable c := by
  rw [toList_encode] at h
  simp only [List.mem_cons, List.mem_append, List.mem_flatMap, List.not_mem_nil, or_false] at h
  obtain rfl | ⟨d, _, h⟩ | rfl := h
  · exact ⟨by decide, by decide⟩
  · exact printable_of_mem_escape h
  · exact ⟨by decide, by decide⟩

theorem encode_inj {s s' : String} : encode s' = encode s ↔ s' = s := by
  constructor
  · intro h
    have hread := literal?_encode s'
    rw [h, literal?_encode s] at hread
    exact (Option.some.inj hread).symm
  · rintro rfl
    rfl

end Text.Ascii

namespace Script

open Text Text.Ascii

/-- A string has one text, as a literal of a script or of three-address code and as the path of the
runtime library. It is printable ASCII between quotes that nothing in it closes, reads back as the
string, and is the text of no other string. -/
theorem script_text_quoted (s : String) (type : Ty) (place : Option Span) (m : Module) :
    ∃ t body : String, (Code.literal (.text s) type place).script = .ok t ∧
      (ThreeAddress.run (.literal (.text s) type place)).1 = .ok (.literal (.text s) t) ∧
      ("const " ++ m.binding ++ " = require(" ++ t ++ ");" ∈
        Module.lines { m with runtime := some s }) ∧
      t.toList = '"' :: (body.toList ++ ['"']) ∧ IsQuotable body.toList ∧
      (∀ c ∈ t.toList, 0x20 ≤ c.toNat ∧ c.toNat ≤ 0x7E) ∧
      literal? t = some s ∧
      (∀ s' type' place', (Code.literal (.text s') type' place').script = .ok t ↔ s' = s) ∧
      ∀ s', runtimeText (some s') = t ↔ s' = s := by
  refine ⟨encode s, String.ofList (s.toList.flatMap escape), rfl, rfl, ?_, ?_, ?_, ?_,
    literal?_encode s, fun s' _ _ => ?_, fun s' => encode_inj⟩
  · rw [Module.lines, runtimeText]
    simp
  · rw [toList_encode, String.toList_ofList]
  · rw [String.toList_ofList]
    exact isQuotable_flatMap_escape _
  · exact fun c => printable_of_mem_encode
  · rw [← encode_inj]
    exact ⟨Except.ok.inj, congrArg Except.ok⟩

end Script

end StructLang
