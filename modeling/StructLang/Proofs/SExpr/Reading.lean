import StructLang.Proofs.SExpr.Words
import StructLang.Proofs.Value

/-!
Reading S-expressions. The words are put together on a stack of the lists that are open. A bare
word that begins like a number is one, and it is fractional if it has a point or an exponent. Both
printed forms of an expression read back as it.
-/

namespace StructLang

def Value.isReadable : Value → Bool
  | .int _ | .real (.finite _ _) | .text _ => true
  | _ => false

namespace SExpr

def beginsNumber (s : String) : Bool := (Numeral.takeSign s.toList).2.head?.any Char.isDigit

def ofBare (s : String) : SExpr :=
  if beginsNumber s then
    if s.toList.any fun c => c == '.' || c == 'e' then
      match Numeral.readReal s with
      | .ok d => .atom (.real d)
      | .error _ => .symbol s
    else
      match Numeral.readInt s with
      | .ok n => .atom (.int n)
      | .error _ => .symbol s
  else .symbol s

/-- The innermost open list is the first, and each has its items from the last on. -/
def add? (e : SExpr) : List (List SExpr) → Option (List (List SExpr))
  | [] => none
  | items :: outer => some ((e :: items) :: outer)

section

-- How the texts between quotes are read depends on the writer.
variable (unquote : String → Option String)

def push? (stack : List (List SExpr)) : Word → Option (List (List SExpr))
  | .opening => some ([] :: stack)
  | .closing =>
    match stack with
    | [] => none
    | items :: outer => add? (.list items.reverse) outer
  | .text t => do add? (.atom (.text (← unquote t))) stack
  | .bare s => add? (ofBare s) stack

def read? (text : String) : Option SExpr := do
  match ← (← scan .nothing text.toList).foldlM (push? unquote) [[]] with
  | [[e]] => some e
  | _ => none

def Builds (ws : List Word) (es : List SExpr) : Prop :=
  ∀ items outer, ws.foldlM (push? unquote) (items :: outer) =
    some ((es.reverse ++ items) :: outer)

end

def Writer.ReadBy (w : Writer) (unquote : String → Option String) : Prop :=
  ∀ s t, w (.atom (.text s)) = .ok t → unquote t = some s

variable {w : Writer} {unquote : String → Option String} {ws vs : List Word} {e : SExpr}
  {es fs : List SExpr}

theorem Builds.nil : Builds unquote [] [] := fun _ _ => rfl

theorem Builds.append (h : Builds unquote ws es) (h' : Builds unquote vs fs) :
    Builds unquote (ws ++ vs) (es ++ fs) := by
  intro items outer
  rw [List.foldlM_append, h items outer]
  simpa using h' _ outer

theorem Builds.list (h : Builds unquote ws es) :
    Builds unquote (.opening :: ws ++ [.closing]) [.list es] := by
  intro items outer
  have hopen : push? unquote (items :: outer) .opening = some ([] :: items :: outer) := rfl
  rw [List.cons_append, List.foldlM_cons, hopen, Option.bind_eq_bind, Option.bind_some,
    List.foldlM_append, h [] (items :: outer)]
  simp [push?, add?]

theorem builds_flatten {wss : List (List Word)}
    (h : List.Forall₂ (fun e ws => Builds unquote ws [e]) es wss) :
    Builds unquote wss.flatten es := by
  induction h with
  | nil => exact .nil
  | cons h _ ih => exact h.append ih

theorem read?_of_builds {text : String} (hreads : Reads text.toList ws)
    (hbuilds : Builds unquote ws [e]) : read? unquote text = some e := by
  rw [read?, hreads.scan_eq]
  simp [hbuilds [] []]

theorem builds_text {s t : String} (h : unquote t = some s) :
    Builds unquote [.text t] [.atom (.text s)] := by
  intro items outer
  simp [push?, add?, h]

theorem builds_bare {s : String} (h : ofBare s = e) : Builds unquote [.bare s] [e] := by
  intro items outer
  simp [push?, add?, h]

theorem beginsNumber_of_isDigit {s : String} {negative : Bool} {ds rest : List Char}
    (hne : ds ≠ []) (hds : ∀ c ∈ ds, c.isDigit)
    (hs : s.toList = Numeral.sign negative ++ (ds ++ rest)) : beginsNumber s := by
  rw [beginsNumber, hs, Numeral.takeSign_sign (Numeral.isDigits_of_isDigit hne hds)]
  obtain ⟨d, ds, rfl⟩ := List.exists_cons_of_ne_nil hne
  simpa using hds d List.mem_cons_self

theorem ofBare_toString {n : Int} (h : Numeral.isShort n) :
    ofBare (toString n) = .atom (.int n) := by
  have htext : (toString n).toList = Numeral.sign (decide (n < 0)) ++ (decimalDigits n ++ []) := by
    rw [List.append_nil, Numeral.toList_toString_eq_sign]
  have hdigits : ∀ c ∈ decimalDigits n, c.isDigit := fun c => isDigit_of_mem_decimalDigits
  have hnumber := beginsNumber_of_isDigit (decimalDigits_ne_nil n) hdigits htext
  have hwhole : (toString n).toList.any (fun c => c == '.' || c == 'e') = false := by
    rw [htext, List.append_nil, List.any_append, Bool.or_eq_false_iff]
    constructor
    · cases decide (n < 0) <;> rfl
    · rw [List.any_eq_false]
      intro c hc hmark
      have hdigit := hdigits c hc
      simp only [Bool.or_eq_true, beq_iff_eq] at hmark
      obtain rfl | rfl := hmark <;> cases hdigit
  rw [Numeral.isShort, decide_eq_true_eq] at h
  rw [ofBare, if_pos hnumber, hwhole, if_neg Bool.false_ne_true, Numeral.readInt_toString h]

theorem ofBare_text (negative : Bool) (rank : Fin Double.rankCount) :
    ofBare (Double.finite negative rank).text = .atom (.real (.finite negative rank)) := by
  obtain ⟨q, -, hspelled⟩ := Double.spelled_magnitudeChars rank
  obtain ⟨ds, rest, hm, hne, hds⟩ := hspelled.exists_digits
  have htext := Numeral.toList_text negative rank
  have hnumber : beginsNumber (Double.finite negative rank).text :=
    beginsNumber_of_isDigit hne hds (by rw [htext, hm])
  have hmark : (Double.finite negative rank).text.toList.any fun c => c == '.' || c == 'e' := by
    rw [htext, List.any_append, hspelled.any_mark, Bool.or_true]
  rw [ofBare, if_pos hnumber, if_pos hmark, Numeral.readReal_text]

/-- The symbol is one word without special characters and is not taken for a number. -/
structure IsSymbol (s : String) : Prop extends IsWord s where
  plain : s.toList.all isPlain
  beginsNumber_eq : beginsNumber s = false

abbrev IsPlain (e : SExpr) : Prop := Built (fun v => v.isReadable) IsSymbol e

theorem isPlain_cons {s : String} (hs : IsSymbol s) (h : ∀ e ∈ es, e.IsPlain) :
    (SExpr.list (.symbol s :: es)).IsPlain :=
  .list (List.forall_mem_cons.2 ⟨.symbol hs, h⟩)

theorem builds_atom (hw : w.ReadBy unquote) {v : Value} (hv : v.isReadable)
    (hws : atomWords w v = .ok ws) : Builds unquote ws [.atom v] := by
  cases v with
  | int n =>
    obtain ⟨t, ht, hws⟩ := bind_eq_ok.1 hws
    cases hws
    have hshort := ((decimalText_settles n).of_ok ht).1
    have htext := ht.symm.trans (decimalText_of_isShort hshort)
    cases htext
    exact builds_bare (ofBare_toString hshort)
  | real d =>
    cases d with
    | finite negative rank =>
      cases hws
      exact builds_bare (ofBare_text negative rank)
    | infinite => cases hv
    | nan => cases hv
  | text s =>
    obtain ⟨t, ht, hws⟩ := bind_eq_ok.1 hws
    cases hws
    exact builds_text (hw s t ht)
  | null => cases hv
  | bool => cases hv

namespace IsPlain

theorem builds (hw : w.ReadBy unquote) (h : e.IsPlain) (hws : e.words w = .ok ws) :
    Builds unquote ws [e] := by
  induction h generalizing ws with
  | atom hv => exact builds_atom hw hv hws
  | symbol hs =>
    cases hws
    exact builds_bare (by rw [ofBare, hs.beginsNumber_eq, if_neg Bool.false_ne_true])
  | list _ ih =>
    rw [words, wordsAll_eq_mapM] at hws
    obtain ⟨wss, hwss, hws⟩ := bind_eq_ok.1 hws
    cases hws
    exact (builds_flatten (forall₂_mapM (fun e he ws => ih e he) hwss)).list

theorem pretty_alike {l : Layout} (hw : w.Lawful) (hl : l.IsBlank) (h : e.IsPlain) (level : Int) :
    Alike (fun t ws => Reads t.toList ws) (e.pretty w l level) (e.words w) :=
  SExpr.pretty_alike hw hl (h.mono (fun _ _ => trivial) fun _ hs => hs.toIsWord) level

theorem write_alike (hw : w.Lawful) (h : e.IsPlain) :
    Alike (fun t ws => Reads t.toList ws) (w e) (e.words w) := by
  refine hw.write_alike (h.mono (fun v hv => ?_) fun s hs =>
    ⟨hs.toIsWord, hw.symbol s hs.ne_nil hs.plain⟩)
  cases v with
  | int | real | text => rfl
  | null | bool => cases hv

theorem read?_pretty {l : Layout} (hw : w.Lawful) (hread : w.ReadBy unquote) (hl : l.IsBlank)
    (h : e.IsPlain) {level : Int} {text : String} (ht : e.pretty w l level = .ok text) :
    read? unquote text = some e := by
  obtain ⟨ws, hws, hreads⟩ := (h.pretty_alike hw hl level).exists_right ht
  exact read?_of_builds hreads (h.builds hread hws)

theorem read?_write (hw : w.Lawful) (hread : w.ReadBy unquote) (h : e.IsPlain) {text : String}
    (ht : w e = .ok text) : read? unquote text = some e := by
  obtain ⟨ws, hws, hreads⟩ := (h.write_alike hw).exists_right ht
  exact read?_of_builds hreads (h.builds hread hws)

end IsPlain

abbrev IsWritable (e : SExpr) : Prop := Built (fun v => v.isWritable) (fun _ => True) e

theorem IsWritable.words_yields (hw : w.Lawful) (h : e.IsWritable) :
    Yields (e.words w) (fun _ => True) fun _ => False := by
  induction h with
  | @atom v hv =>
    rw [words, atomWords.eq_def]
    split
    · exact .ok trivial
    · exact .ok trivial
    · rename_i s
      obtain ⟨t, ht, -⟩ := hw.text s
      rw [ht]
      exact .ok trivial
    · have hlisting : Yields v.listing (fun _ => True) fun _ => False :=
        v.listing_settles.mono (fun _ _ => trivial) fun _ he => he.1 hv
      exact hlisting.bind fun _ _ => .ok trivial
  | symbol _ => exact .ok trivial
  | list _ ih =>
    rw [words, wordsAll_eq_mapM]
    exact (Yields.mapM ih).bind fun _ _ => .ok trivial

theorem IsWritable.exists_words (hw : w.Lawful) (h : e.IsWritable) :
    ∃ ws, e.words w = .ok ws := by
  cases hws : e.words w with
  | ok ws => exact ⟨ws, rfl⟩
  | error _ => exact ((h.words_yields hw).of_error hws).elim

end SExpr

end StructLang
