import StructLang.Diagnostic
import StructLang.Proofs.Number.Decimal
import StructLang.Proofs.Table
import StructLang.Proofs.Text.Escapes

namespace StructLang

open Text

/-- Two texts that no sequence runs out of are the same but for escape sequences. -/
structure Recolored (s t : String) : Prop where
  left : IsWhole s.toList
  right : IsWhole t.toList
  same : stripped s.toList = stripped t.toList

namespace Recolored

theorem refl {s : String} (h : IsWhole s.toList) : Recolored s s := ⟨h, h, rfl⟩

theorem empty : Recolored "" "" := refl (isWhole_of_notMem (by decide))

theorem append {s s' t t' : String} (hs : Recolored s s') (ht : Recolored t t') :
    Recolored (s ++ t) (s' ++ t') where
  left := by
    rw [String.toList_append]
    exact hs.left.append ht.left
  right := by
    rw [String.toList_append]
    exact hs.right.append ht.right
  same := by
    rw [String.toList_append, String.toList_append, hs.left, hs.right, hs.same, ht.same]

variable {α : Type} {f g : α → String} {xs : List α}

theorem join (h : ∀ x ∈ xs, Recolored (f x) (g x)) :
    Recolored (String.join (xs.map f)) (String.join (xs.map g)) := by
  induction xs with
  | nil => exact empty
  | cons x xs ih =>
    rw [List.forall_mem_cons] at h
    rw [List.map_cons, List.map_cons, String.join_cons, String.join_cons]
    exact h.1.append (ih h.2)

theorem intercalate {sep : String} (hsep : IsWhole sep.toList)
    (h : ∀ x ∈ xs, Recolored (f x) (g x)) :
    Recolored (sep.intercalate (xs.map f)) (sep.intercalate (xs.map g)) := by
  induction xs with
  | nil => exact empty
  | cons x xs ih =>
    rw [List.forall_mem_cons] at h
    cases xs with
    | nil => simpa using h.1
    | cons y xs =>
      simp only [List.map_cons, String.intercalate_cons_cons] at ih ⊢
      exact (h.1.append (refl hsep)).append (ih h.2)

end Recolored

theorem stripped_codes (ink : Ink) (t : List Char) :
    stripped (ink.codes.toList ++ t) = stripped t := by
  have hbold := stripped_sequence ['1'] (by decide)
  cases ink with
  | none => rfl
  | bold => exact hbold t
  | red => exact (hbold _).trans (stripped_sequence ['3', '1'] (by decide) t)
  | blue => exact (hbold _).trans (stripped_sequence ['3', '4'] (by decide) t)
  | cyan => exact (hbold _).trans (stripped_sequence ['3', '6'] (by decide) t)

theorem stripped_reset (t : List Char) : stripped ("\x1b[0m".toList ++ t) = stripped t :=
  stripped_sequence ['0'] (by decide) t

theorem Recolored.render {p : Piece} (h : IsWhole p.text.toList) :
    Recolored (p.render true) (p.render false) := by
  have hplain : p.render false = p.text := by simp [Piece.render]
  rw [hplain, Piece.render]
  split
  · obtain ⟨hcodes, hnil⟩ := isWhole_of_erased (stripped_codes p.ink)
    obtain ⟨hreset, hnil'⟩ := isWhole_of_erased stripped_reset
    refine ⟨?_, h, ?_⟩
    · rw [String.toList_append, String.toList_append]
      exact (hcodes.append h).append hreset
    · rw [String.toList_append, String.toList_append, hcodes.append h, hcodes, hnil, hnil',
        List.nil_append, List.append_nil]
  · exact .refl h

def IsUnmarked (s : String) : Prop := stripped s.toList = s.toList

theorem isUnmarked_of_notMem {s : String} (h : escape ∉ s.toList) : IsUnmarked s :=
  stripped_of_notMem h

theorem isUnmarked_append_iff {s t : String} (hs : IsWhole s.toList) :
    IsUnmarked (s ++ t) ↔ IsUnmarked s ∧ IsUnmarked t := by
  rw [IsUnmarked, String.toList_append]
  exact hs.stripped_append_eq_iff t.toList

theorem isUnmarked_join_iff {xs : List String} (h : ∀ x ∈ xs, IsWhole x.toList) :
    IsUnmarked (String.join xs) ↔ ∀ x ∈ xs, IsUnmarked x := by
  induction xs with
  | nil => simp [IsUnmarked]
  | cons x xs ih =>
    rw [List.forall_mem_cons] at h ⊢
    rw [String.join_cons, isUnmarked_append_iff h.1, ih h.2]

theorem isUnmarked_intercalate_iff {sep : String} (hsep : escape ∉ sep.toList) {xs : List String}
    (h : ∀ x ∈ xs, IsWhole x.toList) :
    IsUnmarked (sep.intercalate xs) ↔ ∀ x ∈ xs, IsUnmarked x := by
  induction xs with
  | nil => simp [IsUnmarked]
  | cons x xs ih =>
    rw [List.forall_mem_cons] at h ⊢
    cases xs with
    | nil => simp
    | cons y xs =>
      rw [String.intercalate_cons_cons, String.append_assoc, isUnmarked_append_iff h.1,
        isUnmarked_append_iff (isWhole_of_notMem hsep), ih h.2]
      simp only [isUnmarked_of_notMem hsep, true_and]

namespace Page

def All (P : String → Prop) (page : Page) : Prop := ∀ line ∈ page, ∀ p ∈ line, P p.text

variable {page : Page}

theorem All.mono {P Q : String → Prop} (h : page.All P) (hPQ : ∀ s, P s → Q s) : page.All Q :=
  fun line hline p hp => hPQ p.text (h line hline p hp)

theorem recolored (h : page.All fun s => IsWhole s.toList) :
    Recolored (page.render true) (page.render false) :=
  .intercalate (isWhole_of_notMem (by decide)) fun line hline =>
    .join fun p hp => .render (h line hline p hp)

theorem isUnmarked_render_iff (h : page.All fun s => IsWhole s.toList) :
    IsUnmarked (page.render false) ↔ page.All IsUnmarked := by
  have hplain : Piece.render false = Piece.text := by
    funext p
    simp [Piece.render]
  have hline (line : List Piece) (hline : line ∈ page) :
      ∀ x ∈ line.map Piece.text, IsWhole x.toList :=
    List.forall_mem_map.2 (h line hline)
  rw [Page.render, hplain, isUnmarked_intercalate_iff (by decide)]
  · rw [List.forall_mem_map]
    refine forall₂_congr fun line hmem => ?_
    rw [isUnmarked_join_iff (hline line hmem), List.forall_mem_map]
  · rw [List.forall_mem_map]
    intro line hmem
    have hjoin := (Recolored.join fun p hp => Recolored.render (h line hmem p hp)).right
    rwa [hplain] at hjoin

end Page

theorem escape_notMem_append {s t : String} (hs : escape ∉ s.toList) (ht : escape ∉ t.toList) :
    escape ∉ (s ++ t).toList := by
  rw [String.toList_append, List.mem_append, not_or]
  exact ⟨hs, ht⟩

theorem escape_notMem_toString (n : Int) : escape ∉ (toString n).toList := by
  intro h
  rw [toList_toString_int] at h
  obtain h | h := List.mem_append.1 h
  · split at h
    · exact absurd h (by decide)
    · cases h
  · exact absurd (isDigit_of_mem_decimalDigits h) (by decide)

theorem mem_of_mem_splitAt {sep c : Char} {s w : List Char} (hw : w ∈ splitAt sep s) (hc : c ∈ w) :
    c ∈ s := by
  induction s generalizing w with
  | nil =>
    cases List.mem_singleton.1 hw
    exact hc
  | cons d s ih =>
    obtain ⟨v, vs, hs⟩ := List.exists_cons_of_ne_nil (splitAt_ne_nil sep s)
    rw [splitAt, hs] at hw
    rw [hs] at ih
    split at hw
    · obtain rfl | hw := List.mem_cons.1 hw
      · cases hc
      · exact List.mem_cons_of_mem _ (ih hw hc)
    · obtain rfl | hw := List.mem_cons.1 hw
      · obtain rfl | hc := List.mem_cons.1 hc
        · exact List.mem_cons_self
        · exact List.mem_cons_of_mem _ (ih List.mem_cons_self hc)
      · exact List.mem_cons_of_mem _ (ih (List.mem_cons_of_mem _ hw) hc)

theorem mem_of_mem_given {s : Option String} {t : String} (h : t ∈ given s) : t ∈ s :=
  (Option.filter_eq_some_iff.1 h).1

namespace Diagnostic

/-- The texts that come with the diagnostic have no escape character, but perhaps its code. -/
structure Unescaped (d : Diagnostic) : Prop where
  message : escape ∉ d.message.toList
  file : ∀ l ∈ d.loc, escape ∉ l.file.toList
  help : ∀ t ∈ d.help, escape ∉ t.toList
  note : ∀ t ∈ d.note, escape ∉ t.toList
  label : ∀ t ∈ d.label, escape ∉ t.toList

theorem escape_notMem_blanks (n : Nat) : escape ∉ (blanks n).toList := by
  rw [blanks, String.toList_ofList, List.mem_replicate]
  rintro ⟨-, h⟩
  exact absurd h (by decide)

theorem escape_notMem_sourceLine {source : String} (h : escape ∉ source.toList) (n : Int) :
    escape ∉ sourceLine source n := by
  rw [sourceLine]
  split
  · exact List.not_mem_nil
  · cases hline : (splitAt '\n' source.toList)[(n - 1).toNat]? with
    | none => exact List.not_mem_nil
    | some line => exact fun hmem => h (mem_of_mem_splitAt (List.mem_of_getElem? hline) hmem)

theorem escape_notMem_text {l : Span} (h : escape ∉ l.file.toList) : escape ∉ l.text.toList := by
  have hcolon : escape ∉ ":".toList := by decide
  have hline := escape_notMem_append (escape_notMem_append h hcolon) (escape_notMem_toString l.line)
  exact escape_notMem_append (escape_notMem_append hline hcolon) (escape_notMem_toString l.column)

variable {d : Diagnostic}

theorem Unescaped.remarks (h : d.Unescaped) (gutter : Nat) :
    (d.remarks gutter).All fun s => escape ∉ s.toList := by
  have hmargin := escape_notMem_append (escape_notMem_blanks (gutter + 1)) (t := "= ") (by decide)
  have hbar := escape_notMem_append (escape_notMem_blanks (gutter + 1)) (t := "|") (by decide)
  rw [Diagnostic.remarks]
  dsimp only
  split
  · exact nofun
  · refine List.forall_mem_cons.2 ⟨List.forall_mem_singleton.2 hbar, ?_⟩
    refine List.forall_mem_append.2 ⟨?_, ?_⟩
    · intro line hline
      obtain ⟨t, ht, rfl⟩ := by simpa using hline
      exact List.forall_mem_cons.2 ⟨hmargin, List.forall_mem_cons.2 ⟨by decide,
        List.forall_mem_singleton.2 (h.help t (mem_of_mem_given ht))⟩⟩
    · intro line hline
      obtain ⟨t, ht, rfl⟩ := by simpa using hline
      exact List.forall_mem_cons.2 ⟨hmargin, List.forall_mem_cons.2 ⟨by decide,
        List.forall_mem_singleton.2 (h.note t (mem_of_mem_given ht))⟩⟩

theorem Unescaped.snippet (h : d.Unescaped) {l : Span} (hl : l ∈ d.loc) {source : String}
    (hsource : escape ∉ source.toList) : (d.snippet l source).All fun s => escape ∉ s.toList := by
  have hblanks := escape_notMem_blanks
  have hcarets (n : Nat) : escape ∉ (String.ofList (List.replicate n '^')).toList := by
    rw [String.toList_ofList, List.mem_replicate]
    rintro ⟨-, hcaret⟩
    exact absurd hcaret (by decide)
  have hlabel : escape ∉ (((given d.label).map (" " ++ ·)).getD "").toList := by
    cases ht : given d.label with
    | none => decide
    | some t => exact escape_notMem_append (by decide) (h.label t (mem_of_mem_given ht))
  have hline : escape ∉ (String.ofList (sourceLine source l.line)).toList := by
    rw [String.toList_ofList]
    exact escape_notMem_sourceLine hsource l.line
  rw [Diagnostic.snippet]
  refine List.forall_mem_append.2 ⟨?_, h.remarks _⟩
  simp only [List.forall_mem_cons, List.not_mem_nil, false_imp_iff, implies_true, and_true]
  refine ⟨⟨?_, escape_notMem_text (h.file l hl)⟩, ?_, ⟨?_, hline⟩, ?_, ?_⟩
  · exact escape_notMem_append (hblanks _) (by decide)
  · exact escape_notMem_append (hblanks _) (by decide)
  · exact escape_notMem_append (escape_notMem_toString _) (by decide)
  · exact escape_notMem_append (hblanks _) (by decide)
  · exact escape_notMem_append (escape_notMem_append (hblanks _) (hcarets _)) hlabel

def codeText (d : Diagnostic) : String := ((given d.code).map fun c => "[" ++ c ++ "]").getD ""

theorem Unescaped.exists_page (h : d.Unescaped) {files : Table String}
    (hfiles : ∀ f ∈ files, escape ∉ f.2.toList) :
    ∃ rest : Page, d.page files = headline ("error" ++ d.codeText) d.message :: rest ∧
      rest.All fun s => escape ∉ s.toList := by
  refine ⟨_, rfl, ?_⟩
  have hplace (text : String) (ht : escape ∉ text.toList) :
      Page.All (fun s => escape ∉ s.toList) ([⟨.blue, " --> "⟩, ⟨.none, text⟩] :: d.remarks 1) :=
    List.forall_mem_cons.2 ⟨List.forall_mem_cons.2 ⟨by decide, List.forall_mem_singleton.2 ht⟩,
      h.remarks 1⟩
  split
  · exact hplace _ (by decide)
  · rename_i l hl
    split
    · exact hplace _ (escape_notMem_text (h.file l hl))
    · rename_i source hsource
      exact h.snippet hl (hfiles _ (Table.mem_of_get? hsource))

theorem isWhole_codeText (d : Diagnostic) : IsWhole d.codeText.toList := by
  rw [codeText]
  cases given d.code with
  | none => exact isWhole_of_notMem (by decide)
  | some c =>
    rw [Option.map_some, Option.getD_some, String.toList_append]
    exact isWhole_bracket _

theorem isUnmarked_codeText_iff (d : Diagnostic) :
    IsUnmarked d.codeText ↔ ∀ c ∈ d.code, ¬HasSequence c.toList := by
  have hplain : IsUnmarked "" := isUnmarked_of_notMem (by decide)
  rw [codeText]
  cases hcode : d.code with
  | none => simpa [given] using hplain
  | some c =>
    simp only [Option.mem_def, Option.some.injEq, forall_eq', ← stripped_eq_self_iff]
    by_cases hc : c = ""
    · rw [hc]
      exact iff_of_true hplain stripped_nil
    · have hbracket : stripped (['['] ++ c.toList ++ [']']) =
          ['['] ++ stripped c.toList ++ [']'] := by
        rw [stripped_append_bracket, stripped_append_of_notMem (by decide), stripped_nil]
      have htext : ("[" ++ c ++ "]").toList = ['['] ++ c.toList ++ [']'] := by
        rw [String.toList_append, String.toList_append]
        rfl
      have hgiven : given (some c) = some c := by simp [given, hc]
      rw [hgiven, Option.map_some, Option.getD_some, IsUnmarked, htext, hbracket,
        List.append_left_inj, List.append_right_inj]

theorem Unescaped.page_isWhole (h : d.Unescaped) {files : Table String}
    (hfiles : ∀ f ∈ files, escape ∉ f.2.toList) :
    (d.page files).All fun s => IsWhole s.toList := by
  obtain ⟨rest, hpage, hrest⟩ := h.exists_page hfiles
  have hcode : IsWhole ("error" ++ d.codeText).toList := by
    rw [String.toList_append]
    exact (isWhole_of_notMem (by decide)).append (isWhole_codeText d)
  have hmessage := isWhole_of_notMem (escape_notMem_append (s := ": ") (by decide) h.message)
  rw [hpage]
  refine List.forall_mem_cons.2 ⟨?_, hrest.mono fun _ => isWhole_of_notMem⟩
  exact List.forall_mem_cons.2 ⟨hcode, List.forall_mem_singleton.2 hmessage⟩

theorem Unescaped.page_isUnmarked_iff (h : d.Unescaped) {files : Table String}
    (hfiles : ∀ f ∈ files, escape ∉ f.2.toList) :
    (d.page files).All IsUnmarked ↔ ∀ c ∈ d.code, ¬HasSequence c.toList := by
  obtain ⟨rest, hpage, hrest⟩ := h.exists_page hfiles
  have hmessage := isUnmarked_of_notMem (escape_notMem_append (s := ": ") (by decide) h.message)
  have hcode := isUnmarked_append_iff (s := "error") (t := d.codeText)
    (isWhole_of_notMem (by decide))
  have herror : IsUnmarked "error" := isUnmarked_of_notMem (by decide)
  rw [hpage, Page.All, List.forall_mem_cons, headline, List.forall_mem_cons,
    List.forall_mem_singleton, hcode, isUnmarked_codeText_iff]
  have hbelow : ∀ line ∈ rest, ∀ p ∈ line, IsUnmarked p.text :=
    hrest.mono fun _ => isUnmarked_of_notMem
  simp only [herror, hmessage, true_and, and_true, and_iff_left_iff_imp]
  exact fun _ => hbelow

end Diagnostic

namespace Reporter

structure Unescaped (r : Reporter) : Prop where
  errors : ∀ d ∈ r.errors, d.Unescaped
  files : ∀ f ∈ r.files, escape ∉ f.2.toList

variable {r : Reporter}

theorem escape_notMem_summary (r : Reporter) : r.summary.All fun s => escape ∉ s.toList := by
  have hcount := escape_notMem_toString r.errors.length
  have hplural : escape ∉ (if r.errors.length = 1 then "" else "s").toList := by
    split <;> decide
  have hsummary := escape_notMem_append (escape_notMem_append (escape_notMem_append
    (s := "aborting due to ") (by decide) hcount) (t := " previous error") (by decide)) hplural
  refine List.forall_mem_singleton.2 (List.forall_mem_cons.2 ⟨by decide, ?_⟩)
  exact List.forall_mem_singleton.2 (escape_notMem_append (by decide) hsummary)

def pages (r : Reporter) : List Page := r.errors.map (Diagnostic.page r.files) ++ [r.summary]

theorem renderAll_eq (r : Reporter) (color : Bool) :
    r.renderAll color = "\n\n".intercalate (r.pages.map (Page.render color)) := by
  rw [renderAll, pages, List.map_append, List.map_map]
  rfl

theorem Unescaped.pages_isWhole (h : r.Unescaped) :
    ∀ page ∈ r.pages, page.All fun s => IsWhole s.toList := by
  rw [pages, List.forall_mem_append, List.forall_mem_map, List.forall_mem_singleton]
  exact ⟨fun d hd => (h.errors d hd).page_isWhole h.files,
    (escape_notMem_summary r).mono fun _ => isWhole_of_notMem⟩

theorem Unescaped.recolored (h : r.Unescaped) :
    Recolored (r.renderAll true) (r.renderAll false) := by
  rw [renderAll_eq, renderAll_eq]
  exact .intercalate (isWhole_of_notMem (by decide)) fun page hpage =>
    Page.recolored (h.pages_isWhole page hpage)

theorem Unescaped.isUnmarked_renderAll_iff (h : r.Unescaped) :
    IsUnmarked (r.renderAll false) ↔ ∀ d ∈ r.errors, ∀ c ∈ d.code, ¬HasSequence c.toList := by
  have hwhole := h.pages_isWhole
  have hsummary : r.summary.All IsUnmarked :=
    (escape_notMem_summary r).mono fun _ => isUnmarked_of_notMem
  have hpages : (∀ page ∈ r.pages, IsUnmarked (page.render false)) ↔
      ∀ page ∈ r.pages, page.All IsUnmarked :=
    forall₂_congr fun page hpage => Page.isUnmarked_render_iff (hwhole page hpage)
  rw [renderAll_eq, isUnmarked_intercalate_iff (by decide), List.forall_mem_map, hpages]
  · rw [pages, List.forall_mem_append, List.forall_mem_map, List.forall_mem_singleton]
    simp only [hsummary, and_true]
    exact forall₂_congr fun d hd => (h.errors d hd).page_isUnmarked_iff h.files
  · rw [List.forall_mem_map]
    exact fun page hpage => (Page.recolored (hwhole page hpage)).right

/-- The diagnostics say the same with and without colour, unless a code has a sequence in it. -/
theorem renderAll_uncolored_iff (h : r.Unescaped) :
    stripped (r.renderAll true).toList = (r.renderAll false).toList ↔
      ∀ d ∈ r.errors, ∀ c ∈ d.code, ¬HasSequence c.toList := by
  rw [h.recolored.same]
  exact h.isUnmarked_renderAll_iff

namespace Samples

def bracketed : Reporter where
  files := [("a", "x\n[31m 1;")]
  errors := [
    { message := "m", loc := some ⟨"a", 2, 1, 2, 3⟩, code := some "E1", help := some "h",
      label := some "[0m" },
    { message := "n", loc := some ⟨"b", 7, 1, 0, 0⟩, note := some "k" },
    { message := "" }]

theorem unescaped_bracketed : bracketed.Unescaped where
  errors := by
    simp only [bracketed, List.forall_mem_cons]
    exact ⟨⟨by decide, by decide, by decide, by decide, by decide⟩,
      ⟨by decide, by decide, by decide, by decide, by decide⟩,
      ⟨by decide, by decide, by decide, by decide, by decide⟩, List.forall_mem_nil _⟩
  files := by decide

def coded : Reporter where
  errors := [{ message := "m", code := some "\x1b[1m" }]

theorem unescaped_coded : coded.Unescaped where
  errors := List.forall_mem_singleton.2 ⟨by decide, by decide, by decide, by decide, by decide⟩
  files := nofun

end Samples

open Samples in
theorem renderAll_uncolored_bracketed :
    bracketed.Unescaped ∧
      stripped (bracketed.renderAll true).toList = (bracketed.renderAll false).toList := by
  refine ⟨unescaped_bracketed, (renderAll_uncolored_iff unescaped_bracketed).2 ?_⟩
  have hcode : ∀ d ∈ bracketed.errors, ∀ c ∈ d.code, escape ∉ c.toList := by decide
  intro d hd c hc
  exact stripped_eq_self_iff.1 (stripped_of_notMem (hcode d hd c hc))

open Samples in
theorem renderAll_uncolored_coded :
    coded.Unescaped ∧ stripped (coded.renderAll true).toList ≠ (coded.renderAll false).toList := by
  refine ⟨unescaped_coded, fun h => ?_⟩
  rw [unescaped_coded.recolored.same] at h
  exact unescaped_coded.isUnmarked_renderAll_iff.1 h _ List.mem_cons_self _ rfl
    ⟨[], ['1'], [], rfl, List.all_eq_true.1 (by decide)⟩

end Reporter

end StructLang
