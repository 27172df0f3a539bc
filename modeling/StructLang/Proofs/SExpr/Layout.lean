import StructLang.Proofs.SExpr.Compact

namespace StructLang

namespace SExpr

def Word.spelling : Word → List Char
  | .opening => ['(']
  | .closing => [')']
  | .text t | .bare t => t.toList

/-- The text is these words as they are spelled, each on one line, and nothing but white space
before, between and after them. -/
inductive Laid : List Word → List Char → Prop
  | nil : Laid [] []
  | blank : Text.isBlank c → Laid ws x → Laid ws (c :: x)
  | word : '\n' ∉ w.spelling → Laid ws x → Laid (w :: ws) (w.spelling ++ x)

variable {w : Writer} {x y : List Char} {ws vs : List Word}

theorem Laid.append (hx : Laid ws x) (hy : Laid vs y) : Laid (ws ++ vs) (x ++ y) := by
  induction hx with
  | nil => exact hy
  | blank hc _ ih => exact .blank hc ih
  | word hw _ ih =>
    rw [List.append_assoc]
    exact .word hw ih

theorem Laid.blanks {cs : List Char} (hcs : ∀ c ∈ cs, Text.isBlank c) (h : Laid ws x) :
    Laid ws (cs ++ x) := by
  induction cs with
  | nil => exact h
  | cons c cs ih =>
    rw [List.forall_mem_cons] at hcs
    exact .blank hcs.1 (ih hcs.2)

theorem laid_word {w : Word} (h : '\n' ∉ w.spelling) : Laid [w] w.spelling := by
  have hw := Laid.word h .nil
  rwa [List.append_nil] at hw

theorem Laid.parens (h : Laid ws x) : Laid (.opening :: ws ++ [.closing]) ('(' :: (x ++ [')'])) :=
  .word (w := .opening) (by decide) (h.append (laid_word (w := .closing) (by decide)))

theorem IsWord.line_notMem {s : String} (h : IsWord s) : '\n' ∉ s.toList := by
  intro hmem
  exact absurd (h.bare _ hmem) (by decide)

theorem Written.laid {t : String} (h : Written t ws) : Laid ws t.toList := by
  cases h with
  | empty => exact Laid.nil.parens
  | text h => exact laid_word (w := .text _) h.line_notMem
  | bare h => exact laid_word (w := .bare _) h.line_notMem

variable {ts : List String} {wss : List (List Word)}

theorem laid_intercalate {sep : String} (hsep : ∀ c ∈ sep.toList, Text.isBlank c)
    (h : List.Forall₂ (fun t ws => Laid ws t.toList) ts wss) :
    Laid wss.flatten (sep.intercalate ts).toList := by
  rw [String.toList_intercalate]
  induction h with
  | nil => exact .nil
  | @cons t ws ts wss ht hts ih =>
    cases hts with
    | nil => simpa using ht
    | cons _ _ =>
      rw [List.map_cons, List.map_cons, List.intercalate_cons_cons, List.append_assoc,
        List.flatten_cons]
      exact ht.append (ih.blanks hsep)

theorem isBlank_line : ∀ c ∈ "\n".toList, Text.isBlank c := List.all_eq_true.1 (by decide)

theorem isBlank_space : ∀ c ∈ " ".toList, Text.isBlank c := List.all_eq_true.1 (by decide)

theorem laid_broken {first rest indent : String} (hfirst : Laid ws first.toList)
    (hrest : Laid vs rest.toList) (hindent : ∀ c ∈ indent.toList, Text.isBlank c) :
    Laid (.opening :: (ws ++ vs) ++ [.closing])
      ("(" ++ first ++ (if rest = "" then "" else "\n" ++ rest) ++ "\n" ++ indent ++
        ")").toList := by
  have hlines : Laid vs (if rest = "" then "" else "\n" ++ rest).toList := by
    split
    · rename_i hempty
      rwa [hempty] at hrest
    · rw [String.toList_append]
      exact hrest.blanks isBlank_line
  have hend : Laid [] ("\n".toList ++ (indent.toList ++ [])) :=
    (Laid.nil.blanks hindent).blanks isBlank_line
  have hparens := (hfirst.append (hlines.append hend)).parens
  simpa [String.toList_append] using hparens

theorem laid_arrange {l : Layout} (hl : l.IsBlank) (level : Int)
    (h : List.Forall₂ (fun t ws => Laid ws t.toList) ts wss) :
    Laid (.opening :: wss.flatten ++ [.closing]) (l.arrange level ts).toList := by
  cases h with
  | nil => simpa [Layout.arrange] using Laid.nil.parens
  | @cons t ws ts wss ht hts =>
    rw [Layout.arrange]
    dsimp only
    split
    · have hparens := (laid_intercalate isBlank_space (.cons ht hts)).parens
      simpa [parenthesize] using hparens
    · have hindented : List.Forall₂ (fun t ws => Laid ws t.toList)
          (ts.map (l.indent (level + 1) ++ ·)) wss := by
        refine List.forall₂_map_left_iff.2 (hts.imp fun t ws ht => ?_)
        rw [String.toList_append]
        exact ht.blanks (hl.indent (level + 1))
      exact laid_broken ht (laid_intercalate isBlank_line hindented) (hl.indent level)

theorem pretty_laid {l : Layout} (hw : w.Lawful) (hl : l.IsBlank) {e : SExpr}
    (h : Built (fun _ => True) IsWord e) (level : Int) :
    Alike (fun t ws => Laid ws t.toList) (e.pretty w l level) (e.words w) :=
  pretty_alike_of hw (fun _ _ => Written.laid) (fun _ _ _ => laid_arrange hl _) h level

section

variable (w : Writer)

mutual

def oneLine : SExpr → Except Fault String
  | .atom v => prettyAtom w v
  | .symbol s => .ok s
  | .list items => do return parenthesize (← oneLineAll items)

def oneLineAll : List SExpr → Except Fault (List String)
  | [] => .ok []
  | e :: es => do return (← e.oneLine) :: (← oneLineAll es)

end

theorem oneLineAll_eq_mapM (es : List SExpr) : oneLineAll w es = es.mapM (oneLine w) := by
  induction es with
  | nil => rfl
  | cons e es ih => rw [oneLineAll, ih, List.mapM_cons]

end

def items : SExpr → List SExpr
  | .list es => es
  | _ => []

def IsLong (l : Layout) (e : SExpr) (line : String) : Prop := e.items ≠ [] ∧ l.width < line.length

structure Fits (l : Layout) (e : SExpr) (text line : String) : Prop where
  line_notMem : '\n' ∉ line.toList
  broken : e.IsLong l line → '\n' ∈ text.toList
  eq_line : ¬e.IsLong l line → text = line

theorem Fits.mem_iff {l : Layout} {e : SExpr} {text line : String} (h : Fits l e text line) :
    '\n' ∈ text.toList ↔ e.IsLong l line := by
  refine ⟨fun hmem => ?_, h.broken⟩
  by_contra hlong
  exact h.line_notMem (h.eq_line hlong ▸ hmem)

theorem Written.line_notMem {t : String} (h : Written t ws) : '\n' ∉ t.toList := by
  cases h with
  | empty => decide
  | text h => exact h.line_notMem
  | bare h => exact h.line_notMem

theorem infix_intercalate {sep w : List Char} {ws : List (List Char)} (h : w ∈ ws) :
    w <:+: sep.intercalate ws := by
  induction ws with
  | nil => cases h
  | cons v ws ih =>
    cases ws with
    | nil =>
      cases List.mem_singleton.1 h
      simp
    | cons u ws =>
      rw [List.intercalate_cons_cons]
      obtain rfl | h := List.mem_cons.1 h
      · exact (List.prefix_append_of_prefix (List.prefix_append w sep)).isInfix
      · exact (ih h).trans (List.suffix_append _ _).isInfix

theorem infix_parenthesize {t : String} {ts : List String} (h : t ∈ ts) :
    t.toList <:+: (parenthesize ts).toList := by
  rw [parenthesize, String.toList_append, String.toList_append, String.toList_intercalate]
  exact (infix_intercalate (List.mem_map_of_mem h)).trans (List.infix_append _ _ _)

theorem mem_intercalate {c : Char} {sep : List Char} {ws : List (List Char)}
    (h : c ∈ sep.intercalate ws) : c ∈ sep ∨ ∃ w ∈ ws, c ∈ w := by
  induction ws with
  | nil => simp at h
  | cons v ws ih =>
    cases ws with
    | nil => exact .inr ⟨v, by simp, by simpa using h⟩
    | cons u ws =>
      rw [List.intercalate_cons_cons, List.append_assoc, List.mem_append, List.mem_append] at h
      obtain h | h | h := h
      · exact .inr ⟨v, List.mem_cons_self, h⟩
      · exact .inl h
      · exact (ih h).imp_right fun ⟨w, hw, hc⟩ => ⟨w, List.mem_cons_of_mem _ hw, hc⟩

theorem line_notMem_parenthesize {ts : List String} (h : ∀ t ∈ ts, '\n' ∉ t.toList) :
    '\n' ∉ (parenthesize ts).toList := by
  rw [parenthesize, String.toList_append, String.toList_append, String.toList_intercalate]
  intro hmem
  obtain hsep | ⟨w, hw, hline⟩ : '\n' ∈ " ".toList ∨ ∃ w ∈ ts.map String.toList, '\n' ∈ w :=
    mem_intercalate (by simpa using hmem)
  · exact absurd hsep (by decide)
  · obtain ⟨t, ht, rfl⟩ := List.mem_map.1 hw
    exact h t ht hline

theorem fits_parts {l : Layout} {ts ls : List String}
    (h : List.Forall₂ (fun t line => ∃ e, Fits l e t line) ts ls) :
    (∀ line ∈ ls, '\n' ∉ line.toList) ∧
      (ts = ls ∨ (∃ t ∈ ts, '\n' ∈ t.toList) ∧ ∃ line ∈ ls, l.width < line.length) := by
  induction h with
  | nil => simp
  | @cons t line ts ls hfits _ ih =>
    obtain ⟨e, hfits⟩ := hfits
    refine ⟨List.forall_mem_cons.2 ⟨hfits.line_notMem, ih.1⟩, ?_⟩
    by_cases hlong : e.IsLong l line
    · exact .inr ⟨⟨t, List.mem_cons_self, hfits.broken hlong⟩, line, List.mem_cons_self, hlong.2⟩
    · obtain rfl | ⟨⟨u, hu, hbroken⟩, line', hline', hwide⟩ := ih.2
      · exact .inl (by rw [hfits.eq_line hlong])
      · exact .inr ⟨⟨u, List.mem_cons_of_mem _ hu, hbroken⟩, line', List.mem_cons_of_mem _ hline',
          hwide⟩

theorem fits_arrange {l : Layout} (level : Int) {e : SExpr} {es : List SExpr} {ts ls : List String}
    (hne : ts ≠ []) (h : List.Forall₂ (fun t line => ∃ e, Fits l e t line) ts ls) :
    Fits l (.list (e :: es)) (l.arrange level ts) (parenthesize ls) := by
  obtain ⟨hlines, hparts⟩ := fits_parts h
  have hline := line_notMem_parenthesize hlines
  obtain ⟨t, ts, rfl⟩ := List.exists_cons_of_ne_nil hne
  obtain rfl | ⟨⟨u, hu, hbroken⟩, line, hmem, hwide⟩ := hparts
  · refine ⟨hline, fun hlong => ?_, fun hshort => ?_⟩
    · have hlt := hlong.2
      rw [Layout.arrange]
      dsimp only
      rw [if_neg (by omega)]
      simp
    · have hle : (parenthesize (t :: ts)).length ≤ l.width := by
        by_contra hlt
        exact hshort ⟨by simp [items], by omega⟩
      rw [Layout.arrange]
      dsimp only
      rw [if_pos ⟨hle, by simpa using hline⟩]
  · have hlt : l.width < (parenthesize ls).length := by
      have hle := (infix_parenthesize hmem).length_le
      rw [String.length_toList, String.length_toList] at hle
      omega
    have hmark : '\n' ∈ (parenthesize (t :: ts)).toList := (infix_parenthesize hu).subset hbroken
    refine ⟨hline, fun _ => ?_, fun hshort => absurd ⟨by simp [items], hlt⟩ hshort⟩
    rw [Layout.arrange]
    dsimp only
    rw [if_neg (by simp [hmark])]
    simp

/-- Whether an expression is broken depends on its line alone, and not on where it stands. -/
theorem pretty_fits {l : Layout} (hw : w.Lawful) {e : SExpr} (h : Built (fun _ => True) IsWord e)
    (level : Int) : Alike (Fits l e) (e.pretty w l level) (e.oneLine w) := by
  induction h generalizing level with
  | @atom v _ =>
    rw [pretty, oneLine]
    have hatom := prettyAtom_alike hw v
    cases hv : prettyAtom w v with
    | ok t =>
      obtain ⟨ws, -, hwritten⟩ := hatom.exists_right hv
      exact .ok ⟨hwritten.line_notMem, fun hlong => absurd rfl hlong.1, fun _ => rfl⟩
    | error e => exact .error
  | symbol hs => exact .ok ⟨hs.line_notMem, fun hlong => absurd rfl hlong.1, fun _ => rfl⟩
  | @list es _ ih =>
    have hparts (e : SExpr) (he : e ∈ es) : Alike (fun t line => ∃ e, Fits l e t line)
        (e.pretty w l (level + 1)) (e.oneLine w) :=
      (ih e he (level + 1)).mono fun _ _ hfits => ⟨e, hfits⟩
    rw [pretty, oneLine]
    cases es with
    | nil => exact .ok ⟨by decide, fun hlong => absurd rfl hlong.1, fun _ => rfl⟩
    | cons e es =>
      rw [List.forall_mem_cons] at hparts
      rw [prettyAll, oneLineAll, prettyAll_eq_mapM, oneLineAll_eq_mapM]
      have hall : Alike (fun ts ls => ts ≠ [] ∧
          List.Forall₂ (fun t line => ∃ e, Fits l e t line) ts ls)
          (do return (← e.pretty w l (level + 1)) :: (← es.mapM (pretty w l (level + 1))))
          (do return (← e.oneLine w) :: (← es.mapM (oneLine w))) :=
        hparts.1.bind fun t line ht => (Alike.mapM hparts.2).bind fun ts ls hts =>
          .ok ⟨List.cons_ne_nil t ts, .cons ht hts⟩
      exact hall.bind fun ts ls h => .ok (fits_arrange level h.1 h.2)

theorem exists_layout_oneLine (hw : w.Lawful) {e : SExpr} (h : Built (fun _ => True) IsWord e) :
    ∃ l : Layout, l.IsBlank ∧ e.pretty w l 0 = e.oneLine w := by
  cases hline : e.oneLine w with
  | error f =>
    refine ⟨⟨"", 0⟩, by simp [Layout.IsBlank], ?_⟩
    have halike := pretty_fits (l := ⟨"", 0⟩) hw h 0
    rw [hline] at halike
    generalize e.pretty w ⟨"", 0⟩ 0 = x at halike ⊢
    cases halike
    rfl
  | ok line =>
    refine ⟨⟨"", line.length⟩, by simp [Layout.IsBlank], ?_⟩
    obtain ⟨text, htext, hfits⟩ := (pretty_fits (l := ⟨"", line.length⟩) hw h 0).exists_left hline
    rw [htext, hfits.eq_line fun hlong => absurd hlong.2 (lt_irrefl _)]

inductive Within (inner : SExpr) : SExpr → Prop
  | refl : Within inner inner
  | item : e ∈ es → Within inner e → Within inner (.list es)

theorem Within.built {A : Value → Prop} {S : String → Prop} {inner e : SExpr}
    (h : Within inner e) (he : Built A S e) : Built A S inner := by
  induction h with
  | refl => exact he
  | item hmem _ ih =>
    cases he with
    | list hes => exact ih (hes _ hmem)

theorem Within.infix {inner e : SExpr} (h : Within inner e) {line : String}
    (hline : e.oneLine w = .ok line) :
    ∃ part, inner.oneLine w = .ok part ∧ part.toList <:+: line.toList := by
  induction h generalizing line with
  | refl => exact ⟨line, hline, List.infix_rfl⟩
  | item hmem _ ih =>
    rw [oneLine, oneLineAll_eq_mapM] at hline
    obtain ⟨ls, hls, hline⟩ := bind_eq_ok.1 hline
    cases hline
    obtain ⟨part, hpart, hpart'⟩ := (covers_of_forall₂ (forall₂_of_mapM hls)).1 _ hmem
    obtain ⟨inside, hinside, hwithin⟩ := ih hpart'
    exact ⟨inside, hinside, hwithin.trans (infix_parenthesize hpart)⟩

theorem Within.isLong {l : Layout} {inner e : SExpr} (h : Within inner e) {part line : String}
    (hlong : inner.IsLong l part) (hwithin : part.toList <:+: line.toList) : e.IsLong l line := by
  have hle := hwithin.length_le
  rw [String.length_toList, String.length_toList] at hle
  refine ⟨?_, lt_of_lt_of_le hlong.2 (by exact_mod_cast hle)⟩
  cases h with
  | refl => exact hlong.1
  | item hmem _ => exact List.ne_nil_of_mem hmem

theorem oneLine_eq_write (hw : w.Lawful) {A : Value → Prop} {S : String → Prop} {e : SExpr}
    (h : Built A S e) (hatoms : ∀ v, Within (.atom v) e → v.isPlain)
    (hsymbols : ∀ s, Within (.symbol s) e → w (.symbol s) = .ok s) : e.oneLine w = w e := by
  induction h with
  | atom _ => rw [oneLine, hw.atom_eq (hatoms _ .refl)]
  | symbol _ => rw [oneLine, hsymbols _ .refl]
  | list _ ih =>
    have hitems := mapM_congr fun e he => ih e he (fun v hv => hatoms v (.item he hv))
      fun s hs => hsymbols s (.item he hs)
    rw [oneLine, hw.list, oneLineAll_eq_mapM, hitems]

theorem isWritable_of_words {A : Value → Prop} {S : String → Prop} {e : SExpr} (h : Built A S e)
    {ws : List Word} (hws : e.words w = .ok ws) : e.IsWritable := by
  induction h generalizing ws with
  | @atom v _ =>
    refine .atom ?_
    cases v with
    | int n =>
      obtain ⟨t, ht, -⟩ := bind_eq_ok.1 hws
      exact ((Value.int n).listing_settles.of_ok ht).1
    | null | bool | real | text => rfl
  | symbol _ => exact .symbol trivial
  | list _ ih =>
    rw [words, wordsAll_eq_mapM] at hws
    obtain ⟨wss, hwss, -⟩ := bind_eq_ok.1 hws
    refine .list fun e he => ?_
    obtain ⟨vs, -, hvs⟩ := (covers_of_forall₂ (forall₂_of_mapM hwss)).1 e he
    exact ih e he hvs

theorem exists_pretty_iff {l : Layout} (hw : w.Lawful) (hl : l.IsBlank) {e : SExpr}
    (h : Built (fun _ => True) IsWord e) (level : Int) :
    (∃ text, e.pretty w l level = .ok text) ↔ e.IsWritable := by
  have halike := pretty_laid hw hl h level
  constructor
  · rintro ⟨text, htext⟩
    obtain ⟨ws, hws, -⟩ := halike.exists_right htext
    exact isWritable_of_words h hws
  · intro hwritable
    obtain ⟨ws, hws⟩ := hwritable.exists_words hw
    obtain ⟨text, htext, -⟩ := halike.exists_left hws
    exact ⟨text, htext⟩

/-- The pretty form has the words of the form on one line, spelled alike, with nothing but white
space between them, and is that form unless the line is too long. A list with a broken list in it is
broken. The form on one line is what the writer writes, if it leaves the symbols as they are. The
forms exist unless an integer is too long to be written. -/
theorem pretty_keeps_words {w : Writer} (hw : w.Lawful) {l : Layout} (hl : l.IsBlank) {e : SExpr}
    (he : Built (fun _ => True) IsWord e) (level : Int) :
    Alike (fun text line => Fits l e text line ∧ ∃ ws,
        scan .nothing text.toList = some ws ∧ scan .nothing line.toList = some ws ∧
        Laid ws text.toList ∧ Laid ws line.toList)
      (e.pretty w l level) (e.oneLine w) ∧
    ((∀ v, Within (.atom v) e → v.isPlain) → (∀ s, Within (.symbol s) e → w (.symbol s) = .ok s) →
      e.oneLine w = w e) ∧
    (∀ inner, Within inner e → ∀ level' part text, inner.pretty w l level' = .ok part →
      e.pretty w l level = .ok text → '\n' ∈ part.toList → '\n' ∈ text.toList) ∧
    ((∃ text, e.pretty w l level = .ok text) ↔ e.IsWritable) := by
  refine ⟨?_, oneLine_eq_write hw he, ?_, exists_pretty_iff hw hl he level⟩
  · obtain ⟨l', hl', hline⟩ := exists_layout_oneLine hw he
    have htext := (pretty_alike hw hl he level).and (pretty_laid hw hl he level)
    have hwords := (pretty_alike hw hl' he 0).and (pretty_laid hw hl' he 0)
    rw [hline] at hwords
    refine (pretty_fits hw he level).and ((htext.meet hwords).mono ?_)
    rintro text line ⟨ws, ⟨hreads, hlaid⟩, hreads', hlaid'⟩
    exact ⟨ws, hreads.scan_eq, hreads'.scan_eq, hlaid, hlaid'⟩
  · intro inner hinner level' part text hpart htext hbroken
    obtain ⟨line, hline, hfits⟩ := (pretty_fits hw he level).exists_right htext
    obtain ⟨inside, hinside, hwithin⟩ := hinner.infix hline
    obtain ⟨inside', hinside', hfits'⟩ :=
      (pretty_fits hw (hinner.built he) level').exists_right hpart
    cases hinside.symm.trans hinside'
    exact hfits.broken (hinner.isLong (hfits'.mem_iff.1 hbroken) hwithin)

namespace Nested

def inner : SExpr := .list [.symbol "g", .atom (.int 12)]

def outer : SExpr := .list [.symbol "f", .atom (.text "a\nb )"), inner]

def layout : Layout := ⟨"\t", 5⟩

def text : String := "(f\n\t\"a\\nb )\"\n\t(g\n\t\t12\n\t)\n)"

def line : String := "(f \"a\\nb )\" (g 12))"

theorem built_outer : Built (fun _ => True) IsWord outer := by
  have hinner : Built (fun _ => True) IsWord inner := .list (List.forall_mem_cons.2
    ⟨.symbol (.of_all (by decide) (by decide)), List.forall_mem_singleton.2 (.atom trivial)⟩)
  refine .list (List.forall_mem_cons.2 ⟨.symbol (.of_all (by decide) (by decide)), ?_⟩)
  exact List.forall_mem_cons.2 ⟨.atom trivial, List.forall_mem_singleton.2 hinner⟩

end Nested

open Nested in
theorem pretty_keeps_words_nested :
    Writer.Lawful compact ∧ layout.IsBlank ∧ outer.pretty compact layout 0 = .ok text ∧
      outer.oneLine compact = .ok line ∧ compact outer = .ok line ∧ Fits layout outer text line ∧
      ∃ ws, scan .nothing text.toList = some ws ∧ scan .nothing line.toList = some ws ∧
        Laid ws text.toList ∧ Laid ws line.toList := by
  have hblank : layout.IsBlank := List.all_eq_true.1 (by decide)
  have htext : outer.pretty compact layout 0 = .ok text := toOption_eq_some.1 (by decide +kernel)
  have hcompact : compact outer = .ok line := toOption_eq_some.1 (by decide +kernel)
  have hline : outer.oneLine compact = .ok line := toOption_eq_some.1 (by decide +kernel)
  obtain ⟨halike, -⟩ := pretty_keeps_words compact_lawful hblank built_outer 0
  rw [htext, hline] at halike
  cases halike with
  | ok h => exact ⟨compact_lawful, hblank, htext, hline, hcompact, h⟩

end SExpr

end StructLang
