import StructLang.Proofs.Code.Folding
import StructLang.Proofs.Code.Walk
import StructLang.Proofs.SExpr.Words
import StructLang.Proofs.Script.Binding
import StructLang.Proofs.Script.Quoting
import StructLang.Proofs.Ty.Written

namespace StructLang

namespace Text

def IsLine (s : String) : Prop := '\n' ∉ s.toList

instance (s : String) : Decidable (IsLine s) := inferInstanceAs (Decidable ('\n' ∉ s.toList))

@[simp] theorem isLine_append {s t : String} : IsLine (s ++ t) ↔ IsLine s ∧ IsLine t := by
  simp [IsLine]

theorem isLine_of_forall {s : String} {p : Char → Prop} (hs : ∀ c ∈ s.toList, p c)
    (hp : ¬p '\n') : IsLine s :=
  fun hmem => hp (hs _ hmem)

theorem isLine_intercalate {sep : String} {ss : List String} (hsep : IsLine sep)
    (h : ∀ s ∈ ss, IsLine s) : IsLine (sep.intercalate ss) := by
  rw [IsLine, String.toList_intercalate]
  induction ss with
  | nil => simp
  | cons s ss ih =>
    rw [List.forall_mem_cons] at h
    cases ss with
    | nil => simpa [IsLine] using h.1
    | cons t ss =>
      rw [List.map_cons, List.map_cons, List.intercalate_cons_cons, List.mem_append,
        List.mem_append, not_or, not_or]
      exact ⟨⟨h.1, hsep⟩, ih h.2⟩

def unlines (rows : List String) : List Char := rows.flatMap fun r => r.toList ++ ['\n']

theorem unlines_append (rows rows' : List String) :
    unlines (rows ++ rows') = unlines rows ++ unlines rows' :=
  List.flatMap_append

theorem toList_intercalate_newline {rows : List String} (h : rows ≠ []) :
    ("\n".intercalate rows).toList ++ ['\n'] = unlines rows := by
  rw [String.toList_intercalate]
  induction rows with
  | nil => exact absurd rfl h
  | cons r rows ih =>
    cases rows with
    | nil => simp [unlines]
    | cons r' rows =>
      have hrest := ih (List.cons_ne_nil _ _)
      rw [List.map_cons] at hrest
      rw [List.map_cons, List.map_cons, List.intercalate_cons_cons, List.append_assoc, hrest]
      simp [unlines]

def lines (text : String) : List String := (splitAt '\n' text.toList).map String.ofList

theorem lines_eq {text : String} {rows : List String} (htext : text.toList = unlines rows)
    (h : ∀ r ∈ rows, IsLine r) : lines text = rows ++ [""] := by
  rw [lines, htext]
  clear htext
  induction rows with
  | nil => rfl
  | cons r rows ih =>
    rw [List.forall_mem_cons] at h
    have hcons : unlines (r :: rows) = r.toList ++ '\n' :: unlines rows := by simp [unlines]
    rw [hcons, splitAt_append h.1, List.map_cons, String.ofList_toList, ih h.2]
    rfl

end Text

open Text

theorem Token.IsName.isLine {n : String} (h : Token.IsName n.toList) : IsLine n :=
  isLine_of_forall h.isWord (by decide)

theorem isLine_of_reserved {n : String} (h : Library.reserved n) : IsLine n := by
  have hall : ∀ n ∈ Library.functions.names, IsLine n := by decide
  exact hall n (by simpa [Library.reserved, Table.has] using h)

theorem SExpr.IsWord.isLine {s : String} (h : SExpr.IsWord s) : IsLine s :=
  isLine_of_forall h.bare (by decide)

theorem Value.isLine_of_script {v : Value} {s : String} (h : v.script = .ok s) : IsLine s := by
  cases v with
  | null =>
    cases h
    decide
  | bool b =>
    cases h
    cases b <;> decide
  | int n =>
    simp only [script, listing] at h
    exact (SExpr.isWord_of_decimalText h).isLine
  | real d =>
    rw [script] at h
    split at h
    · exact (SExpr.isWord_of_decimalText h).isLine
    · cases h
      exact (SExpr.isWord_text d).isLine
  | text t =>
    cases h
    refine isLine_of_forall (fun _ => Ascii.printable_of_mem_encode) fun hbreak => ?_
    exact absurd hbreak.1 (by decide)

namespace Code

def ownWords : Code → List String
  | .name n _ | .param n _ _ | .member _ n _ | .declare n _ _ _ _ | .define n _ _ _ _ _ => [n]
  | .alias n type _ => [n, type.text]
  | _ => []

/-- No name and no type in the code breaks a line. -/
def IsLine (c : Code) : Prop := ∀ d ∈ c.preorder, ∀ w ∈ d.ownWords, Text.IsLine w

theorem isLine_iff {c : Code} :
    c.IsLine ↔ (∀ w ∈ c.ownWords, Text.IsLine w) ∧ ∀ d ∈ c.children, d.IsLine := by
  rw [IsLine, preorder_eq_cons, List.forall_mem_cons, List.forall_mem_flatMap]
  rfl

theorem isLine_iff_of_children_eq_nil {c : Code} (h : c.children = []) :
    c.IsLine ↔ ∀ w ∈ c.ownWords, Text.IsLine w := by
  rw [isLine_iff, h]
  exact and_iff_left (by simp)

theorem isLine_parens {needed : Bool} {s : String} (h : Text.IsLine s) :
    Text.IsLine (parens needed s) := by
  rw [parens]
  split
  · simpa [h] using (by decide : Text.IsLine "(" ∧ Text.IsLine ")")
  · exact h

mutual

theorem IsLine.script {c : Code} {s : String} (hc : c.IsLine) (h : c.script = .ok s) :
    Text.IsLine s := by
  obtain ⟨hwords, hchildren⟩ := isLine_iff.1 hc
  match c with
  | .literal v _ _ => exact Value.isLine_of_script h
  | .name n _ | .param n _ _ =>
    cases h
    exact hwords _ (by simp [ownWords])
  | .binary op l r _ =>
    obtain ⟨x, hx, h⟩ := bind_eq_ok.1 h
    obtain ⟨y, hy, h⟩ := bind_eq_ok.1 h
    cases h
    have hleft := (hchildren l (by simp [children])).script hx
    have hright := (hchildren r (by simp [children])).script hy
    have hop : Text.IsLine op.symbol := by cases op <;> decide
    simp [isLine_parens hleft, isLine_parens hright, hop, (by decide : Text.IsLine " ")]
  | .call f args _ _ =>
    obtain ⟨xs, hxs, h⟩ := bind_eq_ok.1 h
    obtain ⟨x, hx, h⟩ := bind_eq_ok.1 h
    cases h
    have hcallee := (hchildren f (by simp [children])).script hx
    have hargs := scripts_isLine (fun d hd => hchildren d (by simp [children, hd])) hxs
    have hitems := isLine_intercalate (by decide : Text.IsLine ", ") hargs
    simpa [isLine_parens hcallee, hitems] using (by decide : Text.IsLine "(" ∧ Text.IsLine ")")
  | .member o p _ =>
    obtain ⟨x, hx, h⟩ := bind_eq_ok.1 h
    cases h
    have hobject := (hchildren o (by simp [children])).script hx
    have hproperty := hwords p (by simp [ownWords])
    simp [isLine_parens hobject, hproperty, (by decide : Text.IsLine ".")]
  | .expr e _ | .ret e _ =>
    obtain ⟨x, hx, h⟩ := bind_eq_ok.1 h
    cases h
    have hexpr := (hchildren e (by simp [children])).script hx
    simpa [hexpr] using (by decide)
  | .alias n t _ =>
    cases h
    have hname := hwords n (by simp [ownWords])
    have htype := hwords t.text (by simp [ownWords])
    simpa [hname, htype] using
      (by decide : Text.IsLine "// Type alias: " ∧ Text.IsLine " = ")
  | .declare .. | .define .. | .program .. | .unruled _ | .nothing => cases h

theorem scripts_isLine {cs : List Code} {ss : List String} (hcs : ∀ c ∈ cs, c.IsLine)
    (h : scripts cs = .ok ss) : ∀ s ∈ ss, Text.IsLine s := by
  match cs with
  | [] =>
    cases h
    simp
  | c :: cs =>
    obtain ⟨s, hs, h⟩ := bind_eq_ok.1 h
    obtain ⟨ss, hss, h⟩ := bind_eq_ok.1 h
    cases h
    rw [List.forall_mem_cons] at hcs ⊢
    exact ⟨hcs.1.script hs, scripts_isLine hcs.2 hss⟩

end

mutual

theorem Folds.isLine {c c' : Code} (h : Folds c c') (hc : c.IsLine) : c'.IsLine := by
  rw [isLine_iff] at hc ⊢
  match h with
  | .literal | .name | .libraryCall | .member | .param | .alias | .declare | .emptied => exact hc
  | .sum .. => simp [ownWords, children]
  | .binary hl hr _ =>
    simp only [ownWords, children, List.forall_mem_cons] at hc ⊢
    exact ⟨hc.1, hl.isLine hc.2.1, hr.isLine hc.2.2.1, hc.2.2.2⟩
  | .call hf hargs =>
    simp only [ownWords, children, List.forall_mem_cons] at hc ⊢
    exact ⟨hc.1, hf.isLine hc.2.1, hargs.isLine hc.2.2⟩
  | .expr he | .ret he =>
    simp only [ownWords, children, List.forall_mem_cons] at hc ⊢
    exact ⟨hc.1, he.isLine hc.2.1, hc.2.2⟩
  | .define hbody =>
    simp only [ownWords, children, List.forall_mem_append] at hc ⊢
    exact ⟨hc.1, hc.2.1, hbody.isLine hc.2.2⟩
  | .program hss =>
    simp only [ownWords, children] at hc ⊢
    exact ⟨hc.1, hss.isLine hc.2⟩

theorem FoldsAll.isLine {cs cs' : List Code} (h : FoldsAll cs cs') (hcs : ∀ c ∈ cs, c.IsLine) :
    ∀ c ∈ cs', c.IsLine := by
  match h with
  | .nil => exact hcs
  | .cons h hs =>
    rw [List.forall_mem_cons] at hcs ⊢
    exact ⟨h.isLine hcs.1, hs.isLine hcs.2⟩

end

end Code

namespace Script

namespace Function

def heading (f : Function) : String := "function " ++ f.name ++ "(" ++ f.paramText ++ ") \x7b"

def rows (f : Function) : List String := f.heading :: f.bodyLines.map ("  " ++ ·) ++ ["\x7d"]

theorem unlines_rows (f : Function) : unlines f.rows = f.text.toList ++ ['\n'] :=
  (toList_intercalate_newline (by simp [rows])).symm

end Function

def Module.rows (m : Module) : List String :=
  (if m.wrap then ["(function() \x7b"] else []) ++
    ["const " ++ m.binding ++ " = require(" ++ runtimeText m.runtime ++ ");", ""] ++
    (if m.aliases.isEmpty then [] else m.aliases ++ [""]) ++
    m.functions.flatMap (fun f => f.rows ++ [""]) ++
    (if m.statements.isEmpty then [] else "// Top-level statements:" :: m.statements) ++
    (if m.wrap then ["\x7d)();"] else [])

theorem Module.toList_text (m : Module) : m.text.toList = unlines m.rows := by
  have hfunctions (fs : List Function) : unlines (fs.flatMap fun f => [f.text, ""]) =
      unlines (fs.flatMap fun f => f.rows ++ [""]) := by
    induction fs with
    | nil => rfl
    | cons f fs ih =>
      rw [List.flatMap_cons, List.flatMap_cons, unlines_append, unlines_append, ih, unlines_append,
        f.unlines_rows]
      simp [unlines]
  have hne : m.lines ≠ [] := by simp [Module.lines]
  have hnewline : "\n".toList = ['\n'] := rfl
  rw [Module.text, String.toList_append, hnewline, toList_intercalate_newline hne, Module.lines,
    Module.rows]
  simp only [unlines_append, hfunctions]

def openedName? (line : String) : Option String :=
  if "function ".toList <+: line.toList then
    some (String.ofList ((line.toList.drop "function ".length).takeWhile (· ≠ '(')))
  else none

def openedNames (text : String) : List String := (Text.lines text).filterMap openedName?

theorem openedName?_heading {f : Function} (h : '(' ∉ f.name.toList) :
    openedName? f.heading = some f.name := by
  have hheading : f.heading.toList = "function ".toList ++
      (f.name.toList ++ '(' :: (f.paramText ++ ") \x7b").toList) := by
    simp [Function.heading]
  have hname : ∀ c ∈ f.name.toList, decide (c ≠ '(') = true := by
    rintro c hc
    exact decide_eq_true fun heq => h (heq ▸ hc)
  rw [openedName?, hheading, if_pos (List.prefix_append _ _), ← String.length_toList,
    List.drop_left, List.takeWhile_append_of_pos hname, List.takeWhile_cons_of_neg (by simp),
    List.append_nil, String.ofList_toList]

theorem openedName?_eq_none {line : String} (h : line.toList.head? ≠ some 'f') :
    openedName? line = none := by
  rw [openedName?, if_neg]
  rintro ⟨rest, hrest⟩
  rw [← hrest] at h
  exact h rfl

theorem openedName?_call {n : String} (h : Token.IsName n.toList) (rest : String) :
    openedName? (n ++ "(" ++ rest) = none := by
  rw [openedName?, if_neg]
  intro hhead
  rw [String.toList_append] at hhead
  obtain hhead | hhead :=
    List.prefix_or_prefix_of_prefix hhead (List.prefix_append _ rest.toList)
  · have hmem : ' ' ∈ (n ++ "(").toList := hhead.subset (by decide)
    rw [String.toList_append, List.mem_append, or_iff_left (by decide)] at hmem
    exact absurd (h.isWord ' ' hmem) (by decide)
  · exact absurd (hhead.subset (by simp : '(' ∈ (n ++ "(").toList)) (by decide)

theorem filterMap_openedName?_rows {f : Function} (h : '(' ∉ f.name.toList) :
    (f.rows ++ [""]).filterMap openedName? = [f.name] := by
  have hbody : (f.bodyLines.map ("  " ++ ·)).filterMap openedName? = [] := by
    rw [List.filterMap_eq_nil_iff, List.forall_mem_map]
    intro line _
    exact openedName?_eq_none (by simp)
  have hclose : (["\x7d"] ++ [""]).filterMap openedName? = [] := rfl
  rw [Function.rows, List.append_assoc, List.cons_append,
    List.filterMap_cons_some (openedName?_heading h), List.filterMap_append, hbody, hclose]
  rfl

/-- The parts of a module stand on lines of their own, and nothing but a function opens one. -/
structure Module.IsTidy (m : Module) : Prop where
  isLine : ∀ r ∈ m.rows, IsLine r
  names : ∀ f ∈ m.functions, '(' ∉ f.name.toList
  aliases : ∀ a ∈ m.aliases, openedName? a = none
  statements : ∀ s ∈ m.statements, openedName? s = none

/-- The functions that the text opens are those of the module, in order. -/
theorem Module.IsTidy.openedNames_text {m : Module} (h : m.IsTidy) :
    openedNames m.text = m.functions.map Function.name := by
  have hwrap (b : Bool) (line : String) (hline : openedName? line = none) :
      (if b then [line] else []).filterMap openedName? = [] := by
    split <;> simp [hline]
  have hconst :
      openedName? ("const " ++ m.binding ++ " = require(" ++ runtimeText m.runtime ++ ");") =
        none := openedName?_eq_none (by simp)
  have haliases : (if m.aliases.isEmpty then [] else m.aliases ++ [""]).filterMap openedName? =
      [] := by
    split
    · rfl
    · rw [List.filterMap_append, List.filterMap_eq_nil_iff.2 h.aliases]
      rfl
  have hfunctions : (m.functions.flatMap fun f => f.rows ++ [""]).filterMap openedName? =
      m.functions.map Function.name := by
    rw [List.filterMap_flatMap, List.map_eq_flatMap]
    exact List.flatMap_congr fun f hf => filterMap_openedName?_rows (h.names f hf)
  have hstatements : (if m.statements.isEmpty then [] else
      "// Top-level statements:" :: m.statements).filterMap openedName? = [] := by
    split
    · rfl
    · rw [List.filterMap_cons_none rfl, List.filterMap_eq_nil_iff.2 h.statements]
  rw [openedNames, Text.lines_eq m.toList_text h.isLine, Module.rows]
  simp only [List.filterMap_append, haliases, hfunctions, hstatements]
  rw [hwrap _ _ rfl, hwrap _ _ rfl, List.filterMap_cons_none hconst]
  simp [openedName?_eq_none]

end Script

end StructLang
