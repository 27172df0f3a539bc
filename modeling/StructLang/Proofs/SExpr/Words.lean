import StructLang.Proofs.Number.Spelling
import StructLang.Proofs.Outcome
import StructLang.SExpr

namespace StructLang

def Value.isPlain : Value → Bool
  | .int _ | .real _ | .text _ => true
  | .null | .bool _ => false

namespace SExpr

structure IsQuoted (t : String) : Prop where
  body : ∃ body, t.toList = '"' :: (body ++ ['"']) ∧ Text.IsQuotable body
  line_notMem : '\n' ∉ t.toList

def isPlain (c : Char) : Bool :=
  c.isAlphanum || c ∈ ['-', ':', '+', '*', '/', '<', '>', '=', '!', '&', '|']

/-- What is taken for granted of a writer: texts are quoted, numbers are written in decimal, symbols
without special characters as they are, and lists with a space between the items. -/
structure Writer.Lawful (w : Writer) : Prop where
  text : ∀ s, ∃ t, w (.atom (.text s)) = .ok t ∧ IsQuoted t
  int : ∀ n, w (.atom (.int n)) = decimalText n
  real : ∀ d, w (.atom (.real d)) = .ok d.text
  symbol : ∀ s, s.toList ≠ [] → s.toList.all isPlain → w (.symbol s) = .ok s
  list : ∀ es, w (.list es) = do return parenthesize (← es.mapM w)

def Writer.IsSafe (w : Writer) : Prop := ∀ e, Yields (w e) (fun _ => True) (· = .unwritable)

inductive Word where
  | opening
  | closing
  | text (spelling : String)
  | bare (spelling : String)
  deriving DecidableEq, Repr

def isBare (c : Char) : Bool := !(Text.isBlank c || c == '(' || c == ')' || c == '"')

inductive Pending where
  | nothing
  | bare (cs : List Char)
  | text (cs : List Char)
  | escape (cs : List Char)

namespace Pending

def start (c : Char) : List Word × Pending :=
  if c = '(' then ([.opening], .nothing)
  else if c = ')' then ([.closing], .nothing)
  else if c = '"' then ([], .text [c])
  else if Text.isBlank c then ([], .nothing)
  else ([], .bare [c])

def step : Pending → Char → List Word × Pending
  | .nothing, c => start c
  | .bare cs, c =>
    if isBare c then ([], .bare (cs ++ [c]))
    else (.bare (String.ofList cs) :: (start c).1, (start c).2)
  | .text cs, c =>
    if c = '"' then ([.text (String.ofList (cs ++ [c]))], .nothing)
    else if c = '\\' then ([], .escape (cs ++ [c]))
    else ([], .text (cs ++ [c]))
  | .escape cs, c => ([], .text (cs ++ [c]))

def finish : Pending → Option (List Word)
  | .nothing => some []
  | .bare cs => some [.bare (String.ofList cs)]
  | .text _ | .escape _ => none

end Pending

def scan : Pending → List Char → Option (List Word)
  | p, [] => p.finish
  | p, c :: r => (scan (p.step c).2 r).map ((p.step c).1 ++ ·)

theorem scan_of_step {p p' : Pending} {c : Char} {ws : List Word} (h : p.step c = (ws, p'))
    (r : List Char) : scan p (c :: r) = (scan p' r).map (ws ++ ·) := by
  rw [scan, h]

theorem scan_of_step_nil {p p' : Pending} {c : Char} (h : p.step c = ([], p')) (r : List Char) :
    scan p (c :: r) = scan p' r := by
  rw [scan_of_step h]
  exact Option.map_id'

def IsBreak (rest : List Char) : Prop := rest.head?.all (!isBare ·)

/-- The characters are read as these words before all that may follow them. -/
def Reads (x : List Char) (ws : List Word) : Prop :=
  ∀ rest, IsBreak rest → scan .nothing (x ++ rest) = (scan .nothing rest).map (ws ++ ·)

variable {x y : List Char} {ws vs : List Word} {c : Char}

theorem Reads.scan_eq (h : Reads x ws) : scan .nothing x = some ws := by
  have hx := h [] rfl
  rw [List.append_nil] at hx
  rw [hx, scan, Pending.finish, Option.map_some, List.append_nil]

theorem Reads.nil : Reads [] [] := by
  intro rest _
  simp

theorem Reads.append (hx : Reads x ws) (hy : Reads y vs)
    (hbreak : ∀ rest, IsBreak rest → IsBreak (y ++ rest)) : Reads (x ++ y) (ws ++ vs) := by
  intro rest hrest
  rw [List.append_assoc, hx _ (hbreak rest hrest), hy rest hrest, Option.map_map]
  simp [Function.comp_def]

theorem Reads.blank (hc : Text.isBlank c) (h : Reads x ws) : Reads (c :: x) ws := by
  have hne : ∀ d : Char, Text.isBlank d = false → c ≠ d := by
    rintro d hd rfl
    simp [hc] at hd
  have hstep : Pending.nothing.step c = ([], .nothing) := by
    simp [Pending.step, Pending.start, hne '(' (by decide), hne ')' (by decide),
      hne '"' (by decide), hc]
  intro rest hrest
  rw [List.cons_append, scan_of_step_nil hstep, h rest hrest]

theorem Reads.blanks {cs : List Char} (hcs : ∀ c ∈ cs, Text.isBlank c) (h : Reads x ws) :
    Reads (cs ++ x) ws := by
  induction cs with
  | nil => exact h
  | cons c cs ih =>
    rw [List.forall_mem_cons] at hcs
    exact (ih hcs.2).blank hcs.1

theorem Reads.opening (h : Reads x ws) : Reads ('(' :: x) (.opening :: ws) := by
  intro rest hrest
  have hstep : Pending.nothing.step '(' = ([.opening], .nothing) := rfl
  rw [List.cons_append, scan_of_step hstep, h rest hrest, Option.map_map]
  rfl

theorem reads_closing : Reads [')'] [.closing] := by
  intro rest _
  have hstep : Pending.nothing.step ')' = ([.closing], .nothing) := rfl
  rw [List.singleton_append, scan_of_step hstep]

theorem Reads.parens (h : Reads x ws) :
    Reads ('(' :: (x ++ [')'])) (.opening :: ws ++ [.closing]) :=
  (h.append reads_closing fun _ _ => rfl).opening

theorem scan_bare_break {cs rest : List Char} (h : IsBreak rest) :
    scan (.bare cs) rest = (scan .nothing rest).map (.bare (String.ofList cs) :: ·) := by
  cases rest with
  | nil => rfl
  | cons c rest =>
    have hc : isBare c = false := by simpa [IsBreak] using h
    have hstep : (Pending.bare cs).step c =
        (.bare (String.ofList cs) :: (Pending.start c).1, (Pending.start c).2) := by
      rw [Pending.step, hc, if_neg Bool.false_ne_true]
    rw [scan_of_step hstep, scan, Option.map_map]
    rfl

theorem scan_bare_append {cs s rest : List Char} (hs : ∀ c ∈ s, isBare c) :
    scan (.bare cs) (s ++ rest) = scan (.bare (cs ++ s)) rest := by
  induction s generalizing cs with
  | nil => rw [List.nil_append, List.append_nil]
  | cons c s ih =>
    rw [List.forall_mem_cons] at hs
    have hstep : (Pending.bare cs).step c = ([], .bare (cs ++ [c])) := if_pos hs.1
    rw [List.cons_append, scan_of_step_nil hstep, ih hs.2, List.append_assoc, List.singleton_append]

structure IsWord (s : String) : Prop where
  ne_nil : s.toList ≠ []
  bare : ∀ c ∈ s.toList, isBare c

theorem IsWord.of_all {s : String} (hne : s.toList ≠ []) (h : s.toList.all isBare) : IsWord s :=
  ⟨hne, List.all_eq_true.1 h⟩

theorem IsWord.reads {s : String} (h : IsWord s) : Reads s.toList [.bare s] := by
  intro rest hrest
  obtain ⟨c, cs, hcs⟩ := List.exists_cons_of_ne_nil h.ne_nil
  have hbare := h.bare
  rw [hcs, List.forall_mem_cons] at hbare
  have hstep : Pending.nothing.step c = ([], .bare [c]) := by
    have hc := hbare.1
    simp only [isBare, Bool.not_eq_true', Bool.or_eq_false_iff, beq_eq_false_iff_ne] at hc
    simp [Pending.step, Pending.start, hc]
  rw [hcs, List.cons_append, scan_of_step_nil hstep, scan_bare_append hbare.2,
    List.singleton_append, scan_bare_break hrest, ← hcs, String.ofList_toList]
  rfl

theorem scan_text {body : List Char} (h : Text.IsQuotable body) (cs rest : List Char) :
    scan (.text cs) (body ++ '"' :: rest) =
      (scan .nothing rest).map (.text (String.ofList (cs ++ (body ++ ['"']))) :: ·) := by
  induction h generalizing cs with
  | nil =>
    have hstep : (Pending.text cs).step '"' = ([.text (String.ofList (cs ++ ['"']))], .nothing) :=
      rfl
    rw [List.nil_append, scan_of_step hstep]
    rfl
  | @plain c s hquote hslash _ ih =>
    have hstep : (Pending.text cs).step c = ([], .text (cs ++ [c])) := by
      rw [Pending.step, if_neg hquote, if_neg hslash]
    rw [List.cons_append, scan_of_step_nil hstep, ih, List.append_assoc, List.singleton_append,
      List.cons_append]
  | @escaped s c _ ih =>
    have hslash : (Pending.text cs).step '\\' = ([], .escape (cs ++ ['\\'])) := rfl
    have hstep : (Pending.escape (cs ++ ['\\'])).step c = ([], .text (cs ++ ['\\'] ++ [c])) := rfl
    rw [List.cons_append, List.cons_append, scan_of_step_nil hslash, scan_of_step_nil hstep, ih]
    simp

theorem IsQuoted.reads {t : String} (h : IsQuoted t) : Reads t.toList [.text t] := by
  intro rest _
  obtain ⟨body, ht, hbody⟩ := h.body
  have hstep : Pending.nothing.step '"' = ([], .text ['"']) := rfl
  have hscan := scan_text hbody ['"'] rest
  rw [List.singleton_append, ← ht, String.ofList_toList] at hscan
  rw [ht, List.cons_append, List.append_assoc, List.singleton_append, scan_of_step_nil hstep, hscan]
  rfl

variable {ts : List String} {wss : List (List Word)}

theorem reads_intercalate {sep : String} (hne : sep.toList ≠ [])
    (hsep : ∀ c ∈ sep.toList, Text.isBlank c)
    (h : List.Forall₂ (fun t ws => Reads t.toList ws) ts wss) :
    Reads (sep.intercalate ts).toList wss.flatten := by
  rw [String.toList_intercalate]
  induction h with
  | nil => exact .nil
  | @cons t ws ts wss ht hts ih =>
    cases hts with
    | nil => simpa using ht
    | cons _ _ =>
      rw [List.map_cons, List.map_cons, List.intercalate_cons_cons, List.append_assoc,
        List.flatten_cons]
      refine ht.append (ih.blanks hsep) fun rest _ => ?_
      obtain ⟨c, cs, hcs⟩ := List.exists_cons_of_ne_nil hne
      have hc : isBare c = false := by simp [isBare, hsep c (by simp [hcs])]
      rw [hcs]
      simp [IsBreak, hc]

theorem reads_parenthesize (h : List.Forall₂ (fun t ws => Reads t.toList ws) ts wss) :
    Reads (parenthesize ts).toList (.opening :: wss.flatten ++ [.closing]) := by
  have hblank : " ".toList.all Text.isBlank := by decide
  have hparens := (reads_intercalate (by decide) (List.all_eq_true.1 hblank) h).parens
  rw [parenthesize, String.toList_append, String.toList_append]
  exact hparens

def Layout.IsBlank (l : Layout) : Prop := ∀ c ∈ l.pad.toList, Text.isBlank c

theorem Layout.IsBlank.indent {l : Layout} (h : l.IsBlank) (level : Int) :
    ∀ c ∈ (l.indent level).toList, Text.isBlank c := by
  rw [Layout.indent, String.toList_join, List.forall_mem_flatMap]
  intro pad hpad
  rw [List.eq_of_mem_replicate hpad]
  exact h

theorem isBreak_line (rest : List Char) : IsBreak ('\n' :: rest) := rfl

theorem reads_broken {first rest indent : String} (hfirst : Reads first.toList ws)
    (hrest : Reads rest.toList vs) (hindent : ∀ c ∈ indent.toList, Text.isBlank c) :
    Reads ("(" ++ first ++ (if rest = "" then "" else "\n" ++ rest) ++ "\n" ++ indent ++ ")").toList
      (.opening :: (ws ++ vs) ++ [.closing]) := by
  have hline : Text.isBlank '\n' := by decide
  have hclosing : Reads ('\n' :: (indent.toList ++ [')'])) [.closing] :=
    (reads_closing.blanks hindent).blank hline
  have hparens : Reads ('(' :: (first.toList ++ ((if rest = "" then "" else "\n" ++ rest).toList ++
      '\n' :: (indent.toList ++ [')'])))) (.opening :: (ws ++ (vs ++ [.closing]))) := by
    refine (hfirst.append ?_ ?_).opening
    · split
      · rename_i hempty
        rw [hempty] at hrest
        exact hrest.append hclosing fun r _ => isBreak_line _
      · rw [String.toList_append]
        exact (hrest.blank hline).append hclosing fun r _ => isBreak_line _
    · intro r _
      split
      · exact isBreak_line _
      · rw [String.toList_append]
        exact isBreak_line _
  simpa [String.toList_append] using hparens

theorem reads_arrange {l : Layout} (hl : l.IsBlank) (level : Int)
    (h : List.Forall₂ (fun t ws => Reads t.toList ws) ts wss) :
    Reads (l.arrange level ts).toList (.opening :: wss.flatten ++ [.closing]) := by
  cases h with
  | nil => simpa [Layout.arrange] using Reads.nil.parens
  | @cons t ws ts wss ht hts =>
    have hindented : List.Forall₂ (fun t ws => Reads t.toList ws)
        (ts.map (l.indent (level + 1) ++ ·)) wss := by
      refine List.forall₂_map_left_iff.2 (hts.imp fun t ws ht => ?_)
      rw [String.toList_append]
      exact ht.blanks (hl.indent (level + 1))
    have hline : "\n".toList.all Text.isBlank := by decide
    rw [Layout.arrange]
    dsimp only
    split
    · exact reads_parenthesize (.cons ht hts)
    · exact reads_broken ht (reads_intercalate (by decide) (List.all_eq_true.1 hline) hindented)
        (hl.indent level)

section

variable (w : Writer)

def atomWords : Value → Except Fault (List Word)
  | .null => .ok [.opening, .closing]
  | .bool b => .ok [.bare (if b then "true" else "false")]
  | .text s => do return [.text (← w (.atom (.text s)))]
  | v => do return [.bare (← v.listing)]

mutual

def words : SExpr → Except Fault (List Word)
  | .atom v => atomWords w v
  | .symbol s => .ok [.bare s]
  | .list items => do return .opening :: (← wordsAll items).flatten ++ [.closing]

def wordsAll : List SExpr → Except Fault (List (List Word))
  | [] => .ok []
  | e :: es => do return (← e.words) :: (← wordsAll es)

end

theorem wordsAll_eq_mapM (es : List SExpr) : wordsAll w es = es.mapM (words w) := by
  induction es with
  | nil => rfl
  | cons e es ih => rw [wordsAll, ih, List.mapM_cons]

theorem prettyAll_eq_mapM (l : Layout) (level : Int) (es : List SExpr) :
    prettyAll w l level es = es.mapM (pretty w l level) := by
  induction es with
  | nil => rfl
  | cons e es ih => rw [prettyAll, ih, List.mapM_cons]

end

theorem isBare_of_isMark (h : c.isDigit ∨ c ∈ ['.', 'e', '-', '+']) : isBare c := by
  obtain h | h := h
  · have hblank : Text.isBlank c = false :=
      Text.isBlank_of_isAlphanum (by simp [Char.isAlphanum, h])
    have hne : ∀ d : Char, d.isDigit = false → c ≠ d := by
      rintro d hd rfl
      simp [h] at hd
    simp [isBare, hblank, hne '(' (by decide), hne ')' (by decide), hne '"' (by decide)]
  · have hmarks : ['.', 'e', '-', '+'].all isBare := by decide
    exact List.all_eq_true.1 hmarks c h

theorem isBare_of_mem_sign {negative : Bool} (h : c ∈ Numeral.sign negative) : isBare c := by
  rw [Numeral.eq_of_mem_sign h]
  decide

theorem isWord_toString (n : Int) : IsWord (toString n) where
  ne_nil := by
    rw [toList_toString_int]
    exact List.append_ne_nil_of_right_ne_nil _ (decimalDigits_ne_nil n)
  bare := by
    rw [Numeral.toList_toString_eq_sign, List.forall_mem_append]
    exact ⟨fun c => isBare_of_mem_sign,
      fun c hc => isBare_of_isMark (.inl (isDigit_of_mem_decimalDigits hc))⟩

theorem isWord_finite (negative : Bool) (rank : Fin Double.rankCount) :
    IsWord (Double.finite negative rank).text := by
  obtain ⟨q, -, hspelled⟩ := Double.spelled_magnitudeChars rank
  obtain ⟨ds, rest, hm, hne, -⟩ := hspelled.exists_digits
  constructor
  · simp [Numeral.toList_text, hm, hne]
  · rw [Numeral.toList_text, List.forall_mem_append]
    exact ⟨fun c => isBare_of_mem_sign, fun c hc => isBare_of_isMark (hspelled.isMark hc)⟩

theorem isWord_text (d : Double) : IsWord d.text := by
  cases d with
  | finite negative rank => exact isWord_finite negative rank
  | infinite negative => cases negative <;> exact .of_all (by decide) (by decide)
  | nan => exact .of_all (by decide) (by decide)

theorem isWord_of_decimalText {n : Int} {t : String} (h : decimalText n = .ok t) : IsWord t := by
  rw [decimalText] at h
  generalize Nat.pow 10 Numeral.digitLimit = limit at h
  split at h
  · cases h
    exact isWord_toString n
  · cases h

inductive Written : String → List Word → Prop
  | empty : Written "()" [.opening, .closing]
  | text : IsQuoted t → Written t [.text t]
  | bare : IsWord s → Written s [.bare s]

theorem Written.reads {t : String} (h : Written t ws) : Reads t.toList ws := by
  cases h with
  | empty => exact Reads.nil.parens
  | text h => exact h.reads
  | bare h => exact h.reads

theorem alike_of_isWord {x : Except Fault String} (h : ∀ t, x = .ok t → IsWord t) :
    Alike Written x (do return [.bare (← x)]) := by
  cases x with
  | ok t => exact .ok (.bare (h t rfl))
  | error e => exact .error

variable {w : Writer}

theorem prettyAtom_alike (hw : w.Lawful) (v : Value) :
    Alike Written (prettyAtom w v) (atomWords w v) := by
  cases v with
  | null => exact .ok .empty
  | bool b => cases b <;> exact .ok (.bare (.of_all (by decide) (by decide)))
  | int n =>
    simp only [prettyAtom, atomWords, Value.listing]
    exact alike_of_isWord fun t => isWord_of_decimalText
  | real d => exact .ok (.bare (isWord_text d))
  | text s =>
    obtain ⟨t, ht, hquoted⟩ := hw.text s
    rw [prettyAtom, atomWords, ht]
    exact .ok (.text hquoted)

theorem Writer.Lawful.atom_eq (hw : w.Lawful) {v : Value} (h : v.isPlain) :
    w (.atom v) = prettyAtom w v := by
  cases v with
  | int n => exact hw.int n
  | real d => exact hw.real d
  | text s => rfl
  | null | bool => cases h

inductive Built (A : Value → Prop) (S : String → Prop) : SExpr → Prop
  | atom : A v → Built A S (.atom v)
  | symbol : S s → Built A S (.symbol s)
  | list : (∀ e ∈ es, Built A S e) → Built A S (.list es)

theorem Built.mono {A A' : Value → Prop} {S S' : String → Prop} {e : SExpr} (h : Built A S e)
    (hA : ∀ v, A v → A' v) (hS : ∀ s, S s → S' s) : Built A' S' e := by
  induction h with
  | atom h => exact .atom (hA _ h)
  | symbol h => exact .symbol (hS _ h)
  | list _ ih => exact .list ih

/-- A relation between texts and words that the texts of atoms and symbols are in, and with its
parts every list, holds of all that is printed. -/
theorem pretty_alike_of {R : String → List Word → Prop} {l : Layout} (hw : w.Lawful)
    (hwritten : ∀ t ws, Written t ws → R t ws)
    (harrange : ∀ level ts wss, List.Forall₂ R ts wss →
      R (l.arrange level ts) (.opening :: wss.flatten ++ [.closing]))
    {e : SExpr} (h : Built (fun _ => True) IsWord e) (level : Int) :
    Alike R (e.pretty w l level) (e.words w) := by
  induction h generalizing level with
  | @atom v _ =>
    rw [pretty, words]
    exact (prettyAtom_alike hw v).mono hwritten
  | symbol h => exact .ok (hwritten _ _ (.bare h))
  | list _ ih =>
    rw [pretty, words, prettyAll_eq_mapM, wordsAll_eq_mapM]
    exact (Alike.mapM fun e he => ih e he (level + 1)).bind fun ts wss h =>
      .ok (harrange level ts wss h)

theorem pretty_alike {l : Layout} (hw : w.Lawful) (hl : l.IsBlank) {e : SExpr}
    (h : Built (fun _ => True) IsWord e) (level : Int) :
    Alike (fun t ws => Reads t.toList ws) (e.pretty w l level) (e.words w) :=
  pretty_alike_of hw (fun _ _ => Written.reads) (fun _ _ _ => reads_arrange hl _) h level

theorem Writer.Lawful.write_alike (hw : w.Lawful) {e : SExpr}
    (h : Built (fun v => v.isPlain) (fun s => IsWord s ∧ w (.symbol s) = .ok s) e) :
    Alike (fun t ws => Reads t.toList ws) (w e) (e.words w) := by
  induction h with
  | @atom v h =>
    rw [words, hw.atom_eq h]
    exact (prettyAtom_alike hw v).mono fun _ _ => Written.reads
  | symbol h =>
    rw [h.2]
    exact .ok h.1.reads
  | list _ ih =>
    rw [hw.list, words, wordsAll_eq_mapM]
    exact (Alike.mapM ih).bind fun ts wss h => .ok (reads_parenthesize h)

end SExpr

end StructLang
