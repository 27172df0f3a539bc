import StructLang.Proofs.Compile.Stopping
import StructLang.Proofs.Token.Lines
import StructLang.Proofs.Tree.Placing
import StructLang.Proofs.Typing.Collecting

namespace StructLang

/-- The text has a line of the source behind its number, and in the next row, behind a gutter of the
same width, the first caret below a column of that line. -/
def Span.ShownIn (l : Span) (line : List Char) (text : String) : Prop :=
  ∃ before gutter margin after : List Char,
    text.toList = before ++ '\n' :: ((toString l.line ++ " | ").toList ++ line) ++
      '\n' :: (gutter ++ margin ++ '^' :: after) ∧
    gutter.length = (toString l.line ++ " | ").length ∧ margin.length + 1 = l.column ∧
    '\n' ∉ line ∧ ∀ c ∈ gutter ++ margin, c ≠ '\n' ∧ c ≠ '^'

def Span.UnderlinedIn (l : Span) (line : List Char) (n : Nat) (text : String) : Prop :=
  ∃ before gutter margin after : List Char,
    text.toList = before ++ '\n' :: ((toString l.line ++ " | ").toList ++ line) ++
      '\n' :: (gutter ++ margin ++ List.replicate n '^' ++ after) ∧
    gutter.length = (toString l.line ++ " | ").length ∧ margin.length + 1 = l.column ∧
    '\n' ∉ line ∧ (∀ c ∈ gutter ++ margin, c ≠ '\n' ∧ c ≠ '^') ∧ '^' ∉ after.head?

theorem Span.UnderlinedIn.shownIn {l : Span} {line : List Char} {n : Nat} {text : String}
    (h : l.UnderlinedIn line n text) (hn : 0 < n) : l.ShownIn line text := by
  obtain ⟨before, gutter, margin, after, htext, hgutter, hmargin, hline, hblank, -⟩ := h
  obtain ⟨n, rfl⟩ := Nat.exists_eq_succ_of_ne_zero hn.ne'
  refine ⟨before, gutter, margin, List.replicate n '^' ++ after, ?_, hgutter, hmargin, hline,
    hblank⟩
  rw [htext, List.replicate_succ, List.append_assoc (gutter ++ margin), List.cons_append]

namespace Diagnostic

theorem spanLength_pos (l : Span) (line : List Char) (start : Nat) :
    0 < spanLength l line start := by
  rw [spanLength, guessSpan]
  split <;> omega

theorem sourceLine_eq {source : String} {k : Nat} {line : List Char}
    (h : (Text.splitAt '\n' source.toList)[k]? = some line) : sourceLine source (k + 1) = line := by
  have hk : ((k : Int) + 1 - 1).toNat = k := by omega
  rw [sourceLine, if_neg (by omega), hk, h]
  rfl

theorem exists_intercalate_cons (c : Char) (w : List Char) (ws : List (List Char)) :
    ∃ after, [c].intercalate (w :: ws) = w ++ after ∧ ∀ d ∈ after.head?, d = c := by
  cases ws with
  | nil => exact ⟨[], by simp⟩
  | cons v ws => exact ⟨c :: [c].intercalate (v :: ws), by simp⟩

def caretStart (l : Span) : Nat := (max l.column 1 - 1).toNat

def caretRow (d : Diagnostic) (l : Span) (line : List Char) : String :=
  blanks ((toString l.line).length + 1) ++ "| " ++ (blanks (caretStart l) ++
    String.ofList (List.replicate (spanLength l line (caretStart l)) '^') ++
      ((given d.label).map (" " ++ ·)).getD "")

theorem render_page {files : Table String} {d : Diagnostic} {l : Span} {source : String}
    (hloc : d.loc = some l) (hfile : files.get? l.file = some source) :
    ∃ head place rule rest, (d.page files).render false = "\n".intercalate
      (head :: place :: rule ::
        (toString l.line ++ " | " ++ String.ofList (sourceLine source l.line)) ::
        d.caretRow l (sourceLine source l.line) :: rest) := by
  refine ⟨"error" ++ ((given d.code).map fun c => "[" ++ c ++ "]").getD "" ++ (": " ++ d.message),
    blanks (toString l.line).length ++ "--> " ++ l.text,
    blanks ((toString l.line).length + 1) ++ "|",
    (d.remarks (toString l.line).length).map fun row => String.join (row.map (Piece.render false)),
    ?_⟩
  simp [page, headline, hloc, hfile, snippet, Page.render, Piece.render, String.join, caretRow,
    caretStart]

theorem exists_caretRow (d : Diagnostic) (l : Span) (line : List Char) :
    ∃ label, (d.caretRow l line).toList = List.replicate ((toString l.line).length + 1) ' ' ++
      ['|', ' '] ++ List.replicate (caretStart l) ' ' ++
        List.replicate (spanLength l line (caretStart l)) '^' ++ label ∧
      ∀ c ∈ label.head?, c = ' ' := by
  refine ⟨(((given d.label).map (" " ++ ·)).getD "").toList, by simp [caretRow, blanks], ?_⟩
  cases given d.label with
  | none => simp
  | some label => simp

theorem underlinedIn_page {files : Table String} {d : Diagnostic} {l : Span} {source : String}
    {k : Nat} {line : List Char} (hloc : d.loc = some l) (hfile : files.get? l.file = some source)
    (hget : (Text.splitAt '\n' source.toList)[k]? = some line) (hline : l.line = k + 1)
    (hcolumn : 1 ≤ l.column) :
    l.UnderlinedIn line (spanLength l line (caretStart l)) ((d.page files).render false) := by
  obtain ⟨head, place, rule, rest, hrender⟩ := render_page hloc hfile
  rw [hline, sourceLine_eq hget, ← hline] at hrender
  obtain ⟨below, hbelow, hnext⟩ :=
    exists_intercalate_cons '\n' (d.caretRow l line).toList (rest.map String.toList)
  obtain ⟨label, hrow, hlabel⟩ := exists_caretRow d l line
  refine ⟨head.toList ++ '\n' :: place.toList ++ '\n' :: rule.toList,
    List.replicate ((toString l.line).length + 1) ' ' ++ ['|', ' '],
    List.replicate (caretStart l) ' ', label ++ below, ?_, ?_, ?_,
    Text.notMem_of_mem_splitAt (List.mem_of_getElem? hget), ?_, ?_⟩
  · have hsep : "\n".toList = ['\n'] := rfl
    simp only [hrender, String.toList_intercalate, hsep, List.map_cons, List.intercalate_cons_cons]
    rw [hbelow, hrow]
    simp
  · simp only [List.length_append, List.length_replicate, String.length_append]
    rfl
  · rw [List.length_replicate, caretStart]
    omega
  · simp
  · rw [List.head?_append, Option.mem_def, Option.or_eq_some_iff]
    rintro (hcaret | ⟨-, hcaret⟩)
    · exact absurd (hlabel _ hcaret) (by decide)
    · exact absurd (hnext _ hcaret) (by decide)

theorem shownIn_page {files : Table String} {d : Diagnostic} {l : Span} {source : String}
    {k : Nat} {line : List Char} (hloc : d.loc = some l) (hfile : files.get? l.file = some source)
    (hget : (Text.splitAt '\n' source.toList)[k]? = some line) (hline : l.line = k + 1)
    (hcolumn : 1 ≤ l.column) : l.ShownIn line ((d.page files).render false) :=
  (underlinedIn_page hloc hfile hget hline hcolumn).shownIn (spanLength_pos ..)

end Diagnostic

namespace Job

variable {job : Job}

def Locates (job : Job) (place : Option Span) : Prop :=
  ∃ l, place = some l ∧ l.PointsInto job.file job.source.toList

theorem parse_locates {ts : List Token} (h : Token.scan job.file job.source = .ok ts) :
    Yields (Tree.parse job.file ts) (Tree.Placed job.Locates) fun f => job.Locates f.loc := by
  obtain ⟨hts, heof⟩ := (Token.scan_pointsInto job.file job.source).of_ok h
  exact Tree.parse_yields (fun t ht => ⟨_, rfl, hts t ht⟩) heof

theorem Parses.placed {t : Tree} (h : job.Parses t) : t.Placed job.Locates := by
  obtain ⟨ts, hscan, hparse⟩ := h
  exact (parse_locates hscan).of_ok hparse

theorem Parses.locates {t s : Tree} (h : job.Parses t) (hs : s ∈ t.statements) :
    job.Locates s.loc := by
  have hplaced := h.placed
  cases h.isProgram with
  | program _ => exact (Tree.placed_iff.1 ((Tree.placed_iff.1 hplaced).2 s hs)).1

theorem Fails.locates {f : Failure} (h : job.Fails f) : job.Locates f.loc := by
  cases h with
  | lex hscan => exact (Token.scan_pointsInto job.file job.source).of_error hscan
  | parse hscan hparse => exact (parse_locates hscan).of_error hparse
  | check ht hcheck =>
    have hyields := Typing.State.isNative_empty.check_yields ht.isProgram ht.placed fun e he => by
      obtain ⟨place, hmem⟩ := Typing.State.mem_aliases he
      obtain ⟨d₀, hfirst⟩ := Typing.exists_first_alias hmem
      exact ht.locates (List.mem_of_find?_eq_some hfirst)
    obtain ⟨g, hg, hloc⟩ := hyields.of_error hcheck
    cases hg
    exact hloc

end Job

/-- Every failure of a compilation points into the source: to a line of it, and to a column in that
line or right after it. The diagnostic shows that line with a caret below the column. -/
theorem compile_failure_points {job : Job} {last : Option Stage} {o : Outcome} {f : Failure}
    (h : compile job last = .ok o) (hf : o.failure = some f) :
    ∃ (l : Span) (k : Nat) (line : List Char), f.loc = some l ∧ l.file = job.file ∧
      (Text.splitAt '\n' job.source.toList)[k]? = some line ∧ l.line = k + 1 ∧
      1 ≤ l.column ∧ l.column ≤ line.length + 1 ∧
      o.reporter.errors = [.ofFailure f] ∧
      l.ShownIn line (o.reporter.render false (.ofFailure f)) := by
  obtain ⟨-, hready⟩ | hrefused := ((compile_settles job last).of_ok h).2
  · cases hready.failure.symm.trans hf
  · obtain ⟨f', hf', hreporter, hfails⟩ := hrefused.failure
    cases hf.symm.trans hf'
    obtain ⟨l, hloc, hpoints⟩ := hfails.locates
    obtain ⟨k, line, hget, hline, hpos, hle⟩ := hpoints.exists_line
    refine ⟨l, k, line, hloc, hpoints.file_eq, hget, hline, hpos, hle, ?_, ?_⟩
    · exact congrArg Reporter.errors hreporter
    · rw [hreporter]
      refine Diagnostic.shownIn_page hloc ?_ hget hline hpos
      simp [Job.reporter, Reporter.report, Table.get?, hpoints.file_eq]

theorem compile_failure_points_misused :
    ∃ o, compile Misused.sample = .ok o ∧ o.failure = some Misused.failure ∧
      (⟨"main.struct", 2, 3, 2, 4⟩ : Span).ShownIn "  f(1, 2);".toList
        (o.reporter.render false (.ofFailure Misused.failure)) := by
  obtain ⟨o, ho, hfailure⟩ := Misused.exists_runAll [.lower, .optimize, .emit]
  have hcompile : compile Misused.sample = .ok o := ho
  obtain ⟨l, k, line, hloc, _, hget, hline, _, _, _, hshown⟩ :=
    compile_failure_points hcompile hfailure
  cases hloc
  obtain rfl : k = 1 := by
    have hk : (2 : Int) = k + 1 := hline
    omega
  have hsecond : (Text.splitAt '\n' Misused.sample.source.toList)[1]? =
      some "  f(1, 2);".toList := by decide
  cases hsecond.symm.trans hget
  exact ⟨o, hcompile, hfailure, hshown⟩

end StructLang
