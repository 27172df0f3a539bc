import StructLang.Proofs.Compile.Pointing
import StructLang.Proofs.Token.Spans

namespace StructLang

namespace Token

variable {file source : String} {ts : List Token} {t : Token}

/-- The span of a token in its source. It holds the text up to the first line end in it. A
diagnostic of that place has a caret for each character of the token, from its column on, and above
them the part of the token that is in this line; so there are carets too many if the token goes
on. -/
structure Marked (t : Token) (file source : String) : Prop where
  excerpt : (t.span file).excerpt source.toList = Text.firstLine t.text.toList
  excerpt_iff : (t.span file).excerpt source.toList = t.text.toList ↔ '\n' ∉ t.text.toList
  string : '\n' ∈ t.text.toList → t.kind = .string
  carets : ∀ (files : Table String) (d : Diagnostic), files.get? file = some source →
    d.loc = some (t.span file) →
    ∃ (k m : Nat) (line : List Char), (Text.splitAt '\n' source.toList)[k]? = some line ∧
      t.line = k + 1 ∧ t.column = m + 1 ∧
      (t.span file).UnderlinedIn line t.text.length ((d.page files).render false) ∧
      (line.drop m).take t.text.length = Text.firstPiece '\n' t.text.toList ∧
      (m + t.text.length ≤ line.length ↔ '\n' ∉ t.text.toList)

theorem spanLength_span (hpos : 0 < t.text.length) (line : List Char) (start : Nat) :
    Diagnostic.spanLength (t.span file) line start = t.text.length := by
  have hafter : (t.span file).column < (t.span file).endColumn := by
    simp only [span]
    omega
  rw [Diagnostic.spanLength, if_pos ⟨hafter, .inr rfl⟩]
  simp only [span]
  omega

theorem StandsAt.marked {o : Nat} (h : StandsAt source.toList o t) (hpos : 0 < t.text.length)
    (hbreaks : t.Breaks) : t.Marked file source where
  excerpt := h.excerpt_span hpos
  excerpt_iff := by
    rw [h.excerpt_span hpos]
    by_cases hmem : '\n' ∈ t.text.toList
    · exact Text.firstLine_eq_self_iff (hbreaks hmem).2
    · refine Text.firstLine_eq_self_iff fun hlast => hmem ?_
      exact List.mem_of_getLast? hlast
  string hmem := (hbreaks hmem).1
  carets files d hfile hloc := by
    obtain ⟨k, m, line, hget, hline, hcolumn, habove, hfits⟩ := h.exists_line hpos
    have hunder := Diagnostic.underlinedIn_page hloc hfile hget hline (by simp [span]; omega)
    rw [spanLength_span hpos] at hunder
    exact ⟨k, m, line, hget, hline, hcolumn, hunder, habove, hfits⟩

theorem marked_of_scan (h : scan file source = .ok ts) (ht : t ∈ ts) (hkind : t.kind ≠ .eof) :
    t.Marked file source := by
  obtain ⟨ps, eof, rfl, -, hps, heof, -⟩ := (scan_standsAt file source).of_ok h
  obtain hmem | hmem := List.mem_append.1 ht
  · obtain ⟨p, hp, rfl⟩ := List.mem_map.1 hmem
    obtain ⟨hpos, hstands⟩ := hps p hp
    exact hstands.marked hpos (breaks_of_scan h _ ht)
  · cases List.mem_singleton.1 hmem
    exact absurd heof hkind

end Token

/-- Every place that parsing makes is the span of a token. It covers the text of the token, and the
carets of a diagnostic stand below characters of the token only, unless the token is a string that
goes over the end of a line. -/
theorem parse_spans_tokens {file source : String} {ts : List Token}
    (h : Token.scan file source = .ok ts) :
    (∀ t ∈ ts, t.kind ≠ .eof → t.Marked file source) ∧
      Yields (Tree.parse file ts) (Tree.Placed fun place => ∃ t ∈ ts, place = some (t.span file))
        fun f => ∃ t ∈ ts, f.loc = some (t.span file) := by
  obtain ⟨-, heof⟩ := (Token.scan_pointsInto file source).of_ok h
  exact ⟨fun t ht hkind => Token.marked_of_scan h ht hkind,
    Tree.parse_yields (fun t ht => ⟨t, ht, rfl⟩) heof⟩

namespace Torn

def source : String := "f \"a\nb\""

def text : Token := ⟨.string, "\"a\nb\"", 1, 3⟩

def tokens : List Token := [⟨.identifier, "f", 1, 1⟩, text, ⟨.eof, "", 2, 3⟩]

def failure : Failure :=
  ⟨.unexpected "'=' or '('" text.describe, some (text.span "main.struct")⟩

theorem scan_source : Token.scan "main.struct" source = .ok tokens :=
  toOption_eq_some.1 (by decide +kernel)

theorem parse_tokens : Tree.parse "main.struct" tokens = .error failure := by
  rw [Tree.parse, tokens, Parse.statements]
  rfl

end Torn

open Torn in
theorem parse_spans_tokens_torn :
    Token.scan "main.struct" source = .ok tokens ∧
      Tree.parse "main.struct" tokens = .error failure ∧
      (∃ t ∈ tokens, failure.loc = some (t.span "main.struct")) ∧
      (text.span "main.struct").excerpt source.toList = ['"', 'a', '\n'] ∧
      ∃ (m : Nat) (line : List Char), text.column = m + 1 ∧
        (text.span "main.struct").UnderlinedIn line 5
          (((Diagnostic.ofFailure failure).page [("main.struct", source)]).render false) ∧
        (line.drop m).take 5 = ['"', 'a'] ∧ ¬m + 5 ≤ line.length := by
  obtain ⟨hmarked, hparse⟩ := parse_spans_tokens scan_source
  have htext := hmarked text (by decide) (by decide)
  obtain ⟨_, m, line, _, _, hcolumn, hunder, habove, hfits⟩ :=
    htext.carets [("main.struct", source)] (.ofFailure failure) rfl rfl
  refine ⟨scan_source, parse_tokens, hparse.of_error parse_tokens, ?_, m, line, hcolumn, hunder,
    habove, ?_⟩
  · rw [htext.excerpt]
    rfl
  · exact fun hle => hfits.1 hle (by decide)

theorem span_short_of_string :
    ∃ (ts : List Token) (t : Token) (f : Failure),
      Token.scan "main.struct" Torn.source = .ok ts ∧ t ∈ ts ∧ t.kind ≠ .eof ∧
      Tree.parse "main.struct" ts = .error f ∧ f.loc = some (t.span "main.struct") ∧
      (t.span "main.struct").excerpt Torn.source.toList ≠ t.text.toList ∧
      (Diagnostic.sourceLine Torn.source 1).drop 2 = ['"', 'a'] ∧
      Diagnostic.spanLength (t.span "main.struct") (Diagnostic.sourceLine Torn.source 1) 2 = 5 :=
  ⟨_, Torn.text, _, Torn.scan_source, by decide, by decide, Torn.parse_tokens, rfl,
    by decide, by decide, by decide⟩

end StructLang
