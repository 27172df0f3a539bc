import StructLang.Proofs.Typing.Collecting

namespace StructLang

namespace Grammar

open Parse

theorem statements_append {file : String} {us : List Token} {q : Tree}
    (hus : ∀ t ∈ us, t.kind ≠ .eof) (h : Tree.parse file us = .ok q) (fr : Frame) :
    ∃ ss, ∀ rest, statements fr (us ++ rest) = (ss ++ ·) <$> statements fr rest := by
  obtain ⟨ss, hprogram⟩ := (Tree.exists_parse_iff hus).1 ⟨q, h⟩
  obtain ⟨ss', _, hread⟩ := hprogram.complete fr
  exact ⟨ss', hread⟩

theorem Header.refused {n : String} (hn : Library.reserved n) {x brace : Token} {hs : List Token}
    {ps : List Tree} {ty : Ty} (h : Header (x :: hs) n ps ty) (hbrace : brace.isSymbol "\x7b")
    (fr : Frame) (rest : List Token) :
    statements fr (x :: hs ++ brace :: rest) = .error ⟨.reservedName n none, fr.place x⟩ := by
  obtain ⟨x', us, ps', heq, hx, rfl, -, hread⟩ := h.complete fr
  cases heq
  have hend := hread (brace :: rest)
  rw [declarationEnd, if_pos (nextIs_cons hbrace rest), if_pos hn] at hend
  rw [List.cons_append, statements, if_neg (Token.ne_eof_of_isName hx), if_pos hx]
  cases htop : topStatement fr x (hs ++ brace :: rest) with
  | error e =>
    rw [htop] at hend
    cases hend
    rfl
  | ok p =>
    rw [htop] at hend
    cases hend

end Grammar

theorem Typing.not_passes_define {sc : Scope} {n : String} (hn : Library.reserved n)
    (params : List Tree) (result : Ty) (body : List Tree) (place : Option Span) :
    ¬Passes sc (.define n params result body place) := by
  rintro ⟨r, h⟩
  rw [visit] at h
  obtain ⟨_, _, h⟩ := bind_eq_ok.1 h
  obtain ⟨_, _, h⟩ := bind_eq_ok.1 h
  rw [if_pos hn] at h
  cases h

/-- A reserved name with a body is refused. After any statements, the parser points to the name when
it comes to the brace, and nothing behind the brace matters; a program with such a function among
its statements never passes the check. -/
theorem reserved_body_refused {n : String} (hn : Library.reserved n) :
    (∀ file us q x hs ps ty brace rest, (∀ t ∈ us, t.kind ≠ .eof) → Tree.parse file us = .ok q →
      Grammar.Header (x :: hs) n ps ty → brace.isSymbol "\x7b" →
      Tree.parse file (us ++ (x :: hs ++ brace :: rest)) =
        .error ⟨.reservedName n none, some (x.span file)⟩) ∧
    ∀ (st : Typing.State) ss params result body place file place',
      .define n params result body place ∈ ss →
        (st.check (.program ss file place')).2 ≠ .ok () := by
  constructor
  · intro file us q x hs ps ty brace rest hus hq hhead hbrace
    obtain ⟨ss, hread⟩ := Grammar.statements_append hus hq
      ⟨file, Parse.endToken (us ++ (x :: hs ++ brace :: rest))⟩
    rw [Tree.parse, hread, hhead.refused hn hbrace]
    rfl
  · intro st ss params result body place file place' hmem hcheck
    rw [Typing.State.check_passes_iff, Typing.passes_program_iff rfl] at hcheck
    exact Typing.not_passes_define hn params result body place (hcheck.2.2 _ hmem)

namespace Unclosed

def word (kind : TokenKind) (text : String) (column : Int) : Token := ⟨kind, text, 1, column⟩

def before : List Token := [word .identifier "f" 1, word .symbol "(" 2, word .number "1" 3,
  word .symbol ")" 4, word .symbol ";" 5, word .symbol ";" 6]

def header : List Token := [word .keyword "abs" 8, word .symbol "(" 11, word .identifier "a" 12,
  word .symbol ":" 13, word .type "number" 15, word .symbol ")" 21, word .returnType "number" 24]

def after : List Token := [word .symbol ")" 33, word .keyword "return" 35]

theorem parse_before : ∃ q, Tree.parse "main.struct" before = .ok q := by
  have hcall : Grammar.TopStatement [word .identifier "f" 1, word .symbol "(" 2,
      word .number "1" 3, word .symbol ")" 4, word .symbol ";" 5] _ :=
    .call rfl rfl (.one (.operand (.primary (.number (t := word .number "1" 3) rfl)))) rfl .none rfl
  have hprogram : Grammar.Program before _ :=
    .cons hcall (.semicolon (s := word .symbol ";" 6) rfl .nil)
  obtain ⟨q, hq, -⟩ := (@Tree.parse_eq_ok_iff "main.struct" before _).2 hprogram
  exact ⟨q, hq⟩

theorem header_abs :
    Grammar.Header header "abs" [.param "a" (.ofLiteral "number") none] (.ofText "number") := by
  have hparams : Grammar.Parameters [word .identifier "a" 12, word .symbol ":" 13,
      word .type "number" 15] [.param "a" (.ofLiteral "number") none] :=
    .some (.one (.mk rfl rfl (.literal rfl)))
  exact .mk rfl rfl hparams rfl rfl

end Unclosed

open Unclosed in
theorem reserved_body_refused_unclosed :
    Tree.parse "main.struct" (before ++ (header ++ word .symbol "\x7b" 31 :: after)) =
      .error ⟨.reservedName "abs" none, some ⟨"main.struct", 1, 8, 1, 11⟩⟩ ∧
    (({} : Typing.State).check (.program [.define "abs" [] .number [] none] "" none)).2 ≠
      .ok () := by
  obtain ⟨hparse, hcheck⟩ := reserved_body_refused (n := "abs") (by decide)
  obtain ⟨q, hq⟩ := parse_before
  have hrefused := hparse _ _ q _ _ _ _ (word .symbol "\x7b" 31) after (by decide) hq header_abs
    (by decide)
  exact ⟨hrefused, hcheck {} _ [] .number [] none "" none List.mem_cons_self⟩

end StructLang
