import StructLang.Proofs.Tree.Descent

namespace StructLang

namespace Parse

variable {fr : Frame} {P : Option Span → Prop} {ts : List Token}

structure Frame.Holds (fr : Frame) (P : Option Span → Prop) (ts : List Token) : Prop where
  tokens : ∀ t ∈ ts, P (fr.place t)
  eof : P (fr.place fr.eof)

theorem keeps_holds : Keeps fr (fr.Holds P) P fun f => P f.loc where
  place h := h.tokens _ List.mem_cons_self
  advance h _ := ⟨fun u hu => h.tokens u (List.mem_cons_of_mem _ hu), h.eof⟩
  stop {ts} _ h := by
    cases ts with
    | nil => exact h.eof
    | cons t ts => exact h.tokens t List.mem_cons_self
  reserved h _ _ := h.tokens _ List.mem_cons_self

theorem endToken_mem {t : Token} (ht : t ∈ ts) (heof : t.kind = .eof) : endToken ts ∈ ts := by
  rw [endToken]
  cases hfind : ts.find? (·.kind == .eof) with
  | none =>
    have hnone := List.find?_eq_none.1 hfind t ht
    simp [heof] at hnone
  | some u => exact List.mem_of_find?_eq_some hfind

end Parse

theorem Tree.parse_yields {P : Option Span → Prop} {file : String} {ts : List Token}
    (hts : ∀ t ∈ ts, P (some (t.span file))) (heof : ∃ t ∈ ts, t.kind = .eof) :
    Yields (parse file ts) (Tree.Placed P) fun f => P f.loc := by
  obtain ⟨t, ht, heof⟩ := heof
  have hend := hts _ (Parse.endToken_mem ht heof)
  have hholds : Parse.Frame.Holds ⟨file, Parse.endToken ts⟩ P ts := ⟨hts, hend⟩
  refine (Parse.statements_yields Parse.keeps_holds hholds).bind fun ss hss =>
    .ok (placed_iff.2 ⟨?_, hss⟩)
  cases ts with
  | nil => exact hend
  | cons u us => exact hts u List.mem_cons_self

end StructLang
