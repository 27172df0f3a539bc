import StructLang.Proofs.Compile.Stages
import StructLang.Proofs.Script.Lines
import StructLang.Proofs.Tree.Hygiene
import StructLang.Proofs.Tree.Naming

namespace StructLang

open Text Script

theorem Ty.IsWritten.isLine {t : Ty} (h : t.IsWritten) : IsLine t.text := by
  have hmember {m : Ty} (hm : m.IsMember) : IsLine m.text := by
    cases hm with
    | prim hp | array hp =>
      simp only [primitives, List.mem_cons, List.not_mem_nil, or_false] at hp
      obtain rfl | rfl | rfl | rfl | rfl := hp <;> decide
  obtain (hm | ⟨hm, hn, hms⟩) | halias := h
  · exact hmember hm
  · rw [text, texts_eq_map]
    refine isLine_intercalate (by decide) (List.forall_mem_map.2 fun o ho => hmember ?_)
    simp only [List.mem_cons] at ho
    obtain rfl | rfl | ho := ho
    · exact hm
    · exact hn
    · exact hms o ho
  · exact halias.name.isLine

namespace Tree

variable {N : String → Prop} {s : Tree} {c : Code}

theorem lowerAll_isLine {ts : List Tree} {cs : List Code} (h : lowerAll ts = .ok cs)
    (hts : ∀ t ∈ ts, ∀ d, t.lower = .ok d → d.IsLine) : ∀ c ∈ cs, c.IsLine := by
  rw [lowerAll_eq_mapM] at h
  intro c hc
  obtain ⟨t, ht, htc⟩ := exists_of_mem_forall₂ (forall₂_of_mapM h) hc
  exact hts t ht c htc

theorem IsExpr.isLine_of_lower (h : s.IsExpr N) (hnames : s.References (Token.IsName ·.toList))
    (hlower : s.lower = .ok c) : c.IsLine := by
  induction h generalizing c with
  | number _ =>
    obtain ⟨v, -, hlower⟩ := bind_eq_ok.1 hlower
    cases hlower
    exact (Code.isLine_iff_of_children_eq_nil rfl).2 (by simp [Code.ownWords])
  | string =>
    cases hlower
    exact (Code.isLine_iff_of_children_eq_nil rfl).2 (by simp [Code.ownWords])
  | name =>
    cases hlower
    have hname := (references_iff.1 hnames).1 _ rfl
    rw [Code.isLine_iff_of_children_eq_nil rfl]
    simpa [Code.ownWords] using hname.isLine
  | binary _ _ ihl ihr =>
    obtain ⟨l, hl, hlower⟩ := bind_eq_ok.1 hlower
    obtain ⟨r, hr, hlower⟩ := bind_eq_ok.1 hlower
    cases hlower
    rw [references_iff_children rfl, children, List.forall_mem_cons, List.forall_mem_singleton]
      at hnames
    exact Code.isLine_iff.2 ⟨by simp [Code.ownWords],
      List.forall_mem_cons.2 ⟨ihl hnames.1 hl, List.forall_mem_singleton.2 (ihr hnames.2 hr)⟩⟩
  | call _ _ ihf ihargs =>
    obtain ⟨f, hf, hlower⟩ := bind_eq_ok.1 hlower
    obtain ⟨cs, hcs, hlower⟩ := bind_eq_ok.1 hlower
    cases hlower
    rw [references_iff_children rfl, children, List.forall_mem_cons] at hnames
    refine Code.isLine_iff.2 ⟨by simp [Code.ownWords], List.forall_mem_cons.2 ⟨ihf hnames.1 hf, ?_⟩⟩
    exact lowerAll_isLine hcs fun a ha b hb => ihargs a ha (hnames.2 a ha) hb
  | member _ ih =>
    obtain ⟨o, ho, hlower⟩ := bind_eq_ok.1 hlower
    cases hlower
    rw [references_iff, children, List.forall_mem_singleton] at hnames
    refine Code.isLine_iff.2 ⟨?_, List.forall_mem_singleton.2 (ih hnames.2 ho)⟩
    simpa [Code.ownWords] using (hnames.1 _ rfl).isLine

theorem IsParam.isLine_of_lower (h : s.IsParam) (hbinds : s.Annotates Token.IsPlain Ty.IsWritten)
    (hlower : s.lower = .ok c) : c.IsLine := by
  cases h
  cases hlower
  have hname := (annotates_iff.1 hbinds).1.1 _ rfl
  rw [Code.isLine_iff_of_children_eq_nil rfl]
  simpa [Code.ownWords] using hname.name.isLine

theorem IsStatement.isLine_of_lower (h : s.IsStatement N)
    (hnames : s.References (Token.IsName ·.toList)) (hlower : s.lower = .ok c) : c.IsLine := by
  cases h with
  | ret he | expr he =>
    obtain ⟨e, hlowered, hlower⟩ := bind_eq_ok.1 hlower
    cases hlower
    rw [references_iff_children rfl, children, List.forall_mem_singleton] at hnames
    exact Code.isLine_iff.2 ⟨by simp [Code.ownWords],
      List.forall_mem_singleton.2 (he.isLine_of_lower hnames hlowered)⟩

theorem IsTopStatement.isLine_of_lower (h : s.IsTopStatement N)
    (hnames : s.References (Token.IsName ·.toList))
    (hbinds : s.Annotates Token.IsPlain Ty.IsWritten) (hlower : s.lower = .ok c) : c.IsLine := by
  obtain ⟨hreference, hnames⟩ := references_iff.1 hnames
  obtain ⟨⟨hbinding, htype⟩, hbinds⟩ := annotates_iff.1 hbinds
  match h with
  | .alias _ =>
    cases hlower
    have hname := hbinding _ rfl
    rw [Code.isLine_iff_of_children_eq_nil rfl]
    simpa [Code.ownWords] using ⟨hname.name.isLine, (htype _ rfl).isLine⟩
  | .declare hps _ =>
    obtain ⟨qs, hqs, hlower⟩ := bind_eq_ok.1 hlower
    cases hlower
    refine Code.isLine_iff.2 ⟨?_, lowerAll_isLine hqs fun p hp q hq => ?_⟩
    · simpa [Code.ownWords] using (hreference _ rfl).isLine
    · exact (hps p hp).isLine_of_lower (hbinds p hp) hq
  | .define hps _ hbody =>
    obtain ⟨qs, hqs, hlower⟩ := bind_eq_ok.1 hlower
    obtain ⟨ss, hss, hlower⟩ := bind_eq_ok.1 hlower
    cases hlower
    rw [children, List.forall_mem_append] at hnames hbinds
    refine Code.isLine_iff.2 ⟨?_, List.forall_mem_append.2
      ⟨lowerAll_isLine hqs fun p hp q hq => ?_, lowerAll_isLine hss fun b hb d hd => ?_⟩⟩
    · simpa [Code.ownWords] using (hreference _ rfl).isLine
    · exact (hps p hp).isLine_of_lower (hbinds.1 p hp) hq
    · exact (hbody b hb).isLine_of_lower (hnames.2 b hb) hd
  | .expr he _ =>
    obtain ⟨e, hlowered, hlower⟩ := bind_eq_ok.1 hlower
    cases hlower
    rw [children, List.forall_mem_singleton] at hnames
    exact Code.isLine_iff.2 ⟨by simp [Code.ownWords],
      List.forall_mem_singleton.2 (he.isLine_of_lower hnames hlowered)⟩

theorem IsProgram.isLine_of_lower (h : s.IsProgram N)
    (hnames : s.References (Token.IsName ·.toList))
    (hbinds : s.Annotates Token.IsPlain Ty.IsWritten) (hlower : s.lower = .ok c) : c.IsLine := by
  cases h with
  | program hss =>
    obtain ⟨cs, hcs, hlower⟩ := bind_eq_ok.1 hlower
    cases hlower
    rw [references_iff_children rfl] at hnames
    rw [annotates_iff_children rfl rfl] at hbinds
    refine Code.isLine_iff.2 ⟨by simp [Code.ownWords], lowerAll_isLine hcs fun s hs d hd => ?_⟩
    exact (hss s hs).isLine_of_lower (hnames s hs) (hbinds s hs) hd

def Calls (M : String → Prop) : Tree → Prop
  | .expr e _ _ => ∃ n ∈ e.called?, M n
  | _ => True

theorem calls_unplaced {M : String → Prop} {t : Tree} : t.unplaced.Calls M ↔ t.Calls M := by
  have hcallee (f : Tree) : f.unplaced.calleeName? = f.calleeName? := by cases f <;> rfl
  cases t with
  | expr e ascribed place =>
    cases e with
    | call f args place => simp [unplaced, Calls, called?, hcallee]
    | _ => rfl
  | _ => rfl

end Tree

namespace Grammar

variable {M : String → Prop} {ts : List Token}

theorem TopStatement.calls {s : Tree} (h : TopStatement ts s)
    (hM : ∀ t ∈ ts, t.isName → M t.text) : s.Calls M := by
  match h with
  | .alias .. | .declare .. | .define .. => trivial
  | .call hx _ _ _ _ _ => exact ⟨_, rfl, hM _ (by simp) hx⟩

theorem Program.calls {ss : List Tree} (h : Program ts ss) (hM : ∀ t ∈ ts, t.isName → M t.text) :
    ∀ s ∈ ss, s.Calls M := by
  induction h with
  | nil => simp
  | semicolon _ _ ih => exact ih fun t ht => hM t (by simp [ht])
  | cons h _ ih =>
    rw [List.forall_mem_cons]
    exact ⟨h.calls fun t ht => hM t (by simp [ht]), ih fun t ht => hM t (by simp [ht])⟩

end Grammar

theorem Tree.calls_of_scan {file source : String} {ts : List Token} {t : Tree}
    (hscan : Token.scan file source = .ok ts) (hparse : parse file ts = .ok t) :
    ∀ s ∈ t.statements, s.Calls (Token.IsName ·.toList) := by
  obtain ⟨ss, hss⟩ := exists_unplaced_of_parse hparse
  have hprogram := parse_eq_ok_iff.1 ⟨t, hparse, hss⟩
  have hcalls := hprogram.calls (M := (Token.IsName ·.toList)) fun u hu =>
    Token.isName_of_scan hscan u ((List.takeWhile_sublist _).subset hu)
  have hstatements : ss = t.statements.map unplaced := by
    rw [← statements_unplaced, hss]
    rfl
  intro s hs
  exact calls_unplaced.1 (hcalls s.unplaced (hstatements ▸ List.mem_map_of_mem hs))

namespace Code

def Calls (M : String → Prop) : Code → Prop
  | .expr (.call f _ _ _) _ => ∃ n ∈ f.calleeName?, M n
  | .expr _ _ => False
  | _ => True

variable {M : String → Prop} {c c' : Code}

theorem Folds.calls (h : Folds c c') (hc : c.Calls M) : c'.Calls M := by
  match h with
  | .expr he =>
    cases he with
    | libraryCall => exact hc
    | call hf _ =>
      rw [Calls] at hc ⊢
      rwa [hf.calleeName?_eq]
    | _ => exact hc.elim
  | .literal | .name | .sum .. | .binary .. | .libraryCall | .call .. | .member | .param | .ret _
  | .alias | .declare | .emptied | .define _ | .program _ => trivial

theorem Folds.forall_statements {P : Code → Prop} (hP : ∀ {c c'}, Folds c c' → P c → P c')
    (h : Folds c c') (hc : ∀ s ∈ c.statements, P s) : ∀ s ∈ c'.statements, P s := by
  cases h with
  | program hss =>
    rename_i ss ss' _ _
    have hall : ∀ {cs cs' : List Code}, FoldsAll cs cs' → (∀ c ∈ cs, P c) → ∀ c ∈ cs', P c := by
      intro cs cs' hcs
      induction cs generalizing cs' with
      | nil =>
        cases hcs
        simp
      | cons c cs ih =>
        cases hcs with
        | cons h hs =>
          simp only [List.forall_mem_cons]
          exact fun hc => ⟨hP h hc.1, ih hs hc.2⟩
    exact hall hss hc
  | _ => simp [statements]

/-- A call by name begins with the name, and so opens no function. -/
theorem Calls.openedName? {s : String} (h : c.Calls (Token.IsName ·.toList)) (hc : isStatement c)
    (hs : c.script = .ok s) : openedName? s = none := by
  cases c with
  | expr e _ =>
    cases e with
    | call f args _ _ =>
      obtain ⟨n, hn, hname⟩ := h
      cases f with
      | name _ _ =>
        cases hn
        rw [script] at hs
        obtain ⟨t, ht, hs⟩ := bind_eq_ok.1 hs
        rw [script] at ht
        obtain ⟨xs, _, ht⟩ := bind_eq_ok.1 ht
        cases ht
        cases hs
        have hopens := openedName?_call hname (", ".intercalate xs ++ ")" ++ ";")
        simpa [parens, level?, String.append_assoc] using hopens
      | _ => cases hn
    | _ => exact h.elim
  | _ => cases hc

end Code

theorem Tree.IsTopStatement.calls_of_lower {M N : String → Prop} {s : Tree} {c : Code}
    (h : s.IsTopStatement N) (hcalls : s.Calls M) (hlower : s.lower = .ok c) : c.Calls M := by
  match h with
  | .alias _ =>
    cases hlower
    trivial
  | .declare .. =>
    obtain ⟨qs, _, hlower⟩ := bind_eq_ok.1 hlower
    cases hlower
    trivial
  | .define .. =>
    obtain ⟨qs, _, hlower⟩ := bind_eq_ok.1 hlower
    obtain ⟨ss, _, hlower⟩ := bind_eq_ok.1 hlower
    cases hlower
    trivial
  | .expr he _ =>
    obtain ⟨e, hlowered, hlower⟩ := bind_eq_ok.1 hlower
    cases hlower
    obtain ⟨n, hn, hM⟩ := hcalls
    cases he with
    | @call f _ _ _ _ =>
      cases f with
      | name _ _ =>
        obtain ⟨f, hf, hlowered⟩ := bind_eq_ok.1 hlowered
        obtain ⟨cs, _, hlowered⟩ := bind_eq_ok.1 hlowered
        cases hf
        cases hlowered
        exact ⟨n, hn, hM⟩
      | _ => cases hn
    | _ => cases hn

namespace Script

open Code

theorem isLine_repr (n : Nat) : Text.IsLine n.repr := by
  rw [Text.IsLine, Nat.toList_repr]
  exact fun hmem => absurd (Double.isDigit_of_mem_toDigits hmem) (by decide)

theorem isLine_freeName {taken : List String} {name : String} (h : Text.IsLine name) :
    Text.IsLine (freeName taken name) := by
  have hpadded := padded_freeName taken name
  generalize freeName taken name = n at hpadded ⊢
  induction hpadded with
  | base => exact h
  | pad _ ih => simpa [ih] using (by decide : Text.IsLine "_")

namespace Function

variable {g : Function} {b : String}

theorem isLine_paramText (h : ∀ n ∈ g.names, Text.IsLine n) : Text.IsLine g.paramText := by
  refine isLine_intercalate (by decide) (List.forall_mem_append.2 ⟨fun n hn => ?_, ?_⟩)
  · exact h n (by simp [names, hn])
  · intro n hn
    obtain ⟨r, hr, rfl⟩ := Option.map_eq_some_iff.1 (Option.mem_toList.1 hn)
    simpa [h r (by simp [names, hr])] using (by decide : Text.IsLine "...")

theorem isLine_rows (hnames : ∀ n ∈ g.names, Text.IsLine n)
    (hbody : g.body = .forward b ∧ Text.IsLine b ∨
      ∃ ls, g.body = .lines ls ∧ ∀ l ∈ ls, Text.IsLine l) : ∀ r ∈ g.rows, Text.IsLine r := by
  have hname : Text.IsLine g.name := hnames _ (by simp [names])
  have hparams := isLine_paramText hnames
  have hlines : ∀ l ∈ g.bodyLines, Text.IsLine l := by
    obtain ⟨hbody, hb⟩ | ⟨ls, hbody, hls⟩ := hbody
    · rw [bodyLines, hbody, List.forall_mem_singleton]
      simpa [hname, hparams, hb, and_assoc] using
        (by decide : Text.IsLine "return " ∧ Text.IsLine "." ∧ Text.IsLine "(" ∧ Text.IsLine ");")
    · rwa [bodyLines, hbody]
  rw [rows, List.cons_append, List.forall_mem_cons, List.forall_mem_append, List.forall_mem_map,
    List.forall_mem_singleton]
  refine ⟨?_, fun l hl => ?_, by decide⟩
  · simpa [heading, hname, hparams, and_assoc] using
      (by decide : Text.IsLine "function " ∧ Text.IsLine "(" ∧ Text.IsLine ") \x7b")
  · simpa [hlines l hl] using (by decide : Text.IsLine "  ")

end Function

variable {b : String}

theorem isLine_of_mem_ownNames {f : Code} (hf : f.IsLine) : ∀ n ∈ ownNames f, Text.IsLine n := by
  intro n hn
  obtain ⟨p, hp, hpn⟩ := List.mem_filterMap.1 hn
  have hchild : p ∈ f.children := by
    cases f with
    | declare _ _ _ _ _ => exact hp
    | define _ _ _ _ _ _ => exact List.mem_append_left _ hp
    | _ => cases hp
  have hpwords := (isLine_iff.1 ((isLine_iff.1 hf).2 p hchild)).1
  cases p with
  | name _ _ | param _ _ _ | declare _ _ _ _ _ | define _ _ _ _ _ _ =>
    cases hpn
    exact hpwords n (by simp [ownWords])
  | _ => cases hpn

theorem isLine_of_mem_restName? (f : Code) : ∀ n ∈ (restName? f).toList, Text.IsLine n := by
  intro n hn
  rw [Option.mem_toList, restName?] at hn
  split at hn
  · cases hn
    exact isLine_freeName (by decide)
  · cases hn

theorem body_of_emitFunction {f : Code} {g : Function} (h : emitFunction b f = .ok g)
    (hf : f.IsLine) :
    g.body = .forward b ∨ ∃ ls, g.body = .lines ls ∧ ∀ l ∈ ls, Text.IsLine l := by
  cases f with
  | declare _ _ _ _ _ =>
    obtain ⟨_, _, h⟩ := bind_eq_ok.1 h
    cases h
    exact .inl rfl
  | define _ _ _ body _ _ =>
    have hchildren := (isLine_iff.1 hf).2
    obtain ⟨_, _, h⟩ := bind_eq_ok.1 h
    split at h
    · cases h
      exact .inl rfl
    · obtain ⟨ls, hls, h⟩ := bind_eq_ok.1 h
      cases h
      exact .inr ⟨ls, rfl,
        scripts_isLine (fun s hs => hchildren s (List.mem_append_right _ hs)) hls⟩
  | _ => cases h

theorem isLine_rows_of_emitFunction {f : Code} {g : Function} (h : emitFunction b f = .ok g)
    (hf : f.IsLine) (hb : Text.IsLine b) : ∀ r ∈ g.rows, Text.IsLine r := by
  have hname : Text.IsLine (functionName f) := by
    cases f with
    | declare n _ _ _ _ | define n _ _ _ _ _ => exact (isLine_iff.1 hf).1 n (by simp [ownWords])
    | _ => cases h
  refine Function.isLine_rows ?_ ((body_of_emitFunction h hf).imp_left (⟨·, hb⟩))
  rw [(declares_of_emitFunction h).names_eq, List.forall_mem_append, List.forall_mem_cons]
  exact ⟨⟨hname, isLine_of_mem_ownNames hf⟩, isLine_of_mem_restName? f⟩

theorem isLine_rows_of_emitStub {n : String} {g : Function} (h : emitStub b n = .ok g)
    (hb : Text.IsLine b) : ∀ r ∈ g.rows, Text.IsLine r := by
  have hstubs := stubs_of_emitStub h
  obtain ⟨s, hs, -⟩ := hstubs.signature
  refine Function.isLine_rows ?_ (.inl ⟨hstubs.body, hb⟩)
  rw [hstubs.names_eq, stubNames, hs, List.forall_mem_cons]
  refine ⟨isLine_of_reserved (Library.reserved_of_find? hs), fun p hp => ?_⟩
  split at hp
  · cases List.mem_singleton.1 hp
    decide
  · obtain ⟨i, _, rfl⟩ := List.mem_map.1 hp
    simpa [isLine_repr i] using (by decide : Text.IsLine (toString "arg"))

theorem isLine_runtimeText (path : Option String) : Text.IsLine (runtimeText path) := by
  cases path with
  | none => decide
  | some path =>
    refine isLine_of_forall (fun _ => Ascii.printable_of_mem_encode) fun hbreak => ?_
    exact absurd hbreak.1 (by decide)

theorem Module.isLine_rows {m : Module} (hbinding : Text.IsLine m.binding)
    (haliases : ∀ a ∈ m.aliases, Text.IsLine a)
    (hfunctions : ∀ f ∈ m.functions, ∀ r ∈ f.rows, Text.IsLine r)
    (hstatements : ∀ s ∈ m.statements, Text.IsLine s) : ∀ r ∈ m.rows, Text.IsLine r := by
  have hwrap (line : String) (hline : Text.IsLine line) :
      ∀ r ∈ if m.wrap then [line] else [], Text.IsLine r := by
    split <;> simp [hline]
  have hempty : Text.IsLine "" := by decide
  rw [rows]
  simp only [List.forall_mem_append, List.forall_mem_flatMap]
  refine ⟨⟨⟨⟨⟨hwrap _ (by decide), ?_⟩, ?_⟩, fun f hf => ⟨hfunctions f hf, ?_⟩⟩, ?_⟩,
    hwrap _ (by decide)⟩
  · rw [List.forall_mem_cons, List.forall_mem_singleton]
    refine ⟨?_, hempty⟩
    simpa [hbinding, isLine_runtimeText, and_assoc] using
      (by decide : Text.IsLine "const " ∧ Text.IsLine " = require(" ∧ Text.IsLine ");")
  · split
    · simp
    · exact List.forall_mem_append.2 ⟨haliases, List.forall_mem_singleton.2 hempty⟩
  · exact List.forall_mem_singleton.2 hempty
  · split
    · simp
    · exact List.forall_mem_cons.2 ⟨by decide, hstatements⟩

theorem isTidy_of_ofCode {o : Options} {program : Code} {called : List String} {m : Module}
    (h : ofCode o program called = .ok m) (hprogram : program.IsLine)
    (hcalls : ∀ s ∈ program.statements, s.Calls (Token.IsName ·.toList))
    (hbinding : Text.IsLine o.binding) (hnames : ∀ f ∈ m.functions, '(' ∉ f.name.toList) :
    m.IsTidy := by
  obtain ⟨binding, hbound, h⟩ := bind_eq_ok.1 h
  obtain ⟨declared, hdeclared, h⟩ := bind_eq_ok.1 h
  obtain ⟨stubs, hstubs, h⟩ := bind_eq_ok.1 h
  obtain ⟨aliases, haliases, h⟩ := bind_eq_ok.1 h
  obtain ⟨statements, hstatements, h⟩ := bind_eq_ok.1 h
  obtain ⟨taken, _, hbound⟩ := bind_eq_ok.1 hbound
  cases hbound
  cases h
  have hb : Text.IsLine (freeName taken o.binding) := isLine_freeName hbinding
  have hss : ∀ s ∈ program.statements, s.IsLine := by
    cases program with
    | program ss _ _ => exact (isLine_iff.1 hprogram).2
    | _ => simp [Code.statements]
  have hfunctions : ∀ f ∈ declared ++ stubs, ∀ r ∈ f.rows, Text.IsLine r := by
    refine List.forall_mem_append.2 ⟨fun g hg => ?_, fun g hg => ?_⟩
    · obtain ⟨f, hf, hfg⟩ := exists_of_mem_forall₂ (forall₂_of_mapM hdeclared) hg
      exact isLine_rows_of_emitFunction hfg (hss f (isFunction_of_mem_kept hf).1) hb
    · obtain ⟨n, _, hng⟩ := exists_of_mem_forall₂ (forall₂_of_mapM hstubs) hg
      exact isLine_rows_of_emitStub hng hb
  have hscripts {p : Code → Bool} {ts : List String}
      (hts : Code.scripts (program.statements.filter p) = .ok ts) : ∀ t ∈ ts, Text.IsLine t :=
    scripts_isLine (fun s hs => hss s (List.mem_filter.1 hs).1) hts
  have hsource {p : Code → Bool} {ts : List String} {t : String} (ht : t ∈ ts)
      (hts : Code.scripts (program.statements.filter p) = .ok ts) :
      ∃ s ∈ program.statements, p s ∧ s.script = .ok t := by
    rw [scripts_eq_mapM] at hts
    obtain ⟨s, hs, hst⟩ := exists_of_mem_forall₂ (forall₂_of_mapM hts) ht
    exact ⟨s, (List.mem_filter.1 hs).1, (List.mem_filter.1 hs).2, hst⟩
  refine ⟨?_, hnames, fun t ht => ?_, fun t ht => ?_⟩
  · exact Module.isLine_rows hb (hscripts haliases) hfunctions (hscripts hstatements)
  · obtain ⟨s, _, hs, hst⟩ := hsource ht haliases
    obtain ⟨n, type, place, rfl⟩ := exists_of_isAlias hs
    cases hst
    exact openedName?_eq_none (by simp)
  · obtain ⟨s, hmem, hs, hst⟩ := hsource ht hstatements
    exact (hcalls s hmem).openedName? hs hst

end Script

theorem Job.Parses.isTidy {job : Job} {t : Tree} {c c' : Code} {m : Module} (h : job.Parses t)
    (hlower : t.lower = .ok c) (hfolds : c.Folds c')
    (hm : ofCode job.options c' c'.calledBuiltins = .ok m)
    (hbinding : Text.IsLine job.options.binding)
    (hnames : ∀ f ∈ m.functions, Token.IsName f.name.toList) : m.IsTidy := by
  have hprogram := h.isProgram
  obtain ⟨ts, hscan, hparse⟩ := h
  have hbinds : t.Annotates Token.IsPlain Ty.IsWritten := by
    intro s hs
    obtain ⟨hbinding, htypes⟩ := Tree.annotates_of_scan hscan hparse s hs
    exact ⟨hbinding, fun type htype => (htypes type htype).1⟩
  have hline := hprogram.isLine_of_lower (Tree.references_of_scan hscan hparse) hbinds hlower
  have hcalls : ∀ s ∈ c.statements, s.Calls (Token.IsName ·.toList) := by
    have hsource := Tree.calls_of_scan hscan hparse
    cases hprogram with
    | program hss =>
      obtain ⟨cs, hcs, hlower⟩ := bind_eq_ok.1 hlower
      cases hlower
      rw [Tree.lowerAll_eq_mapM] at hcs
      intro d hd
      obtain ⟨s, hs, hsd⟩ := exists_of_mem_forall₂ (forall₂_of_mapM hcs) hd
      exact (hss s hs).calls_of_lower (hsource s hs) hsd
  refine isTidy_of_ofCode hm (hfolds.isLine hline) ?_ hbinding fun f hf hmem => ?_
  · exact hfolds.forall_statements Code.Folds.calls hcalls
  · exact absurd ((hnames f hf).isWord '(' hmem) (by decide)

end StructLang
