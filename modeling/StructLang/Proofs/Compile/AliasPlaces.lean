import StructLang.Proofs.Compile.Pointing
import StructLang.Proofs.Token.Spans
import StructLang.Proofs.Tree.ParseSound

/-!
Where an alias that does not resolve is refused. The definition that counts is the last one of the
name, and the place is that of the first. The statements of a program stand at different places, so
the two differ whenever the name is declared again.
-/

namespace StructLang

namespace Parse

variable {fr : Frame} {t : Token} {ts : List Token}

theorem topStatement_loc {p : Parsed Tree (t :: ts)} (h : topStatement fr t ts = .ok p) :
    p.value.loc = fr.place t := by
  rw [topStatement] at h
  split at h
  · rw [aliasStatement] at h
    obtain ⟨x, hx, h⟩ := bind_eq_ok.1 h
    obtain ⟨_, _, h⟩ := bind_eq_ok.1 h
    obtain ⟨_, _, h⟩ := bind_eq_ok.1 h
    obtain ⟨_, _, h⟩ := bind_eq_ok.1 h
    cases h
    exact congrArg fr.place (List.cons.inj (ofKind_sound hx).1).1.symm
  · split at h
    · split at h
      · rw [functionStatement] at h
        obtain ⟨x, hx, h⟩ := bind_eq_ok.1 h
        have hplace : fr.place x.value = fr.place t :=
          congrArg fr.place (List.cons.inj (nameToken_sound hx).1).1.symm
        obtain ⟨_, _, h⟩ := bind_eq_ok.1 h
        obtain ⟨_, _, h⟩ := bind_eq_ok.1 h
        obtain ⟨_, _, h⟩ := bind_eq_ok.1 h
        obtain ⟨_, _, h⟩ := bind_eq_ok.1 h
        dsimp only at h
        split at h
        · split at h
          · cases h
          · obtain ⟨_, _, h⟩ := bind_eq_ok.1 h
            obtain ⟨_, _, h⟩ := bind_eq_ok.1 h
            cases h
            exact hplace
        · obtain ⟨_, _, h⟩ := bind_eq_ok.1 h
          cases h
          exact hplace
      · rw [callStatement] at h
        obtain ⟨x, hx, h⟩ := bind_eq_ok.1 h
        obtain ⟨_, _, h⟩ := bind_eq_ok.1 h
        obtain ⟨_, _, h⟩ := bind_eq_ok.1 h
        obtain ⟨_, _, h⟩ := bind_eq_ok.1 h
        obtain ⟨_, _, h⟩ := bind_eq_ok.1 h
        obtain ⟨_, _, h⟩ := bind_eq_ok.1 h
        cases h
        exact congrArg fr.place (List.cons.inj (nameToken_sound hx).1).1.symm
    · cases h

theorem statements_locs {ts : List Token} {ss : List Tree} (h : statements fr ts = .ok ss) :
    (ss.map Tree.loc).Sublist (ts.map fr.place) := by
  match ts with
  | [] =>
    rw [statements] at h
    cases h
    exact .slnil
  | t :: rest =>
    rw [statements] at h
    split_ifs at h
    · cases h
      exact List.nil_sublist _
    · obtain ⟨p, hp, h⟩ := bind_eq_ok.1 h
      obtain ⟨ss, hss, h⟩ := bind_eq_ok.1 h
      cases h
      obtain ⟨us, hus, -⟩ := topStatement_sound hp
      have hsuffix : p.rest <:+ t :: rest := ⟨us, hus.symm⟩
      have hrest : p.rest <:+ rest := by
        refine (List.suffix_cons_iff.1 hsuffix).resolve_left fun heq => ?_
        exact absurd (congrArg List.length heq) p.shorter.ne
      rw [List.map_cons, List.map_cons, topStatement_loc hp]
      exact ((statements_locs hss).trans (hrest.sublist.map fr.place)).cons_cons _
    · exact (statements_locs h).cons _
    · cases h
termination_by ts.length
decreasing_by
  · exact p.shorter
  · exact Nat.lt_succ_self _

end Parse

theorem Tree.parse_locs {file : String} {ts : List Token} {t : Tree} (h : parse file ts = .ok t) :
    (t.statements.map loc).Sublist ((ts.map (Token.span file)).map some) := by
  obtain ⟨ss, hss, h⟩ := bind_eq_ok.1 h
  cases h
  rw [List.map_map]
  exact Parse.statements_locs hss

theorem Job.Parses.nodup_locs {job : Job} {t : Tree} (h : job.Parses t) :
    (t.statements.map Tree.loc).Nodup := by
  obtain ⟨ts, hscan, hparse⟩ := h
  have hspans := (Token.nodup_spans_of_scan hscan).map (Option.some_injective _)
  exact hspans.sublist (Tree.parse_locs hparse)

namespace Typing

def programScope (t : Tree) : Scope := (({} : State).collect t.statements).1.scope

theorem isNative_programScope {t : Tree} {N : String → Prop} (ht : t.IsProgram N) :
    (programScope t).IsNative := by
  cases ht with
  | program hss => exact (State.isNative_empty.collect hss).1.scope

theorem check_of_resolveAliases {t : Tree} {N : String → Prop} (ht : t.IsProgram N) {f : Fault}
    (h : resolveAliases (programScope t) t.statements (programScope t).aliases = .error f) :
    (({} : State).check t).2 = .error f := by
  cases ht with
  | @program ss file place hss =>
    have hok := (State.isNative_empty.collect hss).2
    rw [programScope, Tree.statements] at h
    rw [State.check, Tree.statements]
    split
    · rename_i hcollect
      rw [hcollect] at hok
      cases hok
    · rename_i hcollect
      rw [hcollect] at h
      simp only [visit, h, error_bind]

def Causes (t : Tree) (place : Option Span) (a : AliasError) : Prop :=
  ∃ n d, .alias n d place ∈ t.statements ∧ (programScope t).aliases.resolve d = .error a

theorem causes_iff {t : Tree} {n : String} {d : Ty} {place : Option Span} {a : AliasError}
    (hlocs : (t.statements.map Tree.loc).Nodup) (h : .alias n d place ∈ t.statements) :
    Causes t place a ↔ (programScope t).aliases.resolve d = .error a := by
  refine ⟨?_, fun ha => ⟨n, d, h, ha⟩⟩
  rintro ⟨m, u, hmem, ha⟩
  have heq : Tree.alias m u place = .alias n d place :=
    List.inj_on_of_nodup_map hlocs hmem h rfl
  cases heq
  exact ha

/-- The first alias of the table that does not resolve is refused at the first declaration of its
name, though it is the last declaration that does not resolve. So there is a declaration at the
place that causes the failure just if the type of that first declaration fails in the same way. -/
theorem alias_refused_at_first {job : Job} {t : Tree} {f : Fault} (ht : job.Parses t)
    (h : resolveAliases (programScope t) t.statements (programScope t).aliases = .error f) :
    (({} : State).check t).2 = .error f ∧
      ∃ (Γ₁ : Aliases) (n : String) (d : Ty) (Γ₂ : Aliases) (a : AliasError) (d₀ : Ty) (l : Span)
        (place : Option Span),
        (programScope t).aliases = Γ₁ ++ (n, d) :: Γ₂ ∧
        (∀ e ∈ Γ₁, (programScope t).aliases.Resolves e.2) ∧
        (programScope t).aliases.resolve d = .error a ∧ (∀ kind, a ≠ .unsupported kind) ∧
        f = a.at (some l) ∧
        t.statements.find? (·.isAliasOf n) = some (.alias n d₀ (some l)) ∧
        t.statements.reverse.find? (·.isAliasOf n) = some (.alias n d place) ∧
        (Causes t (some l) a ↔ (programScope t).aliases.resolve d₀ = .error a) := by
  refine ⟨check_of_resolveAliases ht.isProgram h, ?_⟩
  obtain ⟨Γ₁, n, d, Γ₂, a, hΓ, hresolve, ha, rfl⟩ := resolveAliases_eq_error h
  have hmem : (n, d) ∈ (programScope t).aliases := by simp [hΓ]
  obtain ⟨_, hdeclared⟩ := State.mem_aliases hmem
  obtain ⟨d₀, hfirst⟩ := exists_first_alias hdeclared
  have hdefined := Table.get?_of_mem (State.nodup_names_aliases t.statements) hmem
  obtain ⟨place, hlast⟩ := State.exists_last_alias hdefined
  have hthere := List.mem_of_find?_eq_some hfirst
  obtain ⟨l, hl, -⟩ := ht.locates hthere
  have hplace : aliasPlace n t.statements = some l := hl
  rw [hplace] at hfirst hthere
  have hexplains := Aliases.resolve_yields (isNative_programScope ht.isProgram).aliases
    ((isNative_programScope ht.isProgram).aliases _ hmem) |>.of_error ha
  refine ⟨Γ₁, n, d, Γ₂, a, d₀, l, place, hΓ, hresolve, ha, ?_, by rw [hplace], hfirst, hlast,
    causes_iff ht.nodup_locs hthere⟩
  rintro kind rfl
  exact hexplains.elim

namespace Renewed

def source : String := "A = number; A = B;"

def tokens : List Token :=
  [⟨.identifier, "A", 1, 1⟩, ⟨.symbol, "=", 1, 3⟩, ⟨.type, "number", 1, 5⟩, ⟨.symbol, ";", 1, 11⟩,
    ⟨.identifier, "A", 1, 13⟩, ⟨.symbol, "=", 1, 15⟩, ⟨.identifier, "B", 1, 17⟩,
    ⟨.symbol, ";", 1, 18⟩, ⟨.eof, "", 1, 19⟩]

open MainFile (place)

def tree : Tree := .program
  [.alias "A" .number (place 1 1), .alias "A" (.alias "B") (place 13 1)]
  "main.struct" (place 1 1)

def failure : Fault := .refused ⟨.unknownAlias "B" none, place 1 1⟩

def job : Job := { source }

theorem parses_tree : job.Parses tree := by
  have hscan : Token.scan job.file job.source = .ok tokens := toOption_eq_some.1 (by decide +kernel)
  have hparse : Tree.parse job.file tokens = .ok tree := by cbv
  exact ⟨tokens, hscan, hparse⟩

theorem aliases_tree : (programScope tree).aliases = [("A", .alias "B")] := rfl

theorem resolve_B : (programScope tree).aliases.resolve (.alias "B") = .error (.unknown "B") := by
  simp [aliases_tree, Aliases.resolve, Aliases.resolveFrom, Table.get?]

theorem resolve_number : (programScope tree).aliases.resolve .number = .ok .number :=
  Aliases.resolveFrom_of_isClosed _ [] .number rfl

theorem resolveAliases_tree :
    resolveAliases (programScope tree) tree.statements (programScope tree).aliases =
      .error failure := by
  rw [aliases_tree, resolveAliases, Scope.resolve, resolve_B]
  rfl

end Renewed

open Renewed in
theorem alias_refused_at_first_renewed :
    job.Parses tree ∧ (({} : State).check tree).2 = .error failure ∧
      ∃ n d₀ l, failure = (AliasError.unknown "B").at (some l) ∧
        tree.statements.find? (·.isAliasOf n) = some (.alias n d₀ (some l)) ∧
        (Causes tree (some l) (.unknown "B") ↔
          (programScope tree).aliases.resolve d₀ = .error (.unknown "B")) := by
  obtain ⟨hcheck, _, n, _, _, a, d₀, l, _, _, _, _, _, hf, hfirst, _, hcauses⟩ :=
    alias_refused_at_first parses_tree resolveAliases_tree
  refine ⟨parses_tree, hcheck, n, d₀, l, ?_⟩
  cases a with
  | unknown name =>
    cases hf
    exact ⟨rfl, hfirst, hcauses⟩
  | cyclic chain => cases hf
  | unsupported kind => cases hf

open Renewed in
theorem alias_refused_elsewhere :
    ∃ (job : Job) (t : Tree) (l : Span), job.Parses t ∧
      resolveAliases (programScope t) t.statements (programScope t).aliases =
        .error ((AliasError.unknown "B").at (some l)) ∧
      (({} : State).check t).2 = .error ((AliasError.unknown "B").at (some l)) ∧
      ¬Causes t (some l) (.unknown "B") := by
  refine ⟨job, tree, MainFile.span 1 1, parses_tree, resolveAliases_tree,
    check_of_resolveAliases parses_tree.isProgram resolveAliases_tree, ?_⟩
  have hthere : .alias "A" .number (some (MainFile.span 1 1)) ∈ tree.statements :=
    List.mem_cons_self
  rw [causes_iff parses_tree.nodup_locs hthere, resolve_number]
  nofun

end Typing

end StructLang
