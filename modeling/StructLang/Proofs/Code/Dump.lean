import StructLang.Code.Dump
import StructLang.Proofs.Code.Rendering
import StructLang.Proofs.Place
import StructLang.Proofs.SExpr.Compact

namespace StructLang

namespace SExpr

def keywords : List String :=
  ["type", "array-type", "union-type", "alias", "literal", "variable", "binary-op", "call",
    "member", "param", "expression-statement", "return", "type-alias", "function-decl", "params",
    "body", "program", "nil", ":builtin", "true"]

theorem isSymbol_of_mem {s : String}
    (h : s ∈ keywords ++ Ty.primitives ++ Operator.all.map Operator.symbol) : IsSymbol s := by
  have hall : (keywords ++ Ty.primitives ++ Operator.all.map Operator.symbol).all fun s =>
      s.toList != [] && s.toList.all isBare && s.toList.all isPlain && !beginsNumber s := by
    decide +kernel
  have hs := List.all_eq_true.1 hall s h
  simp only [Bool.and_eq_true, bne_iff_ne, Bool.not_eq_true'] at hs
  obtain ⟨⟨⟨hne, hbare⟩, hplain⟩, hnumber⟩ := hs
  exact ⟨.of_all hne hbare, hplain, hnumber⟩

theorem isSymbol_keyword {s : String} (h : s ∈ keywords) : IsSymbol s :=
  isSymbol_of_mem (List.mem_append_left _ (List.mem_append_left _ h))

theorem isSymbol_primitive {s : String} (h : s ∈ Ty.primitives) : IsSymbol s :=
  isSymbol_of_mem (List.mem_append_left _ (List.mem_append_right _ h))

theorem isSymbol_operator (op : Operator) : IsSymbol op.symbol :=
  isSymbol_of_mem (List.mem_append_right _ (List.mem_map_of_mem (by cases op <;> decide)))

end SExpr

open SExpr

namespace Ty

mutual

def ofDump? : SExpr → Option Ty
  | .list [.symbol "type", .symbol name] => some (.prim name)
  | .list [.symbol "array-type", e] => do return .array (← ofDump? e)
  | .list (.symbol "union-type" :: es) => do return .union (← ofDumpAll? es)
  | .list [.symbol "alias", .atom (.text name)] => some (.alias name)
  | _ => none

def ofDumpAll? : List SExpr → Option (List Ty)
  | [] => some []
  | e :: es => do return (← ofDump? e) :: (← ofDumpAll? es)

end

inductive IsBuilt : Ty → Prop
  | prim : n ∈ primitives → IsBuilt (.prim n)
  | array : IsBuilt t → IsBuilt (.array t)
  | union : (∀ t ∈ ts, IsBuilt t) → IsBuilt (.union ts)
  | named : IsBuilt (.alias n)

theorem dumpAll_eq_map (ts : List Ty) : dumpAll ts = ts.map dump := by
  induction ts with
  | nil => rfl
  | cons t ts ih => rw [dumpAll, ih, List.map_cons]

theorem IsBuilt.isPlain_dump {t : Ty} (h : t.IsBuilt) : t.dump.IsPlain := by
  induction h with
  | prim h =>
    exact isPlain_cons (isSymbol_keyword (by decide))
      (List.forall_mem_singleton.2 (.symbol (isSymbol_primitive h)))
  | array _ ih =>
    exact isPlain_cons (isSymbol_keyword (by decide)) (List.forall_mem_singleton.2 ih)
  | union _ ih =>
    rw [dump, dumpAll_eq_map]
    exact isPlain_cons (isSymbol_keyword (by decide)) (List.forall_mem_map.2 ih)
  | named =>
    exact isPlain_cons (isSymbol_keyword (by decide)) (List.forall_mem_singleton.2 (.atom rfl))

theorem ofDumpAll?_dumpAll {ts : List Ty} (h : ∀ t ∈ ts, ofDump? t.dump = some t) :
    ofDumpAll? (dumpAll ts) = some ts := by
  induction ts with
  | nil => rfl
  | cons t ts ih =>
    rw [List.forall_mem_cons] at h
    rw [dumpAll, ofDumpAll?, h.1, ih h.2]
    rfl

theorem IsBuilt.ofDump?_dump {t : Ty} (h : t.IsBuilt) : ofDump? t.dump = some t := by
  induction h with
  | prim | named => rfl
  | array _ ih =>
    rw [dump, ofDump?, ih]
    rfl
  | union _ ih =>
    rw [dump, ofDump?, ofDumpAll?_dumpAll ih]
    rfl

end Ty

namespace Code

def flag? : List SExpr → Option Bool
  | [] => some false
  | [.symbol ":builtin", .symbol "true"] => some true
  | _ => none

mutual

def ofDump? : SExpr → Option Code
  | .list [.symbol "literal", .atom v, .symbol t] => some (.literal v (.prim t) none)
  | .list [.symbol "variable", .atom (.text n)] => some (.name n none)
  | .list [.symbol "binary-op", .symbol op, l, r] => do
    return .binary (← Operator.ofSymbol? op) (← ofDump? l) (← ofDump? r) none
  | .list (.symbol "call" :: f :: .list xs :: flag) => do
    return .call (← ofDump? f) (← ofDumpAll? xs) (← flag? flag) none
  | .list [.symbol "member", o, .atom (.text p)] => do return .member (← ofDump? o) p none
  | .list [.symbol "param", .atom (.text n), t] => do return .param n (← Ty.ofDump? t) none
  | .list [.symbol "expression-statement", e] => do return .expr (← ofDump? e) none
  | .list [.symbol "return", e] => do return .ret (← ofDump? e) none
  | .list [.symbol "type-alias", .atom (.text n), t] => do return .alias n (← Ty.ofDump? t) none
  | .list (.symbol "function-decl" :: .atom (.text n) :: .list (.symbol "params" :: ps) :: t ::
      .list (.symbol "body" :: ss) :: flag) => do
    return .define n (← ofDumpAll? ps) (← Ty.ofDump? t) (← ofDumpAll? ss) (← flag? flag) none
  | .list (.symbol "function-decl" :: .atom (.text n) :: .list (.symbol "params" :: ps) :: t ::
      flag) => do
    return .declare n (← ofDumpAll? ps) (← Ty.ofDump? t) (← flag? flag) none
  | .list (.symbol "program" :: .atom (.text file) :: ss) => do
    return .program (← ofDumpAll? ss) file none
  | .list [.symbol "nil"] => some .nothing
  | _ => none

def ofDumpAll? : List SExpr → Option (List Code)
  | [] => some []
  | e :: es => do return (← ofDump? e) :: (← ofDumpAll? es)

end

/-- The literals are finite numbers and texts and have such a type, and the other types are built
from primitives and names. -/
inductive IsPlain : Code → Prop
  | literal {v : Value} {t : Ty} {place : Option Span} :
    v.isReadable → t = .number ∨ t = .string → IsPlain (.literal v t place)
  | name : IsPlain (.name n place)
  | binary : IsPlain l → IsPlain r → IsPlain (.binary op l r place)
  | call : IsPlain f → (∀ x ∈ xs, IsPlain x) → IsPlain (.call f xs builtin place)
  | member : IsPlain o → IsPlain (.member o p place)
  | param : t.IsBuilt → IsPlain (.param n t place)
  | expr : IsPlain e → IsPlain (.expr e place)
  | ret : IsPlain e → IsPlain (.ret e place)
  | typeAlias : t.IsBuilt → IsPlain (.alias n t place)
  | declare : (∀ x ∈ ps, IsPlain x) → t.IsBuilt → IsPlain (.declare n ps t builtin place)
  | define : (∀ x ∈ ps, IsPlain x) → t.IsBuilt → (∀ s ∈ ss, IsPlain s) →
    IsPlain (.define n ps t ss builtin place)
  | program : (∀ s ∈ ss, IsPlain s) → IsPlain (.program ss file place)
  | unruled : IsPlain (.unruled place)
  | nothing : IsPlain .nothing

structure Recovers (c : Code) (e : SExpr) : Prop where
  plain : e.IsPlain
  read : ofDump? e = some c.unplaced

structure RecoversAll (cs : List Code) (es : List SExpr) : Prop where
  plain : ∀ e ∈ es, e.IsPlain
  read : ofDumpAll? es = some (unplacedAll cs)

theorem recoversAll_of_forall₂ {cs : List Code} {es : List SExpr}
    (h : List.Forall₂ Recovers cs es) : RecoversAll cs es := by
  induction h with
  | nil => exact ⟨by simp, rfl⟩
  | cons h _ ih =>
    refine ⟨List.forall_mem_cons.2 ⟨h.plain, ih.plain⟩, ?_⟩
    rw [ofDumpAll?, h.read, ih.read]
    rfl

theorem recovers_of_dumpAll {cs : List Code} {es : List SExpr}
    (h : ∀ c ∈ cs, ∀ e, c.dump false = .ok e → Recovers c e) (hes : dumpAll false cs = .ok es) :
    RecoversAll cs es := by
  rw [dumpAll_eq_mapM] at hes
  exact recoversAll_of_forall₂ (forall₂_mapM h hes)

@[simp] theorem dumpPlace_false (place : Option Span) : dumpPlace false place = [] := by
  cases place <;> rfl

theorem flag?_dumpFlag (builtin : Bool) : flag? (dumpFlag builtin) = some builtin := by
  cases builtin <;> rfl

theorem isPlain_dumpFlag (builtin : Bool) : ∀ e ∈ dumpFlag builtin, e.IsPlain := by
  cases builtin with
  | false => exact List.forall_mem_nil _
  | true =>
    exact List.forall_mem_cons.2 ⟨.symbol (isSymbol_keyword (by decide)),
      List.forall_mem_singleton.2 (.symbol (isSymbol_keyword (by decide)))⟩

theorem isPlain_dumpText (s : String) : (dumpText s).IsPlain := .atom rfl

theorem recovers_list {c : Code} {s : String} {es : List SExpr} (hs : s ∈ keywords)
    (hes : ∀ e ∈ es, e.IsPlain) (h : ofDump? (.list (.symbol s :: es)) = some c.unplaced) :
    Recovers c (.list (.symbol s :: es)) :=
  ⟨isPlain_cons (isSymbol_keyword hs) hes, h⟩

theorem recovers_call {f : Code} {f' : SExpr} {xs : List Code} {xs' : List SExpr}
    (hf : Recovers f f') (hxs : RecoversAll xs xs') (builtin : Bool) (place : Option Span) :
    Recovers (.call f xs builtin place)
      (.list (.symbol "call" :: f' :: .list xs' :: dumpFlag builtin)) := by
  refine recovers_list (by decide) ?_ ?_
  · have hargs : (SExpr.list xs').IsPlain := .list hxs.plain
    simpa [hf.plain, hargs] using isPlain_dumpFlag builtin
  · rw [ofDump?, hf.read, hxs.read, flag?_dumpFlag]
    rfl

theorem recovers_declare (n : String) {ps : List Code} {ps' : List SExpr} {t : Ty}
    (hps : RecoversAll ps ps') (ht : t.IsBuilt) (builtin : Bool) (place : Option Span) :
    Recovers (.declare n ps t builtin place) (.list (.symbol "function-decl" :: dumpText n ::
      .list (.symbol "params" :: ps') :: t.dump :: dumpFlag builtin)) := by
  refine recovers_list (by decide) ?_ ?_
  · have hparams := isPlain_cons (isSymbol_keyword (by decide : "params" ∈ keywords)) hps.plain
    simpa [isPlain_dumpText, hparams, ht.isPlain_dump] using isPlain_dumpFlag builtin
  · -- what follows the type is the flag, which is not taken for a body
    have hread : ofDump? (.list (.symbol "function-decl" :: dumpText n ::
        .list (.symbol "params" :: ps') :: t.dump :: dumpFlag builtin)) = do
        return .declare n (← ofDumpAll? ps') (← Ty.ofDump? t.dump)
          (← flag? (dumpFlag builtin)) none := by
      cases builtin <;> rfl
    rw [hread, hps.read, ht.ofDump?_dump, flag?_dumpFlag]
    rfl

theorem recovers_define (n : String) {ps ss : List Code} {ps' ss' : List SExpr} {t : Ty}
    (hps : RecoversAll ps ps') (ht : t.IsBuilt) (hss : RecoversAll ss ss') (builtin : Bool)
    (place : Option Span) :
    Recovers (.define n ps t ss builtin place) (.list (.symbol "function-decl" :: dumpText n ::
      .list (.symbol "params" :: ps') :: t.dump :: .list (.symbol "body" :: ss') ::
        dumpFlag builtin)) := by
  refine recovers_list (by decide) ?_ ?_
  · have hparams := isPlain_cons (isSymbol_keyword (by decide : "params" ∈ keywords)) hps.plain
    have hbody := isPlain_cons (isSymbol_keyword (by decide : "body" ∈ keywords)) hss.plain
    simpa [isPlain_dumpText, hparams, hbody, ht.isPlain_dump] using isPlain_dumpFlag builtin
  · rw [dumpText, ofDump?, hps.read, hss.read, ht.ofDump?_dump, flag?_dumpFlag]
    rfl

theorem IsPlain.recovers {c : Code} (h : c.IsPlain) {e : SExpr} (he : c.dump false = .ok e) :
    Recovers c e := by
  induction h generalizing e with
  | @literal v t place hv ht =>
    obtain ⟨n, hn, rfl⟩ : ∃ n ∈ Ty.primitives, t = Ty.prim n := by
      obtain rfl | rfl := ht
      · exact ⟨"number", by decide, rfl⟩
      · exact ⟨"string", by decide, rfl⟩
    simp only [dump, dumpPlace_false, List.append_nil] at he
    cases he
    refine recovers_list (by decide) (List.forall_mem_cons.2 ⟨.atom hv, ?_⟩) rfl
    exact List.forall_mem_singleton.2 (.symbol (isSymbol_primitive hn))
  | @name n place =>
    simp only [dump, dumpPlace_false, List.append_nil] at he
    cases he
    exact recovers_list (by decide) (List.forall_mem_singleton.2 (isPlain_dumpText n)) rfl
  | @binary l r op place _ _ ihl ihr =>
    simp only [dump, dumpPlace_false, List.append_nil] at he
    obtain ⟨l', hl, he⟩ := bind_eq_ok.1 he
    obtain ⟨r', hr, he⟩ := bind_eq_ok.1 he
    cases he
    have hleft := ihl hl
    have hright := ihr hr
    refine recovers_list (by decide) ?_ ?_
    · simp [isSymbol_operator, Built.symbol, hleft.plain, hright.plain]
    · rw [ofDump?, Operator.ofSymbol?_symbol, hleft.read, hright.read]
      rfl
  | @call f xs builtin place _ _ ihf ihxs =>
    simp only [dump, dumpPlace_false, List.append_nil, List.cons_append, List.nil_append] at he
    obtain ⟨f', hf, he⟩ := bind_eq_ok.1 he
    obtain ⟨xs', hxs, he⟩ := bind_eq_ok.1 he
    cases he
    have hcallee := ihf hf
    have hargs := recovers_of_dumpAll (fun x hx e => ihxs x hx) hxs
    exact recovers_call hcallee hargs builtin place
  | @member o property place _ ih =>
    simp only [dump, dumpPlace_false, List.append_nil] at he
    obtain ⟨o', ho, he⟩ := bind_eq_ok.1 he
    cases he
    have hobject := ih ho
    refine recovers_list (by decide) ?_ ?_
    · simp [hobject.plain, isPlain_dumpText]
    · rw [dumpText, ofDump?, hobject.read]
      rfl
  | @param t n place ht | @typeAlias t n place ht =>
    simp only [dump, dumpPlace_false, List.append_nil] at he
    cases he
    refine recovers_list (by decide) ?_ ?_
    · simp [ht.isPlain_dump, isPlain_dumpText]
    · rw [dumpText, ofDump?, ht.ofDump?_dump]
      rfl
  | @expr x place _ ih | @ret x place _ ih =>
    simp only [dump, dumpPlace_false, List.append_nil] at he
    obtain ⟨x', hx, he⟩ := bind_eq_ok.1 he
    cases he
    have hexpr := ih hx
    refine recovers_list (by decide) (List.forall_mem_singleton.2 hexpr.plain) ?_
    rw [ofDump?, hexpr.read]
    rfl
  | declare _ ht ihps =>
    simp only [dump, dumpPlace_false, List.append_nil, List.cons_append, List.nil_append] at he
    obtain ⟨ps', hps, he⟩ := bind_eq_ok.1 he
    cases he
    have hparams := recovers_of_dumpAll (fun x hx e => ihps x hx) hps
    exact recovers_declare _ hparams ht _ _
  | define _ ht _ ihps ihss =>
    simp only [dump, dumpPlace_false, List.append_nil, List.cons_append, List.nil_append] at he
    obtain ⟨ps', hps, he⟩ := bind_eq_ok.1 he
    obtain ⟨ss', hss, he⟩ := bind_eq_ok.1 he
    cases he
    have hparams := recovers_of_dumpAll (fun x hx e => ihps x hx) hps
    have hbody := recovers_of_dumpAll (fun s hs e => ihss s hs) hss
    exact recovers_define _ hparams ht hbody _ _
  | @program ss file place _ ih =>
    simp only [dump, dumpPlace_false, List.append_nil, List.cons_append, List.nil_append] at he
    obtain ⟨ss', hss, he⟩ := bind_eq_ok.1 he
    cases he
    have hbody := recovers_of_dumpAll (fun s hs e => ih s hs) hss
    refine recovers_list (by decide) ?_ ?_
    · exact List.forall_mem_cons.2 ⟨isPlain_dumpText file, hbody.plain⟩
    · rw [dumpText, ofDump?, hbody.read]
      rfl
  | unruled => cases he
  | nothing =>
    cases he
    exact recovers_list (by decide) (List.forall_mem_nil _) rfl

def readDump? (unquote : String → Option String) (text : String) : Option Code :=
  (read? unquote text).bind ofDump?

def HasDump (w : Writer) (c : Code) (text : String) : Prop :=
  c.prettyDump w false = .ok text ∨ c.compactDump w false = .ok text

theorem isBlank_layout : Layout.IsBlank {} := by
  have hpad : "  ".toList.all Text.isBlank := by decide
  exact List.all_eq_true.1 hpad

section

variable {w : Writer} {unquote : String → Option String}

theorem IsPlain.readDump?_eq (hw : w.Lawful) (hread : w.ReadBy unquote) {c : Code} (h : c.IsPlain)
    {text : String} (ht : c.HasDump w text) : readDump? unquote text = some c.unplaced := by
  obtain ht | ht := ht
  · obtain ⟨e, he, ht⟩ := bind_eq_ok.1 ht
    have hrecovers := h.recovers he
    rw [readDump?, hrecovers.plain.read?_pretty hw hread isBlank_layout ht, Option.bind_some,
      hrecovers.read]
  · obtain ⟨e, he, ht⟩ := bind_eq_ok.1 ht
    have hrecovers := h.recovers he
    rw [readDump?, hrecovers.plain.read?_write hw hread ht, Option.bind_some, hrecovers.read]

theorem IsPlain.exists_dumps (hw : w.Lawful) {c : Code} (h : c.IsPlain) {e : SExpr}
    (he : c.dump false = .ok e) (hwritable : e.IsWritable) :
    (∃ t, c.prettyDump w false = .ok t) ∧ ∃ t, c.compactDump w false = .ok t := by
  have hplain := (h.recovers he).plain
  obtain ⟨ws, hws⟩ := hwritable.exists_words hw
  obtain ⟨p, hp, -⟩ := (hplain.pretty_alike hw isBlank_layout 0).exists_left hws
  obtain ⟨q, hq, -⟩ := (hplain.write_alike hw).exists_left hws
  exact ⟨⟨p, bind_eq_ok.2 ⟨e, he, hp⟩⟩, q, bind_eq_ok.2 ⟨e, he, hq⟩⟩

end

/-- Code with the same dump in either form is the same but for its places: it can be read from the
text, however texts are quoted as long as they can be read back. The dumps exist unless an integer
is too long to be written. -/
theorem dump_unambiguous {w : Writer} (hw : w.Lawful) {unquote : String → Option String}
    (hread : w.ReadBy unquote) {a b : Code} (ha : a.IsPlain) (hb : b.IsPlain) :
    (∀ t, a.HasDump w t → readDump? unquote t = some a.unplaced) ∧
    (∀ t, a.HasDump w t → b.HasDump w t → a.unplaced = b.unplaced) ∧
    ∀ e, a.dump false = .ok e → e.IsWritable →
      (∃ t, a.prettyDump w false = .ok t) ∧ ∃ t, a.compactDump w false = .ok t := by
  refine ⟨fun t => ha.readDump?_eq hw hread, fun t hat hbt => ?_, fun e => ha.exists_dumps hw⟩
  have heq := ha.readDump?_eq hw hread hat
  rw [hb.readDump?_eq hw hread hbt] at heq
  exact (Option.some.inj heq).symm

namespace Quoted

def code (place : Option Span) : Code :=
  .call (.name "f" place)
    [.literal (.text "\"") .string place, .literal (.real (.zero true)) .number place] false place

def text : String := "(call (variable \"f\") ((literal \"\\\"\" string) (literal -0.0 number)))"

theorem isPlain_code (place : Option Span) : (code place).IsPlain :=
  .call .name (List.forall_mem_cons.2
    ⟨.literal rfl (.inr rfl), List.forall_mem_singleton.2 (.literal rfl (.inl rfl))⟩)

end Quoted

open Quoted in
theorem dump_unambiguous_quoted :
    Writer.Lawful compact ∧ Writer.ReadBy compact unquote ∧ (code none).HasDump compact text ∧
      (code (MainFile.place 1 9)).HasDump compact text ∧ readDump? unquote text = some (code none) ∧
      (code none).unplaced = (code (MainFile.place 1 9)).unplaced := by
  have hpretty : (code none).HasDump compact text := .inl (toOption_eq_some.1 (by decide +kernel))
  have hcompact : (code (MainFile.place 1 9)).HasDump compact text :=
    .inr (toOption_eq_some.1 (by decide +kernel))
  obtain ⟨hread, hunique, -⟩ :=
    dump_unambiguous compact_lawful compact_readBy (isPlain_code none)
      (isPlain_code (MainFile.place 1 9))
  exact ⟨compact_lawful, compact_readBy, hpretty, hcompact, hread text hpretty,
    hunique text hpretty hcompact⟩

end Code

end StructLang
