import StaticLiteral.Program.Report
import StaticLiteral.Proofs.Program.Correspondence
import StaticLiteral.Proofs.Program.Imports
import StaticLiteral.Proofs.Resolution.Steps
import StaticLiteral.Proofs.Typing.Steps

/-!
# Programs that look alike

Typing and resolving see a program through four questions: the symbol of a node, what a name is
looked up as, the symbol of a literal, and what stands behind an alias. `Alike.model_eq` says that
programs with the same answers to these are the same to typing and resolving. The answers may even
differ in what declares a module: `Akin.typing_eq`, `Akin.resolving_eq`. An export that is not the
last one under its name can be left out of a file: `alike_of_kept`.
-/

namespace StaticLiteral

namespace Program

/-- The symbols are one symbol, or modules with one identity: what declares a module is not asked
for. -/
inductive AsOne : BoundSymbol → BoundSymbol → Prop where
  | same (s : BoundSymbol) : AsOne s s
  | modules {s t : BoundSymbol} (hs : s.kind = .module) (ht : t.kind = .module)
      (hid : t.id = s.id) : AsOne s t

namespace AsOne

variable {s t : BoundSymbol}

/-- Symbols that are as one are of one kind. -/
theorem kind_eq (h : AsOne s t) : t.kind = s.kind := by
  cases h with
  | same => rfl
  | modules hs ht _ => rw [hs, ht]

/-- Symbols that are as one have one identity. -/
theorem id_eq (h : AsOne s t) : t.id = s.id := by
  cases h with
  | same => rfl
  | modules _ _ hid => exact hid

/-- Symbols that are as one have one type. -/
theorem of_symbol_eq (h : AsOne s t) (p : Program) (guarded : Bool) (depth : Nat)
    (busy : List SymbolId) :
    Typing.ofSymbol p guarded depth busy t = Typing.ofSymbol p guarded depth busy s := by
  cases h with
  | same => rfl
  | modules hs ht hid => cases depth <;> simp [Typing.ofSymbol, hs, ht, hid]

/-- Symbols that are as one name one type. -/
theorem of_named_type_eq (h : AsOne s t) (p : Program) (guarded : Bool) (depth : Nat)
    (busy : List SymbolId) :
    Typing.ofNamedType p guarded depth busy t = Typing.ofNamedType p guarded depth busy s := by
  cases h with
  | same => rfl
  | modules hs ht _ => cases depth <;> simp [Typing.ofNamedType, hs, ht]

end AsOne

/-- Two programs answer the questions of typing and resolving alike, up to what declares their
modules. -/
structure Akin (p q : Program) : Prop where
  symbolAt : ∀ node, q.symbolAt? node = p.symbolAt? node
  lookup : ∀ space name node, q.lookup? space name node = p.lookup? space name node
  literalSymbol : ∀ node, q.literalSymbol? node = p.literalSymbol? node
  aliased : ∀ {s t}, AsOne s t → AsOne (p.aliased s) (q.aliased t)
  characterNames : q.config.characterNames = p.config.characterNames

namespace Akin

variable {p q : Program} {s t : BoundSymbol}

/-- Chains of aliases have the same end. -/
theorem alias_end (h : Akin p q) (hst : AsOne s t) : AsOne (p.aliasEnd s) (q.aliasEnd t) :=
  alias_end_related AsOne.kind_eq AsOne.id_eq h.aliased hst

/-- Everything has the same type. -/
theorem typing_eq (h : Akin p q) (guarded : Bool) (depth : Nat) (busy : List SymbolId) :
    Typing.answers q guarded depth busy = Typing.answers p guarded depth busy := by
  induction depth generalizing busy with
  | zero => rfl
  | succ depth ih =>
      have hend := fun symbol => h.alias_end (.same symbol)
      have htype busy symbol : (Typing.answers p guarded depth busy).symbol (q.aliasEnd symbol) =
          (Typing.answers p guarded depth busy).symbol (p.aliasEnd symbol) :=
        (hend symbol).of_symbol_eq p guarded depth busy
      have hsymbol : Typing.entered q guarded depth busy (·.ofSymbol q) =
          Typing.entered p guarded depth busy (·.ofSymbol p) := by
        funext s
        simp only [Typing.entered, ih, Typing.Answers.ofSymbol, (hend s).kind_eq, htype]
      have htarget : Typing.entered q guarded depth busy Typing.Answers.ofTypeAlias =
          Typing.entered p guarded depth busy Typing.Answers.ofTypeAlias := by
        funext s
        simp only [Typing.entered, ih]
      rw [Typing.answers_succ, Typing.answers_succ, ih, hsymbol, htarget]
      simp only [Typing.Answers.step, Typing.Answers.mk.injEq, true_and, and_true]
      refine ⟨?_, ?_, ?_⟩
      · funext s n
        simp only [Typing.Answers.ofProperty, h.lookup]
      · funext isConst n
        cases n <;> simp only [Typing.Answers.ofExpression, h.symbolAt, h.literalSymbol]
      · funext n
        cases n <;> simp only [Typing.Answers.ofTypeNode, h.lookup, h.literalSymbol,
          Typing.answers, (hend _).of_named_type_eq]

/-- Symbols have the same type. -/
theorem type_of_eq (h : Akin p q) (symbol : BoundSymbol) : q.typeOf symbol = p.typeOf symbol :=
  congrArg (Typing.Answers.symbol · symbol) (h.typing_eq true Typing.depthLimit [])

/-- Expressions have the same type. -/
theorem type_of_expression_eq (h : Akin p q) (node : Node) :
    q.typeOfExpression node = p.typeOfExpression node :=
  congrArg (Typing.Answers.expression · false node) (h.typing_eq true Typing.depthLimit [])

/-- Annotations mean the same type. -/
theorem type_of_annotation_eq (h : Akin p q) (node : Node) :
    q.typeOfAnnotation node = p.typeOfAnnotation node :=
  congrArg (Typing.Answers.typeNode · node) (h.typing_eq true Typing.depthLimit [])

/-- Aliases are followed to symbols that are as one. -/
theorem exists_followed (h : Akin p q) (typing : Nat) (guarded : Bool) (hst : AsOne s t) :
    ∃ s' t', Resolution.followed (p.modelWithin typing guarded) s = .ok s' ∧
      Resolution.followed (q.modelWithin typing guarded) t = .ok t' ∧ AsOne s' t' := by
  unfold Resolution.followed
  rw [hst.kind_eq]
  split
  · exact ⟨_, _, rfl, rfl, h.aliased hst⟩
  · exact ⟨_, _, rfl, rfl, hst⟩

/-- Symbols that are as one stand for one value, as far as their types tell it. -/
theorem of_value_eq (h : Akin p q) (typing : Nat) (guarded : Bool) (hst : AsOne s t)
    (below : Resolution.Answers SymbolId BoundTy (Except Failure)) :
    below.ofValue (q.modelWithin typing guarded).typeOf t =
      below.ofValue (p.modelWithin typing guarded).typeOf s := by
  have htype : (q.modelWithin typing guarded).typeOf t = (p.modelWithin typing guarded).typeOf s :=
    (congrArg (Typing.Answers.symbol · t) (h.typing_eq guarded typing [])).trans
      (hst.of_symbol_eq p guarded typing [])
  cases hst with
  | same => simp only [Resolution.Answers.ofValue, htype]
  | modules hs ht _ => simp only [Resolution.Answers.ofValue, hs, ht, htype]

/-- Everything has the same value. -/
theorem resolving_eq (h : Akin p q) (typing : Nat) (guarded : Bool) (depth : Nat)
    (busy : List SymbolId) :
    Resolution.answers (q.modelWithin typing guarded) depth busy =
      Resolution.answers (p.modelWithin typing guarded) depth busy := by
  induction depth generalizing busy with
  | zero => rfl
  | succ depth ih =>
      have hat : (q.modelWithin typing guarded).symbolAt =
          (p.modelWithin typing guarded).symbolAt :=
        funext fun node => congrArg Except.ok (h.symbolAt node)
      rw [Resolution.answers_succ, Resolution.answers_succ]
      simp only [ih, Resolution.Answers.mk.injEq]
      refine ⟨Resolution.Answers.of_node_congr _ _ hat h.characterNames, ?_, rfl⟩
      funext s
      obtain ⟨next, other, hnext, hother, hone⟩ := h.exists_followed typing guarded (.same s)
      simp only [hnext, hother, bind, Except.bind, hone.id_eq, h.of_value_eq typing guarded hone]
      rfl

end Akin

/-- Two programs answer the questions of typing and resolving alike. -/
structure Alike (p q : Program) : Prop where
  symbolAt : ∀ node, q.symbolAt? node = p.symbolAt? node
  lookup : ∀ space name node, q.lookup? space name node = p.lookup? space name node
  literalSymbol : ∀ node, q.literalSymbol? node = p.literalSymbol? node
  aliased : ∀ symbol, q.aliased symbol = p.aliased symbol
  characterNames : q.config.characterNames = p.config.characterNames

namespace Alike

variable {p q : Program}

/-- Programs that are alike are akin. -/
theorem akin (h : Alike p q) : Akin p q where
  symbolAt := h.symbolAt
  lookup := h.lookup
  literalSymbol := h.literalSymbol
  characterNames := h.characterNames
  aliased := by
    intro s t hst
    rw [h.aliased]
    cases hst with
    | same => exact .same _
    | modules hs ht hid =>
        rw [aliased_of_not_alias (by rw [hs]; rfl), aliased_of_not_alias (by rw [ht]; rfl)]
        exact .modules hs ht hid

/-- Resolving sees the same program. -/
theorem model_eq (h : Alike p q) (typing : Nat) (guarded : Bool) :
    q.modelWithin typing guarded = p.modelWithin typing guarded := by
  have htype : Typing.ofSymbol q guarded typing [] = Typing.ofSymbol p guarded typing [] :=
    congrArg Typing.Answers.symbol (h.akin.typing_eq guarded typing [])
  simp only [modelWithin, h.symbolAt, h.aliased, h.characterNames, htype]

end Alike

/-! ## The same modules -/

variable {p q : Program}

/-- Specifiers mean the same files if the same files are there. -/
theorem resolve_module_congr (hconfig : q.config = p.config)
    (hfile : ∀ path, (q.file? path).isSome = (p.file? path).isSome) (file specifier : Text) :
    q.resolveModule file specifier = p.resolveModule file specifier := by
  simp only [resolveModule, hconfig, hfile]

/-- The search for an export visits the same files if they export the same again. -/
theorem export_sources_congr (hconfig : q.config = p.config)
    (hfile : ∀ path, (q.file? path).isSome = (p.file? path).isSome)
    (hlength : q.files.length = p.files.length)
    (hagain : ∀ path, (q.factsOf path).filterMap Fact.reexport? =
      (p.factsOf path).filterMap Fact.reexport?) (file : Text) :
    q.exportSources file = p.exportSources file := by
  have hreexported : ∀ file, q.reexported file = p.reexported file := by
    intro file
    rw [reexported, hagain]
    exact List.filterMap_congr fun specifier _ =>
      resolve_module_congr hconfig hfile file specifier
  have hvisit : ∀ depth, q.visitFrom depth = p.visitFrom depth := by
    intro depth
    induction depth with
    | zero => rfl
    | succ depth ih =>
        funext visited file
        simp only [visitFrom, ih, hreexported]
  rw [exportSources, exportSources, hvisit, hlength]

end Program

/-! ## Exports left out -/

namespace Fact

variable {facts : List Fact} {name : Text} {dropped : BoundSymbol → Bool}

/-- Whether a fact is the export of one of some symbols under a name. -/
def isExport (name : Text) (dropped : BoundSymbol → Bool) : Fact → Bool
  | enters .exports entered symbol => entered = name && dropped symbol
  | _ => false

/-- The facts without the export of some symbols under a name. -/
def withoutExport (name : Text) (dropped : BoundSymbol → Bool) (facts : List Fact) : List Fact :=
  facts.filter fun fact => !isExport name dropped fact

/-- What no export tells is told without some of them. -/
theorem filter_map_without_export {α : Type} {tells : Fact → Option α}
    (h : ∀ entered symbol, tells (.enters .exports entered symbol) = none) (facts : List Fact) :
    (withoutExport name dropped facts).filterMap tells = facts.filterMap tells := by
  rw [withoutExport, List.filterMap_filter]
  congr 1
  funext fact
  unfold isExport
  split
  · simp [h]
  · simp

/-- The rows of the table of exports without those left out. -/
theorem rows_without_export (facts : List Fact) :
    (withoutExport name dropped facts).filterMap (row? .exports) =
      (facts.filterMap (row? .exports)).filter fun row => !(row.1 = name && dropped row.2) := by
  rw [withoutExport, List.filterMap_filter, List.filter_filterMap]
  congr 1
  funext fact
  cases fact with
  | enters table entered symbol => cases table <;> simp [isExport, row?, Option.filter]
  | _ => rfl

/-- The last element stays the last if it is not filtered out. -/
theorem last_filter_of_last {α : Type} {keeps : α → Bool} {x : α} {xs : List α}
    (hlast : xs.getLast? = some x) (hx : keeps x) : (xs.filter keeps).getLast? = some x := by
  obtain ⟨init, rfl⟩ := List.getLast?_eq_some_iff.mp hlast
  simp [List.filter_append, hx]

/-- If the last export under a name is not left out, it stays, and so do all other exports. -/
theorem entered_without_export {symbol : BoundSymbol}
    (hlast : entered? facts .exports name = some symbol) (hkept : dropped symbol = false)
    (other : Text) :
    entered? (withoutExport name dropped facts) .exports other = entered? facts .exports other := by
  by_cases hother : other = name
  · subst hother
    obtain ⟨row, hrow, rfl⟩ := Option.map_eq_some_iff.mp hlast
    have hstays : (((facts.filterMap (row? .exports)).filter (·.1 = other)).filter
        fun row => !(row.1 = other && dropped row.2)).getLast? = some row :=
      last_filter_of_last hrow (by simp [hkept])
    rw [List.filter_filter] at hstays
    rw [hlast, entered?, rows_without_export, List.filter_filter]
    simp only [Bool.and_comm] at hstays ⊢
    rw [hstays, Option.map_some]
  · rw [entered?, entered?, rows_without_export, List.filter_filter]
    congr 3
    funext row
    grind

end Fact

namespace Program

variable {p : Program} {path name : Text} {dropped : BoundSymbol → Bool}

/-- The program without the export of some symbols under a name of a file. The symbols stay
declared in the file. -/
def withoutExport (p : Program) (path name : Text) (dropped : BoundSymbol → Bool) : Program :=
  { p with
    files := p.files.map fun f =>
      if f.path = path then { f with facts := Fact.withoutExport name dropped f.facts } else f }

/-- Files are found where they were. -/
theorem file_without_export (other : Text) :
    (p.withoutExport path name dropped).file? other =
      (p.file? other).map fun f =>
        if f.path = path then { f with facts := Fact.withoutExport name dropped f.facts }
        else f := by
  rw [file?, withoutExport, List.find?_map, file?]
  congr 2
  funext f
  simp only [Function.comp_apply]
  split <;> rfl

/-- Only the facts of the file change. -/
theorem facts_without_export (other : Text) :
    (p.withoutExport path name dropped).factsOf other =
      if other = path then Fact.withoutExport name dropped (p.factsOf other)
      else p.factsOf other := by
  rw [factsOf, factsOf, file_without_export]
  cases hfile : p.file? other with
  | none => simp [Fact.withoutExport]
  | some f =>
      have hpath : f.path = other := by simpa using List.find?_some hfile
      subst hpath
      simp only [Option.map_some, Option.getD_some]
      split <;> rfl

/-- What no export tells is told of every file as before. -/
theorem filter_map_facts_without_export {α : Type} {tells : Fact → Option α}
    (h : ∀ entered symbol, tells (.enters .exports entered symbol) = none) (other : Text) :
    ((p.withoutExport path name dropped).factsOf other).filterMap tells =
      (p.factsOf other).filterMap tells := by
  rw [facts_without_export]
  split
  · exact Fact.filter_map_without_export h _
  · rfl

/-- What no export tells is told last of every file as before. -/
theorem last_fact_without_export {α : Type} {tells : Fact → Option α}
    (h : ∀ entered symbol, tells (.enters .exports entered symbol) = none) (other : Text) :
    Fact.last? tells ((p.withoutExport path name dropped).factsOf other) =
      Fact.last? tells (p.factsOf other) :=
  congrArg List.getLast? (filter_map_facts_without_export h other)

/-- The search for an export visits the same files. -/
theorem export_sources_without_export (file : Text) :
    (p.withoutExport path name dropped).exportSources file = p.exportSources file := by
  have hconfig : (p.withoutExport path name dropped).config = p.config := rfl
  refine export_sources_congr hconfig (fun other => ?_) ?_
    (filter_map_facts_without_export fun _ _ => rfl) file
  · rw [file_without_export, Option.isSome_map]
  · simp [withoutExport]

/-- Names are declared as before. -/
theorem declared_without_export :
    (p.withoutExport path name dropped).declared? = p.declared? := by
  funext scope space other
  cases scope with
  | global => rfl
  | file _ | node _ =>
      rw [declared?, declared?, Fact.declaredIn?, filter_map_facts_without_export fun _ _ => rfl]
      rfl

/-- A file is the same module. -/
theorem module_without_export (file : Text) :
    ((p.withoutExport path name dropped).file? file).map (·.moduleSymbol) =
      (p.file? file).map (·.moduleSymbol) := by
  rw [file_without_export, Option.map_map]
  congr 1
  funext f
  simp only [Function.comp_apply]
  split <;> rfl

/-- What is not left out of any table is exported as before. -/
theorem export_without_export
    (h : ∀ file other, (p.withoutExport path name dropped).ownExport? file other =
      p.ownExport? file other) (file other : Text) :
    (p.withoutExport path name dropped).export? file other = p.export? file other := by
  simp only [export?, h, export_sources_without_export]

/-- An export that is not the last one under its name is not seen from anywhere. -/
theorem alike_of_kept {symbol : BoundSymbol} (hlast : p.ownExport? path name = some symbol)
    (hkept : dropped symbol = false) : Alike p (p.withoutExport path name dropped) := by
  have hlookup : ∀ space other node,
      (p.withoutExport path name dropped).lookup? space other node =
        p.lookup? space other node := by
    intro space other node
    rw [lookup?, lookup?, scopeOf?, scopeOf?, last_fact_without_export fun _ _ => rfl,
      declared_without_export]
  have hown : ∀ file other, (p.withoutExport path name dropped).ownExport? file other =
      p.ownExport? file other := by
    intro file other
    rw [ownExport?, ownExport?, facts_without_export]
    split
    case isTrue hfile => exact hfile ▸ Fact.entered_without_export hlast hkept other
    case isFalse => rfl
  constructor
  case lookup => exact hlookup
  case symbolAt =>
    intro node
    rw [symbolAt?, symbolAt?, last_fact_without_export fun _ _ => rfl]
    simp only [hlookup]
  case literalSymbol =>
    intro node
    exact last_fact_without_export (fun _ _ => rfl) node.id.file
  case characterNames => rfl
  case aliased =>
    intro symbol
    have hmodule : ∀ file specifier,
        (p.withoutExport path name dropped).resolveModule file specifier =
          p.resolveModule file specifier :=
      resolve_module_congr rfl fun _ => by rw [file_without_export, Option.isSome_map]
    simp only [aliased, target?, local?, declared_without_export, hmodule,
      module_without_export, export_without_export hown]

end Program

end StaticLiteral
