import StaticLiteral.Program.Report
import StaticLiteral.Proofs.Depth
import StaticLiteral.Proofs.Program.Likeness
import StaticLiteral.Proofs.Values
import StaticLiteral.Resolution.Resolve

/-!
# Values and types exported under one name

A scope keeps values and types apart, but a file has one table of exports: of a value and a type
that it exports under one name, the one that is exported last is what every import of the name
stands for. `shared_name_iff` says what that does to the other one. A value that comes last is not
touched by the type, and a type that comes last not by the value; the one that does not come last is
lost to every import.
-/

namespace StaticLiteral

namespace SymbolKind

/-- Whether the symbols of the kind are values: variables, functions, classes, enumerations and
namespaces. -/
def isValue : SymbolKind → Bool
  | blockScopedVariable | functionScopedVariable | function | classDefinition | enum
  | namespaceBlock => true
  | _ => false

/-- Whether the symbols of the kind are types only. -/
def isTypeOnly : SymbolKind → Bool
  | typeAlias | interface => true
  | _ => false

/-- No kind is that of values and of types only. -/
theorem not_type_only_of_value {kind : SymbolKind} (h : kind.isValue) :
    kind.isTypeOnly = false := by
  cases kind with
  | typeAlias | interface => cases h
  | _ => rfl

/-- No kind is that of types only and of values. -/
theorem not_value_of_type_only {kind : SymbolKind} (h : kind.isTypeOnly) :
    kind.isValue = false := by
  cases kind with
  | typeAlias | interface => rfl
  | _ => cases h

/-- The kind of a value or a type is not that of an alias. -/
theorem not_alias_of_value_or_type {kind : SymbolKind} (h : kind.isValue ∨ kind.isTypeOnly) :
    kind.isAlias = false := by
  cases kind with
  | aliasOf => rcases h with h | h <;> cases h
  | _ => rfl

end SymbolKind

namespace Typing

/-- The type that a value names: only classes are types, too. -/
def ofValueName (symbol : BoundSymbol) : BoundTy :=
  if symbol.kind = .classDefinition then .object .classDefinition symbol else .unknown

variable {p : Program} {guarded : Bool} {symbol : BoundSymbol}

/-- A value names nothing but the type of a class. -/
theorem of_named_type_of_value (h : symbol.kind.isValue) (depth : Nat) (busy : List SymbolId) :
    ofNamedType p guarded (depth + 1) busy symbol = .ok (ofValueName symbol) := by
  cases hkind : symbol.kind <;> simp_all [SymbolKind.isValue, ofNamedType, ofValueName]

/-- A type is not known as a value. -/
theorem of_symbol_of_type_only (h : symbol.kind.isTypeOnly) (depth : Nat) :
    ofSymbol p guarded (depth + 1) [] symbol = .ok .unknown := by
  cases hkind : symbol.kind <;> simp_all [SymbolKind.isTypeOnly, ofSymbol]

end Typing

namespace Program

/-- The program without the types that a file exports under a name. -/
def withoutTypes (p : Program) (path name : Text) : Program :=
  p.withoutExport path name (·.kind.isTypeOnly)

/-- The program without the values that a file exports under a name. -/
def withoutValues (p : Program) (path name : Text) : Program :=
  p.withoutExport path name (·.kind.isValue)

variable {p : Program} {path start name : Text} {last a : BoundSymbol}

/-- An import that finds an export in a file stands for the last one under the name. -/
theorem aliased_eq_last (himports : p.Imports a start name)
    (hfile : p.exportFile? start name = some path) (hlast : p.ownExport? path name = some last) :
    p.aliased a = last := by
  rw [aliased_of_imports himports, export_eq, hfile, Option.bind_some, hlast, Option.getD_some]

end Program

namespace Resolution

variable {p : Program} {path start name text : Text} {last a : BoundSymbol} {i written : Info}

/-- A type stands for nothing. -/
theorem symbol_value_of_type_only (h : last.kind.isTypeOnly) (typing depth : Nat)
    (busy : List SymbolId) (ofDeclaration : Node → Answer) :
    symbolValue (p.modelWithin (typing + 1)) ofDeclaration
      (ofType (p.modelWithin (typing + 1)) (depth + 1) busy) last = .ok none := by
  have htype : (p.modelWithin (typing + 1)).typeOf last = .ok .unknown := by
    show Typing.ofSymbol p true (typing + 1) [] last = _
    exact Typing.of_symbol_of_type_only h typing
  cases hkind : last.kind <;> simp only [hkind, SymbolKind.isTypeOnly, Bool.false_eq_true] at h
  all_goals
    simp only [symbolValue, hkind, htype]
    rfl

/-- A reference to an import that stands for a type has no value. -/
theorem resolve_of_type_only (hat : p.symbolAt? (.identifier i text) = some a)
    (halias : a.kind.isAlias) (haliased : p.aliased a = last) (hlast : last.kind.isTypeOnly) :
    p.resolve (.identifier i text) = ⟨none, none⟩ := by
  have hanswer : ∀ typing depth,
      ofNode (p.modelWithin (typing + 1)) (depth + 3) [] (.identifier i text) = .ok none := by
    intro typing depth
    have hsymbol : (p.modelWithin (typing + 1)).symbolAt (.identifier i text) = .ok (some a) :=
      congrArg Except.ok hat
    have hfollowed : followed (p.modelWithin (typing + 1)) a = .ok last := by
      rw [followed, if_pos halias, ← haliased]
      rfl
    simp only [ofNode, hsymbol, bind, Except.bind, ofSymbol, hfollowed, List.not_mem_nil, and_false,
      if_false]
    exact symbol_value_of_type_only hlast typing depth _ _
  exact congrArg (Outcome.ofAnswer _) (hanswer 999 997)

/-- A reference to an import that stands for a value names no type but that of a class. -/
theorem type_of_value {arguments : List Node} {type : BoundTy} (depth : Nat)
    (hat : p.lookup? .type text (.identifier written text) = some a) (halias : a.kind.isAlias)
    (haliased : p.aliased a = last) (hlast : last.kind.isValue)
    (h : Typing.ofTypeNode p true (depth + 2) []
      (.typeReference i (.identifier written text) arguments) = .ok type) :
    type = Typing.ofValueName last := by
  have hend : p.aliasEnd a = last := by
    rw [← haliased]
    refine Program.alias_end_of_step halias ?_
    rw [haliased]
    exact SymbolKind.not_alias_of_value_or_type (.inl hlast)
  rw [Typing.ofTypeNode] at h
  obtain ⟨types, _, h⟩ := bind_eq_ok_iff.mp h
  split at h
  case h_1 symbol hsymbol =>
    obtain rfl : symbol = a := Option.some.inj (hsymbol.symm.trans hat)
    rw [hend, Typing.of_named_type_of_value hlast] at h
    exact (Except.ok.inj h).symm
  case h_2 hnone => exact absurd (hnone.symm.trans hat) (by simp)

/-- What a file exports last under a name is what its imports stand for. If that is a value, leaving
out the types under the name changes nothing anywhere; used as a type, the name means what it would
mean without the values only if that is nothing, or the class that comes last. If it is a type,
leaving out the values changes nothing anywhere; used as a value, the name resolves as it would
without the types only if that is to nothing. -/
theorem shared_name_iff (hlast : p.ownExport? path name = some last)
    (hkind : last.kind.isValue ∨ last.kind.isTypeOnly) (himports : p.Imports a start name)
    (hfile : p.exportFile? start name = some path) :
    (last.kind.isValue → ∀ typing guarded,
      (p.withoutTypes path name).modelWithin typing guarded = p.modelWithin typing guarded) ∧
    (last.kind.isTypeOnly → ∀ typing guarded,
      (p.withoutValues path name).modelWithin typing guarded = p.modelWithin typing guarded) ∧
    (∀ i text, p.symbolAt? (.identifier i text) = some a →
      ((p.withoutTypes path name).resolve (.identifier i text) = p.resolve (.identifier i text) ↔
        last.kind.isValue ∨
          (p.withoutTypes path name).resolve (.identifier i text) = ⟨none, none⟩)) ∧
    (∀ i text written arguments type, p.lookup? .type text (.identifier written text) = some a →
      let meaning (q : Program) :=
        q.typeOfAnnotation (.typeReference i (.identifier written text) arguments)
      meaning p = .ok type →
      (meaning (p.withoutValues path name) = .ok type ↔
        last.kind.isTypeOnly ∨
          meaning (p.withoutValues path name) = .ok (Typing.ofValueName last))) := by
  have haliased := Program.aliased_eq_last himports hfile hlast
  have hvalue : last.kind.isValue → Program.Alike p (p.withoutTypes path name) := fun h =>
    Program.alike_of_kept hlast (SymbolKind.not_type_only_of_value h)
  have htype : last.kind.isTypeOnly → Program.Alike p (p.withoutValues path name) := fun h =>
    Program.alike_of_kept hlast (SymbolKind.not_value_of_type_only h)
  have halias := himports.is_alias
  refine ⟨fun h => (hvalue h).model_eq, fun h => (htype h).model_eq, ?_, ?_⟩
  · intro i text hat
    rcases hkind with h | h
    · have hsame := congrArg (fun model => resolve model (.identifier i text))
        ((hvalue h).model_eq Typing.depthLimit true)
      exact iff_of_true hsame (.inl h)
    · rw [resolve_of_type_only hat halias haliased h]
      simp [SymbolKind.not_value_of_type_only h]
  · intro i text written arguments type hat meaning hanswer
    rcases hkind with h | h
    · obtain rfl := type_of_value 998 hat halias haliased h hanswer
      simp [SymbolKind.not_type_only_of_value h]
    · have hsame := (htype h).akin.type_of_annotation_eq
        (.typeReference i (.identifier written text) arguments)
      exact iff_of_true (hsame.trans hanswer) (.inl h)

/-- The law at a constant that is exported after a type and imported through a star export. -/
theorem shared_name_iff_value_last :
    let name (t : String) := Node.identifier {} (Text.ofString t)
    let literal (t : String) := Node.stringLiteral {} (Text.ofString t)
    let a : SourceFile :=
      { fileName := Text.ofString "a"
        statements := [
          .typeAliasDeclaration {} (name "x") (.literalType {} (literal "t")) true,
          .variableStatement {} .const [.variableDeclaration {} (name "x") none (literal "v")]
            true false] }
    let b : SourceFile :=
      { fileName := Text.ofString "b"
        statements := [.exportDeclaration {} [] (some (Text.ofString "./a")) true] }
    let c : SourceFile :=
      { fileName := Text.ofString "c"
        statements := [
          .importDeclaration {} (Text.ofString "./b")
            [.importSpecifier {} (name "x") (some (Text.ofString "x")) false],
          .expressionStatement {} (name "x")] }
    let p := Program.ofSources {} [a, b, c]
    let r := Node.place (Text.ofString "c") [0, 1, 0] (name "x")
    (p.withoutTypes (Text.ofString "a") (Text.ofString "x")).resolve r = p.resolve r := by
  intro name literal a b c p r
  obtain ⟨last, hlast⟩ := Option.isSome_iff_exists.mp
    (by decide : (p.ownExport? (Text.ofString "a") (Text.ofString "x")).isSome)
  obtain ⟨specifier, hat⟩ := Option.isSome_iff_exists.mp
    (by decide : (p.symbolAt? r).isSome)
  have hkind : last.kind = .blockScopedVariable := by
    have h : (p.ownExport? (Text.ofString "a") (Text.ofString "x")).map (·.kind) =
        some .blockScopedVariable := by decide
    simpa [hlast] using h
  have halias : specifier.kind = .aliasOf
      { sourceFile := some (Text.ofString "c"), module := some (Text.ofString "./b")
        importName := some (Text.ofString "x") } := by
    have h : (p.symbolAt? r).map (·.kind) = some (.aliasOf
        { sourceFile := some (Text.ofString "c"), module := some (Text.ofString "./b")
          importName := some (Text.ofString "x") }) := by decide
    simpa [hat] using h
  have himports : p.Imports specifier (Text.ofString "b") (Text.ofString "x") :=
    ⟨_, _, halias, rfl, rfl, by decide⟩
  have hfile : p.exportFile? (Text.ofString "b") (Text.ofString "x") =
      some (Text.ofString "a") := by decide
  have hvalue : last.kind.isValue := by simp [hkind, SymbolKind.isValue]
  exact ((shared_name_iff hlast (.inl hvalue) himports hfile).2.2.1 _ _ hat).mpr (.inl hvalue)

/-- A constant that is exported before a type of its name is lost to an import, and a type that is
exported before a constant of its name is. If only the other one is not exported, they are found. -/
theorem earlier_export_lost :
    let name (t : String) := Node.identifier {} (Text.ofString t)
    let literal (t : String) := Node.stringLiteral {} (Text.ofString t)
    let constant (exported : Bool) := Node.variableStatement {} .const
      [.variableDeclaration {} (name "x") none (literal "v")] exported false
    let type (exported : Bool) :=
      Node.typeAliasDeclaration {} (name "x") (.literalType {} (literal "t")) exported
    let reference := Node.typeReference {} (name "x") []
    let program (statements : List Node) := Program.ofSources {} [
      { fileName := Text.ofString "a", statements := statements },
      { fileName := Text.ofString "b"
        statements := [
          .importDeclaration {} (Text.ofString "./a")
            [.importSpecifier {} (name "x") (some (Text.ofString "x")) false],
          .expressionStatement {} (name "x"),
          .typeAliasDeclaration {} (name "y") reference false] }]
    let value (p : Program) := (p.resolve (.place (Text.ofString "b") [0, 1, 0] (name "x"))).value
    let meaning (p : Program) :=
      p.typeOfAnnotation (.place (Text.ofString "b") [1, 2, 0] reference)
    let typeName (p : Program) := (meaning p).toOption.map Ty.name
    value (program [constant true, type true]) = none ∧
      value (program [constant true, type false]) = some (.text (Text.ofString "v")) ∧
      value ((program [constant true, type true]).withoutTypes (Text.ofString "a")
        (Text.ofString "x")) = some (.text (Text.ofString "v")) ∧
      typeName (program [type true, constant true]) = some "UNKNOWN" ∧
      typeName (program [type true, constant false]) = some "STRING_LITERAL" ∧
      typeName ((program [type true, constant true]).withoutValues (Text.ofString "a")
        (Text.ofString "x")) = some "STRING_LITERAL" := by
  decide

end Resolution

end StaticLiteral
