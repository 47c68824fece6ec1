import Mathlib.Logic.Relation
import StaticLiteral.Proofs.Program.FileScope
import StaticLiteral.Proofs.Program.Likeness
import StaticLiteral.Proofs.Program.Renaming
import StaticLiteral.Proofs.Resolution.Correspondence
import StaticLiteral.Proofs.Values

/-!
# Declarations with another name

If only the place where it is declared is to see a name, it should make no difference elsewhere how
the name is spelled there. `renamed_iff` says for which places that is so: those that do not look
the name up. What does not go through the declaration is resolved to the same.
-/

namespace StaticLiteral

namespace Program

/-! ## What a request involves -/

/-- What typing or resolving may go on to: from a node to its operands, to what it is looked up as
and to the symbol of the literal that it is, from a symbol to what stands behind it and to its
declaration. -/
def onward (p : Program) : Node ⊕ BoundSymbol → List (Node ⊕ BoundSymbol)
  | .inl n =>
    n.operands.map .inl ++ ((p.symbolAt? n).toList ++ (p.literalSymbol? n).toList
      ++ [Space.value, Space.type].flatMap fun space =>
        (n.identifier?.bind fun name => p.lookup? space name n).toList).map .inr
  | .inr s => .inr (p.aliased s) :: s.declaration.toList.map .inl

/-- The identity that a symbol has, or that the symbol of a node would have. -/
def subject : Node ⊕ BoundSymbol → SymbolId
  | .inl n => .node n.id
  | .inr s => s.id

/-- Typing or resolving gets from one node or symbol to another. -/
def Involves (p : Program) : Node ⊕ BoundSymbol → Node ⊕ BoundSymbol → Prop :=
  Relation.ReflTransGen fun x y => y ∈ p.onward x

/-- Typing or resolving a node or symbol never gets to the target. -/
def Avoids (p : Program) (target : NodeId) (x : Node ⊕ BoundSymbol) : Prop :=
  ∀ y, p.Involves x y → subject y ≠ .node target

/-- No node and no alias of the program has the name. -/
def Fresh (p : Program) (fresh : Text) : Prop :=
  (∀ n, p.Placed n → n.identifier? ≠ some fresh) ∧
    ∀ s ∈ p.symbols, ∀ origin, s.kind = .aliasOf origin → origin.importName ≠ some fresh

variable {p q : Program} {target : NodeId} {fresh name path : Text} {n : Node} {s : BoundSymbol}
  {x y : Node ⊕ BoundSymbol}

/-- In a program without aliases, a name is fresh if no node has it. -/
theorem fresh_of_no_alias
    (hnames : ∀ f ∈ p.files, ∀ n ∈ f.root.parts, n.identifier? ≠ some fresh)
    (hplain : ∀ s ∈ p.symbols, s.kind.isAlias = false) : p.Fresh fresh := by
  constructor
  · rintro n ⟨f, hf, hn⟩
    exact hnames f hf n hn
  · intro s hs origin hkind
    exact absurd (hplain s hs) (by simp [hkind, SymbolKind.isAlias])

/-- What is gone on to from a node. -/
theorem onward_node (n : Node) : p.onward (.inl n) =
    n.operands.map .inl ++ ((p.symbolAt? n).toList ++ (p.literalSymbol? n).toList
      ++ [Space.value, Space.type].flatMap fun space =>
        (n.identifier?.bind fun name => p.lookup? space name n).toList).map .inr := rfl

/-- What is gone on to from a symbol. -/
theorem onward_symbol (s : BoundSymbol) :
    p.onward (.inr s) = .inr (p.aliased s) :: s.declaration.toList.map .inl := rfl

namespace Avoids

/-- What avoids the target is not the target. -/
theorem subject_ne (h : p.Avoids target x) : subject x ≠ .node target := h x .refl

/-- What can only get to what is not the target avoids the target. -/
theorem of_closed (reached : List (Node ⊕ BoundSymbol)) (hx : x ∈ reached)
    (honward : reached.flatMap p.onward ⊆ reached)
    (hne : ∀ y ∈ reached, subject y ≠ .node target) : p.Avoids target x := by
  intro y hy
  refine hne y ?_
  induction hy with
  | refl => exact hx
  | tail _ hstep ih => exact honward (List.mem_flatMap_of_mem ih hstep)

/-- What is gone on to avoids the target, too. -/
theorem onward (h : p.Avoids target x) (hy : y ∈ p.onward x) : p.Avoids target y :=
  fun z hz => h z (.head hy hz)

/-- Operands avoid the target, too. -/
theorem operand (h : p.Avoids target (.inl n)) {c : Node} (hc : c ∈ n.operands) :
    p.Avoids target (.inl c) := h.onward (by simp [onward_node, hc])

/-- The symbol of a node avoids the target, too. -/
theorem symbol_at (h : p.Avoids target (.inl n)) (hs : p.symbolAt? n = some s) :
    p.Avoids target (.inr s) := h.onward (by simp [onward_node, hs])

/-- The symbol of a literal avoids the target, too. -/
theorem literal_symbol (h : p.Avoids target (.inl n)) (hs : p.literalSymbol? n = some s) :
    p.Avoids target (.inr s) := h.onward (by simp [onward_node, hs])

/-- What a name is looked up as avoids the target, too. -/
theorem lookup (h : p.Avoids target (.inl n)) (hname : n.identifier? = some name) {space : Space}
    (hs : p.lookup? space name n = some s) : p.Avoids target (.inr s) :=
  h.onward (by cases space <;> simp [onward_node, hname, hs])

/-- What stands behind an alias avoids the target, too. -/
theorem aliased (h : p.Avoids target (.inr s)) : p.Avoids target (.inr (p.aliased s)) :=
  h.onward (by simp [onward_symbol])

/-- A declaration avoids the target, too. -/
theorem declaration (h : p.Avoids target (.inr s)) {d : Node} (hd : s.declaration = some d) :
    p.Avoids target (.inl d) := h.onward (by simp [onward_symbol, hd])

end Avoids

/-! ## Programs with renamed facts -/

/-- A coherent program, and one with the same modules and renamed facts, under a fresh name. -/
structure Respells (p q : Program) (target : NodeId) (fresh : Text) : Prop where
  coherent : p.Coherent
  isFresh : p.Fresh fresh
  config : q.config = p.config
  length : q.files.length = p.files.length
  module : ∀ path, (q.file? path).map (·.moduleSymbol) =
    (p.file? path).map fun f => f.moduleSymbol.renamed target fresh
  facts : ∀ path, q.factsOf path = (p.factsOf path).map (Fact.renamed target fresh)

/-- What is found first is found first, renamed, if every element keeps what is not lost. -/
theorem find_some_map {α β : Type} {find found : α → Option β} {change : β → β} {Lost : β → Prop}
    {xs : List α}
    (hkept : ∀ x ∈ xs, (∀ b, find x = some b → ¬ Lost b) → found x = (find x).map change)
    (h : ∀ b, xs.findSome? find = some b → ¬ Lost b) :
    xs.findSome? found = (xs.findSome? find).map change := by
  induction xs with
  | nil => rfl
  | cons x xs ih =>
      have hx := hkept x List.mem_cons_self
      rw [List.findSome?_cons, List.findSome?_cons]
      rw [List.findSome?_cons] at h
      cases hfind : find x with
      | none =>
          rw [hfind] at h hx
          rw [hx (by simp)]
          exact ih (fun y hy => hkept y (List.mem_cons_of_mem _ hy)) h
      | some b =>
          rw [hfind] at h hx
          rw [hx h]
          rfl

namespace Respells

open Binding Node

variable (h : Respells p q target fresh)

include h

/-- The same files are there. -/
theorem is_some_file (path : Text) : (q.file? path).isSome = (p.file? path).isSome := by
  have hmodule := congrArg Option.isSome (h.module path)
  simpa using hmodule

/-- A name other than the new one is declared for the renamed symbol. -/
theorem declared_eq (hne : fresh ≠ name) {frame : ScopeId} {space : Space}
    (hkept : ∀ s, p.declared? frame space name = some s → s.id ≠ .node target) :
    q.declared? frame space name =
      (p.declared? frame space name).map (Symbol.renamed target fresh) := by
  have hpath : ∀ path,
      (∀ s, Fact.declaredIn? (p.factsOf path) frame space name = some s → s.id ≠ .node target) →
      Fact.declaredIn? (q.factsOf path) frame space name =
        (Fact.declaredIn? (p.factsOf path) frame space name).map
          (Symbol.renamed target fresh) := by
    intro path hkept
    rw [declared_in_eq_last] at hkept ⊢
    rw [h.facts, declared_in_eq_last]
    exact last_renamed (declared_at_renamed hne frame space) hkept
  cases frame with
  | global =>
      simp only [declared?]
      split <;> rfl
  | file path => exact hpath path hkept
  | node id => exact hpath id.file hkept

/-- A name other than the new one is looked up as the renamed symbol. -/
theorem lookup_eq (hne : fresh ≠ name) {m : Node} (hid : m.id = n.id) {space : Space}
    (hkept : ∀ s, p.lookup? space name n = some s → s.id ≠ .node target) :
    q.lookup? space name m = (p.lookup? space name n).map (Symbol.renamed target fresh) := by
  have hscope : q.scopeOf? m = p.scopeOf? n := by
    rw [scopeOf?, scopeOf?, hid, h.facts, last_scope_renamed]
  unfold lookup? at hkept ⊢
  rw [hscope]
  cases hscope : p.scopeOf? n with
  | none => rfl
  | some scope =>
      rw [hscope] at hkept
      exact find_some_map (fun frame _ hframe => h.declared_eq hne hframe) hkept

/-- A file exports the renamed symbol under a name other than the new one. -/
theorem own_export_eq (hne : fresh ≠ name)
    (hkept : ∀ s, p.ownExport? path name = some s → s.id ≠ .node target) :
    q.ownExport? path name = (p.ownExport? path name).map (Symbol.renamed target fresh) := by
  unfold ownExport? at hkept ⊢
  rw [entered_eq_last] at hkept ⊢
  rw [h.facts, entered_eq_last]
  exact last_renamed (entered_at_renamed hne .exports) hkept

/-- An export under a name other than the new one is the renamed symbol. -/
theorem export_eq (hne : fresh ≠ name)
    (hkept : ∀ s, p.export? path name = some s → s.id ≠ .node target) :
    q.export? path name = (p.export? path name).map (Symbol.renamed target fresh) := by
  have hsources : q.exportSources path = p.exportSources path :=
    export_sources_congr h.config h.is_some_file h.length
      (fun path => by rw [h.facts, reexports_renamed]) path
  unfold export? at hkept ⊢
  rw [hsources]
  split
  · next hdefault =>
      rw [if_pos hdefault] at hkept
      exact h.own_export_eq hne hkept
  · next hdefault =>
      rw [if_neg hdefault] at hkept
      exact find_some_map (fun file _ hfile => h.own_export_eq hne hfile) hkept

/-- A name of a file other than the new one is that of the renamed symbol. -/
theorem local_eq (hne : fresh ≠ name)
    (hkept : ∀ s, p.local? path name = some s → s.id ≠ .node target) :
    q.local? path name = (p.local? path name).map (Symbol.renamed target fresh) := by
  unfold local? at hkept ⊢
  cases hvalue : p.declared? (.file path) .value name with
  | some s =>
      rw [hvalue] at hkept
      rw [h.declared_eq hne (hvalue ▸ hkept), hvalue]
      rfl
  | none =>
      rw [hvalue] at hkept
      rw [h.declared_eq hne (by simp [hvalue]), hvalue]
      exact h.declared_eq hne hkept

/-- An alias of a name other than the new one stands for the renamed symbol. -/
theorem target_eq {origin : AliasOrigin} (hname : origin.importName ≠ some fresh)
    (hkept : ∀ s, p.target? origin = some s → s.id ≠ .node target) :
    q.target? origin = (p.target? origin).map (Symbol.renamed target fresh) := by
  obtain ⟨sourceFile, module, importName⟩ := origin
  cases module with
  | none =>
      cases importName with
      | none => rfl
      | some name => exact h.local_eq (fun heq => hname (congrArg some heq.symm)) hkept
  | some specifier =>
      simp only [target?, resolve_module_congr h.config h.is_some_file] at hkept ⊢
      cases hmodule : p.resolveModule (sourceFile.getD []) specifier with
      | none => rfl
      | some path =>
          rw [hmodule] at hkept
          cases importName with
          | none =>
              show (q.file? path).map _ = ((p.file? path).map _).map _
              rw [Option.map_map]
              exact h.module path
          | some name => exact h.export_eq (fun heq => hname (congrArg some heq.symm)) hkept

/-- Behind a renamed alias that avoids the target stands the renamed symbol. -/
theorem aliased_eq (hs : s ∈ p.symbols) (havoids : p.Avoids target (.inr s)) :
    q.aliased (s.renamed target fresh) = (p.aliased s).renamed target fresh := by
  have hne := havoids.aliased.subject_ne
  obtain ⟨id, symbolName, kind, declaration, isConst⟩ := s
  cases kind with
  | aliasOf origin =>
      have hname := h.isFresh.2 _ hs origin rfl
      simp only [subject, Program.aliased, Symbol.renamed] at hne ⊢
      rw [h.target_eq hname fun s hs => by simpa [hs] using hne]
      cases p.target? origin <;> rfl
  | _ => rfl

/-- A node is the name of the renamed symbol, or refers to it. -/
theorem symbol_at_eq (hplaced : p.Placed n) (havoids : p.Avoids target (.inl n)) :
    q.symbolAt? (n.renamed target fresh) =
      (p.symbolAt? n).map (Symbol.renamed target fresh) := by
  have hid : n.id ≠ target := fun hid => havoids.subject_ne (congrArg SymbolId.node hid)
  unfold symbolAt?
  rw [id_renamed, h.facts, last_named_renamed]
  cases hnamed : Fact.last? (Fact.named? n.id) (p.factsOf n.id.file) with
  | some s => rfl
  | none =>
      rw [identifier_renamed hid]
      cases hname : n.identifier? with
      | none => rfl
      | some name =>
          refine h.lookup_eq (fun heq => h.isFresh.1 n hplaced (heq ▸ hname)) (id_renamed ..) ?_
          exact fun s hs => (havoids.lookup hname hs).subject_ne

/-- A literal has the renamed symbol. -/
theorem literal_symbol_eq (n : Node) : q.literalSymbol? (n.renamed target fresh) =
    (p.literalSymbol? n).map (Symbol.renamed target fresh) := by
  rw [literalSymbol?, id_renamed, h.facts, last_literal_renamed]
  rfl

/-- The programs correspond on what stands in them and avoids the target. -/
theorem matches_renamed : p.Matches q
    (fun n m => m = n.renamed target fresh ∧ p.Placed n ∧ p.Avoids target (.inl n))
    (fun s t => t = s.renamed target fresh ∧ s ∈ p.symbols ∧ p.Avoids target (.inr s)) where
  similar := by
    rintro n _ ⟨rfl, hplaced, havoids⟩
    have hid : n.id ≠ target := fun hid => havoids.subject_ne (congrArg SymbolId.node hid)
    refine ⟨renamed target fresh, renamed_eq_of_ne hid, fun c hc => ⟨rfl, ?_, havoids.operand hc⟩⟩
    exact hplaced.of_mem_children (operands_subset_children n hc)
  id := by
    rintro s _ ⟨rfl, _⟩
    rfl
  name := by
    rintro s _ ⟨rfl, _, havoids⟩
    exact spelled_eq_self havoids.subject_ne _
  kind := by
    rintro s _ ⟨rfl, _⟩
    rfl
  isConst := by
    rintro s _ ⟨rfl, _⟩
    rfl
  characterNames := congrArg Config.characterNames h.config
  declaration := by
    rintro s _ ⟨rfl, hs, havoids⟩
    exact rel_map fun d hd => ⟨rfl, h.coherent.declared s hs d hd, havoids.declaration hd⟩
  symbolAt := by
    rintro n _ ⟨rfl, hplaced, havoids⟩
    rw [h.symbol_at_eq hplaced havoids]
    exact rel_map fun s hs => ⟨rfl, symbol_at_mem_symbols hs, havoids.symbol_at hs⟩
  lookup := by
    rintro n _ ⟨rfl, hplaced, havoids⟩ space name hname
    rw [h.lookup_eq (fun heq => h.isFresh.1 n hplaced (heq ▸ hname)) (id_renamed ..)
      fun s hs => (havoids.lookup hname hs).subject_ne]
    exact rel_map fun s hs => ⟨rfl, lookup_mem_symbols hs, havoids.lookup hname hs⟩
  literalSymbol := by
    rintro n _ ⟨rfl, hplaced, havoids⟩
    rw [h.literal_symbol_eq]
    exact rel_map fun s hs => ⟨rfl, literal_mem_symbols hs, havoids.literal_symbol hs⟩
  aliased := by
    rintro s _ ⟨rfl, hs, havoids⟩
    exact ⟨h.aliased_eq hs havoids, aliased_mem_symbols hs, havoids.aliased⟩

/-- What avoids the target is resolved to the same. -/
theorem resolve_eq (hplaced : p.Placed n) (havoids : p.Avoids target (.inl n)) :
    q.resolve (n.renamed target fresh) = p.resolve n :=
  Resolution.resolve_eq h.matches_renamed ⟨rfl, hplaced, havoids⟩

end Respells

variable {config : Config} {sources : List SourceFile} {f : BoundFile} {q leaf place : Node}
  {old : Text}

/-- If the file of the target stands under its own name, all facts of the program are renamed. -/
theorem respells_of_sources (hf : f ∈ (ofSources config sources).files)
    (hname : f.source.fileName = f.path) (hleaf : leaf ∈ f.root.parts)
    (hspares : (ofSources config sources).Spares leaf.id)
    (hfresh : (ofSources config sources).Fresh fresh) :
    (ofSources config sources).Respells
      (ofSources config (sources.map (SourceFile.renamed leaf.id fresh))) leaf.id fresh where
  coherent := coherent_of_sources config sources
  isFresh := hfresh
  config := rfl
  length := by
    rw [files_map fun source => congrArg Path.normalize (source.file_name_renamed leaf.id fresh),
      List.length_map]
  module path := by
    rw [file_renamed, Option.map_map]
    refine Option.map_congr fun g hg => ?_
    obtain ⟨source, rfl⟩ := exists_source (List.mem_of_find?_eq_some hg)
    exact source.module_symbol_renamed leaf.id fresh
  facts path := by
    rw [factsOf, factsOf, file_renamed]
    cases hfile : (ofSources config sources).file? path with
    | none => rfl
    | some g =>
        have hg := List.mem_of_find?_eq_some hfile
        have hsettled : g.source.fileName = g.path ∨ ∀ part ∈ g.root.parts, part.id ≠ leaf.id := by
          by_cases heq : g = f
          · exact .inl (heq ▸ hname)
          · exact .inr fun part hpart hid => heq (file_eq_of_id_eq hg hf hpart hleaf hid)
        obtain ⟨source, rfl⟩ := exists_source hg
        exact SourceFile.facts_renamed (hspares _ hg) hsettled

/-- Spell the name of a declaration in a way that is used nowhere else: every place is still looked
up from the same scope, and its name is found to be of the same declaration exactly if it was not
found to be of this one. A place from which nothing leads to this declaration is resolved to the
same. -/
theorem renamed_iff (config : Config) (sources : List SourceFile)
    (hf : f ∈ (ofSources config sources).files) (hq : q ∈ f.root.parts) (hleaf : leaf ∈ q.names)
    (hold : leaf.identifier? = some old) (hplace : (ofSources config sources).Placed place)
    (hname : place.identifier? = some name) (hfresh : (ofSources config sources).Fresh fresh)
    (space : Space) :
    let p := ofSources config sources
    let renamed := ofSources config (sources.map (SourceFile.renamed leaf.id fresh))
    renamed.scopeOf? place = p.scopeOf? place ∧
    ((renamed.lookup? space name place).map Symbol.outline =
        (p.lookup? space name place).map Symbol.outline ↔
      ∀ s, p.lookup? space name place = some s → s.id ≠ .node leaf.id) ∧
    (f.source.fileName = f.path → p.Avoids leaf.id (.inl place) →
      renamed.resolve place = p.resolve place) := by
  intro p renamed
  have hspares := spares_of_name hf hq hleaf hold
  have hpart := Node.parts_subset hq (Node.mem_parts_of_mem_names hleaf)
  have hne : fresh ≠ name := fun heq => hfresh.1 place hplace (heq ▸ hname)
  refine ⟨scope_renamed hspares rfl, lookup_renamed_iff hspares hne place space, ?_⟩
  intro hown havoids
  have hid : place.id ≠ leaf.id := fun hid => havoids.subject_ne (congrArg SymbolId.node hid)
  have hsame : place.renamed leaf.id fresh = place := by
    cases place with
    | identifier i text => exact congrArg _ (if_neg hid)
    | _ => cases hname
  have hresolve := (respells_of_sources hf hown hpart hspares hfresh).resolve_eq hplace havoids
  rwa [hsame] at hresolve

/-- Outside of a loop that is not understood, a name that its header does not declare is looked up
and resolved to the same when a variable of the header gets another name. -/
theorem renamed_iff_loop_header :
    let name (t : String) := Node.identifier {} (Text.ofString t)
    let header := Node.variableStatement {} .let
      [.variableDeclaration {} (name "i") none (some (.numericLiteral {} (Text.ofString "0")))]
      false false
    let source : SourceFile :=
      { fileName := Text.ofString "a"
        statements := [
          .unknown {} (Text.ofString "for_statement") [header],
          .expressionStatement {} (name "undefined")] }
    let leaf := Node.place (Text.ofString "a") [0, 0, 0, 0, 0, 0, 0] (name "i")
    let place := Node.place (Text.ofString "a") [0, 1, 0] (name "undefined")
    let p := ofSources {} [source]
    let renamed := ofSources {} [source.renamed leaf.id (Text.ofString "k")]
    (renamed.lookup? .value (Text.ofString "undefined") place).map Symbol.outline =
        (p.lookup? .value (Text.ofString "undefined") place).map Symbol.outline ∧
      renamed.resolve place = p.resolve place := by
  intro name header source leaf place p renamed
  have hfile : source.bound ∈ p.files := List.mem_singleton.mpr rfl
  have hplace : place ∈ source.bound.root.parts := List.mem_of_getElem? (i := 7) (by cbv)
  let declaration := Node.place (Text.ofString "a") [0, 0, 0, 0, 0, 0]
    (.variableDeclaration {} (name "i") none (some (.numericLiteral {} (Text.ofString "0"))))
  have hdeclaration : declaration ∈ source.bound.root.parts :=
    List.mem_of_getElem? (i := 3) (by cbv)
  have havoids : p.Avoids leaf.id (.inl place) := by
    let symbol := ambientSymbol (Text.ofString "undefined")
    have honward : p.onward (.inl place) = [.inr symbol, .inr symbol] := by cbv
    have hstays : p.onward (.inr symbol) = [.inr symbol] := by cbv
    refine .of_closed [.inl place, .inr symbol] List.mem_cons_self ?_ (by decide)
    simp [List.flatMap_cons, honward, hstays]
  have hfresh : p.Fresh (Text.ofString "k") :=
    fresh_of_no_alias (by decide) (by decide)
  have hambient : (p.lookup? .value (Text.ofString "undefined") place).map Symbol.id =
      some (.ambient (Text.ofString "undefined")) := by
    decide
  have hall := renamed_iff {} [source] hfile hdeclaration (List.mem_singleton_self leaf) rfl
    ⟨_, hfile, hplace⟩ rfl hfresh .value
  refine ⟨hall.2.1.mpr fun s hs hid => ?_, hall.2.2 rfl havoids⟩
  rw [hs] at hambient
  exact SymbolId.noConfusion (hid.symm.trans (Option.some.inj hambient))

/-- A variable of the header of a loop that is not understood is seen after the loop: there, its
name is looked up as it, and resolved to its first value. Under another name of that variable it is
looked up as nothing, and resolved to itself. -/
theorem loop_variable_seen_after_loop :
    let token (type : String) (start stop : Nat) (field : Option String) :=
      ParseTree.node type false start stop field []
    let word (type : String) (start : Nat) (field : Option String) :=
      ParseTree.node type true start (start + 1) field []
    let header := ParseTree.node "lexical_declaration" true 4 12 (some "initializer")
      [token "let" 4 7 (some "kind"),
        .node "variable_declarator" true 8 11 none
          [word "identifier" 8 (some "name"), token "=" 9 10 none, word "number" 10 (some "value")],
        token ";" 11 12 none]
    let loop := ParseTree.node "for_statement" true 0 16 none
      [token "for" 0 3 none, token "(" 3 4 none, header,
        .node "empty_statement" true 12 13 (some "condition") [token ";" 12 13 none],
        token ")" 13 14 none,
        .node "statement_block" true 14 16 (some "body")
          [token "\x7b" 14 15 none, token "\x7d" 15 16 none]]
    let tree := ParseTree.node "program" true 0 17 none
      [loop, .node "expression_statement" true 16 17 none [word "identifier" 16 none]]
    let symbol (source : SourceFile) := (ofSources {} [source]).lookup? .value (Text.ofString "i")
    let value (source : SourceFile) (n : Node) := ((ofSources {} [source]).resolve n).value
    ∃ source, SourceFile.ofParsed (Utf8.encode (Text.ofString "for(let i=0;;)\x7b\x7di"))
        (Text.ofString "a.ts") 100 ⟨tree, false⟩ = .ok source ∧
      ∃ statement ∈ source.bound.root.parts, statement.kindName = "Unknown" ∧
      ∃ leaf ∈ statement.parts.flatMap Node.names,
      ∃ place ∈ source.bound.root.parts, place.id ∉ statement.parts.map Node.id ∧
        place.identifier? = some (Text.ofString "i") ∧
        (symbol source place).map Symbol.id = some (.node leaf.id) ∧
        (symbol (source.renamed leaf.id (Text.ofString "k")) place).isNone ∧
        (value source place).map Value.type = some .numericLiteral ∧
        value (source.renamed leaf.id (Text.ofString "k")) place =
          some (.text (Text.ofString "i")) := by
  intro token word header loop tree symbol value
  exact exists_ok_of_any (by decide)

end Program

end StaticLiteral
