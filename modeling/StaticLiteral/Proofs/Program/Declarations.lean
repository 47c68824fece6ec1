import StaticLiteral.Proofs.Binding.Declarations
import StaticLiteral.Proofs.Program.Isolation

/-!
# The declarations of a program

In the program of some files the symbols that its facts are about are declared by nodes of its
files, and an object literal of a file has itself as the declaration of its symbol.
-/

namespace StaticLiteral

/-- The symbol of a literal is no alias. -/
theorem Node.not_alias_of_own {m : Node} {s : BoundSymbol} (h : m.ownSymbol? = some s) :
    s.kind.isAlias = false := by
  cases m with
  | objectLiteral i properties | typeLiteral i members =>
      obtain rfl := Option.some.inj h
      rfl
  | _ => cases h

namespace BoundFile

/-- A symbol keeps its declaration when it is settled. -/
theorem declaration_settle (path : Text) (visible : List SymbolId) (symbol : BoundSymbol) :
    (settle path visible symbol).declaration = symbol.declaration := by
  unfold settle
  split
  · split <;> rfl
  · rfl

/-- Only aliases are settled. -/
theorem settle_of_not_alias {path : Text} {visible : List SymbolId} {symbol : BoundSymbol}
    (h : symbol.kind.isAlias = false) : settle path visible symbol = symbol := by
  unfold settle
  split
  · simp_all [SymbolKind.isAlias]
  · rfl

end BoundFile

namespace Program

/-- A node stands in the tree of a file of the program. -/
def Placed (p : Program) (n : Node) : Prop := ∃ f ∈ p.files, n ∈ f.root.parts

/-- The parts of a node that stands in a program stand in it. -/
theorem Placed.of_mem_children {p : Program} {n c : Node} (h : p.Placed n) (hc : c ∈ n.children) :
    p.Placed c := by
  obtain ⟨f, hf, hn⟩ := h
  exact ⟨f, hf, Node.parts_subset hn (Node.parts_subset_of_mem_children hc (Node.mem_parts_self c))⟩

variable {config : Config} {sources : List SourceFile} {s : BoundSymbol} {n d : Node}

/-- A symbol that a fact of a file is about is declared by a node of the file, and by no mere
name. -/
theorem declarer_of_fact {f : BoundFile} (hf : f ∈ (ofSources config sources).files) {fact : Fact}
    (hfact : fact ∈ f.facts) (hs : fact.symbol? = some s) (hd : s.declaration = some d) :
    Binding.DeclarerIn f.root d := by
  obtain ⟨path, source, rfl⟩ := (files_of_sources config sources).1 f hf
  obtain ⟨visible, hsettled⟩ := BoundFile.exists_settled path source
  obtain ⟨origin, horigin, rfl⟩ := hsettled fact hfact
  rw [BoundFile.symbol_map_symbol] at hs
  obtain ⟨t, ht, rfl⟩ := Option.map_eq_some_iff.mp hs
  rw [BoundFile.declaration_settle] at hd
  exact Binding.declarer_of_mem horigin ht hd

/-- A symbol of the program is declared by a node of a file, and by no mere name. -/
theorem declarer_of_symbol (hs : s ∈ (ofSources config sources).symbols)
    (hd : s.declaration = some d) :
    ∃ f ∈ (ofSources config sources).files, Binding.DeclarerIn f.root d := by
  rcases mem_symbols_cases hs with
    ⟨f, hf, fact, hfact, hs, _⟩ | ⟨name, rfl⟩ | ⟨f, hf, rfl⟩ | rfl
  · exact ⟨f, hf, declarer_of_fact hf hfact hs hd⟩
  · simp [ambientSymbol] at hd
  · obtain rfl := Option.some.inj hd
    exact ⟨f, hf, Node.mem_parts_self _, rfl⟩
  · simp [unknownSymbol] at hd

/-- The declaration of a symbol of the program stands in it. -/
theorem placed_of_symbol (hs : s ∈ (ofSources config sources).symbols)
    (hd : s.declaration = some d) : (ofSources config sources).Placed d := by
  obtain ⟨f, hf, hpart, _⟩ := declarer_of_symbol hs hd
  exact ⟨f, hf, hpart⟩

/-- The facts about the nodes of a file are its own. -/
theorem facts_of_placed {f : BoundFile} (hf : f ∈ (ofSources config sources).files)
    (hn : n ∈ f.root.parts) : (ofSources config sources).factsOf n.id.file = f.facts := by
  have hfile := file_eq_of_mem hf
  obtain ⟨path, source, rfl⟩ := (files_of_sources config sources).1 f hf
  have hid : n.id.file = (BoundFile.ofSource path source).path :=
    ((BoundFile.laid_root path source).encloses hn).1.symm
  rw [factsOf, hid, hfile]
  rfl

/-- A literal of the program has no other symbol than its own. -/
theorem own_symbol_of_literal (hplaced : (ofSources config sources).Placed n)
    (h : (ofSources config sources).literalSymbol? n = some s) : n.ownSymbol? = some s := by
  obtain ⟨f, hf, hn⟩ := hplaced
  rw [literalSymbol?, facts_of_placed hf hn] at h
  obtain ⟨fact, hfact, hliteral⟩ := Fact.last_mem h
  cases fact with
  | isLiteral id symbol =>
      simp only [Fact.literal?, Option.ite_none_right_eq_some, Option.some.injEq] at hliteral
      obtain ⟨rfl, rfl⟩ := hliteral
      obtain ⟨path, source, rfl⟩ := (files_of_sources config sources).1 f hf
      obtain ⟨visible, hsettled⟩ := BoundFile.exists_settled path source
      obtain ⟨origin, horigin, hmap⟩ := hsettled _ hfact
      cases origin with
      | isLiteral id symbol =>
          obtain ⟨rfl, rfl⟩ := Fact.isLiteral.inj hmap
          obtain ⟨m, hm, hid, hown⟩ := Binding.literal_of_mem horigin
          obtain rfl := (BoundFile.laid_root path source).eq_of_id_eq hm hn hid
          rw [BoundFile.settle_of_not_alias (Node.not_alias_of_own hown), hown]
      | _ => cases hmap
  | _ => simp [Fact.literal?] at hliteral

/-- The symbol of an object literal of the program is declared by the literal. -/
theorem literal_symbol_eq {i : Info} {properties : List Node}
    (hplaced : (ofSources config sources).Placed (.objectLiteral i properties))
    (h : (ofSources config sources).literalSymbol? (.objectLiteral i properties) = some s) :
    s = literalSymbol .objectLiteral "__object" (.objectLiteral i properties) :=
  (Option.some.inj (own_symbol_of_literal hplaced h)).symm

/-- Symbols with one identity are one, their declarations stand in the program, and its object
literals are the declarations of their symbols. -/
structure Coherent (p : Program) : Prop where
  unique : ∀ s ∈ p.symbols, ∀ t ∈ p.symbols, s.id = t.id → s = t
  declared : ∀ s ∈ p.symbols, ∀ d, s.declaration = some d → p.Placed d
  literal : ∀ i properties, p.Placed (.objectLiteral i properties) →
    ∀ s, p.literalSymbol? (.objectLiteral i properties) = some s →
      s = literalSymbol .objectLiteral "__object" (.objectLiteral i properties)

/-- The program of some files is coherent. -/
theorem coherent_of_sources (config : Config) (sources : List SourceFile) :
    (ofSources config sources).Coherent where
  unique _ hs _ ht := symbol_eq_of_id_eq hs ht
  declared _ hs _ hd := placed_of_symbol hs hd
  literal _ _ hplaced _ h := literal_symbol_eq hplaced h

end Program

end StaticLiteral
