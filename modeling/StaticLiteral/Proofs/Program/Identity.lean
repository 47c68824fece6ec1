import StaticLiteral.Proofs.Binding.Coherence
import StaticLiteral.Proofs.Program.Symbols

/-!
# The identities of symbols

In the program of some files no two symbols share an identity: those of one file do not because its
tree is laid out, and those of two files do not because their paths differ.
`Program.symbol_eq_of_id_eq` is what makes a set of identities as good as a set of symbols.
-/

namespace StaticLiteral

/-! ## Tables without repeated keys -/

/-- The keys of a table are those that were put into it. -/
theorem mem_keys_put_entry_iff {α : Type} {key other : Text} {value : α}
    {entries : List (Text × α)} :
    other ∈ (putEntry key value entries).map (·.1) ↔ other = key ∨ other ∈ entries.map (·.1) := by
  induction entries with
  | nil => simp [putEntry]
  | cons entry rest ih =>
      obtain ⟨k, v⟩ := entry
      unfold putEntry
      split
      case isTrue heq =>
        subst heq
        simp
      case isFalse =>
        rw [List.map_cons, List.mem_cons, ih, List.map_cons, List.mem_cons]
        exact or_left_comm

/-- An entry put into a table repeats no key. -/
theorem nodup_keys_put_entry {α : Type} (key : Text) (value : α) {entries : List (Text × α)}
    (h : (entries.map (·.1)).Nodup) : ((putEntry key value entries).map (·.1)).Nodup := by
  induction entries with
  | nil => simp [putEntry]
  | cons entry rest ih =>
      obtain ⟨k, v⟩ := entry
      rw [List.map_cons, List.nodup_cons] at h
      unfold putEntry
      split
      case isTrue => exact List.nodup_cons.mpr h
      case isFalse hne =>
        refine List.nodup_cons.mpr ⟨fun hmem => ?_, ih h.2⟩
        rcases mem_keys_put_entry_iff.mp hmem with heq | hmem
        · exact hne heq
        · exact h.1 hmem

namespace BoundFile

/-- The tree of a file that was bound is laid out. -/
theorem laid_root (path : Text) (source : SourceFile) : (ofSource path source).root.Laid := by
  refine Node.laid_of_fan ?_
  rw [Node.children_eq]
  exact .nodes (k := 0) source.statements .nil

/-- Settling aliases changes no identity. -/
theorem id_settle (path : Text) (settled : List SymbolId) (symbol : BoundSymbol) :
    (settle path settled symbol).id = symbol.id := by
  unfold settle
  split
  · split <;> rfl
  · rfl

/-- The facts of a file are those of its tree with the symbols settled. -/
theorem exists_settled (path : Text) (source : SourceFile) :
    ∃ visible, ∀ fact ∈ (ofSource path source).facts,
      ∃ origin ∈ Binding.ofNode (site path source) (ofSource path source).root,
        fact = origin.mapSymbol (settle path visible) := by
  let facts := Binding.ofNode (site path source) (ofSource path source).root
  refine ⟨((visibleSymbols path facts).filter (·.kind.isAlias)).map (·.id), fun fact hfact => ?_⟩
  unfold ofSource at hfact
  dsimp only at hfact
  split at hfact
  · simp at hfact
  · obtain ⟨origin, horigin, rfl⟩ := List.mem_map.mp hfact
    exact ⟨origin, horigin, rfl⟩

/-- Changing the symbol of a fact changes the symbol that it is about. -/
theorem symbol_map_symbol (f : BoundSymbol → BoundSymbol) (fact : Fact) :
    (fact.mapSymbol f).symbol? = fact.symbol?.map f := by
  cases fact <;> rfl

/-- Changing the symbols of facts changes the symbols in the rows of a table. -/
theorem rows_map_symbol (f : BoundSymbol → BoundSymbol) (facts : List Fact) (table : Table) :
    (facts.map (Fact.mapSymbol f)).filterMap (Fact.row? table) =
      (facts.filterMap (Fact.row? table)).map (Prod.map id f) := by
  rw [List.filterMap_map, List.map_filterMap]
  refine List.filterMap_congr fun fact _ => ?_
  cases fact <;> simp only [Function.comp_apply, Fact.mapSymbol, Fact.row?, Option.map_none]
  split <;> rfl

variable {path : Text} {source : SourceFile} {fact other : Fact} {symbol same : BoundSymbol}

/-- A symbol that a file declares has the identity of one of its nodes. -/
theorem exists_node_of_mem (h : fact ∈ (ofSource path source).facts)
    (hsymbol : fact.symbol? = some symbol) : ∃ x : NodeId, symbol.id = .node x ∧ x.file = path := by
  obtain ⟨visible, hsettled⟩ := exists_settled path source
  obtain ⟨origin, horigin, rfl⟩ := hsettled fact h
  rw [symbol_map_symbol] at hsymbol
  obtain ⟨s, hs, rfl⟩ := Option.map_eq_some_iff.mp hsymbol
  obtain ⟨part, hpart, hid⟩ := Binding.exists_part_of_mem horigin hs
  refine ⟨part.id, by rw [id_settle, hid], ?_⟩
  exact ((laid_root path source).encloses hpart).1.symm

/-- Symbols that a file declares with the same identity are the same. -/
theorem symbol_eq_of_id_eq (h : fact ∈ (ofSource path source).facts)
    (hother : other ∈ (ofSource path source).facts) (hsymbol : fact.symbol? = some symbol)
    (hsame : other.symbol? = some same) (hid : symbol.id = same.id) : symbol = same := by
  obtain ⟨visible, hsettled⟩ := exists_settled path source
  obtain ⟨origin, horigin, rfl⟩ := hsettled fact h
  obtain ⟨further, hfurther, rfl⟩ := hsettled other hother
  rw [symbol_map_symbol] at hsymbol hsame
  obtain ⟨s, hs, rfl⟩ := Option.map_eq_some_iff.mp hsymbol
  obtain ⟨t, ht, rfl⟩ := Option.map_eq_some_iff.mp hsame
  rw [id_settle, id_settle] at hid
  rw [Binding.symbol_eq_of_id_eq (laid_root path source) horigin hfurther hs ht hid]

end BoundFile

namespace Program

variable {config : Config} {sources : List SourceFile}

/-- The files of a program were bound under paths of their own. -/
theorem files_of_sources (config : Config) (sources : List SourceFile) :
    (∀ f ∈ (ofSources config sources).files, ∃ path source, f = BoundFile.ofSource path source) ∧
      ((ofSources config sources).files.map BoundFile.path).Nodup := by
  have hkeys : ∀ table : List (Text × SourceFile), (table.map (·.1)).Nodup →
      ((sources.foldl (fun table f => putEntry (Path.normalize f.fileName) f table)
        table).map (·.1)).Nodup := by
    intro table h
    induction sources generalizing table with
    | nil => exact h
    | cons f rest ih => exact ih _ (nodup_keys_put_entry _ f h)
  constructor
  · intro f hf
    obtain ⟨⟨path, source⟩, _, rfl⟩ := List.mem_map.mp hf
    exact ⟨path, source, rfl⟩
  · rw [ofSources, List.map_map]
    exact hkeys [] List.nodup_nil

/-- A symbol of a program is one of a file, with the identity of a node of it, or an ambient one, or
a module, or the one behind aliases that lead nowhere. -/
theorem mem_symbols_cases {symbol : BoundSymbol} (h : symbol ∈ (ofSources config sources).symbols) :
    (∃ f ∈ (ofSources config sources).files, ∃ fact ∈ f.facts, fact.symbol? = some symbol ∧
        ∃ x : NodeId, symbol.id = .node x ∧ x.file = f.path) ∨
      (∃ name, symbol = ambientSymbol name) ∨
      (∃ f ∈ (ofSources config sources).files, symbol = f.moduleSymbol) ∨
      symbol = unknownSymbol := by
  simp only [symbols, List.mem_append, List.mem_flatMap, List.mem_filterMap, List.mem_map,
    List.mem_singleton] at h
  rcases h with ((⟨f, hf, fact, hfact, hsymbol⟩ | ⟨name, _, rfl⟩) | ⟨f, hf, rfl⟩) | rfl
  · refine .inl ⟨f, hf, fact, hfact, hsymbol, ?_⟩
    obtain ⟨path, source, rfl⟩ := (files_of_sources config sources).1 f hf
    exact BoundFile.exists_node_of_mem hfact hsymbol
  · exact .inr (.inl ⟨name, rfl⟩)
  · exact .inr (.inr (.inl ⟨f, hf, rfl⟩))
  · exact .inr (.inr (.inr rfl))

/-- Symbols of a program with the same identity are the same. -/
theorem symbol_eq_of_id_eq {symbol same : BoundSymbol}
    (h : symbol ∈ (ofSources config sources).symbols)
    (hsame : same ∈ (ofSources config sources).symbols) (hid : symbol.id = same.id) :
    symbol = same := by
  obtain ⟨hbound, hnodup⟩ := files_of_sources config sources
  rcases mem_symbols_cases h with
      ⟨f, hf, fact, hfact, hs, x, hx, hxfile⟩ | ⟨name, rfl⟩ | ⟨f, hf, rfl⟩ | rfl <;>
    rcases mem_symbols_cases hsame with
      ⟨g, hg, other, hother, ht, y, hy, hyfile⟩ | ⟨word, rfl⟩ | ⟨g, hg, rfl⟩ | rfl
  case inl.inl =>
    obtain rfl : x = y := SymbolId.node.inj (hx.symm.trans (hid.trans hy))
    obtain rfl : f = g := List.inj_on_of_nodup_map hnodup hf hg (hxfile.symm.trans hyfile)
    obtain ⟨path, source, rfl⟩ := hbound f hf
    exact BoundFile.symbol_eq_of_id_eq hfact hother hs ht hid
  case inr.inl.inr.inl =>
    obtain rfl := SymbolId.ambient.inj hid
    rfl
  case inr.inr.inl.inr.inr.inl =>
    have hpath : f.path = g.path := SymbolId.module.inj hid
    rw [List.inj_on_of_nodup_map hnodup hf hg hpath]
  case inr.inr.inr.inr.inr.inr => rfl
  -- Symbols of different sorts have identities of different sorts.
  all_goals simp_all [ambientSymbol, BoundFile.moduleSymbol, unknownSymbol]

end Program

end StaticLiteral
