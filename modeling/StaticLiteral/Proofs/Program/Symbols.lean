import StaticLiteral.Program.Alias

/-!
# The symbols of a program

The finitely many symbols that a question about a program can meet: those that its facts are about,
the ambient ones, those of its files as modules, and the one behind aliases that lead nowhere.
Every look-up stays among them.
-/

namespace StaticLiteral

/-- The symbol that a fact is about. -/
def Fact.symbol? : Fact → Option BoundSymbol
  | .declares d => some d.symbol
  | .enters _ _ symbol | .names _ symbol | .isLiteral _ symbol => some symbol
  | .reexports _ | .refers .. => none

namespace Fact

variable {facts : List Fact} {symbol : BoundSymbol}

/-- A symbol found in a scope was declared there. -/
theorem declares_of_declared_in {scope : ScopeId} {space : Space} {name : Text}
    (h : declaredIn? facts scope space name = some symbol) :
    ∃ d, .declares d ∈ facts ∧ d.symbol = symbol := by
  obtain ⟨d, hfind, rfl⟩ := Option.map_eq_some_iff.mp h
  have hmem := List.mem_reverse.mp (List.mem_of_find?_eq_some hfind)
  obtain ⟨fact, hfact, hd⟩ := List.mem_filterMap.mp hmem
  cases fact <;> simp only [declared?, reduceCtorEq, Option.some.injEq] at hd
  exact ⟨d, hd ▸ hfact, rfl⟩

/-- A symbol found in a scope is one that a fact is about. -/
theorem declared_in_mem {scope : ScopeId} {space : Space} {name : Text}
    (h : declaredIn? facts scope space name = some symbol) :
    ∃ fact ∈ facts, fact.symbol? = some symbol := by
  obtain ⟨d, hd, rfl⟩ := declares_of_declared_in h
  exact ⟨_, hd, rfl⟩

/-- A symbol found in a table was entered there. -/
theorem enters_of_entered {table : Table} {name : Text}
    (h : entered? facts table name = some symbol) : .enters table name symbol ∈ facts := by
  obtain ⟨⟨word, entry⟩, hlast, rfl⟩ := Option.map_eq_some_iff.mp h
  obtain ⟨hmem, hname⟩ := List.mem_filter.mp (List.mem_of_getLast? hlast)
  obtain ⟨fact, hfact, hrow⟩ := List.mem_filterMap.mp hmem
  cases fact <;> simp only [row?, Option.ite_none_right_eq_some, reduceCtorEq] at hrow
  obtain ⟨rfl, hrow⟩ := hrow
  obtain ⟨rfl, rfl⟩ := Prod.mk.inj (Option.some.inj hrow)
  exact of_decide_eq_true hname ▸ hfact

/-- A symbol found in a table is one that a fact is about. -/
theorem entered_mem {table : Table} {name : Text}
    (h : entered? facts table name = some symbol) :
    ∃ fact ∈ facts, fact.symbol? = some symbol :=
  ⟨_, enters_of_entered h, rfl⟩

/-- What the last fact tells is told by some fact. -/
theorem last_mem {α : Type} {tells : Fact → Option α} {a : α}
    (h : last? tells facts = some a) : ∃ fact ∈ facts, tells fact = some a :=
  List.mem_filterMap.mp (List.mem_of_getLast? h)

/-- The symbol that a node is the name of is one that a fact is about. -/
theorem named_mem {node : NodeId} (h : last? (named? node) facts = some symbol) :
    ∃ fact ∈ facts, fact.symbol? = some symbol := by
  obtain ⟨fact, hfact, hnamed⟩ := last_mem h
  refine ⟨fact, hfact, ?_⟩
  cases fact <;> simp_all [named?, symbol?]

/-- The symbol of a literal is one that a fact is about. -/
theorem literal_mem {node : NodeId} (h : last? (literal? node) facts = some symbol) :
    ∃ fact ∈ facts, fact.symbol? = some symbol := by
  obtain ⟨fact, hfact, hliteral⟩ := last_mem h
  refine ⟨fact, hfact, ?_⟩
  cases fact <;> simp_all [literal?, symbol?]

end Fact

namespace Program

variable {p : Program} {symbol : BoundSymbol}

/-- The symbols that a question about the program can meet. -/
def symbols (p : Program) : List BoundSymbol :=
  p.files.flatMap (fun f => f.facts.filterMap Fact.symbol?)
    ++ ambientNames.map ambientSymbol ++ p.files.map BoundFile.moduleSymbol ++ [unknownSymbol]

/-- The facts about a file are those of a file of the program. -/
theorem exists_file_of_fact {path : Text} {fact : Fact} (h : fact ∈ p.factsOf path) :
    ∃ f ∈ p.files, fact ∈ f.facts := by
  unfold factsOf at h
  cases hfile : p.file? path with
  | none => simp [hfile] at h
  | some f => exact ⟨f, List.mem_of_find?_eq_some hfile, by simpa [hfile] using h⟩

/-- A symbol that a fact of a file is about is a symbol of the program. -/
theorem mem_symbols_of_fact {path : Text}
    (h : ∃ fact ∈ p.factsOf path, fact.symbol? = some symbol) : symbol ∈ p.symbols := by
  obtain ⟨fact, hfact, hsymbol⟩ := h
  obtain ⟨f, hf, hfact⟩ := exists_file_of_fact hfact
  simp only [symbols, List.mem_append, List.mem_flatMap, List.mem_filterMap]
  exact .inl (.inl (.inl ⟨f, hf, fact, hfact, hsymbol⟩))

/-- The symbol behind aliases that lead nowhere is a symbol of the program. -/
theorem unknown_mem_symbols : unknownSymbol ∈ p.symbols := by simp [symbols]

/-- The symbol of a file as a module is a symbol of the program. -/
theorem module_mem_symbols {f : BoundFile} (h : f ∈ p.files) :
    f.moduleSymbol ∈ p.symbols := by
  simp only [symbols, List.mem_append, List.mem_map]
  exact .inl (.inr ⟨f, h, rfl⟩)

/-- A symbol declared in a scope is a symbol of the program. -/
theorem declared_mem_symbols {scope : ScopeId} {space : Space} {name : Text}
    (h : p.declared? scope space name = some symbol) : symbol ∈ p.symbols := by
  cases scope with
  | global =>
      simp only [declared?] at h
      split at h
      case isTrue hname =>
        simp only [Bool.and_eq_true, List.contains_iff_mem] at hname
        obtain rfl := Option.some.inj h
        simp only [symbols, List.mem_append, List.mem_map]
        exact .inl (.inl (.inr ⟨name, hname.2, rfl⟩))
      case isFalse => simp at h
  | file path => exact mem_symbols_of_fact (Fact.declared_in_mem h)
  | node id => exact mem_symbols_of_fact (Fact.declared_in_mem h)

/-- A symbol that a name is looked up as is a symbol of the program. -/
theorem lookup_mem_symbols {space : Space} {name : Text} {node : Node}
    (h : p.lookup? space name node = some symbol) : symbol ∈ p.symbols := by
  obtain ⟨scope, _, h⟩ := Option.bind_eq_some_iff.mp h
  obtain ⟨frame, _, h⟩ := List.exists_of_findSome?_eq_some h
  exact declared_mem_symbols h

/-- The symbol of a node is a symbol of the program. -/
theorem symbol_at_mem_symbols {node : Node} (h : p.symbolAt? node = some symbol) :
    symbol ∈ p.symbols := by
  unfold symbolAt? at h
  split at h
  case h_1 hnamed => exact mem_symbols_of_fact (Fact.named_mem (h ▸ hnamed))
  case h_2 =>
    obtain ⟨name, _, h⟩ := Option.bind_eq_some_iff.mp h
    exact lookup_mem_symbols h

/-- The symbol of a literal is a symbol of the program. -/
theorem literal_mem_symbols {node : Node} (h : p.literalSymbol? node = some symbol) :
    symbol ∈ p.symbols :=
  mem_symbols_of_fact (Fact.literal_mem h)

/-- What is exported is entered in the table of a file. -/
theorem exists_own_export {path name : Text} (h : p.export? path name = some symbol) :
    ∃ source, p.ownExport? source name = some symbol := by
  unfold export? at h
  split at h
  · exact ⟨path, h⟩
  · obtain ⟨source, _, h⟩ := List.exists_of_findSome?_eq_some h
    exact ⟨source, h⟩

/-- An alias leads to what is declared in the scope of a file, to what is entered in the table of
one, or to a module. -/
theorem target_cases {origin : AliasOrigin} (h : p.target? origin = some symbol) :
    (∃ path space name, p.declared? (.file path) space name = some symbol) ∨
      (∃ path name, p.ownExport? path name = some symbol) ∨
      ∃ f ∈ p.files, symbol = f.moduleSymbol := by
  unfold target? at h
  dsimp only at h
  split at h
  · unfold local? at h
    split at h
    case h_1 hvalue => exact .inl ⟨_, _, _, h ▸ hvalue⟩
    case h_2 => exact .inl ⟨_, _, _, h⟩
  · simp at h
  · obtain ⟨path, _, h⟩ := Option.bind_eq_some_iff.mp h
    split at h
    · obtain ⟨source, h⟩ := exists_own_export h
      exact .inr (.inl ⟨source, _, h⟩)
    · obtain ⟨f, hf, rfl⟩ := Option.map_eq_some_iff.mp h
      exact .inr (.inr ⟨f, List.mem_of_find?_eq_some hf, rfl⟩)

/-- What an alias leads to is a symbol of the program. -/
theorem target_mem_symbols {origin : AliasOrigin} (h : p.target? origin = some symbol) :
    symbol ∈ p.symbols := by
  rcases target_cases h with ⟨_, _, _, h⟩ | ⟨_, _, h⟩ | ⟨f, hf, rfl⟩
  · exact declared_mem_symbols h
  · exact mem_symbols_of_fact (Fact.entered_mem h)
  · exact module_mem_symbols hf

/-- One step behind an alias stands a symbol of the program. -/
theorem aliased_mem_symbols_of_alias (h : symbol.kind.isAlias) : p.aliased symbol ∈ p.symbols := by
  unfold aliased
  split
  · cases htarget : p.target? _ with
    | none => exact unknown_mem_symbols
    | some target => exact target_mem_symbols htarget
  · simp_all [SymbolKind.isAlias]

/-- A step behind a symbol of the program stays among its symbols. -/
theorem aliased_mem_symbols (h : symbol ∈ p.symbols) : p.aliased symbol ∈ p.symbols := by
  by_cases hkind : symbol.kind.isAlias
  · exact aliased_mem_symbols_of_alias hkind
  · unfold aliased
    split
    · simp_all [SymbolKind.isAlias]
    · exact h

/-- Steps behind a symbol of the program stay among its symbols. -/
theorem alias_end_from_mem_symbols (steps : Nat) (seen : List SymbolId)
    (h : symbol ∈ p.symbols) : p.aliasEndFrom steps seen symbol ∈ p.symbols := by
  induction steps generalizing seen symbol with
  | zero => exact h
  | succ steps ih =>
      simp only [aliasEndFrom]
      split
      · exact ih _ (aliased_mem_symbols h)
      · exact h

/-- The end of a chain of aliases of the program is a symbol of the program. -/
theorem alias_end_mem_symbols (h : symbol ∈ p.symbols) : p.aliasEnd symbol ∈ p.symbols :=
  alias_end_from_mem_symbols _ _ h

/-- The end of a chain of aliases is a symbol of the program, whatever alias it starts at. -/
theorem alias_end_mem_symbols_of_alias (h : symbol.kind.isAlias) :
    p.aliasEnd symbol ∈ p.symbols := by
  rw [aliasEnd, aliasEndFrom, if_pos ⟨h, List.not_mem_nil⟩]
  exact alias_end_from_mem_symbols _ _ (aliased_mem_symbols_of_alias h)

end Program

end StaticLiteral
