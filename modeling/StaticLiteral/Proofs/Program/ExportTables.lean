import StaticLiteral.Proofs.Binding.ExportOrigins
import StaticLiteral.Proofs.Program.FileScope

/-!
# The export tables of files and namespaces

What a file of a program exports is entered in one table: that of the innermost namespace around the
statement, or that of the file if there is none. Files that could not be bound make no difference to
the others. `Program.exports_in_tables` puts this together.
-/

namespace StaticLiteral

open Binding

namespace BoundFile

variable {path : Text} {source : SourceFile} {m x : Node} {inner : Option Node}

/-- Settling aliases makes no difference to what is exported where. -/
theorem exports_to_facts {table : Option Table} (hbound : (ofSource path source).isTooDeep = false)
    (h : ExportsTo x table (ofNode (site path source) (ofSource path source).root)) :
    ExportsTo x table (ofSource path source).facts := by
  obtain ⟨visible, hfacts⟩ := facts_of_root hbound
  intro t key
  rw [← h t key, hfacts]
  constructor
  · rintro ⟨s, hid, hs⟩
    obtain ⟨origin, horigin, heq⟩ := List.mem_map.mp hs
    cases origin with
    | enters other word symbol =>
        obtain ⟨rfl, rfl, rfl⟩ := Fact.enters.inj heq
        exact ⟨symbol, (id_settle path visible symbol).symm.trans hid, horigin⟩
    | _ => cases heq
  · rintro ⟨s, hid, hs⟩
    exact ⟨_, (id_settle path visible s).trans hid, List.mem_map_of_mem hs⟩

/-- What a statement exports, if it is not hidden, is entered in the table of the innermost
namespace or module around the statement, and nowhere else. -/
theorem exports_to_of_within (hwell : (ofSource path source).root.WellFormed)
    (hbound : (ofSource path source).isTooDeep = false)
    (hwithin : Node.Within none (ofSource path source).root m inner)
    (hhides : ¬ (ofSource path source).Hides m) (hx : x ∈ m.exported) :
    ExportsTo x (exportTable inner) (ofSource path source).facts := by
  have hsite : (site path source).exports = exportTable none := rfl
  have hexposed : Exposed (ofSource path source).root m :=
    exposed_root (recorded_of_exported hx).1 (fun h => absurd h (recorded_of_exported hx).2) hhides
  exact exports_to_facts hbound
    (exports_to_of_exposed (laid_root path source) hwell hsite hexposed hwithin hx)

/-- What is entered in the table of a file is exported by a statement that no namespace or module is
around. -/
theorem exists_exported_of_enters (hwell : (ofSource path source).root.WellFormed) {key : Text}
    {s : BoundSymbol} (h : .enters .exports key s ∈ (ofSource path source).facts) :
    ∃ m, Node.Within none (ofSource path source).root m none ∧
      ∃ x ∈ m.exported, s.id = .node x.id ∧ x.exportKey? = some key := by
  have hsite : (site path source).exports = exportTable none := rfl
  obtain ⟨visible, hsettled⟩ := exists_settled path source
  obtain ⟨origin, horigin, heq⟩ := hsettled _ h
  cases origin with
  | enters table name symbol =>
      obtain ⟨rfl, rfl, rfl⟩ := Fact.enters.inj heq
      obtain ⟨target, m, hvisits, htable, x, hx, hid, hkey⟩ :=
        Binding.exists_exported_of_enters (laid_root path source) hwell horigin
      obtain ⟨inner, hwithin, hinner⟩ := within_of_visits hvisits hsite
      obtain rfl := export_table_eq_exports (hinner.symm.trans htable)
      exact ⟨m, hwithin, x, hx, (id_settle path visible symbol).trans hid, hkey⟩
  | _ => cases heq

/-- Settling aliases makes no difference to what is exported again. -/
theorem reexports_mem_facts_iff {specifier : Text}
    (hbound : (ofSource path source).isTooDeep = false) :
    .reexports specifier ∈ (ofSource path source).facts ↔
      .reexports specifier ∈ ofNode (site path source) (ofSource path source).root := by
  obtain ⟨visible, hfacts⟩ := facts_of_root hbound
  rw [hfacts]
  constructor
  · intro h
    obtain ⟨origin, horigin, heq⟩ := List.mem_map.mp h
    cases origin with
    | reexports other => exact Fact.reexports.inj heq ▸ horigin
    | _ => cases heq
  · exact fun h => List.mem_map_of_mem h

end BoundFile

namespace Program

variable {config : Config} {sources : List SourceFile} {f : BoundFile}

/-- The name of a namespace names the symbol whose members the namespace exports. -/
theorem symbol_at_namespace (hf : f ∈ (ofSources config sources).files)
    (hwell : f.root.WellFormed) (hbound : f.isTooDeep = false) {i j : Info} {text : Text}
    {body : Option Node} {exported : Bool}
    (hm : .moduleDeclaration i (.identifier j text) body exported ∈ f.root.parts)
    (hhides : ¬ f.Hides (.moduleDeclaration i (.identifier j text) body exported)) :
    ∃ s, (ofSources config sources).symbolAt? (.identifier j text) = some s ∧
      exportTable (some (.moduleDeclaration i (.identifier j text) body exported)) =
        some (.members s.id) := by
  let module := Node.moduleDeclaration i (.identifier j text) body exported
  have hname : Node.identifier j text ∈ f.root.parts :=
    Node.parts_subset hm (Node.mem_parts_of_mem_names (List.mem_singleton_self _))
  have hplaced := facts_of_placed hf hname
  obtain ⟨path, source, rfl⟩ := (files_of_sources config sources).1 f hf
  have hexposed : Exposed (BoundFile.ofSource path source).root module :=
    BoundFile.exposed_root rfl (fun h => by cases h) hhides
  obtain ⟨target, hvisits⟩ := visits_of_exposed_statement (BoundFile.site path source) hwell
    hexposed hm (by simp [Node.role])
  have hnames : .names j.id (.declaredBy .namespaceBlock module false (.node j.id) text) ∈
      ofNode target module := by
    rw [of_node_eq]
    refine List.mem_append_right _ (List.mem_flatMap.mpr ⟨_, List.mem_cons_self, ?_⟩)
    simp [Site.declare, module]
  have hfact := BoundFile.names_of_visits hbound hvisits rfl hnames
  have hfile : (Node.identifier j text).id = j.id := rfl
  refine ⟨.declaredBy .namespaceBlock module false (.node j.id) text, ?_, rfl⟩
  rw [symbolAt?, hplaced, hfile, BoundFile.named_eq hfact]

/-- Everything that a file of a program exports is entered in one table, under its own name and
nowhere else: in that of the innermost namespace around the statement, which are the members of the
namespace's symbol; nowhere if that is a module declared by a text; and in the table of the file
exactly if there is none. Nothing else is entered in the table of the file. What exports everything
of a module again does so for the file, if and only if no namespace or module is around it. All of
this holds whatever other files there are in the program, be they too deep to be bound or not. -/
theorem exports_in_tables (hf : f ∈ (ofSources config sources).files)
    (hwell : f.root.WellFormed) (hbound : f.isTooDeep = false) :
    (∀ m inner, Node.Within none f.root m inner → ¬ f.Hides m → ∀ x ∈ m.exported,
      (∀ table key, (∃ s, s.id = .node x.id ∧ .enters table key s ∈ f.facts) ↔
        exportTable inner = some table ∧ x.exportKey? = some key) ∧
      ∀ key, x.exportKey? = some key →
        ((∃ s, s.id = .node x.id ∧ .enters .exports key s ∈ f.facts) ↔ inner = none)) ∧
    (∀ key s, .enters .exports key s ∈ f.facts → ∃ m, Node.Within none f.root m none ∧
      ∃ x ∈ m.exported, s.id = .node x.id ∧ x.exportKey? = some key) ∧
    (∀ i j text body exported,
      .moduleDeclaration i (.identifier j text) body exported ∈ f.root.parts →
      ¬ f.Hides (.moduleDeclaration i (.identifier j text) body exported) →
      ∃ s, (ofSources config sources).symbolAt? (.identifier j text) = some s ∧
        exportTable (some (.moduleDeclaration i (.identifier j text) body exported)) =
          some (.members s.id)) ∧
    (∀ specifier, .reexports specifier ∈ f.facts → ∃ i specifiers,
      Node.Within none f.root (.exportDeclaration i specifiers (some specifier) true) none) ∧
    ∀ i specifiers specifier,
      Node.Within none f.root (.exportDeclaration i specifiers (some specifier) true) none →
      ¬ f.Hides (.exportDeclaration i specifiers (some specifier) true) →
      .reexports specifier ∈ f.facts := by
  have hnamespace := @symbol_at_namespace config sources f hf hwell hbound
  obtain ⟨path, source, rfl⟩ := (files_of_sources config sources).1 f hf
  have hlaid := BoundFile.laid_root path source
  have hsite : (BoundFile.site path source).exports = exportTable none := rfl
  refine ⟨fun m inner hwithin hhides x hx => ?_,
    fun key s h => BoundFile.exists_exported_of_enters hwell h,
    fun i j text body exported => hnamespace, fun specifier h => ?_,
    fun i specifiers specifier hwithin hhides => ?_⟩
  · have hexports := BoundFile.exports_to_of_within hwell hbound hwithin hhides hx
    refine ⟨hexports, fun key hkey => ?_⟩
    rw [hexports, and_iff_left hkey]
    exact ⟨export_table_eq_exports, fun h => h ▸ rfl⟩
  · obtain ⟨target, m, hvisits, htable, i, specifiers, rfl⟩ :=
      exists_star_of_reexports ((BoundFile.reexports_mem_facts_iff hbound).mp h)
    obtain ⟨inner, hwithin, hinner⟩ := within_of_visits hvisits hsite
    obtain rfl := export_table_eq_exports (hinner.symm.trans htable)
    exact ⟨i, specifiers, hwithin⟩
  · have hexposed : Exposed (BoundFile.ofSource path source).root
        (.exportDeclaration i specifiers (some specifier) true) :=
      BoundFile.exposed_root rfl (fun h => by cases h) hhides
    exact (BoundFile.reexports_mem_facts_iff hbound).mpr
      (reexports_of_exposed hlaid hwell hsite hexposed hwithin)

/-- The law at a namespace with a module declared by a text in it, next to a file that is too
deep. -/
theorem exports_in_tables_of_namespace :
    let name (text : String) := Node.identifier {} (Text.ofString text)
    let const (pattern : Node) (init : Option Node) : Node :=
      .variableStatement {} .const [.variableDeclaration {} pattern none init] true false
    let module (name : Node) (statements : List Node) : Node :=
      .moduleDeclaration {} name (some (.block {} statements)) false
    let entry (text : String) := Node.exportSpecifier {} (Text.ofString text) (Text.ofString "a")
    let element (name : Node) : Node := .bindingElement {} name none none false
    let deep : SourceFile :=
      { fileName := Text.ofString "d.ts"
        statements := [module (name "N")
          [const (name "a") (some (Nat.repeat (.parenthesizedExpression {}) 1000 (name "b")))]] }
    let source : SourceFile :=
      { fileName := Text.ofString "a.ts"
        statements :=
          [module (name "N")
            [module (.stringLiteral {} (Text.ofString "m")) [const (name "a") none],
              .exportDeclaration {} [entry "b"] none false],
          const (.objectBindingPattern {} [element (.arrayBindingPattern {} [element (name "c")])])
            (some (name "d")),
          .exportDeclaration {} [] (some (Text.ofString "./e")) true] }
    let p := ofSources {} [deep, source]
    let f := source.bound
    let owner : SymbolId := .node ⟨Text.ofString "a.ts", [0, 0, 0]⟩
    (∃ g ∈ p.files, g.isTooDeep) ∧ f ∈ p.files ∧
      (∃ m inner, Node.Within none f.root m inner ∧ ¬ f.Hides m ∧ ∃ x ∈ m.exported,
        ∃ s, s.id = .node x.id ∧ .enters (.members owner) (Text.ofString "b") s ∈ f.facts) ∧
      (∃ m inner, Node.Within none f.root m inner ∧ ¬ f.Hides m ∧ ∃ x ∈ m.exported,
        ∃ s, s.id = .node x.id ∧ .enters .exports (Text.ofString "c") s ∈ f.facts) ∧
      .reexports (Text.ofString "./e") ∈ f.facts := by
  intro name const module entry element deep source p f owner
  have hfile : f ∈ p.files := List.mem_of_getElem? (i := 1) rfl
  have hdeep : deep.bound ∈ p.files := List.mem_of_getElem? (i := 0) rfl
  have hwell : f.root.WellFormed :=
    show ∀ m ∈ f.root.parts, m.isFormed by decide +kernel
  obtain ⟨hexports, _, _, _, hstars⟩ := exports_in_tables hfile hwell (by decide +kernel)
  -- What a way down leads to is within the tree, and the law says where it is entered.
  have hentered : ∀ (way : List Nat) (t : Table) (key : Text),
      ((way.foldlM Node.descend (none, f.root)).any fun place => decide (¬ f.Hides place.2 ∧
        ∃ x ∈ place.2.exported, exportTable place.1 = some t ∧ x.exportKey? = some key)) →
      ∃ m inner, Node.Within none f.root m inner ∧ ¬ f.Hides m ∧ ∃ x ∈ m.exported,
        ∃ s, s.id = .node x.id ∧ .enters t key s ∈ f.facts := by
    intro way t key h
    obtain ⟨⟨inner, m⟩, hwithin, hhides, x, hx, htable, hkey⟩ := Node.exists_within_of_any h
    exact ⟨m, inner, hwithin, hhides, x, hx,
      ((hexports m inner hwithin hhides x hx).1 t key).mpr ⟨htable, hkey⟩⟩
  refine ⟨⟨_, hdeep, by decide +kernel⟩, hfile, hentered [0, 1, 1] _ _ (by decide +kernel),
    hentered [1] _ _ (by decide +kernel), ?_⟩
  exact hstars { id := ⟨Text.ofString "a.ts", [2, 0]⟩ } [] _
    (.child (List.mem_of_getElem? (i := 2) rfl) (.here none _)) (by decide +kernel)

/-- No table has what is exported inside of something that stands for a variable and was not
understood, or in the initial value of a variable that is caught; and a file that is too deep has no
exports at all. -/
theorem exports_in_no_table :
    let token (type : String) (start stop : Nat) := ParseTree.node type false start stop none []
    let word (type : String) (start : Nat) (field : Option String) :=
      ParseTree.node type true start (start + 1) field []
    let exported := ParseTree.node "export_statement" true 14 30 none
      [token "export" 14 20,
        .node "lexical_declaration" true 21 30 (some "declaration")
          [token "const" 21 26,
            .node "variable_declarator" true 27 30 none
              [word "identifier" 27 (some "name"), token "=" 28 29,
                word "number" 29 (some "value")]]]
    let arrow := ParseTree.node "arrow_function" true 9 31 (some "index")
      [.node "formal_parameters" true 9 11 (some "parameters") [token "(" 9 10, token ")" 10 11],
        token "=>" 11 13,
        .node "statement_block" true 13 31 (some "body")
          [token "\x7b" 13 14, exported, token "\x7d" 30 31]]
    let pattern := ParseTree.node "array_pattern" true 6 33 (some "name")
      [token "[" 6 7,
        .node "subscript_expression" true 7 32 none
          [word "identifier" 7 (some "object"), token "[" 8 9, arrow, token "]" 31 32],
        token "]" 32 33]
    let tree := ParseTree.node "program" true 0 35 none
      [.node "lexical_declaration" true 0 35 none
        [token "const" 0 5,
          .node "variable_declarator" true 6 35 none
            [pattern, token "=" 33 34, word "identifier" 34 (some "value")]]]
    let text := Text.ofString "const [a[()=>\x7bexport const z=1\x7d]]=y"
    let name (text : String) := Node.identifier {} (Text.ofString text)
    let const (init : Option Node) : Node :=
      .variableStatement {} .const [.variableDeclaration {} (name "z") none init] true false
    let caught : SourceFile :=
      { fileName := Text.ofString "b.ts"
        statements :=
          [.catchClause {} (some (.variableDeclaration {} (name "e") none
            (some (.functionExpression {} none [] (some (.block {} [const none])))))) none] }
    let deep : SourceFile :=
      { fileName := Text.ofString "c.ts"
        statements := [const (some (Nat.repeat (.parenthesizedExpression {}) 1000 (name "y")))] }
    let isLost (source : SourceFile) : Prop :=
      (∃ m, Node.Within none source.bound.root m none ∧
        ∃ x ∈ m.exported, x.exportKey? = some (Text.ofString "z")) ∧
      (Fact.tableOf source.bound.facts .exports).isEmpty
    (∃ source, SourceFile.ofParsed (Utf8.encode text) (Text.ofString "a.ts") 100 ⟨tree, false⟩ =
        .ok source ∧ source.bound.isTooDeep = false ∧ isLost source) ∧
      (caught.bound.isTooDeep = false ∧ isLost caught) ∧ deep.bound.isTooDeep ∧ isLost deep := by
  intro token word exported arrow pattern tree text name const caught deep isLost
  have hlost : ∀ (source : SourceFile) (way : List Nat),
      ((way.foldlM Node.descend (none, source.bound.root)).any fun place =>
        decide (place.1.isNone ∧ ∃ x ∈ place.2.exported, x.exportKey? = some (Text.ofString "z"))) →
      (Fact.tableOf source.bound.facts .exports).isEmpty → isLost source := by
    intro source way h hempty
    obtain ⟨⟨inner, m⟩, hwithin, hinner, hx⟩ := Node.exists_within_of_any h
    obtain rfl := Option.isNone_iff_eq_none.mp hinner
    exact ⟨⟨m, hwithin, hx⟩, hempty⟩
  refine ⟨?_, ⟨by decide +kernel, hlost caught [0, 0, 1, 0, 0] (by decide +kernel)
    (by decide +kernel)⟩, by decide +kernel, hlost deep [0] (by decide +kernel) (by decide +kernel)⟩
  obtain ⟨source, hparsed, hbound, hway, hempty⟩ : ∃ source,
      SourceFile.ofParsed (Utf8.encode text) (Text.ofString "a.ts") 100 ⟨tree, false⟩ =
        .ok source ∧ source.bound.isTooDeep = false ∧
      (([0, 0, 0, 0, 0, 1, 0, 0].foldlM Node.descend (none, source.bound.root)).any fun place =>
        decide (place.1.isNone ∧ ∃ x ∈ place.2.exported, x.exportKey? = some (Text.ofString "z"))) ∧
      (Fact.tableOf source.bound.facts .exports).isEmpty :=
    exists_ok_of_any (by decide +kernel)
  exact ⟨source, hparsed, hbound, hlost source _ hway hempty⟩

end Program

end StaticLiteral
