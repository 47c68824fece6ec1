import StaticLiteral.Proofs.ParseTree.DefaultExports
import StaticLiteral.Proofs.Program.ExportTables
import StaticLiteral.Proofs.Program.FileSets
import StaticLiteral.Proofs.Program.Imports

/-!
# The default exports of files

A statement that exports a default by its value fills the default slot of its file: the default is
entered there and nowhere else, imports of the default reach it, and no other name does. With a
declaration the statement exports the name of the declaration instead. `Program.default_exports`
says both.
-/

namespace StaticLiteral

open Binding

namespace Fact

variable {facts : List Fact} {table : Table} {name : Text} {s : BoundSymbol}

/-- What is entered is found. -/
theorem exists_entered (h : .enters table name s ∈ facts) :
    ∃ t, entered? facts table name = some t := by
  refine Option.isSome_iff_exists.mp ?_
  rw [entered?, Option.isSome_map, List.getLast?_isSome]
  refine List.ne_nil_of_mem (List.mem_filter.mpr ⟨List.mem_filterMap.mpr ⟨_, h, if_pos rfl⟩, ?_⟩)
  exact decide_eq_true rfl

/-- Changing symbols changes what is found in a table. -/
theorem entered_map (f : BoundSymbol → BoundSymbol) (facts : List Fact) (table : Table)
    (name : Text) :
    entered? (facts.map (mapSymbol f)) table name = (entered? facts table name).map f := by
  rw [entered?, entered?, BoundFile.rows_map_symbol, List.filter_map, List.getLast?_map,
    Option.map_map, Option.map_map]
  rfl

/-- What is found in a table is one of its rows. -/
theorem mem_table_of_entered (h : entered? facts table name = some s) :
    (name, s) ∈ tableOf facts table := by
  refine List.mem_filterMap.mpr ⟨name, List.mem_eraseDups.mpr ?_, by rw [h]; rfl⟩
  exact List.mem_map.mpr ⟨_, List.mem_filterMap.mpr ⟨_, enters_of_entered h, if_pos rfl⟩, rfl⟩

end Fact

namespace BoundFile

variable {path : Text} {s : BoundSymbol}

/-- A settled alias leads where the alias led, maybe from another file. -/
theorem kind_settle (path : Text) (visible : List SymbolId) {origin : AliasOrigin}
    (h : s.kind = .aliasOf origin) :
    ∃ file, (settle path visible s).kind = .aliasOf { origin with sourceFile := file } := by
  unfold settle
  rw [h]
  dsimp only
  split
  · exact ⟨some path, rfl⟩
  · exact ⟨origin.sourceFile, h⟩

/-- An alias that a file exports starts from the file's path. -/
theorem source_file_of_entered {facts : List Fact} {name : Text} {origin : AliasOrigin}
    (h : Fact.entered? (settled path facts) .exports name = some s)
    (hkind : s.kind = .aliasOf origin) : origin.sourceFile = some path := by
  rw [settled, Fact.entered_map] at h
  obtain ⟨t, ht, rfl⟩ := Option.map_eq_some_iff.mp h
  have hvisible : t ∈ visibleSymbols path facts :=
    List.mem_append_right _ (List.mem_map.mpr ⟨_, Fact.mem_table_of_entered ht, rfl⟩)
  unfold settle at hkind
  split at hkind
  · next before hbefore =>
      have halias : t.kind.isAlias := by rw [hbefore]; rfl
      rw [if_pos (List.mem_map.mpr ⟨t, List.mem_filter.mpr ⟨hvisible, halias⟩, rfl⟩)] at hkind
      obtain rfl := SymbolKind.aliasOf.inj hkind
      rfl
  · next hnone => exact absurd hkind (hnone origin)

/-- The node is the only default of the file. -/
def HasOnlyDefault (f : BoundFile) (n : Node) : Prop :=
  ∀ m, Node.Within none f.root m none → ∀ x ∈ m.exported, x.exportKey? = some defaultName →
    x.id = n.id

end BoundFile

namespace Program

variable {config : Config} {sources : List SourceFile} {p : Program} {f : BoundFile}
  {path name : Text} {s : BoundSymbol}

/-- What a file has in its own table was entered there. -/
theorem enters_of_own (h : p.ownExport? path name = some s) :
    ∃ f ∈ p.files, f.path = path ∧ .enters .exports name s ∈ f.facts := by
  rw [ownExport?, factsOf] at h
  cases hfile : p.file? path with
  | none => simp [hfile, Fact.entered?] at h
  | some f =>
      refine ⟨f, List.mem_of_find?_eq_some hfile, by simpa using List.find?_some hfile, ?_⟩
      simpa [hfile] using Fact.enters_of_entered (by simpa [hfile] using h)

/-- What a file exports was entered by a file, and a default by the file itself. -/
theorem enters_of_export (h : p.export? path name = some s) :
    ∃ f ∈ p.files, (name = defaultName → f.path = path) ∧ .enters .exports name s ∈ f.facts := by
  rw [export?] at h
  split at h
  · obtain ⟨f, hf, hpath, hfact⟩ := enters_of_own h
    exact ⟨f, hf, fun _ => hpath, hfact⟩
  · next hname =>
      obtain ⟨file, _, hown⟩ := List.exists_of_findSome?_eq_some h
      obtain ⟨f, hf, _, hfact⟩ := enters_of_own hown
      exact ⟨f, hf, fun heq => absurd heq hname, hfact⟩

/-- What a file establishes about a symbol of a node is about a node of this file. -/
theorem file_eq_of_fact {g : BoundFile} {fact : Fact} {x : NodeId}
    (hf : f ∈ (ofSources config sources).files) (hg : g ∈ (ofSources config sources).files)
    (hfact : fact ∈ g.facts) (hsymbol : fact.symbol? = some s) (hid : s.id = .node x)
    (hx : x.file = f.path) : f = g := by
  obtain ⟨hbound, hnodup⟩ := files_of_sources config sources
  obtain ⟨path, source, rfl⟩ := hbound g hg
  obtain ⟨y, hy, hfile⟩ := BoundFile.exists_node_of_mem hfact hsymbol
  obtain rfl := SymbolId.node.inj (hy.symm.trans hid)
  exact List.inj_on_of_nodup_map hnodup hf hg (hx.symm.trans hfile)

/-- The symbol stands for what a file exports by the expression: for the name if it is one, and else
for the expression. -/
def StandsFor (p : Program) (path : Text) (s : BoundSymbol) : Node → Prop
  | .identifier _ text => p.aliased s = (p.local? path text).getD unknownSymbol
  | e => s.kind = .blockScopedVariable ∧ s.declaration = some e

/-- The node, which exports the expression, fills the default slot of the file and no other one. -/
structure FillsDefault (p : Program) (f : BoundFile) (n e : Node) : Prop where
  /-- It is entered as the default, and under no other name and in no other table. -/
  entered : ∀ table key, (∃ s, s.id = .node n.id ∧ .enters table key s ∈ f.facts) ↔
    table = .exports ∧ key = defaultName
  /-- No other name leads to it, and no other file has it. -/
  alone : ∀ path name s, p.export? path name = some s → s.id = .node n.id →
    path = f.path ∧ name = defaultName
  /-- If it is the only default, an import of the default reaches it. -/
  reached : f.HasOnlyDefault n → ∀ d, p.Imports d f.path defaultName →
    (p.aliased d).id = .node n.id ∧ p.StandsFor f.path (p.aliased d) e

/-- A default is an alias of a name, or a constant with the expression as its value. -/
theorem symbol_of_default {site : Site} {n e : Node} {table : Table} {key : Text}
    (h : .enters table key s ∈ defaultFacts site n e) :
    (∀ i text, e = .identifier i text →
      s.kind = .aliasOf { sourceFile := some site.fileName, importName := some text }) ∧
    (e.identifier? = none → s.kind = .blockScopedVariable ∧ s.declaration = some e) := by
  obtain ⟨_, _, heq⟩ := List.mem_map.mp h
  obtain ⟨_, _, rfl⟩ := Fact.enters.inj heq
  constructor
  · rintro i text rfl
    rfl
  · intro hname
    cases e with
    | identifier i text => cases hname
    | _ => exact ⟨rfl, rfl⟩

/-- What a file has as its default, if that is the node, stands for what the node exports. -/
theorem stands_for_of_entered (p : Program) {source : SourceFile} {i : Info} {e : Node}
    {target : Site} (hbound : (BoundFile.ofSource path source).isTooDeep = false)
    (hvisits : Visits (BoundFile.site path source) (BoundFile.ofSource path source).root target
      (.exportAssignment i e))
    (hs : Fact.entered? (BoundFile.ofSource path source).facts .exports defaultName = some s)
    (hid : s.id = .node i.id) : p.StandsFor path s e := by
  have hlaid := BoundFile.laid_root path source
  have hfacts : (BoundFile.ofSource path source).facts = BoundFile.settled path
      (ofNode (BoundFile.site path source) (BoundFile.ofSource path source).root) :=
    if_neg (of_decide_eq_false hbound)
  obtain ⟨visible, hsettled⟩ := BoundFile.exists_settled path source
  obtain ⟨origin, horigin, heq⟩ := hsettled _ (Fact.enters_of_entered hs)
  cases origin with
  | enters table name bound =>
      obtain ⟨rfl, rfl, rfl⟩ := Fact.enters.inj heq
      rw [BoundFile.id_settle] at hid
      -- The symbol is the one that the node itself enters.
      obtain ⟨halias, hvalue⟩ := symbol_of_default (mem_own_facts
        (hlaid.of_mem_parts hvisits.mem_parts)
        (mem_facts_of_visits hlaid hvisits (Node.mem_parts_self _) horigin rfl hid) rfl hid)
      cases e with
      | identifier j text =>
          obtain ⟨file, hkind⟩ := BoundFile.kind_settle path visible (halias j text rfl)
          obtain rfl := BoundFile.source_file_of_entered (hfacts ▸ hs) hkind
          show Program.aliased p _ = _
          rw [aliased, hkind]
          rfl
      | _ =>
          obtain ⟨hkind, hdeclaration⟩ := hvalue rfl
          rw [StandsFor, BoundFile.settle_of_not_alias (by rw [hkind]; rfl)]
          · exact ⟨hkind, hdeclaration⟩
          · exact fun j text h => by cases h
  | _ => cases heq

/-- A default that no namespace or module is around fills the default slot of the file. -/
theorem fills_default (hf : f ∈ (ofSources config sources).files) (hwell : f.root.WellFormed)
    (hbound : f.isTooDeep = false) {i : Info} {e : Node}
    (hwithin : Node.Within none f.root (.exportAssignment i e) none)
    (hhides : ¬ f.Hides (.exportAssignment i e)) :
    (ofSources config sources).FillsDefault f (.exportAssignment i e) e := by
  have hfile := file_eq_of_mem hf
  obtain ⟨path, source, rfl⟩ := (files_of_sources config sources).1 f hf
  have hexports := BoundFile.exports_to_of_within hwell hbound hwithin hhides
    (List.mem_singleton_self _)
  have hentered : ∀ table key,
      (∃ s, s.id = .node i.id ∧ .enters table key s ∈ (BoundFile.ofSource path source).facts) ↔
        table = .exports ∧ key = defaultName := by
    intro table key
    rw [show i.id = (Node.exportAssignment i e).id from rfl, hexports table key]
    simp [exportTable, Node.exportKey?, eq_comm]
  refine ⟨hentered, fun other name s hexport hid => ?_, fun honly d himports => ?_⟩
  · obtain ⟨g, hg, hpath, hfact⟩ := enters_of_export hexport
    have hlaid := BoundFile.laid_root path source
    obtain rfl := file_eq_of_fact hf hg hfact rfl hid (hlaid.encloses hwithin.mem_parts).1.symm
    obtain ⟨_, rfl⟩ := (hentered .exports name).mp ⟨s, hid, hfact⟩
    exact ⟨(hpath rfl).symm, rfl⟩
  · rw [aliased_of_imports himports, export?, if_pos rfl, ownExport?, factsOf, hfile]
    obtain ⟨s, _, hs⟩ := (hentered .exports defaultName).mpr ⟨rfl, rfl⟩
    obtain ⟨t, ht⟩ := Fact.exists_entered hs
    obtain ⟨m, hm, x, hx, hid, hkey⟩ :=
      BoundFile.exists_exported_of_enters hwell (Fact.enters_of_entered ht)
    have hdefault : t.id = .node i.id := hid.trans (congrArg _ (honly m hm x hx hkey))
    have hexposed : Exposed (BoundFile.ofSource path source).root (.exportAssignment i e) :=
      BoundFile.exposed_root rfl (fun h => by cases h) hhides
    obtain ⟨target, hvisits⟩ := visits_of_exposed_statement (BoundFile.site path source) hwell
      hexposed hwithin.mem_parts (by simp [Node.role])
    simp only [Option.map_some, Option.getD_some, ht]
    exact ⟨hdefault, stands_for_of_entered _ hbound hvisits ht hdefault⟩

/-- What a function, a class or an interface is exported as is its own name. -/
theorem entered_own_name (hf : f ∈ (ofSources config sources).files) (hwell : f.root.WellFormed)
    (hbound : f.isTooDeep = false) {m x : Node} (hwithin : Node.Within none f.root m none)
    (hhides : ¬ f.Hides m) (hm : m.exportsOneName) (hx : x ∈ m.exported) (table : Table)
    (key : Text) : (∃ s, s.id = .node x.id ∧ .enters table key s ∈ f.facts) ↔
      table = .exports ∧ x.identifier? = some key := by
  have hformed := (Node.well_formed_iff.mp (hwell.of_mem_parts hwithin.mem_parts)).1
  have hkey : x.exportKey? = x.identifier? := by
    refine export_key_of_role (.inl ?_)
    cases m with
    | functionDeclaration i name parameters body exported =>
        obtain rfl : exported = true := hm
        obtain rfl := Option.mem_toList.mp hx
        simpa using (Bool.and_eq_true_iff.mp hformed).1
    | classDeclaration i name exported =>
        obtain rfl : exported = true := hm
        obtain rfl := Option.mem_toList.mp hx
        simpa [Node.isFormed] using hformed
    | interfaceDeclaration i name members exported =>
        obtain rfl : exported = true := hm
        obtain rfl := List.mem_singleton.mp hx
        exact (by simpa [Node.isFormed] using hformed : x.role = .name ∧ _).1
    | unknown => cases hx
    | _ => cases hm
  obtain ⟨path, source, rfl⟩ := (files_of_sources config sources).1 f hf
  rw [BoundFile.exports_to_of_within hwell hbound hwithin hhides hx table key, hkey]
  simp [exportTable, eq_comm]

/-- A statement that exports a default by its value fills the default slot of its file, and no other
one. With a function, a class or an interface as its declaration it is entered under the name of
this, and not as the default. Every such statement of a file is among its statements, unless its
tree is cut off. -/
theorem default_exports {bytes : List UInt8} {fileName : Text} {maxNesting : Int}
    {parsed : ParsedSource} {source : SourceFile}
    (hparsed : SourceFile.ofParsed bytes fileName maxNesting parsed = .ok source)
    (hf : source.bound ∈ (ofSources config sources).files)
    (hbound : source.bound.isTooDeep = false) :
    let p := ofSources config sources
    let f := source.bound
    (∀ n ∈ parsed.tree.named, n.IsDefaultExport → (∃ value, n.exportedDeclaration? = none ∧
        n.defaultValue? = some value) ∨ (∃ d, n.exportedDeclaration? = some d ∧ d.DeclaresOneName) →
      ∃ (m : Node) (way : List Nat), (m.IsCutOff n ∨ m.IsMadeOf n) ∧
        Node.Within none f.root (m.place f.path way) none ∧ ¬ f.Hides (m.place f.path way)) ∧
    ∀ (n : ParseTree) (m : Node) (way : List Nat), n.IsDefaultExport → m.IsMadeOf n →
      Node.Within none f.root (m.place f.path way) none → ¬ f.Hides (m.place f.path way) →
      (∀ value, n.exportedDeclaration? = none → n.defaultValue? = some value →
        m.IsCutOff n ∨ ∃ i e, m = .exportAssignment i e ∧ e.IsValueOf value ∧
          p.FillsDefault f (m.place f.path way) (e.place f.path (0 :: way))) ∧
      ∀ d, n.exportedDeclaration? = some d → d.DeclaresOneName →
        ∀ x ∈ (m.place f.path way).exported, ∀ table key,
          (∃ s, s.id = .node x.id ∧ .enters table key s ∈ f.facts) ↔
            table = .exports ∧ x.identifier? = some key := by
  intro p f
  have hwell : f.root.WellFormed := BoundFile.well_formed_root ⟨_, _, _, _, source, hparsed, rfl⟩
  refine ⟨fun n hmem hn hexports => ?_, fun n m way hn hmade hwithin hhides =>
    ⟨fun value hdeclaration hvalue => ?_, fun d hdeclaration hd x hx => ?_⟩⟩
  · obtain ⟨m, hm, hmade⟩ := SourceFile.exists_statement_of_default hparsed hmem hn hexports
    obtain ⟨k, hplaced⟩ := Node.exists_mem_place_all f.path [0] 0 hm
    have hchild : m.place f.path [k, 0] ∈ f.root.children := by
      have hstatement : m.place f.path [k, 0] ∈ f.statements := hplaced
      simpa [BoundFile.root, Node.children_eq, Node.fields, Field.contents] using hstatement
    exact ⟨m, [k, 0], hmade, .child hchild (.here _ _),
      BoundFile.not_hides_of_child source.laid_bound hchild⟩
  · refine (hmade.default_of_value hn hdeclaration hvalue).imp_right ?_
    rintro ⟨i, e, rfl, he⟩
    exact ⟨i, e, rfl, he, fills_default hf hwell hbound hwithin hhides⟩
  · rcases hmade.exports_one_name hn hdeclaration hd with ⟨i, rfl⟩ | hone
    · cases hx
    · exact entered_own_name hf hwell hbound hwithin hhides
        ((Node.exports_one_name_place _ _ m).trans hone) hx

/-- The law at a number, which another file imports. -/
theorem default_exports_of_number :
    let token (type : String) (start stop : Nat) := ParseTree.node type false start stop none []
    let number := ParseTree.node "number" true 15 16 (some "value") []
    let exported := ParseTree.node "export_statement" true 0 16 none
      [token "export" 0 6, token "default" 7 14, number]
    let tree := ParseTree.node "program" true 0 16 none [exported]
    let specifier : Node := .importSpecifier {} (.identifier {} (Text.ofString "d"))
      (some defaultName) false
    let importer : SourceFile :=
      { fileName := Text.ofString "b.ts"
        statements := [.importDeclaration {} (Text.ofString "./a") [specifier]] }
    ∃ source, SourceFile.ofParsed (Utf8.encode (Text.ofString "export default 1"))
        (Text.ofString "a.ts") 100 ⟨tree, false⟩ = .ok source ∧
      let p := ofSources {} [source, importer]
      ∃ (m : Node) (way : List Nat), m.IsDefaultOf number ∧
        (∀ path name s, p.export? path name = some s →
          s.id = .node (m.place source.bound.path way).id →
            path = source.bound.path ∧ name = defaultName) ∧
        ∃ d, Fact.declaredIn? importer.bound.facts (.file importer.bound.path) .value
            (Text.ofString "d") = some d ∧
          (p.aliased d).id = .node (m.place source.bound.path way).id := by
  intro token number exported tree specifier importer
  obtain ⟨source, hparsed, hdiffer, hbound, hknown, hdefaults, hresolves⟩ : ∃ source,
      SourceFile.ofParsed (Utf8.encode (Text.ofString "export default 1"))
        (Text.ofString "a.ts") 100 ⟨tree, false⟩ = .ok source ∧
      PathsDiffer [source, importer] ∧ source.bound.isTooDeep = false ∧
      (∀ q ∈ source.bound.root.parts, q.kindName ≠ "Unknown") ∧
      (∀ q ∈ source.bound.root.parts, ∀ x ∈ q.exported, x.exportKey? = some defaultName →
        x.id = ⟨Text.ofString "a.ts", [0, 0]⟩) ∧
      (ofSources {} [source, importer]).resolveModule (Text.ofString "b.ts") (Text.ofString "./a") =
        some source.bound.path :=
    exists_ok_of_any (by decide +kernel)
  have hf : source.bound ∈ (ofSources {} [source, importer]).files :=
    files_of_paths_differ {} hdiffer ▸ List.mem_cons_self
  obtain ⟨d, hd, hkind⟩ : ∃ d, Fact.declaredIn? importer.bound.facts (.file importer.bound.path)
      .value (Text.ofString "d") = some d ∧ d.kind = .aliasOf
        { sourceFile := some (Text.ofString "b.ts"), module := some (Text.ofString "./a")
          importName := some defaultName } := by
    simpa using (Option.any_eq_true _ _).mp (by decide +kernel : (Fact.declaredIn?
      importer.bound.facts (.file importer.bound.path) .value (Text.ofString "d")).any fun d =>
        decide (d.kind = .aliasOf { sourceFile := some (Text.ofString "b.ts")
                                    module := some (Text.ofString "./a")
                                    importName := some defaultName }))
  have hn : exported.IsDefaultExport := ⟨rfl, rfl⟩
  obtain ⟨hstands, hfills⟩ := default_exports hparsed hf hbound
  obtain ⟨m, way, hmade, hwithin, hhides⟩ := hstands exported (List.mem_singleton_self _) hn
    (.inl ⟨number, rfl, rfl⟩)
  have hwhole : ¬ m.IsCutOff exported := by
    rintro ⟨i, rfl⟩
    exact hknown _ hwithin.mem_parts rfl
  obtain ⟨i, e, rfl, he, hdefault⟩ := ((hfills exported m way hn (hmade.resolve_left hwhole)
    hwithin hhides).1 number rfl rfl).resolve_left hwhole
  have hid := hdefaults _ hwithin.mem_parts _ (List.mem_singleton_self _) rfl
  refine ⟨source, hparsed, _, way, ⟨i, e, rfl, he⟩, hdefault.alone, d, hd, ?_⟩
  refine (hdefault.reached (fun q hq x hx hkey => ?_) d ⟨_, _, hkind, rfl, rfl, hresolves⟩).1
  exact (hdefaults q hq.mem_parts x hx hkey).trans hid.symm

/-- A function that is exported as the default has its own name in the table of its file, through
which other files find it, and no default. -/
theorem default_function_under_own_name :
    let token (type : String) (start stop : Nat) := ParseTree.node type false start stop none []
    let function := ParseTree.node "function_declaration" true 15 29 (some "declaration")
      [token "function" 15 23, .node "identifier" true 24 25 (some "name") [],
        .node "formal_parameters" true 25 27 (some "parameters") [token "(" 25 26, token ")" 26 27],
        .node "statement_block" true 27 29 (some "body")
          [token "\x7b" 27 28, token "\x7d" 28 29]]
    let exported := ParseTree.node "export_statement" true 0 29 none
      [token "export" 0 6, token "default" 7 14, function]
    let tree := ParseTree.node "program" true 0 29 none [exported]
    let star : SourceFile :=
      { fileName := Text.ofString "b.ts"
        statements := [.exportDeclaration {} [] (some (Text.ofString "./a")) true] }
    exported.IsDefaultExport ∧ exported.exportedDeclaration? = some function ∧
      function.DeclaresOneName ∧
      ∃ source, SourceFile.ofParsed
          (Utf8.encode (Text.ofString "export default function f()\x7b\x7d"))
          (Text.ofString "a.ts") 100 ⟨tree, false⟩ = .ok source ∧
        let p := ofSources {} [source, star]
        (Fact.tableOf source.bound.facts .exports).map (·.1) = [Text.ofString "f"] ∧
          (p.export? (Text.ofString "a.ts") defaultName).isNone ∧
          (p.export? (Text.ofString "a.ts") (Text.ofString "f")).isSome ∧
          (p.export? (Text.ofString "b.ts") (Text.ofString "f")).isSome := by
  intro token function exported tree star
  refine ⟨⟨rfl, rfl⟩, rfl, by simp [ParseTree.DeclaresOneName, function, ParseTree.type], ?_⟩
  exact exists_ok_of_any (by decide +kernel)

end Program

end StaticLiteral
