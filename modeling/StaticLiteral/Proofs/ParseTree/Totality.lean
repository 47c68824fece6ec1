import StaticLiteral.Proofs.ParseTree.Overflows

/-!
# Trees of which there is a file

Whatever is missing in a parse tree, or of whatever sort its parts are, there is a file of it, with
one exception: an entry of an import list that has neither a name nor an alias stops the work.
`Stops ctx make` says that work stops, and `SourceFile.file_unless_nameless` that this is the only
exception, and that it is one wherever such an import stands as a statement.
-/

namespace StaticLiteral

open MakeSyntax

variable {α β : Type} {make : MakeSyntax α} {ctx : SyntaxContext}

/-! ## Work that stops -/

/-- The work stops in the setting, for one reason or another. -/
def Stops (ctx : SyntaxContext) (make : MakeSyntax α) : Prop :=
  ∀ anomalies, ∃ stop rest, (make ctx).run anomalies = (.error stop, rest)

namespace Stops

/-- Work that throws stops. -/
theorem throw (stop : SyntaxStop) : Stops ctx (MonadExcept.throw stop : MakeSyntax α) :=
  fun anomalies => ⟨stop, anomalies, rfl⟩

/-- Nothing is done after work that stops. -/
theorem bind {f : α → MakeSyntax β} (h : Stops ctx make) : Stops ctx (make >>= f) := by
  intro anomalies
  obtain ⟨stop, rest, hrun⟩ := h anomalies
  exact ⟨stop, rest, run_bind_of_stop hrun⟩

/-- Work stops if what comes after it does, unless it stops itself. -/
theorem after {f : α → MakeSyntax β} (h : ∀ a, Stops ctx (f a)) : Stops ctx (make >>= f) := by
  intro anomalies
  rw [run_bind]
  split
  case h_1 a rest _ => exact h a rest
  case h_2 stop rest _ => exact ⟨stop, rest, rfl⟩

/-- Work that stops makes nothing to change. -/
theorem map {f : α → β} (h : Stops ctx make) : Stops ctx (f <$> make) := by
  rw [map_eq_pure_bind]
  exact h.bind

/-- Work on one thing after the other stops at each of them. -/
theorem mapM {f : α → MakeSyntax β} {xs : List α} {x : α} (hx : x ∈ xs) (h : Stops ctx (f x)) :
    Stops ctx (xs.mapM f) := by
  induction xs with
  | nil => cases hx
  | cons y rest ih =>
      rw [List.mapM_cons]
      rcases List.mem_cons.mp hx with rfl | hrest
      · exact h.bind
      · exact .after fun _ => (ih hrest).bind

/-- Below the limit work stops if it does one level further down. -/
theorem guarded (n : ParseTree) (cut : Info → α) (hlimit : ctx.nesting < ctx.maxNesting)
    (h : Stops { ctx with nesting := ctx.nesting + 1 } make) :
    Stops ctx (guarded n cut make) := by
  intro anomalies
  rw [run_guarded, if_neg (Int.not_le.mpr hlimit)]
  exact h anomalies

end Stops

/-! ## Statements of statements -/

namespace ParseTree

/-- Nothing but what is made of its children is made of the tree. -/
structure IsOther (n : ParseTree) : Prop where
  not_skipped : n.isSkipped = false
  no_statement : ∀ m : Makers, m.statementOfType? n = none
  no_expression : ∀ m : Makers, m.expressionOfType n = m.unknown n

/-- The statements that are made with a statement: those of its block or body, the declaration that
it exports, and all children of a tree of which nothing else is made. -/
inductive IsStatementOf (c : ParseTree) : ParseTree → Prop where
  | block {n : ParseTree} (htype : n.type = "statement_block") (hc : c ∈ n.named) :
      IsStatementOf c n
  | function {n body : ParseTree} (htype : n.type ∈ ["function_declaration",
      "generator_function_declaration", "function_signature"])
      (hbody : n.child? "body" = some body) (hc : c ∈ body.named) : IsStatementOf c n
  | caught {n body : ParseTree} (htype : n.type = "catch_clause")
      (hbody : n.child? "body" = some body) (hc : c ∈ body.named) : IsStatementOf c n
  | declared {n name body : ParseTree} (htype : n.type ∈ ["internal_module", "module"])
      (hname : n.child? "name" = some name) (hbody : n.child? "body" = some body)
      (hc : c ∈ body.named) : IsStatementOf c n
  | expressed {n inner name body : ParseTree} (htype : n.type = "expression_statement")
      (hinner : n.firstNamed? = some inner) (hmodule : inner.type = "internal_module")
      (hname : inner.child? "name" = some name) (hbody : inner.child? "body" = some body)
      (hc : c ∈ body.named) : IsStatementOf c n
  | loop {n : ParseTree} (htype : n.type = "for_in_statement") (hc : n.child? "body" = some c) :
      IsStatementOf c n
  | exported {n : ParseTree} (htype : n.type = "export_statement")
      (hc : n.child? "declaration" = some c) : IsStatementOf c n
  | ambient {n : ParseTree} (htype : n.type = "ambient_declaration")
      (hc : n.firstNamed? = some c) : IsStatementOf c n
  | other {n : ParseTree} (hn : n.IsOther) (hc : c ∈ n.named) : IsStatementOf c n

/-- The tree stands in the statement as a statement, so many levels further down. -/
inductive Stands (m : ParseTree) : Nat → ParseTree → Prop where
  | self : Stands m 0 m
  | inside {k : Nat} {n c : ParseTree} (hc : c.IsStatementOf n) (h : Stands m k c) :
      Stands m (k + 1) n

end ParseTree

namespace MakeSyntax.Makers

variable {m : Makers} {n c : ParseTree}

/-- An entry of an import list with neither a name nor an alias stops the work. -/
theorem stops_at_import_specifier (hname : n.child? "name" = none)
    (halias : n.child? "alias" = none) : Stops ctx (importSpecifier n) := by
  unfold importSpecifier
  simp only [hname, halias, Option.or_none]
  exact .after fun _ => .after fun _ => .throw _

/-- So does the import of the list. -/
theorem stops_at_nameless_import (m : Makers) (h : n.IsNamelessImport) :
    Stops ctx (m.importStatement n) := by
  obtain ⟨source, hsource⟩ := Option.isSome_iff_exists.mp h.source
  obtain ⟨clause, hclause, list, hlist, htype, entry, hentry, hspecifier, hname, halias⟩ := h.entry
  have hpart : Stops ctx (importPart list) := by
    unfold importPart
    rw [htype]
    refine .mapM (List.mem_filter.mpr ⟨hentry, beq_iff_eq.mpr hspecifier⟩) ?_
    exact stops_at_import_specifier hname halias
  unfold importStatement
  rw [hsource]
  simp only [hclause]
  exact (Stops.mapM hlist hpart).bind

/-- A block stops at a statement that does. -/
theorem stops_of_block (hc : c ∈ n.named) (h : Stops ctx (m.statement c)) :
    Stops ctx (m.block n) := by
  unfold Makers.block
  exact (Stops.mapM hc h).bind

/-- A body stops the work if one of its statements does. -/
theorem stops_of_optional_block {body : ParseTree} (hbody : n.child? "body" = some body)
    (hc : c ∈ body.named) (h : Stops ctx (m.statement c)) :
    Stops ctx (m.optionalBlock (n.child? "body")) := by
  rw [hbody]
  exact (stops_of_block hc h).map

/-- An unknown node stops at a child that does. -/
theorem stops_of_unknown (hc : c ∈ n.named) (h : Stops ctx (m.generic c)) :
    Stops ctx (m.unknown n) := by
  unfold Makers.unknown
  exact (Stops.mapM hc h).bind

/-- A namespace stops at a statement of its body that does. -/
theorem stops_of_module {name body : ParseTree} (hname : n.child? "name" = some name)
    (hbody : n.child? "body" = some body) (hc : c ∈ body.named) (h : Stops ctx (m.statement c)) :
    Stops ctx (m.moduleDeclaration n) := by
  unfold Makers.moduleDeclaration
  rw [hname]
  exact .after fun _ => (stops_of_optional_block hbody hc h).bind

/-- A function stops at a statement of its body that does. -/
theorem stops_of_function {body : ParseTree} (hbody : n.child? "body" = some body)
    (hc : c ∈ body.named) (h : Stops ctx (m.statement c)) :
    Stops ctx (m.functionDeclaration n) := by
  unfold Makers.functionDeclaration
  exact .after fun _ => .after fun _ => (stops_of_optional_block hbody hc h).bind

/-- A catch clause stops at a statement of its body that does. -/
theorem stops_of_catch {body : ParseTree} (hbody : n.child? "body" = some body)
    (hc : c ∈ body.named) (h : Stops ctx (m.statement c)) : Stops ctx (m.catchClause n) := by
  have hend := stops_of_optional_block hbody hc h
  unfold Makers.catchClause
  dsimp only
  split
  · exact .after fun _ => .after fun _ => .after fun _ => .after fun _ => hend.bind
  · exact .after fun _ => hend.bind

/-- A loop stops at a body that does. -/
theorem stops_of_loop (hc : n.child? "body" = some c) (h : Stops ctx (m.statement c)) :
    Stops ctx (m.forInStatement n) := by
  unfold Makers.forInStatement
  simp only [hc]
  exact .after fun _ => .after fun _ => h.bind

/-- An export statement stops at a declaration that does. -/
theorem stops_of_export (hc : n.child? "declaration" = some c) (h : Stops ctx (m.statement c)) :
    Stops ctx (m.exportStatement n) := by
  unfold Makers.exportStatement
  rw [hc]
  exact h.bind

/-- A declaration without a value stops at a statement that does. -/
theorem stops_of_ambient (hc : n.firstNamed? = some c) (h : Stops ctx (m.statement c)) :
    Stops ctx (m.ambientDeclaration n) := by
  unfold Makers.ambientDeclaration
  rw [hc]
  exact h.bind

/-- What is made of the tree as a statement stops the work, be it a statement of its own or what is
made of its children. -/
def Halts (m : Makers) (ctx : SyntaxContext) (n : ParseTree) : Prop :=
  (∃ make, m.statementOfType? n = some make ∧ Stops ctx make) ∨
    n.IsOther ∧ Stops ctx (m.unknown n)

/-- Making a nameless import stops. -/
theorem halts_at_nameless_import (h : n.IsNamelessImport) : m.Halts ctx n := by
  refine .inl ⟨some <$> m.importStatement n, ?_, (stops_at_nameless_import m h).map⟩
  simp only [statementOfType?, h.type]

/-- A statement halts if one that it is made with stops the work. -/
theorem halts_of_statement (hc : c.IsStatementOf n) (h : Stops ctx (m.statement c))
    (hgeneric : Stops ctx (m.generic c)) : m.Halts ctx n := by
  cases hc with
  | block htype hc =>
      refine .inl ⟨some <$> m.block n, ?_, (stops_of_block hc h).map⟩
      simp only [statementOfType?, htype]
  | function htype hbody hc =>
      refine .inl ⟨some <$> m.functionDeclaration n, ?_, (stops_of_function hbody hc h).map⟩
      simp only [List.mem_cons, List.not_mem_nil, or_false] at htype
      rcases htype with htype | htype | htype <;> simp only [statementOfType?, htype]
  | caught htype hbody hc =>
      refine .inl ⟨some <$> m.catchClause n, ?_, (stops_of_catch hbody hc h).map⟩
      simp only [statementOfType?, htype]
  | declared htype hname hbody hc =>
      refine .inl ⟨some <$> m.moduleDeclaration n, ?_, (stops_of_module hname hbody hc h).map⟩
      simp only [List.mem_cons, List.not_mem_nil, or_false] at htype
      rcases htype with htype | htype <;> simp only [statementOfType?, htype]
  | expressed htype hinner hmodule hname hbody hc =>
      refine .inl ⟨m.expressionStatement n, by simp only [statementOfType?, htype], ?_⟩
      unfold Makers.expressionStatement
      simp only [hinner, hmodule]
      exact (stops_of_module hname hbody hc h).bind
  | loop htype hc =>
      refine .inl ⟨some <$> m.forInStatement n, ?_, (stops_of_loop hc h).map⟩
      simp only [statementOfType?, htype]
  | exported htype hc =>
      exact .inl ⟨m.exportStatement n, by simp only [statementOfType?, htype], stops_of_export hc h⟩
  | ambient htype hc =>
      refine .inl ⟨m.ambientDeclaration n, ?_, stops_of_ambient hc h⟩
      simp only [statementOfType?, htype]
  | other hn hc => exact .inr ⟨hn, stops_of_unknown hc hgeneric⟩

/-- A tree that is a statement by its type means something. -/
theorem not_skipped_of_statement {make : MakeSyntax (Option Node)}
    (h : m.statementOfType? n = some make) : n.isSkipped = false := by
  cases hskipped : n.isSkipped with
  | false => rfl
  | true =>
      simp only [ParseTree.isSkipped, List.contains_eq_mem, List.mem_cons, List.not_mem_nil,
        or_false, decide_eq_true_eq] at hskipped
      rcases hskipped with htype | htype | htype | htype <;> simp [statementOfType?, htype] at h

/-- What halts one level further down stops the work, as a statement and as whatever it is. -/
theorem stops_of_halts (hlimit : ctx.nesting < ctx.maxNesting)
    (h : ∀ depth, (ofDepth depth).Halts { ctx with nesting := ctx.nesting + 1 } n) (depth : Nat) :
    Stops ctx ((ofDepth depth).statement n) ∧ Stops ctx ((ofDepth depth).generic n) := by
  cases depth with
  | zero => exact ⟨.throw _, .throw _⟩
  | succ depth =>
      show Stops ctx ((ofDepth depth).makeStatement n) ∧ Stops ctx ((ofDepth depth).makeGeneric n)
      unfold makeStatement makeGeneric
      rcases h depth with ⟨make, hmake, hstops⟩ | ⟨hn, hstops⟩
      · rw [not_skipped_of_statement hmake, hmake]
        exact ⟨.guarded n _ hlimit hstops, (Stops.guarded n _ hlimit hstops).bind⟩
      · rw [hn.not_skipped, hn.no_statement]
        refine ⟨.guarded n _ hlimit hstops.map, ?_⟩
        -- what is no statement is made as an expression, which takes one level more
        cases depth with
        | zero => exact .throw _
        | succ depth =>
            refine .guarded n _ hlimit ?_
            rw [hn.no_expression]
            rcases h depth with ⟨make, hmake, -⟩ | ⟨-, hstops⟩
            · rw [hn.no_statement] at hmake
              cases hmake
            · exact hstops

/-- A nameless import stops the work on a statement in which it stands above the limit. -/
theorem stops_of_stands {k : Nat} {nameless : ParseTree} (hnameless : nameless.IsNamelessImport)
    (h : nameless.Stands k n) (hlimit : (ctx.nesting + k : Nat) < ctx.maxNesting) (depth : Nat) :
    Stops ctx ((ofDepth depth).statement n) ∧ Stops ctx ((ofDepth depth).generic n) := by
  induction h generalizing ctx depth with
  | self => exact stops_of_halts hlimit (fun _ => halts_at_nameless_import hnameless) depth
  | inside hc _ ih =>
      refine stops_of_halts (by omega) (fun depth => ?_) depth
      obtain ⟨hstatement, hgeneric⟩ := @ih { ctx with nesting := ctx.nesting + 1 }
        (by dsimp only; omega) depth
      exact halts_of_statement hc hstatement hgeneric

end MakeSyntax.Makers

/-! ## Files -/

namespace SourceFile

variable {depth : Nat} {n : ParseTree} {ns : List ParseTree} {anomalies : List Anomaly}
  {stop : SyntaxStop}

/-- A statement cannot be made only if a name is missing in it, and it does not overflow then. -/
theorem statement_from_error (h : statementFrom depth ctx anomalies n = .error stop) :
    stop = .missingName ∧ n.LacksName ∧ ¬ overflows depth ctx n := by
  have hnames := ((Makers.works_of_depth depth).statement n).names ctx anomalies
  rw [overflows_eq anomalies]
  unfold statementFrom at h
  revert h hnames
  rcases ((Makers.ofDepth depth).statement n ctx).run anomalies with
    ⟨(_ | _) | made, noted⟩ <;> intro h hnames
  · cases h
  · obtain rfl := Except.error.inj h
    exact ⟨rfl, hnames noted rfl, Bool.false_ne_true⟩
  · cases h

/-- A statement on which the work stops cannot be made, unless it overflows. -/
theorem statement_from_of_stops (h : Stops ctx ((Makers.ofDepth depth).statement n))
    (hoverflows : ¬ overflows depth ctx n) (anomalies : List Anomaly) :
    ∃ stop, statementFrom depth ctx anomalies n = .error stop := by
  obtain ⟨stop, rest, hrun⟩ := h anomalies
  rw [overflows_eq anomalies, hrun] at hoverflows
  unfold statementFrom
  rw [hrun]
  cases stop with
  | tooDeep => exact absurd rfl hoverflows
  | missingName => exact ⟨.missingName, rfl⟩

/-- If statements cannot be made, one of them cannot. -/
theorem exists_of_statements_error (h : statementsFrom depth ctx anomalies ns = .error stop) :
    ∃ n ∈ ns, ∃ noted, statementFrom depth ctx noted n = .error stop := by
  induction ns generalizing anomalies with
  | nil => cases h
  | cons n ns ih =>
      rw [statementsFrom] at h
      cases hn : statementFrom depth ctx anomalies n with
      | error first =>
          rw [hn] at h
          obtain rfl := Except.error.inj h
          exact ⟨n, List.mem_cons_self, anomalies, hn⟩
      | ok made =>
          rw [hn] at h
          cases hns : statementsFrom depth ctx made.2 ns with
          | error first =>
              obtain rfl : first = stop := by
                simpa [bind, Except.bind, hns] using h
              obtain ⟨m, hm, hrest⟩ := ih hns
              exact ⟨m, List.mem_cons_of_mem n hm, hrest⟩
          | ok following => simp [bind, Except.bind, hns, pure, Except.pure] at h

/-- If statements can be made, each of them can. -/
theorem statement_of_statements {made : List Node × List Anomaly}
    (h : statementsFrom depth ctx anomalies ns = .ok made) (hn : n ∈ ns) :
    ∃ noted made, statementFrom depth ctx noted n = .ok made := by
  induction ns generalizing anomalies made with
  | nil => cases hn
  | cons m ns ih =>
      obtain ⟨first, hfirst, h⟩ := bind_eq_ok_iff.mp h
      obtain ⟨following, hfollowing, -⟩ := bind_eq_ok_iff.mp h
      rcases List.mem_cons.mp hn with rfl | hn
      · exact ⟨anomalies, first, hfirst⟩
      · exact ih hfollowing hn

/-- Whatever is missing in a tree and of whatever sort its parts are, there is a file of it, unless
a name is missing in an import somewhere in a statement that does not overflow. That name is all for
which there may be no file, and there is none if such an import stands as a statement above the
limit. -/
theorem file_unless_nameless (source : List UInt8) (fileName : Text) (maxNesting : Int)
    (parsed : ParsedSource) :
    let ctx : SyntaxContext := { source := source, maxNesting := maxNesting }
    ((∀ n ∈ parsed.tree.named, n.LacksName → overflows depthLimit ctx n) →
      ∃ file, ofParsed source fileName maxNesting parsed = .ok file) ∧
    (∀ stop, ofParsed source fileName maxNesting parsed = .error stop → stop = .missingName) ∧
    ∀ n ∈ parsed.tree.named, ¬ overflows depthLimit ctx n → ∀ (k : Nat) (nameless : ParseTree),
      nameless.IsNamelessImport → nameless.Stands k n → k < maxNesting →
        ofParsed source fileName maxNesting parsed = .error .missingName := by
  intro ctx
  have herror : ∀ stop, ofParsed source fileName maxNesting parsed = .error stop →
      stop = .missingName ∧ ∃ n ∈ parsed.tree.named, n.LacksName ∧
        ¬ overflows depthLimit ctx n := by
    intro stop h
    rw [ofParsed] at h
    cases hstatements : statementsFrom depthLimit ctx [] parsed.tree.named with
    | error first =>
        obtain rfl : first = stop := by simpa [bind, Except.bind, ctx, hstatements] using h
        obtain ⟨n, hn, noted, hmake⟩ := exists_of_statements_error hstatements
        obtain ⟨hstop, hlacks⟩ := statement_from_error hmake
        exact ⟨hstop, n, hn, hlacks⟩
    | ok made => simp [bind, Except.bind, ctx, hstatements, pure, Except.pure] at h
  refine ⟨fun hnames => ?_, fun stop h => (herror stop h).1, ?_⟩
  · cases hfile : ofParsed source fileName maxNesting parsed with
    | ok file => exact ⟨file, rfl⟩
    | error stop =>
        obtain ⟨-, n, hn, hlacks, hoverflows⟩ := herror stop hfile
        exact absurd (hnames n hn hlacks) hoverflows
  · intro n hn hoverflows k nameless hnameless hstands hlimit
    cases hfile : ofParsed source fileName maxNesting parsed with
    | error stop => rw [(herror stop hfile).1]
    | ok file =>
        obtain ⟨made, hmade, -⟩ := bind_eq_ok_iff.mp hfile
        obtain ⟨noted, statement, hstatement⟩ := statement_of_statements hmade hn
        have hbelow : ((ctx.nesting + k : Nat) : Int) < ctx.maxNesting := by
          simpa [ctx] using hlimit
        have hstops := (Makers.stops_of_stands hnameless hstands hbelow depthLimit).1
        obtain ⟨stop, hstop⟩ := statement_from_of_stops hstops hoverflows noted
        rw [hstatement] at hstop
        cases hstop

/-- The law at an import with an empty entry in its list, in a namespace, and at an import that has
nothing in it at all. -/
theorem file_unless_nameless_in_namespace :
    let token (type : String) (start stop : Nat) := ParseTree.node type false start stop none []
    let imports := ParseTree.node "import_statement" true 12 30 none
      [token "import" 12 18, .node "import_clause" true 19 21 none
        [.node "named_imports" true 19 21 none
          [token "\x7b" 19 20, .node "import_specifier" true 20 20 none [],
            token "\x7d" 20 21]],
        token "from" 22 26, .node "string" true 27 30 (some "source") []]
    let statement := ParseTree.node "expression_statement" true 0 31 none
      [.node "internal_module" true 0 31 none
        [token "namespace" 0 9, .node "identifier" true 10 11 (some "name") [],
          .node "statement_block" true 11 31 (some "body") [imports]]]
    let source := Utf8.encode (Text.ofString "namespace N\x7bimport \x7b\x7d from 'm'\x7d")
    let nothing := ParseTree.node "import_statement" true 0 6 none []
    ofParsed source (Text.ofString "a.ts") 100 ⟨.node "program" true 0 31 none [statement], false⟩ =
        .error .missingName ∧
      ∃ file, ofParsed source (Text.ofString "a.ts") 100
        ⟨.node "program" true 0 6 none [nothing], false⟩ = .ok file := by
  intro token imports statement source nothing
  constructor
  · have hnameless : imports.IsNamelessImport :=
      ⟨rfl, rfl, _, rfl, _, List.mem_singleton_self _, rfl, _, List.mem_singleton_self _, rfl, rfl,
        rfl⟩
    have hstands : imports.Stands 1 statement :=
      .inside (.expressed rfl rfl rfl rfl rfl (List.mem_singleton_self _)) .self
    have hoverflows : ¬ overflows depthLimit { source := source, maxNesting := 100 } statement := by
      decide +kernel
    exact (file_unless_nameless source _ 100 _).2.2 statement (List.mem_singleton_self _)
      hoverflows 1 imports hnameless hstands (by decide)
  · refine (file_unless_nameless source _ 100 _).1 fun n hn hlacks => ?_
    obtain rfl := List.mem_singleton.mp hn
    cases hlacks with
    | nameless h => cases h.source
    | inside hc _ => cases hc

/-- An import list with an empty entry in it, which is all that is there but for the module. -/
theorem no_file_of_empty_entry :
    let entry := ParseTree.node "import_specifier" true 8 8 none []
    let list := ParseTree.node "named_imports" true 7 9 none
      [.node "\x7b" false 7 8 none [], entry, .node "\x7d" false 8 9 none []]
    let module := ParseTree.node "string" true 15 18 (some "source")
      [.node "'" false 15 16 none [], .node "string_fragment" true 16 17 none [],
        .node "'" false 17 18 none []]
    let imports := ParseTree.node "import_statement" true 0 18 none
      [.node "import" false 0 6 none [], .node "import_clause" true 7 9 none [list],
        .node "from" false 10 14 none [], module]
    ofParsed (Utf8.encode (Text.ofString "import \x7b\x7d from 'm'")) (Text.ofString "a.ts") 100
      ⟨.node "program" true 0 18 none [imports], false⟩ = .error .missingName := by
  intro entry list module imports
  rfl

end SourceFile

end StaticLiteral
