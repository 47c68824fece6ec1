import StaticLiteral.Program.Report
import StaticLiteral.Proofs.Resolution.Closed

/-!
# Constants that are exported again

A constant that is imported from the file that exports it is resolved through its declaration.
Imported through files that export it again, it is resolved through its type, however many these
files are. `relayed_below` says that it then has the same value, or one with less in it, as long as
its type is worked out from its initial value; `relayed_apart` shows what happens otherwise.
-/

namespace StaticLiteral

namespace Program

/-- What a file exports under a name is the symbol `x`, exported again under a name by so many files
on the way from the file that has it. -/
inductive Relays (p : Program) (x : BoundSymbol) : Nat → Text → Text → Prop
  /-- the file exports the symbol itself, in its declaration or in a list of names of its own -/
  | home {path name : Text} {m : BoundSymbol} (hown : p.ownExport? path name = some m)
      (h : p.aliased m = x) : Relays p x 0 path name
  | relay {k : Nat} {path name next inner : Text} {m : BoundSymbol}
      (hown : p.ownExport? path name = some m) (himports : p.Imports m next inner)
      (h : Relays p x k next inner) : Relays p x (k + 1) path name

variable {p : Program} {x a m : BoundSymbol} {path name : Text} {k l : Nat} {t : BoundTy}

/-- An import of what a file exports itself stands for that. -/
theorem aliased_of_own (himports : p.Imports a path name) (hown : p.ownExport? path name = some m) :
    p.aliased a = m := by
  rw [aliased_of_imports himports, export_of_own hown, Option.getD_some]

/-- What a file exports leads to the symbol that is exported again. -/
theorem leads_of_relays (hx : x.kind.isAlias = false) (h : p.Relays x k path name) :
    ∃ m l, p.ownExport? path name = some m ∧ p.Leads l m x := by
  induction h with
  | @home path name m hown h =>
      cases halias : m.kind.isAlias with
      | true => exact ⟨m, 1, hown, .step halias (h ▸ .here (h.symm ▸ hx))⟩
      | false =>
          rw [aliased_of_not_alias halias] at h
          exact ⟨m, 0, hown, h ▸ .here halias⟩
  | @relay k path name next inner m hown himports _ ih =>
      obtain ⟨further, l, hfurther, hleads⟩ := ih
      refine ⟨m, l + 1, hown, .step himports.is_alias ?_⟩
      rwa [aliased_of_own himports hfurther]

/-- A symbol has the type of what it leads to. -/
theorem HasType.of_leads (hp : ∀ s ∈ p.symbols, ∀ t ∈ p.symbols, s.id = t.id → s = t)
    (hm : m ∈ p.symbols) (h : p.Leads l m x) (ht : p.HasType m t) : p.HasType x t := by
  cases halias : m.kind.isAlias with
  | true =>
      have hend := h.alias_end_eq hp hm
      exact hend ▸ ht.of_end halias (hend.symm ▸ h.not_alias)
  | false =>
      obtain ⟨_, rfl⟩ := h.unique (.here halias)
      exact ht

/-- What is found through an import that stands for an alias is what the type of the symbol behind
it tells. -/
theorem SymbolFinds.of_alias {v : Option Value}
    (hp : ∀ s ∈ p.symbols, ∀ t ∈ p.symbols, s.id = t.id → s = t) (ha : a ∈ p.symbols)
    (halias : (p.aliased a).kind.isAlias) (hleads : p.Leads l (p.aliased a) x)
    (h : p.SymbolFinds a v) : ∃ t, p.HasType x t ∧ p.TypeFinds t v := by
  have hproperty : (p.aliased a).kind ≠ .property := by
    intro hkind
    simp [hkind, SymbolKind.isAlias] at halias
  have hresolved : (p.aliased a).resolved? = none := by
    cases hkind : (p.aliased a).kind <;> simp_all [Symbol.resolved?, SymbolKind.isAlias]
  obtain ⟨t, ht, hv⟩ := h.of_type hproperty hresolved
  exact ⟨t, ht.of_leads hp (aliased_mem_symbols ha) hleads, hv⟩

end Program

namespace Resolution

variable {p : Program} {x a b : BoundSymbol} {k : Nat} {i j d : Info}
  {text other home exported start inner : Text} {name init : Node} {v w : Option Value}
  {loose : Bool}

/-- What is found of a constant through files that export it again is found of it directly, or
more. -/
theorem below_of_relayed (hp : p.Coherent) (hkind : x.kind = .blockScopedVariable)
    (hd : x.declaration = some (.variableDeclaration d name none (some init)))
    (hinferred : p.Inferred loose false init)
    (hat : p.symbolAt? (.identifier i text) = some a) (himports : p.Imports a home exported)
    (hhome : p.Relays x 0 home exported)
    (hat' : p.symbolAt? (.identifier j other) = some b) (himports' : p.Imports b start inner)
    (hrelays : p.Relays x (k + 1) start inner) (hw : p.NodeFinds (.identifier i text) w)
    (hv : p.NodeFinds (.identifier j other) v) : Below loose v w := by
  have hx : x.kind.isAlias = false := by rw [hkind]; rfl
  have ha := Program.symbol_at_mem_symbols hat
  have hb := Program.symbol_at_mem_symbols hat'
  -- The chain stands for an alias, so what is found through it is what the type of `x` tells.
  have hrelayed : ∃ t, p.HasType x t ∧ p.TypeFinds t v := by
    obtain ⟨m, l, hown, hleads⟩ := Program.leads_of_relays hx hrelays
    have hm := Program.aliased_of_own himports' hown
    cases hrelays with
    | relay hown' hfurther _ =>
        obtain rfl := Option.some.inj (hown.symm.trans hown')
        exact (hv.of_name hat').of_alias hp.unique hb (hm ▸ hfurther.is_alias) (hm ▸ hleads)
  obtain ⟨t, ht, hv⟩ := hrelayed
  obtain ⟨m, l, hown, hleads⟩ := Program.leads_of_relays hx hhome
  have hm := Program.aliased_of_own himports hown
  cases halias : (p.aliased a).kind.isAlias with
  | true =>
      obtain ⟨u, hu, hw⟩ := (hw.of_name hat).of_alias hp.unique ha halias (hm ▸ hleads)
      obtain rfl := ht.unique hu
      exact .of_eq (.inr (hv.unique hw))
  | false =>
      obtain ⟨_, rfl⟩ := hleads.unique (.here (hm ▸ halias))
      have hw := (hw.of_name hat).of_declaration
        (hm.symm ▸ Symbol.resolved_of_variable hkind hd)
      have hs : x ∈ p.symbols := hm ▸ Program.aliased_mem_symbols ha
      exact Program.below_of_initial hp hs hkind hd
        (fun hplaced => Program.below_of_inferred hp hinferred hplaced) ht hv hw

/-- A constant `x` has no type written, and its type is worked out from its initial value. One name
is that of an import from the file that exports `x`, another one that of an import through files
that export it again. If neither runs into a cycle, and the first one ends with a value or none, the
second one ends with the same value or one with less in it: none, or an array as long with less in
some places. Only if `loose`, so that arrays may be neither constant nor in an object, it can also
have an array with one missing entry in the place of an array. -/
theorem relayed_below {config : Config} {sources : List SourceFile} {typing depth : Nat} :
    let p := Program.ofSources config sources
    let direct := Node.identifier i text
    let relayed := Node.identifier j other
    x.kind = .blockScopedVariable →
    x.declaration = some (.variableDeclaration d name none (some init)) →
    p.Inferred loose false init →
    p.symbolAt? direct = some a → p.Imports a home exported → p.Relays x 0 home exported →
    p.symbolAt? relayed = some b → p.Imports b start inner → p.Relays x (k + 1) start inner →
    ofNode (p.freely typing) depth [] direct = .ok w →
    ofNode (p.freely typing) depth [] relayed ≠ .error .tooDeep →
    (∀ types > typing, ∀ deep ≥ depth + 4,
      let value (n : Node) := (Outcome.ofAnswer n (ofNode (p.modelWithin types) deep [] n)).value
      Below loose (value relayed) (value direct)) ∧
    (typing < Typing.depthLimit → depth + 4 ≤ depthLimit →
      Below loose (p.resolve relayed).value (p.resolve direct).value) := by
  intro p direct relayed hkind hd hinferred hat himports hhome hat' himports' hrelays hw hreached
  have hp := Program.coherent_of_sources config sources
  have hdeep : ∀ types > typing, ∀ deep ≥ depth + 4,
      let value (n : Node) := (Outcome.ofAnswer n (ofNode (p.modelWithin types) deep [] n)).value
      Below loose (value relayed) (value direct) := by
    intro types htypes deep hdeep value
    have hdirect : ofNode (p.modelWithin types) deep [] direct = .ok w :=
      answer_of_free hp.unique hw (by simp) types htypes deep hdeep
    have hrelayed : ofNode (p.modelWithin types) deep [] relayed =
        ofNode (p.freely typing) depth [] relayed :=
      answer_of_free hp.unique rfl hreached types htypes deep hdeep
    show Below loose (Outcome.ofAnswer relayed (ofNode (p.modelWithin types) deep [] relayed)).value
      (Outcome.ofAnswer direct (ofNode (p.modelWithin types) deep [] direct)).value
    rw [hdirect, hrelayed]
    cases hv : ofNode (p.freely typing) depth [] relayed with
    | ok v =>
        exact below_of_relayed hp hkind hd hinferred hat himports hhome hat' himports' hrelays
          ⟨typing, depth, hw⟩ ⟨typing, depth, hv⟩
    | error failure =>
        have hnone : (Outcome.ofAnswer relayed (.error failure)).value = none := by
          cases hmessage : failure.message? <;> simp [Outcome.ofAnswer, hmessage]
        rw [hnone]
        exact .missing _
  exact ⟨hdeep, fun htyping hdepth => hdeep _ htyping _ hdepth⟩

/-- The law at a tuple of a truth value, which its type does not tell, and a text, that two files
export again. -/
theorem relayed_below_twice :
    let name (t : String) := Node.identifier {} (Text.ofString t)
    let file (t : String) (statements : List Node) : SourceFile :=
      { fileName := Text.ofString t, statements := statements }
    let tuple := Node.arrayLiteral {} [.trueKeyword {}, .stringLiteral {} (Text.ofString "s")]
    let constant := Node.variableDeclaration {} (name "x") none
      (some (.asExpression {} tuple (.keywordType {} (Text.ofString "const"))))
    let relay (t : String) := Node.exportDeclaration {}
      [.exportSpecifier {} (Text.ofString "x") (Text.ofString "x")] (some (Text.ofString t)) false
    let specifier (t : String) :=
      Node.importSpecifier {} (name t) (some (Text.ofString "x")) false
    let p := Program.ofSources {} [
      file "a" [.variableStatement {} .const [constant] true false],
      file "b" [relay "./a"], file "c" [relay "./b"],
      file "d" [.importDeclaration {} (Text.ofString "./a") [specifier "x"],
        .importDeclaration {} (Text.ofString "./c") [specifier "y"],
        .expressionStatement {} (name "x"), .expressionStatement {} (name "y")]]
    let direct := Node.place (Text.ofString "d") [0, 2, 0] (name "x")
    let relayed := Node.place (Text.ofString "d") [0, 3, 0] (name "y")
    let text := some (Value.text (Text.ofString "s"))
    (p.resolve direct).value = some (.array [some (.boolean true), text]) ∧
      (p.resolve relayed).value = some (.array [none, text]) ∧
      Below false (p.resolve relayed).value (p.resolve direct).value := by
  intro name file tuple constant relay specifier p direct relayed text
  have hx : p.ownExport? (Text.ofString "a") (Text.ofString "x") =
      some (.declaredBy .blockScopedVariable (.place (Text.ofString "a") [0, 0, 0, 0] constant) true
        (.node ⟨Text.ofString "a", [0, 0, 0, 0, 0]⟩) (Text.ofString "x")) := rfl
  have hhome := Program.Relays.home hx (Program.aliased_of_not_alias rfl)
  -- The aliases in the files that export it again, and in the file that imports it twice.
  let origin (file module : String) : AliasOrigin :=
    { sourceFile := some (Text.ofString file), module := some (Text.ofString module)
      importName := some (Text.ofString "x") }
  have himports : ∀ {a : BoundSymbol} {file module path : String},
      a.kind = .aliasOf (origin file module) →
      p.resolveModule (Text.ofString file) (Text.ofString module) = some (Text.ofString path) →
      p.Imports a (Text.ofString path) (Text.ofString "x") :=
    fun hkind hpath => ⟨_, _, hkind, rfl, rfl, hpath⟩
  obtain ⟨b, hb, hkind⟩ := Option.map_eq_some_iff.mp
    (by decide +kernel : (p.ownExport? (Text.ofString "b") (Text.ofString "x")).map (·.kind) =
      some (.aliasOf (origin "b" "./a")))
  have hrelay : p.Imports b (Text.ofString "a") (Text.ofString "x") :=
    himports hkind (by decide +kernel)
  obtain ⟨c, hc, hkind⟩ := Option.map_eq_some_iff.mp
    (by decide +kernel : (p.ownExport? (Text.ofString "c") (Text.ofString "x")).map (·.kind) =
      some (.aliasOf (origin "c" "./b")))
  have hrelay' : p.Imports c (Text.ofString "b") (Text.ofString "x") :=
    himports hkind (by decide +kernel)
  obtain ⟨d, hat, hkind⟩ := Option.map_eq_some_iff.mp
    (by decide +kernel : (p.symbolAt? direct).map (·.kind) = some (.aliasOf (origin "d" "./a")))
  have himport : p.Imports d (Text.ofString "a") (Text.ofString "x") :=
    himports hkind (by decide +kernel)
  obtain ⟨d', hat', hkind⟩ := Option.map_eq_some_iff.mp
    (by decide +kernel : (p.symbolAt? relayed).map (·.kind) = some (.aliasOf (origin "d" "./c")))
  have himport' : p.Imports d' (Text.ofString "c") (Text.ofString "x") :=
    himports hkind (by decide +kernel)
  -- Neither request runs into a cycle.
  have hdirect : (ofNode (p.freely 9) 9 [] direct).toOption =
      some (some (.array [some (.boolean true), text])) := by decide +kernel
  have hrelayed : (ofNode (p.freely 9) 9 [] relayed).toOption =
      some (some (.array [none, text])) := by decide +kernel
  have hw : ofNode (p.freely 9) 9 [] direct = .ok (some (.array [some (.boolean true), text])) := by
    revert hdirect
    cases ofNode (p.freely 9) 9 [] direct <;> simp [Except.toOption]
  have hreached : ofNode (p.freely 9) 9 [] relayed ≠ .error .tooDeep := by
    intro h
    simp [h, Except.toOption] at hrelayed
  have hlaw : Below false (p.resolve relayed).value (p.resolve direct).value :=
    (relayed_below rfl rfl (.asConst rfl (inferred_of_closed rfl)) hat himport hhome hat' himport'
      (.relay hc hrelay' (.relay hb hrelay hhome)) hw hreached).2 (by decide) (by decide)
  exact ⟨by decide +kernel, by decide +kernel, hlaw⟩

/-- Imported through another file, an array that is not constant loses its entries, a type that is
written or asserted or checked is told in the place of the value, spread elements come in, and a
cycle ends later. -/
theorem relayed_apart :
    let name (t : String) := Node.identifier {} (Text.ofString t)
    let literal (t : String) := Node.stringLiteral {} (Text.ofString t)
    let type (t : String) := Node.literalType {} (literal t)
    let asConst (e : Node) := Node.asExpression {} e (.keywordType {} (Text.ofString "const"))
    let text (t : String) := some (Value.text (Text.ofString t))
    let entry (v : Option Value) := some (Value.object [(Text.ofString "k", v)])
    let program (type : Option Node) (init : Node) := Program.ofSources {} [
      { fileName := Text.ofString "a"
        statements := [.variableStatement {} .const
          [.variableDeclaration {} (name "x") type (some init)] true false] },
      { fileName := Text.ofString "b"
        statements := [.exportDeclaration {}
          [.exportSpecifier {} (Text.ofString "x") (Text.ofString "x")]
          (some (Text.ofString "./a")) false] },
      { fileName := Text.ofString "c"
        statements := [
          .importDeclaration {} (Text.ofString "./a")
            [.importSpecifier {} (name "x") (some (Text.ofString "x")) false],
          .importDeclaration {} (Text.ofString "./b")
            [.importSpecifier {} (name "y") (some (Text.ofString "x")) false],
          .expressionStatement {} (name "x"), .expressionStatement {} (name "y")] }]
    let direct (p : Program) := (p.resolve (.place (Text.ofString "c") [0, 2, 0] (name "x"))).value
    let relayed (p : Program) := (p.resolve (.place (Text.ofString "c") [0, 3, 0] (name "y"))).value
    let pair := program none (.arrayLiteral {} [literal "s", literal "t"])
    let annotated := program (some (type "t")) (literal "s")
    let asserted := program none (.asExpression {} (literal "s") (type "t"))
    let checked := program none (.satisfiesExpression {} (literal "s") (type "s"))
    let spread := program none
      (asConst (.arrayLiteral {} [.spreadElement {} (asConst (.arrayLiteral {} [literal "s"]))]))
    let cyclic := program none (.objectLiteral {} [.propertyAssignment {} (name "k") (name "x")])
    (direct pair = some (.array [text "s", text "t"]) ∧ relayed pair = some (.array [none])) ∧
      (direct annotated = text "s" ∧ relayed annotated = text "t") ∧
      (direct asserted = text "s" ∧ relayed asserted = text "t") ∧
      (direct checked = none ∧ relayed checked = text "s") ∧
      (direct spread = some (.array [none]) ∧ relayed spread = some (.array [text "s"])) ∧
      direct cyclic = entry none ∧ relayed cyclic = entry (entry none) := by
  decide +kernel

end Resolution

end StaticLiteral
