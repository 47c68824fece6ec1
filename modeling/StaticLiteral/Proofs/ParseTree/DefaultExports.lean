import StaticLiteral.Proofs.ParseTree.Forms

/-!
# Statements that export a default

A statement that exports a default becomes one of two things. With a declaration in its field it
becomes this declaration, marked as exported, and nothing remains of the default. Otherwise its
value becomes the default: `Node.IsMadeOf.default_of_value`.
-/

namespace StaticLiteral

namespace ParseTree

/-- The tree of a statement that exports a default. -/
def IsDefaultExport (n : ParseTree) : Prop := n.type = "export_statement" ∧ n.hasToken "default"

/-- The declaration that a statement exports. -/
def exportedDeclaration? (n : ParseTree) : Option ParseTree := n.child? "declaration"

/-- The value that a statement without a declaration exports as the default. -/
def defaultValue? (n : ParseTree) : Option ParseTree := (n.child? "value").or n.firstNamed?

/-- The tree of a function, a class or an interface. -/
def DeclaresOneName (n : ParseTree) : Prop :=
  n.type ∈ ["function_declaration", "generator_function_declaration", "function_signature",
    "class_declaration", "abstract_class_declaration", "interface_declaration"]

end ParseTree

open MakeSyntax MakeSyntax.Makers

namespace Node

/-- The node was made of the tree, as a statement or as whatever the tree is. -/
def IsMadeOf (m : Node) (n : ParseTree) : Prop :=
  ∃ depth ctx anomalies rest,
    ((ofDepth depth).statement n ctx).run anomalies = (.ok (some m), rest) ∨
      ((ofDepth depth).generic n ctx).run anomalies = (.ok m, rest)

/-- The node was made of the tree as an expression. -/
def IsValueOf (e : Node) (n : ParseTree) : Prop :=
  ∃ depth ctx anomalies rest, ((ofDepth depth).expression n ctx).run anomalies = (.ok e, rest)

/-- The node is what a tree leaves that is cut off. -/
def IsCutOff (m : Node) (n : ParseTree) : Prop := ∃ i, m = cutOff n i

/-- The node is the default with the value that the tree is of. -/
def IsDefaultOf (value : ParseTree) (m : Node) : Prop :=
  ∃ i e, m = .exportAssignment i e ∧ e.IsValueOf value

/-- A function, a class or an interface that is exported, or something that was not understood. -/
def exportsOneName : Node → Bool
  | functionDeclaration _ _ _ _ exported | classDeclaration _ _ exported
  | interfaceDeclaration _ _ _ exported => exported
  | unknown .. => true
  | _ => false

/-- Where a node stands makes no difference to what it exports. -/
theorem exports_one_name_place (file : Text) (way : List Nat) (n : Node) :
    (place file way n).exportsOneName = n.exportsOneName := by
  cases n <;> rfl

end Node

/-- The statement is there and has the property. -/
def Leaves (P : Node → Prop) (s : Option Node) : Prop := ∃ q, s = some q ∧ P q

variable {P : Node → Prop} {n d value : ParseTree} {m : Node}

/-! ## What an export is made by -/

/-- What is made at the limit or above it is cut off or made. -/
theorem makes_guarded_export (h : ∀ depth, Makes (Leaves P) ((ofDepth depth).exportStatement n))
    (depth : Nat) : Makes (Leaves fun q => q.IsCutOff n ∨ P q)
      (guarded n (fun i => some (cutOff n i)) ((ofDepth depth).exportStatement n)) :=
  .guarded (fun i => ⟨_, rfl, .inl ⟨i, rfl⟩⟩) <| (h depth).mono fun _ ⟨q, hs, hq⟩ =>
    ⟨q, hs, .inr hq⟩

/-- As a statement, the tree of an export leaves what is made of exports, or is cut off. -/
theorem makes_export (hn : n.type = "export_statement")
    (h : ∀ depth, Makes (Leaves P) ((ofDepth depth).exportStatement n)) (depth : Nat) :
    Makes (Leaves fun q => q.IsCutOff n ∨ P q) ((ofDepth depth).statement n) := by
  cases depth with
  | zero => exact .throw _
  | succ depth =>
      have htype : (ofDepth depth).statementOfType? n =
          some ((ofDepth depth).exportStatement n) := by simp [statementOfType?, hn]
      show Makes _ ((ofDepth depth).makeStatement n)
      rw [makeStatement, htype, if_neg (by simp [ParseTree.isSkipped, hn])]
      exact makes_guarded_export h depth

/-- Wherever it stands, the tree of an export leaves what is made of exports, or is cut off. -/
theorem Node.IsMadeOf.of_export (hm : m.IsMadeOf n) (hn : n.type = "export_statement")
    (h : ∀ depth, Makes (Leaves P) ((ofDepth depth).exportStatement n)) :
    m.IsCutOff n ∨ P m := by
  obtain ⟨depth, ctx, anomalies, rest, hrun | hrun⟩ := hm
  · obtain ⟨q, heq, hq⟩ := makes_export hn h depth ctx anomalies _ rest hrun
    exact Option.some.inj heq ▸ hq
  · cases depth with
    | zero => cases hrun
    | succ depth =>
        have htype : (ofDepth depth).statementOfType? n =
            some ((ofDepth depth).exportStatement n) := by simp [statementOfType?, hn]
        have hmakes : Makes (fun q => q.IsCutOff n ∨ P q) ((ofDepth depth).makeGeneric n) := by
          rw [makeGeneric, htype]
          refine .bind (makes_guarded_export h depth) fun s hs => ?_
          obtain ⟨q, rfl, hq⟩ := hs
          exact .pure hq
        exact hmakes ctx anomalies m rest hrun

/-! ## Values and declarations -/

/-- Without a declaration the value becomes the default. -/
theorem makes_default (hn : n.IsDefaultExport) (hdeclaration : n.exportedDeclaration? = none)
    (hvalue : n.defaultValue? = some value) (depth : Nat) :
    Makes (Leaves (Node.IsDefaultOf value)) ((ofDepth depth).exportStatement n) := by
  have hexpression : Makes (Node.IsValueOf · value) ((ofDepth depth).expression value) :=
    fun ctx anomalies e rest hrun => ⟨depth, ctx, anomalies, rest, hrun⟩
  have hchosen : (n.child? "value").or n.firstNamed? = some value := hvalue
  rw [ParseTree.exportedDeclaration?] at hdeclaration
  unfold exportStatement
  rw [hdeclaration]
  dsimp only
  split
  all_goals
    refine .bind (.any _) fun module _ => ?_
    rw [if_pos hn.2, hchosen]
    exact .bind (.any _) fun i _ => .bind hexpression fun e he => .pure ⟨_, rfl, i, e, rfl, he⟩

/-- A function, a class or an interface is made of its tree, unless the tree is cut off. -/
theorem makes_declaration (hd : d.DeclaresOneName) (depth : Nat) :
    Makes (Leaves fun q => q.asExported.exportsOneName) ((ofDepth depth).statement d) := by
  have hmade : ∀ {make : MakeSyntax Node}, Makes (fun q => q.asExported.exportsOneName) make →
      Makes (Leaves fun q => q.asExported.exportsOneName) (some <$> make) := fun h =>
    h.map fun q hq => ⟨q, rfl, hq⟩
  cases depth with
  | zero => exact .throw _
  | succ depth =>
      have hfunction : Makes (fun q => q.asExported.exportsOneName)
          ((ofDepth depth).functionDeclaration d) :=
        .bind (.any _) fun _ _ => .bind (.any _) fun _ _ => .bind (.any _) fun _ _ =>
          .bind (.any _) fun _ _ => .pure rfl
      have hclass : Makes (fun q => q.asExported.exportsOneName) (classDeclaration d) :=
        .bind (.any _) fun _ _ => .bind (.any _) fun _ _ => .pure rfl
      have hinterface : Makes (fun q => q.asExported.exportsOneName)
          ((ofDepth depth).interfaceDeclaration d) := by
        unfold interfaceDeclaration
        split
        · exact .bind (.any _) fun _ _ => .bind (.any _) fun _ _ => .pure rfl
        · dsimp only
          split
          all_goals
            exact .bind (.any _) fun _ _ => .bind (.any _) fun _ _ => .bind (.any _) fun _ _ =>
              .pure rfl
      show Makes _ ((ofDepth depth).makeStatement d)
      simp only [ParseTree.DeclaresOneName, List.mem_cons, List.not_mem_nil, or_false] at hd
      rcases hd with hd | hd | hd | hd | hd | hd
      all_goals
        rw [makeStatement, if_neg (by simp [ParseTree.isSkipped, hd])]
        refine .guarded (fun i => ⟨_, rfl, rfl⟩) ?_
        simp only [statementOfType?, hd]
        first
        | exact hmade hfunction
        | exact hmade hclass
        | exact hmade hinterface

/-- A function, a class or an interface in the field of a declaration is exported itself. -/
theorem makes_exported_declaration (hdeclaration : n.exportedDeclaration? = some d)
    (hd : d.DeclaresOneName) (depth : Nat) :
    Makes (Leaves fun q => q.exportsOneName) ((ofDepth depth).exportStatement n) := by
  rw [ParseTree.exportedDeclaration?] at hdeclaration
  unfold exportStatement
  rw [hdeclaration]
  refine .bind (makes_declaration hd depth) fun s hs => ?_
  obtain ⟨q, rfl, hq⟩ := hs
  exact .pure ⟨_, rfl, hq⟩

/-- What is made of the export of a default value is the default, unless it is cut off. -/
theorem Node.IsMadeOf.default_of_value (hm : m.IsMadeOf n) (hn : n.IsDefaultExport)
    (hdeclaration : n.exportedDeclaration? = none) (hvalue : n.defaultValue? = some value) :
    m.IsCutOff n ∨ m.IsDefaultOf value :=
  hm.of_export hn.1 (makes_default hn hdeclaration hvalue)

/-- What is made of the export of a function, a class or an interface is no default. -/
theorem Node.IsMadeOf.exports_one_name (hm : m.IsMadeOf n) (hn : n.IsDefaultExport)
    (hdeclaration : n.exportedDeclaration? = some d) (hd : d.DeclaresOneName) :
    m.IsCutOff n ∨ m.exportsOneName :=
  hm.of_export hn.1 (makes_exported_declaration hdeclaration hd)

/-! ## The statements of a file -/

namespace SourceFile

/-- A tree that leaves a statement whenever its work does not stop has one in the file. Where the
work stops, the tree is cut off. -/
theorem exists_statement {depth : Nat} {ctx : SyntaxContext} {trees : List ParseTree}
    {anomalies rest : List Anomaly} {statements : List Node}
    (h : statementsFrom depth ctx anomalies trees = .ok (statements, rest)) (hn : n ∈ trees)
    (hmakes : Makes (Leaves P) ((ofDepth depth).statement n)) :
    ∃ m ∈ statements, m.IsCutOff n ∨ m.IsMadeOf n := by
  induction trees generalizing anomalies statements with
  | nil => cases hn
  | cons tree trees ih =>
      obtain ⟨⟨statement, noted⟩, hstatement, h⟩ := bind_eq_ok_iff.mp h
      obtain ⟨⟨following, last⟩, hfollowing, h⟩ := bind_eq_ok_iff.mp h
      obtain ⟨rfl, rfl⟩ := Prod.mk.inj (Except.ok.inj h)
      rcases List.mem_cons.mp hn with rfl | hn
      · unfold statementFrom at hstatement
        split at hstatement
        · next hrun =>
            obtain ⟨rfl, rfl⟩ := Prod.mk.inj (Except.ok.inj hstatement)
            obtain ⟨q, rfl, _⟩ := hmakes ctx anomalies _ _ hrun
            exact ⟨q, by simp, .inr ⟨depth, ctx, anomalies, _, .inl hrun⟩⟩
        · obtain ⟨rfl, _⟩ := Prod.mk.inj (Except.ok.inj hstatement)
          exact ⟨_, List.mem_append_left _ (List.mem_singleton_self _), .inl ⟨_, rfl⟩⟩
        · cases hstatement
      · obtain ⟨m, hm, hmade⟩ := ih hfollowing hn
        exact ⟨m, List.mem_append_right _ hm, hmade⟩

/-- A statement that exports a default leaves a statement in the file. -/
theorem exists_statement_of_default {bytes : List UInt8} {fileName : Text} {maxNesting : Int}
    {parsed : ParsedSource} {source : SourceFile}
    (h : ofParsed bytes fileName maxNesting parsed = .ok source) (hmem : n ∈ parsed.tree.named)
    (hn : n.IsDefaultExport) (hexports : (∃ value, n.exportedDeclaration? = none ∧
      n.defaultValue? = some value) ∨ ∃ d, n.exportedDeclaration? = some d ∧ d.DeclaresOneName) :
    ∃ m ∈ source.statements, m.IsCutOff n ∨ m.IsMadeOf n := by
  obtain ⟨⟨statements, anomalies⟩, hstatements, h⟩ := bind_eq_ok_iff.mp h
  obtain rfl := Except.ok.inj h
  rcases hexports with ⟨value, hdeclaration, hvalue⟩ | ⟨d, hdeclaration, hd⟩
  · exact exists_statement hstatements hmem
      (makes_export hn.1 (makes_default hn hdeclaration hvalue) depthLimit)
  · exact exists_statement hstatements hmem
      (makes_export hn.1 (makes_exported_declaration hdeclaration hd) depthLimit)

end SourceFile

end StaticLiteral
