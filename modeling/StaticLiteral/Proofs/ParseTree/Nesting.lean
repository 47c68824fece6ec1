import StaticLiteral.Proofs.ParseTree.Pairs

/-!
# How deep files are nested

Types, patterns and statements made with ways further down that are capped are capped, too, so
`Makers.Capped.above` goes one level up. `SourceFile.nesting_capped` draws the conclusion for files:
no way down a file is longer than the limit on nesting allows, apart from the levels that do not
count, and what is left out of the file is cut off, which is noted.
-/

namespace StaticLiteral

open MakeSyntax Node

variable {k : Nat}

namespace Node

/-! ## Marks -/

/-- The field with a mark if it has the name of the mark. -/
def markedField (mark name : String) : Field → Field
  | .flag b => .flag (b || name == mark)
  | field => field

/-- A change of nodes that puts a mark on declarations, and on nothing else. -/
structure IsMark (f : Node → Node) (mark : String) : Prop where
  kindName (n : Node) : (f n).kindName = n.kindName
  info (n : Node) : (f n).info = n.info
  children (n : Node) : (f n).children = n.children
  uncounted (n c : Node) : (f n).uncounted c = n.uncounted c
  fields (n : Node) : (f n).fields = n.fields.map fun row => (row.1, markedField mark row.1 row.2)
  stub (n : Node) (h : n.IsStub) : f n = n

/-- Exporting a declaration marks it, and changes nothing else. -/
theorem is_mark_exported : IsMark asExported "exported" where
  kindName n := by cases n <;> rfl
  info n := by cases n <;> rfl
  children n := by cases n <;> rfl
  uncounted n c := by cases n <;> rfl
  fields n := by cases n <;> simp [asExported, fields, markedField]
  stub n h := by cases n <;> first | rfl | cases h

/-- Declaring without a value marks a declaration, and changes nothing else. -/
theorem is_mark_ambient : IsMark asAmbient "ambient" where
  kindName n := by cases n <;> rfl
  info n := by cases n <;> rfl
  children n := by cases n <;> rfl
  uncounted n c := by cases n <;> rfl
  fields n := by cases n <;> simp [asAmbient, fields, markedField]
  stub n h := by cases n <;> first | rfl | cases h

/-- Fields with a mark are cut as those without it. -/
theorem FieldsCut.marked {R : Node → Node → Prop} {fs gs : List (String × Field)}
    (h : FieldsCut R fs gs) (mark : String) :
    FieldsCut R (fs.map fun row => (row.1, markedField mark row.1 row.2))
      (gs.map fun row => (row.1, markedField mark row.1 row.2)) :=
  h.map_fields (fun _ _ => rfl) (fun _ _ => rfl) (fun _ _ => rfl) fun _ field hplain => by
    cases field <;> exact hplain

variable {bound : Nat} {a b : Node}

/-- A declaration stays capped when it is marked. -/
theorem Capped.marked {f : Node → Node} {mark : String} (hf : IsMark f mark)
    (h : Capped bound a b) : Capped bound (f a) (f b) := by
  refine ⟨?_, h.within.of_same (hf.children a) (hf.uncounted a)⟩
  cases h.cut with
  | stub hstub => exact .stub ((hf.stub a hstub).symm ▸ hstub) _
  | node hkind hinfo hfields =>
      refine .node ?_ ?_ ?_
      · rw [hf.kindName, hf.kindName, hkind]
      · rw [hf.info, hf.info, hinfo]
      · rw [hf.fields, hf.fields]
        exact hfields.marked mark

/-- A node called a union is one. -/
theorem exists_union {n : Node} (h : n.kindName = "UnionType") :
    ∃ i types, n = .unionType i types := by
  cases n with
  | unionType i types => exact ⟨i, types, rfl⟩
  | _ => simp [kindName] at h

/-- The types that a type adds to the union around it stay capped. -/
theorem Capped.union_members (h : Capped bound a b) :
    Thinned (Capped bound) (Makers.unionMembers a) (Makers.unionMembers b) := by
  cases h.cut with
  | stub hstub =>
      have hself : Makers.unionMembers a = [a] := by cases a <;> first | rfl | cases hstub
      exact hself ▸ Thinned.single_iff.mpr (.inr hstub)
  | node hkind _ hfields =>
      by_cases hunion : a.kindName = "UnionType"
      · obtain ⟨i, types, rfl⟩ := exists_union hunion
        obtain ⟨j, types', rfl⟩ := exists_union (hkind ▸ hunion)
        have hmem : ∀ c ∈ types, c.StaysWithin bound := fun c hc =>
          h.within.child (by simpa [Node.children_eq, fields, Field.contents] using hc) rfl
        cases hfields with
        | same hplain =>
            cases (hplain : types = [])
            exact .nil
        | nodes hall => exact (hall.and_forall hmem).mono fun _ _ h => ⟨h.1, h.2⟩
      · have hself : ∀ n : Node, n.kindName ≠ "UnionType" → Makers.unionMembers n = [n] := by
          intro n hn
          cases n <;> first | rfl | exact absurd rfl hn
        rw [hself a hunion, hself b (hkind ▸ hunion)]
        exact .cons h .nil

end Node

namespace MakeSyntax.Makers

namespace Capped

variable {m : Makers} {bound : Nat} (h : m.Capped) (n : ParseTree)
include h

/-! ## Types -/

/-- The member of a tuple type is no deeper than the type further down that it is. -/
theorem tuple_member : Pairs k (Node.Capped (5 * k + 1)) (m.tupleMember n) (m.tupleMember n) := by
  unfold tupleMember
  split
  · refine .bind (h.type_annotation _) fun _ _ htype => .pure ?_
    exact htype.get_or (fun _ _ hstub => .stub hstub _ (by omega)) (.leaf rfl (by omega))
  · exact h.type k n

/-- A property signature is one level above its type and two above the elements of a computed name.
-/
theorem property_signatures :
    Pairs k (Thinned (Node.Capped (5 * k + 3))) (m.propertySignatures n)
      (m.propertySignatures n) := by
  unfold propertySignatures
  refine .mapM_thinned (fun c => .bind (h.property_name _) fun _ _ hname => ?_) _
  refine .bind (h.type_annotation _) fun _ _ htype => .bind_same (.info c) fun _ => .pure ?_
  refine .node rfl rfl (by omega) (.node hname (.optional ?_ .nil))
  exact htype.mono fun _ _ h => h.mono (by omega)

omit h in
/-- A reference to a type with its arguments. -/
theorem type_reference (i : Info) (name : Text) {as bs : List Node}
    (h : Thinned (Node.Capped (5 * k + 1)) as bs) :
    Node.Capped (5 * k + 6) (.typeReference i (.identifier i name) as)
      (.typeReference i (.identifier i name) bs) :=
  .node rfl rfl (by omega) (.node (.leaf rfl (by omega))
    (.nodes (h.mono fun _ _ h => h.mono (by omega)) .nil))

/-- A generic type is one level above its arguments. -/
theorem generic_type : Pairs k (Node.Capped (5 * k + 6)) (m.genericType n) (m.genericType n) := by
  unfold genericType
  refine .bind_same (.info n) fun i => ?_
  have hend : ∀ (name : Text) (as bs : List Node), Thinned (Node.Capped (5 * k + 1)) as bs →
      Pairs k (Node.Capped (5 * k + 6))
        (Pure.pure (Node.typeReference i (.identifier i name) as))
        (Pure.pure (Node.typeReference i (.identifier i name) bs)) :=
    fun name as bs hall => .pure (type_reference i name hall)
  dsimp only
  split
  · refine .bind_same (.text _) fun name => ?_
    split
    · exact .bind (.mapM_thinned (h.type k) _) (hend name)
    · exact .bind (.pure .nil) (hend name)
  · refine .bind_same (.pure rfl) fun name => ?_
    split
    · exact .bind (.mapM_thinned (h.type k) _) (hend name)
    · exact .bind (.pure .nil) (hend name)

/-- A type of any type of tree is capped at what one level more allows. -/
theorem type_of_type : Pairs k (Node.Capped (5 * k + 6)) (m.typeOfType n) (m.typeOfType n) := by
  have hwrapper : ∀ (make : MakeSyntax Node) (node : Node → Node) (rows : List (String × Field))
      (name : String), Pairs k (Node.Capped (5 * k + 1)) make make →
      (∀ e f, (node e).kindName = (node f).kindName ∧ (node e).info = (node f).info ∧
        (node e).fields = rows ++ [(name, .node e)] ∧ ∀ row ∈ rows, row.2.contents = []) →
      Pairs k (Node.Capped (5 * k + 6)) (make >>= fun e => Pure.pure (node e))
        (make >>= fun e => Pure.pure (node e)) := fun make node rows name hmake hnode => by
    refine .bind hmake fun e f he => .pure ?_
    obtain ⟨hkind, hinfo, hfields, hplain⟩ := hnode e f
    refine .node hkind hinfo (by omega) ?_
    rw [hfields, (hnode f e).2.2.1]
    exact .append_plain hplain (.node (he.mono (by omega)) .nil)
  unfold typeOfType
  refine .bind_same (.info n) fun i => ?_
  split
  · exact hwrapper _ _ [] _ (h.expression k _) fun _ _ => ⟨rfl, rfl, rfl, by simp⟩
  · exact .bind_same (.text n) fun _ => .pure (.leaf rfl (by omega))
  · refine .bind (.mapM_thinned h.tuple_member _) fun _ _ hes => .pure ?_
    exact .node rfl rfl (by omega) (.nodes (hes.mono fun _ _ h => h.mono (by omega)) .nil)
  · exact hwrapper _ _ [] _ (h.type k _) fun _ _ => ⟨rfl, rfl, rfl, by simp⟩
  · exact hwrapper _ _ [_] _ (h.type k _) fun _ _ => ⟨rfl, rfl, rfl, by simp [Field.contents]⟩
  · exact hwrapper _ _ [_] _ (h.type k _) fun _ _ => ⟨rfl, rfl, rfl, by simp [Field.contents]⟩
  · exact h.generic_type n
  · exact .bind_same (.text n) fun _ => .pure (type_reference i _ .nil)
  · exact .bind_same (.text n) fun _ => .pure (type_reference i _ .nil)
  · refine .bind (h.property_signatures n) fun _ _ hes => .pure ?_
    exact .node rfl rfl (by omega) (.nodes (hes.mono fun _ _ h => h.mono (by omega)) .nil)
  · refine .bind (.mapM_thinned (h.type k) _) fun _ _ hes => .pure ?_
    refine .node rfl rfl (by omega) (.nodes (hes.flat_map (fun a ha => ?_) fun _ _ hab => ?_) .nil)
    · cases a <;> first | rfl | cases ha
    · exact hab.union_members.mono fun _ _ h => h.mono (by omega)
  · exact .mono (h.type k _) fun _ _ h => h.mono (by omega)
  · exact .pure (.leaf rfl (by omega))

/-! ## Patterns -/

/-- A pattern is one level above its elements; other names have no children, or those of an unknown
node. -/
theorem make_binding_name : Pairs k (CappedName k) (m.makeBindingName n) (m.makeBindingName n) := by
  have hname : Pairs k (CappedName k) (MakeSyntax.identifier n) (MakeSyntax.identifier n) :=
    .mono (identifier n (by omega)) fun _ _ h => .of_no_pattern h
  unfold makeBindingName
  split
  · exact hname
  · exact hname
  · exact hname
  · refine .bind_same (.info n) fun _ => ?_
    refine .bind (.mapM_thinned (h.bindingElement k) _) fun _ _ hes => .pure ⟨?_, nofun⟩
    exact .node rfl rfl (by omega) (.nodes (hes.mono fun _ _ h => h.capped) .nil)
  · refine .bind_same (.info n) fun _ => ?_
    refine .bind (elements (fun i => .leaf rfl (by omega)) (fun c => .mono (h.bindingElement k c)
      fun _ _ he => he.capped) true _) fun _ _ hes => .pure ⟨?_, nofun⟩
    exact .node rfl rfl (by omega) (.nodes hes .nil)
  · exact .mono (h.unknown n) fun _ _ h => .of_no_pattern h

/-- The parts of an element are capped; how deep its name is depends on whether it is a pattern. -/
theorem make_binding_element :
    Pairs k (CappedElement k) (m.makeBindingElement n) (m.makeBindingElement n) := by
  unfold makeBindingElement
  refine .bind_same (.info n) fun i => ?_
  have hnamed : ∀ left right, Pairs k (CappedElement k)
      (m.bindingNameOrMissing left >>= fun name => m.optionalExpression right >>= fun init =>
        Pure.pure (Node.bindingElement i name none init false))
      (m.bindingNameOrMissing left >>= fun name => m.optionalExpression right >>= fun init =>
        Pure.pure (Node.bindingElement i name none init false)) := fun left right => by
    refine .bind (h.binding_name_or_missing _) fun _ _ hname => ?_
    refine .bind (h.optional_expression _) fun _ _ hinit => .pure (.mk hname .nil ?_)
    exact hinit.mono fun _ _ h => h.mono (by omega)
  split
  · have hend : ∀ e f, CappedElement k e f → Pairs k (CappedElement k)
        (m.propertyName (n.child? "key") >>= fun key => Pure.pure (renamed i key e))
        (m.propertyName (n.child? "key") >>= fun key => Pure.pure (renamed i key f)) :=
      fun e f he => .bind (h.property_name _) fun _ _ hkey => .pure (by
        obtain ⟨hname, -, hinit⟩ := he
        exact .mk hname (.cons hkey .nil) hinit)
    dsimp only
    split
    · exact .bind (h.bindingElement k _) hend
    · exact .bind (.pure (.mk (.of_no_pattern (missing (by omega))) .nil .nil)) hend
  · exact hnamed _ _
  · exact hnamed _ _
  · exact .bind (h.binding_name_or_missing _) fun _ _ hname => .pure (.mk hname .nil .nil)
  · exact .bind (h.bindingName k _) fun _ _ hname => .pure (.mk hname .nil .nil)

/-! ## Statements -/

/-- A declaration is one level above its pattern, and the statement one above the declaration. -/
theorem variable_statement (keyword : DeclarationKind) :
    Pairs k (Node.Capped (5 * k + 6)) (m.variableStatement keyword n)
      (m.variableStatement keyword n) := by
  unfold Makers.variableStatement
  refine .bind (.mapM_thinned (R := Node.Capped (5 * k + 5)) (fun d => ?_) _) fun _ _ hds => ?_
  · refine .bind (h.binding_name_or_missing _) fun _ _ hname => ?_
    refine .bind (h.type_annotation _) fun _ _ htype => ?_
    refine .bind (h.optional_expression _) fun _ _ hinit => .bind_same (.info d) fun _ => .pure ?_
    refine .node rfl rfl (by omega) (.node hname.capped ?_)
    exact .optional (htype.mono fun _ _ h => h.mono (by omega))
      (.optional (hinit.mono fun _ _ h => h.mono (by omega)) .nil)
  · refine .bind_same (.info n) fun _ => .pure (.node rfl rfl (by omega) ?_)
    exact .same rfl (.nodes hds (.same rfl (.same rfl .nil)))

omit h in
/-- A name that is exported is the same: its text does not depend on the limit. -/
theorem module_export_name (o : Option ParseTree) :
    Pairs k Eq (moduleExportName o) (moduleExportName o) := by
  unfold moduleExportName
  split
  · exact .pure rfl
  · split
    · exact .string_text _
    · exact .text _

omit h in
/-- An entry of an export list has no children. -/
theorem export_specifier (hpos : 1 ≤ bound) :
    Pairs k (Node.Capped bound) (exportSpecifier n) (exportSpecifier n) := by
  have hend : ∀ localName name, Pairs k (Node.Capped bound)
      (MakeSyntax.info n >>= fun i => Pure.pure (Node.exportSpecifier i name localName))
      (MakeSyntax.info n >>= fun i => Pure.pure (Node.exportSpecifier i name localName)) :=
    fun _ _ => .bind_same (.info n) fun _ => .pure (.leaf rfl hpos)
  unfold exportSpecifier
  refine .bind_same (module_export_name _) fun localName => ?_
  dsimp only
  split
  · exact .bind_same (module_export_name _) (hend localName)
  · exact .bind_same (.pure rfl) (hend localName)

omit h in
/-- A statement is marked if it is there. -/
theorem marked_option {f : Node → Node} {mark : String} (hf : IsMark f mark) {s t : Option Node}
    (h : Thinned (Node.Capped bound) s.toList t.toList) :
    Thinned (Node.Capped bound) (s.map f).toList (t.map f).toList := by
  rw [Option.toList_map, Option.toList_map]
  exact h.map hf.stub fun _ _ hab => hab.marked hf

/-- What an export statement exports is capped, a declaration also when it is marked. -/
theorem export_statement :
    Pairs k (fun s t => Thinned (Node.Capped (5 * k + 6)) s.toList t.toList) (m.exportStatement n)
      (m.exportStatement n) := by
  have hlift : ∀ {s t : Option Node}, Thinned (Node.Capped (5 * k + 1)) s.toList t.toList →
      Thinned (Node.Capped (5 * k + 6)) s.toList t.toList := fun h =>
    h.mono fun _ _ h => h.mono (by omega)
  unfold exportStatement
  split
  · exact .bind (h.statement k _) fun _ _ hs => .pure (marked_option is_mark_exported (hlift hs))
  · dsimp only
    split
    all_goals
      refine .bind_same (by first | exact .map (.string_text _) fun _ _ h => h ▸ rfl
                                  | exact .pure rfl) fun module => ?_
      split
      · split
        · exact .pure .nil
        · refine .bind_same (.info n) fun _ => .bind (h.expression k _) fun _ _ he => .pure ?_
          exact .cons (.node rfl rfl (by omega) (.node (he.mono (by omega)) .nil)) .nil
      · split
        · refine .bind (.mapM_thinned (fun c => export_specifier c (by omega : 1 ≤ 5 * k + 5)) _)
            fun _ _ hes => .bind_same (.info n) fun _ => .pure ?_
          exact .cons (.node rfl rfl (by omega) (.nodes hes (.same rfl (.same rfl .nil)))) .nil
        · split
          · exact .bind_same (.info n) fun _ => .pure (.cons (.leaf rfl (by omega)) .nil)
          · exact .bind (h.unknown n) fun _ _ hq => .pure (.cons (hq.mono (by omega)) .nil)

omit h in
/-- An entry of an import list is one level above its name. -/
theorem import_specifier :
    Pairs k (Node.Capped (5 * k + 5)) (importSpecifier n) (importSpecifier n) := by
  unfold importSpecifier
  refine .bind_same (module_export_name _) fun _ => .bind_same (module_export_name _) fun _ => ?_
  split
  · exact .throw _
  · refine .bind_same (.info n) fun _ => .bind_same (.info _) fun _ => .pure ?_
    exact .node rfl rfl (by omega) (.node (.leaf rfl (by omega)) (.same rfl (.same rfl .nil)))

omit h in
/-- A part of an import is a name, or entries that are each one level above their names. -/
theorem import_part :
    Pairs k (Thinned (Node.Capped (5 * k + 5))) (importPart n) (importPart n) := by
  have hspecifier : ∀ (n tree : ParseTree) (propertyName : Option Text) (isNamespace : Bool),
      Pairs k (Thinned (Node.Capped (5 * k + 5)))
        (MakeSyntax.info n >>= fun i => MakeSyntax.identifier tree >>= fun name =>
          Pure.pure [Node.importSpecifier i name propertyName isNamespace])
        (MakeSyntax.info n >>= fun i => MakeSyntax.identifier tree >>= fun name =>
          Pure.pure [Node.importSpecifier i name propertyName isNamespace]) :=
    fun n tree _ _ => by
      refine .bind_same (.info n) fun _ => ?_
      refine .bind (identifier tree (by omega : 1 ≤ 5 * k + 4)) fun _ _ hname => .pure ?_
      exact .cons (.node rfl rfl (by omega) (.node hname (.same rfl (.same rfl .nil)))) .nil
  unfold importPart
  split
  · exact hspecifier n n _ _
  · split
    · exact hspecifier n _ _ _
    · exact .pure .nil
  · exact .mapM_thinned import_specifier _
  · exact .pure .nil

/-- An import is one level above its entries. -/
theorem import_statement :
    Pairs k (Node.Capped (5 * k + 6)) (m.importStatement n) (m.importStatement n) := by
  unfold importStatement
  split
  · exact .mono (h.unknown n) fun _ _ hq => hq.mono (by omega)
  · dsimp only
    refine .bind (.mapM import_part _) fun _ _ hparts => .bind_same (.string_text _) fun _ => ?_
    refine .bind_same (.info n) fun _ => .pure (.node rfl rfl (by omega) ?_)
    exact .same rfl (.nodes (.flatten hparts) .nil)

/-- A function is one level above its parameters and its body. -/
theorem function_declaration :
    Pairs k (Node.Capped (5 * k + 6)) (m.functionDeclaration n) (m.functionDeclaration n) := by
  unfold Makers.functionDeclaration
  refine .bind (optional_identifier _ (by omega : 1 ≤ 5 * k + 5)) fun _ _ hname => ?_
  refine .bind (h.parameters n) fun _ _ hps => .bind (h.optional_block _) fun _ _ hbody => ?_
  refine .bind_same (.info n) fun _ => .pure (.node rfl rfl (by omega) ?_)
  exact .optional hname (.nodes hps
    (.optional (hbody.mono fun _ _ h => h.mono (by omega)) (.same rfl .nil)))

omit h in
/-- A class is one level above its name. -/
theorem class_declaration :
    Pairs k (Node.Capped (5 * k + 6)) (classDeclaration n) (classDeclaration n) := by
  unfold classDeclaration
  refine .bind_same (.info n) fun _ => ?_
  refine .bind (optional_identifier _ (by omega : 1 ≤ 5 * k + 5)) fun _ _ hname => .pure ?_
  exact .node rfl rfl (by omega) (.optional hname (.same rfl .nil))

/-- A type alias is one level above its type. -/
theorem type_alias_declaration :
    Pairs k (Node.Capped (5 * k + 6)) (m.typeAliasDeclaration n) (m.typeAliasDeclaration n) := by
  unfold Makers.typeAliasDeclaration
  split
  · refine .bind_same (.info n) fun _ => ?_
    refine .bind (identifier _ (by omega : 1 ≤ 5 * k + 5)) fun _ _ hname => ?_
    refine .bind (h.type k _) fun _ _ htype => .pure (.node rfl rfl (by omega) ?_)
    exact .node hname (.node (htype.mono (by omega)) (.same rfl .nil))
  · exact .mono (h.unknown n) fun _ _ hq => hq.mono (by omega)

/-- An interface is one level above its members. -/
theorem interface_declaration :
    Pairs k (Node.Capped (5 * k + 6)) (m.interfaceDeclaration n) (m.interfaceDeclaration n) := by
  unfold Makers.interfaceDeclaration
  split
  · exact .mono (h.unknown n) fun _ _ hq => hq.mono (by omega)
  · next tree _ =>
      have hend : ∀ as bs, Thinned (Node.Capped (5 * k + 3)) as bs →
          Pairs k (Node.Capped (5 * k + 6))
            (MakeSyntax.info n >>= fun i => MakeSyntax.identifier tree >>= fun name =>
              Pure.pure (Node.interfaceDeclaration i name as false))
            (MakeSyntax.info n >>= fun i => MakeSyntax.identifier tree >>= fun name =>
              Pure.pure (Node.interfaceDeclaration i name bs false)) := fun as bs hall => by
        refine .bind_same (.info n) fun _ => ?_
        refine .bind (identifier _ (by omega : 1 ≤ 5 * k + 5)) fun _ _ hname => .pure ?_
        exact .node rfl rfl (by omega) (.node hname
          (.nodes (hall.mono fun _ _ h => h.mono (by omega)) (.same rfl .nil)))
      dsimp only
      split
      · exact .bind (h.property_signatures _) hend
      · exact .bind (.pure .nil) hend

/-- A member of an enum is one level above its name and its value. -/
theorem make_enum_member :
    Pairs k (Node.Capped (5 * k + 3)) (m.makeEnumMember n) (m.makeEnumMember n) := by
  unfold makeEnumMember
  split
  · refine .bind (h.property_name _) fun _ _ hname => ?_
    refine .bind (h.optional_expression _) fun _ _ hinit => .bind_same (.info n) fun _ => .pure ?_
    exact .node rfl rfl (by omega)
      (.node hname (.optional (hinit.mono fun _ _ h => h.mono (by omega)) .nil))
  · refine .bind_same (.info n) fun _ => .bind (h.property_name _) fun _ _ hname => .pure ?_
    exact .node rfl rfl (by omega) (.node hname (.optional .nil .nil))

/-- An enum is one level above its members. -/
theorem enum_declaration :
    Pairs k (Node.Capped (5 * k + 6)) (m.enumDeclaration n) (m.enumDeclaration n) := by
  unfold Makers.enumDeclaration
  split
  · exact .mono (h.unknown n) fun _ _ hq => hq.mono (by omega)
  · next tree _ =>
      have hend : ∀ as bs, Thinned (Node.Capped (5 * k + 3)) as bs →
          Pairs k (Node.Capped (5 * k + 6))
            (MakeSyntax.info n >>= fun i => MakeSyntax.identifier tree >>= fun name =>
              Pure.pure (Node.enumDeclaration i name as (n.hasToken "const") false))
            (MakeSyntax.info n >>= fun i => MakeSyntax.identifier tree >>= fun name =>
              Pure.pure (Node.enumDeclaration i name bs (n.hasToken "const") false)) :=
        fun as bs hall => by
          refine .bind_same (.info n) fun _ => ?_
          refine .bind (identifier _ (by omega : 1 ≤ 5 * k + 5)) fun _ _ hname => .pure ?_
          exact .node rfl rfl (by omega) (.node hname
            (.nodes (hall.mono fun _ _ h => h.mono (by omega)) (.same rfl (.same rfl .nil))))
      dsimp only
      split
      · exact .bind (.mapM_thinned h.make_enum_member _) hend
      · exact .bind (.pure .nil) hend

omit h in
/-- The name of a namespace has no children. -/
theorem module_name (hpos : 1 ≤ bound) :
    Pairs k (Node.Capped bound) (moduleName n) (moduleName n) := by
  unfold moduleName
  split
  · exact string n hpos
  · exact .bind_same (.text n) fun _ => .bind_same (.info n) fun _ => .pure (.leaf rfl hpos)
  · exact identifier n hpos

/-- A namespace is one level above its body. -/
theorem module_declaration :
    Pairs k (Node.Capped (5 * k + 6)) (m.moduleDeclaration n) (m.moduleDeclaration n) := by
  unfold Makers.moduleDeclaration
  split
  · exact .mono (h.unknown n) fun _ _ hq => hq.mono (by omega)
  · refine .bind (module_name _ (by omega : 1 ≤ 5 * k + 5)) fun _ _ hname => ?_
    refine .bind (h.optional_block _) fun _ _ hbody => .bind_same (.info n) fun _ => .pure ?_
    exact .node rfl rfl (by omega) (.node hname
      (.optional (hbody.mono fun _ _ h => h.mono (by omega)) (.same rfl .nil)))

/-- A statement is one level above its expression, or is the namespace written in its place. -/
theorem expression_statement :
    Pairs k (fun s t => Thinned (Node.Capped (5 * k + 6)) s.toList t.toList)
      (m.expressionStatement n) (m.expressionStatement n) := by
  unfold Makers.expressionStatement
  split
  · exact .pure .nil
  · split
    · exact .bind (h.module_declaration _) fun _ _ hq => .pure (.cons hq .nil)
    · refine .bind_same (.info n) fun _ => .bind (h.expression k _) fun _ _ he => .pure ?_
      exact .cons (.node rfl rfl (by omega) (.node (he.mono (by omega)) .nil)) .nil

/-- A declaration without a value stays capped when it is marked. -/
theorem ambient_declaration :
    Pairs k (fun s t => Thinned (Node.Capped (5 * k + 6)) s.toList t.toList)
      (m.ambientDeclaration n) (m.ambientDeclaration n) := by
  unfold ambientDeclaration
  split
  · exact .pure .nil
  · refine .bind (h.statement k _) fun _ _ hs => .pure (marked_option is_mark_ambient ?_)
    exact hs.mono fun _ _ h => h.mono (by omega)

/-- The left side of a loop is a declaration one level above its pattern, or an expression. -/
theorem loop_target (isDeclared : Bool) (left : Option ParseTree) :
    Pairs k (Node.Capped (5 * k + 5)) (m.loopTarget isDeclared left)
      (m.loopTarget isDeclared left) := by
  unfold loopTarget
  split
  · refine .bind (h.binding_name_or_missing _) fun e f hname => ?_
    have hend : ∀ i : Info, Pairs k (Node.Capped (5 * k + 5))
        (Pure.pure (Node.variableDeclaration i e none none))
        (Pure.pure (Node.variableDeclaration i f none none)) := fun i => .pure
      (.node rfl rfl (by omega) (.node hname.capped (.optional .nil (.optional .nil .nil))))
    dsimp only
    split
    · exact .bind_same (.info _) hend
    · exact .bind_same (.pure rfl) hend
  · exact .mono (h.expression_or_missing _) fun _ _ he => he.mono (by omega)

/-- A loop is one level above its left side, its expression and its body. -/
theorem for_in_statement :
    Pairs k (Node.Capped (5 * k + 6)) (m.forInStatement n) (m.forInStatement n) := by
  unfold Makers.forInStatement
  dsimp only
  refine .bind (h.loop_target _ _) fun init init' hinit => ?_
  refine .bind (h.expression_or_missing _) fun e f he => ?_
  have hend : ∀ s t : Option Node, Thinned (Node.Capped (5 * k + 1)) s.toList t.toList →
      Pairs k (Node.Capped (5 * k + 6))
        (if n.hasToken "of" then MakeSyntax.info n >>= fun i =>
          Pure.pure (Node.forOfStatement i init e s (loopKeyword? n))
        else MakeSyntax.info n >>= fun i =>
          Pure.pure (Node.forInStatement i init e s (loopKeyword? n)))
        (if n.hasToken "of" then MakeSyntax.info n >>= fun i =>
          Pure.pure (Node.forOfStatement i init' f t (loopKeyword? n))
        else MakeSyntax.info n >>= fun i =>
          Pure.pure (Node.forInStatement i init' f t (loopKeyword? n))) := fun s t hst => by
    have hfields : ∀ rows : List (String × Field), (∀ row ∈ rows, row.2.contents = []) →
        FieldsCut (Node.Capped (5 * k + 5))
          ([("initializer", .node init), ("expression", .node e),
            ("statement", .optionalNode s)] ++ rows)
          ([("initializer", .node init'), ("expression", .node f),
            ("statement", .optionalNode t)] ++ rows) := fun rows hrows => by
      have hrest := FieldsCut.append_plain (R := Node.Capped (5 * k + 5)) hrows .nil
      rw [List.append_nil] at hrest
      exact .node hinit (.node (he.mono (by omega))
        (.optional (hst.mono fun _ _ h => h.mono (by omega)) hrest))
    split
    · refine .bind_same (.info n) fun _ => .pure (.node rfl rfl (by omega) ?_)
      exact hfields [_] (by simp [Field.contents])
    · refine .bind_same (.info n) fun _ => .pure (.node rfl rfl (by omega) ?_)
      exact hfields [_] (by simp [Field.contents])
  split
  · exact .bind (h.statement k _) hend
  · exact .bind (.pure .nil) hend

/-- A catch clause is one level above its declaration and its body. -/
theorem catch_clause :
    Pairs k (Node.Capped (5 * k + 6)) (m.catchClause n) (m.catchClause n) := by
  have hend : ∀ s t : Option Node, Thinned (Node.Capped (5 * k + 5)) s.toList t.toList →
      Pairs k (Node.Capped (5 * k + 6))
        (m.optionalBlock (n.child? "body") >>= fun body => MakeSyntax.info n >>= fun i =>
          Pure.pure (Node.catchClause i s body))
        (m.optionalBlock (n.child? "body") >>= fun body => MakeSyntax.info n >>= fun i =>
          Pure.pure (Node.catchClause i t body)) := fun s t hst => by
    refine .bind (h.optional_block _) fun _ _ hbody => .bind_same (.info n) fun _ => .pure ?_
    exact .node rfl rfl (by omega)
      (.optional hst (.optional (hbody.mono fun _ _ h => h.mono (by omega)) .nil))
  unfold Makers.catchClause
  dsimp only
  split
  · refine .bind (h.bindingName k _) fun _ _ hname => ?_
    refine .bind (h.type_annotation _) fun _ _ htype => .bind_same (.info _) fun _ => ?_
    refine .bind (.pure ?_) hend
    exact .cons (.node rfl rfl (by omega) (.node hname.capped
      (.optional (htype.mono fun _ _ h => h.mono (by omega)) (.optional .nil .nil)))) .nil
  · exact .bind (.pure .nil) hend

omit n in
/-- A statement of any type of tree is capped at what one level more allows. -/
theorem statement_of_type {n : ParseTree} {make : MakeSyntax (Option Node)}
    (hmake : m.statementOfType? n = some make) :
    Pairs k (fun s t => Thinned (Node.Capped (5 * k + 6)) s.toList t.toList) make make := by
  unfold statementOfType? at hmake
  split at hmake <;> try obtain rfl := Option.some.inj hmake
  · exact h.expression_statement n
  · exact some_of (h.variable_statement n _)
  · exact some_of (h.variable_statement n _)
  · exact h.ambient_declaration n
  · exact h.export_statement n
  · exact some_of (h.import_statement n)
  · exact some_of (h.function_declaration n)
  · exact some_of (h.function_declaration n)
  · exact some_of (h.function_declaration n)
  · exact some_of (class_declaration n)
  · exact some_of (class_declaration n)
  · exact some_of (h.type_alias_declaration n)
  · exact some_of (h.interface_declaration n)
  · exact some_of (h.enum_declaration n)
  · exact some_of (h.module_declaration n)
  · exact some_of (h.module_declaration n)
  · exact some_of (h.for_in_statement n)
  · exact some_of (h.catch_clause n)
  · exact some_of (.mono (h.block n) fun _ _ hq => hq.mono (by omega))
  · cases hmake

/-! ## One level up -/

omit h in
/-- What is left of a tree that is cut off is a stub. -/
theorem is_stub_cut_off (i : Info) : (cutOff n i).IsStub := trivial

omit h in
/-- What is left of a type that is cut off is a stub. -/
theorem is_stub_cut_off_type (i : Info) : (cutOffType n i).IsStub := trivial

omit h in
/-- A statement of a tree with other trees in it is missing only if the tree is an export or an
ambient declaration. -/
theorem leaves_nothing {n : ParseTree} {make : MakeSyntax (Option Node)}
    (hmake : m.statementOfType? n = some make) :
    Makes (fun s => s = none → n.named = [] ∨ n.type = "export_statement" ∨
      n.type = "ambient_declaration") make := by
  have hsome : ∀ make : MakeSyntax Node, Makes (fun s => s = none → n.named = [] ∨
      n.type = "export_statement" ∨ n.type = "ambient_declaration") (some <$> make) :=
    fun _ => .map (.any _) fun _ _ => nofun
  unfold statementOfType? at hmake
  split at hmake <;> try obtain rfl := Option.some.inj hmake
  case h_1 =>
    unfold Makers.expressionStatement
    split
    · next hfirst => exact .pure fun _ => .inl (List.head?_eq_none_iff.mp hfirst)
    · split
      · exact .bind (.any _) fun _ _ => .pure nofun
      · exact .bind (.any _) fun _ _ => .bind (.any _) fun _ _ => .pure nofun
  case h_4 htype => exact .mono (.any _) fun _ _ _ => .inr (.inr htype)
  case h_5 htype => exact .mono (.any _) fun _ _ _ => .inr (.inl htype)
  case h_20 => cases hmake
  all_goals exact hsome _

/-- What is left of a tree whose statement is missing stays within the bound of the levels left,
since one level of it does not count. -/
theorem unknown_of_nothing (hn : n.named = [] ∨ n.type = "export_statement" ∨
    n.type = "ambient_declaration") :
    Pairs k (Node.Capped (5 * k + 1)) (m.unknown n) (m.unknown n) := by
  unfold Makers.unknown
  rcases hn with hnone | htype
  · rw [hnone, List.mapM_nil, pure_bind]
    exact .bind_same (.info n) fun _ => .pure (.leaf rfl (by omega))
  · refine .bind (.mapM_thinned (h.generic k) _) fun as bs hchildren => ?_
    refine .bind_same (.info n) fun i => .pure ⟨?_, ?_⟩
    · exact .node rfl rfl (.same rfl (.nodes (hchildren.mono fun _ _ h => h.cut) .nil))
    · have hleftover : (Node.unknown i (symbol n) as).isLeftover := by
        rcases htype with htype | htype <;> simp [isLeftover, symbol, htype]
      refine .of_children (by omega) fun c hc => ⟨5 * k + 1, ?_, ?_⟩
      · have hc : c ∈ as := by simpa [Node.children_eq, fields, Field.contents] using hc
        rcases hchildren.exists_of_mem hc with ⟨_, hc⟩ | hc
        · exact hc.within
        · exact .leaf hc.children_eq (by omega)
      · have hone := uncounted_of_leftover hleftover c
        omega

omit n in
/-- One level up, the ways to make syntax are still capped. -/
theorem above : m.above.Capped where
  statement k n := by
    show Pairs k _ (m.makeStatement n) (m.makeStatement n)
    unfold makeStatement
    split
    · exact .pure .nil
    · refine .guarded (fun i b => Thinned.single_iff.mpr (.inr (is_stub_cut_off n i))) ?_
      rintro j rfl
      split
      · next hmake => exact h.statement_of_type hmake
      · exact some_of (.mono (h.unknown n) fun _ _ hq => hq.mono (by omega))
  generic k n := by
    show Pairs k _ (m.makeGeneric n) (m.makeGeneric n)
    unfold makeGeneric
    split
    · next make hmake =>
        have hpairs : Pairs k (fun s t => Thinned (Node.Capped (5 * k + 1)) s.toList t.toList)
            (guarded n (fun i => some (cutOff n i)) make)
            (guarded n (fun i => some (cutOff n i)) make) :=
          .guarded (fun i b => Thinned.single_iff.mpr (.inr (is_stub_cut_off n i))) fun j hj =>
            hj ▸ h.statement_of_type hmake
        have hstatement := hpairs.and_makes (.guarded (fun i => nofun) (leaves_nothing hmake))
        refine .bind hstatement fun s t ⟨hst, hnothing⟩ => ?_
        cases s with
        | none =>
            cases t with
            | none => exact h.unknown_of_nothing n (hnothing rfl)
            | some b => cases hst
        | some a =>
            rcases Thinned.single_iff.mp hst with ⟨b, hb, hab⟩ | hstub
            · cases t with
              | none => cases hb
              | some c =>
                  obtain rfl : c = b := by simpa using hb
                  exact .pure hab
            · exact .pure_left fun b => .stub hstub b (by omega)
    · exact h.expression k n
  expression k n := .guarded (fun i b => .stub (is_stub_cut_off n i) b (by omega)) fun j hj =>
    hj ▸ h.expression_of_type n
  type k n := .guarded (fun i b => .stub (is_stub_cut_off_type n i) b (by omega)) fun j hj =>
    hj ▸ h.type_of_type n
  bindingName k n := h.make_binding_name n
  bindingElement k n := h.make_binding_element n

end Capped

/-- The ways to make syntax of any depth are capped. -/
theorem capped_of_depth (depth : Nat) : (ofDepth depth).Capped := by
  induction depth with
  | zero => exact ⟨fun _ _ => .throw _, fun _ _ => .throw _, fun _ _ => .throw _,
      fun _ _ => .throw _, fun _ _ => .throw _, fun _ _ => .throw _⟩
  | succ depth ih => exact ih.above

end MakeSyntax.Makers

namespace SourceFile

variable {depth : Nat} {ctx : SyntaxContext} {limit : Int} {anomalies anomalies' rest rest' :
  List Anomaly}

/-- A statement stays within the bound of the levels left. -/
theorem within_of_statement_from {tree : ParseTree} {s : Option Node}
    (hlevels : ctx.maxNesting ≤ ctx.nesting + k)
    (h : statementFrom depth ctx anomalies tree = .ok (s, rest)) :
    ∀ q ∈ s, q.StaysWithin (5 * k + 1) := by
  unfold statementFrom at h
  split at h
  · next hrun =>
      obtain ⟨rfl, rfl⟩ := Prod.mk.inj (Except.ok.inj h)
      -- the same run is one under a limit that is no smaller
      have hself := (Makers.capped_of_depth depth).statement k tree ctx ctx.maxNesting
        (Int.le_refl _) hlevels anomalies anomalies _ _ _ _ hrun hrun
      intro q hq
      rcases hself.exists_of_mem (Option.mem_toList.mpr hq) with ⟨_, hq⟩ | hq
      · exact hq.within
      · exact .leaf hq.children_eq (by omega)
  · obtain ⟨rfl, _⟩ := Prod.mk.inj (Except.ok.inj h)
    rintro q ⟨⟩
    exact .leaf rfl (by omega)
  · cases h

/-- All statements stay within it. -/
theorem within_of_statements_from {trees : List ParseTree} {statements : List Node}
    (hlevels : ctx.maxNesting ≤ ctx.nesting + k)
    (h : statementsFrom depth ctx anomalies trees = .ok (statements, rest)) :
    ∀ q ∈ statements, q.StaysWithin (5 * k + 1) := by
  induction trees generalizing anomalies statements with
  | nil =>
      obtain ⟨rfl, rfl⟩ := Prod.mk.inj (Except.ok.inj h)
      simp
  | cons tree trees ih =>
      obtain ⟨⟨s, noted⟩, hstatement, h⟩ := bind_eq_ok_iff.mp h
      obtain ⟨⟨following, last⟩, hfollowing, h⟩ := bind_eq_ok_iff.mp h
      obtain ⟨rfl, rfl⟩ := Prod.mk.inj (Except.ok.inj h)
      refine List.forall_mem_append.mpr ⟨fun q hq => ?_, ih hfollowing⟩
      exact within_of_statement_from hlevels hstatement q (Option.mem_toList.mp hq)

/-- A statement is cut from the one that is made under a greater limit without a cut. -/
theorem statement_from_cut {tree : ParseTree} {s t : Option Node} (hle : ctx.maxNesting ≤ limit)
    (h : statementFrom depth ctx anomalies tree = .ok (s, rest))
    (hwhole : statementFrom depth (ctx.under limit) anomalies' tree = .ok (t, rest'))
    (huncut : ¬ IsCut rest') : Thinned CutFrom s.toList t.toList := by
  unfold statementFrom at h hwhole
  split at hwhole
  · next hother =>
      obtain ⟨rfl, rfl⟩ := Prod.mk.inj (Except.ok.inj hwhole)
      split at h
      · next hrun =>
          obtain ⟨rfl, rfl⟩ := Prod.mk.inj (Except.ok.inj h)
          have hlevels : ctx.maxNesting ≤ ctx.nesting + (ctx.maxNesting - ctx.nesting).toNat := by
            omega
          exact ((Makers.capped_of_depth depth).statement _ tree ctx limit hle hlevels anomalies
            anomalies' _ _ _ _ hrun hother).mono fun _ _ h => h.cut
      · obtain ⟨rfl, _⟩ := Prod.mk.inj (Except.ok.inj h)
        exact Thinned.single_iff.mpr (.inr (Makers.Capped.is_stub_cut_off tree _))
      · cases h
  · obtain ⟨-, rfl⟩ := Prod.mk.inj (Except.ok.inj hwhole)
    exact absurd (is_cut_note tree tooDeepDetail (ctx.under limit) _) huncut
  · cases hwhole

/-- All statements are cut from those that are made under a greater limit without a cut. -/
theorem statements_from_cut {trees : List ParseTree} {statements others : List Node}
    (hle : ctx.maxNesting ≤ limit)
    (h : statementsFrom depth ctx anomalies trees = .ok (statements, rest))
    (hwhole : statementsFrom depth (ctx.under limit) anomalies' trees = .ok (others, rest'))
    (huncut : ¬ IsCut rest') : Thinned CutFrom statements others := by
  induction trees generalizing anomalies anomalies' statements others with
  | nil =>
      obtain ⟨rfl, rfl⟩ := Prod.mk.inj (Except.ok.inj h)
      obtain ⟨rfl, rfl⟩ := Prod.mk.inj (Except.ok.inj hwhole)
      exact .nil
  | cons tree trees ih =>
      obtain ⟨⟨s, noted⟩, hstatement, h⟩ := bind_eq_ok_iff.mp h
      obtain ⟨⟨following, last⟩, hfollowing, h⟩ := bind_eq_ok_iff.mp h
      obtain ⟨rfl, rfl⟩ := Prod.mk.inj (Except.ok.inj h)
      obtain ⟨⟨t, noted'⟩, hother, hwhole⟩ := bind_eq_ok_iff.mp hwhole
      obtain ⟨⟨following', last'⟩, hothers, hwhole⟩ := bind_eq_ok_iff.mp hwhole
      obtain ⟨rfl, rfl⟩ := Prod.mk.inj (Except.ok.inj hwhole)
      have hkept := (statements_from_unseen limit hothers).1
      exact (statement_from_cut hle hstatement hother fun hcut => huncut (hkept hcut)).append
        (ih hfollowing hothers)

/-- No way down a file has more levels than the limit allows and those that do not count. A file
with nothing cut off under a greater limit is the same under this one, or it is cut off, which is
noted. -/
theorem nesting_capped {bytes : List UInt8} {fileName : Text} {parsed : ParsedSource}
    {file : SourceFile} {limit : Int} (hlimit : 0 ≤ limit)
    (h : ofParsed bytes fileName limit parsed = .ok file) :
    (∀ way, IsWay (file.toNode :: way) →
      (way.length : Int) ≤ 6 * (limit + 1) + uncountedAlong (file.toNode :: way)) ∧
    ∀ limit' whole, limit ≤ limit' → ofParsed bytes fileName limit' parsed = .ok whole →
      (∀ a ∈ whole.anomalies, a.reason ≠ .nestingTooDeep) →
      file.toNode.CutFrom whole.toNode ∧
        (file ≠ whole → ∃ a ∈ file.anomalies, a.reason = .nestingTooDeep) := by
  obtain ⟨⟨statements, anomalies⟩, hstatements, hfile⟩ := bind_eq_ok_iff.mp h
  obtain rfl := Except.ok.inj hfile
  constructor
  · intro way hway
    have hlevels : limit ≤ ((0 : Nat) : Int) + limit.toNat := by omega
    cases way with
    | nil => exact Int.add_nonneg (by omega) (Int.natCast_nonneg _)
    | cons c rest =>
        obtain ⟨hc, hrest⟩ := List.isChain_cons_cons.mp hway
        have hc : c ∈ statements := by
          simpa [toNode, Node.children_eq, fields, Field.contents] using hc
        have hwithin := within_of_statements_from hlevels hstatements c hc rest hrest
        simp only [uncountedAlong]
        omega
  · intro limit' whole hle hother hwhole
    refine ⟨?_, fun hne => ?_⟩
    · obtain ⟨⟨others, anomalies'⟩, hothers, hfile'⟩ := bind_eq_ok_iff.mp hother
      obtain rfl := Except.ok.inj hfile'
      have huncut : ¬ IsCut anomalies' := by
        rintro ⟨a, ha, hreason⟩
        exact hwhole a (List.mem_append_right _ ha) hreason
      have hcut := statements_from_cut hle hstatements hothers huncut
      exact .node rfl rfl (.same rfl (.nodes hcut .nil))
    · by_contra hnone
      have hsame := of_parsed_unseen hle h fun hcut => hnone hcut
      exact hne (Except.ok.inj (hsame.symm.trans hother))

/-- A name in a statement is cut off if one level is allowed, and not if there are two. -/
theorem nesting_capped_at_name :
    let tree := ParseTree.node "program" true 0 1 none
      [.node "expression_statement" true 0 1 none [.node "identifier" true 0 1 none []]]
    ∃ file whole, (0 : Int) ≤ 1 ∧ ofParsed (Utf8.encode (Text.ofString "a"))
        (Text.ofString "a.ts") 1 ⟨tree, false⟩ = .ok file ∧
      ofParsed (Utf8.encode (Text.ofString "a")) (Text.ofString "a.ts") 2 ⟨tree, false⟩ =
        .ok whole ∧
      (∀ way, IsWay (file.toNode :: way) →
        (way.length : Int) ≤ 6 * (1 + 1) + uncountedAlong (file.toNode :: way)) ∧
      file.toNode.CutFrom whole.toNode ∧ ∃ a ∈ file.anomalies, a.reason = .nestingTooDeep := by
  intro tree
  obtain ⟨file, hfile, hnoted⟩ : ∃ file, ofParsed (Utf8.encode (Text.ofString "a"))
      (Text.ofString "a.ts") 1 ⟨tree, false⟩ = .ok file ∧ file.anomalies.length = 1 :=
    exists_ok_of_any (by decide)
  obtain ⟨whole, hwhole, hnothing⟩ : ∃ whole, ofParsed (Utf8.encode (Text.ofString "a"))
      (Text.ofString "a.ts") 2 ⟨tree, false⟩ = .ok whole ∧ whole.anomalies = [] :=
    exists_ok_of_any (by decide)
  obtain ⟨hways, hcut⟩ := nesting_capped (by decide) hfile
  obtain ⟨hfrom, hreason⟩ := hcut 2 whole (by decide) hwhole (by simp [hnothing])
  refine ⟨file, whole, by decide, hfile, hwhole, hways, hfrom, hreason fun heq => ?_⟩
  rw [heq, hnothing] at hnoted
  cases hnoted

/-- Steps down to children are a way. -/
theorem exists_way_of_steps {n q : Node} {steps : List Nat}
    (h : steps.foldlM (fun n i => n.children[i]?) n = some q) :
    ∃ way, IsWay (n :: way) ∧ way.length = steps.length := by
  induction steps generalizing n with
  | nil => exact ⟨[], .singleton n, rfl⟩
  | cons i steps ih =>
      obtain ⟨c, hc, h⟩ := Option.bind_eq_some_iff.mp h
      obtain ⟨way, hway, hlength⟩ := ih h
      refine ⟨c :: way, List.isChain_cons_cons.mpr ⟨List.mem_of_getElem? hc, hway⟩, ?_⟩
      rw [List.length_cons, List.length_cons, hlength]

/-- A pattern in patterns is made however deep it is, and nothing is noted. -/
theorem patterns_beyond_limit :
    let token (type : String) (start : Nat) := ParseTree.node type false start (start + 1) none []
    let inside (start : Nat) (inner : ParseTree) (field : Option String) :=
      ParseTree.node "array_pattern" true start (21 - start) field
        [token "[" start, inner, token "]" (20 - start)]
    let name := ParseTree.node "identifier" true 10 11 none []
    let pattern := inside 4 (inside 5 (inside 6 (inside 7 (inside 8 (inside 9 name none) none) none)
      none) none) (some "name")
    let tree := ParseTree.node "program" true 0 17 none
      [.node "lexical_declaration" true 0 17 none
        [.node "let" false 0 3 none [], .node "variable_declarator" true 4 17 none [pattern]]]
    ∃ file, ofParsed (Utf8.encode (Text.ofString "let [[[[[[a]]]]]]")) (Text.ofString "a.ts") 1
        ⟨tree, false⟩ = .ok file ∧ (∀ a ∈ file.anomalies, a.reason ≠ .nestingTooDeep) ∧
      ∃ way, IsWay (file.toNode :: way) ∧ 6 * (1 + 1) < way.length := by
  intro token inside name pattern tree
  obtain ⟨file, hfile, hnone, hdeep⟩ : ∃ file,
      ofParsed (Utf8.encode (Text.ofString "let [[[[[[a]]]]]]")) (Text.ofString "a.ts") 1
        ⟨tree, false⟩ = .ok file ∧ (∀ a ∈ file.anomalies, a.reason ≠ .nestingTooDeep) ∧
      ((List.replicate 13 0).foldlM (fun n i => n.children[i]?) file.toNode).isSome :=
    exists_ok_of_any (by decide)
  obtain ⟨q, hq⟩ := Option.isSome_iff_exists.mp hdeep
  obtain ⟨way, hway, hlength⟩ := exists_way_of_steps hq
  exact ⟨file, hfile, hnone, way, hway, by rw [hlength]; decide⟩

end SourceFile

end StaticLiteral
