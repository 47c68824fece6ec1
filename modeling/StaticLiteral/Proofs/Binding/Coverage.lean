import StaticLiteral.Proofs.Binding.Patterns
import StaticLiteral.Proofs.Program.Keys

/-!
# What binding comes to

Of a well-formed tree, binding comes to every identifier that is no name, and to every object or
type literal, unless it is inside of something that stands for the name of a declaration and was not
understood: `visits_of_exposed`. Each kind of node has its steps, and the steps have to meet every
child that may hold such a part.
-/

namespace StaticLiteral

/-- Whether binding records something for the node: a scope, a symbol or an export. -/
def Node.isRecorded : Node → Bool
  | .identifier .. | .objectLiteral .. | .typeLiteral .. => true
  | .variableStatement .. | .functionDeclaration .. | .classDeclaration .. => true
  | .typeAliasDeclaration .. | .interfaceDeclaration .. | .enumDeclaration .. => true
  | .moduleDeclaration .. | .exportDeclaration .. | .exportAssignment .. => true
  | .functionExpression .. | .forInStatement .. | .forOfStatement .. | .catchClause .. => true
  | _ => false

namespace Binding

open Node

/-- In a tree, the part has something recorded; if it is an identifier it is no name, and it is not
inside of something that was declared and not understood. -/
structure Exposed (n m : Node) : Prop where
  recorded : m.isRecorded
  unnamed : m.role = .name → ∀ q ∈ n.parts, m ∉ q.names
  known : ∀ q ∈ n.parts, ∀ u ∈ q.declaredNames, u.role = .unknown → m ∉ u.parts

/-- One of the steps binds a tree that the node is in. -/
def Meets (m : Node) (steps : List Step) : Prop :=
  ∃ target part, .visit target part ∈ steps ∧ m ∈ part.parts

variable {site target inner : Site} {manner : Manner} {n m c q name declaration : Node}
  {taken more : List Step}

namespace Exposed

/-- A part that is exposed is exposed in every tree around it. -/
theorem of_mem_parts (h : Exposed n m) (hq : q ∈ n.parts) : Exposed q m where
  recorded := h.recorded
  unnamed hrole r hr := h.unnamed hrole r (parts_subset hq hr)
  known r hr := h.known r (parts_subset hq hr)

/-- A part that is exposed is exposed in the child that it is in. -/
theorem of_mem_children (h : Exposed n m) (hc : c ∈ n.children) : Exposed c m :=
  h.of_mem_parts (parts_subset_of_mem_children hc (mem_parts_self c))

/-- What is recorded is an identifier or plays no role in other nodes. -/
theorem role_cases (h : Exposed n m) : m.role = .name ∨ m.role = .other := by
  have hrecorded := h.recorded
  cases m <;> simp_all [isRecorded, role]

/-- An identifier that is a name is not exposed. -/
theorem not_mem_name (h : Exposed n m) (hname : name ∈ n.names) (hrole : name.role = .name) :
    m ∉ name.parts := by
  intro hm
  obtain rfl := List.mem_singleton.mp (parts_of_name hrole ▸ hm)
  exact h.unnamed hrole n (mem_parts_self n) hname

/-- A node in some other role is not exposed itself, so what is exposed in it is in a child. -/
theorem exists_child (h : Exposed n m) (hm : m ∈ n.parts) (hn : n.isRecorded = false) :
    ∃ c ∈ n.children, m ∈ c.parts := by
  rw [parts_eq] at hm
  rcases List.mem_cons.mp hm with rfl | hm
  · exact absurd h.recorded (by simp [hn])
  · exact List.mem_flatMap.mp hm

end Exposed

namespace Meets

/-- Steps behind others meet what they meet. -/
theorem append_right (h : Meets m taken) : Meets m (more ++ taken) := by
  obtain ⟨target, part, hstep, hm⟩ := h
  exact ⟨target, part, List.mem_append_right _ hstep, hm⟩

/-- Steps before others meet what they meet. -/
theorem append_left (h : Meets m taken) : Meets m (taken ++ more) := by
  obtain ⟨target, part, hstep, hm⟩ := h
  exact ⟨target, part, List.mem_append_left _ hstep, hm⟩

/-- Steps behind another one meet what they meet. -/
theorem cons {step : Step} (h : Meets m taken) : Meets m (step :: taken) := by
  obtain ⟨target, part, hstep, hm⟩ := h
  exact ⟨target, part, List.mem_cons_of_mem _ hstep, hm⟩

/-- The steps of several nodes meet what those of one of them meet. -/
theorem flat_map {f : Node → List Step} {ns : List Node} (hc : c ∈ ns) (h : Meets m (f c)) :
    Meets m (ns.flatMap f) := by
  obtain ⟨target, part, hstep, hm⟩ := h
  exact ⟨target, part, List.mem_flatMap.mpr ⟨c, hc, hstep⟩, hm⟩

/-- A step that binds a tree meets what is in it. -/
theorem visit (hm : m ∈ n.parts) : Meets m (.visit target n :: taken) :=
  ⟨target, n, List.mem_cons_self, hm⟩

end Meets

/-- Nodes that are bound side by side are met. -/
theorem meets_visit_all {ns : List Node} (hc : c ∈ ns) (hm : m ∈ c.parts) :
    Meets m (visitAll site ns) :=
  ⟨site, c, List.mem_map_of_mem hc, hm⟩

/-- What is exposed in a body is met. -/
theorem meets_body (hexposed : Exposed n m) (hm : m ∈ n.parts) :
    Meets m (bodySteps site (some n)) := by
  cases n with
  | block i statements =>
      obtain ⟨c, hc, hm⟩ := hexposed.exists_child hm rfl
      exact meets_visit_all (by simpa [children_eq, fields, Field.contents] using hc) hm
  | _ => exact .visit hm

/-- What is exposed in a name or a pattern that something declares is met. -/
theorem meets_pattern (hexposed : Exposed q m) (hname : name ∈ q.declaredNames)
    (hwell : q.WellFormed) (hbinding : name.isBindingName) (hm : m ∈ name.parts) :
    Meets m (patternSteps target manner declaration name) := by
  have hmem := mem_parts_of_mem_names (declared_names_subset_names q hname)
  have hwhole := hwell.of_mem_parts hmem
  rcases mem_parts_pattern hexposed.role_cases hwhole hm with
    ⟨leaf, hleaf, hm⟩ | ⟨part, hpart, hm⟩ | ⟨r, hr, hrole, hm⟩
  · exfalso
    obtain ⟨r, hr, hdeclared⟩ := exists_declared_of_leaf hleaf hname
    rcases role_of_leaf hwhole hbinding hleaf with hrole | hrole
    · have hnamed := declared_names_subset_names r hdeclared
      exact (hexposed.of_mem_parts hr).not_mem_name hnamed hrole hm
    · exact hexposed.known r hr leaf hdeclared hrole hm
  · exact ⟨target, part, visit_mem_pattern_steps hpart, hm⟩
  · exact absurd hm (hexposed.unnamed hrole r (parts_subset hmem hr))

/-- What is exposed in something declared with a type and an initial value is met. -/
theorem meets_declared {type init : Option Node} (hexposed : Exposed n m) (hwell : n.WellFormed)
    (hn : n.isRecorded = false) (hname : n.declaredNames = [name]) (hbinding : name.isBindingName)
    (hchildren : n.children = name :: (type.toList ++ init.toList)) (hm : m ∈ n.parts) :
    Meets m (patternSteps target manner declaration name ++ visitAll site type.toList
      ++ visitAll site init.toList) := by
  obtain ⟨c, hc, hmc⟩ := hexposed.exists_child hm hn
  rw [hchildren, List.mem_cons, List.mem_append] at hc
  rcases hc with rfl | hc | hc
  · have hdeclared : c ∈ n.declaredNames := hname ▸ List.mem_singleton_self c
    exact (meets_pattern hexposed hdeclared hwell hbinding hmc).append_left.append_left
  · exact (meets_visit_all hc hmc).append_right.append_left
  · exact (meets_visit_all hc hmc).append_right

/-- What is exposed in a variable of a statement is met. -/
theorem meets_declarator (hexposed : Exposed n m) (hwell : n.WellFormed)
    (hrole : n.role = .variable) (hm : m ∈ n.parts) :
    Meets m (declaratorSteps site target manner n) := by
  obtain ⟨i, name, type, init, rfl⟩ := exists_variable hrole
  exact meets_declared hexposed hwell rfl rfl (well_formed_iff.mp hwell).1
    (by simp [children_eq, fields, Field.contents]) hm

/-- What is exposed in a parameter is met. -/
theorem meets_parameter (hexposed : Exposed n m) (hwell : n.WellFormed)
    (hrole : n.role = .parameter) (hm : m ∈ n.parts) : Meets m (parameterSteps inner n) := by
  obtain ⟨i, name, type, init, rfl⟩ := exists_parameter hrole
  exact meets_declared hexposed hwell rfl rfl (well_formed_iff.mp hwell).1
    (by simp [children_eq, fields, Field.contents]) hm

/-- What is exposed in the variable of a loop is met. -/
theorem meets_loop (hexposed : Exposed n m) (hwell : n.WellFormed) (hloop : n.isLoopVariable)
    (hm : m ∈ n.parts) : Meets m (loopSteps target manner n) := by
  obtain ⟨i, name, rfl⟩ := exists_loop_variable hloop
  have hmeets : Meets m (patternSteps target manner (.variableDeclaration i name none none) name
      ++ visitAll target (none : Option Node).toList
      ++ visitAll target (none : Option Node).toList) :=
    meets_declared hexposed hwell rfl rfl (well_formed_iff.mp hwell).1
      (by simp [children_eq, fields, Field.contents]) hm
  simpa [loopSteps, visitAll] using hmeets

/-- What is exposed in a variable that is caught is met. -/
theorem meets_caught (hexposed : Exposed n m) (hwell : n.WellFormed) (hcaught : n.isCaught)
    (hm : m ∈ n.parts) : Meets m (caughtSteps site inner n) := by
  obtain ⟨i, name, type, rfl⟩ := exists_caught hcaught
  have hmeets : Meets m
      (patternSteps inner .ofParameter (.variableDeclaration i name type none) name
      ++ visitAll site type.toList ++ visitAll site (none : Option Node).toList) :=
    meets_declared hexposed hwell rfl rfl (well_formed_iff.mp hwell).1
      (by simp [children_eq, fields, Field.contents]) hm
  simpa [caughtSteps, visitAll] using hmeets

/-- What is exposed in the name of a member is met. -/
theorem meets_member_name {owner : SymbolId} {kind : SymbolKind} {member : Node}
    (hexposed : Exposed q m) (hname : name ∈ q.names) (hm : m ∈ name.parts) :
    Meets m [memberStep site owner kind member name] := by
  unfold memberStep
  split
  · next hfacts =>
      exfalso
      have hwritten := (hexposed.of_mem_parts (mem_parts_of_mem_names hname)).exists_child hm
      cases name with
      | identifier i text => exact hexposed.not_mem_name hname rfl hm
      | stringLiteral i text | numericLiteral i text =>
          obtain ⟨c, hc, _⟩ := hwritten rfl
          simp [children_eq, fields, Field.contents] at hc
      | _ => simp [memberFacts] at hfacts
  · exact .visit hm

/-- What is exposed in a member of a type or an enumeration is met. -/
theorem meets_member {owner : SymbolId} {kind : SymbolKind} (hexposed : Exposed n m)
    (hrole : n.role = .signature ∨ n.role = .enumMember) (hm : m ∈ n.parts) :
    Meets m (memberSteps site owner kind n) := by
  cases n with
  | propertySignature i name rest | enumMember i name rest =>
      obtain ⟨c, hc, hmc⟩ := hexposed.exists_child hm rfl
      simp only [children_eq, fields, Field.contents, List.flatMap_cons, List.flatMap_nil,
        List.append_nil, List.singleton_append, List.mem_cons] at hc
      rcases hc with rfl | hc
      · exact (meets_member_name hexposed (List.mem_singleton_self c) hmc).append_left
      · exact (meets_visit_all hc hmc).cons
  | _ => simp [role] at hrole

/-- What is exposed in a property of an object literal is met. -/
theorem meets_property {owner : SymbolId} (hexposed : Exposed n m) (hm : m ∈ n.parts) :
    Meets m (propertySteps site owner n) := by
  cases n with
  | propertyAssignment i name init =>
      obtain ⟨c, hc, hmc⟩ := hexposed.exists_child hm rfl
      simp only [children_eq, fields, Field.contents, List.flatMap_cons, List.flatMap_nil,
        List.append_nil, List.singleton_append, List.mem_cons, List.not_mem_nil, or_false] at hc
      rcases hc with rfl | rfl
      · exact (meets_member_name hexposed (List.mem_singleton_self c) hmc).append_left
      · exact .cons (.visit hmc)
  | shorthandPropertyAssignment i name =>
      obtain ⟨c, hc, hmc⟩ := hexposed.exists_child hm rfl
      obtain rfl : c = name := by simpa [children_eq, fields, Field.contents] using hc
      exact (meets_member_name hexposed (List.mem_singleton_self c) hmc).append_left
  | methodDeclaration i name body =>
      obtain ⟨c, hc, hmc⟩ := hexposed.exists_child hm rfl
      have hinside := hexposed.of_mem_children hc
      simp only [children_eq, fields, Field.contents, List.flatMap_cons, List.flatMap_nil,
        List.append_nil, List.singleton_append, List.mem_cons, Option.mem_toList] at hc
      rcases hc with rfl | rfl
      · exact (meets_member_name hexposed (List.mem_singleton_self c) hmc).append_left
      · exact (meets_body hinside hmc).cons
  | _ => exact .visit hm

/-- What is exposed inside of a function is met. -/
theorem meets_inner {name body : Option Node} {parameters : List Node}
    (hexposed : Exposed n m) (hwell : n.WellFormed) (hnames : n.names = name.toList)
    (hname : name.all (·.role = .name)) (hparameters : parameters.all (·.role = .parameter))
    (hchildren : n.children = name.toList ++ (parameters ++ body.toList))
    (hc : c ∈ n.children) (hm : m ∈ c.parts) :
    Meets m (parameters.flatMap (parameterSteps inner) ++ bodySteps inner body) := by
  have hinside := hexposed.of_mem_children hc
  have hwhole := (well_formed_iff.mp hwell).2 c hc
  rw [hchildren, List.mem_append, List.mem_append] at hc
  rcases hc with hc | hc | hc
  · have hrole := (Option.all_eq_true _ _).mp hname c (Option.mem_toList.mp hc)
    exact absurd hm (hexposed.not_mem_name (hnames ▸ hc) (of_decide_eq_true hrole))
  · have hrole := of_decide_eq_true (List.all_eq_true.mp hparameters c hc)
    exact (Meets.flat_map hc (meets_parameter hinside hwhole hrole hm)).append_left
  · obtain rfl := Option.mem_toList.mp hc
    exact (meets_body hinside hm).append_right

/-- Nothing is exposed in the name of a namespace or module. -/
theorem not_mem_module_name {i : Info} {body : Option Node} {exported : Bool}
    (hexposed : Exposed (.moduleDeclaration i name body exported) m) (hname : name.isModuleName) :
    m ∉ name.parts := by
  intro hm
  have hinside := hexposed.of_mem_parts (mem_parts_of_mem_names (List.mem_singleton_self name))
  cases name with
  | identifier j text => exact hexposed.not_mem_name (List.mem_singleton_self _) rfl hm
  | stringLiteral j text =>
      obtain ⟨c, hc, _⟩ := hinside.exists_child hm rfl
      simp [children_eq, fields, Field.contents] at hc
  | unknown j sourceType children =>
      obtain ⟨c, hc, _⟩ := hinside.exists_child hm rfl
      cases children <;> simp [isModuleName, children_eq, fields, Field.contents] at hname hc
  | _ => cases hname

/-- Nothing is exposed in an entry of an import or export list. -/
theorem not_mem_specifier (hexposed : Exposed n m) (hwell : n.WellFormed)
    (hrole : n.role = .imported ∨ n.role = .exported) : m ∉ n.parts := by
  intro hm
  cases n with
  | importSpecifier i name propertyName isNamespace =>
      obtain ⟨c, hc, hmc⟩ := hexposed.exists_child hm rfl
      obtain rfl : c = name := by simpa [children_eq, fields, Field.contents] using hc
      have hname := of_decide_eq_true (well_formed_iff.mp hwell).1
      exact hexposed.not_mem_name (List.mem_singleton_self c) hname hmc
  | exportSpecifier i name propertyName =>
      obtain ⟨c, hc, _⟩ := hexposed.exists_child hm rfl
      simp [children_eq, fields, Field.contents] at hc
  | _ => simp [role] at hrole

/-- What is exposed below a node is met by a step of the node; the one exception is the name in a
reference to a type. -/
theorem meets_of_exposed (site : Site) (hexposed : Exposed n m) (hwell : n.WellFormed)
    (hc : c ∈ n.children) (hm : m ∈ c.parts) :
    Meets m (steps site n) ∨ ∃ i arguments, n = .typeReference i m arguments := by
  obtain ⟨hformed, hchildren⟩ := well_formed_iff.mp hwell
  have hinside := hexposed.of_mem_children hc
  have hwhole := hchildren c hc
  cases n with
  | typeReference i name arguments =>
      simp only [children_eq, fields, Field.contents, List.flatMap_cons, List.flatMap_nil,
        List.append_nil, List.singleton_append, List.mem_cons] at hc
      rcases hc with rfl | hc
      · obtain rfl := List.mem_singleton.mp (parts_of_name (of_decide_eq_true hformed) ▸ hm)
        exact .inr ⟨i, arguments, rfl⟩
      · exact .inl (meets_visit_all hc hm)
  | variableStatement i keyword declarations exported ambient =>
      simp only [children_eq, fields, Field.contents, List.flatMap_cons, List.flatMap_nil,
        List.append_nil, List.nil_append] at hc
      have hrole := List.all_eq_true.mp (Bool.and_eq_true_iff.mp hformed).2 c hc
      exact .inl (.flat_map hc (meets_declarator hinside hwhole (of_decide_eq_true hrole) hm))
  | forInStatement i init expression statement keyword
  | forOfStatement i init expression statement keyword =>
      left
      simp only [children_eq, fields, Field.contents, List.flatMap_cons, List.flatMap_nil,
        List.append_nil, List.singleton_append, List.mem_cons, Option.mem_toList] at hc
      rcases hc with rfl | rfl | rfl
      · refine (Meets.append_left (.cons ?_) : Meets m ((_ :: _) ++ _))
        cases keyword with
        | none => exact .visit hm
        | some keyword =>
            have hloop := (Bool.and_eq_true_iff.mp hformed).2
            obtain ⟨j, name, rfl⟩ := exists_loop_variable hloop
            exact meets_loop hinside hwhole rfl hm
      · exact Meets.append_left (.visit hm)
      · exact Meets.append_right (meets_body hinside hm)
  | catchClause i declaration block =>
      left
      simp only [children_eq, fields, Field.contents, List.flatMap_cons, List.flatMap_nil,
        List.append_nil, List.mem_append, Option.mem_toList] at hc
      rcases hc with rfl | rfl
      · exact .append_left (.flat_map (List.mem_singleton_self c)
          (meets_caught hinside hwhole hformed hm))
      · exact .append_right (meets_body hinside hm)
  | functionDeclaration i name parameters body exported =>
      obtain ⟨hname, hparameters⟩ := Bool.and_eq_true_iff.mp hformed
      have hmeets : Meets m (parameters.flatMap (parameterSteps (site.enterFunction i.id))
          ++ bodySteps (site.enterFunction i.id) body) :=
        meets_inner hexposed hwell rfl hname hparameters
          (by simp [children_eq, fields, Field.contents]) hc hm
      exact .inl hmeets.append_right
  | functionExpression i name parameters body =>
      obtain ⟨hname, hparameters⟩ := Bool.and_eq_true_iff.mp hformed
      have hmeets : Meets m (parameters.flatMap (parameterSteps (site.enter .function i.id))
          ++ bodySteps (site.enter .function i.id) body) :=
        meets_inner hexposed hwell rfl hname hparameters
          (by simp [children_eq, fields, Field.contents]) hc hm
      exact .inl hmeets.append_right
  | block i statements =>
      simp only [children_eq, fields, Field.contents, List.flatMap_cons, List.flatMap_nil,
        List.append_nil] at hc
      exact .inl (meets_visit_all hc hm)
  | classDeclaration i name exported =>
      exfalso
      simp only [children_eq, fields, Field.contents, List.flatMap_cons, List.flatMap_nil,
        List.append_nil, Option.mem_toList] at hc
      subst hc
      exact hexposed.not_mem_name (List.mem_singleton_self c) (of_decide_eq_true hformed) hm
  | typeAliasDeclaration i name type exported =>
      simp only [children_eq, fields, Field.contents, List.flatMap_cons, List.flatMap_nil,
        List.append_nil, List.singleton_append, List.mem_cons, List.not_mem_nil, or_false] at hc
      rcases hc with rfl | rfl
      · exact absurd hm (hexposed.not_mem_name (List.mem_singleton_self c)
          (of_decide_eq_true hformed))
      · exact .inl (.cons (.visit hm))
  | interfaceDeclaration i name members exported
  | enumDeclaration i name members isConst exported =>
      obtain ⟨hname, hmembers⟩ := Bool.and_eq_true_iff.mp hformed
      simp only [children_eq, fields, Field.contents, List.flatMap_cons, List.flatMap_nil,
        List.append_nil, List.singleton_append, List.mem_cons] at hc
      rcases hc with rfl | hc
      · exact absurd hm <|
          hexposed.not_mem_name (List.mem_singleton_self c) (of_decide_eq_true hname)
      · have hrole := of_decide_eq_true (List.all_eq_true.mp hmembers c hc)
        exact .inl (.cons (.flat_map hc (meets_member hinside (by simp [hrole]) hm)))
  | moduleDeclaration i name body exported =>
      simp only [children_eq, fields, Field.contents, List.flatMap_cons, List.flatMap_nil,
        List.append_nil, List.singleton_append, List.mem_cons, Option.mem_toList] at hc
      rcases hc with rfl | rfl
      · exact absurd hm (not_mem_module_name hexposed hformed)
      · exact .inl (.cons (meets_body hinside hm))
  | importDeclaration i module specifiers =>
      simp only [children_eq, fields, Field.contents, List.flatMap_cons, List.flatMap_nil,
        List.append_nil, List.nil_append] at hc
      have hrole := of_decide_eq_true (List.all_eq_true.mp hformed c hc)
      exact absurd hm (not_mem_specifier hinside hwhole (.inl hrole))
  | exportDeclaration i specifiers module isStar =>
      simp only [children_eq, fields, Field.contents, List.flatMap_cons, List.flatMap_nil,
        List.append_nil] at hc
      have hrole := of_decide_eq_true (List.all_eq_true.mp hformed c hc)
      exact absurd hm (not_mem_specifier hinside hwhole (.inr hrole))
  | objectLiteral i properties =>
      simp only [children_eq, fields, Field.contents, List.flatMap_cons, List.flatMap_nil,
        List.append_nil] at hc
      exact .inl (.flat_map hc (meets_property hinside hm))
  | typeLiteral i members =>
      simp only [children_eq, fields, Field.contents, List.flatMap_cons, List.flatMap_nil,
        List.append_nil] at hc
      have hrole := of_decide_eq_true (List.all_eq_true.mp hformed c hc)
      exact .inl (.flat_map hc (meets_member hinside (by simp [hrole]) hm))
  | _ => exact .inl (meets_visit_all hc hm)

/-- Binding a well-formed tree comes to every part that is exposed, or, for the name in a reference
to a type, to the reference. -/
theorem visits_of_exposed (hwell : n.WellFormed) (hexposed : Exposed n m) (hm : m ∈ n.parts)
    (site : Site) : ∃ target, Visits site n target m ∨
      ∃ i arguments, Visits site n target (.typeReference i m arguments) := by
  induction n using parts_induction generalizing site with
  | step n ih =>
      rw [parts_eq] at hm
      rcases List.mem_cons.mp hm with rfl | hm
      · exact ⟨site, .inl (.here site m)⟩
      · obtain ⟨c, hc, hm⟩ := List.mem_flatMap.mp hm
        rcases meets_of_exposed site hexposed hwell hc hm with
          ⟨target, part, hstep, hm⟩ | ⟨i, arguments, rfl⟩
        · have hbelow := parts_subset_below hstep (mem_parts_self part)
          have hpart := below_subset_parts n hbelow
          obtain ⟨last, hvisits⟩ := ih part hbelow (hwell.of_mem_parts hpart)
            (hexposed.of_mem_parts hpart) hm target
          refine ⟨last, hvisits.imp (.step hstep) ?_⟩
          rintro ⟨i, arguments, hvisits⟩
          exact ⟨i, arguments, .step hstep hvisits⟩
        · exact ⟨site, .inr ⟨i, arguments, .here site _⟩⟩

/-- Binding comes to every part that is exposed and no name. -/
theorem visits_of_exposed_statement (site : Site) (hwell : n.WellFormed) (hexposed : Exposed n m)
    (hm : m ∈ n.parts) (hrole : m.role ≠ .name) : ∃ target, Visits site n target m := by
  obtain ⟨target, hvisits | ⟨i, arguments, hvisits⟩⟩ := visits_of_exposed hwell hexposed hm site
  · exact ⟨target, hvisits⟩
  · have hformed := (well_formed_iff.mp (hwell.of_mem_parts hvisits.mem_parts)).1
    exact absurd (of_decide_eq_true hformed) hrole

end Binding

end StaticLiteral
