import StaticLiteral.Proofs.Binding.Coherence
import StaticLiteral.Proofs.Binding.Coverage
import StaticLiteral.Proofs.Syntax.Exports

/-!
# Tables of exports

Binding goes down a tree with one table of exports: that of the innermost namespace or module around
the place, or that of the file (`within_of_visits`). So what a statement exports is entered in this
table under its own name, and in no other one: `exports_to_of_exposed`.
-/

namespace StaticLiteral

/-- The table in which exports are entered, given the innermost namespace or module around them: a
namespace has them as its members, and what a module exports that is declared by a text is lost. -/
def exportTable : Option Node → Option Table
  | none => some .exports
  | some (.moduleDeclaration _ (.identifier i _) _ _) => some (.members (.node i.id))
  | some _ => none

namespace Binding

open Node

variable {site target inner : Site} {manner : Manner} {n m q c name declaration : Node}
  {step : Step}

/-! ## The table on the way down -/

attribute [local simp] children_eq fields Field.contents

/-- What the step visits stands beside the node, and has the exports of the site. -/
def Step.Follows (site : Site) (n : Node) : Step → Prop
  | note _ _ => True
  | visit target part => Beside n part ∧ target.exports = site.exports

/-- What a node beside another one is followed by follows that one, too. -/
theorem Step.Follows.of_beside (h : step.Follows site m) (hm : Beside n m) :
    step.Follows site n := by
  cases step with
  | note => trivial
  | visit target part => exact ⟨hm.trans h.1, h.2⟩

/-- Nodes beside a node follow it. -/
theorem follows_visit_all {ns : List Node} (hexports : target.exports = site.exports)
    (hns : ∀ c ∈ ns, Beside n c) (h : step ∈ visitAll target ns) : step.Follows site n := by
  obtain ⟨part, hpart, rfl⟩ := List.mem_map.mp h
  exact ⟨hns part hpart, hexports⟩

/-- A body beside a node follows it. -/
theorem follows_body {body : Option Node} (hexports : target.exports = site.exports)
    (hbody : ∀ c ∈ body.toList, Beside n c) (h : step ∈ bodySteps target body) :
    step.Follows site n := by
  unfold bodySteps at h
  split at h
  · next i statements =>
      refine follows_visit_all hexports (fun c hc => ?_) h
      have hblock : Beside (.block i statements) c := .child (fun _ => rfl) (by simpa using hc)
      exact (hbody _ (by simp)).trans hblock
  · exact follows_visit_all hexports hbody h

/-- What is evaluated in a pattern beside a node follows the node. -/
theorem follows_pattern (hexports : target.exports = site.exports) (hname : Beside n name)
    (h : step ∈ patternSteps target manner declaration name) : step.Follows site n := by
  rcases of_mem_pattern_steps h with ⟨_, _, _, _, rfl⟩ | ⟨part, hpart, rfl⟩
  · trivial
  · exact ⟨hname.trans (beside_of_evaluated hpart), hexports⟩

/-- What is evaluated for a variable follows it. -/
theorem follows_declarator (hexports : target.exports = site.exports)
    (h : step ∈ declaratorSteps site target manner n) : step.Follows site n := by
  cases n with
  | variableDeclaration i name type init =>
      simp only [declaratorSteps, List.mem_append] at h
      rcases h with (h | h) | h
      · exact follows_pattern hexports (.child (fun _ => rfl) (by simp)) h
      · exact follows_visit_all rfl (fun c hc => .child (fun _ => rfl) (by simp_all)) h
      · exact follows_visit_all rfl (fun c hc => .child (fun _ => rfl) (by simp_all)) h
  | _ => cases h

/-- What is evaluated for the variable of a loop follows it. -/
theorem follows_loop (hexports : target.exports = site.exports)
    (h : step ∈ loopSteps target manner n) : step.Follows site n := by
  cases n with
  | variableDeclaration i name type init =>
      exact follows_pattern hexports (.child (fun _ => rfl) (by simp)) h
  | _ => cases h

/-- What is evaluated for a variable that is caught follows it. -/
theorem follows_caught (hexports : inner.exports = site.exports)
    (h : step ∈ caughtSteps site inner n) : step.Follows site n := by
  cases n with
  | variableDeclaration i name type init =>
      rcases List.mem_append.mp h with h | h
      · exact follows_pattern hexports (.child (fun _ => rfl) (by simp)) h
      · exact follows_visit_all rfl (fun c hc => .child (fun _ => rfl) (by simp_all)) h
  | _ => cases h

/-- What is evaluated for a parameter follows it. -/
theorem follows_parameter (hexports : inner.exports = site.exports)
    (h : step ∈ parameterSteps inner n) : step.Follows site n := by
  cases n with
  | parameter i name type init =>
      simp only [parameterSteps, List.mem_append] at h
      rcases h with (h | h) | h
      · exact follows_pattern hexports (.child (fun _ => rfl) (by simp)) h
      · exact follows_visit_all hexports (fun c hc => .child (fun _ => rfl) (by simp_all)) h
      · exact follows_visit_all hexports (fun c hc => .child (fun _ => rfl) (by simp_all)) h
  | _ => cases h

/-- A name of a member that is computed follows what it is beside. -/
theorem follows_member_step {owner : SymbolId} {kind : SymbolKind} {member : Node}
    (hname : Beside n name) : (memberStep site owner kind member name).Follows site n := by
  unfold memberStep
  split
  · trivial
  · exact ⟨hname, rfl⟩

/-- What is evaluated for a member of a type or an enumeration follows it. -/
theorem follows_member {owner : SymbolId} {kind : SymbolKind}
    (h : step ∈ memberSteps site owner kind n) : step.Follows site n := by
  cases n with
  | propertySignature i name rest | enumMember i name rest =>
      rcases List.mem_cons.mp h with rfl | h
      · exact follows_member_step (.child (fun _ => rfl) (by simp))
      · exact follows_visit_all rfl (fun c hc => .child (fun _ => rfl) (by simp_all)) h
  | _ => cases h

/-- A function is entered with the same exports. -/
theorem exports_enter_function (site : Site) (id : NodeId) :
    (site.enterFunction id).exports = site.exports := by
  unfold Site.enterFunction
  split <;> rfl

/-- What is inside of a function follows it. -/
theorem follows_inner (h : step ∈ innerSteps site n) : step.Follows site n := by
  cases n with
  | functionDeclaration i name parameters body exported =>
      have hexports := exports_enter_function site i.id
      rcases List.mem_append.mp h with h | h
      · obtain ⟨parameter, hparameter, h⟩ := List.mem_flatMap.mp h
        exact (follows_parameter hexports h).of_beside (.child (fun _ => rfl) (by simp_all))
      · exact follows_body hexports (fun c hc => .child (fun _ => rfl) (by simp_all)) h
  | functionExpression i name parameters body =>
      have hexports : (site.enter .function i.id).exports = site.exports := rfl
      rcases List.mem_append.mp h with h | h
      · obtain ⟨parameter, hparameter, h⟩ := List.mem_flatMap.mp h
        exact (follows_parameter hexports h).of_beside (.child (fun _ => rfl) (by simp_all))
      · exact follows_body hexports (fun c hc => .child (fun _ => rfl) (by simp_all)) h
  | methodDeclaration i name body =>
      have hexports := exports_enter_function site i.id
      exact follows_body hexports (fun c hc => .child (fun _ => rfl) (by simp_all)) h
  | _ => cases h

/-- What is evaluated for a property follows it. -/
theorem follows_property {owner : SymbolId} (h : step ∈ propertySteps site owner n) :
    step.Follows site n := by
  cases n with
  | propertyAssignment i name init =>
      simp only [propertySteps, List.mem_cons, List.not_mem_nil, or_false] at h
      rcases h with rfl | rfl
      · exact follows_member_step (.child (fun _ => rfl) (by simp))
      · exact ⟨.child (fun _ => rfl) (by simp), rfl⟩
  | shorthandPropertyAssignment i name =>
      simp only [propertySteps, List.mem_cons, List.not_mem_nil, or_false] at h
      rcases h with rfl | rfl
      · exact follows_member_step (.child (fun _ => rfl) (by simp))
      · trivial
  | methodDeclaration i name body =>
      rcases List.mem_cons.mp h with rfl | h
      · exact follows_member_step (.child (fun _ => rfl) (by simp))
      · exact follows_inner h
  | _ =>
      obtain rfl := List.mem_singleton.mp h
      exact ⟨.refl _, rfl⟩

/-- Whatever is no namespace or module is followed by what its steps visit. -/
theorem follows_steps (hn : ∀ outer, n.moduleBelow outer = outer) (h : step ∈ steps site n) :
    step.Follows site n := by
  have hchild : ∀ {c}, c ∈ n.children → Beside n c := fun hc => .child hn hc
  have hnote : ∀ {ns : List Node} {facts : Node → List Fact},
      step ∈ ns.map (fun name => .note name (facts name)) → step.Follows site n := fun h => by
    obtain ⟨_, _, rfl⟩ := List.mem_map.mp h
    trivial
  cases n with
  | typeReference i name arguments =>
      exact follows_visit_all rfl (fun c hc => hchild (by simp [hc])) h
  | variableStatement i keyword declarations exported ambient =>
      obtain ⟨declaration, hdeclaration, h⟩ := List.mem_flatMap.mp h
      refine (follows_declarator ?_ h).of_beside (hchild (by simpa using hdeclaration))
      split <;> rfl
  | forInStatement i init expression statement keyword
  | forOfStatement i init expression statement keyword =>
      rcases List.mem_append.mp h with h | h
      · rcases List.mem_cons.mp h with rfl | h
        · exact ⟨hchild (by simp), rfl⟩
        · split at h
          · split at h
            · refine (follows_loop ?_ h).of_beside (hchild (by simp))
              split <;> rfl
            · obtain rfl := List.mem_singleton.mp h
              exact ⟨hchild (by simp), rfl⟩
          · obtain rfl := List.mem_singleton.mp h
            exact ⟨hchild (by simp), rfl⟩
      · have hexports : (site.enter .block i.id).exports = site.exports := rfl
        exact follows_body hexports (fun c hc => hchild (by simp_all)) h
  | catchClause i declaration block =>
      have hexports : (site.enter .block i.id).exports = site.exports := rfl
      rcases List.mem_append.mp h with h | h
      · obtain ⟨declaration, hdeclaration, h⟩ := List.mem_flatMap.mp h
        exact (follows_caught hexports h).of_beside (hchild (by simp_all))
      · exact follows_body hexports (fun c hc => hchild (by simp_all)) h
  | functionDeclaration i name parameters body exported
  | functionExpression i name parameters body =>
      rcases List.mem_append.mp h with h | h
      · exact hnote h
      · exact follows_inner h
  | block i statements =>
      have hexports : (site.enter .block i.id).exports = site.exports := rfl
      exact follows_visit_all hexports (fun c hc => hchild (by simpa using hc)) h
  | classDeclaration i name exported => exact hnote h
  | typeAliasDeclaration i name type exported =>
      rcases List.mem_cons.mp h with rfl | h
      · trivial
      · obtain rfl := List.mem_singleton.mp h
        exact ⟨hchild (by simp), rfl⟩
  | interfaceDeclaration i name members exported
  | enumDeclaration i name members isConst exported =>
      rcases List.mem_cons.mp h with rfl | h
      · trivial
      · obtain ⟨member, hmember, h⟩ := List.mem_flatMap.mp h
        exact (follows_member h).of_beside (hchild (by simp [hmember]))
  | moduleDeclaration i name body exported => exact absurd (hn none) (by simp [moduleBelow])
  | importDeclaration i module specifiers =>
      obtain ⟨specifier, _, h⟩ := List.mem_flatMap.mp h
      cases specifier with
      | importSpecifier =>
          obtain rfl := List.mem_singleton.mp h
          trivial
      | _ => cases h
  | exportDeclaration i specifiers module isStar =>
      cases isStar with
      | true => simp [steps] at h
      | false =>
          obtain ⟨specifier, _, h⟩ := List.mem_flatMap.mp h
          cases specifier with
          | exportSpecifier =>
              obtain rfl := List.mem_singleton.mp h
              trivial
          | _ => cases h
  | objectLiteral i properties =>
      obtain ⟨property, hproperty, h⟩ := List.mem_flatMap.mp h
      exact (follows_property h).of_beside (hchild (by simpa using hproperty))
  | typeLiteral i members =>
      obtain ⟨member, hmember, h⟩ := List.mem_flatMap.mp h
      exact (follows_member h).of_beside (hchild (by simpa using hmember))
  | _ => exact follows_visit_all rfl (fun c hc => hchild hc) h

/-- What is visited inside of a namespace or module is inside of its body, and has its table. -/
theorem within_of_module {i : Info} {name part : Node} {body : Option Node} {exported : Bool}
    (h : .visit target part ∈ steps site (.moduleDeclaration i name body exported))
    (outer : Option Node) :
    let module := Node.moduleDeclaration i name body exported
    Within outer module part (some module) ∧ target.exports = exportTable (some module) := by
  intro module
  obtain h | h := List.mem_cons.mp h
  · cases h
  obtain ⟨b, rfl⟩ : ∃ b, body = some b := by
    cases body with
    | none => simp [bodySteps, visitAll] at h
    | some b => exact ⟨b, rfl⟩
  have hfollows : (Step.visit target part).Follows (site.enterNamespace i.id name) b :=
    follows_body rfl (fun c hc => by obtain rfl := List.mem_singleton.mp hc; exact .refl _) h
  refine ⟨.child (by simp [module]) (hfollows.1 _), hfollows.2.trans ?_⟩
  cases name <;> rfl

/-- One step down, the table stays that of the innermost namespace or module. -/
theorem within_of_visit {outer : Option Node} (h : .visit target m ∈ steps site n)
    (hexports : site.exports = exportTable outer) :
    ∃ inner, Within outer n m inner ∧ target.exports = exportTable inner := by
  by_cases hn : ∀ outer, n.moduleBelow outer = outer
  · have hfollows := follows_steps hn h
    exact ⟨outer, hfollows.1 outer, hfollows.2.trans hexports⟩
  · cases n with
    | moduleDeclaration i name body exported => exact ⟨_, within_of_module h outer⟩
    | _ => exact absurd (fun _ => rfl) hn

/-- However far down, the table is that of the innermost namespace or module. -/
theorem within_of_visits {outer : Option Node} (h : Visits site n target m)
    (hexports : site.exports = exportTable outer) :
    ∃ inner, Within outer n m inner ∧ target.exports = exportTable inner := by
  induction h generalizing outer with
  | here site n => exact ⟨outer, .here outer n, hexports⟩
  | step hstep _ ih =>
      obtain ⟨inner, hwithin, hinner⟩ := within_of_visit hstep hexports
      obtain ⟨last, hlast, htable⟩ := ih hinner
      exact ⟨last, hwithin.trans hlast, htable⟩

/-! ## What is entered -/

/-- The facts enter the node in the table, if there is one, under the name that it is exported
under, and they enter it nowhere else. -/
def ExportsTo (m : Node) (table : Option Table) (facts : List Fact) : Prop :=
  ∀ t key, (∃ s, s.id = .node m.id ∧ .enters t key s ∈ facts) ↔
    table = some t ∧ m.exportKey? = some key

variable {fact : Fact} {facts : List Fact} {symbol : BoundSymbol}

/-- A fact about the symbol of a part comes from wherever binding comes to it. -/
theorem mem_facts_of_visits (hlaid : Laid n) (hvisits : Visits site n target m) (hq : q ∈ m.parts)
    (h : fact ∈ ofNode site n) (hsymbol : fact.symbol? = some symbol)
    (hid : symbol.id = .node q.id) : fact ∈ ofNode target m := by
  induction hvisits with
  | here => exact h
  | step hstep hvisits ih =>
      have hbelow := below_subset_parts _ (parts_subset_below hstep (mem_parts_self _))
      refine ih (hlaid.of_mem_parts hbelow) hq ?_
      exact mem_facts_of_common hlaid hstep (parts_subset hvisits.mem_parts hq) h hsymbol hid

/-- What is exported is entered in the table of the site. -/
theorem exports_to_exporting {key : Text} (hkey : m.exportKey? = some key)
    (hid : symbol.id = .node m.id) : ExportsTo m site.exports (site.exporting key symbol) := by
  intro t other
  simp only [Site.exporting, List.mem_map, Option.mem_toList, Fact.enters.injEq]
  constructor
  · rintro ⟨s, _, table, htable, rfl, rfl, rfl⟩
    exact ⟨htable, hkey⟩
  · rintro ⟨htable, hother⟩
    obtain rfl := Option.some.inj (hkey.symm.trans hother)
    exact ⟨symbol, hid, t, htable, rfl, rfl, rfl⟩

/-- A name that is declared and exported is entered in the table of the site. -/
theorem exports_to_declare {spaces : List Space} {symbolOf : SymbolId → Text → BoundSymbol}
    (hrole : name.exportKey? = name.identifier?) (hid : ∀ id text, (symbolOf id text).id = id) :
    ExportsTo name site.exports (site.declare spaces true symbolOf name) := by
  intro t key
  cases name with
  | identifier i text =>
      have hentered := @exports_to_exporting site (.identifier i text) (symbolOf (.node i.id) text)
        text rfl (hid _ _) t key
      rw [← hentered]
      simp [Site.declare]
  | _ =>
      rw [hrole]
      constructor
      · rintro ⟨_, _, h⟩
        cases h
      · rintro ⟨_, h⟩
        cases h

/-- What names a declaration is exported under its own name, if it is a name at all. -/
theorem export_key_of_role (h : name.role = .name ∨ name.role = .unknown ∨ name.role = .text) :
    name.exportKey? = name.identifier? := by
  cases name <;> simp_all [role, exportKey?, identifier?]

/-- What names a namespace or module is a name, or not understood, or a text. -/
theorem role_of_module_name (h : name.isModuleName) :
    name.role = .name ∨ name.role = .unknown ∨ name.role = .text := by
  cases name with
  | identifier => exact .inl rfl
  | stringLiteral => exact .inr (.inr rfl)
  | unknown => exact .inr (.inl rfl)
  | _ => cases h

/-- A variable that is exported is entered by one step of its declaration. -/
theorem exists_step_of_variable (hwell : n.WellFormed) (hrole : n.role = .variable)
    (hmanner : manner.exported = true) (hm : m ∈ variableNames [n]) :
    ∃ facts, .note m facts ∈ declaratorSteps site target manner n ∧
      ExportsTo m target.exports facts := by
  obtain ⟨i, name, type, init, rfl⟩ := exists_variable hrole
  obtain ⟨hformed, hchildren⟩ := well_formed_iff.mp hwell
  have hleaf : m ∈ name.leaves := by simpa [variableNames, declaredNames] using hm
  have hkind := role_of_leaf (hchildren name (by simp)) hformed hleaf
  obtain ⟨_, hstep, declaration, rfl⟩ := leaf_mem_pattern_steps hleaf
  refine ⟨_, List.mem_append_left _ (List.mem_append_left _ hstep), ?_⟩
  rw [hmanner]
  exact exports_to_declare (export_key_of_role (hkind.imp_right .inl)) fun _ _ => rfl

/-- What a statement exports, other than a default, is entered by one of its steps. -/
theorem exists_step_of_exported (site : Site) (hwell : n.WellFormed) (hm : m ∈ n.exported)
    (hn : ∀ i e, n ≠ .exportAssignment i e) :
    ∃ facts, .note m facts ∈ steps site n ∧ ExportsTo m site.exports facts := by
  have hformed := (well_formed_iff.mp hwell).1
  have hname : ∀ {name : Node}, name.role = .name → name.exportKey? = name.identifier? :=
    fun h => export_key_of_role (.inl h)
  cases n with
  | variableStatement i keyword declarations exported ambient =>
      cases exported with
      | false => simp [exported] at hm
      | true =>
          obtain ⟨d, hd, hm⟩ := List.mem_flatMap.mp hm
          have hrole : d.role = .variable := by
            simpa using List.all_eq_true.mp (Bool.and_eq_true_iff.mp hformed).2 d hd
          have hwhole := (well_formed_iff.mp hwell).2 d (by simpa using hd)
          have hstep : ∀ target : Site, target.exports = site.exports →
              ∃ facts, .note m facts ∈ declaratorSteps site target (.ofKeyword keyword true) d ∧
                ExportsTo m site.exports facts := fun target hexports =>
            hexports ▸ exists_step_of_variable hwhole hrole rfl (by simpa [variableNames] using hm)
          have htarget : (if (Manner.ofKeyword keyword true).kind = .blockScopedVariable then site
              else site.hoisted).exports = site.exports := by split <;> rfl
          obtain ⟨facts, hstep, hexports⟩ := hstep _ htarget
          exact ⟨facts, List.mem_flatMap.mpr ⟨d, hd, hstep⟩, hexports⟩
  | functionDeclaration i name parameters body exported =>
      cases exported with
      | false => simp [Node.exported] at hm
      | true =>
          obtain rfl := Option.mem_toList.mp hm
          have hrole : m.role = .name := by simpa using (Bool.and_eq_true_iff.mp hformed).1
          refine ⟨_, List.mem_append_left _ (List.mem_singleton_self _), ?_⟩
          show ExportsTo m site.hoisted.exports _
          exact exports_to_declare (hname hrole) fun _ _ => rfl
  | classDeclaration i name exported =>
      cases exported with
      | false => simp [Node.exported] at hm
      | true =>
          obtain rfl := Option.mem_toList.mp hm
          have hrole : m.role = .name := by simpa [isFormed] using hformed
          exact ⟨_, List.mem_singleton_self _, exports_to_declare (hname hrole) fun _ _ => rfl⟩
  | typeAliasDeclaration i name type exported | interfaceDeclaration i name members exported
  | enumDeclaration i name members isConst exported =>
      cases exported with
      | false => simp [Node.exported] at hm
      | true =>
          obtain rfl := List.mem_singleton.mp hm
          have hrole : m.role = .name := by simp_all [isFormed]
          exact ⟨_, List.mem_cons_self, exports_to_declare (hname hrole) fun _ _ => rfl⟩
  | moduleDeclaration i name body exported =>
      cases exported with
      | false => simp [Node.exported] at hm
      | true =>
          obtain rfl := List.mem_singleton.mp hm
          have hkey := export_key_of_role (role_of_module_name hformed)
          exact ⟨_, List.mem_cons_self, exports_to_declare hkey fun _ _ => rfl⟩
  | exportDeclaration i specifiers module isStar =>
      cases isStar with
      | true => simp [Node.exported] at hm
      | false =>
          have hrole : m.role = .exported := by simpa using List.all_eq_true.mp hformed m hm
          cases m with
          | exportSpecifier j name propertyName =>
              refine ⟨_, List.mem_flatMap.mpr ⟨_, hm, List.mem_singleton_self _⟩, ?_⟩
              simp only [exportFacts, List.append_nil]
              exact exports_to_exporting rfl rfl
          | _ => cases hrole
  | exportAssignment i e => exact absurd rfl (hn i e)
  | _ => cases hm

/-- The default of a file or namespace is entered by the node itself. -/
theorem exports_to_default (site : Site) (i : Info) (e : Node) :
    ExportsTo (.exportAssignment i e) site.exports (ownFacts site (.exportAssignment i e)) := by
  refine exports_to_exporting rfl ?_
  cases e <;> rfl

/-- If all facts about a node are among some facts, what these enter is all that is entered. -/
theorem ExportsTo.mono {table : Option Table} {more : List Fact} (h : ExportsTo m table facts)
    (hsubset : facts ⊆ more) (hall : ∀ fact ∈ more, ∀ s, fact.symbol? = some s →
      s.id = .node m.id → fact ∈ facts) : ExportsTo m table more := by
  intro t key
  rw [← h t key]
  constructor
  · rintro ⟨s, hid, hfact⟩
    exact ⟨s, hid, hall _ hfact s rfl hid⟩
  · rintro ⟨s, hid, hfact⟩
    exact ⟨s, hid, hsubset hfact⟩

/-- What a statement exports is entered in the table of its site. -/
theorem exports_to_of_exported (site : Site) (hlaid : Laid n) (hwell : n.WellFormed)
    (hm : m ∈ n.exported) :
    m ∈ n.parts ∧ ExportsTo m site.exports (ofNode site n) := by
  by_cases hdefault : ∃ i e, n = .exportAssignment i e
  · obtain ⟨i, e, rfl⟩ := hdefault
    obtain rfl := List.mem_singleton.mp hm
    refine ⟨mem_parts_self _, (exports_to_default site i e).mono ?_ ?_⟩
    · exact of_node_eq site _ ▸ List.subset_append_left _ _
    · exact fun fact h s hs hid => mem_own_facts hlaid h hs hid
  · obtain ⟨facts, hstep, hexports⟩ := exists_step_of_exported site hwell hm
      (fun i e heq => hdefault ⟨i, e, heq⟩)
    have hpart : m ∈ (Step.note m facts).parts := List.mem_singleton_self m
    refine ⟨parts_subset_parts hstep hpart, hexports.mono (fun fact hfact => ?_) ?_⟩
    · rw [of_node_eq]
      exact List.mem_append_right _ (List.mem_flatMap.mpr ⟨_, hstep, hfact⟩)
    · exact fun fact h s hs hid => mem_facts_of_common hlaid hstep hpart h hs hid

/-- What a statement exports that binding comes to is entered in the table of its site. -/
theorem exports_to_of_visits (hlaid : Laid n) (hwell : n.WellFormed)
    (hvisits : Visits site n target m) (hq : q ∈ m.exported) :
    ExportsTo q target.exports (ofNode site n) := by
  obtain ⟨hpart, hexports⟩ := exports_to_of_exported target
    (hlaid.of_mem_parts hvisits.mem_parts) (hwell.of_mem_parts hvisits.mem_parts) hq
  exact hexports.mono hvisits.facts_subset fun fact h s hs hid =>
    mem_facts_of_visits hlaid hvisits hpart h hs hid

/-- A statement that exports something is recorded and no name. -/
theorem recorded_of_exported (hm : m ∈ n.exported) : n.isRecorded ∧ n.role ≠ .name := by
  cases n <;> simp_all [exported, isRecorded, role]

/-- What an exposed statement exports is entered in the table of the innermost namespace or module
around the statement, and nowhere else. -/
theorem exports_to_of_exposed {outer inner : Option Node} (hlaid : Laid n) (hwell : n.WellFormed)
    (hsite : site.exports = exportTable outer) (hexposed : Exposed n m)
    (hwithin : Within outer n m inner) (hq : q ∈ m.exported) :
    ExportsTo q (exportTable inner) (ofNode site n) := by
  obtain ⟨target, hvisits⟩ := visits_of_exposed_statement site hwell hexposed hwithin.mem_parts
    (recorded_of_exported hq).2
  obtain ⟨last, hlast, htable⟩ := within_of_visits hvisits hsite
  rw [hwithin.unique hlaid hlast, ← htable]
  exact exports_to_of_visits hlaid hwell hvisits hq

/-! ## What is exported again -/

/-- A statement that exports everything of a module again is bound in the table of a file. -/
def IsStar (specifier : Text) (target : Site) (n : Node) : Prop :=
  target.exports = some .exports ∧
    ∃ i specifiers, n = .exportDeclaration i specifiers specifier true

/-- What is declared exports nothing again. -/
theorem reexports_not_mem_of_taken {part : Node} (h : Taken site (.note part facts))
    (specifier : Text) : .reexports specifier ∉ facts := by
  cases h with
  | declare spaces exported symbolOf hid =>
      cases part <;> cases exported <;> simp [Site.declare, Site.exporting]
  | member h => cases part <;> simp only [memberFacts, reduceCtorEq, Option.some.injEq] at h <;>
      simp [← h]
  | shorthand => simp
  | exporting => simp [Site.exporting]

/-- Only statements in the table of a file export everything of a module again. -/
theorem exists_star_of_reexports {specifier : Text} (h : .reexports specifier ∈ ofNode site n) :
    ∃ target m, Visits site n target m ∧ IsStar specifier target m := by
  refine fact_induction (fun site n h => ⟨site, n, .here site n, ?_⟩)
    (fun site n _ part facts _ _ htaken h => ?_)
    (fun site n target part hstep _ _ ih => ?_) site n h
  · cases n with
    | exportDeclaration i specifiers module isStar =>
        cases isStar <;> cases module <;> simp only [ownFacts, starFacts, List.not_mem_nil] at h
        split at h
        · next hexports =>
            obtain ⟨rfl⟩ := Fact.reexports.inj (List.mem_singleton.mp h)
            exact ⟨hexports, i, specifiers, rfl⟩
        · simp at h
    | exportAssignment i e => simp [ownFacts, defaultFacts, Site.exporting] at h
    | _ => simp [ownFacts] at h
  · exact absurd h (reexports_not_mem_of_taken htaken specifier)
  · obtain ⟨last, m, hvisits, hstar⟩ := ih
    exact ⟨last, m, .step hstep hvisits, hstar⟩

/-- No namespace or module has the table of a file. -/
theorem export_table_eq_exports {inner : Option Node} (h : exportTable inner = some .exports) :
    inner = none := by
  unfold exportTable at h
  split at h
  · rfl
  · cases h
  · cases h

/-- An exposed statement exports everything of a module again if no namespace or module is around
it. -/
theorem reexports_of_exposed {i : Info} {specifiers : List Node} {specifier : Text}
    (hlaid : Laid n) (hwell : n.WellFormed) (hsite : site.exports = exportTable none)
    (hexposed : Exposed n (.exportDeclaration i specifiers specifier true))
    (hwithin : Within none n (.exportDeclaration i specifiers specifier true) none) :
    .reexports specifier ∈ ofNode site n := by
  obtain ⟨target, hvisits⟩ := visits_of_exposed_statement site hwell hexposed hwithin.mem_parts
    (by simp [role])
  obtain ⟨last, hlast, htable⟩ := within_of_visits hvisits hsite
  obtain rfl := hwithin.unique hlaid hlast
  refine hvisits.facts_subset ?_
  rw [of_node_eq]
  exact List.mem_append_left _ (by simp [ownFacts, starFacts, htable, exportTable])

end Binding

end StaticLiteral
