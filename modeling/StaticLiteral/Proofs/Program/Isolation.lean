import Mathlib
import StaticLiteral.Proofs.Binding.Isolation
import StaticLiteral.Proofs.Program.Sources

/-!
# The isolation of functions

What is declared inside a function should not be seen outside of it. `isolated_iff` compares a
program with the one in which a function is left empty: outside the function a name is the same in
both exactly if it was not found inside the function, and so it is for every name if the function
has a frame of its own. A function that is declared directly inside another function has none.
-/

namespace StaticLiteral

/-- The identity of a symbol, its name and the identity of its declaration. -/
def Symbol.outline {ι : Type} (symbol : Symbol ι) : ι × Text × Option NodeId :=
  (symbol.id, symbol.name, symbol.declaration.map Node.id)

/-- The file with the function `target` left empty if it is one of its functions. -/
def SourceFile.emptied (target : NodeId) (source : SourceFile) : SourceFile :=
  { source with
    statements := (Node.placeAll (Path.normalize source.fileName) [0] 0 source.statements).map
      (Node.emptied target) }

/-- The outline of a symbol does not show its declaration. -/
@[simp]
theorem Symbol.outline_emptied {ι : Type} (target : NodeId) (symbol : Symbol ι) :
    (symbol.emptied target).outline = symbol.outline := by
  simp [Symbol.outline, Symbol.emptied, Function.comp_def]

/-- Symbols with the same outline have the same identity. -/
theorem Symbol.id_eq_of_outline_eq {symbol same : BoundSymbol}
    (h : symbol.outline = same.outline) : symbol.id = same.id := congrArg Prod.fst h

/-- What a function hides it hides by its outline. -/
theorem Binding.hides_congr {function : Node} {symbol same : BoundSymbol}
    (h : symbol.outline = same.outline) : Hides function symbol ↔ Hides function same := by
  simp only [Hides, Symbol.id_eq_of_outline_eq h]

/-! ## Files -/

namespace BoundFile

/-- The outline of a symbol does not show the file of an alias. -/
@[simp]
theorem outline_settle (path : Text) (settled : List SymbolId) (symbol : BoundSymbol) :
    (settle path settled symbol).outline = symbol.outline := by
  unfold settle
  split
  · split <;> rfl
  · rfl

/-- Settling changes no scope. -/
theorem last_scope_settled (path : Text) (facts : List Fact) (x : NodeId) :
    Fact.last? (Fact.scope? x) (settled path facts) = Fact.last? (Fact.scope? x) facts := by
  rw [Fact.last?, settled, List.filterMap_map]
  congr 2
  funext fact
  cases fact <;> rfl

/-- Settling changes no outline of a symbol that is found in a frame. -/
theorem outline_declared_in_settled (path : Text) (facts : List Fact) (frame : ScopeId)
    (space : Space) (name : Text) :
    (Fact.declaredIn? (settled path facts) frame space name).map Symbol.outline =
      (Fact.declaredIn? facts frame space name).map Symbol.outline := by
  rw [settled, Binding.declared_in_map, Option.map_map]
  exact congrArg (Option.map · _) (funext fun symbol => outline_settle path _ symbol)

end BoundFile

namespace SourceFile

open BoundFile Binding

variable {source : SourceFile} {function : Node} {x : NodeId}

/-- The tree of a file in which a function is left empty is that of the file, emptied. -/
theorem root_emptied (target : NodeId) (source : SourceFile) :
    (source.emptied target).bound.root = source.bound.root.emptied target := by
  simp only [bound, root, ofSource, emptied, Node.place_all_emptied_place, Node.emptied,
    Node.emptied_all_eq]

/-- If a file is not too deep, neither is the file with a function left empty. -/
theorem is_too_deep_emptied (target : NodeId) (h : source.bound.isTooDeep = false) :
    (source.emptied target).bound.isTooDeep = false := by
  simp only [bound, ofSource, emptied, Node.place_all_emptied_place, decide_eq_false_iff_not,
    Nat.not_lt] at h ⊢
  exact Nat.le_trans (Node.height_of_all_emptied_le target _) h

/-- The facts of a file with a function left empty are those of the emptied tree. -/
theorem facts_emptied (target : NodeId) (h : source.bound.isTooDeep = false) :
    (source.emptied target).bound.facts =
      settled source.bound.path (ofNode source.site (source.bound.root.emptied target)) := by
  rw [facts_eq (is_too_deep_emptied target h), root_emptied]
  rfl

/-- The scope of a place outside the function stays. -/
theorem scope_emptied (hbound : source.bound.isTooDeep = false)
    (hfunction : function ∈ source.bound.root.parts) (hx : ¬ function.id.Encloses x) :
    Fact.last? (Fact.scope? x) (source.emptied function.id).bound.facts =
      Fact.last? (Fact.scope? x) source.bound.facts := by
  rw [facts_emptied function.id hbound, facts_eq hbound, last_scope_settled, last_scope_settled,
    last_scope_emptied (laid_bound source) hfunction hx]

/-- A name in a frame stays what it is if the function does not hide it. -/
theorem declared_in_emptied (hbound : source.bound.isTooDeep = false)
    (hfunction : function ∈ source.bound.root.parts) {frame : ScopeId} {space : Space}
    {name : Text}
    (h : ∀ symbol, Fact.declaredIn? source.bound.facts frame space name = some symbol →
      ¬ Hides function symbol) :
    (Fact.declaredIn? (source.emptied function.id).bound.facts frame space name).map
        Symbol.outline =
      (Fact.declaredIn? source.bound.facts frame space name).map Symbol.outline := by
  have houtline := outline_declared_in_settled source.bound.path
    (ofNode source.site source.bound.root) frame space name
  rw [facts_eq hbound] at h ⊢
  rw [facts_emptied function.id hbound, outline_declared_in_settled,
    Binding.declared_in_emptied (laid_bound source) hfunction fun symbol hsymbol => ?_]
  · simp [houtline, Function.comp_def]
  · rw [hsymbol] at houtline
    obtain ⟨same, hsame, hsameoutline⟩ := Option.map_eq_some_iff.mp houtline
    exact (hides_congr hsameoutline).not.mp (h same hsame)

/-- A function that is left empty hides nothing that is declared. -/
theorem not_hides_emptied (hbound : source.bound.isTooDeep = false)
    (hfunction : function ∈ source.bound.root.parts) (hkind : function.isFunction = true)
    {frame : ScopeId} {space : Space} {name : Text} {symbol : BoundSymbol}
    (h : Fact.declaredIn? (source.emptied function.id).bound.facts frame space name =
      some symbol) : ¬ Hides function symbol := by
  have houtline := outline_declared_in_settled source.bound.path
    (ofNode source.site (source.bound.root.emptied function.id)) frame space name
  rw [facts_emptied function.id hbound] at h
  rw [h] at houtline
  obtain ⟨same, hsame, hsameoutline⟩ := Option.map_eq_some_iff.mp houtline.symm
  obtain ⟨fact, hfact, hsymbol⟩ := Fact.declared_in_mem hsame
  exact (hides_congr hsameoutline).not.mp
    (not_hides_of_mem_emptied (laid_bound source) hfunction hkind hfact hsymbol)

/-- A file for which a scope is recorded is not too deep. -/
theorem is_too_deep_of_scope {scope : BoundScope}
    (h : Fact.last? (Fact.scope? x) source.bound.facts = some scope) :
    source.bound.isTooDeep = false := by
  cases hdeep : source.bound.isTooDeep with
  | false => rfl
  | true =>
      have hnone : source.bound.facts = [] := if_pos (of_decide_eq_true hdeep)
      simp [hnone, Fact.last?] at h

/-- The frames of a recorded scope surround the place that it is recorded for. -/
theorem surrounds_of_scope {scope : BoundScope}
    (h : Fact.last? (Fact.scope? x) source.bound.facts = some scope) :
    ∀ frame ∈ scope, Surrounds source.site x frame := by
  rw [facts_eq (is_too_deep_of_scope h), last_scope_settled] at h
  obtain ⟨fact, hfact, hscope⟩ := Fact.last_mem h
  cases fact with
  | refers y recorded =>
      simp only [Fact.scope?, Option.ite_none_right_eq_some, Option.some.injEq] at hscope
      obtain ⟨rfl, rfl⟩ := hscope
      exact frames_of_refers (laid_bound source) hfact
  | _ => simp [Fact.scope?] at hscope

/-- No frame around a place outside the function declares a name that the function hides, if the
function has a frame of its own. -/
theorem not_surrounds_of_hides (hbound : source.bound.isTooDeep = false)
    (hfunction : function ∈ source.bound.root.parts) (hkind : function.isFunction = true)
    (hframed : IsFramed source.site source.bound.root function) {frame : Frame ScopeId}
    {space : Space} {name : Text} {symbol : BoundSymbol}
    (h : Fact.declaredIn? source.bound.facts frame.id space name = some symbol)
    (hhides : Hides function symbol) (hx : ¬ function.id.Encloses x) :
    ¬ Surrounds source.site x frame := by
  intro hsurrounds
  have houtline := outline_declared_in_settled source.bound.path
    (ofNode source.site source.bound.root) frame.id space name
  rw [facts_eq hbound] at h
  rw [h] at houtline
  obtain ⟨same, hsame, hsameoutline⟩ := Option.map_eq_some_iff.mp houtline.symm
  have hhides := (hides_congr hsameoutline).mpr hhides
  rw [declared_in_eq_last] at hsame
  obtain ⟨fact, hfact, hat⟩ := Fact.last_mem hsame
  obtain ⟨d, rfl, hframe, rfl⟩ := exists_declares_of_declared_at hat
  rcases (of_node_emptied function.id source.site source.bound.root).lost_or_mem hfact with
    hlost | hkept
  -- The frame stands inside the function, so a node in it encloses no place outside.
  · obtain ⟨y, hy, henc⟩ := encloses_frame_of_lost (laid_bound source) hfunction hframed hlost
    rw [hframe] at hy
    rcases hsurrounds with hmem | ⟨z, hz, hzx⟩
    · rcases List.mem_cons.mp hmem with rfl | hmem
      · exact absurd hy nofun
      · obtain rfl := List.mem_singleton.mp hmem
        exact absurd hy nofun
    · obtain rfl := ScopeId.node.inj (hy.symm.trans hz)
      exact hx (henc.trans hzx)
  · exact not_hides_of_mem_emptied (laid_bound source) hfunction hkind hkept rfl hhides

end SourceFile

/-! ## Programs -/

namespace Program

open Binding

variable {config : Config} {sources : List SourceFile} {f : BoundFile}

/-- With a function left empty, a file is found where it was found. -/
theorem file_of_mem (target : NodeId) (hf : f ∈ (ofSources config sources).files) :
    ∃ source : SourceFile, f = source.bound ∧
      (ofSources config (sources.map (SourceFile.emptied target))).file? f.path =
        some (source.emptied target).bound := by
  obtain ⟨source, rfl⟩ := exists_source hf
  refine ⟨source, rfl, ?_⟩
  have hname : ∀ source : SourceFile,
      Path.normalize (source.emptied target).fileName = Path.normalize source.fileName :=
    fun _ => rfl
  rw [file_map hname, file_eq_of_mem hf]
  rfl

/-- Around a place in a file, names are declared by the file, or for all files. -/
theorem declared_of_surrounds {p : Program} {source : SourceFile} {g : BoundFile}
    {frame : Frame ScopeId} {x : NodeId} (hfile : p.file? source.bound.path = some g)
    (hx : x.file = source.bound.path) (h : Surrounds source.site x frame) :
    frame.id = .global ∨ p.declared? frame.id = Fact.declaredIn? g.facts frame.id := by
  have hfacts : p.factsOf source.bound.path = g.facts := by rw [factsOf, hfile]; rfl
  obtain ⟨id, kind⟩ := frame
  rcases h with hmem | ⟨y, rfl, hy⟩
  · rcases List.mem_cons.mp hmem with h | hmem
    · obtain rfl := congrArg Frame.id h
      exact .inr (hfacts ▸ rfl)
    · obtain rfl := congrArg Frame.id (List.mem_singleton.mp hmem)
      exact .inl rfl
  · have hpath : y.file = source.bound.path := hy.1.trans hx
    refine .inr ?_
    rw [← hfacts, ← hpath]
    rfl

/-- No function hides a name of all files. -/
theorem not_hides_of_global {p : Program} {function : Node} {space : Space} {name : Text}
    {symbol : BoundSymbol} (h : p.declared? .global space name = some symbol) :
    ¬ Hides function symbol := by
  simp only [declared?, Option.ite_none_right_eq_some, Option.some.injEq] at h
  rintro ⟨part, _, hid⟩
  simp [← h.2, ambientSymbol] at hid

section

variable {declared others : ScopeId → Space → Text → Option BoundSymbol}
  {Lost : BoundSymbol → Prop} {scope : BoundScope} {space : Space} {name : Text}

/-- If tables of declarations differ in what is lost, look-ups differ in it. -/
theorem lookup_outline_iff
    (hcongr : ∀ {symbol same : BoundSymbol}, symbol.outline = same.outline →
      (Lost symbol ↔ Lost same))
    (hkept : ∀ frame ∈ scope, (∀ symbol, declared frame.id space name = some symbol →
        ¬ Lost symbol) →
      (others frame.id space name).map Symbol.outline =
        (declared frame.id space name).map Symbol.outline)
    (hgone : ∀ frame ∈ scope, ∀ symbol, others frame.id space name = some symbol →
      ¬ Lost symbol) :
    (scope.lookup others space name).map Symbol.outline =
        (scope.lookup declared space name).map Symbol.outline ↔
      ∀ symbol, scope.lookup declared space name = some symbol → ¬ Lost symbol := by
  constructor
  · intro heq symbol hsymbol hlost
    rw [hsymbol] at heq
    obtain ⟨same, hsame, houtline⟩ := Option.map_eq_some_iff.mp heq
    obtain ⟨frame, hframe, hfound⟩ := List.exists_of_findSome?_eq_some hsame
    exact hgone frame hframe same hfound ((hcongr houtline).mpr hlost)
  · intro h
    induction scope with
    | nil => rfl
    | cons frame rest ih =>
        have hkeep := hkept frame (by simp)
        simp only [ScopeChain.lookup, List.findSome?_cons] at h ⊢
        cases hfound : declared frame.id space name with
        | none =>
            have hnone : others frame.id space name = none := by
              simpa [hfound] using hkeep
            simp only [hfound] at h
            simp only [hnone]
            exact ih (fun frame hframe => hkept frame (List.mem_cons_of_mem _ hframe))
              (fun frame hframe => hgone frame (List.mem_cons_of_mem _ hframe)) h
        | some symbol =>
            simp only [hfound] at h hkeep
            obtain ⟨same, hsame, houtline⟩ := Option.map_eq_some_iff.mp (hkeep h)
            simp [hsame, houtline]

end

variable {function place : Node} {scope : BoundScope}

/-- Leave a function of a file empty: a place outside is still looked up from the same scope, and a
name is found to be of the same declaration there exactly if it was not declared inside the
function. It is so for every name if the function has a frame of its own. -/
theorem isolated_iff (config : Config) (sources : List SourceFile)
    (hf : f ∈ (ofSources config sources).files) (hfunction : function ∈ f.root.parts)
    (hkind : function.isFunction = true) (hplace : place ∈ f.root.parts)
    (houtside : place ∉ function.parts)
    (hscope : (ofSources config sources).scopeOf? place = some scope) (space : Space)
    (name : Text) :
    let found := (ofSources config sources).lookup? space name place
    let emptied := ofSources config (sources.map (SourceFile.emptied function.id))
    emptied.scopeOf? place = some scope ∧
    ((emptied.lookup? space name place).map Symbol.outline = found.map Symbol.outline ↔
      ∀ symbol, found = some symbol → ¬ Hides function symbol) ∧
    (IsFramed (BoundFile.site f.path f.source) f.root function →
      (emptied.lookup? space name place).map Symbol.outline = found.map Symbol.outline) := by
  intro found emptied
  obtain ⟨source, rfl, hq⟩ := file_of_mem function.id hf
  have hp := file_eq_of_mem hf
  have hlaid := source.laid_bound
  have hx : ¬ function.id.Encloses place.id :=
    (hlaid.mem_parts_iff hplace hfunction).not.mp houtside
  have hpath : place.id.file = source.bound.path := (hlaid.encloses hplace).1.symm
  have hfacts : Fact.last? (Fact.scope? place.id) source.bound.facts = some scope := by
    rw [scopeOf?, factsOf, hpath, hp] at hscope
    exact hscope
  have hbound := SourceFile.is_too_deep_of_scope hfacts
  have hsurrounds := SourceFile.surrounds_of_scope hfacts
  have hscope' : emptied.scopeOf? place = some scope := by
    rw [scopeOf?, factsOf, hpath, hq]
    exact (source.scope_emptied hbound hfunction hx).trans hfacts
  -- Around the place, a name is one of all files, or one that the file declares in both programs.
  have hframe : ∀ frame ∈ scope, frame.id = .global ∨
      (ofSources config sources).declared? frame.id = Fact.declaredIn? source.bound.facts frame.id ∧
        emptied.declared? frame.id =
          Fact.declaredIn? (source.emptied function.id).bound.facts frame.id := by
    intro frame hframe
    rcases declared_of_surrounds hp hpath (hsurrounds frame hframe) with hglobal | hdeclared
    · exact .inl hglobal
    · exact (declared_of_surrounds hq hpath (hsurrounds frame hframe)).imp_right (⟨hdeclared, ·⟩)
  have hiff : (scope.lookup emptied.declared? space name).map Symbol.outline =
        (scope.lookup (ofSources config sources).declared? space name).map Symbol.outline ↔
      ∀ symbol, scope.lookup (ofSources config sources).declared? space name = some symbol →
        ¬ Hides function symbol := by
    refine lookup_outline_iff hides_congr (fun frame hmem h => ?_) fun frame hmem symbol h => ?_
    · rcases hframe frame hmem with hglobal | ⟨hdeclared, hemptied⟩
      · rw [hglobal]
        rfl
      · rw [hdeclared] at h ⊢
        rw [hemptied]
        exact SourceFile.declared_in_emptied hbound hfunction h
    · rcases hframe frame hmem with hglobal | ⟨_, hemptied⟩
      · rw [hglobal] at h
        exact not_hides_of_global h
      · rw [hemptied] at h
        exact SourceFile.not_hides_emptied hbound hfunction hkind h
  have hfound : found = scope.lookup (ofSources config sources).declared? space name := by
    simp only [found, lookup?, hscope, Option.bind_some]
  have hfound' : emptied.lookup? space name place =
      scope.lookup emptied.declared? space name := by
    simp only [lookup?, hscope', Option.bind_some]
  rw [hfound, hfound']
  refine ⟨hscope', hiff, fun hframed => hiff.mpr fun symbol hsymbol hhides => ?_⟩
  obtain ⟨frame, hmem, h⟩ := List.exists_of_findSome?_eq_some hsymbol
  rcases hframe frame hmem with hglobal | ⟨hdeclared, _⟩
  · rw [hglobal] at h
    exact not_hides_of_global h hhides
  · rw [hdeclared] at h
    exact SourceFile.not_surrounds_of_hides hbound hfunction hkind hframed h hhides hx
      (hsurrounds frame hmem)

/-- The law at a function expression with a parameter that has the name of a constant outside. -/
theorem isolated_iff_parameter :
    let name (t : String) := Node.identifier {} (Text.ofString t)
    let expression := Node.functionExpression {} none [.parameter {} (name "x") none none]
      (some (.block {} []))
    let source : SourceFile :=
      { fileName := Text.ofString "a"
        statements := [
          .variableStatement {} .const [.variableDeclaration {} (name "x") none
            (some (.trueKeyword {}))] false false,
          .variableStatement {} .const [.variableDeclaration {} (name "f") none
            (some expression)] false false,
          .expressionStatement {} (name "x")] }
    let function := Node.place (Text.ofString "a") [2, 0, 0, 1, 0] expression
    let place := Node.place (Text.ofString "a") [0, 2, 0] (name "x")
    ((ofSources {} [source.emptied function.id]).lookup? .value (Text.ofString "x") place).map
        Symbol.outline =
      ((ofSources {} [source]).lookup? .value (Text.ofString "x") place).map Symbol.outline := by
  intro name expression source function place
  have hfile : source.bound ∈ (ofSources {} [source]).files := List.mem_singleton.mpr rfl
  have hfunction : function ∈ source.bound.root.parts :=
    List.mem_of_getElem? (i := 8) (by cbv)
  have hplace : place ∈ source.bound.root.parts := List.mem_of_getElem? (i := 13) (by cbv)
  have houtside : place ∉ function.parts := by
    rw [(source.laid_bound).mem_parts_iff hplace hfunction]
    rintro ⟨_, h⟩
    exact absurd h (by decide)
  have hscope : (ofSources {} [source]).scopeOf? place =
      some (BoundFile.site (Text.ofString "a") source).scope := by cbv
  exact (isolated_iff {} [source] hfile hfunction rfl hplace houtside hscope .value
    (Text.ofString "x")).2.2 (is_framed_of_expression _ _ _ _ _ _)

/-- A constant of a function that is declared inside another function is seen in that one, too. -/
theorem constant_seen_around_function :
    let name (t : String) := Node.identifier {} (Text.ofString t)
    let constant (value : Node) := Node.variableStatement {} .const
      [.variableDeclaration {} (name "x") none (some value)] false false
    let inner := Node.functionDeclaration {} (some (name "inner")) []
      (some (.block {} [constant (.numericLiteral {} (Text.ofString "2"))])) false
    let source : SourceFile :=
      { fileName := Text.ofString "a"
        statements := [
          constant (.numericLiteral {} (Text.ofString "1")),
          .functionDeclaration {} (some (name "outer")) []
            (some (.block {} [inner, .expressionStatement {} (name "x")])) false] }
    let function := Node.place (Text.ofString "a") [0, 0, 2, 1, 0] inner
    let place := Node.place (Text.ofString "a") [0, 1, 0, 2, 1, 0] (name "x")
    function ∈ source.bound.root.parts ∧ function.isFunction = true ∧
      place ∈ source.bound.root.parts ∧ place ∉ function.parts ∧
      ((ofSources {} [source]).scopeOf? place).isSome = true ∧
      ((ofSources {} [source.emptied function.id]).lookup? .value (Text.ofString "x") place).map
          Symbol.outline ≠
        ((ofSources {} [source]).lookup? .value (Text.ofString "x") place).map Symbol.outline := by
  intro name constant inner source function place
  have hfunction : function ∈ source.bound.root.parts :=
    List.mem_of_getElem? (i := 8) (by cbv)
  have hplace : place ∈ source.bound.root.parts := List.mem_of_getElem? (i := 16) (by cbv)
  have houtside : place ∉ function.parts := by
    rw [(source.laid_bound).mem_parts_iff hplace hfunction]
    rintro ⟨_, h⟩
    exact absurd h (by decide)
  refine ⟨hfunction, rfl, hplace, houtside, by cbv, ?_⟩
  have hemptied : ((ofSources {} [source.emptied function.id]).lookup? .value
      (Text.ofString "x") place).map Symbol.outline = some (.node ⟨Text.ofString "a",
        [0, 0, 0, 0, 0]⟩, Text.ofString "x", some ⟨Text.ofString "a", [0, 0, 0, 0]⟩) := by cbv
  have hfound : ((ofSources {} [source]).lookup? .value (Text.ofString "x") place).map
      Symbol.outline = some (.node ⟨Text.ofString "a", [0, 0, 0, 0, 0, 2, 0, 0, 2, 1, 0]⟩,
        Text.ofString "x", some ⟨Text.ofString "a", [0, 0, 0, 0, 2, 0, 0, 2, 1, 0]⟩) := by cbv
  rw [hemptied, hfound]
  simp

end Program

end StaticLiteral
