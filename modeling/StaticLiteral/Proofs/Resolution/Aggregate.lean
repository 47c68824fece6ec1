import Mathlib
import StaticLiteral.Program.Report
import StaticLiteral.Proofs.Resolution.Depth

/-!
# Aggregates and the requests for their parts

An array or object literal is put together from the values that its parts have as requests of
their own. `aggregate_keeps_places_iff` says when: exactly if none of these requests fails. A part
without a value leaves `none` in its place, but the failure of one part leaves the whole literal
without a value.
-/

namespace StaticLiteral

/-! ## Tables of entries -/

/-- Looking a key up compares it with the first entry. -/
theorem lookup_cons_eq_ite {α : Type} (key other : Text) (value : α) (rest : List (Text × α)) :
    ((key, value) :: rest).lookup other =
      if other = key then some value else rest.lookup other := by
  by_cases h : other = key
  · simp [h]
  · simp [List.lookup_cons, beq_eq_false_iff_ne.mpr h, h]

/-- An entry is found under its own key, and other keys are as before. -/
theorem lookup_put_entry {α : Type} (key : Text) (value : α) (entries : List (Text × α))
    (other : Text) :
    (putEntry key value entries).lookup other =
      if other = key then some value else entries.lookup other := by
  induction entries with
  | nil => simp [putEntry, lookup_cons_eq_ite]
  | cons entry rest ih =>
      obtain ⟨k, v⟩ := entry
      simp only [putEntry]
      by_cases hk : k = key
      · by_cases h : other = key <;> simp [hk, lookup_cons_eq_ite, h]
      · rw [if_neg hk, lookup_cons_eq_ite, lookup_cons_eq_ite, ih]
        by_cases h : other = k
        · simp [h, hk]
        · simp [h]

/-- Of entries put one after the other the last under a key counts. -/
theorem lookup_foldl_put_entry {α : Type} (rows entries : List (Text × α)) (key : Text) :
    (rows.foldl (fun table row => putEntry row.1 row.2 table) entries).lookup key =
      (rows.reverse.lookup key).or (entries.lookup key) := by
  induction rows generalizing entries with
  | nil => rfl
  | cons row rest ih =>
      rw [List.foldl_cons, ih, lookup_put_entry, List.reverse_cons, List.lookup_append,
        Option.or_assoc, lookup_cons_eq_ite]
      by_cases h : key = row.1 <;> simp [h]

namespace Program

/-- A request about the node ends without a failure. -/
def Answers (p : Program) (node : Node) : Prop := (p.resolve node).warning = none

/-- A request about the node does not reach the limit of depth. -/
def IsShallow (p : Program) (node : Node) : Prop :=
  Resolution.ofNode p.model Resolution.depthLimit [] node ≠ .error .tooDeep

/-- No request about a part of a property fails: neither that about its name, nor writing the
name's value as a key, nor that about the value if there is a key for it. -/
def PropertyAnswers (p : Program) : Node → Prop
  | .propertyAssignment _ name init =>
    p.Answers name ∧ ∃ key, Resolution.coerced (p.resolve name).value = .ok key ∧
      (key ≠ none → p.Answers init)
  | _ => True

/-- The key of an assignment with the value of a request about its initializer. Anything but an
assignment under a key has none. -/
def assignment? (p : Program) : Node → Option (Text × Option Value)
  | .propertyAssignment _ name init =>
    match Resolution.coerced (p.resolve name).value with
    | .ok (some key) => some (key, (p.resolve init).value)
    | _ => none
  | _ => none

end Program

namespace Resolution

variable {p : Program}

/-- A request ends well exactly if the answer within the limit is its value. -/
theorem of_node_eq_ok_iff {node : Node} {value : Option Value} :
    ofNode p.model depthLimit [] node = .ok value ↔
      p.Answers node ∧ value = (p.resolve node).value := by
  unfold Program.Answers Program.resolve resolve
  cases ofNode p.model depthLimit [] node with
  | ok v => simp [Outcome.ofAnswer, eq_comm]
  | error failure => cases h : failure.message? <;> simp [Outcome.ofAnswer, h]

/-- A request ends with a value exactly if it ends well and that is its value. -/
theorem resolve_value_eq_some_iff {node : Node} {value : Value} :
    (p.resolve node).value = some value ↔
      ofNode p.model depthLimit [] node = .ok (some value) := by
  unfold Program.resolve resolve
  cases ofNode p.model depthLimit [] node with
  | ok v => simp [Outcome.ofAnswer]
  | error failure => cases h : failure.message? <;> simp [Outcome.ofAnswer, h]

/-- Requests about some nodes end well exactly if each does. -/
theorem map_m_eq_ok_iff {nodes : List Node} {values : List (Option Value)} :
    nodes.mapM (ofNode p.model depthLimit []) = .ok values ↔
      (∀ n ∈ nodes, p.Answers n) ∧ values = nodes.map fun n => (p.resolve n).value := by
  induction nodes generalizing values with
  | nil => simp [pure, Except.pure, eq_comm]
  | cons node rest ih =>
      simp only [List.mapM_cons, List.forall_mem_cons, List.map_cons]
      constructor
      · intro h
        obtain ⟨value, hvalue, h⟩ := bind_eq_ok_iff.mp h
        obtain ⟨others, hothers, h⟩ := bind_eq_ok_iff.mp h
        obtain ⟨hnode, rfl⟩ := of_node_eq_ok_iff.mp hvalue
        obtain ⟨hrest, rfl⟩ := ih.mp hothers
        exact ⟨⟨hnode, hrest⟩, (Except.ok.inj h).symm⟩
      · rintro ⟨⟨hnode, hrest⟩, rfl⟩
        rw [of_node_eq_ok_iff.mpr ⟨hnode, rfl⟩, ih.mpr ⟨hrest, rfl⟩]
        rfl

/-- The entries of an object literal are those of its assignments, one put after the other, and
they are found exactly if no request about a part fails. -/
theorem object_entries_eq_ok_iff {properties : List Node}
    {entries result : List (Text × Option Value)} :
    objectEntries (ofNode p.model depthLimit []) entries properties = .ok result ↔
      (∀ n ∈ properties, p.PropertyAnswers n) ∧
        result = (properties.filterMap p.assignment?).foldl
          (fun table row => putEntry row.1 row.2 table) entries := by
  induction properties generalizing entries with
  | nil => simp [objectEntries, eq_comm]
  | cons property rest ih =>
      rw [List.forall_mem_cons]
      cases property with
      | propertyAssignment i name init =>
          simp only [objectEntries, Program.PropertyAnswers]
          constructor
          · intro h
            obtain ⟨value, hvalue, h⟩ := bind_eq_ok_iff.mp h
            obtain ⟨key, hkey, h⟩ := bind_eq_ok_iff.mp h
            obtain ⟨hname, rfl⟩ := of_node_eq_ok_iff.mp hvalue
            -- No request is made about the initializer of a property without a key.
            cases key with
            | none =>
                obtain ⟨hrest, rfl⟩ := ih.mp h
                refine ⟨⟨⟨hname, none, hkey, by simp⟩, hrest⟩, ?_⟩
                simp [Program.assignment?, hkey]
            | some key =>
                obtain ⟨stored, hstored, h⟩ := bind_eq_ok_iff.mp h
                obtain ⟨hinit, rfl⟩ := of_node_eq_ok_iff.mp hstored
                obtain ⟨hrest, rfl⟩ := ih.mp h
                refine ⟨⟨⟨hname, some key, hkey, fun _ => hinit⟩, hrest⟩, ?_⟩
                simp [Program.assignment?, hkey]
          · rintro ⟨⟨⟨hname, key, hkey, hinit⟩, hrest⟩, rfl⟩
            rw [of_node_eq_ok_iff.mpr ⟨hname, rfl⟩]
            refine bind_eq_ok_iff.mpr ⟨_, rfl, bind_eq_ok_iff.mpr ⟨key, hkey, ?_⟩⟩
            cases key with
            | none => exact ih.mpr ⟨hrest, by simp [Program.assignment?, hkey]⟩
            | some key =>
                rw [of_node_eq_ok_iff.mpr ⟨hinit (by simp), rfl⟩]
                exact ih.mpr ⟨hrest, by simp [Program.assignment?, hkey]⟩
      | _ =>
          simp only [objectEntries, Program.PropertyAnswers, true_and, ih]
          rfl

/-- Short of the limit a literal resolves to what its parts resolve to as requests of their own. -/
theorem of_node_eq_of_is_shallow {node : Node} (h : p.IsShallow node) :
    ofNode p.model depthLimit [] node = ofNode p.model (depthLimit + 1) [] node :=
  ((of_node_deepened (Nat.le_succ _) [] node).eq h).symm

/-- An array literal resolves exactly if no request about an element fails, and then to the values
of its elements in their places. -/
theorem array_value_iff {i : Info} {elements : List Node} {value : Value}
    (h : p.IsShallow (.arrayLiteral i elements)) :
    (p.resolve (.arrayLiteral i elements)).value = some value ↔
      (∀ e ∈ elements, p.Answers e) ∧
        value = .array (elements.map fun e => (p.resolve e).value) := by
  rw [resolve_value_eq_some_iff, of_node_eq_of_is_shallow h]
  simp only [ofNode, bind_eq_ok_iff, map_m_eq_ok_iff]
  constructor
  · rintro ⟨_, ⟨hanswers, rfl⟩, hvalue⟩
    exact ⟨hanswers, (Option.some.inj (Except.ok.inj hvalue)).symm⟩
  · rintro ⟨hanswers, rfl⟩
    exact ⟨_, ⟨hanswers, rfl⟩, rfl⟩

/-- An object literal resolves exactly if no request about a part of a property fails, and then to
the entries of its assignments, one put after the other. -/
theorem object_value_iff {i : Info} {properties : List Node} {value : Value}
    (h : p.IsShallow (.objectLiteral i properties)) :
    (p.resolve (.objectLiteral i properties)).value = some value ↔
      (∀ n ∈ properties, p.PropertyAnswers n) ∧
        value = .object ((properties.filterMap p.assignment?).foldl
          (fun table row => putEntry row.1 row.2 table) []) := by
  rw [resolve_value_eq_some_iff, of_node_eq_of_is_shallow h]
  simp only [ofNode, bind_eq_ok_iff, object_entries_eq_ok_iff]
  constructor
  · rintro ⟨_, ⟨hanswers, rfl⟩, hvalue⟩
    exact ⟨hanswers, (Option.some.inj (Except.ok.inj hvalue)).symm⟩
  · rintro ⟨hanswers, rfl⟩
    exact ⟨_, ⟨hanswers, rfl⟩, rfl⟩

/-- Below the limit of depth, an array literal resolves to the array of the values of its elements,
and an object literal to an object with the value of the last assignment under each key, exactly
if no request about a part of it fails. If one does, the literal has no value at all. -/
theorem aggregate_keeps_places_iff (p : Program) (i : Info) (parts : List Node) :
    (p.IsShallow (.arrayLiteral i parts) →
      ((p.resolve (.arrayLiteral i parts)).value =
          some (.array (parts.map fun e => (p.resolve e).value)) ↔
        ∀ e ∈ parts, p.Answers e) ∧
      ((p.resolve (.arrayLiteral i parts)).value = none ↔ ∃ e ∈ parts, ¬ p.Answers e)) ∧
    (p.IsShallow (.objectLiteral i parts) →
      ((∃ entries, (p.resolve (.objectLiteral i parts)).value = some (.object entries) ∧
          ∀ key, entries.lookup key = (parts.filterMap p.assignment?).reverse.lookup key) ↔
        ∀ n ∈ parts, p.PropertyAnswers n) ∧
      ((p.resolve (.objectLiteral i parts)).value = none ↔
        ∃ n ∈ parts, ¬ p.PropertyAnswers n)) := by
  refine ⟨fun h => ⟨?_, ?_⟩, fun h => ⟨?_, ?_⟩⟩
  · rw [array_value_iff h]
    exact and_iff_left rfl
  · rw [Option.eq_none_iff_forall_ne_some]
    simp only [ne_eq, array_value_iff h]
    grind
  · constructor
    · rintro ⟨entries, hvalue, _⟩
      exact ((object_value_iff h).mp hvalue).1
    · intro hanswers
      refine ⟨_, (object_value_iff h).mpr ⟨hanswers, rfl⟩, fun key => ?_⟩
      simp [lookup_foldl_put_entry]
  · rw [Option.eq_none_iff_forall_ne_some]
    simp only [ne_eq, object_value_iff h]
    grind

/-- The law at an array of a truth value and a pattern that is never closed. -/
theorem aggregate_keeps_places_open_group :
    let p := Program.ofSources {} []
    let parts : List Node :=
      [.trueKeyword {}, .regularExpressionLiteral {} (Text.ofString "/(/")]
    p.IsShallow (.arrayLiteral {} parts) ∧
      (p.resolve (.arrayLiteral {} parts)).value = some (.array [some (.boolean true), none]) := by
  intro p parts
  have hvalue : ofNode p.model depthLimit [] (.arrayLiteral {} parts) =
      .ok (some (.array [some (.boolean true), none])) := by cbv
  have hshallow : p.IsShallow (.arrayLiteral {} parts) := by
    rw [Program.IsShallow, hvalue]
    simp
  have htrue : ofNode p.model depthLimit [] (.trueKeyword {}) = .ok (some (.boolean true)) := by
    cbv
  have hgroup : ofNode p.model depthLimit []
      (.regularExpressionLiteral {} (Text.ofString "/(/")) = .ok none := by cbv
  refine ⟨hshallow, ?_⟩
  rw [(((aggregate_keeps_places_iff p {} parts).1 hshallow).1).mpr ?_]
  · simp only [parts, List.map_cons, List.map_nil, ← (of_node_eq_ok_iff.mp htrue).2,
      ← (of_node_eq_ok_iff.mp hgroup).2]
  · simp only [parts, List.forall_mem_cons]
    exact ⟨(of_node_eq_ok_iff.mp htrue).1, (of_node_eq_ok_iff.mp hgroup).1, by simp⟩

/-- A pattern that repeats too often costs the array around it the text beside it, too. -/
theorem array_lost_to_repetition :
    let p := Program.ofSources {} []
    let text := Node.stringLiteral {} (Text.ofString "x")
    let pattern := Node.regularExpressionLiteral {} (Text.ofString "/a\x7b4294967295\x7d/")
    p.IsShallow (.arrayLiteral {} [text, pattern]) ∧
      (p.resolve text).value = some (.text (Text.ofString "x")) ∧
      (p.resolve pattern).value = none ∧
      (p.resolve (.arrayLiteral {} [text, pattern])).value = none := by
  intro p text pattern
  have hvalue : ofNode p.model depthLimit [] (.arrayLiteral {} [text, pattern]) =
      .error (.brokenPattern .tooManyRepetitions) := by cbv
  refine ⟨?_, by cbv, by cbv, by cbv⟩
  rw [Program.IsShallow, hvalue]
  simp

end Resolution

end StaticLiteral
