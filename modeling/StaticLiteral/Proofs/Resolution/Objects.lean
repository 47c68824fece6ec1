import StaticLiteral.Proofs.Program.Properties
import StaticLiteral.Proofs.Resolution.Aggregate

/-!
# Object literals

An object literal of a program resolves to the table of its assignments: under each key the value of
the last assignment of that key, the keys in the order of their first assignments. The text of a key
is told by what is written: a name is its own text whatever else has that name, and a number is what
it would be written as. `object_of_assignments` says so wherever in a request the literal is met.
-/

namespace StaticLiteral

/-! ## The keys of tables -/

/-- A key that is put into a table stays where it is, or comes last. -/
theorem keys_put_entry {α : Type} (key : Text) (value : α) (entries : List (Text × α)) :
    (putEntry key value entries).map (·.1) =
      if key ∈ entries.map (·.1) then entries.map (·.1) else entries.map (·.1) ++ [key] := by
  induction entries with
  | nil => rfl
  | cons entry rest ih =>
      obtain ⟨k, v⟩ := entry
      unfold putEntry
      by_cases hk : k = key
      · simp [hk]
      · rw [if_neg hk, List.map_cons, ih]
        have hmem : key ∈ ((k, v) :: rest).map (·.1) ↔ key ∈ rest.map (·.1) := by
          simp [Ne.symm hk]
        simp only [hmem]
        split <;> rfl

/-- The keys that are put into a table one after the other come behind those that are there, in the
order in which they come first. -/
theorem keys_foldl_put_entry {α : Type} (rows entries : List (Text × α)) :
    (rows.foldl (fun table row => putEntry row.1 row.2 table) entries).map (·.1) =
      entries.map (·.1) ++
        ((rows.map (·.1)).filter fun key => key ∉ entries.map (·.1)).eraseDups := by
  induction rows generalizing entries with
  | nil => simp
  | cons row rest ih =>
      rw [List.foldl_cons, ih, keys_put_entry, List.map_cons]
      by_cases hmem : row.1 ∈ entries.map (·.1)
      · rw [if_pos hmem, List.filter_cons_of_neg (by simpa using hmem)]
      · rw [if_neg hmem, List.filter_cons_of_pos (by simpa using hmem), List.eraseDups_cons,
          List.filter_filter, List.append_assoc, List.singleton_append]
        congr 3
        refine List.filter_congr fun key _ => ?_
        have hmem : key ∈ entries.map (·.1) ++ [row.1] ↔ key ∈ entries.map (·.1) ∨ key = row.1 := by
          rw [List.mem_append, List.mem_singleton]
        by_cases hkey : key = row.1 <;> simp only [hmem, hkey] <;> simp [hkey]

/-- The table holds the last value of each key of the rows, and the keys in the order in which they
come first. -/
structure Tabulates {α : Type} (rows entries : List (Text × α)) : Prop where
  mem_iff : ∀ key, key ∈ entries.map (·.1) ↔ key ∈ rows.map (·.1)
  order : entries.map (·.1) = (rows.map (·.1)).eraseDups
  lookup : ∀ key, entries.lookup key = rows.reverse.lookup key

/-- Rows that are put into a table one after the other are tabulated. -/
theorem tabulates_foldl_put_entry {α : Type} (rows : List (Text × α)) :
    Tabulates rows (rows.foldl (fun table row => putEntry row.1 row.2 table) []) := by
  have horder : (rows.foldl (fun table row => putEntry row.1 row.2 table) []).map (·.1) =
      (rows.map (·.1)).eraseDups := by
    rw [keys_foldl_put_entry]
    simp
  refine ⟨fun key => ?_, horder, fun key => ?_⟩
  · rw [horder, List.mem_eraseDups]
  · rw [lookup_foldl_put_entry]
    simp

namespace Resolution

/-- The text under which an assignment with this key counts, if it has one: that of a name or a
string, what a number, a bigint or a truth value is written as, and what anything else resolves to
as a text. -/
def KeyText (resolve : Node → Answer) (name : Node) (key : Option Text) : Prop :=
  match name with
  | .identifier _ text | .stringLiteral _ text => key = some text
  | .numericLiteral _ text => key = (NumericLiteral.value? text).map Double.toText
  | .bigintLiteral _ text =>
    match BigintLiteral.value text with
    | .ok n => key ≠ none ∧ key = Numeral.text? n
    | .error _ => key = none
  | .trueKeyword _ => key = some (Text.ofString "true")
  | .falseKeyword _ => key = some (Text.ofString "false")
  | .computedPropertyName _ e => ∃ value, resolve e = .ok value ∧ coerced value = .ok key
  | name => ∃ value, resolve name = .ok value ∧ coerced value = .ok key

/-- The keys and values of the assignments among the properties, in their order. All keys are
resolved without a failure, and so are the values under a key. Assignments whose key has no text and
other properties are left out. -/
inductive Assigned (resolve : Node → Answer) : List Node → List (Text × Option Value) → Prop where
  | nil : Assigned resolve [] []
  | assignment {i : Info} {name init : Node} {rest : List Node} {named value : Option Value}
      {key : Text} {rows : List (Text × Option Value)} (hname : resolve name = .ok named)
      (hkey : KeyText resolve name (some key)) (hvalue : resolve init = .ok value)
      (h : Assigned resolve rest rows) :
      Assigned resolve (.propertyAssignment i name init :: rest) ((key, value) :: rows)
  | keyless {i : Info} {name init : Node} {rest : List Node} {named : Option Value}
      {rows : List (Text × Option Value)} (hname : resolve name = .ok named)
      (hkey : KeyText resolve name none) (h : Assigned resolve rest rows) :
      Assigned resolve (.propertyAssignment i name init :: rest) rows
  | other {property : Node} {rest : List Node} {rows : List (Text × Option Value)}
      (hproperty : ∀ i name init, property ≠ .propertyAssignment i name init)
      (h : Assigned resolve rest rows) : Assigned resolve (property :: rest) rows

variable {config : Config} {sources : List SourceFile} {typing depth : Nat} {busy : List SymbolId}

/-- A key that is written as a name resolves to its text, unless the property itself is in
flight. -/
theorem value_of_key {i j k : Info} {text : Text} {init : Node} {properties : List Node}
    (hplaced : (Program.ofSources config sources).Placed (.objectLiteral i properties))
    (hproperty : .propertyAssignment j (.identifier k text) init ∈ properties)
    (hfree : .node k.id ∉ busy) {value : Option Value}
    (h : ofNode ((Program.ofSources config sources).modelWithin typing) depth busy
      (.identifier k text) = .ok value) : value = some (.text text) := by
  cases depth with
  | zero => cases h
  | succ depth =>
      have hat : ((Program.ofSources config sources).modelWithin typing).symbolAt
          (.identifier k text) = .ok ((Program.ofSources config sources).symbolAt?
            (.identifier k text)) := rfl
      rw [ofNode, hat] at h
      rcases Program.symbol_at_placed_key hplaced hproperty with hnone | hsome
      · rw [hnone] at h
        exact (Except.ok.inj h).symm
      · rw [hsome] at h
        cases depth with
        | zero => cases h
        | succ depth =>
            have hkey : ofSymbol ((Program.ofSources config sources).modelWithin typing)
                (depth + 1) busy
                (Binding.keySymbol (.propertyAssignment j (.identifier k text) init) k.id text) =
                .ok (some (.text text)) := by
              show (if true = true ∧ SymbolId.node k.id ∈ busy then _ else _) = _
              rw [if_neg (by simpa using hfree)]
              rfl
            exact Except.ok.inj (h.symm.trans hkey)

/-- What a key resolves to has the text of the key, if that is so of a key that is written as a
name. -/
theorem coerced_of_key_text {p : Program} {name : Node} {named : Option Value} {key : Option Text}
    (hname : ofNode (p.modelWithin typing) depth busy name = .ok named)
    (hidentifier : ∀ i text, name = .identifier i text → named = some (.text text))
    (hkey : KeyText (ofNode (p.modelWithin typing) depth busy) name key) :
    coerced named = .ok key := by
  cases depth with
  | zero => cases hname
  | succ depth =>
      cases name with
      | identifier i text =>
          obtain rfl := hidentifier i text rfl
          obtain rfl : key = some text := hkey
          rfl
      | stringLiteral i text =>
          obtain rfl := Except.ok.inj hname
          obtain rfl : key = some text := hkey
          rfl
      | numericLiteral i text =>
          obtain rfl := Except.ok.inj hname
          obtain rfl : key = (NumericLiteral.value? text).map Double.toText := hkey
          cases h : NumericLiteral.value? text <;> simp [numericLiteral, h, coerced, Value.coerce?]
      | bigintLiteral i text =>
          obtain rfl := Except.ok.inj hname
          unfold KeyText at hkey
          cases h : BigintLiteral.value text with
          | ok n =>
              simp only [h] at hkey
              obtain ⟨hdigits, rfl⟩ := hkey
              obtain ⟨digits, hdigits⟩ := Option.ne_none_iff_exists'.mp hdigits
              simp [bigintLiteral, h, coerced, Value.coerce?, hdigits]
          | error e =>
              simp only [h] at hkey
              simp [bigintLiteral, h, coerced, hkey]
      | trueKeyword i | falseKeyword i =>
          obtain rfl := Except.ok.inj hname
          obtain rfl : key = some _ := hkey
          rfl
      | computedPropertyName i e =>
          obtain ⟨value, hvalue, hcoerced⟩ := hkey
          have hinner : ofNode (p.modelWithin typing) depth busy e = .ok named := hname
          have hreached : ofNode (p.modelWithin typing) depth busy e ≠ .error .tooDeep := by
            simp [hinner]
          have hdeep := (of_node_deepened (Nat.le_succ depth) busy e).eq hreached
          rw [hdeep, hinner] at hvalue
          exact Except.ok.inj hvalue ▸ hcoerced
      | _ =>
          obtain ⟨value, hvalue, hcoerced⟩ := hkey
          obtain rfl := Except.ok.inj (hvalue.symm.trans hname)
          exact hcoerced

/-- The entries of an object are its assignments, put into a table one after the other. -/
theorem object_entries_of_assigned {resolve : Node → Answer} {properties : List Node}
    {rows : List (Text × Option Value)} (h : Assigned resolve properties rows)
    (hkeys : ∀ i name init named key, .propertyAssignment i name init ∈ properties →
      resolve name = .ok named → KeyText resolve name key → coerced named = .ok key)
    (entries : List (Text × Option Value)) :
    objectEntries resolve entries properties =
      .ok (rows.foldl (fun table row => putEntry row.1 row.2 table) entries) := by
  induction h generalizing entries with
  | nil => rfl
  | @assignment i name init rest named value key rows hname hkey hvalue _ ih =>
      have hcoerced := hkeys i name init named _ List.mem_cons_self hname hkey
      have hrest := ih fun i name init named key hmem => hkeys i name init named key
        (List.mem_cons_of_mem _ hmem)
      simp only [objectEntries, hname, bind, Except.bind, hcoerced, hvalue, hrest,
        List.foldl_cons]
  | @keyless i name init rest named rows hname hkey _ ih =>
      have hcoerced := hkeys i name init named _ List.mem_cons_self hname hkey
      have hrest := ih fun i name init named key hmem => hkeys i name init named key
        (List.mem_cons_of_mem _ hmem)
      simp only [objectEntries, hname, bind, Except.bind, hcoerced, hrest]
  | @other property rest rows hproperty _ ih =>
      have hrest := ih fun i name init named key hmem => hkeys i name init named key
        (List.mem_cons_of_mem _ hmem)
      cases property with
      | propertyAssignment i name init => exact absurd rfl (hproperty i name init)
      | _ => exact hrest entries

/-- An object literal of a program resolves to the table of its assignments if its keys, and the
values under a key, resolve without a failure and none of its properties is in flight. -/
theorem object_of_assigned {i : Info} {properties : List Node}
    {rows : List (Text × Option Value)}
    (hplaced : (Program.ofSources config sources).Placed (.objectLiteral i properties))
    (hfree : ∀ j k text init, .propertyAssignment j (.identifier k text) init ∈ properties →
      .node k.id ∉ busy)
    (h : Assigned (ofNode ((Program.ofSources config sources).modelWithin typing) depth busy)
      properties rows) :
    ∃ entries, Tabulates rows entries ∧
      ofNode ((Program.ofSources config sources).modelWithin typing) (depth + 1) busy
        (.objectLiteral i properties) = .ok (some (.object entries)) := by
  have hentries := object_entries_of_assigned h
    (fun j name init named key hmem hname hkey => coerced_of_key_text hname
      (fun k text heq => by
        subst heq
        exact value_of_key hplaced hmem (hfree j k text init hmem) hname) hkey) []
  refine ⟨_, tabulates_foldl_put_entry rows, ?_⟩
  simp only [ofNode, hentries]
  rfl

/-- Wherever in a request an object literal of a program is met, it resolves to the table of its
assignments if its keys, and the values under a key, resolve without a failure; so does a request
for the literal itself. The only symbols that must not be in flight are the properties of the
literal, and a property never is: it is told at once. -/
theorem object_of_assignments {config : Config} {sources : List SourceFile} {i : Info}
    {properties : List Node}
    (hplaced : (Program.ofSources config sources).Placed (.objectLiteral i properties)) :
    (∀ typing depth busy rows,
      (∀ j k text init, .propertyAssignment j (.identifier k text) init ∈ properties →
        .node k.id ∉ busy) →
      Assigned (ofNode ((Program.ofSources config sources).modelWithin typing) depth busy)
        properties rows →
      ∃ entries, Tabulates rows entries ∧
        ofNode ((Program.ofSources config sources).modelWithin typing) (depth + 1) busy
          (.objectLiteral i properties) = .ok (some (.object entries))) ∧
    ∀ rows,
      Assigned (ofNode (Program.ofSources config sources).model (depthLimit - 1) [])
        properties rows →
      ∃ entries, Tabulates rows entries ∧
        ((Program.ofSources config sources).resolve (.objectLiteral i properties)).value =
          some (.object entries) := by
  refine ⟨fun typing depth busy rows hfree hrows => object_of_assigned hplaced hfree hrows,
    fun rows hrows => ?_⟩
  have hfree : ∀ j k text init, .propertyAssignment j (.identifier k text) init ∈ properties →
      .node k.id ∉ ([] : List SymbolId) := by simp
  obtain ⟨entries, htable, hvalue⟩ := object_of_assigned hplaced hfree hrows
  exact ⟨entries, htable, resolve_value_eq_some_iff.mpr hvalue⟩

/-- The law at an object with a key that is the name of a variable, a computed key that is there
already and a number that is written in another way. -/
theorem object_of_assignments_keys_alike :
    let name (t : String) := Node.identifier {} (Text.ofString t)
    let text (t : String) := Node.stringLiteral {} (Text.ofString t)
    let properties := [.propertyAssignment {} (name "n") (text "x"),
      .propertyAssignment {} (text "k") (name "n"),
      .propertyAssignment {} (.computedPropertyName {} (name "n")) (.trueKeyword {}),
      .propertyAssignment {} (.numericLiteral {} (Text.ofString "1.0")) (text "y")]
    let file : SourceFile :=
      { fileName := Text.ofString "a"
        statements := [
          .variableStatement {} .const [.variableDeclaration {} (name "n") none (some (text "k"))]
            false false,
          .expressionStatement {} (.objectLiteral {} properties)] }
    let literal := Node.place (Text.ofString "a") [0, 1, 0] (.objectLiteral {} properties)
    ∃ entries, Tabulates [
        (Text.ofString "n", some (.text (Text.ofString "x"))),
        (Text.ofString "k", some (.text (Text.ofString "k"))),
        (Text.ofString "k", some (.boolean true)),
        (Text.ofString "1", some (.text (Text.ofString "y")))] entries ∧
      ((Program.ofSources {} [file]).resolve literal).value = some (.object entries) := by
  intro name text properties file literal
  have hplaced : (Program.ofSources {} [file]).Placed literal :=
    ⟨_, List.mem_singleton_self _, List.mem_of_getElem? (i := 6) (by cbv)⟩
  have hone : some (Text.ofString "1") =
      (NumericLiteral.value? (Text.ofString "1.0")).map Double.toText := by decide +kernel
  refine (object_of_assignments hplaced).2 _ ?_
  refine .assignment (by cbv) (by rfl) (by rfl) ?_
  refine .assignment (by rfl) (by rfl) (by cbv) ?_
  refine .assignment (by cbv) ⟨_, by cbv, by rfl⟩ (by rfl) ?_
  exact .assignment (by rfl) hone (by rfl) .nil

end Resolution

end StaticLiteral
