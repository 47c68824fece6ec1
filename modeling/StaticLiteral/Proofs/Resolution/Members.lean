import StaticLiteral.Proofs.Binding.Members
import StaticLiteral.Proofs.Resolution.Objects
import StaticLiteral.Proofs.Values

/-!
# Members and entries of object literals

The symbol of an object literal has a table of members, entered under the texts that the keys are
written with, and the literal resolves to a table of entries, under the keys as texts. The two
differ on numbers, which are written in many ways: `members_agree_iff` says exactly when they still
agree.
-/

namespace StaticLiteral

/-- The key of an assignment as it is written, for names, strings and numbers. -/
def Node.enteredKey? : Node → Option Text
  | .propertyAssignment _ name _ => name.writtenName?
  | _ => none

/-- The key of an assignment as a text, for names, strings and valid numbers. -/
def Node.heldKey? : Node → Option Text
  | .propertyAssignment _ (.numericLiteral _ text) _ =>
    (NumericLiteral.value? text).map Double.toText
  | property => property.enteredKey?

/-- The last of the properties whose key as a text is this one. -/
def holder? (properties : List Node) (key : Text) : Option Node :=
  properties.reverse.find? (·.heldKey? = some key)

/-- The members of an object literal have the names of its entries, and are declared by the
assignments that the entries have their values from. -/
structure MembersAgree (properties : List Node) (members : List (Text × BoundSymbol))
    (entries : List (Text × Option Value)) : Prop where
  names : ∀ key, key ∈ members.map (·.1) ↔ key ∈ entries.map (·.1)
  declarations : ∀ key member, members.lookup key = some member →
    member.declaration = holder? properties key

/-! ## Tables of rows -/

section Rows

variable {α β : Type} {row? : α → Option (Text × β)} {key? : α → Option Text} {xs : List α}

/-- The first row of a key, among the rows that some things have, is that of the first thing with
this key. -/
theorem lookup_filter_map (hkey : ∀ x ∈ xs, (row? x).map (·.1) = key? x) (key : Text) :
    (xs.filterMap row?).lookup key =
      (xs.find? (key? · = some key)).bind fun x => (row? x).map (·.2) := by
  induction xs with
  | nil => rfl
  | cons x rest ih =>
      obtain ⟨hx, hrest⟩ := List.forall_mem_cons.mp hkey
      cases hrow : row? x with
      | none => simp [hrow, ih hrest, ← hx]
      | some row =>
          obtain ⟨k, v⟩ := row
          by_cases hk : key = k
          · simp [hrow, hk, ← hx]
          · simp [hrow, ih hrest, ← hx, lookup_cons_eq_ite, hk, Ne.symm hk]

/-- In a table of the rows of some things, a key has the row of the last thing with this key. -/
theorem Tabulates.lookup_eq_last {entries : List (Text × β)}
    (h : Tabulates (xs.filterMap row?) entries)
    (hkey : ∀ x ∈ xs, (row? x).map (·.1) = key? x) (key : Text) :
    entries.lookup key =
      (xs.reverse.find? (key? · = some key)).bind fun x => (row? x).map (·.2) := by
  rw [h.lookup, ← List.filterMap_reverse]
  exact lookup_filter_map (fun x hx => hkey x (List.mem_reverse.mp hx)) key

/-- A table of the rows of some things has the keys of these things. -/
theorem Tabulates.mem_iff_last {entries : List (Text × β)}
    (h : Tabulates (xs.filterMap row?) entries)
    (hkey : ∀ x ∈ xs, (row? x).map (·.1) = key? x) (key : Text) :
    key ∈ entries.map (·.1) ↔ (xs.reverse.find? (key? · = some key)).isSome := by
  rw [h.mem_iff, List.find?_isSome]
  constructor
  · intro hmem
    obtain ⟨row, hrow, rfl⟩ := List.mem_map.mp hmem
    obtain ⟨x, hx, hrow⟩ := List.mem_filterMap.mp hrow
    exact ⟨x, List.mem_reverse.mpr hx, by simp [← hkey x hx, hrow]⟩
  · rintro ⟨x, hx, hname⟩
    have hx := List.mem_reverse.mp hx
    have hsome := (hkey x hx).trans (of_decide_eq_true hname)
    obtain ⟨row, hrow, rfl⟩ := Option.map_eq_some_iff.mp hsome
    exact List.mem_map_of_mem (List.mem_filterMap.mpr ⟨x, hx, hrow⟩)

end Rows

/-- A name in a table is the last of its rows. -/
theorem Fact.entered_eq_lookup (facts : List Fact) (table : Table) (key : Text) :
    entered? facts table key = (facts.filterMap (row? table)).reverse.lookup key := by
  have hkey : ∀ row ∈ (facts.filterMap (row? table)).reverse,
      (some row).map (·.1) = some row.1 := fun _ _ => rfl
  have hlookup := lookup_filter_map hkey key
  rw [List.filterMap_some] at hlookup
  rw [entered?, List.getLast?_filter, hlookup, Option.map_eq_bind]
  simp

/-- A table of facts holds its rows. -/
theorem Fact.tabulates_table_of (facts : List Fact) (table : Table) :
    Tabulates (facts.filterMap (row? table)) (tableOf facts table) := by
  let rows := facts.filterMap (row? table)
  have hentered : ∀ key ∈ rows.map (·.1), ∃ s, entered? facts table key = some s := by
    intro key hkey
    obtain ⟨row, hrow, rfl⟩ := List.mem_map.mp hkey
    refine Option.ne_none_iff_exists'.mp fun hnone => ?_
    rw [entered_eq_lookup, List.lookup_eq_none_iff] at hnone
    simpa using hnone row (List.mem_reverse.mpr hrow)
  have hkey : ∀ name ∈ (rows.map (·.1)).eraseDups,
      ((entered? facts table name).map (name, ·)).map (·.1) = some name := by
    intro name hname
    obtain ⟨s, hs⟩ := hentered name (List.mem_eraseDups.mp hname)
    simp [hs]
  have hkeys : (tableOf facts table).map (·.1) = (rows.map (·.1)).eraseDups := by
    rw [tableOf, List.map_filterMap]
    exact (List.filterMap_congr hkey).trans List.filterMap_some
  refine ⟨fun key => by rw [hkeys, List.mem_eraseDups], hkeys, fun key => ?_⟩
  rw [← entered_eq_lookup, tableOf, lookup_filter_map hkey]
  cases hfind : (rows.map (·.1)).eraseDups.find? (some · = some key) with
  | some name =>
      obtain rfl : name = key := by simpa using List.find?_some hfind
      simp
  | none =>
      refine (Option.eq_none_iff_forall_ne_some.mpr fun s hs => ?_).symm
      have hmem : key ∈ rows.map (·.1) := by
        rw [entered_eq_lookup, List.lookup_eq_some_iff] at hs
        obtain ⟨before, after, hsplit, _⟩ := hs
        refine List.mem_map.mpr ⟨(key, s), List.mem_reverse.mp ?_, rfl⟩
        simp [rows, hsplit]
      have hnone := List.find?_eq_none.mp hfind key (List.mem_eraseDups.mpr hmem)
      simp at hnone

/-! ## Two names for each thing -/

/-- The last thing of a name has the name, and no later one has it. -/
theorem last_eq_some_iff {α β : Type} [DecidableEq β] {f : α → β} {xs : List α} {name : β} {x : α} :
    xs.reverse.find? (f · = name) = some x ↔
      ∃ before after, xs = before ++ x :: after ∧ f x = name ∧ ∀ y ∈ after, f y ≠ name := by
  rw [List.find?_eq_some_iff_append]
  constructor
  · rintro ⟨hx, as, bs, hsplit, hothers⟩
    refine ⟨bs.reverse, as.reverse, ?_, by simpa using hx, fun y hy => ?_⟩
    · rw [← List.reverse_reverse xs, hsplit]
      simp
    · simpa using hothers y (List.mem_reverse.mp hy)
  · rintro ⟨before, after, rfl, hx, hothers⟩
    refine ⟨by simpa using hx, after.reverse, before.reverse, by simp, fun y hy => ?_⟩
    simpa using hothers y (List.mem_reverse.mp hy)

/-- If each thing with two names is followed by one of its first name and by one of its second name,
the last thing that has a name in the first way is the last one that has it in the second way. -/
theorem last_eq_of_followed {α β : Type} [DecidableEq β] {f g : α → β} {xs : List α}
    (h : ∀ before x after, xs = before ++ x :: after → f x ≠ g x →
      (∃ y ∈ after, f y = f x) ∧ ∃ z ∈ after, g z = g x) {name : β} {x : α}
    (hx : xs.reverse.find? (f · = name) = some x) :
    xs.reverse.find? (g · = name) = some x := by
  obtain ⟨before, after, rfl, rfl, hlast⟩ := last_eq_some_iff.mp hx
  have hsame : f x = g x := by
    by_contra hne
    obtain ⟨y, hy, heq⟩ := (h before x after rfl hne).1
    exact hlast y hy heq
  refine last_eq_some_iff.mpr ⟨before, after, rfl, hsame.symm, fun z hz heq => ?_⟩
  -- The last one behind that has the name in the second way has it in the first way, too.
  obtain ⟨w, hw⟩ : ∃ w, after.reverse.find? (g · = f x) = some w := by
    refine Option.isSome_iff_exists.mp (List.find?_isSome.mpr ⟨z, List.mem_reverse.mpr hz, ?_⟩)
    simpa using heq
  obtain ⟨front, rest, rfl, hwname, hwlast⟩ := last_eq_some_iff.mp hw
  have hwsame : f w = g w := by
    by_contra hne
    obtain ⟨v, hv, heq⟩ := (h (before ++ x :: front) w rest (by simp) hne).2
    exact hwlast v hv (heq.trans hwname)
  exact hlast w (by simp) (hwsame.trans hwname)

/-- Of two ways to name some things, the last thing of every name is the same exactly if each thing
with two names is followed by one of its first name and by one of its second name. -/
theorem last_eq_iff {α β : Type} [DecidableEq β] (f g : α → β) (xs : List α) :
    (∀ name, xs.reverse.find? (f · = name) = xs.reverse.find? (g · = name)) ↔
      ∀ before x after, xs = before ++ x :: after → f x ≠ g x →
        (∃ y ∈ after, f y = f x) ∧ ∃ z ∈ after, g z = g x := by
  constructor
  · intro h before x after hsplit hne
    constructor
    · by_contra hnone
      have hlast : xs.reverse.find? (f · = f x) = some x :=
        last_eq_some_iff.mpr ⟨before, after, hsplit, rfl, by simpa using hnone⟩
      rw [h] at hlast
      have hname : g x = f x := by simpa using List.find?_some hlast
      exact hne hname.symm
    · by_contra hnone
      have hlast : xs.reverse.find? (g · = g x) = some x :=
        last_eq_some_iff.mpr ⟨before, after, hsplit, rfl, by simpa using hnone⟩
      rw [← h] at hlast
      exact hne (by simpa using List.find?_some hlast)
  · intro h name
    refine Option.ext fun x => ⟨last_eq_of_followed h, last_eq_of_followed ?_⟩
    exact fun before x after hsplit hne => (h before x after hsplit hne.symm).symm

namespace BoundFile

variable {path : Text} {source : SourceFile} {properties : List Node}

/-- In a file, the rows of an object literal that binding comes to are those of its properties. -/
theorem rows_of_literal {i : Info} {last : Site} (hbound : (ofSource path source).isTooDeep = false)
    (h : Binding.Visits (site path source) (ofSource path source).root last
      (.objectLiteral i properties)) :
    (ofSource path source).facts.filterMap (Fact.row? (.members (.node i.id))) =
      properties.filterMap Binding.memberRow? := by
  let root := (ofSource path source).root
  have hlaid : root.Laid := laid_root path source
  have hexports : (site path source).exports ≠ some (.members (.node i.id)) := nofun
  obtain ⟨hlast, hrows⟩ := Binding.rows_of_visits hlaid h hexports
  have hliteral := Binding.rows_of_literal (hlaid.of_mem_parts h.mem_parts) hlast
  have hroot : (Binding.ofNode (site path source) root).filterMap
      (Fact.row? (.members (.node i.id))) = properties.filterMap Binding.memberRow? :=
    hrows.trans hliteral
  have hfacts : (ofSource path source).facts =
      settled path (Binding.ofNode (site path source) root) := if_neg (of_decide_eq_false hbound)
  rw [hfacts, settled, rows_map_symbol, hroot]
  refine (List.map_congr_left fun row hrow => ?_).trans (List.map_id' _)
  obtain ⟨property, _, hproperty⟩ := List.mem_filterMap.mp hrow
  obtain ⟨id, hsymbol⟩ := Binding.eq_of_member_row hproperty
  exact Prod.ext rfl (settle_of_not_alias (hsymbol ▸ rfl))

end BoundFile

namespace Resolution

open Binding

variable {config : Config} {sources : List SourceFile} {i : Info} {properties : List Node}

/-- The members of an object literal are its properties, under the texts that their names are
written with. -/
theorem members_tabulate
    (hplaced : (Program.ofSources config sources).Placed (.objectLiteral i properties))
    {s : BoundSymbol}
    (hs : (Program.ofSources config sources).literalSymbol? (.objectLiteral i properties) =
      some s) :
    Tabulates (properties.filterMap memberRow?)
      ((Program.ofSources config sources).members s) := by
  obtain ⟨f, hf, hbound, last, hvisits⟩ := Program.binds_of_literal hplaced hs
  obtain rfl := Program.literal_symbol_eq hplaced hs
  have hfacts : (Program.ofSources config sources).factsOf i.id.file = f.facts :=
    Program.facts_of_placed hf hvisits.mem_parts
  obtain ⟨path, source, rfl⟩ := (Program.files_of_sources config sources).1 f hf
  have hmembers : (Program.ofSources config sources).members
      (literalSymbol .objectLiteral "__object" (.objectLiteral i properties)) =
      Fact.tableOf ((Program.ofSources config sources).factsOf i.id.file)
        (.members (.node i.id)) := rfl
  rw [hmembers, hfacts, ← BoundFile.rows_of_literal hbound hvisits]
  exact Fact.tabulates_table_of _ _

/-- The key and the value of an assignment in the object. -/
def heldRow? (p : Program) (property : Node) : Option (Text × Option Value) :=
  match property with
  | .propertyAssignment _ _ init => property.heldKey?.map fun key => (key, (p.resolve init).value)
  | _ => none

/-- The text of a key that is a name, a string or a valid number. -/
theorem key_text_of_held {resolve : Node → Answer} {j : Info} {name init : Node} {key : Text}
    (h : (Node.propertyAssignment j name init).heldKey? = some key) :
    KeyText resolve name (some key) := by
  cases name with
  | identifier | stringLiteral | numericLiteral => exact h.symm
  | _ => cases h

/-- The entries of an object literal are its assignments, under the texts of their keys. -/
theorem entries_tabulate
    (hplaced : (Program.ofSources config sources).Placed (.objectLiteral i properties))
    (hkeys : ∀ property ∈ properties, property.heldKey? ≠ none)
    {entries : List (Text × Option Value)}
    (hvalue : ((Program.ofSources config sources).resolve (.objectLiteral i properties)).value =
      some (.object entries)) :
    Tabulates (properties.filterMap (heldRow? (Program.ofSources config sources))) entries := by
  have hshallow : (Program.ofSources config sources).IsShallow (.objectLiteral i properties) := by
    rw [Program.IsShallow, resolve_value_eq_some_iff.mp hvalue]
    simp
  obtain ⟨hanswers, hentries⟩ := (object_value_iff hshallow).mp hvalue
  obtain rfl := Value.object.inj hentries
  have hrows : properties.filterMap (Program.ofSources config sources).assignment? =
      properties.filterMap (heldRow? (Program.ofSources config sources)) := by
    refine List.filterMap_congr fun property hproperty => ?_
    obtain ⟨key, hkey⟩ := Option.ne_none_iff_exists'.mp (hkeys property hproperty)
    cases property with
    | propertyAssignment j name init =>
        have hname := of_node_eq_ok_iff.mpr ⟨(hanswers _ hproperty).1, rfl⟩
        have hcoerced := coerced_of_key_text hname
          (fun k text heq => by
            subst heq
            exact value_of_key hplaced hproperty (by simp) hname) (key_text_of_held hkey)
        simp [Program.assignment?, heldRow?, hcoerced, hkey]
    | _ => cases hkey
  rw [hrows]
  exact tabulates_foldl_put_entry _

/-- The key of an assignment as it is written is that of its row among the members. -/
theorem key_of_member_row {property : Node} (h : property.heldKey? ≠ none) :
    (memberRow? property).map (·.1) = property.enteredKey? ∧ property.enteredKey? ≠ none := by
  cases property with
  | propertyAssignment j name init =>
      refine ⟨by simp [memberRow?, Node.enteredKey?, Function.comp_def], ?_⟩
      cases name with
      | identifier | stringLiteral | numericLiteral => exact Option.some_ne_none _
      | _ => exact h
  | _ => exact absurd rfl h

/-- The key of an assignment as a text is that of its row in the object. -/
theorem key_of_held_row {p : Program} {property : Node} (h : property.heldKey? ≠ none) :
    (heldRow? p property).map (·.1) = property.heldKey? := by
  cases property with
  | propertyAssignment j name init => simp [heldRow?, Function.comp_def]
  | _ => exact absurd rfl h

/-- The members and the entries of an object literal agree exactly if, of every text, the last
assignment with this key as it is written is the last one with this key as a text. -/
theorem members_agree_iff_last {p : Program} {members : List (Text × BoundSymbol)}
    {entries : List (Text × Option Value)}
    (hkeys : ∀ property ∈ properties, property.heldKey? ≠ none)
    (hmembers : Tabulates (properties.filterMap memberRow?) members)
    (hentries : Tabulates (properties.filterMap (heldRow? p)) entries) :
    MembersAgree properties members entries ↔
      ∀ key : Option Text, properties.reverse.find? (·.enteredKey? = key) =
        properties.reverse.find? (·.heldKey? = key) := by
  have hentered : ∀ x ∈ properties, (memberRow? x).map (·.1) = x.enteredKey? :=
    fun x hx => (key_of_member_row (hkeys x hx)).1
  have hheld : ∀ x ∈ properties, (heldRow? p x).map (·.1) = x.heldKey? :=
    fun x hx => key_of_held_row (hkeys x hx)
  have hdeclared : ∀ {property : Node} {member : BoundSymbol},
      (memberRow? property).map (·.2) = some member → member.declaration = some property := by
    intro property member h
    obtain ⟨row, hrow, rfl⟩ := Option.map_eq_some_iff.mp h
    obtain ⟨id, hsymbol⟩ := eq_of_member_row hrow
    exact hsymbol ▸ rfl
  constructor
  · intro h key
    cases key with
    | none =>
        have hnone : ∀ x ∈ properties.reverse, x.enteredKey? ≠ none ∧ x.heldKey? ≠ none :=
          fun x hx => ⟨(key_of_member_row (hkeys x (List.mem_reverse.mp hx))).2,
            hkeys x (List.mem_reverse.mp hx)⟩
        rw [List.find?_eq_none.mpr fun x hx => by simpa using (hnone x hx).1,
          List.find?_eq_none.mpr fun x hx => by simpa using (hnone x hx).2]
    | some key =>
        cases hlast : properties.reverse.find? (·.enteredKey? = some key) with
        | none =>
            have hno : key ∉ members.map (·.1) := by
              rw [hmembers.mem_iff_last hentered, hlast]
              simp
            rw [h.names, hentries.mem_iff_last hheld] at hno
            exact (Option.not_isSome_iff_eq_none.mp hno).symm
        | some property =>
            obtain ⟨member, hmember⟩ : ∃ member,
                (memberRow? property).map (·.2) = some member := by
              have hkey := hentered property
                (List.mem_reverse.mp (List.mem_of_find?_eq_some hlast))
              have hname : property.enteredKey? = some key := by simpa using List.find?_some hlast
              rw [hname] at hkey
              obtain ⟨row, hrow, _⟩ := Option.map_eq_some_iff.mp hkey
              exact ⟨row.2, by simp [hrow]⟩
            have hlookup : members.lookup key = some member := by
              rw [hmembers.lookup_eq_last hentered, hlast]
              exact hmember
            exact (hdeclared hmember).symm.trans (h.declarations key member hlookup)
  · intro h
    refine ⟨fun key => ?_, fun key member hlookup => ?_⟩
    · rw [hmembers.mem_iff_last hentered, hentries.mem_iff_last hheld, h]
    · rw [hmembers.lookup_eq_last hentered] at hlookup
      obtain ⟨property, hlast, hmember⟩ := Option.bind_eq_some_iff.mp hlookup
      rw [h] at hlast
      exact (hdeclared hmember).trans hlast.symm

/-- The entries of an object literal whose keys are names, strings and valid numbers have the values
of the last assignments of their keys. The members have the names of the entries and are declared by
these assignments exactly if no number that is not written as its text counts: it is overridden by
an assignment that is written like it, and by one with its text as the key. -/
theorem members_agree_iff {config : Config} {sources : List SourceFile} {i : Info}
    {properties : List Node} {s : BoundSymbol} {entries : List (Text × Option Value)}
    (hplaced : (Program.ofSources config sources).Placed (.objectLiteral i properties))
    (hs : (Program.ofSources config sources).literalSymbol? (.objectLiteral i properties) = some s)
    (hkeys : ∀ property ∈ properties, property.heldKey? ≠ none)
    (hvalue : ((Program.ofSources config sources).resolve (.objectLiteral i properties)).value =
      some (.object entries)) :
    (∀ key j name init, holder? properties key = some (.propertyAssignment j name init) →
      entries.lookup key = some ((Program.ofSources config sources).resolve init).value) ∧
    (MembersAgree properties ((Program.ofSources config sources).members s) entries ↔
      ∀ before property after, properties = before ++ property :: after →
        property.enteredKey? ≠ property.heldKey? →
        (∃ written ∈ after, written.enteredKey? = property.enteredKey?) ∧
          ∃ held ∈ after, held.heldKey? = property.heldKey?) := by
  have hmembers := members_tabulate hplaced hs
  have hentries := entries_tabulate hplaced hkeys hvalue
  refine ⟨fun key j name init hholder => ?_, ?_⟩
  · rw [hentries.lookup_eq_last fun x hx => key_of_held_row (hkeys x hx)]
    rw [holder?] at hholder
    have hkey : (Node.propertyAssignment j name init).heldKey? = some key := by
      simpa using List.find?_some hholder
    simp [hholder, heldRow?, hkey]
  · rw [members_agree_iff_last hkeys hmembers hentries]
    exact last_eq_iff Node.enteredKey? Node.heldKey? properties

/-- The law at a number in hexadecimal digits before a text that is written like it and a number
that is its text: both tables have the last two. -/
theorem members_agree_iff_overridden :
    let text (t : String) := Node.stringLiteral {} (Text.ofString t)
    let number (t : String) := Node.numericLiteral {} (Text.ofString t)
    let written := [.propertyAssignment {} (number "0x10") (text "x"),
      .propertyAssignment {} (text "0x10") (text "y"),
      .propertyAssignment {} (number "16") (text "z")]
    let file : SourceFile :=
      { fileName := Text.ofString "a"
        statements := [.expressionStatement {} (.objectLiteral {} written)] }
    let p := Program.ofSources {} [file]
    let properties := Node.placeAll (Text.ofString "a") [0, 0, 0, 0] 0 written
    let literal := Node.place (Text.ofString "a") [0, 0, 0] (.objectLiteral {} written)
    let entries := [(Text.ofString "16", some (.text (Text.ofString "z"))),
      (Text.ofString "0x10", some (.text (Text.ofString "y")))]
    (p.resolve literal).value = some (.object entries) ∧
      ∃ s, p.literalSymbol? literal = some s ∧ MembersAgree properties (p.members s) entries := by
  intro text number written file p properties literal entries
  have hplaced : p.Placed literal :=
    ⟨_, List.mem_singleton_self _, List.mem_of_getElem? (i := 2) (by cbv)⟩
  have hs : p.literalSymbol? literal = some (literalSymbol .objectLiteral "__object" literal) := by
    cbv
  have hvalue : (p.resolve literal).value = some (.object entries) := by decide +kernel
  have hkeys : ∀ property ∈ properties, property.heldKey? ≠ none := by decide +kernel
  have hoverridden : ∀ k < properties.length,
      properties[k]?.bind Node.enteredKey? ≠ properties[k]?.bind Node.heldKey? →
      (∃ a ∈ properties.drop (k + 1), a.enteredKey? = properties[k]?.bind Node.enteredKey?) ∧
        ∃ a ∈ properties.drop (k + 1), a.heldKey? = properties[k]?.bind Node.heldKey? := by
    decide +kernel
  refine ⟨hvalue, _, hs, (members_agree_iff hplaced hs hkeys hvalue).2.mpr ?_⟩
  intro before property after (hsplit : properties = before ++ property :: after)
  have hlast := hoverridden before.length
  rw [hsplit] at hlast
  simpa using hlast

/-- The member of a number that is written in hexadecimal digits has the name that is written, and
the entry has another one. -/
theorem members_of_hexadecimal_key :
    let written := [.propertyAssignment {} (.numericLiteral {} (Text.ofString "0x10"))
      (.stringLiteral {} (Text.ofString "x"))]
    let file : SourceFile :=
      { fileName := Text.ofString "a"
        statements := [.expressionStatement {} (.objectLiteral {} written)] }
    let p := Program.ofSources {} [file]
    let literal := Node.place (Text.ofString "a") [0, 0, 0] (.objectLiteral {} written)
    (p.resolve literal).value =
        some (.object [(Text.ofString "16", some (.text (Text.ofString "x")))]) ∧
      ∃ s, p.literalSymbol? literal = some s ∧
        (p.members s).map (·.1) = [Text.ofString "0x10"] := by
  intro written file p literal
  refine ⟨by decide +kernel, literalSymbol .objectLiteral "__object" literal, by cbv, by cbv⟩

end Resolution

end StaticLiteral
