import StaticLiteral.Proofs.Binding.Opened

/-!
# The properties of object literals

In a program the key of an assignment that is written as a name never stands for anything but the
property: it names the property where binding comes to the object literal, and nothing elsewhere
(`symbol_at_placed_key`). A literal has a symbol only where binding comes to it
(`binds_of_literal`).
-/

namespace StaticLiteral.Program

open Binding

variable {config : Config} {sources : List SourceFile} {i j k : Info} {text : Text} {init : Node}
  {properties : List Node}

/-- A file that has facts is not too deep. -/
theorem not_too_deep_of_mem {path : Text} {source : SourceFile} {fact : Fact}
    (hfact : fact ∈ (BoundFile.ofSource path source).facts) :
    (BoundFile.ofSource path source).isTooDeep = false := by
  cases h : (BoundFile.ofSource path source).isTooDeep with
  | false => rfl
  | true =>
      have hnone : (BoundFile.ofSource path source).facts = [] := if_pos (of_decide_eq_true h)
      rw [hnone] at hfact
      cases hfact

/-- What tells of a key in a file is established only where binding comes to the object literal. -/
theorem binds_of_key {f : BoundFile} (hf : f ∈ (ofSources config sources).files)
    (hliteral : .objectLiteral i properties ∈ f.root.parts)
    (hproperty : .propertyAssignment j (.identifier k text) init ∈ properties) {fact : Fact}
    (hfact : fact ∈ f.facts) (hkey : TellsOf k.id fact) :
    (ofSources config sources).Binds (.objectLiteral i properties) := by
  obtain ⟨path, source, rfl⟩ := (files_of_sources config sources).1 f hf
  have hbound := not_too_deep_of_mem hfact
  obtain ⟨visible, hsettled⟩ := BoundFile.exists_settled path source
  obtain ⟨origin, horigin, rfl⟩ := hsettled fact hfact
  have horiginkey : TellsOf k.id origin := by
    cases origin <;> cases hkey
    · exact .names _
    · exact .refers _
  obtain ⟨last, hvisits⟩ := visits_of_key (BoundFile.laid_root path source) hliteral hproperty
    horigin horiginkey
  exact ⟨_, hf, hbound, last, hvisits⟩

/-- Binding comes to a literal that has a symbol. -/
theorem binds_of_literal {n : Node} {s : BoundSymbol}
    (hplaced : (ofSources config sources).Placed n)
    (hs : (ofSources config sources).literalSymbol? n = some s) :
    (ofSources config sources).Binds n := by
  obtain ⟨f, hf, hn⟩ := hplaced
  rw [literalSymbol?, facts_of_placed hf hn] at hs
  obtain ⟨fact, hfact, htells⟩ := Fact.last_mem hs
  obtain ⟨path, source, rfl⟩ := (files_of_sources config sources).1 f hf
  have hbound : (BoundFile.ofSource path source).isTooDeep = false := not_too_deep_of_mem hfact
  obtain ⟨visible, hsettled⟩ := BoundFile.exists_settled path source
  obtain ⟨origin, horigin, rfl⟩ := hsettled fact hfact
  cases origin with
  | isLiteral id symbol =>
      obtain ⟨hid, _⟩ := Option.ite_none_right_eq_some.mp htells
      obtain ⟨target, m, hvisits, hown | ⟨_, _, _, _, htaken, hnoted⟩⟩ :=
        exists_visits_of_mem horigin
      · obtain rfl := (BoundFile.laid_root path source).eq_of_id_eq hvisits.mem_parts hn
          ((literal_own hown).1.trans hid)
        exact ⟨_, hf, hbound, target, hvisits⟩
      · exact absurd hnoted (literal_not_taken htaken)
  | _ => cases htells

/-- The key of an assignment that is written as a name stands for nothing or for the property. -/
theorem symbol_at_placed_key
    (hplaced : (ofSources config sources).Placed (.objectLiteral i properties))
    (hproperty : .propertyAssignment j (.identifier k text) init ∈ properties) :
    (ofSources config sources).symbolAt? (.identifier k text) = none ∨
      (ofSources config sources).symbolAt? (.identifier k text) =
        some (keySymbol (.propertyAssignment j (.identifier k text) init) k.id text) := by
  by_cases hbinds : (ofSources config sources).Binds (.objectLiteral i properties)
  · exact .inr (symbol_at_key hbinds hproperty)
  refine .inl ?_
  obtain ⟨f, hf, hliteral⟩ := hplaced
  have hkey : Node.identifier k text ∈ f.root.parts := by
    refine Node.parts_subset hliteral ?_
    have hname : Node.identifier k text ∈
        (Node.propertyAssignment j (.identifier k text) init).children := by
      simp [Node.children_eq, Node.fields, Field.contents]
    have hparts := Node.parts_subset_of_mem_children hname (Node.mem_parts_self _)
    refine Node.parts_subset_of_mem_children ?_ hparts
    simpa [Node.children_eq, Node.fields, Field.contents] using hproperty
  have hfacts : (ofSources config sources).factsOf k.id.file = f.facts := facts_of_placed hf hkey
  have hnone : ∀ {α : Type} {tells : Fact → Option α},
      (∀ fact a, tells fact = some a → TellsOf k.id fact) → Fact.last? tells f.facts = none := by
    intro α tells htells
    cases hlast : Fact.last? tells f.facts with
    | none => rfl
    | some a =>
        obtain ⟨fact, hfact, hfacttells⟩ := Fact.last_mem hlast
        exact absurd (binds_of_key hf hliteral hproperty hfact (htells fact a hfacttells)) hbinds
  have hnamed : Fact.last? (Fact.named? k.id) f.facts = none := hnone fun fact s h => by
    cases fact with
    | names y s' =>
        obtain rfl := (Option.ite_none_right_eq_some.mp h).1
        exact .names s'
    | _ => cases h
  have hscope : Fact.last? (Fact.scope? k.id) f.facts = none := hnone fun fact scope h => by
    cases fact with
    | refers y scope' =>
        obtain rfl := (Option.ite_none_right_eq_some.mp h).1
        exact .refers scope'
    | _ => cases h
  have hid : (Node.identifier k text).id = k.id := rfl
  simp only [symbolAt?, lookup?, scopeOf?, hid, hfacts, hnamed, hscope, Option.bind_none]
  rfl

end StaticLiteral.Program
