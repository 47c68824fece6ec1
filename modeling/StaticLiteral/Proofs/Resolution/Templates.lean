import StaticLiteral.Proofs.Resolution.Aggregate
import StaticLiteral.Proofs.Text.Utf16

/-!
# Templates

A template is its head and, for each span, the text of what is substituted and the text behind it,
put together (`template_value_iff`). Each of these texts is decoded on its own, so the code units of
a template are those that it denotes, but a pair of surrogates that is split between two texts is
not joined: `template_text_iff` says when a template and a plain literal of the same code units have
the same value.
-/

namespace StaticLiteral

namespace Program

/-- The text that the value of a node is coerced to. -/
def textOf? (p : Program) (node : Node) : Option Text :=
  match Resolution.coerced (p.resolve node).value with
  | .ok text => text
  | .error _ => none

/-- What spans add to a template: of each, what its expression is coerced to and the text behind it.
It is nothing if one of them has no text. -/
def spanTexts? (p : Program) : List Node → Option (List Text)
  | [] => some []
  | .templateSpan _ expression literal :: rest =>
    (p.textOf? expression).bind fun text => (p.spanTexts? rest).map (text :: literal :: ·)
  | _ :: rest => p.spanTexts? rest

/-- The texts that a template is put together from, if each substitution has one. -/
def templateTexts? (p : Program) (head : Text) (spans : List Node) : Option (List Text) :=
  (p.spanTexts? spans).map (head :: ·)

end Program

namespace Resolution

variable {p : Program} {i : Info} {head text result : Text} {node : Node} {spans : List Node}
  {value : Value}

/-- A node has a text exactly if a request about it ends with a value that is coerced to it. -/
theorem text_of_eq_some_iff : p.textOf? node = some text ↔
    ∃ v, ofNode p.model depthLimit [] node = .ok v ∧ coerced v = .ok (some text) := by
  unfold Program.textOf?
  constructor
  · intro h
    split at h
    case h_2 => cases h
    case h_1 found hcoerced =>
      subst h
      cases hvalue : (p.resolve node).value with
      | none => simp [hvalue, coerced] at hcoerced
      | some v => exact ⟨v, resolve_value_eq_some_iff.mp hvalue, hvalue ▸ hcoerced⟩
  · rintro ⟨v, hv, hcoerced⟩
    rw [← (of_node_eq_ok_iff.mp hv).2, hcoerced]

/-- The text of a template is what stands before its spans and what they add, put together. -/
theorem template_text_eq_ok_iff :
    templateText (ofNode p.model depthLimit []) text spans = .ok (some result) ↔
      ∃ texts, p.spanTexts? spans = some texts ∧ result = text ++ texts.flatten := by
  induction spans generalizing text with
  | nil => simp [templateText, Program.spanTexts?, eq_comm]
  | cons span spans ih =>
      cases span with
      | templateSpan _ expression literal =>
          constructor
          · intro h
            obtain ⟨v, hv, h⟩ := bind_eq_ok_iff.mp h
            obtain ⟨part, hcoerced, h⟩ := bind_eq_ok_iff.mp h
            cases part with
            | none => cases h
            | some part =>
                obtain ⟨texts, htexts, rfl⟩ := ih.mp h
                refine ⟨part :: literal :: texts, ?_, by simp⟩
                simp [Program.spanTexts?, text_of_eq_some_iff.mpr ⟨v, hv, hcoerced⟩, htexts]
          · rintro ⟨texts, htexts, rfl⟩
            obtain ⟨part, hpart, htexts⟩ := Option.bind_eq_some_iff.mp htexts
            obtain ⟨rest, hrest, rfl⟩ := Option.map_eq_some_iff.mp htexts
            obtain ⟨v, hv, hcoerced⟩ := text_of_eq_some_iff.mp hpart
            refine bind_eq_ok_iff.mpr ⟨v, hv, bind_eq_ok_iff.mpr ⟨some part, hcoerced, ?_⟩⟩
            exact ih.mpr ⟨rest, hrest, by simp⟩
      | _ => simpa only [templateText, Program.spanTexts?] using ih

/-- A template resolves exactly if each substitution has a text, and then to all its texts put
together. -/
theorem template_value_iff (h : p.IsShallow (.templateExpression i head spans)) :
    (p.resolve (.templateExpression i head spans)).value = some value ↔
      ∃ texts, p.templateTexts? head spans = some texts ∧ value = .text texts.flatten := by
  rw [resolve_value_eq_some_iff, of_node_eq_of_is_shallow h]
  simp only [ofNode, bind_eq_ok_iff, Program.templateTexts?, Option.map_eq_some_iff]
  constructor
  · rintro ⟨found, hfound, hvalue⟩
    obtain ⟨result, rfl, rfl⟩ := Option.map_eq_some_iff.mp (Except.ok.inj hvalue)
    obtain ⟨texts, htexts, rfl⟩ := template_text_eq_ok_iff.mp hfound
    exact ⟨_, ⟨texts, htexts, rfl⟩, rfl⟩
  · rintro ⟨_, ⟨texts, htexts, rfl⟩, rfl⟩
    exact ⟨_, template_text_eq_ok_iff.mpr ⟨texts, htexts, rfl⟩, rfl⟩

/-- A node that resolves does so within the limit of depth. -/
theorem is_shallow_of_value (h : (p.resolve node).value = some value) : p.IsShallow node := by
  rw [Program.IsShallow, resolve_value_eq_some_iff.mp h]
  simp

/-- A template that resolves is the text of its parts put together, and its code units are those of
the parts, one after the other. It is what a plain literal of the same code units resolves to
exactly if each part is paired and no pair of surrogates is split between parts. -/
theorem template_text_iff
    (h : (p.resolve (.templateExpression i head spans)).value = some value) :
    ∃ texts, p.templateTexts? head spans = some texts ∧ value = .text texts.flatten ∧
      Text.utf16 texts.flatten = texts.flatMap Text.utf16 ∧
      ∀ j raw literal, Escape.decode raw = .ok literal →
        Text.utf16 literal = Text.utf16 texts.flatten →
        ((p.resolve (.stringLiteral j literal)).value = some value ↔
          (∀ text ∈ texts, text.IsPaired) ∧
            ∀ before after, texts = before ++ after →
              ¬ Text.Splits before.flatten after.flatten) := by
  obtain ⟨texts, htexts, rfl⟩ := (template_value_iff (is_shallow_of_value h)).mp h
  refine ⟨texts, htexts, rfl, Text.utf16_flatten texts, fun j raw literal hdecode hunits => ?_⟩
  have hliteral : (p.resolve (.stringLiteral j literal)).value = some (.text literal) := rfl
  have hpaired : literal.IsPaired := Text.is_paired_decode hdecode
  rw [hliteral, ← Text.is_paired_flatten]
  constructor
  · intro hsame
    obtain rfl := Value.text.inj (Option.some.inj hsame)
    exact hpaired
  · intro hjoined
    rw [hpaired.eq_of_utf16_eq hjoined hunits]

/-- The law at a template of a pair of surrogates and a truth value, beside a literal in which the
pair is written as two escapes. -/
theorem template_text_iff_whole_pair :
    let p := Program.ofSources {} []
    let template := Node.templateExpression {} [0x1F600] [.templateSpan {} (.trueKeyword {}) []]
    let literal := 0x1F600 :: Text.ofString "true"
    Escape.decode (Text.ofString "\\uD83D\\uDE00true") = .ok literal ∧
      (p.resolve template).value = some (.text literal) ∧
      (p.resolve (.stringLiteral {} literal)).value = some (.text literal) := by
  intro p template literal
  have hdecode : Escape.decode (Text.ofString "\\uD83D\\uDE00true") = .ok literal := by
    decide +kernel
  have hvalue : (p.resolve template).value = some (.text literal) := rfl
  obtain ⟨texts, htexts, -, -, hlaw⟩ := template_text_iff hvalue
  obtain rfl : [[0x1F600], Text.ofString "true", []] = texts := Option.some.inj htexts
  have hpaired : Text.IsPaired (List.flatten [[0x1F600], Text.ofString "true", []]) := by decide
  exact ⟨hdecode, hvalue, (hlaw {} _ literal hdecode rfl).mpr (Text.is_paired_flatten.mp hpaired)⟩

/-- A pair of surrogates that is split between a template and what is substituted in it is not
joined, though the plain literal of the same code units has the pair. -/
theorem split_pair_not_joined :
    let p := Program.ofSources {} []
    let template := Node.templateExpression {} [0xD83D]
      [.templateSpan {} (.stringLiteral {} [0xDE00]) []]
    Escape.decode (Text.ofString "\\uD83D") = .ok [0xD83D] ∧
      Escape.decode (Text.ofString "\\uDE00") = .ok [0xDE00] ∧
      Escape.decode (Text.ofString "\\uD83D\\uDE00") = .ok [0x1F600] ∧
      Text.utf16 [0xD83D, 0xDE00] = Text.utf16 [0x1F600] ∧
      (p.resolve template).value = some (.text [0xD83D, 0xDE00]) ∧
      (p.resolve (.stringLiteral {} [0x1F600])).value = some (.text [0x1F600]) := by
  exact ⟨by decide +kernel, by decide +kernel, by decide +kernel, by decide, rfl, rfl⟩

end Resolution

end StaticLiteral
