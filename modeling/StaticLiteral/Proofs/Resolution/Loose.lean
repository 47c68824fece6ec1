import StaticLiteral.Proofs.Program.Sources
import StaticLiteral.Proofs.Typing.Loose
import StaticLiteral.Program.Report

/-!
# Well-formed results

A result as a record has the kind of a value in one field and a payload in another one. Expressions
are resolved over again to such records: the type path copies what the record of a type carries, and
nothing looks whether it is of the kind that it is put beside. This leads to the record of the value
that the expression resolves to, as `parallels` states, so kind and payload of every result fit:
`results_well_formed`.
-/

namespace StaticLiteral

/-! ## Values as payloads -/

namespace Payload

mutual

/-- A value as a payload. -/
def ofValue : Value → Payload
  | .number x => number x
  | .bigint n => integer n
  | .text t => text t
  | .boolean b => boolean b
  | .pattern p => pattern p
  | .array items => list (ofItems items)
  | .object entries => table (ofEntries entries)

/-- A value or none as a payload. -/
def ofOption : Option Value → Payload
  | none => missing
  | some v => ofValue v

/-- The items of an array as payloads. -/
def ofItems : List (Option Value) → List Payload
  | [] => []
  | item :: items => ofOption item :: ofItems items

/-- The entries of an object as payloads. -/
def ofEntries : List (Text × Option Value) → List (Payload × Payload)
  | [] => []
  | (key, value) :: entries => (text key, ofOption value) :: ofEntries entries

end

/-- A text or none as a payload. -/
def ofText : Option Text → Payload
  | none => missing
  | some t => text t

/-- The text of a payload that should be a number. -/
def numberText : Payload → Except Failure Payload
  | number x => .ok (text x.toText)
  | _ => .error misfit

/-- The text of a payload that should be an integer. -/
def integerText : Payload → Except Failure Payload
  | integer n =>
    match Numeral.text? n with
    | some t => .ok (text t)
    | none => .error .tooManyDigits
  | _ => .error misfit

/-- The table with `value` under `key`: in the place of that key if it is there, or else at the
end. -/
def put (key value : Payload) : List (Payload × Payload) → List (Payload × Payload)
  | [] => [(key, value)]
  | (k, v) :: rest => if k.same key then (k, value) :: rest else (k, v) :: put key value rest

/-- The keys of an object are texts. -/
theorem keys_of_entries (entries : List (Text × Option Value)) :
    (ofEntries entries).map (·.1) = (entries.map (·.1)).map text := by
  induction entries with
  | nil => rfl
  | cons entry entries ih => rw [ofEntries, List.map_cons, ih, List.map_cons, List.map_cons]

/-- The values of an object are payloads one by one. -/
theorem values_of_entries (entries : List (Text × Option Value)) :
    (ofEntries entries).map (·.2) = entries.map (ofOption ·.2) := by
  induction entries with
  | nil => rfl
  | cons entry entries ih => rw [ofEntries, List.map_cons, ih, List.map_cons]

/-- Putting an entry into an object is putting it into the table. -/
theorem put_of_entries (key : Text) (value : Option Value) (entries : List (Text × Option Value)) :
    put (text key) (ofOption value) (ofEntries entries) =
      ofEntries (putEntry key value entries) := by
  induction entries with
  | nil => rfl
  | cons entry entries ih =>
      obtain ⟨k, v⟩ := entry
      simp only [ofEntries, put, putEntry, same, beq_iff_eq]
      split
      · rfl
      · rw [ih, ofEntries]

end Payload

/-! ## Results as records -/

/-- A result as a record. -/
structure LooseResult where
  type : Option ValueType
  payload : Payload

namespace LooseResult

/-- The result of what has no value. -/
def unresolved : LooseResult := ⟨none, .missing⟩

/-- A payload as a number. -/
def numeric (payload : Payload) : LooseResult := ⟨some .numericLiteral, payload⟩

/-- A payload as a text. -/
def string (payload : Payload) : LooseResult := ⟨some .stringLiteral, payload⟩

/-- A truth value. -/
def boolean (b : Bool) : LooseResult :=
  ⟨some (if b then .trueKeyword else .falseKeyword), .boolean b⟩

/-- The record of a value or none. -/
def ofOption (v : Option Value) : LooseResult := ⟨v.map (·.type), .ofOption v⟩

/-- The payload is one of the kind beside it: there is none if there is no kind, and else a value of
that kind. The items of an array and the values of an object are again payloads of some kind or
none, and the keys of an object are texts and pairwise distinct. -/
inductive Fits : Option ValueType → Payload → Prop where
  | unresolved : Fits none .missing
  | number (x : Double) : Fits (some .numericLiteral) (.number x)
  | bigint (n : Int) : Fits (some .bigintLiteral) (.integer n)
  | text (t : Text) : Fits (some .stringLiteral) (.text t)
  | pattern (p : Pattern) : Fits (some .regularExpressionLiteral) (.pattern p)
  | true : Fits (some .trueKeyword) (.boolean true)
  | false : Fits (some .falseKeyword) (.boolean false)
  | array {types : List (Option ValueType)} {items : List Payload}
      (items_fit : List.Forall₂ Fits types items) : Fits (some .arrayLiteral) (.list items)
  | object {types : List (Option ValueType)} {entries : List (Payload × Payload)}
      (texts : ∀ key ∈ entries.map (·.1), ∃ t, key = .text t)
      (distinct : (entries.map (·.1)).Nodup)
      (values_fit : List.Forall₂ Fits types (entries.map (·.2))) :
      Fits (some .objectLiteral) (.table entries)

/-- Nothing is carried exactly where there is no kind. -/
theorem Fits.missing_iff {type : Option ValueType} {payload : Payload} (h : Fits type payload) :
    payload = .missing ↔ type = none := by
  cases h <;> simp

end LooseResult

/-! ## Resolving to records -/

namespace LooseResolution

/-- A result as a record, or a failure of the whole request. -/
abbrev Answer := Except Failure LooseResult

/-- A number literal, if its text is one. -/
def numericLiteral (text : Text) : LooseResult :=
  match NumericLiteral.value? text with
  | some x => .numeric (.number x)
  | none => .unresolved

/-- A bigint literal, if its text is one. -/
def bigintLiteral (text : Text) : LooseResult :=
  match BigintLiteral.value text with
  | .ok n => ⟨some .bigintLiteral, .integer n⟩
  | .error _ => .unresolved

/-- A regular expression, if its text is one. -/
def regularExpression (characterNames : CharacterNames) (text : Text) : Answer :=
  match PatternSyntax.literal characterNames text with
  | .ok (some p) => .ok ⟨some .regularExpressionLiteral, .pattern p⟩
  | .ok none => .ok .unresolved
  | .error .tooDeep => .error .nestedPattern
  | .error .invalid => .ok .unresolved
  | .error (.broken breach) => .error (.brokenPattern breach)

/-- The text that a result is coerced to by its kind. -/
def coerced (r : LooseResult) : Except Failure Payload :=
  match r.type with
  | some .stringLiteral => .ok r.payload
  | some .numericLiteral => r.payload.numberText
  | some .bigintLiteral => r.payload.integerText
  | some .trueKeyword => .ok (.text (Text.ofString "true"))
  | some .falseKeyword => .ok (.text (Text.ofString "false"))
  | _ => .ok .missing

/-- A minus sign in front of a result that is a number by its kind. -/
def negated (r : LooseResult) : Answer :=
  match r.type with
  | some .numericLiteral => .numeric <$> r.payload.negated
  | _ => .ok .unresolved

/-- The entries of an object. -/
def objectEntries (resolve : Node → Answer) :
    List (Payload × Payload) → List Node → Except Failure (List (Payload × Payload))
  | entries, [] => .ok entries
  | entries, .propertyAssignment _ name init :: rest => do
    match ← coerced (← resolve name) with
    | .missing => objectEntries resolve entries rest
    | key =>
      let value ← resolve init
      objectEntries resolve (Payload.put key value.payload entries) rest
  | entries, _ :: rest => objectEntries resolve entries rest

/-- The text of a template after its head, or nothing as soon as one part has no text. -/
def templateText (resolve : Node → Answer) : Text → List Node → Except Failure Payload
  | text, [] => .ok (.text text)
  | text, .templateSpan _ expression literal :: rest => do
    match ← coerced (← resolve expression) with
    | .missing => return .missing
    | .text part => templateText resolve (text ++ part ++ literal) rest
    | _ => .error Payload.misfit
  | text, _ :: rest => templateText resolve text rest

variable (p : Program)

/-- What a symbol stands for. -/
def symbolValue (ofDeclaration : Node → Answer) (ofType : LooseBoundTy → Answer)
    (symbol : BoundSymbol) : Answer :=
  match symbol.kind, symbol.declaration with
  | .property, _ => .ok (.string (.text symbol.name))
  | .objectLiteral, some declaration | .blockScopedVariable, some declaration =>
    ofDeclaration declaration
  | _, _ => do ofType (← LooseTyping.ofSymbol p Typing.depthLimit [] symbol)

mutual

/-- The result for a node. -/
def ofNode : Nat → List SymbolId → Node → Answer
  | 0, _, _ => .error .tooDeep
  | depth + 1, busy, node =>
    match node with
    | .numericLiteral _ text => .ok (numericLiteral text)
    | .bigintLiteral _ text => .ok (bigintLiteral text)
    | .stringLiteral _ text | .templateLiteral _ text => .ok (.string (.text text))
    | .regularExpressionLiteral _ text => regularExpression p.config.characterNames text
    | .trueKeyword _ => .ok (.boolean true)
    | .falseKeyword _ => .ok (.boolean false)
    | .prefixUnaryExpression _ operator operand =>
      if operator = Text.ofString "-" then do negated (← ofNode depth busy operand)
      else .ok .unresolved
    | .arrayLiteral _ elements => do
      let items ← elements.mapM (ofNode depth busy)
      return ⟨some .arrayLiteral, .list (items.map (·.payload))⟩
    | .parenthesizedExpression _ e | .computedPropertyName _ e | .asExpression _ e _
    | .typeAssertion _ _ e => ofNode depth busy e
    | .variableDeclaration _ _ _ initializer =>
      match initializer with
      | some e => ofNode depth busy e
      | none => .ok .unresolved
    | .objectLiteral _ properties => do
      return ⟨some .objectLiteral, .table (← objectEntries (ofNode depth busy) [] properties)⟩
    | .templateExpression _ head spans => do
      match ← templateText (ofNode depth busy) head spans with
      | .missing => return .unresolved
      | text => return .string text
    | .identifier _ text =>
      match p.symbolAt? node with
      | none => .ok (.string (.text text))
      | some symbol => ofSymbol depth busy symbol
    | _ => .ok .unresolved

/-- The result for a symbol. -/
def ofSymbol : Nat → List SymbolId → BoundSymbol → Answer
  | 0, _, _ => .error .tooDeep
  | depth + 1, busy, symbol => do
    let symbol ← Resolution.followed p.model symbol
    if symbol.id ∈ busy then return .unresolved
    let busy := symbol.id :: busy
    symbolValue p (ofNode depth busy) (ofType depth busy) symbol

/-- The result for a type. The payload of a literal type is copied. -/
def ofType : Nat → List SymbolId → LooseBoundTy → Answer
  | 0, _, _ => .error .tooDeep
  | depth + 1, busy, type =>
    match type.kind, type.target, type.symbol with
    | .stringLiteral, _, _ => .ok (.string type.payload)
    | .numberLiteral, _, _ => .ok (.numeric type.payload)
    | .object, some _, _ => do
      let items ← type.arguments.mapM (ofType depth busy)
      return ⟨some .arrayLiteral, .list (items.map (·.payload))⟩
    | .object, none, some symbol => ofSymbol depth busy symbol
    | _, _, _ => .ok .unresolved

end

/-! ### The records of results -/

open LooseResult (Fits)

/-- The record is that of the value or none, and well formed. -/
structure IsRecord (v : Option Value) (r : LooseResult) : Prop where
  eq : LooseResult.ofOption v = r
  fits : Fits r.type r.payload

variable {v : Option Value} {r : LooseResult}

/-- What has no value is recorded as unresolved. -/
theorem is_record_unresolved : IsRecord none .unresolved := ⟨rfl, .unresolved⟩

/-- A truth value is recorded as such. -/
theorem is_record_boolean (b : Bool) : IsRecord (some (.boolean b)) (.boolean b) := by
  cases b
  · exact ⟨rfl, .false⟩
  · exact ⟨rfl, .true⟩

/-- The text of a number literal has the record of its value. -/
theorem is_record_numeric_literal (text : Text) :
    IsRecord (Resolution.numericLiteral text) (numericLiteral text) := by
  unfold Resolution.numericLiteral numericLiteral
  cases NumericLiteral.value? text with
  | none => exact is_record_unresolved
  | some x => exact ⟨rfl, .number x⟩

/-- The text of a bigint literal has the record of its value. -/
theorem is_record_bigint_literal (text : Text) :
    IsRecord (Resolution.bigintLiteral text) (bigintLiteral text) := by
  unfold Resolution.bigintLiteral bigintLiteral
  cases BigintLiteral.value text with
  | error fault => exact is_record_unresolved
  | ok n => exact ⟨rfl, .bigint n⟩

/-- The text of a regular expression has the record of its pattern. -/
theorem parallel_regular_expression (characterNames : CharacterNames) (text : Text) :
    Parallel IsRecord (Resolution.regularExpression characterNames text)
      (regularExpression characterNames text) := by
  unfold Resolution.regularExpression regularExpression
  cases PatternSyntax.literal characterNames text with
  | ok p =>
      cases p with
      | none => exact .ok is_record_unresolved
      | some p => exact .ok ⟨rfl, .pattern p⟩
  | error fault =>
      cases fault with
      | invalid => exact .ok is_record_unresolved
      | tooDeep | broken => exact .error _

/-- The record of a value is coerced to the text of the value. -/
theorem parallel_coerced (h : IsRecord v r) :
    Parallel (fun t payload => Payload.ofText t = payload) (Resolution.coerced v) (coerced r) := by
  obtain ⟨rfl, -⟩ := h
  cases v with
  | none => exact .ok rfl
  | some v =>
      cases v with
      | bigint n =>
          show Parallel _ (Resolution.coerced (some (.bigint n))) (Payload.integerText (.integer n))
          simp only [Resolution.coerced, Value.coerce?, Payload.integerText]
          cases Numeral.text? n with
          | none => exact .error _
          | some t => exact .ok rfl
      | boolean b => cases b <;> exact .ok rfl
      | _ => exact .ok rfl

/-- A minus sign in front of the record of a number turns it around. -/
theorem parallel_negated (h : IsRecord v r) :
    Parallel IsRecord (.ok (Resolution.negated v)) (negated r) := by
  obtain ⟨rfl, -⟩ := h
  cases v with
  | none => exact .ok is_record_unresolved
  | some v =>
      cases v with
      | number x => exact .ok ⟨rfl, .number x.negate⟩
      | boolean b => cases b <;> exact .ok is_record_unresolved
      | _ => exact .ok is_record_unresolved

/-- The array of recorded items is recorded by their payloads. -/
theorem is_record_array {vs : List (Option Value)} {rs : List LooseResult}
    (h : List.Forall₂ IsRecord vs rs) :
    IsRecord (some (.array vs)) ⟨some .arrayLiteral, .list (rs.map (·.payload))⟩ := by
  have hitems : Payload.ofItems vs = rs.map (·.payload) := by
    induction h with
    | nil => rfl
    | cons hv _ ih => rw [Payload.ofItems, ih, ← hv.eq, List.map_cons, LooseResult.ofOption]
  have hfits : List.Forall₂ Fits (rs.map (·.type)) (rs.map (·.payload)) := by
    clear hitems
    induction h with
    | nil => exact .nil
    | cons hv _ ih => exact .cons hv.fits ih
  refine ⟨?_, .array hfits⟩
  rw [← hitems]
  rfl

/-- The rows are those of the entries of an object, whose keys are distinct and whose values have
well-formed records. -/
structure IsTable (entries : List (Text × Option Value)) (rows : List (Payload × Payload)) :
    Prop where
  eq : Payload.ofEntries entries = rows
  distinct : (entries.map (·.1)).Nodup
  values : ∀ entry ∈ entries, Fits (entry.2.map (·.type)) (.ofOption entry.2)

/-- Putting a recorded value under a key keeps the tables alike. -/
theorem IsTable.put {entries : List (Text × Option Value)} {rows : List (Payload × Payload)}
    (h : IsTable entries rows) (key : Text) (hv : IsRecord v r) :
    IsTable (putEntry key v entries) (Payload.put (.text key) r.payload rows) := by
  obtain ⟨rfl, hfits⟩ := hv
  obtain ⟨rfl, hdistinct, hvalues⟩ := h
  refine ⟨(Payload.put_of_entries key v entries).symm, nodup_keys_put_entry key v hdistinct, ?_⟩
  intro entry hentry
  rcases mem_put_entry hentry with rfl | hentry
  · exact hfits
  · exact hvalues entry hentry

/-- An object is recorded by its table. -/
theorem IsTable.is_record {entries : List (Text × Option Value)} {rows : List (Payload × Payload)}
    (h : IsTable entries rows) :
    IsRecord (some (.object entries)) ⟨some .objectLiteral, .table rows⟩ := by
  obtain ⟨rfl, hdistinct, hvalues⟩ := h
  have hfits : List.Forall₂ Fits (entries.map (·.2.map (·.type)))
      ((Payload.ofEntries entries).map (·.2)) := by
    rw [Payload.values_of_entries, List.forall₂_map_left_iff, List.forall₂_map_right_iff,
      List.forall₂_same]
    exact hvalues
  refine ⟨rfl, .object ?_ ?_ hfits⟩
  · rw [Payload.keys_of_entries]
    intro key hkey
    obtain ⟨t, -, rfl⟩ := List.mem_map.mp hkey
    exact ⟨t, rfl⟩
  · rw [Payload.keys_of_entries]
    exact hdistinct.map fun s t => Payload.text.inj

section

variable {f : Node → Resolution.Answer} {g : Node → Answer}
  (h : ∀ n, Parallel IsRecord (f n) (g n))
include h

/-- Properties leave tables that are alike if their parts do. -/
theorem parallel_object_entries (properties : List Node) {entries : List (Text × Option Value)}
    {rows : List (Payload × Payload)} (hrows : IsTable entries rows) :
    Parallel IsTable (Resolution.objectEntries f entries properties)
      (objectEntries g rows properties) := by
  induction properties generalizing entries rows with
  | nil => exact .ok hrows
  | cons n rest ih =>
      cases n with
      | propertyAssignment i name init =>
          simp only [Resolution.objectEntries, objectEntries]
          refine (h name).bind fun v r hv => (parallel_coerced hv).bind fun key payload hkey => ?_
          subst hkey
          cases key with
          | none => exact ih hrows
          | some key => exact (h init).bind fun w s hw => ih (hrows.put key hw)
      | _ => exact ih hrows

/-- Spans leave the same text if their parts have the same. -/
theorem parallel_template_text (spans : List Node) (text : Text) :
    Parallel (fun t payload => Payload.ofText t = payload) (Resolution.templateText f text spans)
      (templateText g text spans) := by
  induction spans generalizing text with
  | nil => exact .ok rfl
  | cons n rest ih =>
      cases n with
      | templateSpan i expression literal =>
          simp only [Resolution.templateText, templateText]
          refine (h expression).bind fun v r hv => (parallel_coerced hv).bind fun t payload ht => ?_
          subst ht
          cases t with
          | none => exact .ok rfl
          | some part => exact ih _
      | _ => exact ih text

end

/-- At some depth, everything resolves to the record of its value. -/
structure Parallels (p : Program) (depth : Nat) : Prop where
  node : ∀ busy n, Parallel IsRecord (Resolution.ofNode p.model depth busy n)
    (ofNode p depth busy n)
  symbol : ∀ busy s, Parallel IsRecord (Resolution.ofSymbol p.model depth busy s)
    (ofSymbol p depth busy s)
  type : ∀ busy t, Parallel IsRecord (Resolution.ofType p.model depth busy t)
    (ofType p depth busy t.loose)

namespace Parallels

variable {p : Program} {depth : Nat} (ih : Parallels p depth) (busy : List SymbolId)
include ih

/-- A node resolves to a record one level up. -/
theorem node_step (n : Node) :
    Parallel IsRecord (Resolution.ofNode p.model (depth + 1) busy n)
      (ofNode p (depth + 1) busy n) := by
  cases n with
  | numericLiteral i text => exact .ok (is_record_numeric_literal text)
  | bigintLiteral i text => exact .ok (is_record_bigint_literal text)
  | stringLiteral i text | templateLiteral i text => exact .ok ⟨rfl, .text text⟩
  | regularExpressionLiteral i text => exact parallel_regular_expression _ text
  | trueKeyword i => exact .ok (is_record_boolean true)
  | falseKeyword i => exact .ok (is_record_boolean false)
  | prefixUnaryExpression i operator operand =>
      simp only [Resolution.ofNode, ofNode]
      split
      · rw [← bind_pure_comp]
        exact (ih.node busy operand).bind fun v r hv => parallel_negated hv
      · exact .ok is_record_unresolved
  | arrayLiteral i elements =>
      refine Parallel.bind (.mapM (List.forall₂_same.mpr fun n _ => ih.node busy n)) ?_
      exact fun vs rs hvs => .ok (is_record_array hvs)
  | parenthesizedExpression i e | computedPropertyName i e | asExpression i e type
  | typeAssertion i type e => exact ih.node busy e
  | variableDeclaration i name type init =>
      cases init with
      | none => exact .ok is_record_unresolved
      | some init => exact ih.node busy init
  | objectLiteral i properties =>
      have hempty : IsTable [] [] := ⟨rfl, List.nodup_nil, nofun⟩
      refine (parallel_object_entries (ih.node busy) properties hempty).bind ?_
      exact fun entries rows hrows => .ok hrows.is_record
  | templateExpression i head spans =>
      refine (parallel_template_text (ih.node busy) spans head).bind fun t payload ht => ?_
      subst ht
      cases t with
      | none => exact .ok is_record_unresolved
      | some t => exact .ok ⟨rfl, .text t⟩
  | identifier i text =>
      simp only [Resolution.ofNode, ofNode, Program.model, Program.modelWithin]
      cases p.symbolAt? (.identifier i text) with
      | none => exact .ok ⟨rfl, .text text⟩
      | some symbol => exact ih.symbol busy symbol
  | _ => exact .ok is_record_unresolved

/-- A type resolves to a record one level up. -/
theorem type_step (t : BoundTy) :
    Parallel IsRecord (Resolution.ofType p.model (depth + 1) busy t)
      (ofType p (depth + 1) busy t.loose) := by
  cases t with
  | literal v =>
      cases v with
      | text t => exact .ok ⟨rfl, .text t⟩
      | number x => exact .ok ⟨rfl, .number x⟩
      | bigint | boolean => exact .ok is_record_unresolved
  | object shape symbol =>
      cases symbol with
      | none => exact .ok is_record_unresolved
      | some symbol => exact ih.symbol busy symbol
  | reference target arguments readonly =>
      have hitems : Parallel (List.Forall₂ IsRecord)
          (arguments.mapM (Resolution.ofType p.model depth busy))
          ((arguments.map Ty.loose).mapM (ofType p depth busy)) := by
        refine .mapM ?_
        rw [List.forall₂_map_right_iff, List.forall₂_same]
        exact fun t _ => ih.type busy t
      rw [← Ty.loose_all_eq] at hitems
      exact hitems.bind fun vs rs hvs => .ok (is_record_array hvs)
  | _ => exact .ok is_record_unresolved

/-- A symbol resolves to a record one level up. -/
theorem symbol_step (s : BoundSymbol) :
    Parallel IsRecord (Resolution.ofSymbol p.model (depth + 1) busy s)
      (ofSymbol p (depth + 1) busy s) := by
  have hvalue : ∀ (busy : List SymbolId) (s : BoundSymbol), Parallel IsRecord
      (Resolution.symbolValue p.model (Resolution.ofNode p.model depth busy)
        (Resolution.ofType p.model depth busy) s)
      (symbolValue p (ofNode p depth busy) (ofType p depth busy) s) := by
    intro busy s
    have htype : Parallel IsRecord
        (Typing.ofSymbol p true Typing.depthLimit [] s >>= Resolution.ofType p.model depth busy)
        (LooseTyping.ofSymbol p Typing.depthLimit [] s >>= ofType p depth busy) := by
      refine ((LooseTyping.parallels p Typing.depthLimit).symbol [] s).bind fun t r ht => ?_
      exact ht ▸ ih.type busy t
    unfold Resolution.symbolValue symbolValue
    cases s.kind with
    | property => exact .ok ⟨rfl, .text s.name⟩
    | objectLiteral | blockScopedVariable =>
        cases s.declaration with
        | none => exact htype
        | some declaration => exact ih.node busy declaration
    | _ => exact htype
  rw [Resolution.ofSymbol, ofSymbol]
  refine Parallel.bind (R := Eq) ?_ fun s _ hs => ?_
  · unfold Resolution.followed
    split <;> exact .ok rfl
  · subst hs
    have hguarded : p.model.guarded = true := rfl
    simp only [hguarded, true_and]
    split
    · exact .ok is_record_unresolved
    · exact hvalue _ s

end Parallels

/-- Everything resolves to the record of its value. -/
theorem parallels (p : Program) (depth : Nat) : Parallels p depth := by
  induction depth with
  | zero =>
      constructor
      all_goals intros; exact .error .tooDeep
  | succ depth ih => exact { node := ih.node_step, symbol := ih.symbol_step, type := ih.type_step }

end LooseResolution

namespace Program

variable (p : Program)

/-- The result for a node; a failure leaves none. -/
def looseResult (node : Node) : LooseResult :=
  match LooseResolution.ofNode p Resolution.depthLimit [] node with
  | .ok r => r
  | .error _ => .unresolved

/-- The record of the type of a symbol. -/
def looseTypeOf (symbol : BoundSymbol) : LooseTypeAnswer :=
  LooseTyping.ofSymbol p Typing.depthLimit [] symbol

/-- The record of the type of an expression. -/
def looseTypeOfExpression (node : Node) : LooseTypeAnswer :=
  LooseTyping.ofExpression p Typing.depthLimit [] false node

/-- The record of the type that an annotation means. -/
def looseTypeOfAnnotation (node : Node) : LooseTypeAnswer :=
  LooseTyping.ofTypeNode p Typing.depthLimit [] node

/-- What is told as records is what is told as types, and every payload in a record, at any depth,
is of the kind beside it. -/
structure ToldWell (answer : TypeAnswer) (loose : LooseTypeAnswer) : Prop where
  eq : loose = Ty.loose <$> answer
  well_formed : Typing.Yields LooseTy.WellFormed loose

/-- Types that are told as their records are told well. -/
theorem told_well_of_parallel {answer : TypeAnswer} {loose : LooseTypeAnswer}
    (h : Parallel LooseTyping.IsRecord answer loose) : ToldWell answer loose := by
  cases answer with
  | error failure =>
      cases loose with
      | error other => exact ⟨congrArg Except.error h.symm, trivial⟩
      | ok r => exact h.elim
  | ok t =>
      cases loose with
      | error other => exact h.elim
      | ok r => exact ⟨congrArg Except.ok h.symm, h ▸ t.well_formed_loose⟩

/-- A node has the record of what it resolves to, and the payload of the record fits. -/
theorem is_record_loose_result (node : Node) :
    LooseResolution.IsRecord (p.resolve node).value (p.looseResult node) := by
  have hnode := (LooseResolution.parallels p Resolution.depthLimit).node [] node
  unfold looseResult resolve Resolution.resolve
  generalize Resolution.ofNode p.model Resolution.depthLimit [] node = answer at hnode ⊢
  generalize LooseResolution.ofNode p Resolution.depthLimit [] node = loose at hnode ⊢
  cases answer with
  | ok v =>
      cases loose with
      | ok r => exact hnode
      | error failure => exact hnode.elim
  | error failure =>
      cases loose with
      | ok r => exact hnode.elim
      | error other =>
          have hnone : (Resolution.Outcome.ofAnswer node (.error failure)).value = none := by
            simp only [Resolution.Outcome.ofAnswer]
            split <;> rfl
          rw [hnone]
          exact LooseResolution.is_record_unresolved

/-- **Results are well formed.** Resolving to records, which copies payloads without looking at the
kinds they are put beside, gives the record of what a node resolves to; there is no payload exactly
if there is no kind, and else the payload is a value of that kind, with pairwise distinct texts as
the keys of objects. So are the types of symbols, of expressions and of annotations: a literal type
carries a value of its kind wherever it stands in a type. -/
theorem results_well_formed :
    (∀ node, p.looseResult node = .ofOption (p.resolve node).value ∧
      ((p.looseResult node).payload = .missing ↔ (p.looseResult node).type = none) ∧
      LooseResult.Fits (p.looseResult node).type (p.looseResult node).payload) ∧
    (∀ symbol, ToldWell (p.typeOf symbol) (p.looseTypeOf symbol)) ∧
    (∀ node, ToldWell (p.typeOfExpression node) (p.looseTypeOfExpression node)) ∧
    ∀ node, ToldWell (p.typeOfAnnotation node) (p.looseTypeOfAnnotation node) := by
  have htold := LooseTyping.parallels p Typing.depthLimit
  refine ⟨fun node => ?_, fun symbol => ?_, fun node => ?_, fun node => ?_⟩
  · have hrecord := p.is_record_loose_result node
    exact ⟨hrecord.eq.symm, hrecord.fits.missing_iff, hrecord.fits⟩
  · exact told_well_of_parallel (htold.symbol [] symbol)
  · exact told_well_of_parallel (htold.expression [] false node)
  · exact told_well_of_parallel (htold.annotation [] node)

end Program

end StaticLiteral
