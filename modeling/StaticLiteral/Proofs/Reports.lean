import StaticLiteral.Proofs.Number.Digits
import StaticLiteral.Report
import StaticLiteral.Text.Utf8

/-!
# What reports show of values

`ReportValue.Mirrors v r` says without any computation what a report shows of a value: the same
shape, bigints by their decimal digits, patterns by their body, numbers as integers where a double
tells them from their neighbours. What is reported of a value mirrors it, unless an integer in it
has too many digits (`tells_of_option`), and it can be written in UTF-8 exactly if the texts in the
value can (`is_serialisable_option_iff`).
-/

namespace StaticLiteral

namespace Value

/-- A value is in another one: it is that value, or in an item or a property of it. -/
inductive Holds : Value → Value → Prop where
  | self (v : Value) : Holds v v
  | item {items : List (Option Value)} {w v : Value} (hw : some w ∈ items) (h : Holds w v) :
      Holds (.array items) v
  | property {entries : List (Text × Option Value)} {key : Text} {w v : Value}
      (hw : (key, some w) ∈ entries) (h : Holds w v) : Holds (.object entries) v

/-- The texts that a value shows by itself. -/
def texts : Value → List Text
  | .text t => [t]
  | .pattern p => [p.source]
  | .object entries => entries.map (·.1)
  | _ => []

/-- No integer in the value has more than 4300 digits. -/
def HasShortIntegers (v : Value) : Prop := ∀ n, v.Holds (.bigint n) → n.natAbs < 10 ^ 4300

/-- No text in the value has one half of a surrogate pair. -/
def HasScalarTexts (v : Value) : Prop :=
  ∀ part, v.Holds part → ∀ t ∈ part.texts, Utf8.isEncodable t

variable {items : List (Option Value)} {entries : List (Text × Option Value)} {v part : Value}

/-- What is in an array is the array or in one of its items. -/
theorem holds_array_iff :
    (Value.array items).Holds part ↔ part = .array items ∨ ∃ w, some w ∈ items ∧ w.Holds part := by
  constructor
  · intro h
    cases h with
    | self => exact .inl rfl
    | item hw h => exact .inr ⟨_, hw, h⟩
  · rintro (rfl | ⟨w, hw, h⟩)
    · exact .self _
    · exact .item hw h

/-- What is in an object is the object or in one of its properties. -/
theorem holds_object_iff :
    (Value.object entries).Holds part ↔
      part = .object entries ∨ ∃ w, some w ∈ entries.map (·.2) ∧ w.Holds part := by
  constructor
  · intro h
    cases h with
    | self => exact .inl rfl
    | property hw h => exact .inr ⟨_, List.mem_map.mpr ⟨_, hw, rfl⟩, h⟩
  · rintro (rfl | ⟨w, hw, h⟩)
    · exact .self _
    · obtain ⟨⟨key, _⟩, hentry, rfl⟩ := List.mem_map.mp hw
      exact .property hentry h

/-- The integers in an array are short if those in its items are. -/
theorem has_short_integers_array_iff :
    (Value.array items).HasShortIntegers ↔ ∀ w, some w ∈ items → w.HasShortIntegers := by
  simp only [HasShortIntegers, holds_array_iff]
  grind

/-- The integers in an object are short if those in its properties are. -/
theorem has_short_integers_object_iff :
    (Value.object entries).HasShortIntegers ↔
      ∀ w, some w ∈ entries.map (·.2) → w.HasShortIntegers := by
  simp only [HasShortIntegers, holds_object_iff]
  grind

/-- The texts in an array are those in its items. -/
theorem has_scalar_texts_array_iff :
    (Value.array items).HasScalarTexts ↔ ∀ w, some w ∈ items → w.HasScalarTexts := by
  simp only [HasScalarTexts, holds_array_iff]
  constructor
  · exact fun h w hw part hpart => h part (.inr ⟨w, hw, hpart⟩)
  · rintro h part (rfl | ⟨w, hw, hpart⟩)
    · simp [texts]
    · exact h w hw part hpart

/-- The texts in an object are its keys and those in its properties. -/
theorem has_scalar_texts_object_iff :
    (Value.object entries).HasScalarTexts ↔ (∀ e ∈ entries, Utf8.isEncodable e.1) ∧
      ∀ w, some w ∈ entries.map (·.2) → w.HasScalarTexts := by
  simp only [HasScalarTexts, holds_object_iff]
  constructor
  · intro h
    refine ⟨fun e he => h _ (.inl rfl) e.1 (List.mem_map.mpr ⟨e, he, rfl⟩), ?_⟩
    exact fun w hw part hpart => h part (.inr ⟨w, hw, hpart⟩)
  · rintro ⟨hkeys, h⟩ part (rfl | ⟨w, hw, hpart⟩)
    · simpa [texts] using hkeys
    · exact h w hw part hpart

/-- What is in a value without parts is that value. -/
theorem holds_plain_iff (hplain : v.type ≠ .arrayLiteral ∧ v.type ≠ .objectLiteral) :
    v.Holds part ↔ part = v := by
  constructor
  · intro h
    cases h with
    | self => rfl
    | item => exact absurd rfl hplain.1
    | property => exact absurd rfl hplain.2
  · rintro rfl
    exact .self _

end Value

namespace ReportValue

/-- The value is one that a document in UTF-8 can hold: its texts have no half of a surrogate pair,
its integers are those that a double tells from their neighbours, and its doubles are the other
finite ones. -/
inductive IsSerialisable : ReportValue → Prop where
  | null : IsSerialisable .null
  | boolean (b : Bool) : IsSerialisable (.boolean b)
  | text {t : Text} (h : Utf8.isEncodable t) : IsSerialisable (.text t)
  | integer {n : Int} (h : n.natAbs < 2 ^ 53) : IsSerialisable (.integer n)
  | number {negative : Bool} {m : Magnitude}
      (h : ∀ n, (Double.finite negative m).toInt? = some n → 2 ^ 53 ≤ n.natAbs) :
      IsSerialisable (.number (.finite negative m))
  | array {items : List ReportValue} (h : ∀ item ∈ items, IsSerialisable item) :
      IsSerialisable (.array items)
  | object {entries : List (Text × ReportValue)} (hkeys : ∀ e ∈ entries, Utf8.isEncodable e.1)
      (h : ∀ e ∈ entries, IsSerialisable e.2) : IsSerialisable (.object entries)

/-- What a report shows of a value, or of a value that is missing. -/
inductive Mirrors : Option Value → ReportValue → Prop where
  | missing : Mirrors none .null
  | boolean (b : Bool) : Mirrors (some (.boolean b)) (.boolean b)
  | text (t : Text) : Mirrors (some (.text t)) (.text t)
  | pattern (p : Pattern) : Mirrors (some (.pattern p)) (.text p.source)
  | bigint (n : Int) : Mirrors (some (.bigint n)) (.text (Text.ofInt n))
  | notANumber : Mirrors (some (.number .nan)) (.text (Text.ofString "NaN"))
  | infinite (negative : Bool) : Mirrors (some (.number (.infinite negative)))
      (.text (Text.ofString (if negative then "-Infinity" else "Infinity")))
  | integer {x : Double} {n : Int} (h : x.toInt? = some n) (hlt : n.natAbs < 2 ^ 53) :
      Mirrors (some (.number x)) (.integer n)
  | number {negative : Bool} {m : Magnitude}
      (h : ∀ n, (Double.finite negative m).toInt? = some n → 2 ^ 53 ≤ n.natAbs) :
      Mirrors (some (.number (.finite negative m))) (.number (.finite negative m))
  | array {items : List (Option Value)} {shown : List ReportValue}
      (h : List.Forall₂ Mirrors items shown) : Mirrors (some (.array items)) (.array shown)
  | object {entries : List (Text × Option Value)} {shown : List (Text × ReportValue)}
      (hkeys : entries.map (·.1) = shown.map (·.1))
      (h : List.Forall₂ Mirrors (entries.map (·.2)) (shown.map (·.2))) :
      Mirrors (some (.object entries)) (.object shown)

/-! ## Which values are reported -/

/-- An integer is written unless it has more than 4300 digits. -/
theorem text_eq_some_iff {n : Int} {t : Text} :
    Numeral.text? n = some t ↔ n.natAbs < 10 ^ 4300 ∧ t = Text.ofInt n := by
  have hshort : Rounding.digitCount n.natAbs ≤ Numeral.digitLimit ↔
      n.natAbs < 10 ^ Numeral.digitLimit := Rounding.digit_count_le_iff (by decide)
  rw [show (4300 : Nat) = Numeral.digitLimit from rfl]
  unfold Numeral.text?
  by_cases hle : Rounding.digitCount n.natAbs ≤ Numeral.digitLimit
  · rw [if_pos hle]
    exact ⟨fun h => ⟨hshort.mp hle, (Option.some.inj h).symm⟩, fun h => h.2 ▸ rfl⟩
  · rw [if_neg hle]
    exact ⟨nofun, fun h => absurd (hshort.mpr h.1) hle⟩

/-- A number is shown as what it is. -/
theorem mirrors_of_double (x : Double) : Mirrors (some (.number x)) (ofDouble x) := by
  cases x with
  | nan => exact .notANumber
  | infinite negative => exact .infinite negative
  | finite negative m =>
      unfold ofDouble
      dsimp only
      split
      · next n hn =>
          split
          · next hlt => exact .integer hn hlt
          · next hlt =>
              refine .number fun k hk => ?_
              obtain rfl : n = k := Option.some.inj (hn.symm.trans hk)
              exact Nat.le_of_not_lt hlt
      · next hnone => exact .number fun k hk => absurd (hnone.symm.trans hk) nofun

/-- What is made of a value mirrors it if its integers are short, and else nothing is made. -/
def Tells (v : Option Value) : Except Value.TooManyDigits ReportValue → Prop
  | .ok r => Mirrors v r ∧ ∀ w, v = some w → w.HasShortIntegers
  | .error _ => ∃ w, v = some w ∧ ¬ w.HasShortIntegers

/-- The same of a list. -/
def TellsAll (vs : List (Option Value)) : Except Value.TooManyDigits (List ReportValue) → Prop
  | .ok rs => List.Forall₂ Mirrors vs rs ∧ ∀ w, some w ∈ vs → w.HasShortIntegers
  | .error _ => ∃ w, some w ∈ vs ∧ ¬ w.HasShortIntegers

/-- One value more. -/
theorem tells_all_cons {v : Option Value} {vs : List (Option Value)}
    {first : Except Value.TooManyDigits ReportValue}
    {rest : Except Value.TooManyDigits (List ReportValue)} (h : Tells v first)
    (hrest : TellsAll vs rest) :
    TellsAll (v :: vs) (first >>= fun r => rest >>= fun rs => .ok (r :: rs)) := by
  cases first with
  | error e =>
      obtain ⟨w, rfl, hlong⟩ := h
      exact ⟨w, by simp, hlong⟩
  | ok r =>
      cases rest with
      | error e =>
          obtain ⟨w, hw, hlong⟩ := hrest
          exact ⟨w, List.mem_cons_of_mem _ hw, hlong⟩
      | ok rs =>
          refine ⟨.cons h.1 hrest.1, fun w hw => ?_⟩
          rcases List.mem_cons.mp hw with hw | hw
          · exact h.2 w hw.symm
          · exact hrest.2 w hw

/-- A value without parts and without integers. -/
theorem tells_plain {v : Value} {r : ReportValue} (h : Mirrors (some v) r)
    (hplain : v.type ≠ .arrayLiteral ∧ v.type ≠ .objectLiteral ∧ v.type ≠ .bigintLiteral) :
    Tells (some v) (.ok r) := by
  refine ⟨h, ?_⟩
  rintro _ ⟨⟩ n hn
  obtain rfl := (Value.holds_plain_iff ⟨hplain.1, hplain.2.1⟩).mp hn
  exact absurd rfl hplain.2.2

/-- The properties of an object are reported as items, under their keys. -/
theorem of_entries_eq (entries : List (Text × Option Value)) :
    ofEntries entries = (entries.map (·.1)).zip <$> ofItems (entries.map (·.2)) := by
  induction entries with
  | nil => rfl
  | cons entry entries ih =>
      obtain ⟨key, value⟩ := entry
      simp only [ofEntries, ofItems, List.map_cons, ih]
      cases ofOption value with
      | error e => rfl
      | ok r => cases ofItems (entries.map (·.2)) <;> rfl

mutual

/-- What is reported of a value mirrors it if its integers are short. -/
theorem tells_of_value : ∀ v : Value, Tells (some v) (ofValue v)
  | .number x => tells_plain (mirrors_of_double x) (by simp [Value.type])
  | .bigint n => by
      have hself : (Value.bigint n).HasShortIntegers ↔ n.natAbs < 10 ^ 4300 := by
        refine ⟨fun h => h n (.self _), fun h k hk => ?_⟩
        obtain ⟨rfl⟩ := (Value.holds_plain_iff (by simp [Value.type])).mp hk
        exact h
      unfold ofValue
      split
      · next t ht =>
          obtain ⟨hshort, rfl⟩ := text_eq_some_iff.mp ht
          exact ⟨.bigint n, by rintro _ ⟨⟩; exact hself.mpr hshort⟩
      · next hnone =>
          refine ⟨_, rfl, fun hshort => ?_⟩
          cases hnone.symm.trans (text_eq_some_iff.mpr ⟨hself.mp hshort, rfl⟩)
  | .text t => tells_plain (.text t) (by simp [Value.type])
  | .boolean b => tells_plain (.boolean b) (by cases b <;> simp [Value.type])
  | .pattern p => tells_plain (.pattern p) (by simp [Value.type])
  | .array items => by
      have hitems := tells_of_items items
      unfold ofValue
      cases hmade : ofItems items with
      | error e =>
          rw [hmade] at hitems
          obtain ⟨w, hw, hlong⟩ := hitems
          exact ⟨_, rfl, fun h => hlong (Value.has_short_integers_array_iff.mp h w hw)⟩
      | ok rs =>
          rw [hmade] at hitems
          refine ⟨.array hitems.1, ?_⟩
          rintro _ ⟨⟩
          exact Value.has_short_integers_array_iff.mpr hitems.2
  | .object entries => by
      have hentries := tells_of_entries entries
      unfold ofValue
      rw [of_entries_eq]
      cases hmade : ofItems (entries.map (·.2)) with
      | error e =>
          rw [hmade] at hentries
          obtain ⟨w, hw, hlong⟩ := hentries
          exact ⟨_, rfl, fun h => hlong (Value.has_short_integers_object_iff.mp h w hw)⟩
      | ok rs =>
          rw [hmade] at hentries
          obtain ⟨hmirrors, hshort⟩ := hentries
          have hlength : (entries.map (·.1)).length = rs.length := by
            rw [← hmirrors.length_eq, List.length_map, List.length_map]
          refine ⟨.object (List.map_fst_zip (Nat.le_of_eq hlength)).symm ?_, ?_⟩
          · rw [List.map_snd_zip (Nat.le_of_eq hlength.symm)]
            exact hmirrors
          · rintro _ ⟨⟩
            exact Value.has_short_integers_object_iff.mpr hshort

/-- The same of the items of an array. -/
theorem tells_of_items : ∀ items : List (Option Value), TellsAll items (ofItems items)
  | [] => ⟨.nil, by simp⟩
  | none :: items => tells_all_cons ⟨.missing, by simp⟩ (tells_of_items items)
  | some v :: items => tells_all_cons (tells_of_value v) (tells_of_items items)

/-- The same of the properties of an object. -/
theorem tells_of_entries : ∀ entries : List (Text × Option Value),
    TellsAll (entries.map (·.2)) (ofItems (entries.map (·.2)))
  | [] => ⟨.nil, by simp⟩
  | (_, none) :: entries => tells_all_cons ⟨.missing, by simp⟩ (tells_of_entries entries)
  | (_, some v) :: entries => tells_all_cons (tells_of_value v) (tells_of_entries entries)

end

/-! ## Which values can be written -/

/-- The digits of a number are no halves of surrogate pairs. -/
theorem is_encodable_of_int (n : Int) : Utf8.isEncodable (Text.ofInt n) := by
  have hdigit : ∀ d < 10, !Text.isSurrogate (Numeral.spelling d) := by decide
  have hnat : ∀ n : Nat, Utf8.isEncodable (Text.ofNat n) := fun n => by
    obtain ⟨digits, htext, hdigits⟩ := Numeral.exists_writing n
    rw [htext, Utf8.isEncodable, List.all_map, List.all_eq_true]
    exact fun d hd => hdigit d (hdigits.lt d hd)
  cases n with
  | ofNat n => exact hnat n
  | negSucc n =>
      rw [Text.ofInt, Utf8.isEncodable, List.all_cons, Bool.and_eq_true]
      exact ⟨by decide, hnat (n + 1)⟩

/-- A value that shows no text by itself and has no parts has none. -/
theorem has_scalar_texts_plain {v : Value}
    (hplain : v.type ≠ .arrayLiteral ∧ v.type ≠ .objectLiteral) :
    v.HasScalarTexts ↔ ∀ t ∈ v.texts, Utf8.isEncodable t := by
  refine ⟨fun h => h v (.self v), fun h part hpart => ?_⟩
  obtain rfl := (Value.holds_plain_iff hplain).mp hpart
  exact h

/-- One value more. -/
theorem serialisable_cons {v : Option Value} {vs : List (Option Value)} {r : ReportValue}
    {rs : List ReportValue} (h : r.IsSerialisable ↔ ∀ w, v = some w → w.HasScalarTexts)
    (hrest : (∀ r ∈ rs, r.IsSerialisable) ↔ ∀ w, some w ∈ vs → w.HasScalarTexts) :
    (∀ q ∈ r :: rs, q.IsSerialisable) ↔ ∀ w, some w ∈ v :: vs → w.HasScalarTexts := by
  rw [List.forall_mem_cons, h, hrest]
  simp only [List.mem_cons, or_imp, forall_and, eq_comm]

mutual

/-- What mirrors a value can be written if the texts in the value can. -/
theorem is_serialisable_iff : ∀ (v : Value) (r : ReportValue), Mirrors (some v) r →
    (r.IsSerialisable ↔ v.HasScalarTexts)
  | .number x, r, h => by
      have htexts : (Value.number x).HasScalarTexts :=
        (has_scalar_texts_plain (by simp [Value.type])).mpr (by simp [Value.texts])
      refine iff_of_true ?_ htexts
      cases h with
      | notANumber => exact .text (by decide)
      | infinite negative => cases negative <;> exact .text (by decide)
      | integer _ hlt => exact .integer hlt
      | number h => exact .number h
  | .bigint n, r, h => by
      have htexts : (Value.bigint n).HasScalarTexts :=
        (has_scalar_texts_plain (by simp [Value.type])).mpr (by simp [Value.texts])
      cases h
      exact iff_of_true (.text (is_encodable_of_int n)) htexts
  | .boolean b, r, h => by
      have htexts : (Value.boolean b).HasScalarTexts :=
        (has_scalar_texts_plain (by cases b <;> simp [Value.type])).mpr (by simp [Value.texts])
      cases h
      exact iff_of_true (.boolean b) htexts
  | .text t, r, h => by
      rw [has_scalar_texts_plain (by simp [Value.type])]
      cases h
      simp only [Value.texts, List.mem_singleton, forall_eq]
      exact ⟨fun h => by cases h; assumption, .text⟩
  | .pattern p, r, h => by
      rw [has_scalar_texts_plain (by simp [Value.type])]
      cases h
      simp only [Value.texts, List.mem_singleton, forall_eq]
      exact ⟨fun h => by cases h; assumption, .text⟩
  | .array items, r, h => by
      rw [Value.has_scalar_texts_array_iff]
      cases h with
      | array hall =>
          rw [← are_serialisable_iff items _ hall]
          exact ⟨fun h => by cases h; assumption, .array⟩
  | .object entries, r, h => by
      rw [Value.has_scalar_texts_object_iff]
      cases h with
      | @object _ shown hkeys hall =>
          rw [← entries_serialisable_iff entries _ hall]
          have hsame : (∀ e ∈ entries, Utf8.isEncodable e.1) ↔
              ∀ e ∈ shown, Utf8.isEncodable e.1 := by
            have := congrArg (fun keys : List Text => ∀ t ∈ keys, Utf8.isEncodable t) hkeys
            simpa using this
          rw [hsame]
          simp only [List.forall_mem_map]
          exact ⟨fun h => by cases h; exact ⟨‹_›, ‹_›⟩, fun h => .object h.1 h.2⟩

/-- The same of the items of an array. -/
theorem are_serialisable_iff : ∀ (items : List (Option Value)) (shown : List ReportValue),
    List.Forall₂ Mirrors items shown →
    ((∀ r ∈ shown, r.IsSerialisable) ↔ ∀ w, some w ∈ items → w.HasScalarTexts)
  | [], _, .nil => by simp
  | none :: items, _, .cons .missing hrest =>
      serialisable_cons (by simp [IsSerialisable.null]) (are_serialisable_iff items _ hrest)
  | some v :: items, _, .cons h hrest =>
      serialisable_cons (by simpa using is_serialisable_iff v _ h)
        (are_serialisable_iff items _ hrest)

/-- The same of the properties of an object. -/
theorem entries_serialisable_iff : ∀ (entries : List (Text × Option Value))
    (shown : List ReportValue), List.Forall₂ Mirrors (entries.map (·.2)) shown →
    ((∀ r ∈ shown, r.IsSerialisable) ↔ ∀ w, some w ∈ entries.map (·.2) → w.HasScalarTexts)
  | [], _, .nil => by simp
  | (_, none) :: entries, _, .cons .missing hrest =>
      serialisable_cons (by simp [IsSerialisable.null]) (entries_serialisable_iff entries _ hrest)
  | (_, some v) :: entries, _, .cons h hrest =>
      serialisable_cons (by simpa using is_serialisable_iff v _ h)
        (entries_serialisable_iff entries _ hrest)

end

/-- What is reported of a value that may be missing mirrors it if its integers are short. -/
theorem tells_of_option : ∀ v : Option Value, Tells v (ofOption v)
  | none => ⟨.missing, nofun⟩
  | some v => tells_of_value v

/-- What mirrors a value that may be missing can be written if the texts in the value can. -/
theorem is_serialisable_option_iff {v : Option Value} {r : ReportValue} (h : Mirrors v r) :
    r.IsSerialisable ↔ ∀ w, v = some w → w.HasScalarTexts := by
  cases v with
  | none =>
      cases h
      exact iff_of_true .null nofun
  | some v => simpa using is_serialisable_iff v r h

end ReportValue

end StaticLiteral
