import StaticLiteral.Program.Report
import StaticLiteral.Proofs.Depth
import StaticLiteral.Proofs.Number.Bigints
import StaticLiteral.Proofs.Reports

/-!
# What reports on files hold

`Program.Entries` says which entries a report has for a list of statements: one for each expression
that stands as a statement and for each exported constant under a plain name, in their order.
`Program.report_exact` compares it with the reports that are made, and says exactly when there is a
report and when it can be written.
-/

namespace StaticLiteral

open ReportValue

/-- The plain name of a variable. -/
def Node.constantName? : Node → Option Text
  | variableDeclaration _ (identifier _ name) _ _ => some name
  | _ => none

namespace Program

variable {p : Program}

/-- The entry is about this node and what it resolves to. -/
structure Describes (p : Program) (node : Node) (name : Option Text) (e : ReportEntry) :
    Prop where
  line : e.line = node.span.map (·.startLine)
  kind : e.kind = node.kindName
  type : e.type = (p.resolve node).value.map Value.type
  value : Mirrors (p.resolve node).value e.value
  name : e.name = name

/-- The entries for some statements in their order. -/
inductive Entries (p : Program) : List Node → List ReportEntry → Prop where
  | nil : Entries p [] []
  | expression {i : Info} {e : Node} {r : ReportEntry} {ss : List Node} {rs : List ReportEntry}
      (h : p.Describes e none r) (rest : Entries p ss rs) :
      Entries p (.expressionStatement i e :: ss) (r :: rs)
  | constants {i : Info} {ds ss : List Node} {ambient : Bool} {these rs : List ReportEntry}
      (h : List.Forall₂ (fun d r => p.Describes d d.constantName? r)
        (ds.filter (·.constantName?.isSome)) these)
      (rest : Entries p ss rs) :
      Entries p (.variableStatement i .const ds true ambient :: ss) (these ++ rs)
  | other {s : Node} {ss : List Node} {rs : List ReportEntry}
      (hexpression : ∀ i e, s ≠ .expressionStatement i e)
      (hconstants : ∀ i ds ambient, s ≠ .variableStatement i .const ds true ambient)
      (rest : Entries p ss rs) : Entries p (s :: ss) rs

/-- There is an entry about the node: it is an expression that stands as a statement, or an exported
constant under a plain name. -/
def IsReported (ss : List Node) (node : Node) : Prop :=
  (∃ i, .expressionStatement i node ∈ ss) ∨
    ∃ i ds ambient, .variableStatement i .const ds true ambient ∈ ss ∧ node ∈ ds ∧
      node.constantName?.isSome

/-! ## One entry -/

/-- There is an entry about a node if the integers in its value are short. -/
theorem exists_entry_iff {node : Node} {name : Option Text} :
    (∃ e, p.entry node name = .ok e) ↔
      ∀ v, (p.resolve node).value = some v → v.HasShortIntegers := by
  have htells := tells_of_option (p.resolve node).value
  unfold entry
  dsimp only
  cases hmade : ofOption (p.resolve node).value with
  | error e =>
      rw [hmade] at htells
      obtain ⟨v, hv, hlong⟩ := htells
      exact iff_of_false nofun fun h => hlong (h v hv)
  | ok r =>
      rw [hmade] at htells
      exact iff_of_true ⟨_, rfl⟩ htells.2

/-- An entry about a node describes it. -/
theorem describes_of_entry {node : Node} {name : Option Text} {e : ReportEntry}
    (h : p.entry node name = .ok e) : p.Describes node name e := by
  obtain ⟨r, hmade, h⟩ := bind_eq_ok_iff.mp h
  obtain rfl := Except.ok.inj h
  have htells := tells_of_option (p.resolve node).value
  rw [hmade] at htells
  exact ⟨rfl, rfl, rfl, htells.1, rfl⟩

/-! ## All entries -/

/-- The constants of a statement that are reported. -/
theorem reported_constants (i : Info) (ds : List Node) (ambient : Bool) :
    reported (.variableStatement i .const ds true ambient) =
      (ds.filter (·.constantName?.isSome)).map fun d => (d, d.constantName?) := by
  have hrow : ∀ d : Node, (match d with
      | .variableDeclaration _ (.identifier _ name) _ _ => some (d, some name)
      | _ => none) = (if d.constantName?.isSome then some (d, d.constantName?) else none) := by
    intro d
    cases d with
    | variableDeclaration j name type init => cases name <;> rfl
    | _ => rfl
  rw [← List.filterMap_eq_map, List.filterMap_filter]
  exact congrArg (List.filterMap · ds) (funext hrow)

/-- A statement is an expression, declares exported constants, or has no entries. -/
theorem statement_cases (s : Node) :
    (∃ i e, s = .expressionStatement i e) ∨
      (∃ i ds ambient, s = .variableStatement i .const ds true ambient) ∨
      (∀ i e, s ≠ .expressionStatement i e) ∧
        (∀ i ds ambient, s ≠ .variableStatement i .const ds true ambient) ∧ reported s = [] := by
  by_cases hexpression : ∃ i e, s = .expressionStatement i e
  · exact .inl hexpression
  by_cases hconstants : ∃ i ds ambient, s = .variableStatement i .const ds true ambient
  · exact .inr (.inl hconstants)
  refine .inr (.inr ⟨fun i e h => hexpression ⟨i, e, h⟩,
    fun i ds ambient h => hconstants ⟨i, ds, ambient, h⟩, ?_⟩)
  unfold reported
  split
  · exact absurd ⟨_, _, rfl⟩ hexpression
  · exact absurd ⟨_, _, _, rfl⟩ hconstants
  · rfl

/-- The nodes that are reported are those that there are entries about. -/
theorem mem_reported_iff {ss : List Node} {node : Node} :
    (∃ name, (node, name) ∈ ss.flatMap reported) ↔ IsReported ss node := by
  constructor
  · rintro ⟨name, hrow⟩
    obtain ⟨s, hs, hrow⟩ := List.mem_flatMap.mp hrow
    rcases statement_cases s with ⟨i, e, rfl⟩ | ⟨i, ds, ambient, rfl⟩ | ⟨-, -, hnone⟩
    · obtain ⟨rfl, rfl⟩ := Prod.mk.inj (List.mem_singleton.mp hrow)
      exact .inl ⟨i, hs⟩
    · rw [reported_constants] at hrow
      obtain ⟨d, hd, hrow⟩ := List.mem_map.mp hrow
      obtain ⟨rfl, rfl⟩ := Prod.mk.inj hrow
      obtain ⟨hmem, hname⟩ := List.mem_filter.mp hd
      exact .inr ⟨i, ds, ambient, hs, hmem, hname⟩
    · rw [hnone] at hrow
      cases hrow
  · rintro (⟨i, hs⟩ | ⟨i, ds, ambient, hs, hmem, hname⟩)
    · exact ⟨none, List.mem_flatMap.mpr ⟨_, hs, List.mem_singleton_self _⟩⟩
    · refine ⟨node.constantName?, List.mem_flatMap.mpr ⟨_, hs, ?_⟩⟩
      rw [reported_constants]
      exact List.mem_map.mpr ⟨node, List.mem_filter.mpr ⟨hmem, hname⟩, rfl⟩

/-- What is so of every row is so of every node that there are entries about. -/
theorem forall_reported_iff {ss : List Node} {P : Node → Prop} :
    (∀ row ∈ ss.flatMap reported, P row.1) ↔ ∀ node, IsReported ss node → P node := by
  constructor
  · rintro h node hnode
    obtain ⟨name, hrow⟩ := mem_reported_iff.mpr hnode
    exact h _ hrow
  · rintro h ⟨node, name⟩ hrow
    exact h node (mem_reported_iff.mp ⟨name, hrow⟩)

/-- A list of things is made from the things one by one. -/
theorem mapM_eq_ok_iff {α β ε : Type} {f : α → Except ε β} {xs : List α} {ys : List β} :
    xs.mapM f = .ok ys ↔ List.Forall₂ (fun x y => f x = .ok y) xs ys := by
  induction xs generalizing ys with
  | nil =>
      rw [List.forall₂_nil_left_iff]
      exact ⟨fun h => (Except.ok.inj h).symm, fun h => h ▸ rfl⟩
  | cons x xs ih =>
      rw [List.mapM_cons, bind_eq_ok_iff, List.forall₂_cons_left_iff]
      constructor
      · rintro ⟨y, hy, h⟩
        obtain ⟨rest, hrest, h⟩ := bind_eq_ok_iff.mp h
        exact ⟨y, rest, hy, ih.mp hrest, (Except.ok.inj h).symm⟩
      · rintro ⟨y, rest, hy, hrest, rfl⟩
        exact ⟨y, hy, bind_eq_ok_iff.mpr ⟨rest, ih.mpr hrest, rfl⟩⟩

/-- There is a counterpart for a list if there is one for each of its members. -/
theorem exists_forall₂_iff {α β : Type} {R : α → β → Prop} {xs : List α} :
    (∃ ys, List.Forall₂ R xs ys) ↔ ∀ x ∈ xs, ∃ y, R x y := by
  induction xs with
  | nil => simp
  | cons x xs ih =>
      rw [List.forall_mem_cons, ← ih]
      constructor
      · rintro ⟨_, h⟩
        cases h with
        | cons h hrest => exact ⟨⟨_, h⟩, _, hrest⟩
      · rintro ⟨⟨y, h⟩, ys, hrest⟩
        exact ⟨y :: ys, .cons h hrest⟩

/-- What a member and its counterpart agree about, they do for all. -/
theorem forall_iff_of_forall₂ {α β : Type} {R : α → β → Prop} {P : α → Prop} {Q : β → Prop}
    {xs : List α} {ys : List β} (h : List.Forall₂ R xs ys) (hR : ∀ x y, R x y → (Q y ↔ P x)) :
    (∀ y ∈ ys, Q y) ↔ ∀ x ∈ xs, P x := by
  induction h with
  | nil => simp
  | cons h _ ih => rw [List.forall_mem_cons, List.forall_mem_cons, hR _ _ h, ih]

/-- The entries of some statements are those that there should be. -/
theorem entries_of_ok {ss : List Node} {entries : List ReportEntry}
    (h : List.Forall₂ (fun row e => p.entry row.1 row.2 = .ok e) (ss.flatMap reported) entries) :
    p.Entries ss entries := by
  induction ss generalizing entries with
  | nil =>
      cases h
      exact .nil
  | cons s ss ih =>
      rw [List.flatMap_cons] at h
      rcases statement_cases s with ⟨i, e, rfl⟩ | ⟨i, ds, ambient, rfl⟩ | ⟨he, hc, hnone⟩
      · cases h with
        | cons hfirst hrest => exact .expression (describes_of_entry hfirst) (ih hrest)
      · rw [reported_constants] at h
        have hthese := (List.forall₂_take_append _ _ _ h.flip).flip
        have hrest := (List.forall₂_drop_append _ _ _ h.flip).flip
        rw [← List.take_append_drop _ entries]
        refine .constants ?_ (ih hrest)
        exact (List.forall₂_map_left_iff.mp hthese).imp fun _ _ => describes_of_entry
      · rw [hnone] at h
        exact .other he hc (ih h)

/-- There is a report exactly if no integer in the values of the nodes that it is about has more
than 4300 digits. -/
theorem exists_report_iff {f : BoundFile} :
    (∃ entries, p.report f = .ok entries) ↔ ∀ node, IsReported f.statements node →
      ∀ v, (p.resolve node).value = some v → v.HasShortIntegers := by
  simp only [report, mapM_eq_ok_iff, exists_forall₂_iff, exists_entry_iff]
  exact forall_reported_iff
    (P := fun node => ∀ v, (p.resolve node).value = some v → v.HasShortIntegers)

/-- **Reports on files.** There is a report exactly if no integer in the values of the nodes that it
is about has more than 4300 digits. It has one entry for each of these nodes, in the order of the
file, which mirrors the value; and it can be written exactly if no text in the values has one half
of a surrogate pair. -/
theorem report_exact (p : Program) (f : BoundFile) :
    ((∃ entries, p.report f = .ok entries) ↔ ∀ node, IsReported f.statements node →
      ∀ v, (p.resolve node).value = some v → v.HasShortIntegers) ∧
    ∀ entries, p.report f = .ok entries → p.Entries f.statements entries ∧
      ((∀ e ∈ entries, e.value.IsSerialisable) ↔ ∀ node, IsReported f.statements node →
        ∀ v, (p.resolve node).value = some v → v.HasScalarTexts) := by
  refine ⟨exists_report_iff, fun entries h => ?_⟩
  have hrows := mapM_eq_ok_iff.mp h
  refine ⟨entries_of_ok hrows, ?_⟩
  rw [forall_iff_of_forall₂ hrows fun row e he =>
    is_serialisable_option_iff (describes_of_entry he).value]
  exact forall_reported_iff
    (P := fun node => ∀ v, (p.resolve node).value = some v → v.HasScalarTexts)

/-- A text with one half of a surrogate pair is reported as it is, and cannot be written. -/
example :
    let p := ofSources {}
      [{ fileName := Text.ofString "a.ts"
         statements := [.expressionStatement {} (.stringLiteral {} [0xD800])] }]
    ∀ f ∈ p.files, ∃ e, p.report f = .ok [e] ∧ ¬ e.value.IsSerialisable := by
  intro p f hf
  obtain rfl := List.mem_singleton.mp hf
  exact ⟨_, rfl, fun h => by cases h; contradiction⟩

/-! ## Bigints of any size -/

/-- A bigint literal is resolved to its value, or to nothing if it is none. -/
theorem resolve_bigint_literal (p : Program) (i : Info) (t : Text) :
    p.resolve (.bigintLiteral i t) = ⟨Resolution.bigintLiteral t, none⟩ := by
  unfold resolve Resolution.resolve
  rw [show Resolution.depthLimit = 999 + 1 from rfl, Resolution.ofNode]
  rfl

/-- The bigint with a one and 3572 hexadecimal zeros has a value, and a file with it as a statement
has no report. -/
theorem long_bigint_unreported :
    let text := Text.ofString "0x1" ++ List.replicate 3572 '0'.toNat ++ Text.ofString "n"
    let p := ofSources {}
      [{ fileName := Text.ofString "a.ts"
         statements := [.expressionStatement {} (.bigintLiteral {} text)] }]
    ∃ f ∈ p.files, (∃ node, IsReported f.statements node ∧
        (p.resolve node).value = some (.bigint (16 ^ 3572 : Nat))) ∧
      ∀ entries, p.report f ≠ .ok entries := by
  intro text p
  let digits := 1 :: List.replicate 3572 0
  have htext : text = '0'.toNat :: 'x'.toNat :: digits.map Numeral.spelling ++ ['n'.toNat] := by
    rw [List.map_cons, List.map_replicate]
    rfl
  have hvalue : ∀ i, (p.resolve (.bigintLiteral i text)).value =
      some (.bigint (16 ^ 3572 : Nat)) := by
    intro i
    have hnumber : Numeral.number 16 digits = 16 ^ 3572 := by
      rw [Numeral.number_cons, Numeral.number_replicate_zero, List.length_replicate, one_mul,
        add_zero]
    have hdigit : ∀ d ∈ digits, NumericLiteral.IsDigit 16 (Numeral.spelling d) d := by
      refine List.forall_mem_cons.mpr ⟨.figure (d := 1) (by decide) (by decide), fun d hd => ?_⟩
      rw [List.eq_of_mem_replicate hd]
      exact .figure (d := 0) (by decide) (by decide)
    have hwritten : BigintLiteral.Written text 16 digits := by
      rw [htext]
      refine .marked (by decide) (NumericLiteral.digits_of_forall₂ (List.cons_ne_nil _ _) ?_)
      exact List.forall₂_map_left_iff.mpr (List.forall₂_same.mpr hdigit)
    rw [resolve_bigint_literal, Resolution.bigintLiteral, BigintLiteral.value_of_written hwritten,
      if_neg (by decide), hnumber]
  refine ⟨_, List.mem_singleton_self _, ⟨_, .inl ⟨_, List.mem_singleton_self _⟩, hvalue _⟩, ?_⟩
  intro entries h
  have hshort := exists_report_iff.mp ⟨entries, h⟩ _ (.inl ⟨_, List.mem_singleton_self _⟩)
  exact absurd (hshort _ (hvalue _) _ (.self _)) (by decide +kernel)

end Program

end StaticLiteral
