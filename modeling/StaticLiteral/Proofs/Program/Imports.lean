import StaticLiteral.Proofs.Program.Reexports

/-!
# Imports

An import or a named re-export names an export of a module. `aliased_of_imports` says what stands
behind it: what the file that the module means exports. `export_eq` says whose own export that is.
-/

namespace StaticLiteral.Program

variable {p : Program} {a : BoundSymbol} {path name file : Text}

/-- The symbol is an alias of what a file exports under a name. -/
def Imports (p : Program) (a : BoundSymbol) (path name : Text) : Prop :=
  ∃ origin specifier, a.kind = .aliasOf origin ∧ origin.module = some specifier ∧
    origin.importName = some name ∧
    p.resolveModule (origin.sourceFile.getD []) specifier = some path

/-- An import is an alias. -/
theorem Imports.is_alias (h : p.Imports a path name) : a.kind.isAlias := by
  obtain ⟨origin, _, hkind, _⟩ := h
  rw [hkind]
  rfl

/-- One step behind an import stands what the file exports, or nothing that is known. -/
theorem aliased_of_imports (h : p.Imports a path name) :
    p.aliased a = (p.export? path name).getD unknownSymbol := by
  obtain ⟨origin, specifier, hkind, hmodule, hname, hpath⟩ := h
  simp [aliased, target?, hkind, hmodule, hname, hpath]

/-- A symbol that is no alias stands for itself. -/
theorem aliased_of_not_alias (h : a.kind.isAlias = false) : p.aliased a = a := by
  unfold aliased
  split
  · simp_all [SymbolKind.isAlias]
  · rfl

/-- A chain that starts at a symbol that is no alias ends there. -/
theorem alias_end_of_not_alias (h : a.kind.isAlias = false) : p.aliasEnd a = a := by
  rw [aliasEnd, aliasEndFrom, if_neg]
  simp [h]

/-- A chain of aliases that is one step long ends there. -/
theorem alias_end_of_step (halias : a.kind.isAlias)
    (hstep : (p.aliased a).kind.isAlias = false) : p.aliasEnd a = p.aliased a := by
  rw [aliasEnd, aliasEndFrom, if_pos ⟨halias, List.not_mem_nil⟩, aliasEndFrom, if_neg]
  simp [hstep]

/-! ## Chains of aliases -/

/-- The symbol `x`, which is no alias, stands some steps behind another one. -/
inductive Leads (p : Program) : Nat → BoundSymbol → BoundSymbol → Prop
  | here {x : BoundSymbol} (h : x.kind.isAlias = false) : Leads p 0 x x
  | step {k : Nat} {a x : BoundSymbol} (halias : a.kind.isAlias) (h : Leads p k (p.aliased a) x) :
      Leads p (k + 1) a x

namespace Leads

variable {k l : Nat} {x y : BoundSymbol}

/-- What a chain leads to is no alias. -/
theorem not_alias (h : p.Leads k a x) : x.kind.isAlias = false := by
  induction h with
  | here h => exact h
  | step _ _ ih => exact ih

/-- A chain has one end, and one length. -/
theorem unique (h : p.Leads k a x) (h' : p.Leads l a y) : k = l ∧ x = y := by
  induction h generalizing l with
  | here h =>
      cases h' with
      | here => exact ⟨rfl, rfl⟩
      | step halias => simp [h] at halias
  | step halias _ ih =>
      cases h' with
      | here h => simp [h] at halias
      | step _ h' =>
          obtain ⟨rfl, rfl⟩ := ih h'
          exact ⟨rfl, rfl⟩

/-- The search for the end of a chain finds it: what was seen before is longer ahead of it. -/
theorem alias_end_from_eq (hp : ∀ s ∈ p.symbols, ∀ t ∈ p.symbols, s.id = t.id → s = t)
    (h : p.Leads k a x) (ha : a ∈ p.symbols) {steps : Nat} (hsteps : k < steps)
    {seen : List SymbolId}
    (hseen : ∀ id ∈ seen, ∃ t ∈ p.symbols, t.id = id ∧ ∃ l > k, p.Leads l t x) :
    p.aliasEndFrom steps seen a = x := by
  induction h generalizing steps seen with
  | here h =>
      obtain ⟨steps, rfl⟩ := Nat.exists_eq_add_one_of_ne_zero (Nat.ne_zero_of_lt hsteps)
      rw [aliasEndFrom, if_neg]
      simp [h]
  | @step k a x halias hrest ih =>
      obtain ⟨steps, rfl⟩ := Nat.exists_eq_add_one_of_ne_zero (Nat.ne_zero_of_lt hsteps)
      have hnew : a.id ∉ seen := by
        intro hmem
        obtain ⟨t, ht, hid, l, hl, hleads⟩ := hseen a.id hmem
        obtain rfl := hp t ht a ha hid
        have heq := (hleads.unique (.step halias hrest)).1
        omega
      rw [aliasEndFrom, if_pos ⟨halias, hnew⟩]
      refine ih (aliased_mem_symbols ha) (by omega) fun id hid => ?_
      rcases List.mem_cons.mp hid with rfl | hid
      · exact ⟨a, ha, rfl, k + 1, by omega, .step halias hrest⟩
      · obtain ⟨t, ht, hid, l, hl, hleads⟩ := hseen id hid
        exact ⟨t, ht, hid, l, by omega, hleads⟩

/-- A chain ends where it leads to. -/
theorem alias_end_eq (hp : ∀ s ∈ p.symbols, ∀ t ∈ p.symbols, s.id = t.id → s = t)
    (h : p.Leads k a x) (ha : a ∈ p.symbols) : p.aliasEnd a = x := by
  have hbound : p.factCount + 2 ≤ p.factCount + 2 + k := by omega
  rw [← Program.alias_end_from_eq hbound]
  exact h.alias_end_from_eq hp ha (by omega) (by simp)

end Leads

/-- The search for the end of a chain leads there unless it ends at an alias. -/
theorem exists_leads_from {steps : Nat} {seen : List SymbolId}
    (h : (p.aliasEndFrom steps seen a).kind.isAlias = false) :
    ∃ k, p.Leads k a (p.aliasEndFrom steps seen a) := by
  induction steps generalizing seen a with
  | zero => exact ⟨0, .here h⟩
  | succ steps ih =>
      rw [aliasEndFrom] at h ⊢
      split
      case isTrue halias =>
        rw [if_pos halias] at h
        obtain ⟨k, hleads⟩ := ih h
        exact ⟨k + 1, .step halias.1 hleads⟩
      case isFalse halias =>
        rw [if_neg halias] at h
        exact ⟨0, .here h⟩

/-- The end of a chain that goes on behind an alias is that of the rest of the chain, unless the
chain has no end. -/
theorem alias_end_aliased (hp : ∀ s ∈ p.symbols, ∀ t ∈ p.symbols, s.id = t.id → s = t)
    (ha : a.kind.isAlias) (h : (p.aliasEnd a).kind.isAlias = false) :
    p.aliasEnd (p.aliased a) = p.aliasEnd a := by
  have hleads : ∃ k, p.Leads k a (p.aliasEnd a) := exists_leads_from h
  generalize p.aliasEnd a = x at hleads h ⊢
  obtain ⟨k, hleads⟩ := hleads
  cases hleads with
  | here h' => simp [ha] at h'
  | step _ hrest => exact hrest.alias_end_eq hp (aliased_mem_symbols_of_alias ha)

/-! ## The file that has an export -/

/-- The file whose own export is found when a file is searched for an export: the file itself, or
the first file in depth-first order that has the export. -/
def exportFile? (p : Program) (path name : Text) : Option Text :=
  (if name = defaultName then [path] else p.exportSources path).find? fun file =>
    (p.ownExport? file name).isSome

/-- What a search finds first it finds of the first element that has it. -/
theorem find_some_eq_bind {α β : Type} (f : α → Option β) (xs : List α) :
    xs.findSome? f = (xs.find? fun x => (f x).isSome).bind f := by
  induction xs with
  | nil => rfl
  | cons x xs ih =>
      rw [List.findSome?_cons, List.find?_cons]
      cases hx : f x with
      | none => simpa using ih
      | some y => simp [hx]

/-- What a file exports is the own export of the file that has it. -/
theorem export_eq (p : Program) (path name : Text) :
    p.export? path name = (p.exportFile? path name).bind (p.ownExport? · name) := by
  rw [exportFile?, ← find_some_eq_bind, export?]
  split
  · cases h : p.ownExport? path name <;> simp [h]
  · rfl

/-- What a file has itself it exports. -/
theorem export_of_own {symbol : BoundSymbol} (h : p.ownExport? path name = some symbol) :
    p.export? path name = some symbol := by
  rw [export?]
  split
  · exact h
  · obtain ⟨rest, hrest⟩ := (preorder_export_sources p path).exists_eq_cons
    rw [hrest, List.findSome?_cons, h]

end StaticLiteral.Program
