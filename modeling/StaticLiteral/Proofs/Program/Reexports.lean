import Mathlib.Logic.Relation
import StaticLiteral.Proofs.Program.Search

/-!
# Exports that are exported again

Files lead to the files whose exports they export again. `Preorder` says in which order a
depth-first search meets the files that some paths lead to, around files visited before. There is
always exactly one such order; from a single path it consists of the files that can be reached, each
once. `export_search` says that the search for an export finds what the first file in that order
has, and that it ends however the files lead to each other.
-/

namespace StaticLiteral

/-! ## The search as it stops -/

/-- Why a search for an export stops before it has visited every file. -/
inductive SearchStop where
  | found (symbol : BoundSymbol)
  | tooDeep

/-- The files visited, or why the search stopped. -/
abbrev SearchAnswer := Except SearchStop (List Text)

/-- What a search for an export comes to, unless it stopped for its depth. -/
def SearchAnswer.outcome? : SearchAnswer → Option (Option BoundSymbol)
  | .ok _ => some none
  | .error (.found symbol) => some (some symbol)
  | .error .tooDeep => none

namespace Program

variable {p : Program} {name : Text} {visited starts order other : List Text} {path : Text}

/-- The search for an export that stops at the first file that has it. A default is only looked for
in the first file. -/
def searchFrom (p : Program) (name : Text) : Nat → List Text → Text → SearchAnswer
  | 0, _, _ => .error .tooDeep
  | depth + 1, visited, path =>
    if visited.contains path then .ok visited
    else
      match p.ownExport? path name with
      | some symbol => .error (.found symbol)
      | none =>
        if name = defaultName then .ok (visited ++ [path])
        else (p.reexported path).foldlM (searchFrom p name depth) (visited ++ [path])

/-- Exports of `next` are exports of `path`: one of its specifiers leads there. -/
def Reexports (p : Program) (path next : Text) : Prop :=
  ∃ specifier, .reexports specifier ∈ p.factsOf path ∧ p.resolveModule path specifier = some next

/-- The files that a file exports again are those that its specifiers lead to. -/
theorem mem_reexported_iff {next : Text} : next ∈ p.reexported path ↔ p.Reexports path next := by
  constructor
  · intro h
    obtain ⟨specifier, hspecifier, hnext⟩ := List.mem_filterMap.mp h
    obtain ⟨fact, hfact, hreexport⟩ := List.mem_filterMap.mp hspecifier
    cases fact with
    | reexports s => exact ⟨specifier, Option.some.inj hreexport ▸ hfact, hnext⟩
    | _ => simp [Fact.reexport?] at hreexport
  · rintro ⟨specifier, hfact, hnext⟩
    exact List.mem_filterMap.mpr ⟨specifier, List.mem_filterMap.mpr ⟨_, hfact, rfl⟩, hnext⟩

/-! ## Depth-first order -/

/-- The files that a depth-first search from `starts` meets, in preorder. It passes over the files
in `visited` and over those that it has met itself. -/
inductive Preorder (p : Program) : List Text → List Text → List Text → Prop
  | done (visited : List Text) : Preorder p visited [] []
  | skip {visited starts order : List Text} {path : Text} (hvisited : path ∈ visited)
      (rest : Preorder p visited starts order) : Preorder p visited (path :: starts) order
  | enter {visited starts below after : List Text} {path : Text} (hnew : path ∉ visited)
      (inside : Preorder p (visited ++ [path]) (p.reexported path) below)
      (rest : Preorder p (visited ++ path :: below) starts after) :
      Preorder p visited (path :: starts) (path :: below ++ after)

/-- Entering a file leaves fewer of them unvisited, unless it leads nowhere. -/
theorem reexported_eq_nil_or_lt (hnew : path ∉ visited) :
    p.reexported path = [] ∨
      (p.unvisited (visited ++ [path])).length < (p.unvisited visited).length := by
  by_cases hfile : path ∈ p.files.map (·.path)
  · exact .inr (length_unvisited_lt hfile hnew)
  · exact .inl (reexported_eq_nil hfile)

/-- There is an order around any files visited before. -/
theorem exists_preorder (p : Program) (visited starts : List Text) :
    ∃ order, p.Preorder visited starts order := by
  -- The files below a path are visited around more files; those after it are fewer starts.
  induction hcount : (p.unvisited visited).length using Nat.strongRecOn generalizing visited starts
    with
  | ind count ih =>
      induction starts generalizing visited with
      | nil => exact ⟨[], .done visited⟩
      | cons path rest ihrest =>
          by_cases hvisited : path ∈ visited
          · obtain ⟨order, horder⟩ := ihrest visited hcount
            exact ⟨order, .skip hvisited horder⟩
          · have hinside : ∃ below, p.Preorder (visited ++ [path]) (p.reexported path) below := by
              rcases reexported_eq_nil_or_lt hvisited with hnil | hlt
              · rw [hnil]
                exact ⟨[], .done _⟩
              · exact ih _ (hcount ▸ hlt) _ _ rfl
            obtain ⟨below, hbelow⟩ := hinside
            have hsubset : visited ⊆ visited ++ path :: below := List.subset_append_left _ _
            have hrest : ∃ after, p.Preorder (visited ++ path :: below) rest after := by
              rcases Nat.lt_or_eq_of_le (length_unvisited_le (p := p) hsubset) with hlt | heq
              · exact ih _ (hcount ▸ hlt) _ _ rfl
              · exact ihrest _ (heq.trans hcount)
            obtain ⟨after, hafter⟩ := hrest
            exact ⟨_, .enter hvisited hbelow hafter⟩

namespace Preorder

/-- There is no other order. -/
theorem unique (h : p.Preorder visited starts order) (hother : p.Preorder visited starts other) :
    order = other := by
  induction h generalizing other with
  | done => cases hother; rfl
  | skip hvisited rest ih =>
      cases hother with
      | skip _ hrest => exact ih hrest
      | enter hnew => exact absurd hvisited hnew
  | enter hnew inside rest ihinside ihrest =>
      cases hother with
      | skip hvisited => exact absurd hvisited hnew
      | enter _ hinside hrest =>
          obtain rfl := ihinside hinside
          obtain rfl := ihrest hrest
          rfl

/-- No file is met twice, and none that was visited before. -/
theorem nodup (h : p.Preorder visited starts order) :
    order.Nodup ∧ ∀ file ∈ order, file ∉ visited := by
  induction h with
  | done => simp
  | skip _ _ ih => exact ih
  | enter hnew inside rest ihinside ihrest =>
      refine ⟨List.nodup_append.mpr ⟨List.nodup_cons.mpr ⟨?_, ihinside.1⟩, ihrest.1, ?_⟩, ?_⟩
      · exact fun hmem => ihinside.2 _ hmem (by simp)
      · rintro file hbefore next hafter rfl
        exact ihrest.2 file hafter (List.mem_append_right _ hbefore)
      · intro file hfile hvisited
        simp only [List.mem_append, List.mem_cons] at hfile
        rcases hfile with (rfl | hbelow) | hafter
        · exact hnew hvisited
        · exact ihinside.2 file hbelow (List.mem_append_left _ hvisited)
        · exact ihrest.2 file hafter (List.mem_append_left _ hvisited)

/-- Every path that the search starts from is met, or was visited before. -/
theorem starts_met (h : p.Preorder visited starts order) : starts ⊆ visited ++ order := by
  induction h with
  | done => exact List.nil_subset _
  | skip hvisited _ ih => exact List.cons_subset.mpr ⟨List.mem_append_left _ hvisited, ih⟩
  | enter _ _ _ _ ihrest =>
      refine List.cons_subset.mpr ⟨by simp, fun file hfile => ?_⟩
      simpa using ihrest hfile

/-- Whatever a file that is met leads to is met too, or was visited before: when the search leaves
a file, everything that can be reached from it but through files visited before has been met. -/
theorem closed (h : p.Preorder visited starts order) {file next : Text} (hfile : file ∈ order)
    (hnext : p.Reexports file next) : next ∈ visited ++ order := by
  induction h with
  | done => simp at hfile
  | skip _ _ ih => exact ih hfile
  | @enter visited starts below after path hnew inside rest ihinside ihrest =>
      have hinside : next ∈ visited ++ [path] ++ below →
          next ∈ visited ++ (path :: below ++ after) := by
        simp only [List.mem_append, List.mem_cons, List.not_mem_nil, or_false]
        rintro ((h | h) | h) <;> simp [h]
      simp only [List.mem_append, List.mem_cons] at hfile
      rcases hfile with (rfl | hbelow) | hafter
      · exact hinside (inside.starts_met (mem_reexported_iff.mpr hnext))
      · exact hinside (ihinside hbelow)
      · simpa using ihrest hafter

/-- Every file that is met can be reached from a path that the search starts from. -/
theorem sound (h : p.Preorder visited starts order) {file : Text} (hfile : file ∈ order) :
    ∃ start ∈ starts, Relation.ReflTransGen p.Reexports start file := by
  induction h with
  | done => simp at hfile
  | skip _ _ ih =>
      obtain ⟨start, hstart, hreach⟩ := ih hfile
      exact ⟨start, List.mem_cons_of_mem _ hstart, hreach⟩
  | @enter visited starts below after path hnew inside rest ihinside ihrest =>
      simp only [List.mem_append, List.mem_cons] at hfile
      rcases hfile with (rfl | hbelow) | hafter
      · exact ⟨file, List.mem_cons_self, .refl⟩
      · obtain ⟨next, hnext, hreach⟩ := ihinside hbelow
        exact ⟨path, List.mem_cons_self, .head (mem_reexported_iff.mp hnext) hreach⟩
      · obtain ⟨start, hstart, hreach⟩ := ihrest hafter
        exact ⟨start, List.mem_cons_of_mem _ hstart, hreach⟩

/-- A search from one path with nothing visited meets the files that can be reached. -/
theorem mem_iff_reachable (h : p.Preorder [] [path] order) {file : Text} :
    file ∈ order ↔ Relation.ReflTransGen p.Reexports path file := by
  constructor
  · intro hfile
    obtain ⟨start, hstart, hreach⟩ := h.sound hfile
    rwa [List.mem_singleton.mp hstart] at hreach
  · intro hreach
    induction hreach with
    | refl => exact h.starts_met List.mem_cons_self
    | tail _ hstep ih => exact h.closed ih hstep

/-- A search from one path with nothing visited meets it first. -/
theorem exists_eq_cons (h : p.Preorder [] [path] order) : ∃ rest, order = path :: rest := by
  cases h with
  | skip hvisited => simp at hvisited
  | enter => exact ⟨_, rfl⟩

/-! ## What the searches find -/

/-- The files are visited in this order, if the search may go deeper than there are files left. -/
theorem visit_eq (h : p.Preorder visited starts order) {depth : Nat}
    (hdepth : (p.unvisited visited).length < depth) :
    starts.foldl (p.visitFrom depth) visited = visited ++ order := by
  induction h generalizing depth with
  | done => simp
  | skip hvisited _ ih =>
      obtain ⟨depth, rfl⟩ := Nat.exists_eq_add_one_of_ne_zero (Nat.ne_zero_of_lt hdepth)
      rw [List.foldl_cons, visitFrom, if_pos hvisited, ih hdepth]
  | @enter visited starts below after path hnew inside rest ihinside ihrest =>
      obtain ⟨depth, rfl⟩ := Nat.exists_eq_add_one_of_ne_zero (Nat.ne_zero_of_lt hdepth)
      have hbelow : (p.reexported path).foldl (p.visitFrom depth) (visited ++ [path]) =
          visited ++ [path] ++ below := by
        rcases reexported_eq_nil_or_lt hnew with hnil | hlt
        · rw [hnil] at inside ⊢
          cases inside
          simp
        · exact ihinside (by omega)
      have hfewer : (p.unvisited (visited ++ path :: below)).length < depth + 1 :=
        Nat.lt_of_le_of_lt (length_unvisited_le (List.subset_append_left _ _)) hdepth
      rw [List.foldl_cons, visitFrom, if_neg hnew, hbelow, List.append_assoc, List.singleton_append,
        ihrest hfewer]
      simp

/-- The search stops at the first file in this order that has the export. -/
theorem search_eq (h : p.Preorder visited starts order) {depth : Nat}
    (hdepth : (p.unvisited visited).length < depth) (hname : name ≠ defaultName) :
    starts.foldlM (p.searchFrom name depth) visited =
      match order.findSome? (p.ownExport? · name) with
      | some symbol => .error (.found symbol)
      | none => .ok (visited ++ order) := by
  induction h generalizing depth with
  | done => simp [pure, Except.pure]
  | skip hvisited _ ih =>
      obtain ⟨depth, rfl⟩ := Nat.exists_eq_add_one_of_ne_zero (Nat.ne_zero_of_lt hdepth)
      rw [List.foldlM_cons, searchFrom, if_pos (List.contains_iff_mem.mpr hvisited), ← ih hdepth]
      rfl
  | @enter visited starts below after path hnew inside rest ihinside ihrest =>
      obtain ⟨depth, rfl⟩ := Nat.exists_eq_add_one_of_ne_zero (Nat.ne_zero_of_lt hdepth)
      rw [List.foldlM_cons, searchFrom, if_neg (mt List.contains_iff_mem.mp hnew)]
      cases hown : p.ownExport? path name with
      | some symbol => simp [hown, bind, Except.bind]
      | none =>
          have hbelow : (p.reexported path).foldlM (p.searchFrom name depth) (visited ++ [path]) =
              match below.findSome? (p.ownExport? · name) with
              | some symbol => .error (.found symbol)
              | none => .ok (visited ++ [path] ++ below) := by
            rcases reexported_eq_nil_or_lt hnew with hnil | hlt
            · rw [hnil] at inside ⊢
              cases inside
              simp [pure, Except.pure]
            · exact ihinside (by omega)
          have hfewer : (p.unvisited (visited ++ path :: below)).length < depth + 1 :=
            Nat.lt_of_le_of_lt (length_unvisited_le (List.subset_append_left _ _)) hdepth
          simp only [if_neg hname, hbelow, List.cons_append, List.findSome?_cons, hown,
            List.findSome?_append]
          cases below.findSome? (p.ownExport? · name) with
          | some symbol => rfl
          | none => simpa [bind, Except.bind] using ihrest hfewer

end Preorder

/-- The files that the search for an export visits stand in depth-first order. -/
theorem preorder_export_sources (p : Program) (path : Text) :
    p.Preorder [] [path] (p.exportSources path) := by
  obtain ⟨order, horder⟩ := exists_preorder p [] [path]
  have hlength : (p.unvisited []).length < p.files.length + 1 := by simp [unvisited]
  have hvisit := horder.visit_eq hlength
  rw [List.foldl_cons, List.foldl_nil, List.nil_append] at hvisit
  rwa [exportSources, hvisit]

/-- An export other than the default is found if and only if a file that can be reached has it. -/
theorem export_isSome_iff (hname : name ≠ defaultName) :
    (p.export? path name).isSome ↔
      ∃ file, Relation.ReflTransGen p.Reexports path file ∧ (p.ownExport? file name).isSome := by
  rw [export?, if_neg hname, List.isSome_findSome?, List.any_eq_true]
  exact exists_congr fun file =>
    and_congr_left' (preorder_export_sources p path).mem_iff_reachable

/-- The search that stops at the first file that has the export ends with it, if it may go deeper
than there are files. -/
theorem search_outcome (p : Program) (path name : Text) {depth : Nat}
    (hdepth : p.files.length < depth) :
    (p.searchFrom name depth [] path).outcome? = some (p.export? path name) := by
  obtain ⟨depth, rfl⟩ := Nat.exists_eq_add_one_of_ne_zero (Nat.ne_zero_of_lt hdepth)
  by_cases hname : name = defaultName
  · rw [searchFrom, if_neg (mt List.contains_iff_mem.mp List.not_mem_nil), export?,
      if_pos hname]
    cases p.ownExport? path name <;> simp [hname, SearchAnswer.outcome?]
  · have hlength : (p.unvisited []).length < depth + 1 := by
      simpa [unvisited] using hdepth
    have hsearch := (preorder_export_sources p path).search_eq hlength hname
    rw [List.foldlM_cons] at hsearch
    rw [export?, if_neg hname]
    cases hfind : (p.exportSources path).findSome? (p.ownExport? · name) <;>
      cases hanswer : p.searchFrom name (depth + 1) [] path <;>
      simp_all [bind, Except.bind, pure, Except.pure, SearchAnswer.outcome?]

/-- The search for an export ends. There is one depth-first order of files from the path on; it
starts with the path and consists of the files that can be reached, each once. The default is the
file's own. Any other export is that of the first file in the order that has one, and there is one
if and only if some file that can be reached has it. -/
theorem export_search (p : Program) (path name : Text) :
    (∀ depth, p.files.length < depth →
      (p.searchFrom name depth [] path).outcome? = some (p.export? path name)) ∧
    (∃ rest, (∀ order, p.Preorder [] [path] order ↔ order = path :: rest) ∧
      (path :: rest).Nodup ∧
      (∀ file, file ∈ path :: rest ↔ Relation.ReflTransGen p.Reexports path file) ∧
      p.export? path name =
        if name = defaultName then p.ownExport? path name
        else (p.ownExport? path name).or (rest.findSome? (p.ownExport? · name))) ∧
    (name ≠ defaultName → ((p.export? path name).isSome ↔
      ∃ file, Relation.ReflTransGen p.Reexports path file ∧ (p.ownExport? file name).isSome)) := by
  refine ⟨fun depth => search_outcome p path name, ?_, export_isSome_iff⟩
  have horder := preorder_export_sources p path
  obtain ⟨rest, hrest⟩ := horder.exists_eq_cons
  refine ⟨rest, fun order => ?_, hrest ▸ horder.nodup.1, fun file => ?_, ?_⟩
  · exact ⟨fun h => (h.unique horder).trans hrest, fun h => h ▸ hrest ▸ horder⟩
  · exact hrest ▸ horder.mem_iff_reachable
  · rw [export?, hrest, List.findSome?_cons]
    cases p.ownExport? path name <;> rfl

end Program

end StaticLiteral
