import Mathlib.Data.List.Basic
import StaticLiteral.Path

/-!
# Normalized paths

A path is put together from a root and names and can be taken apart again. `normalize_normalize`
says that a normalized path is its own normalized form, so the name of a file that is not normalized
is never the path of a file.
-/

namespace StaticLiteral

namespace Text

variable {separator : CodePoint}

/-- The pieces of a text from those of the text after its first code point. -/
theorem split_cons (c : CodePoint) (rest : Text) : split separator (c :: rest) =
    match split separator rest with
    | [] => [[c]]
    | piece :: pieces =>
      if c == separator then [] :: piece :: pieces else (c :: piece) :: pieces := rfl

/-- There is always a piece. -/
theorem split_ne_nil (t : Text) : split separator t ≠ [] := by
  cases t with
  | nil => exact List.cons_ne_nil _ _
  | cons c rest =>
      rw [split_cons]
      split
      · simp
      · split <;> simp

/-- A separator ends an empty piece. -/
theorem split_separator_cons (t : Text) :
    split separator (separator :: t) = [] :: split separator t := by
  rw [split_cons]
  cases h : split separator t with
  | nil => exact absurd h (split_ne_nil t)
  | cons piece pieces => simp

/-- Text without separators is one piece, up to the first separator after it. -/
theorem split_append {t : Text} (h : separator ∉ t) (rest : Text) :
    split separator (t ++ separator :: rest) = t :: split separator rest := by
  induction t with
  | nil => exact split_separator_cons rest
  | cons c t ih =>
      obtain ⟨hc, ht⟩ := not_or.mp (List.mem_cons.not.mp h)
      rw [List.cons_append, split_cons, ih ht]
      simp [Ne.symm hc]

/-- Text without separators is one piece. -/
theorem split_eq_singleton {t : Text} (h : separator ∉ t) : split separator t = [t] := by
  induction t with
  | nil => rfl
  | cons c t ih =>
      obtain ⟨hc, ht⟩ := not_or.mp (List.mem_cons.not.mp h)
      rw [split_cons, ih ht]
      simp [Ne.symm hc]

/-- No piece has a separator. -/
theorem not_mem_of_mem_split {t piece : Text} (h : piece ∈ split separator t) :
    separator ∉ piece := by
  induction t generalizing piece with
  | nil =>
      obtain rfl := List.mem_singleton.mp h
      exact List.not_mem_nil
  | cons c rest ih =>
      rw [split_cons] at h
      cases hrest : split separator rest with
      | nil => exact absurd hrest (split_ne_nil rest)
      | cons first pieces =>
          simp only [hrest, beq_iff_eq] at h ih
          split at h
          · rcases List.mem_cons.mp h with rfl | h
            · exact List.not_mem_nil
            · exact ih h
          · next hc =>
              rcases List.mem_cons.mp h with rfl | h
              · exact List.mem_cons.not.mpr (not_or.mpr ⟨Ne.symm hc, ih List.mem_cons_self⟩)
              · exact ih (List.mem_cons_of_mem _ h)

/-- Pieces that are joined are split again. -/
theorem split_join {pieces : List Text} (hne : pieces ≠ [])
    (h : ∀ piece ∈ pieces, separator ∉ piece) :
    split separator (join [separator] pieces) = pieces := by
  induction pieces with
  | nil => exact absurd rfl hne
  | cons piece rest ih =>
      have hpiece := h piece List.mem_cons_self
      cases rest with
      | nil => exact split_eq_singleton hpiece
      | cons second rest =>
          have hrest := ih (List.cons_ne_nil _ _) fun piece hmem =>
            h piece (List.mem_cons_of_mem _ hmem)
          rw [join, List.append_assoc, List.singleton_append, split_append hpiece, hrest]
          exact List.cons_ne_nil _ _

end Text

namespace Path

/-- The text is a name inside of a path. -/
structure IsName (t : Text) : Prop where
  ne_nil : t ≠ []
  ne_dot : t ≠ dot
  slash_not_mem : slash ∉ t

/-- Paths consist of names. -/
theorem is_name_of_mem_components {path name : Text} (h : name ∈ components path) :
    IsName name := by
  obtain ⟨hmem, hkeep⟩ := List.mem_filter.mp h
  simp only [Bool.and_eq_true, Bool.not_eq_true', List.isEmpty_eq_false_iff, bne_iff_ne] at hkeep
  exact ⟨hkeep.1, hkeep.2, Text.not_mem_of_mem_split hmem⟩

/-- A slash at the front adds no name. -/
@[simp]
theorem components_slash_cons (path : Text) : components (slash :: path) = components path := by
  rw [components, Text.split_separator_cons]
  rfl

/-- Names that are joined are found again. -/
theorem components_join {names : List Text} (h : ∀ name ∈ names, IsName name) :
    components (Text.join [slash] names) = names := by
  cases names with
  | nil => rfl
  | cons name rest =>
      rw [components, Text.split_join (List.cons_ne_nil _ _) fun name hmem =>
        (h name hmem).slash_not_mem]
      refine List.filter_eq_self.mpr fun name hmem => ?_
      obtain ⟨hne, hdot, _⟩ := h name hmem
      simp [hne, hdot]

/-- What is kept at the front of a path is one of three roots. -/
theorem root_cases (path : Text) :
    root path = [] ∨ root path = [slash] ∨ root path = [slash, slash] := by
  unfold root
  split <;> simp

/-- Joined names start with no slash. -/
theorem take_while_join {names : List Text} (h : ∀ name ∈ names, IsName name) :
    (Text.join [slash] names).takeWhile (· == slash) = [] := by
  cases names with
  | nil => rfl
  | cons name rest =>
      obtain ⟨hne, _, hslash⟩ := h name List.mem_cons_self
      obtain ⟨c, t, rfl⟩ := List.exists_cons_of_ne_nil hne
      have hc : (c == slash) = false := beq_eq_false_iff_ne.mpr fun heq => hslash (by simp [heq])
      cases rest <;> simp [Text.join, hc]

variable {names : List Text}

/-- A path that is put together has the root that it was given. -/
theorem root_assemble (path : Text) (h : ∀ name ∈ names, IsName name) :
    root (assemble (root path) names) = root path := by
  have hjoin := take_while_join h
  unfold assemble
  dsimp only
  split
  case isTrue hempty =>
    have hroot : root path = [] := by
      rw [List.isEmpty_iff, List.append_eq_nil_iff] at hempty
      exact hempty.1
    rw [hroot]
    rfl
  case isFalse =>
    rcases root_cases path with hroot | hroot | hroot <;> rw [hroot] <;>
      simp [root, hjoin]

/-- A path that is put together has the names that it was given. -/
theorem components_assemble (path : Text) (h : ∀ name ∈ names, IsName name) :
    components (assemble (root path) names) = names := by
  have hjoin := components_join h
  unfold assemble
  dsimp only
  split
  case isTrue hempty =>
    rw [List.isEmpty_iff, List.append_eq_nil_iff] at hempty
    rw [hempty.2] at hjoin
    rw [← hjoin]
    rfl
  case isFalse =>
    rcases root_cases path with hroot | hroot | hroot <;> simp [hroot, hjoin]

/-! ## Dots -/

/-- Names, the last one first, in which nothing cancels out: two dots stand only at the front, and
not behind a root. -/
inductive Settled (isRooted : Bool) : List Text → Prop
  | nil : Settled isRooted []
  | up {taken : List Text} (h : Settled isRooted taken) (hall : ∀ name ∈ taken, name = dotDot)
      (hroot : isRooted = false) : Settled isRooted (dotDot :: taken)
  | name {name : Text} {taken : List Text} (h : Settled isRooted taken) (hname : name ≠ dotDot) :
      Settled isRooted (name :: taken)

variable {isRooted : Bool} {taken : List Text}

/-- What stands in front of settled names is settled. -/
theorem Settled.of_append {after : List Text} (h : Settled isRooted (after ++ taken)) :
    Settled isRooted taken := by
  induction after with
  | nil => exact h
  | cons name after ih =>
      cases h with
      | up h => exact ih h
      | name h => exact ih h

/-- Cancelling names out settles them. -/
theorem settled_resolve_dots (h : Settled isRooted taken) (names : List Text) :
    Settled isRooted (resolveDots isRooted taken names).reverse := by
  induction names generalizing taken with
  | nil => simpa [resolveDots] using h
  | cons name names ih =>
      unfold resolveDots
      split
      · split
        · refine ih ?_
          cases isRooted with
          | true => exact .nil
          | false => exact .up .nil (by simp) rfl
        · split
          · next hlast =>
              subst hlast
              refine ih ?_
              cases h with
              | up h hall hroot => exact .up (.up h hall hroot) (by simpa using hall) hroot
              | name _ hname => exact absurd rfl hname
          · cases h with
            | up h => exact ih h
            | name h => exact ih h
      · next hname => exact ih (.name h hname)

/-- In settled names nothing cancels out. -/
theorem resolve_dots_of_settled (h : Settled isRooted (names.reverse ++ taken)) :
    resolveDots isRooted taken names = taken.reverse ++ names := by
  induction names generalizing taken with
  | nil => simp [resolveDots]
  | cons name names ih =>
      rw [List.reverse_cons, List.append_assoc, List.singleton_append] at h
      have hgo : resolveDots isRooted (name :: taken) names = taken.reverse ++ name :: names := by
        simpa using ih h
      unfold resolveDots
      split
      · next hname =>
          subst hname
          cases h.of_append with
          | up _ hall hroot =>
              cases taken with
              | nil => simpa [hroot] using hgo
              | cons last before => simpa [hall last List.mem_cons_self] using hgo
          | name _ hne => exact absurd rfl hne
      · exact hgo

/-- Names that are left are names that were there. -/
theorem mem_of_mem_resolve_dots {name : Text} (h : name ∈ resolveDots isRooted taken names) :
    name ∈ taken ∨ name ∈ names ∨ name = dotDot := by
  induction names generalizing taken with
  | nil => exact .inl (by simpa [resolveDots] using h)
  | cons first names ih =>
      unfold resolveDots at h
      split at h
      · split at h
        · cases isRooted <;> grind
        · grind
      · grind

/-- A normalized path is its own normalized form. -/
theorem normalize_normalize (path : Text) : normalize (normalize path) = normalize path := by
  have hnames : ∀ name ∈ resolveDots (!(root path).isEmpty) [] (components path), IsName name := by
    intro name hname
    rcases mem_of_mem_resolve_dots hname with h | h | rfl
    · exact absurd h List.not_mem_nil
    · exact is_name_of_mem_components h
    · exact ⟨by decide, by decide, by decide⟩
  have hsettled : Settled (!(root path).isEmpty)
      (resolveDots (!(root path).isEmpty) [] (components path)).reverse :=
    settled_resolve_dots .nil _
  have hresolved :
      resolveDots (!(root path).isEmpty) []
          (resolveDots (!(root path).isEmpty) [] (components path)) =
        resolveDots (!(root path).isEmpty) [] (components path) :=
    resolve_dots_of_settled (by simpa using hsettled)
  rw [normalize, normalize, root_assemble path hnames, components_assemble path hnames]
  rw [hresolved]

end Path

end StaticLiteral
