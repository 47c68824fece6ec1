import Mathlib.Data.List.Induction
import StaticLiteral.Proofs.Paths

/-!
# Paths seen from a directory

`Path.join` puts the names of a path after those of a directory, and `Path.directory` takes the last
one away again. As long as a path does not climb out of the directory that it is seen from, it is
normalized by itself: `normalize_join`.
-/

namespace StaticLiteral

namespace Text

variable {separator : CodePoint}

/-- What stands around a separator is split by itself. -/
theorem split_append_cons (s t : Text) :
    split separator (s ++ separator :: t) = split separator s ++ split separator t := by
  induction s with
  | nil => exact split_separator_cons t
  | cons c s ih =>
      rw [List.cons_append, split, ih, split]
      cases h : split separator s with
      | nil => exact absurd h (split_ne_nil s)
      | cons piece pieces =>
          simp only [List.cons_append]
          split <;> rfl

/-- Pieces that are joined in two parts have a separator between the parts. -/
theorem join_append {first second : List Text} (hfirst : first ≠ []) (hsecond : second ≠ []) :
    join [separator] (first ++ second) =
      join [separator] first ++ separator :: join [separator] second := by
  have hcons : ∀ (piece : Text) {rest : List Text}, rest ≠ [] →
      join [separator] (piece :: rest) = piece ++ separator :: join [separator] rest := by
    intro piece rest hrest
    obtain ⟨next, rest, rfl⟩ := List.exists_cons_of_ne_nil hrest
    rw [join, List.append_assoc, List.singleton_append]
    exact fun hnil => List.cons_ne_nil _ _ hnil
  induction first with
  | nil => exact absurd rfl hfirst
  | cons piece rest ih =>
      cases rest with
      | nil => exact hcons piece hsecond
      | cons next rest =>
          rw [List.cons_append, hcons piece (by simp), ih (List.cons_ne_nil _ _),
            hcons piece (List.cons_ne_nil _ _), List.append_assoc]
          rfl

end Text

namespace Path

variable {base path a b t : Text} {names taken inner : List Text} {isRooted : Bool}

/-! ## Slashes at the ends -/

/-- A slash between two paths separates their names. -/
theorem components_append_slash (a b : Text) :
    components (a ++ slash :: b) = components a ++ components b := by
  rw [components, Text.split_append_cons, List.filter_append]
  rfl

/-- A slash at the end adds no name. -/
theorem components_append_singleton (a : Text) : components (a ++ [slash]) = components a := by
  rw [components_append_slash]
  exact List.append_nil _

/-- What is kept at the front of a path is told before the first name. -/
theorem root_append (h : b.head? ≠ some slash ∨ a.all (· == slash) = false) :
    root (a ++ b) = root a := by
  have hfront : (a ++ b).takeWhile (· == slash) = a.takeWhile (· == slash) := by
    induction a with
    | nil =>
        cases b with
        | nil => rfl
        | cons c b => exact List.takeWhile_cons_of_neg (by simpa using h)
    | cons c a ih =>
        by_cases hc : c = slash
        · subst hc
          exact congrArg (slash :: ·) (ih (by simpa using h))
        · rw [List.cons_append, List.takeWhile_cons_of_neg (by simpa using hc),
            List.takeWhile_cons_of_neg (by simpa using hc)]
  rw [root, root, hfront]

/-- A text that is empty or ends with a slash: names can be written after it. -/
def IsOpen (t : Text) : Prop := t = [] ∨ ∃ s, t = s ++ [slash]

/-- A slash at the end is the last thing in a text. -/
theorem ends_with_slash_iff : t.endsWith [slash] ↔ ∃ s, t = s ++ [slash] := by
  rw [Text.endsWith, List.isSuffixOf_iff_suffix]
  exact ⟨fun ⟨s, hs⟩ => ⟨s, hs.symm⟩, fun ⟨s, hs⟩ => ⟨s, hs.symm⟩⟩

/-- After a directory that is open names are written as they are. -/
theorem join_of_open (h : IsOpen base) (hpath : path.head? ≠ some slash) :
    join base path = base ++ path := by
  rw [join, if_neg hpath]
  refine if_pos ?_
  rcases h with rfl | h
  · rfl
  · rw [ends_with_slash_iff.mpr h, Bool.or_true]

/-- After a directory that is not open names are written behind a slash. -/
theorem join_of_not_open (h : ¬ IsOpen base) (hpath : path.head? ≠ some slash) :
    join base path = base ++ slash :: path := by
  rw [join, if_neg hpath]
  refine if_neg fun hopen => h ?_
  rcases (Bool.or_eq_true _ _).mp hopen with hempty | hend
  · exact .inl (List.isEmpty_iff.mp hempty)
  · exact .inr (ends_with_slash_iff.mp hend)

/-- A directory with a slash behind it, if it needs one, is open. -/
theorem is_open_join_nil (base : Text) : IsOpen (join base []) := by
  by_cases h : IsOpen base
  · rwa [join_of_open h (by simp), List.append_nil]
  · rw [join_of_not_open h (by simp)]
    exact .inr ⟨base, rfl⟩

/-- A path is written after its directory, with a slash between them if that needs one. -/
theorem join_eq_append (base : Text) (h : path.head? ≠ some slash) :
    join base path = join base [] ++ path := by
  by_cases hopen : IsOpen base
  · rw [join_of_open hopen h, join_of_open hopen (by simp), List.append_nil]
  · rw [join_of_not_open hopen h, join_of_not_open hopen (by simp), List.append_assoc]
    rfl

/-- Behind what is open a text is open by itself. -/
theorem is_open_append (h : IsOpen base) : IsOpen (base ++ t) ↔ IsOpen t := by
  rcases List.eq_nil_or_concat t with rfl | ⟨t, c, rfl⟩
  · simpa using ⟨fun _ => .inl rfl, fun _ => h⟩
  · have hlast : ∀ s : Text, IsOpen (s ++ [c]) ↔ c = slash := by
      intro s
      refine ⟨?_, fun hc => .inr ⟨s, by rw [hc]⟩⟩
      rintro (hnil | ⟨s', hs'⟩)
      · exact absurd hnil (by simp)
      · simpa using congrArg List.getLast? hs'
    rw [List.concat_eq_append, ← List.append_assoc, hlast, hlast]

/-- Behind what is open a path is joined by itself. -/
theorem join_append_of_open (h : IsOpen base) (hpath : path.head? ≠ some slash) :
    join (base ++ t) path = base ++ join t path := by
  by_cases ht : IsOpen t
  · rw [join_of_open ht hpath, join_of_open ((is_open_append h).mpr ht) hpath, List.append_assoc]
  · rw [join_of_not_open ht hpath, join_of_not_open ((is_open_append h).not.mpr ht) hpath,
      List.append_assoc]

/-- The names of a path stand after those of the directory that it is seen from. -/
theorem components_path_join (base : Text) (h : path.head? ≠ some slash) :
    components (join base path) = components base ++ components path := by
  by_cases hopen : IsOpen base
  · rw [join_of_open hopen h]
    rcases hopen with rfl | ⟨s, rfl⟩
    · rfl
    · rw [List.append_assoc, List.singleton_append, components_append_slash,
        components_append_singleton]
  · rw [join_of_not_open hopen h, components_append_slash]

/-- A text that is not open has more than slashes. -/
theorem not_all_of_not_open (h : ¬ IsOpen t) : t.all (· == slash) = false := by
  refine Bool.eq_false_iff.mpr fun hall => h ?_
  rcases List.eq_nil_or_concat t with rfl | ⟨s, c, rfl⟩
  · exact .inl rfl
  · have hc := List.all_eq_true.mp hall c (by simp)
    exact .inr ⟨s, by rw [beq_iff_eq.mp hc, List.concat_eq_append]⟩

/-- A path that is seen from a directory has the root of the directory. -/
theorem root_join (base : Text) (h : path.head? ≠ some slash) :
    root (join base path) = root base := by
  by_cases hopen : IsOpen base
  · rw [join_of_open hopen h, root_append (.inl h)]
  · rw [join_of_not_open hopen h, root_append (.inr (not_all_of_not_open hopen))]

/-! ## Directories -/

/-- Slashes at the end add no names. -/
theorem components_trim_end (t : Text) :
    components (Text.trimEnd (· == slash) t) = components t := by
  induction t using List.reverseRecOn with
  | nil => rfl
  | append_singleton t c ih =>
      by_cases hc : c = slash
      · subst hc
        rw [components_append_singleton, ← ih]
        simp [Text.trimEnd]
      · simp [Text.trimEnd, hc]

/-- Slashes at the end of a path with names are not at its front. -/
theorem root_trim_end (h : t.all (· == slash) = false) :
    root (Text.trimEnd (· == slash) t) = root t := by
  induction t using List.reverseRecOn with
  | nil => rfl
  | append_singleton t c ih =>
      by_cases hc : c = slash
      · subst hc
        have ht : t.all (· == slash) = false := by simpa using h
        rw [root_append (.inr ht), ← ih ht]
        simp [Text.trimEnd]
      · simp [Text.trimEnd, hc]

/-- No name begins with a slash. -/
theorem IsName.head_ne {name : Text} (h : IsName name) : name.head? ≠ some slash :=
  fun hhead => h.slash_not_mem (List.mem_of_head? hhead)

/-- The directory of a name is what it was written after, without slashes at the end. -/
theorem directory_append {head name : Text} (hhead : IsOpen head) (hname : slash ∉ name) :
    directory (head ++ name) =
      if head.all (· == slash) then head else Text.trimEnd (· == slash) head := by
  have hlast : (head ++ name).reverse.takeWhile (· != slash) = name.reverse := by
    have hplain : ∀ c ∈ name.reverse, (c != slash) = true := fun c hc =>
      bne_iff_ne.mpr fun heq => hname (heq ▸ List.mem_reverse.mp hc)
    rw [List.reverse_append, List.takeWhile_append_of_pos hplain]
    rcases hhead with rfl | ⟨s, rfl⟩ <;> simp
  unfold directory
  rw [hlast, List.length_reverse, List.length_append, Nat.add_sub_cancel, List.take_left]

/-- The directory of a name is the directory that it was written after. -/
theorem directory_join {name : Text} (base : Text) (h : IsName name) :
    components (directory (join base name)) = components base ∧
      root (directory (join base name)) = root base := by
  have hcomponents : components (join base []) = components base := by
    rw [components_path_join base (by simp)]
    exact List.append_nil _
  have hroot : root (join base []) = root base := root_join base (by simp)
  rw [join_eq_append base h.head_ne, directory_append (is_open_join_nil base) h.slash_not_mem,
    ← hcomponents, ← hroot]
  split
  · exact ⟨rfl, rfl⟩
  · next hall => exact ⟨components_trim_end _, root_trim_end (Bool.eq_false_iff.mpr hall)⟩

/-! ## Dots inside of a directory -/

/-- The names that are left of a path, with dots at the front if it climbs. -/
def innerNames (path : Text) : List Text := resolveDots false [] (components path)

/-- Names are resolved one after the other. -/
theorem resolve_dots_append (taken first second : List Text) :
    resolveDots isRooted taken (first ++ second) =
      resolveDots isRooted (resolveDots isRooted taken first).reverse second := by
  induction first generalizing taken with
  | nil => simp [resolveDots]
  | cons name first ih =>
      rw [List.cons_append]
      conv_lhs => unfold resolveDots
      conv_rhs => enter [2]; unfold resolveDots
      split
      · split
        · exact ih _
        · split <;> exact ih _
      · exact ih _

/-- Two dots that nothing can cancel stay. -/
theorem mem_resolve_dots_of_mem (h : dotDot ∈ taken) : dotDot ∈ resolveDots false taken names := by
  induction names generalizing taken with
  | nil => exact List.mem_reverse.mpr h
  | cons name names ih =>
      unfold resolveDots
      split
      · cases taken with
        | nil => cases h
        | cons last before =>
            dsimp only
            split
            · exact ih List.mem_cons_self
            · next hlast => exact ih ((List.mem_cons.mp h).resolve_left (Ne.symm hlast))
      · exact ih (List.mem_cons_of_mem _ h)

/-- Names that do not climb are resolved by themselves. -/
theorem resolve_dots_inner (hinner : dotDot ∉ inner) (h : dotDot ∉ resolveDots false inner names) :
    resolveDots isRooted (inner ++ taken) names =
      taken.reverse ++ resolveDots false inner names := by
  induction names generalizing inner with
  | nil => simp [resolveDots]
  | cons name names ih =>
      unfold resolveDots at h ⊢
      split
      · next hname =>
          rw [if_pos hname] at h
          cases inner with
          | nil => exact absurd (mem_resolve_dots_of_mem (by simp)) h
          | cons last before =>
              have hlast : last ≠ dotDot := fun heq => hinner (heq ▸ List.mem_cons_self)
              simp only [if_neg hlast, List.cons_append] at h ⊢
              exact ih (fun hmem => hinner (List.mem_cons_of_mem _ hmem)) h
      · next hname =>
          rw [if_neg hname] at h
          exact ih (by simp [hinner, Ne.symm hname]) h

/-! ## Normalized paths -/

/-- The names that are left of a directory. -/
def outerNames (path : Text) : List Text :=
  resolveDots (!(root path).isEmpty) [] (components path)

/-- A path that does not climb is normalized behind its directory. -/
theorem normalize_eq (base : Text) (hroot : root path = root base)
    (hcomponents : components path = components base ++ names)
    (h : dotDot ∉ resolveDots false [] names) :
    normalize path = assemble (root base) (outerNames base ++ resolveDots false [] names) := by
  have hinner : resolveDots (!(root base).isEmpty) ([] ++ (outerNames base).reverse) names =
      (outerNames base).reverse.reverse ++ resolveDots false [] names :=
    resolve_dots_inner List.not_mem_nil h
  rw [List.nil_append, List.reverse_reverse] at hinner
  rw [normalize, hroot, hcomponents, resolve_dots_append]
  exact congrArg _ hinner

/-- Names that are joined begin with no slash. -/
theorem head_join_ne (h : ∀ name ∈ names, IsName name) :
    (Text.join [slash] names).head? ≠ some slash := by
  intro hhead
  obtain ⟨t, ht⟩ := List.head?_eq_some_iff.mp hhead
  have hnone := take_while_join h
  rw [ht] at hnone
  exact absurd hnone (by simp)

/-- After a name there is a slash to be written. -/
theorem not_is_open_append {name : Text} (t : Text) (h : IsName name) : ¬ IsOpen (t ++ name) := by
  rintro (hnil | ⟨s, hs⟩)
  · exact h.ne_nil (List.append_eq_nil_iff.mp hnil).2
  · have hlast := congrArg List.getLast? hs
    rw [List.getLast?_append_of_ne_nil _ h.ne_nil, List.getLast?_concat] at hlast
    exact h.slash_not_mem (List.mem_of_getLast? hlast)

/-- After joined names there is a slash to be written. -/
theorem not_is_open_join (t : Text) (hne : names ≠ []) (h : ∀ name ∈ names, IsName name) :
    ¬ IsOpen (t ++ Text.join [slash] names) := by
  obtain ⟨before, name, rfl⟩ : ∃ before name, names = before ++ [name] :=
    ⟨_, _, (List.dropLast_append_getLast hne).symm⟩
  have hname := h name (by simp)
  cases before with
  | nil => exact not_is_open_append t hname
  | cons first before =>
      have hjoin : t ++ Text.join [slash] (first :: before ++ [name]) =
          t ++ Text.join [slash] (first :: before) ++ [slash] ++ name := by
        rw [Text.join_append (List.cons_ne_nil _ _) (List.cons_ne_nil _ _)]
        simp [Text.join]
      rw [hjoin]
      exact not_is_open_append _ hname

/-- The last of some names are seen from the others. -/
theorem join_names_append {first second : List Text} (hfirst : ∀ name ∈ first, IsName name)
    (hne : second ≠ []) (hsecond : ∀ name ∈ second, IsName name) :
    Text.join [slash] (first ++ second) =
      join (Text.join [slash] first) (Text.join [slash] second) := by
  by_cases hnil : first = []
  · subst hnil
    exact (join_of_open (.inl rfl) (head_join_ne hsecond)).symm
  · have hnot : ¬ IsOpen (Text.join [slash] first) := not_is_open_join [] hnil hfirst
    rw [join_of_not_open hnot (head_join_ne hsecond), Text.join_append hnil hne]

/-- A root is open. -/
theorem is_open_root (path : Text) : IsOpen (root path) := by
  rcases root_cases path with h | h | h <;> rw [h]
  · exact .inl rfl
  · exact .inr ⟨[], rfl⟩
  · exact .inr ⟨[slash], rfl⟩

/-- A root and names are put together as they are, if there are any names. -/
theorem assemble_of_ne_nil (start : Text) (hne : names ≠ []) (h : ∀ name ∈ names, IsName name) :
    assemble start names = start ++ Text.join [slash] names := by
  refine if_neg fun hempty => not_is_open_join start hne h (.inl ?_)
  exact List.isEmpty_iff.mp hempty

/-- Names are put together behind those of their directory. -/
theorem assemble_append (path : Text) {outer : List Text} (houter : ∀ name ∈ outer, IsName name)
    (hne : names ≠ []) (h : ∀ name ∈ names, IsName name) :
    assemble (root path) (outer ++ names) =
      join (root path ++ Text.join [slash] outer) (Text.join [slash] names) := by
  rw [assemble_of_ne_nil _ (by simp [hne]) (by simpa [or_imp, forall_and] using ⟨houter, h⟩),
    join_names_append houter hne h, join_append_of_open (is_open_root path) (head_join_ne h)]

end Path

end StaticLiteral
