import Mathlib.Logic.Function.Iterate
import Mathlib.Tactic.Ring
import StaticLiteral.Proofs.Program.Identity
import StaticLiteral.Proofs.Program.Imports

/-!
# Chains of aliases that have no end

Step by step behind aliases a symbol that is no alias is reached, or one alias is met again and
again. `circles_or_ends` says that there is nothing else, `alias_end_is_alias_iff` that the search
for the end of a chain stops at an alias exactly if there is no end, and `aliased_eq_unknown_iff`
which aliases lead nowhere.
-/

namespace StaticLiteral.Program

variable {p : Program} {a s : BoundSymbol} {n m : Nat}

/-- Behind the symbol an alias is met that is met again some steps further on. -/
def Circles (p : Program) (a : BoundSymbol) : Prop :=
  ∃ first length, 0 < length ∧ (p.aliased^[first] a).kind.isAlias ∧
    p.aliased^[first + length] a = p.aliased^[first] a

/-- What an alias points at is not there: the file that its module means, what that file is to
export, or what its own file is to declare. -/
inductive Misses (p : Program) (origin : AliasOrigin) : Prop
  /-- the module is a package, or anything else that no path leads to -/
  | package {specifier : Text} (hmodule : origin.module = some specifier)
      (hbare : Path.isRelative specifier = false)
  | file {specifier : Text} (hmodule : origin.module = some specifier)
      (hmissing : ∀ path ∈ moduleCandidates p.config (origin.sourceFile.getD []) specifier,
        p.file? path = none)
  | exported {specifier path name : Text} (hmodule : origin.module = some specifier)
      (hpath : p.resolveModule (origin.sourceFile.getD []) specifier = some path)
      (hname : origin.importName = some name) (hmissing : p.export? path name = none)
  | declared {name : Text} (hmodule : origin.module = none) (hname : origin.importName = some name)
      (hmissing : p.local? (origin.sourceFile.getD []) name = none)
  | nameless (hmodule : origin.module = none) (hname : origin.importName = none)

/-! ## Ends and circles -/

/-- Further steps behind a symbol that is no alias lead to the symbol itself. -/
theorem iterate_eq_of_not_alias (h : (p.aliased^[n] a).kind.isAlias = false) (hle : n ≤ m) :
    p.aliased^[m] a = p.aliased^[n] a := by
  obtain ⟨more, rfl⟩ := Nat.exists_eq_add_of_le' hle
  rw [Function.iterate_add_apply]
  exact Function.iterate_fixed (aliased_of_not_alias h) more

/-- Any number of steps behind a symbol of the program stands one of its symbols. -/
theorem iterate_aliased_mem_symbols (h : a ∈ p.symbols) (n : Nat) :
    p.aliased^[n] a ∈ p.symbols := by
  induction n with
  | zero => exact h
  | succ n ih =>
      rw [Function.iterate_succ_apply']
      exact aliased_mem_symbols ih

/-- A chain that ends does not run in a circle: whole rounds lead back to the alias. -/
theorem not_circles_of_end (h : (p.aliased^[n] a).kind.isAlias = false) : ¬ p.Circles a := by
  rintro ⟨first, length, hlength, halias, hround⟩
  have hrounds : ∀ rounds, p.aliased^[first + rounds * length] a = p.aliased^[first] a := by
    intro rounds
    induction rounds with
    | zero => simp
    | succ rounds ih =>
        have hsum : first + (rounds + 1) * length = rounds * length + (first + length) := by ring
        rw [hsum, Function.iterate_add_apply, hround, ← Function.iterate_add_apply, Nat.add_comm,
          ih]
  have hfar : n ≤ first + n * length := Nat.le_add_left_of_le (Nat.le_mul_of_pos_right n hlength)
  rw [← hrounds n, iterate_eq_of_not_alias h hfar, h] at halias
  cases halias

/-- With more steps than there are aliases not seen yet, the search for the end of a chain goes on
as long as it meets aliases that are new to it. -/
theorem alias_end_from_stops (hp : ∀ s ∈ p.symbols, ∀ t ∈ p.symbols, s.id = t.id → s = t)
    (ha : a ∈ p.symbols) {steps : Nat} (seen : List SymbolId)
    (hsteps : openAmong p.aliases seen < steps) :
    ∃ n, p.aliasEndFrom steps seen a = p.aliased^[n] a ∧
      (∀ k < n, (p.aliased^[k] a).kind.isAlias ∧ (p.aliased^[k] a).id ∉ seen ∧
        ∀ m < k, p.aliased^[m] a ≠ p.aliased^[k] a) ∧
      ((p.aliased^[n] a).kind.isAlias = false ∨ (p.aliased^[n] a).id ∈ seen ∨
        ∃ m < n, p.aliased^[m] a = p.aliased^[n] a) := by
  induction steps generalizing seen a with
  | zero => omega
  | succ steps ih =>
      rw [aliasEndFrom]
      split
      case isFalse h =>
        refine ⟨0, rfl, fun k hk => absurd hk k.not_lt_zero, ?_⟩
        by_cases halias : a.kind.isAlias
        · exact .inr (.inl (by simpa [halias] using h))
        · exact .inl (Bool.eq_false_iff.mpr halias)
      case isTrue h =>
        have hmem : a ∈ p.aliases := List.mem_filter.mpr ⟨ha, h.1⟩
        have hfewer := open_among_cons_lt hmem h.2
        have hnext := aliased_mem_symbols ha
        obtain ⟨n, hend, hnew, hstop⟩ := ih hnext (a.id :: seen) (by omega)
        refine ⟨n + 1, hend, fun k hk => ?_, ?_⟩
        · cases k with
          | zero => exact ⟨h.1, h.2, fun m hm => absurd hm m.not_lt_zero⟩
          | succ k =>
              obtain ⟨halias, hunseen, hothers⟩ := hnew k (by omega)
              rw [List.mem_cons, not_or] at hunseen
              refine ⟨halias, hunseen.2, fun m hm => ?_⟩
              cases m with
              | zero => exact fun hsame => hunseen.1 (congrArg Symbol.id hsame.symm)
              | succ m => exact hothers m (by omega)
        · rcases hstop with hstop | hseen | ⟨m, hm, hsame⟩
          · exact .inl hstop
          · -- What was seen is the symbol that this step started from, or was seen before it.
            rcases List.mem_cons.mp hseen with hid | hseen
            · have hfound : p.aliased^[n] (p.aliased a) ∈ p.symbols :=
                iterate_aliased_mem_symbols hnext n
              exact .inr (.inr ⟨0, by omega, (hp _ hfound a ha hid).symm⟩)
            · exact .inr (.inl hseen)
          · exact .inr (.inr ⟨m + 1, by omega, hsame⟩)

/-- The search for the end of a chain stops by itself, at the first symbol that is no alias or was
met before. -/
theorem alias_end_stops (hp : ∀ s ∈ p.symbols, ∀ t ∈ p.symbols, s.id = t.id → s = t)
    (ha : a ∈ p.symbols) :
    ∃ n, p.aliasEnd a = p.aliased^[n] a ∧
      (∀ k < n, (p.aliased^[k] a).kind.isAlias ∧ ∀ m < k, p.aliased^[m] a ≠ p.aliased^[k] a) ∧
      ((p.aliased^[n] a).kind.isAlias = false ∨
        ∃ m < n, p.aliased^[m] a = p.aliased^[n] a) := by
  have hopen : openAmong p.aliases [] ≤ p.factCount :=
    Nat.le_trans open_among_le_length length_aliases_le
  have hsteps : openAmong p.aliases [] < p.factCount + 2 := by omega
  obtain ⟨n, hend, hnew, hstop⟩ := alias_end_from_stops hp ha [] hsteps
  exact ⟨n, hend, fun k hk => ⟨(hnew k hk).1, (hnew k hk).2.2⟩, by simpa using hstop⟩

/-- A symbol that is met twice is the end of the chain or a part of a circle. -/
theorem circles_of_met_twice (hm : m < n) (hsame : p.aliased^[m] a = p.aliased^[n] a)
    (halias : (p.aliased^[n] a).kind.isAlias) : p.Circles a := by
  obtain ⟨length, rfl⟩ := Nat.exists_eq_add_of_lt hm
  exact ⟨m, length + 1, by omega, by rwa [hsame], hsame.symm⟩

/-- A chain runs in a circle or comes to an end, and not both. -/
theorem circles_or_ends (hp : ∀ s ∈ p.symbols, ∀ t ∈ p.symbols, s.id = t.id → s = t)
    (ha : a ∈ p.symbols) : p.Circles a ∨ ∃ n, (p.aliased^[n] a).kind.isAlias = false := by
  obtain ⟨n, -, -, hend | ⟨m, hm, hsame⟩⟩ := alias_end_stops hp ha
  · exact .inr ⟨n, hend⟩
  · by_cases halias : (p.aliased^[n] a).kind.isAlias
    · exact .inl (circles_of_met_twice hm hsame halias)
    · exact .inr ⟨n, Bool.eq_false_iff.mpr halias⟩

/-- The end of a chain is the symbol in it that is no alias. -/
theorem alias_end_eq_of_end (hp : ∀ s ∈ p.symbols, ∀ t ∈ p.symbols, s.id = t.id → s = t)
    (ha : a ∈ p.symbols) (h : (p.aliased^[n] a).kind.isAlias = false) :
    p.aliasEnd a = p.aliased^[n] a := by
  obtain ⟨k, hend, -, hstop⟩ := alias_end_stops hp ha
  have hnone : (p.aliased^[k] a).kind.isAlias = false := by
    rcases hstop with hstop | ⟨m, hm, hsame⟩
    · exact hstop
    · exact Bool.eq_false_iff.mpr fun halias =>
        not_circles_of_end h (circles_of_met_twice hm hsame halias)
  rw [hend]
  rcases Nat.le_total k n with hle | hle
  · exact (iterate_eq_of_not_alias hnone hle).symm
  · exact iterate_eq_of_not_alias h hle

/-- The search for the end of a chain stops at an alias exactly if the chain runs in a circle. -/
theorem alias_end_is_alias_iff (hp : ∀ s ∈ p.symbols, ∀ t ∈ p.symbols, s.id = t.id → s = t)
    (ha : a ∈ p.symbols) : (p.aliasEnd a).kind.isAlias ↔ p.Circles a := by
  obtain ⟨n, hend, -, hstop⟩ := alias_end_stops hp ha
  constructor
  · intro halias
    rw [hend] at halias
    rcases hstop with hstop | ⟨m, hm, hsame⟩
    · simp [hstop] at halias
    · exact circles_of_met_twice hm hsame halias
  · intro hcircles
    by_contra halias
    rw [hend] at halias
    exact not_circles_of_end (Bool.eq_false_iff.mpr halias) hcircles

/-- A step further on, a chain still runs in its circle. -/
theorem Circles.aliased (h : p.Circles a) : p.Circles (p.aliased a) := by
  obtain ⟨first, length, hlength, halias, hround⟩ := h
  have hnext : p.aliased^[first + length] (p.aliased a) = p.aliased^[first] (p.aliased a) := by
    rw [← Function.iterate_succ_apply, ← Function.iterate_succ_apply,
      Function.iterate_succ_apply', Function.iterate_succ_apply', hround]
  refine ⟨first, length, hlength, ?_, hnext⟩
  by_contra hnone
  exact not_circles_of_end (n := first + 1) (Bool.eq_false_iff.mpr hnone)
    ⟨first, length, hlength, halias, hround⟩

/-! ## Aliases that lead nowhere -/

variable {config : Config} {sources : List SourceFile} {origin : AliasOrigin} {f : BoundFile}

/-- A relative specifier means no file exactly if none of its candidates is one. -/
theorem resolve_module_eq_none_iff {fromFile specifier : Text}
    (hrelative : Path.isRelative specifier) :
    p.resolveModule fromFile specifier = none ↔
      ∀ path ∈ moduleCandidates p.config fromFile specifier, p.file? path = none := by
  rw [resolveModule, if_pos hrelative, List.find?_eq_none]
  simp only [Option.not_isSome_iff_eq_none]

/-- What a specifier means is a file. -/
theorem file_of_resolve_module {fromFile specifier path : Text}
    (h : p.resolveModule fromFile specifier = some path) : (p.file? path).isSome := by
  unfold resolveModule at h
  split at h
  · have hfile := List.find?_some h
    exact hfile
  · cases h

/-- An alias has no target exactly if something that it points at is not there. -/
theorem target_eq_none_iff : p.target? origin = none ↔ p.Misses origin := by
  constructor
  · intro h
    simp only [target?] at h
    split at h
    case h_1 name hmodule hname => exact .declared hmodule hname h
    case h_2 hmodule hname => exact .nameless hmodule hname
    case h_3 specifier hmodule =>
      by_cases hrelative : Path.isRelative specifier
      · cases hpath : p.resolveModule (origin.sourceFile.getD []) specifier with
        | none => exact .file hmodule ((resolve_module_eq_none_iff hrelative).mp hpath)
        | some path =>
            rw [hpath, Option.bind_eq_bind, Option.bind_some] at h
            split at h
            case h_1 name hname => exact .exported hmodule hpath hname h
            case h_2 =>
              have hfile := file_of_resolve_module hpath
              simp [Option.map_eq_none_iff.mp h] at hfile
      · exact .package hmodule (Bool.eq_false_iff.mpr hrelative)
  · intro h
    cases h with
    | package hmodule hbare => simp [target?, hmodule, resolveModule, hbare]
    | @file specifier hmodule hmissing =>
        have hpath : p.resolveModule (origin.sourceFile.getD []) specifier = none := by
          by_cases hrelative : Path.isRelative specifier
          · exact (resolve_module_eq_none_iff hrelative).mpr hmissing
          · exact if_neg hrelative
        simp [target?, hmodule, hpath]
    | exported hmodule hpath hname hmissing => simp [target?, hmodule, hpath, hname, hmissing]
    | declared hmodule hname hmissing => simp [target?, hmodule, hname, hmissing]
    | nameless hmodule hname => simp [target?, hmodule, hname]

/-- The symbol that stands for nothing is not among those that a file declares. -/
theorem ne_unknown_of_fact {path : Text} {fact : Fact}
    (hfact : fact ∈ (ofSources config sources).factsOf path) (hsymbol : fact.symbol? = some s) :
    s ≠ unknownSymbol := by
  obtain ⟨f, hf, hfact⟩ := exists_file_of_fact hfact
  obtain ⟨place, source, rfl⟩ := (files_of_sources config sources).1 f hf
  obtain ⟨x, hx, -⟩ := BoundFile.exists_node_of_mem hfact hsymbol
  rintro rfl
  cases hx

/-- What an alias of a program leads to is known. -/
theorem ne_unknown_of_target (h : (ofSources config sources).target? origin = some s) :
    s ≠ unknownSymbol := by
  rcases target_cases h with ⟨_, _, _, h⟩ | ⟨_, _, h⟩ | ⟨f, _, rfl⟩
  · obtain ⟨fact, hfact, hsymbol⟩ := Fact.declared_in_mem h
    exact ne_unknown_of_fact hfact hsymbol
  · exact ne_unknown_of_fact (Fact.enters_of_entered h) rfl
  · intro hunknown
    cases congrArg Symbol.id hunknown

/-- One step behind an alias stands nothing known exactly if something that it points at is not
there. -/
theorem aliased_eq_unknown_iff (h : a.kind = .aliasOf origin) :
    (ofSources config sources).aliased a = unknownSymbol ↔
      (ofSources config sources).Misses origin := by
  rw [← target_eq_none_iff, aliased, h]
  dsimp only
  cases htarget : (ofSources config sources).target? origin with
  | none => simp
  | some s => simpa using ne_unknown_of_target htarget

end StaticLiteral.Program
