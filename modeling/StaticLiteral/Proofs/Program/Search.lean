import Mathlib.Data.List.Basic
import StaticLiteral.Proofs.Program.Symbols

/-!
# Bounds of the searches through a program

Chains of aliases and the search for an export are bounded by a number of steps. Both bounds are
never reached: `alias_end_from_eq` and `visit_from_eq` say that more steps find nothing else. A
chain of aliases meets no alias twice, and the search for an export enters no file twice.
-/

namespace StaticLiteral

/-- How many of some symbols are not among those that are busy. -/
def openAmong {ι : Type} [DecidableEq ι] (symbols : List (Symbol ι)) (busy : List ι) : Nat :=
  (symbols.filter fun s => s.id ∉ busy).length

section OpenAmong

variable {ι : Type} [DecidableEq ι] {symbols : List (Symbol ι)} {busy : List ι}

/-- Entering a symbol that was not busy leaves fewer of them. -/
theorem open_among_cons_lt {s : Symbol ι} (hs : s ∈ symbols) (hbusy : s.id ∉ busy) :
    openAmong symbols (s.id :: busy) < openAmong symbols busy := by
  have hsplit : symbols.filter (fun x => x.id ∉ s.id :: busy) =
      (symbols.filter fun x => x.id ∉ busy).filter fun x => x.id ≠ s.id := by
    rw [List.filter_filter]
    congr 1
    funext x
    simp
  rw [openAmong, openAmong, hsplit, List.length_filter_lt_length_iff_exists]
  exact ⟨s, by simp [hs, hbusy], by simp⟩

/-- There are at most as many of them as there are symbols. -/
theorem open_among_le_length : openAmong symbols busy ≤ symbols.length :=
  List.length_filter_le _ _

end OpenAmong

namespace Program

variable {p : Program}

/-! ## Chains of aliases -/

/-- The aliases among the symbols of a program. -/
def aliases (p : Program) : List BoundSymbol := p.symbols.filter (·.kind.isAlias)

/-- Every fact is about at most one symbol. -/
theorem length_fact_symbols_le (files : List BoundFile) (count : Nat) :
    count + (files.flatMap fun f => f.facts.filterMap Fact.symbol?).length ≤
      files.foldl (fun count f => count + f.facts.length) count := by
  induction files generalizing count with
  | nil => simp
  | cons f rest ih =>
      have hfile := List.length_filterMap_le Fact.symbol? f.facts
      have hrest := ih (count + f.facts.length)
      simp only [List.flatMap_cons, List.length_append, List.foldl_cons]
      omega

/-- There are at most as many aliases as facts. -/
theorem length_aliases_le : p.aliases.length ≤ p.factCount := by
  have hambient : (ambientNames.map ambientSymbol).filter (·.kind.isAlias) = [] := by
    simp [ambientSymbol, SymbolKind.isAlias]
  have hmodule : (p.files.map BoundFile.moduleSymbol).filter (·.kind.isAlias) = [] := by
    simp [BoundFile.moduleSymbol, SymbolKind.isAlias]
  have hunknown : [unknownSymbol].filter (·.kind.isAlias) = [] := by
    simp [unknownSymbol, SymbolKind.isAlias]
  have hfacts := length_fact_symbols_le p.files 0
  rw [aliases, symbols, List.filter_append, List.filter_append, List.filter_append, hambient,
    hmodule, hunknown, List.append_nil, List.append_nil, List.append_nil]
  refine Nat.le_trans (List.length_filter_le _ _) ?_
  rwa [Nat.zero_add] at hfacts

/-- With more steps than there are aliases not seen yet, further steps change nothing. -/
theorem alias_end_from_add {steps : Nat} (more : Nat) {seen : List SymbolId}
    {symbol : BoundSymbol} (hsymbol : symbol ∈ p.symbols)
    (hsteps : openAmong p.aliases seen < steps) :
    p.aliasEndFrom (steps + more) seen symbol = p.aliasEndFrom steps seen symbol := by
  induction steps generalizing seen symbol with
  | zero => omega
  | succ steps ih =>
      rw [Nat.succ_add]
      simp only [aliasEndFrom]
      split
      case isTrue h =>
        have hmem : symbol ∈ p.aliases := List.mem_filter.mpr ⟨hsymbol, h.1⟩
        have hfewer := open_among_cons_lt hmem h.2
        exact ih (aliased_mem_symbols hsymbol) (by omega)
      case isFalse => rfl

/-- The end of a chain of aliases is found within the bound. -/
theorem alias_end_from_eq {steps : Nat} (h : p.factCount + 2 ≤ steps) (symbol : BoundSymbol) :
    p.aliasEndFrom steps [] symbol = p.aliasEnd symbol := by
  obtain ⟨more, rfl⟩ := Nat.exists_eq_add_of_le h
  rw [aliasEnd, show p.factCount + 2 + more = p.factCount + 1 + more + 1 by omega]
  simp only [aliasEndFrom]
  split
  case isTrue hkind =>
    have hopen : openAmong p.aliases [symbol.id] ≤ p.factCount :=
      Nat.le_trans open_among_le_length length_aliases_le
    exact alias_end_from_add more (aliased_mem_symbols_of_alias hkind.1) (by omega)
  case isFalse => rfl

/-! ## The search for an export -/

/-- The files of a program that are not visited yet. -/
def unvisited (p : Program) (visited : List Text) : List Text :=
  (p.files.map (·.path)).filter (!visited.contains ·)

/-- A file that another one exports again is a file of the program. -/
theorem reexported_is_file {path next : Text} (h : next ∈ p.reexported path) :
    next ∈ p.files.map (·.path) := by
  obtain ⟨specifier, _, hresolve⟩ := List.mem_filterMap.mp h
  unfold resolveModule at hresolve
  split at hresolve
  · have hfile := List.find?_some hresolve
    obtain ⟨f, hf⟩ := Option.isSome_iff_exists.mp hfile
    have hpath : f.path = next := by simpa using List.find?_some hf
    exact List.mem_map.mpr ⟨f, List.mem_of_find?_eq_some hf, hpath⟩
  · simp at hresolve

/-- The search only adds to the files visited. -/
theorem mem_visit_from (depth : Nat) {visited : List Text} {path file : Text}
    (h : file ∈ visited) : file ∈ p.visitFrom depth visited path := by
  induction depth generalizing visited path with
  | zero => exact h
  | succ depth ih =>
      simp only [visitFrom]
      split
      · exact h
      · have hstart : file ∈ visited ++ [path] := by simp [h]
        revert hstart
        generalize visited ++ [path] = start
        intro hstart
        induction p.reexported path generalizing start with
        | nil => exact hstart
        | cons next rest ihrest => exact ihrest _ (ih hstart)

/-- Visiting more leaves fewer files unvisited. -/
theorem length_unvisited_le {visited later : List Text} (h : visited ⊆ later) :
    (p.unvisited later).length ≤ (p.unvisited visited).length := by
  refine List.Sublist.length_le ?_
  refine List.monotone_filter_right _ fun path hpath => ?_
  simp only [Bool.not_eq_true', List.contains_eq_mem, decide_eq_false_iff_not] at hpath ⊢
  exact fun hmem => hpath (h hmem)

/-- Visiting a file leaves fewer of them unvisited. -/
theorem length_unvisited_lt {visited : List Text} {path : Text}
    (hfile : path ∈ p.files.map (·.path)) (hnew : path ∉ visited) :
    (p.unvisited (visited ++ [path])).length < (p.unvisited visited).length := by
  have hsplit : p.unvisited (visited ++ [path]) =
      (p.unvisited visited).filter fun file => file ≠ path := by
    rw [unvisited, unvisited, List.filter_filter]
    congr 1
    funext file
    simp [Bool.and_comm]
  rw [hsplit, List.length_filter_lt_length_iff_exists]
  exact ⟨path, by simp only [unvisited, List.mem_filter]; simp_all, by simp⟩

/-- With more levels than there are files unvisited, further levels find nothing else. -/
theorem visit_from_add {depth : Nat} (more : Nat) {visited : List Text} {path : Text}
    (hfile : path ∈ p.files.map (·.path)) (hdepth : (p.unvisited visited).length < depth) :
    p.visitFrom (depth + more) visited path = p.visitFrom depth visited path := by
  induction depth generalizing visited path with
  | zero => omega
  | succ depth ih =>
      rw [Nat.succ_add]
      simp only [visitFrom]
      split
      case isTrue => rfl
      case isFalse hnew =>
        have hfewer := length_unvisited_lt hfile hnew
        have hstart : (p.unvisited (visited ++ [path])).length < depth := by omega
        -- The files visited grow from one file exported again to the next.
        have hfold : ∀ (nexts : List Text) (start : List Text),
            (∀ next ∈ nexts, next ∈ p.files.map (·.path)) →
            (p.unvisited start).length < depth →
            nexts.foldl (p.visitFrom (depth + more)) start =
              nexts.foldl (p.visitFrom depth) start := by
          intro nexts
          induction nexts with
          | nil => exact fun _ _ _ => rfl
          | cons next rest ihrest =>
              intro start hnexts hstart
              rw [List.foldl_cons, List.foldl_cons, ih (hnexts next (by simp)) hstart]
              refine ihrest _ (fun file h => hnexts file (by simp [h])) ?_
              have hsubset : start ⊆ p.visitFrom depth start next :=
                fun file h => mem_visit_from depth h
              have hle := length_unvisited_le (p := p) hsubset
              omega
        exact hfold _ _ (fun next h => reexported_is_file h) hstart

/-- A path that is no file of the program exports nothing again. -/
theorem reexported_eq_nil {path : Text} (h : path ∉ p.files.map (·.path)) :
    p.reexported path = [] := by
  have hfile : p.file? path = none := by
    rw [file?, List.find?_eq_none]
    intro f hf hpath
    exact h (List.mem_map.mpr ⟨f, hf, by simpa using hpath⟩)
  simp [reexported, factsOf, hfile]

/-- The files that a file exports again are found within the bound. -/
theorem visit_from_eq {depth : Nat} (h : p.files.length + 1 ≤ depth) (path : Text) :
    p.visitFrom depth [] path = p.exportSources path := by
  obtain ⟨more, rfl⟩ := Nat.exists_eq_add_of_le h
  rw [exportSources]
  by_cases hfile : path ∈ p.files.map (·.path)
  · have hlength : (p.unvisited []).length ≤ p.files.length := by
      simp [unvisited]
    exact visit_from_add more hfile (by omega)
  · rw [Nat.add_right_comm]
    simp [visitFrom, reexported_eq_nil hfile]

end Program

end StaticLiteral
