import StaticLiteral.Proofs.ParseTree.Apart

/-!
# What is noted of deep trees

Two places note that something is nested too deep: the limit, where this was not noted before, and a
statement that overflows, in any case. `NotesOnce make` says this of the first place, and
`SourceFile.cut_count_exact` counts the notes of both in a file: there is one for each statement
that overflows, and one more if the limit is reached before any of them is through.
-/

namespace StaticLiteral

open MakeSyntax

/-- How often it is among the anomalies that something was nested too deep. -/
def cutCount (anomalies : List Anomaly) : Nat :=
  anomalies.countP (·.reason = .nestingTooDeep)

variable {α β : Type} {make : MakeSyntax α} {anomalies more : List Anomaly}

/-- Cuts are counted before and after. -/
theorem cut_count_append : cutCount (anomalies ++ more) = cutCount anomalies + cutCount more :=
  List.countP_append

/-- Something was cut off if there is a cut to count. -/
theorem cut_count_pos_iff : 0 < cutCount anomalies ↔ IsCut anomalies := by
  simp [cutCount, List.countP_pos_iff, IsCut]

/-- Nothing was cut off if there is no cut to count. -/
theorem cut_count_eq_zero_iff : cutCount anomalies = 0 ↔ ¬ IsCut anomalies := by
  rw [← cut_count_pos_iff]
  omega

/-- Work notes that something is nested too deep if this was not noted before, and then once. -/
def NotesOnce (make : MakeSyntax α) : Prop :=
  ∀ ctx anomalies, cutCount ((make ctx).run anomalies).2 = cutCount anomalies ∨
    cutCount anomalies = 0 ∧ cutCount ((make ctx).run anomalies).2 = 1

namespace NotesOnce

/-- Work that notes nothing. -/
theorem of_nothing (h : ∀ ctx anomalies, ((make ctx).run anomalies).2 = anomalies) :
    NotesOnce make := fun ctx anomalies => .inl (by rw [h])

/-- Noting an escape that denotes nothing cuts nothing off. -/
theorem invalid_escape (n : ParseTree) (detail : Text) :
    NotesOnce (note .invalidEscape n detail) := fun ctx anomalies => .inl (by
  rw [run_note]
  exact cut_count_append)

/-- Work that goes on notes cuts once if each part of it does. -/
theorem bind {f : α → MakeSyntax β} (h : NotesOnce make) (hf : ∀ a, NotesOnce (f a)) :
    NotesOnce (make >>= f) := by
  intro ctx anomalies
  rw [run_bind]
  have hfirst := h ctx anomalies
  revert hfirst
  rcases (make ctx).run anomalies with ⟨stop | a, between⟩ <;> intro hfirst
  · exact hfirst
  · have hsecond := hf a ctx between
    dsimp only at hfirst ⊢
    omega

/-- At the limit the first note is made, and no other one. -/
theorem guarded (n : ParseTree) (cut : Info → α) (h : NotesOnce make) :
    NotesOnce (guarded n cut make) := by
  intro ctx anomalies
  rw [run_guarded]
  by_cases hlimit : ctx.maxNesting ≤ ctx.nesting
  · rw [if_pos hlimit]
    by_cases hcut : IsCut anomalies
    · exact .inl (by rw [if_pos hcut])
    · have hzero := cut_count_eq_zero_iff.mpr hcut
      refine .inr ⟨hzero, ?_⟩
      rw [if_neg hcut, run_note]
      show cutCount (anomalies ++ _) = 1
      rw [cut_count_append, hzero]
      rfl
  · rw [if_neg hlimit]
    exact h { ctx with nesting := ctx.nesting + 1 } anomalies

end NotesOnce

/-- No step of making syntax notes it twice. -/
theorem IsWork.notes_once {lacks : Prop} (h : IsWork lacks make) : NotesOnce make := by
  obtain ⟨⟨run, hrun⟩, -⟩ := h
  induction hrun with
  | pure a => exact .of_nothing fun _ _ => rfl
  | throw stop => exact .of_nothing fun _ _ => rfl
  | info n => exact .of_nothing fun _ _ => rfl
  | textBetween start stop => exact .of_nothing fun _ _ => rfl
  | invalidEscape n detail => exact .invalid_escape n detail
  | bind _ _ ih ihf => exact .bind ih ihf
  | guarded n cut _ ih => exact .guarded n cut ih

/-- After other anomalies it is noted exactly if nothing was nested too deep among these. -/
theorem IsWork.cut_count {lacks : Prop} (h : IsWork lacks make) (ctx : SyntaxContext)
    (anomalies : List Anomaly) :
    cutCount ((make ctx).run anomalies).2 =
      max (cutCount anomalies) (decide (IsCut ((make ctx).run []).2)).toNat := by
  have hcount := h.notes_once ctx anomalies
  have hsifted : IsCut ((make ctx).run anomalies).2 ↔
      IsCut anomalies ∨ IsCut ((make ctx).run []).2 := by
    rw [h.sifts.run, ← decide_eq_true_iff (p := IsCut _), is_cut_append_sifted]
    simp only [Bool.or_eq_true, decide_eq_true_eq]
  rw [← cut_count_pos_iff, ← cut_count_pos_iff] at hsifted
  by_cases hreached : IsCut ((make ctx).run []).2
  · have hpos := hsifted.mpr (.inr hreached)
    rw [decide_eq_true hreached, Bool.toNat_true]
    omega
  · have hzero := fun hpos => (hsifted.mp hpos).resolve_right hreached
    rw [decide_eq_false hreached, Bool.toNat_false]
    omega

/-! ## Statements -/

/-- Making the statement stops because its tree is too deep. -/
def overflows (depth : Nat) (ctx : SyntaxContext) (n : ParseTree) : Bool :=
  (((Makers.ofDepth depth).statement n ctx).run []).1 matches .error .tooDeep

/-- What was noted before makes no difference to that. -/
theorem overflows_eq {depth : Nat} {ctx : SyntaxContext} {n : ParseTree}
    (anomalies : List Anomaly) : overflows depth ctx n =
      ((((Makers.ofDepth depth).statement n ctx).run anomalies).1 matches .error .tooDeep) := by
  rw [overflows, ((Makers.works_of_depth depth).statement n).sifts.run ctx anomalies]

/-- Something in the statement is cut off at the limit, maybe before the statement overflows. -/
def reachesLimit (depth : Nat) (ctx : SyntaxContext) (n : ParseTree) : Bool :=
  decide (IsCut (((Makers.ofDepth depth).statement n ctx).run []).2)

/-- The limit is reached in one of the statements, and those before it do not overflow. -/
def reachesFirst (depth : Nat) (ctx : SyntaxContext) : List ParseTree → Bool
  | [] => false
  | n :: rest => reachesLimit depth ctx n || !overflows depth ctx n && reachesFirst depth ctx rest

namespace SourceFile

variable {depth : Nat} {ctx : SyntaxContext} {n : ParseTree} {ns before after : List ParseTree}
  {rest : List Anomaly}

/-- A statement adds the note of the limit if there is none yet, and that of an overflow. -/
theorem cut_count_of_statement {statement : Option Node}
    (h : statementFrom depth ctx anomalies n = .ok (statement, rest)) :
    cutCount rest = max (cutCount anomalies) (reachesLimit depth ctx n).toNat +
      (overflows depth ctx n).toNat := by
  have hwork := (Makers.works_of_depth depth).statement n
  rw [reachesLimit, ← hwork.cut_count ctx anomalies, overflows_eq anomalies]
  unfold statementFrom at h
  revert h
  rcases ((Makers.ofDepth depth).statement n ctx).run anomalies with
    ⟨(_ | _) | made, noted⟩ <;> intro h
  · -- the note of the overflow comes on top of all others
    dsimp only at h
    rw [run_note] at h
    cases h
    exact cut_count_append
  · cases h
  · cases h
    rfl

/-- Statements add a note for each that overflows, and that of the limit if there is none yet and it
is reached before one of them overflowed. -/
theorem cut_count_of_statements {statements : List Node}
    (h : statementsFrom depth ctx anomalies ns = .ok (statements, rest)) :
    cutCount rest = max (cutCount anomalies) (reachesFirst depth ctx ns).toNat +
      ns.countP (overflows depth ctx) := by
  induction ns generalizing anomalies statements with
  | nil =>
      obtain ⟨-, rfl⟩ := Prod.mk.inj (Except.ok.inj h)
      rw [reachesFirst, Bool.toNat_false, Nat.max_zero]
      rfl
  | cons n ns ih =>
      obtain ⟨⟨statement, noted⟩, hstatement, h⟩ := bind_eq_ok_iff.mp h
      obtain ⟨⟨following, last⟩, hfollowing, h⟩ := bind_eq_ok_iff.mp h
      obtain ⟨-, rfl⟩ := Prod.mk.inj (Except.ok.inj h)
      rw [ih hfollowing, cut_count_of_statement hstatement, List.countP_cons, reachesFirst]
      cases reachesLimit depth ctx n <;> cases overflows depth ctx n <;>
        cases reachesFirst depth ctx ns <;>
        simp only [Bool.toNat_true, Bool.toNat_false, Bool.true_or, Bool.false_or, Bool.not_true,
          Bool.not_false, Bool.false_and, Bool.true_and, if_true, Bool.false_eq_true, if_false] <;>
        omega

/-- Before the first statement that overflows, the limit is reached first exactly if it is reached
at all, that statement included. -/
theorem reaches_first_eq_false_iff (hn : overflows depth ctx n)
    (hbefore : ∀ m ∈ before, ¬ overflows depth ctx m) :
    reachesFirst depth ctx (before ++ n :: after) = false ↔
      ∀ m ∈ before ++ [n], ¬ reachesLimit depth ctx m := by
  induction before with
  | nil => simp [reachesFirst, hn]
  | cons m before ih =>
      obtain ⟨hm, hbefore⟩ := List.forall_mem_cons.mp hbefore
      rw [List.cons_append, List.cons_append, reachesFirst, List.forall_mem_cons, ← ih hbefore]
      simp [hm]

/-- There is at most one note exactly if a statement that overflows is alone in that, and neither it
nor a statement before it reaches the limit. -/
theorem notes_le_one_iff :
    (reachesFirst depth ctx ns).toNat + ns.countP (overflows depth ctx) ≤ 1 ↔
      ∀ before n after, ns = before ++ n :: after → overflows depth ctx n →
        (∀ m ∈ after, ¬ overflows depth ctx m) ∧
          ∀ m ∈ before ++ [n], ¬ reachesLimit depth ctx m := by
  constructor
  · rintro hle before n after rfl hn
    rw [List.countP_append, List.countP_cons_of_pos hn] at hle
    have hbefore : before.countP (overflows depth ctx) = 0 := by omega
    have hafter : after.countP (overflows depth ctx) = 0 := by omega
    have hfirst : reachesFirst depth ctx (before ++ n :: after) = false := by
      rw [← Bool.toNat_eq_zero]
      omega
    rw [List.countP_eq_zero] at hbefore hafter
    exact ⟨hafter, (reaches_first_eq_false_iff hn hbefore).mp hfirst⟩
  · intro h
    by_cases hany : ∃ n ∈ ns, overflows depth ctx n
    · obtain ⟨n, hmem, hn⟩ := hany
      obtain ⟨before, after, rfl⟩ := List.append_of_mem hmem
      obtain ⟨hafter, hlimit⟩ := h before n after rfl hn
      -- no statement before overflows either, because `n` comes after it
      have hbefore : ∀ m ∈ before, ¬ overflows depth ctx m := by
        intro m hm hoverflows
        obtain ⟨early, late, rfl⟩ := List.append_of_mem hm
        refine (h early m (late ++ n :: after) (by simp) hoverflows).1 n ?_ hn
        simp
      rw [(reaches_first_eq_false_iff hn hbefore).mpr hlimit, List.countP_append,
        List.countP_cons_of_pos hn, List.countP_eq_zero.mpr hbefore,
        List.countP_eq_zero.mpr hafter]
      simp
    · rw [List.countP_eq_zero.mpr fun n hmem hn => hany ⟨n, hmem, hn⟩]
      exact Bool.toNat_le _

variable (source : List UInt8) (fileName : Text) (maxNesting : Int) (parsed : ParsedSource)

/-- A file has the notes of its statements. -/
theorem cut_count_of_parsed {file : SourceFile}
    (h : ofParsed source fileName maxNesting parsed = .ok file) :
    cutCount file.anomalies =
      (reachesFirst depthLimit { source := source, maxNesting := maxNesting }
        parsed.tree.named).toNat +
      parsed.tree.named.countP
        (overflows depthLimit { source := source, maxNesting := maxNesting }) := by
  obtain ⟨⟨statements, anomalies⟩, hstatements, h⟩ := bind_eq_ok_iff.mp h
  obtain rfl := Except.ok.inj h
  have hparser : cutCount (if parsed.hasError then [parseError] else []) = 0 := by
    cases parsed.hasError <;> rfl
  rw [cut_count_append, hparser, cut_count_of_statements hstatements, Nat.zero_add]
  exact congrArg (· + _) (Nat.zero_max _)

/-- A file has one note that something is nested too deep for each statement that overflows, and one
more if the limit is reached in a statement before which none overflows. So it has at most one
exactly if not more than one statement overflows, and no statement up to that one reaches the
limit. -/
theorem cut_count_exact {file : SourceFile}
    (h : ofParsed source fileName maxNesting parsed = .ok file) :
    let ctx : SyntaxContext := { source := source, maxNesting := maxNesting }
    cutCount file.anomalies = (reachesFirst depthLimit ctx parsed.tree.named).toNat +
      parsed.tree.named.countP (overflows depthLimit ctx) ∧
    (cutCount file.anomalies ≤ 1 ↔ ∀ before n after, parsed.tree.named = before ++ n :: after →
      overflows depthLimit ctx n → (∀ m ∈ after, ¬ overflows depthLimit ctx m) ∧
        ∀ m ∈ before ++ [n], ¬ reachesLimit depthLimit ctx m) := by
  intro ctx
  have hcount := cut_count_of_parsed source fileName maxNesting parsed h
  exact ⟨hcount, hcount ▸ notes_le_one_iff⟩

/-- A name that is cut off at the limit is noted once. -/
theorem cut_count_exact_of_name :
    let name := ParseTree.node "identifier" true 0 1 none []
    let parsed : ParsedSource := ⟨.node "program" true 0 1 none
      [.node "expression_statement" true 0 1 none [name]], false⟩
    let ctx : SyntaxContext := { source := Utf8.encode (Text.ofString "a"), maxNesting := 1 }
    ∃ file, ofParsed ctx.source (Text.ofString "a.ts") 1 parsed = .ok file ∧
      cutCount file.anomalies = 1 ∧
      cutCount file.anomalies = (reachesFirst depthLimit ctx parsed.tree.named).toNat +
        parsed.tree.named.countP (overflows depthLimit ctx) ∧
      ∀ before n after, parsed.tree.named = before ++ n :: after → overflows depthLimit ctx n →
        (∀ m ∈ after, ¬ overflows depthLimit ctx m) ∧
          ∀ m ∈ before ++ [n], ¬ reachesLimit depthLimit ctx m := by
  intro name parsed ctx
  obtain ⟨file, hfile, hcount⟩ : ∃ file, ofParsed ctx.source (Text.ofString "a.ts") 1 parsed =
      .ok file ∧ cutCount file.anomalies = 1 := exists_ok_of_any (by decide +kernel)
  obtain ⟨hexact, hle⟩ := cut_count_exact ctx.source (Text.ofString "a.ts") 1 parsed hfile
  exact ⟨file, hfile, hcount, hexact, hle.mp (Nat.le_of_eq hcount)⟩

end SourceFile

/-! ## Deep patterns -/

/-- A name in this many array patterns, one inside of the other. -/
def ParseTree.inPatterns (field : Option String) (start : Nat) : Nat → ParseTree
  | 0 => .node "identifier" true start (start + 1) field []
  | k + 1 => .node "array_pattern" true start (start + 2 * k + 3) field
      [.node "[" false start (start + 1) none [], inPatterns none (start + 1) k,
        .node "]" false (start + 2 * k + 2) (start + 2 * k + 3) none []]

/-- A declaration of a name in this many array patterns. -/
def ParseTree.letPatterns (start k : Nat) : ParseTree :=
  .node "lexical_declaration" true start (start + 2 * k + 5) none
    [.node "let" false start (start + 3) none [],
      .node "variable_declarator" true (start + 4) (start + 2 * k + 5) none
        [inPatterns (some "name") (start + 4) k]]

variable {depth k : Nat} {ctx : SyntaxContext}

/-- Nothing comes after work that stops. -/
theorem run_bind_of_stop {f : α → MakeSyntax β} {stop : SyntaxStop} {rest : List Anomaly}
    (h : (make ctx).run anomalies = (.error stop, rest)) :
    ((make >>= f) ctx).run anomalies = (.error stop, rest) := by
  rw [run_bind, h]

/-- The info of a tree depends on the setting only, and notes nothing. -/
theorem run_info_bind (n : ParseTree) (f : Info → MakeSyntax β) :
    ((info n >>= f) ctx).run anomalies = (f { span := ctx.span n } ctx).run anomalies := by
  rw [run_bind]
  rfl

/-- An element is no deeper than what it binds, but for itself. -/
theorem run_element_in_patterns (m : Makers) (field : Option String) (start : Nat)
    (h : (m.bindingName (.inPatterns field start k) ctx).run anomalies =
      (.error .tooDeep, anomalies)) :
    (m.makeBindingElement (.inPatterns field start k) ctx).run anomalies =
      (.error .tooDeep, anomalies) := by
  unfold Makers.makeBindingElement
  rw [run_info_bind]
  cases k with
  | zero => exact run_bind_of_stop h
  | succ k => exact run_bind_of_stop h

/-- A pattern is no deeper than its element, but for itself. -/
theorem run_pattern_in_patterns (m : Makers) (field : Option String) (start : Nat)
    (h : (m.bindingElement (.inPatterns none (start + 1) k) ctx).run anomalies =
      (.error .tooDeep, anomalies)) :
    (m.makeBindingName (.inPatterns field start (k + 1)) ctx).run anomalies =
      (.error .tooDeep, anomalies) := by
  have helements : ∀ close, ((Makers.elements m.bindingElement true
      [.node "[" false start (start + 1) none [], .inPatterns none (start + 1) k, close]) ctx).run
        anomalies = (.error .tooDeep, anomalies) := by
    intro close
    cases k with
    | zero => exact run_bind_of_stop h
    | succ k => exact run_bind_of_stop h
  unfold Makers.makeBindingName
  exact (run_info_bind _ _).trans (run_bind_of_stop (helements _))

/-- Each pattern takes two levels, one for its element and one for what that binds. -/
theorem run_name_in_patterns (hdepth : depth ≤ 2 * k) (field : Option String) (start : Nat)
    (anomalies : List Anomaly) :
    ((Makers.ofDepth depth).bindingName (.inPatterns field start k) ctx).run anomalies =
      (.error .tooDeep, anomalies) := by
  induction k generalizing depth field start with
  | zero =>
      obtain rfl : depth = 0 := by omega
      rfl
  | succ k ih =>
      match depth with
      | 0 => rfl
      | 0 + 1 =>
          have helement : ((Makers.ofDepth 0).bindingElement (.inPatterns none (start + 1) k)
              ctx).run anomalies = (.error .tooDeep, anomalies) := rfl
          exact run_pattern_in_patterns (Makers.ofDepth 0) field start helement
      | depth + 2 =>
          have hname := @ih depth (by omega) none (start + 1)
          exact run_pattern_in_patterns (Makers.ofDepth (depth + 1)) field start
            (run_element_in_patterns (Makers.ofDepth depth) none (start + 1) hname)

namespace SourceFile

/-- A statement that overflows stays in the file as an unknown node. -/
theorem statement_from_of_overflows {n : ParseTree} (h : overflows depth ctx n) :
    ∃ made, statementFrom depth ctx [] n = .ok made := by
  rw [overflows] at h
  unfold statementFrom
  revert h
  rcases ((Makers.ofDepth depth).statement n ctx).run [] with
    ⟨(_ | _) | made, noted⟩ <;> intro h
  · exact ⟨_, rfl⟩
  · cases h
  · cases h

/-- There is a file if each of the statements can be made. -/
theorem exists_file_of_statements (source : List UInt8) (fileName : Text) (maxNesting : Int)
    (parsed : ParsedSource)
    (h : ∀ n ∈ parsed.tree.named, ∃ made, statementFrom depthLimit
      { source := source, maxNesting := maxNesting } [] n = .ok made) :
    ∃ file, ofParsed source fileName maxNesting parsed = .ok file := by
  have hstatements : ∀ ns anomalies, (∀ n ∈ ns, ∃ made, statementFrom depthLimit
      { source := source, maxNesting := maxNesting } [] n = .ok made) →
      ∃ made, statementsFrom depthLimit { source := source, maxNesting := maxNesting } anomalies
        ns = .ok made := by
    intro ns
    induction ns with
    | nil => exact fun _ _ => ⟨_, rfl⟩
    | cons n ns ih =>
        intro anomalies h
        obtain ⟨⟨first, hfirst⟩, hrest⟩ := List.forall_mem_cons.mp h
        obtain ⟨rest, hrest⟩ := ih _ hrest
        rw [statementsFrom, statement_from_sifted, hfirst]
        exact ⟨_, bind_eq_ok_iff.mpr ⟨_, rfl, bind_eq_ok_iff.mpr ⟨_, hrest, rfl⟩⟩⟩
  obtain ⟨made, hmade⟩ := hstatements parsed.tree.named [] h
  exact ⟨_, bind_eq_ok_iff.mpr ⟨made, hmade, rfl⟩⟩

/-- A declaration of a name in so many patterns overflows, wherever the limit is. -/
theorem overflows_of_patterns (start : Nat) (hdepth : depth ≤ 2 * k)
    (hlimit : ¬ ctx.maxNesting ≤ ctx.nesting) :
    overflows (depth + 1) ctx (.letPatterns start k) := by
  have hvariables : ∀ ctx kind, ((Makers.ofDepth depth).variableStatement kind
      (.letPatterns start k) ctx).run [] = (.error .tooDeep, []) := by
    intro ctx kind
    have hname : (ParseTree.node "variable_declarator" true (start + 4) (start + 2 * k + 5) none
        [.inPatterns (some "name") (start + 4) k]).child? "name" =
        some (.inPatterns (some "name") (start + 4) k) := by
      cases k <;> rfl
    have hnamed : ((ParseTree.letPatterns start k).named.filter
        (·.type == "variable_declarator")) = [.node "variable_declarator" true (start + 4)
          (start + 2 * k + 5) none [.inPatterns (some "name") (start + 4) k]] := rfl
    unfold Makers.variableStatement
    rw [hnamed, List.mapM_cons, hname]
    exact run_bind_of_stop (run_bind_of_stop (run_bind_of_stop
      (run_name_in_patterns hdepth (some "name") (start + 4) [])))
  have hrun : ((Makers.ofDepth (depth + 1)).statement (.letPatterns start k) ctx).run [] =
      (.error .tooDeep, []) := by
    show ((Makers.ofDepth depth).makeStatement (.letPatterns start k) ctx).run [] = _
    have hskip : (ParseTree.letPatterns start k).isSkipped = false := rfl
    unfold Makers.makeStatement
    rw [hskip, if_neg Bool.false_ne_true, run_guarded, if_neg hlimit]
    show ((some <$> Makers.variableStatement _ _ _) _).run [] = _
    rw [map_eq_pure_bind]
    exact run_bind_of_stop (hvariables _ _)
  rw [overflows, hrun]

/-- The note of an overflow comes after that of the limit. -/
theorem overflow_noted_again :
    let name := ParseTree.node "expression_statement" true 0 1 none
      [.node "identifier" true 0 1 none []]
    let tree := ParseTree.node "program" true 0 3007 none [name, .letPatterns 2 1500]
    let text := Text.ofString "a\nlet " ++ List.replicate 1500 '['.toNat ++ ['a'.toNat] ++
      List.replicate 1500 ']'.toNat
    ∃ file, ofParsed (Utf8.encode text) (Text.ofString "a.ts") 1 ⟨tree, false⟩ = .ok file ∧
      ¬ file.anomalies.countP (·.reason = .nestingTooDeep) ≤ 1 := by
  intro name tree text
  let ctx : SyntaxContext := { source := Utf8.encode text, maxNesting := 1 }
  have hdepth : 999 ≤ 2 * 1500 := by omega
  have hoverflows : overflows depthLimit ctx (.letPatterns 2 1500) :=
    overflows_of_patterns 2 hdepth (by decide)
  have hreaches : reachesLimit depthLimit ctx name := by decide +kernel
  have hnamed : tree.named = [name, .letPatterns 2 1500] := rfl
  obtain ⟨file, hfile⟩ : ∃ file, ofParsed ctx.source (Text.ofString "a.ts") 1 ⟨tree, false⟩ =
      .ok file := by
    refine exists_file_of_statements _ _ _ _ ?_
    rw [hnamed]
    obtain ⟨made, hmade, -⟩ : ∃ made, statementFrom depthLimit ctx [] name = .ok made ∧ True :=
      exists_ok_of_any (by decide +kernel)
    exact List.forall_mem_cons.mpr ⟨⟨made, hmade⟩,
      List.forall_mem_singleton.mpr (statement_from_of_overflows hoverflows)⟩
  refine ⟨file, hfile, ?_⟩
  have hcount := cut_count_of_parsed ctx.source (Text.ofString "a.ts") 1 ⟨tree, false⟩ hfile
  rw [show { source := ctx.source, maxNesting := 1 } = ctx from rfl, hnamed, reachesFirst, hreaches,
    Bool.true_or, Bool.toNat_true] at hcount
  have hpos : 0 < [name, .letPatterns 2 1500].countP (overflows depthLimit ctx) :=
    List.countP_pos_iff.mpr ⟨_, List.mem_cons_of_mem name List.mem_cons_self, hoverflows⟩
  show ¬ cutCount file.anomalies ≤ 1
  omega

end SourceFile

end StaticLiteral
