import StaticLiteral.Proofs.ParseTree.Limits

/-!
# Statements apart

The statements of a file are made one after the other, with one counter of the nesting and one list
of anomalies for all. `SourceFile.statements_apart` says that each is made as if it were the only
one: the counter is back at zero before each, whatever became of those before, and of the anomalies
only those of the limit depend on what was noted before, in that they are noted once.
-/

namespace StaticLiteral

open MakeSyntax

variable {α β : Type} {make : MakeSyntax α} {run : Counting α} {ctx : SyntaxContext}

/-! ## The counter -/

namespace Counting

/-- What the work comes out as, and what is kept then. -/
def outcome (run : Counting α) (ctx : SyntaxContext) (progress : Progress) :
    Except SyntaxStop α × Progress :=
  (ExceptT.run (run ctx)).run progress

/-- One statement of a file. One that is too deep leaves an unknown node, and the counter is set
back. -/
def statement (run : ParseTree → Counting (Option Node)) (n : ParseTree) :
    Counting (Option Node) :=
  tryCatch (run n) fun
    | .tooDeep => do
      modify fun progress => { progress with nesting := 0 }
      aside (note .nestingTooDeep n SourceFile.tooDeepDetail)
      return some (cutOff n (← aside (info n)))
    | stop => throw stop

/-- The statements of a file in order. -/
def statements (run : ParseTree → Counting (Option Node)) :
    List ParseTree → Counting (List Node)
  | [] => return []
  | n :: rest => do return (← statement run n).toList ++ (← statements run rest)

/-- Work goes on with what was made before, unless that work stops. -/
theorem outcome_bind (run : Counting α) (f : α → Counting β) (ctx : SyntaxContext)
    (progress : Progress) :
    (run >>= f).outcome ctx progress =
      match run.outcome ctx progress with
      | (.ok a, after) => (f a).outcome ctx after
      | (.error stop, after) => (.error stop, after) := by
  show ((run ctx >>= fun a => f a ctx).run) progress = _
  rw [ExceptT.run_bind]
  show StateT.run _ progress = match StateT.run (run ctx).run progress with
    | (.ok a, after) => (f a ctx).run after
    | (.error stop, after) => (.error stop, after)
  rw [StateT.run_bind]
  rcases StateT.run (run ctx).run progress with ⟨_ | _, _⟩ <;> rfl

/-- The counter goes down after the work, whatever the work comes out as. -/
theorem outcome_finally (run : Counting α) (off : Progress → Progress) (ctx : SyntaxContext)
    (progress : Progress) :
    outcome (try run finally modify off) ctx progress =
      ((run.outcome ctx progress).1, off (run.outcome ctx progress).2) := by
  simp only [outcome, ExceptT.run, StateT.run, tryFinally, tryFinally', Functor.map, ExceptT.map,
    ExceptT.mk, bind, StateT.bind, pure]
  rcases run ctx progress with ⟨_ | _, after⟩ <;> rfl

/-- Where work stops, it goes on as is said for that stop. -/
theorem outcome_catch (run : Counting α) (f : SyntaxStop → Counting α) (ctx : SyntaxContext)
    (progress : Progress) :
    outcome (tryCatch run f) ctx progress =
      match run.outcome ctx progress with
      | (.ok a, after) => (.ok a, after)
      | (.error stop, after) => (f stop).outcome ctx after := by
  simp only [outcome, ExceptT.run, StateT.run, tryCatch, tryCatchThe, MonadExceptOf.tryCatch,
    ExceptT.tryCatch, ExceptT.mk, bind, StateT.bind]
  rcases run ctx progress with ⟨_ | _, after⟩ <;> rfl

/-- The work comes out as it does in a setting with the nesting that is counted, and then the
counter is where it was. -/
def Agrees (make : MakeSyntax α) (run : Counting α) : Prop :=
  ∀ ctx progress, run.outcome ctx progress =
    let made := (make { ctx with nesting := progress.nesting }).run progress.anomalies
    (made.1, ⟨progress.nesting, made.2⟩)

namespace Agrees

/-- Work aside from the counter is the work in the setting that the counter gives. -/
theorem aside (make : MakeSyntax α) : Agrees make (.aside make) := fun _ _ => rfl

/-- Work that goes on agrees if each part of it does. -/
theorem bind {f : α → MakeSyntax β} {g : α → Counting β} (h : Agrees make run)
    (hf : ∀ a, Agrees (f a) (g a)) : Agrees (make >>= f) (run >>= g) := by
  intro ctx progress
  rw [outcome_bind, h ctx progress]
  dsimp only
  rw [run_bind]
  rcases (make { ctx with nesting := progress.nesting }).run progress.anomalies with
    ⟨stop | a, after⟩
  · rfl
  · exact hf a ctx ⟨progress.nesting, after⟩

/-- Down and up again the counter is where it was, and at the limit it is not touched. -/
theorem guarded (n : ParseTree) (cut : Info → α) (h : Agrees make run) :
    Agrees (MakeSyntax.guarded n cut make) (.guarded n cut run) := by
  intro ctx progress
  unfold Counting.guarded
  -- the setting and the counter are read first, which changes neither
  rw [outcome_bind]
  show outcome (get >>= fun progress => _) ctx progress = _
  rw [outcome_bind]
  show outcome (if ctx.maxNesting ≤ progress.nesting then _ else _) ctx progress = _
  by_cases hlimit : ctx.maxNesting ≤ progress.nesting
  · rw [if_pos hlimit, run_guarded, if_pos hlimit, any_eq_is_cut]
    by_cases hcut : IsCut progress.anomalies
    · rw [if_pos hcut, decide_eq_true hcut]
      rfl
    · rw [if_neg hcut, decide_eq_false hcut]
      rfl
  · rw [if_neg hlimit, outcome_bind]
    show outcome (try run finally _) ctx { progress with nesting := progress.nesting + 1 } = _
    rw [outcome_finally, h]
    dsimp only
    rw [run_guarded, if_neg hlimit]
    rfl

end Agrees

/-- Whatever follows the steps of making syntax agrees with them. -/
theorem agrees_of_follows (h : Follows make run) : Agrees make run := by
  induction h with
  | pure a => exact fun _ _ => rfl
  | throw stop => exact fun _ _ => rfl
  | info n => exact .aside _
  | textBetween start stop => exact .aside _
  | invalidEscape n detail => exact .aside _
  | bind _ _ ih ihf => exact .bind ih ihf
  | guarded n cut _ ih => exact .guarded n cut ih

variable {depth : Nat} {runs : ParseTree → Counting (Option Node)}

/-- A statement leaves the counter at zero, also one that is too deep or stops the work. -/
theorem outcome_statement
    (h : ∀ n, Follows ((Makers.ofDepth depth).statement n) (runs n)) (n : ParseTree)
    (hzero : ctx.nesting = 0) (anomalies : List Anomaly) :
    ∃ outcome noted, (statement runs n).outcome ctx ⟨0, anomalies⟩ = (outcome, ⟨0, noted⟩) ∧
      SourceFile.statementFrom depth ctx anomalies n =
        (fun statement => (statement, noted)) <$> outcome := by
  have hrun := agrees_of_follows (h n) ctx ⟨0, anomalies⟩
  have hctx : { ctx with nesting := 0 } = ctx := by rw [← hzero]
  dsimp only at hrun
  rw [hctx] at hrun
  unfold SourceFile.statementFrom
  unfold statement
  rw [outcome_catch, hrun]
  rcases (((Makers.ofDepth depth).statement n) ctx).run anomalies with
    ⟨(_ | _) | statement, noted⟩
  · exact ⟨_, _, rfl, rfl⟩
  · exact ⟨_, _, rfl, rfl⟩
  · exact ⟨_, _, rfl, rfl⟩

/-- Some statements leave the counter at zero, and what is made of them is what is made without a
counter. -/
theorem outcome_statements
    (h : ∀ n, Follows ((Makers.ofDepth depth).statement n) (runs n)) (ns : List ParseTree)
    (hzero : ctx.nesting = 0) (anomalies : List Anomaly) :
    ∃ outcome noted, (statements runs ns).outcome ctx ⟨0, anomalies⟩ = (outcome, ⟨0, noted⟩) ∧
      SourceFile.statementsFrom depth ctx anomalies ns =
        (fun statements => (statements, noted)) <$> outcome := by
  induction ns generalizing anomalies with
  | nil => exact ⟨_, _, rfl, rfl⟩
  | cons n rest ih =>
      obtain ⟨outcome, noted, hrun, hmade⟩ := outcome_statement h n hzero anomalies
      rw [statements, outcome_bind, hrun, SourceFile.statementsFrom, hmade]
      cases outcome with
      | error stop => exact ⟨_, _, rfl, rfl⟩
      | ok statement =>
          obtain ⟨outcome, noted, hrun, hmade⟩ := ih noted
          dsimp only
          rw [outcome_bind, hrun]
          show ∃ outcome' noted', _ ∧ (SourceFile.statementsFrom depth ctx _ rest >>= _) = _
          rw [hmade]
          cases outcome with
          | error stop => exact ⟨_, _, rfl, rfl⟩
          | ok statements => exact ⟨_, _, rfl, rfl⟩

end Counting

/-! ## The anomalies -/

/-- The anomaly is the one that is noted where this limit is reached. -/
def isLimitNote (limit : Int) (a : Anomaly) : Bool :=
  a.reason = .nestingTooDeep && a.detail.endsWith (nestingDetail limit)

/-- The anomalies without those of the limit before which something was nested too deep, be it
among them or, if it is `cut`, before. -/
def sifted (limit : Int) : Bool → List Anomaly → List Anomaly
  | _, [] => []
  | cut, a :: rest =>
    let rest := sifted limit (cut || a.reason = .nestingTooDeep) rest
    if cut && isLimitNote limit a then rest else a :: rest

variable {limit : Int} {cut : Bool} {a : Anomaly} {anomalies : List Anomaly}

/-- There is nothing to sift. -/
@[simp]
theorem sifted_nil (limit : Int) (cut : Bool) : sifted limit cut [] = [] := rfl

/-- An anomaly is dropped if it is the note of a limit and the file was cut before. -/
theorem sifted_cons (limit : Int) (cut : Bool) (a : Anomaly) (rest : List Anomaly) :
    sifted limit cut (a :: rest) =
      if cut && isLimitNote limit a then sifted limit (cut || a.reason = .nestingTooDeep) rest
      else a :: sifted limit (cut || a.reason = .nestingTooDeep) rest := rfl

/-- Without anomalies nothing was cut off. -/
theorem not_is_cut_nil : ¬ IsCut [] := fun ⟨_, ha, _⟩ => List.not_mem_nil ha

/-- Something was cut off if it was before or after. -/
theorem is_cut_append {first second : List Anomaly} :
    IsCut (first ++ second) ↔ IsCut first ∨ IsCut second := by
  simp only [IsCut, List.mem_append, or_and_right, exists_or]

/-- Something was cut off if the first anomaly says so, or a later one. -/
theorem is_cut_cons : IsCut (a :: anomalies) ↔ a.reason = .nestingTooDeep ∨ IsCut anomalies := by
  simp [IsCut]

/-- What comes later is sifted by what was noted before. -/
theorem sifted_append (limit : Int) (cut : Bool) (first second : List Anomaly) :
    sifted limit cut (first ++ second) =
      sifted limit cut first ++ sifted limit (cut || decide (IsCut first)) second := by
  induction first generalizing cut with
  | nil => simp [IsCut]
  | cons a first ih =>
      have hcut : (cut || decide (IsCut (a :: first))) =
          (cut || decide (a.reason = .nestingTooDeep) || decide (IsCut first)) := by
        simp [is_cut_cons, Bool.or_assoc]
      rw [hcut, List.cons_append, sifted_cons, sifted_cons, ih]
      split <;> rfl

/-- Whether something was nested too deep can be told from what is left. -/
theorem is_cut_sifted : IsCut (sifted limit false anomalies) ↔ IsCut anomalies := by
  induction anomalies with
  | nil => rfl
  | cons a rest ih =>
      by_cases ha : a.reason = .nestingTooDeep
      · simp [sifted_cons, is_cut_cons, ha]
      · simp [sifted_cons, is_cut_cons, ha, ih]

/-- What was sifted by less may be sifted as if it were not. -/
theorem sifted_sifted {cut' : Bool} (h : cut' → cut) :
    sifted limit cut (sifted limit cut' anomalies) = sifted limit cut anomalies := by
  induction anomalies generalizing cut cut' with
  | nil => rfl
  | cons a rest ih =>
      have hrest : sifted limit (cut || a.reason = .nestingTooDeep)
          (sifted limit (cut' || a.reason = .nestingTooDeep) rest) =
          sifted limit (cut || a.reason = .nestingTooDeep) rest := ih (by grind)
      by_cases hleft : (cut' && isLimitNote limit a) = true
      · -- what is dropped for less is dropped for more
        obtain ⟨hcut', hnote⟩ := (Bool.and_eq_true _ _).mp hleft
        obtain rfl := h hcut'
        rw [sifted_cons, sifted_cons, if_pos hleft, hnote, hcut']
        exact ih fun _ => rfl
      · rw [sifted_cons limit cut', if_neg hleft, sifted_cons, hrest, sifted_cons]

/-- What is left was among the anomalies. -/
theorem mem_of_mem_sifted (h : a ∈ sifted limit cut anomalies) : a ∈ anomalies := by
  induction anomalies generalizing cut with
  | nil => exact h
  | cons b rest ih =>
      rw [sifted_cons] at h
      split at h
      · exact List.mem_cons_of_mem b (ih h)
      · exact (List.mem_cons.mp h).elim (fun heq => heq ▸ List.mem_cons_self)
          fun h => List.mem_cons_of_mem b (ih h)

/-- What is not the note of a limit is kept. -/
theorem sifted_singleton_of_not (h : isLimitNote limit a = false) :
    sifted limit cut [a] = [a] := by
  simp [sifted_cons, h]

/-- After anomalies that were sifted, the same was nested too deep as before sifting. -/
theorem is_cut_append_sifted {more : List Anomaly} :
    decide (IsCut (anomalies ++ sifted limit (decide (IsCut anomalies)) more)) =
      (decide (IsCut anomalies) || decide (IsCut more)) := by
  by_cases hcut : IsCut anomalies
  · simp [is_cut_append, hcut]
  · simp [is_cut_append, hcut, is_cut_sifted]

/-- The anomaly with the line of a tree. -/
def SyntaxContext.entry (ctx : SyntaxContext) (reason : Reason) (n : ParseTree) (detail : Text) :
    Anomaly :=
  ⟨reason, Text.ofString "line " ++ Text.ofNat ((ctx.point n.start).1 + 1) ++ Text.ofString ": " ++
    detail⟩

/-- A note is added after the anomalies so far. -/
theorem run_note (reason : Reason) (n : ParseTree) (detail : Text) (ctx : SyntaxContext)
    (anomalies : List Anomaly) :
    ((note reason n detail) ctx).run anomalies =
      (.ok (), anomalies ++ [ctx.entry reason n detail]) := rfl

/-- What is noted where the limit is reached is told by its detail. -/
theorem is_limit_note_entry (n : ParseTree) :
    isLimitNote limit (ctx.entry .nestingTooDeep n (nestingDetail limit)) := by
  have hstop : (ctx.entry .nestingTooDeep n (nestingDetail limit)).detail.endsWith
      (nestingDetail limit) := List.isSuffixOf_iff_suffix.mpr (List.suffix_append _ _)
  rw [isLimitNote, hstop]
  rfl

/-- A statement that is too deep is noted with another detail. -/
theorem is_limit_note_too_deep (n : ParseTree) :
    isLimitNote limit (ctx.entry .nestingTooDeep n SourceFile.tooDeepDetail) = false := by
  refine Bool.and_eq_false_iff.mpr (.inr (Bool.eq_false_iff.mpr fun h => ?_))
  -- the two details end in different letters, whatever the limit is
  obtain ⟨before, heq⟩ := List.isSuffixOf_iff_suffix.mp h
  have hlimit : (before ++ nestingDetail limit).getLast? = some 's'.toNat := by
    rw [nestingDetail, ← List.append_assoc, List.getLast?_append]
    rfl
  have hdeep : (ctx.entry .nestingTooDeep n SourceFile.tooDeepDetail).detail.getLast? =
      some 'd'.toNat := by
    rw [SyntaxContext.entry, List.getLast?_append]
    rfl
  rw [heq, hdeep] at hlimit
  cases hlimit

/-- The work comes out as it does when nothing was noted before. It notes the same, apart from the
limit that was noted before, and nothing about the parser. -/
structure Sifts (make : MakeSyntax α) : Prop where
  run : ∀ (ctx : SyntaxContext) (anomalies : List Anomaly), (make ctx).run anomalies =
    (((make ctx).run []).1,
      anomalies ++ sifted ctx.maxNesting (decide (IsCut anomalies)) ((make ctx).run []).2)
  reasons : ∀ (ctx : SyntaxContext), ∀ a ∈ ((make ctx).run []).2, a.reason ≠ .parseError

namespace Sifts

/-- Work that notes nothing. -/
theorem of_nothing (outcome : SyntaxContext → Except SyntaxStop α)
    (h : ∀ ctx anomalies, (make ctx).run anomalies = (outcome ctx, anomalies)) : Sifts make where
  run ctx anomalies := by rw [h, h ctx [], sifted_nil, List.append_nil]
  reasons ctx := by rw [h]; simp

/-- That an escape denotes nothing is noted whatever was noted before. -/
theorem invalid_escape (n : ParseTree) (detail : Text) : Sifts (note .invalidEscape n detail) where
  run ctx anomalies := by
    rw [run_note, run_note, List.nil_append, sifted_singleton_of_not]
    rfl
  reasons ctx := by
    rw [run_note, List.nil_append]
    exact List.forall_mem_singleton.mpr nofun

/-- Work that goes on sifts if each part of it does. -/
theorem bind {f : α → MakeSyntax β} (h : Sifts make) (hf : ∀ a, Sifts (f a)) :
    Sifts (make >>= f) where
  run ctx anomalies := by
    rw [run_bind, run_bind, h.run ctx anomalies]
    rcases (make ctx).run [] with ⟨stop | a, first⟩
    · rfl
    · dsimp only
      -- what the second part notes is sifted by what the first noted, sifted or not
      rw [(hf a).run ctx (_ ++ _), (hf a).run ctx first, is_cut_append_sifted, sifted_append,
        sifted_sifted (fun hfirst => Bool.or_eq_true_iff.mpr (.inr hfirst)), List.append_assoc]
  reasons ctx := by
    rw [run_bind]
    have hfirst := h.reasons ctx
    revert hfirst
    rcases (make ctx).run [] with ⟨stop | a, first⟩ <;> intro hfirst
    · exact hfirst
    · dsimp only at hfirst ⊢
      rw [(hf a).run ctx first]
      intro b hb
      rcases List.mem_append.mp hb with hb | hb
      · exact hfirst b hb
      · exact (hf a).reasons ctx b (mem_of_mem_sifted hb)

/-- Where the limit is reached, this is noted unless something was nested too deep before. -/
theorem guarded (n : ParseTree) (cut : Info → α) (h : Sifts make) :
    Sifts (guarded n cut make) where
  run ctx anomalies := by
    rw [run_guarded, run_guarded]
    by_cases hlimit : ctx.maxNesting ≤ ctx.nesting
    · rw [if_pos hlimit, if_pos hlimit, run_note, run_note, if_neg not_is_cut_nil]
      by_cases hcut : IsCut anomalies
      · simp [hcut, sifted_cons, is_limit_note_entry]
      · simp [hcut, sifted_cons]
    · rw [if_neg hlimit, if_neg hlimit]
      exact h.run { ctx with nesting := ctx.nesting + 1 } anomalies
  reasons ctx := by
    rw [run_guarded]
    by_cases hlimit : ctx.maxNesting ≤ ctx.nesting
    · rw [if_pos hlimit, if_neg not_is_cut_nil]
      exact List.forall_mem_singleton.mpr nofun
    · rw [if_neg hlimit]
      exact h.reasons { ctx with nesting := ctx.nesting + 1 }

end Sifts

/-- All work comes out as it does when nothing was noted before. -/
theorem IsWork.sifts {lacks : Prop} (h : IsWork lacks make) : Sifts make := by
  obtain ⟨⟨run, hrun⟩, -⟩ := h
  induction hrun with
  | pure a => exact .of_nothing (fun _ => .ok a) fun _ _ => rfl
  | throw stop => exact .of_nothing (fun _ => .error stop) fun _ _ => rfl
  | info n => exact .of_nothing (fun ctx => .ok { span := ctx.span n }) fun _ _ => rfl
  | textBetween start stop =>
      exact .of_nothing (fun ctx => .ok (Utf8.decode (ctx.slice start stop))) fun _ _ => rfl
  | invalidEscape n detail => exact .invalid_escape n detail
  | bind _ _ ih ihf => exact .bind ih ihf
  | guarded n cut _ ih => exact .guarded n cut ih

/-! ## Files -/

/-- The tree with one child alone. -/
def ParseTree.only (n c : ParseTree) : ParseTree :=
  .node n.type n.isNamed n.start n.stop n.field [c]

namespace SourceFile

variable {depth : Nat} {n : ParseTree}

/-- The anomalies of a file that are not about its parser. -/
def noted (file : SourceFile) : List Anomaly := file.anomalies.filter (·.reason ≠ .parseError)

/-- A statement is made as if nothing was noted before, and only the limit is noted once. -/
theorem statement_from_sifted (depth : Nat) (ctx : SyntaxContext) (anomalies : List Anomaly)
    (n : ParseTree) :
    statementFrom depth ctx anomalies n =
      (fun made => (made.1,
        anomalies ++ sifted ctx.maxNesting (decide (IsCut anomalies)) made.2)) <$>
          statementFrom depth ctx [] n := by
  have hwork := ((Makers.works_of_depth depth).statement n).sifts
  unfold statementFrom
  rw [hwork.run ctx anomalies]
  rcases ((Makers.ofDepth depth).statement n ctx).run [] with ⟨(_ | _) | statement, noted⟩
  · -- that the tree is too deep is noted in any case
    show Except.ok (_, anomalies ++ sifted ctx.maxNesting (decide (IsCut anomalies)) noted ++
      [ctx.entry .nestingTooDeep n tooDeepDetail]) = Except.ok (_, anomalies ++
        sifted ctx.maxNesting (decide (IsCut anomalies))
          (noted ++ [ctx.entry .nestingTooDeep n tooDeepDetail]))
    rw [sifted_append, sifted_singleton_of_not (is_limit_note_too_deep n), List.append_assoc]
  · rfl
  · rfl

/-- Nothing is noted about the parser. -/
theorem statement_from_reasons {statement : Option Node} {noted : List Anomaly}
    (h : statementFrom depth ctx [] n = .ok (statement, noted)) :
    ∀ a ∈ noted, a.reason ≠ .parseError := by
  have hreasons := ((Makers.works_of_depth depth).statement n).sifts.reasons ctx
  revert hreasons
  unfold statementFrom at h
  split at h
  · next hrun =>
      rw [hrun]
      cases h
      exact id
  · next hrun =>
      rw [hrun]
      rw [run_note] at h
      cases h
      exact fun hreasons => List.forall_mem_append.mpr
        ⟨hreasons, List.forall_mem_singleton.mpr nofun⟩
  · cases h

/-- What is left of the anomalies of a file without what is noted of its parser. -/
theorem filter_parse_error {rest : List Anomaly} (h : ∀ a ∈ rest, a.reason ≠ .parseError)
    (hasError : Bool) : ((if hasError then [parseError] else []) ++ rest).filter
      (fun a => a.reason ≠ .parseError) = rest := by
  have hkept : rest.filter (fun a => a.reason ≠ .parseError) = rest :=
    List.filter_eq_self.mpr fun a ha => decide_eq_true (h a ha)
  rw [List.filter_append, hkept]
  cases hasError <;> rfl

variable (source : List UInt8) (fileName : Text) (maxNesting : Int) (tree : ParseTree)

/-- A tree with one child alone is a file with what is made of that child, which is nothing for a
child that means nothing. -/
theorem of_parsed_only (c : ParseTree) (hasError : Bool) :
    ofParsed source fileName maxNesting ⟨tree.only c, hasError⟩ =
      (fun made => {
        fileName := fileName
        statements := made.1.toList
        span := some (SyntaxContext.span { source := source, maxNesting := maxNesting }
          (tree.only c))
        anomalies := (if hasError then [parseError] else []) ++ made.2 }) <$>
        if c.isNamed && !c.isSkipped then
          statementFrom depthLimit { source := source, maxNesting := maxNesting } [] c
        else .ok (none, []) := by
  by_cases hmeans : (c.isNamed && !c.isSkipped) = true
  · have hnamed : (tree.only c).named = [c] := List.filter_cons_of_pos hmeans
    rw [ofParsed, hnamed, if_pos hmeans]
    simp only [statementsFrom]
    rcases statementFrom depthLimit { source := source, maxNesting := maxNesting } [] c with
      stop | ⟨statement, noted⟩
    · rfl
    · simp [bind, Except.bind, pure, Except.pure, Functor.map, Except.map]
  · have hnamed : (tree.only c).named = [] := List.filter_cons_of_neg hmeans
    rw [ofParsed, hnamed, if_neg hmeans]
    rfl

/-- Of some children, what is made is what is made of each of them alone. -/
theorem statements_from_apart (errors : ParseTree → Bool) (children : List ParseTree)
    (anomalies : List Anomaly) :
    statementsFrom depthLimit { source := source, maxNesting := maxNesting } anomalies
        (children.filter fun c => c.isNamed && !c.isSkipped) = do
      let files ← children.mapM fun c =>
        ofParsed source fileName maxNesting ⟨tree.only c, errors c⟩
      return (files.flatMap (·.statements),
        anomalies ++ sifted maxNesting (decide (IsCut anomalies)) (files.flatMap noted)) := by
  induction children generalizing anomalies with
  | nil =>
      show Except.ok _ = Except.ok ([], anomalies ++ [])
      rw [List.append_nil]
  | cons c rest ih =>
      rw [List.mapM_cons, of_parsed_only]
      by_cases hmeans : (c.isNamed && !c.isSkipped) = true
      · rw [List.filter_cons_of_pos (p := fun c : ParseTree => c.isNamed && !c.isSkipped) hmeans,
          if_pos hmeans, statementsFrom, statement_from_sifted]
        cases hmade : statementFrom depthLimit { source := source, maxNesting := maxNesting } [] c
          with
        | error stop => rfl
        | ok made =>
            show (do
              let later ← statementsFrom depthLimit _ _ (rest.filter _)
              return (made.1.toList ++ later.1, later.2)) = _
            rw [ih]
            cases rest.mapM fun c =>
                ofParsed source fileName maxNesting ⟨tree.only c, errors c⟩ with
            | error stop => rfl
            | ok files =>
                have hnoted := filter_parse_error (statement_from_reasons hmade) (errors c)
                show Except.ok _ = Except.ok (_, anomalies ++ sifted maxNesting _
                  (((if errors c then [parseError] else []) ++ made.2).filter
                    (fun a => a.reason ≠ .parseError) ++ files.flatMap noted))
                rw [hnoted, sifted_append, ← List.append_assoc, ← is_cut_append_sifted]
                rfl
      · rw [List.filter_cons_of_neg (p := fun c : ParseTree => c.isNamed && !c.isSkipped) hmeans,
          if_neg hmeans, ih]
        cases rest.mapM fun c =>
            ofParsed source fileName maxNesting ⟨tree.only c, errors c⟩ with
        | error stop => rfl
        | ok files =>
            have hnoted := filter_parse_error (List.forall_mem_nil _) (errors c)
            show Except.ok _ = Except.ok (_, anomalies ++ sifted maxNesting _
              (((if errors c then [parseError] else []) ++ []).filter
                (fun a : Anomaly => a.reason ≠ Reason.parseError) ++ files.flatMap noted))
            rw [hnoted]
            rfl

/-- The statements of a file are those of the files with one of its children each, in order, and if
one of these cannot be made, neither can the file. So are its anomalies, but for those of the limit
before which something was nested too deep. Whatever work with a counter follows the steps of making
the statements, it finds the counter at zero before each of them, and makes the same. -/
theorem statements_apart (source : List UInt8) (fileName : Text) (maxNesting : Int)
    (parsed : ParsedSource) (errors : ParseTree → Bool) :
    let ctx : SyntaxContext := { source := source, maxNesting := maxNesting }
    (ofParsed source fileName maxNesting parsed = do
      let files ← parsed.tree.children.mapM fun c =>
        ofParsed source fileName maxNesting ⟨parsed.tree.only c, errors c⟩
      return {
        fileName := fileName
        statements := files.flatMap (·.statements)
        span := some (ctx.span parsed.tree)
        anomalies := (if parsed.hasError then [parseError] else []) ++
          sifted maxNesting false (files.flatMap noted) }) ∧
    (∃ runs : ParseTree → Counting (Option Node),
      ∀ n, Follows ((Makers.ofDepth depthLimit).statement n) (runs n)) ∧
    ∀ runs : ParseTree → Counting (Option Node),
      (∀ n, Follows ((Makers.ofDepth depthLimit).statement n) (runs n)) →
      ∀ before, before <+: parsed.tree.named → ∃ outcome anomalies,
        (Counting.statements runs before).outcome ctx {} =
          (outcome, { nesting := 0, anomalies := anomalies }) ∧
        statementsFrom depthLimit ctx [] before =
          (fun statements => (statements, anomalies)) <$> outcome := by
  intro ctx
  have hworks := Makers.works_of_depth depthLimit
  refine ⟨?_, Classical.axiomOfChoice fun n => (hworks.statement n).steps,
    fun runs hruns before _ => Counting.outcome_statements hruns before rfl []⟩
  have hnamed : parsed.tree.named = parsed.tree.children.filter fun c =>
    c.isNamed && !c.isSkipped := rfl
  rw [ofParsed, hnamed, statements_from_apart source fileName maxNesting parsed.tree errors]
  cases parsed.tree.children.mapM fun c =>
      ofParsed source fileName maxNesting ⟨parsed.tree.only c, errors c⟩ with
  | error stop => rfl
  | ok files => rfl

end SourceFile

end StaticLiteral
