import StaticLiteral.Proofs.Depth
import StaticLiteral.Proofs.ParseTree.Making
import StaticLiteral.Proofs.ParseTree.Works

/-!
# The limit on nesting

Work on trees that are nested too deep is cut off at a limit, which is noted. `Unseen make` says
that this is the only trace of the limit: work that goes its way without such a note ends in the
same way, with the same anomalies, under every greater limit. All ways to make syntax are like this
(`IsWork.unseen`), so a file without such a note is the same under every greater limit:
`SourceFile.limit_unseen`.
-/

namespace StaticLiteral

open MakeSyntax

/-- The setting under another limit. -/
def SyntaxContext.under (ctx : SyntaxContext) (limit : Int) : SyntaxContext :=
  { ctx with maxNesting := limit }

variable {α β : Type} {make : MakeSyntax α}

/-- The limit is seen in nothing but the note that it was reached. -/
structure Unseen (make : MakeSyntax α) : Prop where
  keeps : ∀ ctx anomalies, IsCut anomalies → IsCut ((make ctx).run anomalies).2
  same : ∀ (ctx : SyntaxContext) (limit : Int) (anomalies : List Anomaly),
    ctx.maxNesting ≤ limit → ((make ctx).run anomalies).1 ≠ .error .tooDeep →
    ¬ IsCut ((make ctx).run anomalies).2 →
    (make (ctx.under limit)).run anomalies = (make ctx).run anomalies

/-- What is noted at the limit tells that something was nested too deep. -/
theorem is_cut_note (n : ParseTree) (detail : Text) (ctx : SyntaxContext)
    (anomalies : List Anomaly) :
    IsCut (((note .nestingTooDeep n detail) ctx).run anomalies).2 :=
  ⟨_, List.mem_append_right anomalies (List.mem_singleton_self _), rfl⟩

namespace Unseen

/-- What is there already does not depend on the limit. -/
theorem pure (a : α) : Unseen (Pure.pure a : MakeSyntax α) where
  keeps _ _ h := h
  same _ _ _ _ _ _ := rfl

/-- That work stops does not depend on the limit. -/
theorem throw (stop : SyntaxStop) : Unseen (MonadExcept.throw stop : MakeSyntax α) where
  keeps _ _ h := h
  same _ _ _ _ _ _ := rfl

/-- Work that goes on with what was made before. -/
theorem bind {f : α → MakeSyntax β} (h : Unseen make) (hf : ∀ a, Unseen (f a)) :
    Unseen (make >>= f) where
  keeps ctx anomalies hcut := by
    rw [run_bind]
    have hmake := h.keeps ctx anomalies hcut
    rcases hrun : (make ctx).run anomalies with ⟨stop | a, rest⟩ <;> rw [hrun] at hmake
    · exact hmake
    · exact (hf a).keeps ctx rest hmake
  same ctx limit anomalies hle := by
    rw [run_bind, run_bind]
    intro hstop hcut
    have hmake := h.same ctx limit anomalies hle
    rcases hrun : (make ctx).run anomalies with ⟨stop | a, rest⟩
    · rw [hrun] at hmake hstop hcut
      rw [hmake (fun heq => hstop (by cases heq; rfl)) hcut]
    · rw [hrun] at hmake hstop hcut
      rw [hmake nofun fun hrest => hcut ((hf a).keeps ctx rest hrest)]
      exact (hf a).same ctx limit rest hle hstop hcut

/-- The place of a tree does not depend on the limit. -/
theorem info (n : ParseTree) : Unseen (info n) where
  keeps _ _ h := h
  same _ _ _ _ _ _ := rfl

/-- The text of a tree does not depend on the limit. -/
theorem text_between (start : Nat) (stop : Int) : Unseen (textBetween start stop) where
  keeps _ _ h := h
  same _ _ _ _ _ _ := rfl

/-- That an escape denotes nothing is noted under every limit alike. -/
theorem invalid_escape (n : ParseTree) (detail : Text) : Unseen (note .invalidEscape n detail) where
  keeps _ _ h := h.append _
  same _ _ _ _ _ _ := rfl

/-- Where the limit is reached, this is noted; elsewhere a greater limit is not reached either. -/
theorem guarded (n : ParseTree) (cut : Info → α) (h : Unseen make) :
    Unseen (guarded n cut make) where
  keeps ctx anomalies hcut := by
    rw [run_guarded, if_pos hcut]
    split
    · exact hcut
    · exact h.keeps _ anomalies hcut
  same ctx limit anomalies hle := by
    rw [run_guarded, run_guarded]
    by_cases hlimit : ctx.maxNesting ≤ ctx.nesting
    · rw [if_pos hlimit]
      intro _ hcut
      refine absurd ?_ hcut
      dsimp only
      split
      · assumption
      · exact is_cut_note n _ ctx anomalies
    · have hunder : ¬ (ctx.under limit).maxNesting ≤ (ctx.under limit).nesting := fun h =>
        hlimit (Int.le_trans hle h)
      rw [if_neg hlimit, if_neg hunder]
      exact h.same { ctx with nesting := ctx.nesting + 1 } limit anomalies hle

end Unseen

/-- No step of making syntax sees the limit in anything else. -/
theorem IsWork.unseen {lacks : Prop} (h : IsWork lacks make) : Unseen make := by
  obtain ⟨⟨run, hrun⟩, -⟩ := h
  induction hrun with
  | pure a => exact .pure a
  | throw stop => exact .throw stop
  | info n => exact .info n
  | textBetween start stop => exact .text_between start stop
  | invalidEscape n detail => exact .invalid_escape n detail
  | bind _ _ ih ihf => exact .bind ih ihf
  | guarded n cut _ ih => exact .guarded n cut ih

namespace SourceFile

variable {depth : Nat} {ctx : SyntaxContext} {anomalies rest : List Anomaly}

/-- That something was nested too deep stays noted, and without such a note a statement is the same
under every greater limit. -/
theorem statement_from_unseen (limit : Int) {tree : ParseTree} {statement : Option Node}
    (h : statementFrom depth ctx anomalies tree = .ok (statement, rest)) :
    (IsCut anomalies → IsCut rest) ∧ (ctx.maxNesting ≤ limit → ¬ IsCut rest →
      statementFrom depth (ctx.under limit) anomalies tree = .ok (statement, rest)) := by
  have hunseen := ((Makers.works_of_depth depth).statement tree).unseen
  have hkeeps := hunseen.keeps ctx anomalies
  have hsame := hunseen.same ctx limit anomalies
  unfold statementFrom at h ⊢
  split at h
  · next hrun =>
      obtain ⟨rfl, rfl⟩ := Prod.mk.inj (Except.ok.inj h)
      rw [hrun] at hkeeps hsame
      exact ⟨hkeeps, fun hle hcut => by rw [hsame hle nofun hcut]⟩
  · next hrun =>
      -- the note of a tree that is too deep is one of the notes that tell of a cut
      obtain ⟨-, rfl⟩ := Prod.mk.inj (Except.ok.inj h)
      have hcut := is_cut_note tree tooDeepDetail ctx ‹List Anomaly›
      exact ⟨fun _ => hcut, fun _ hnone => absurd hcut hnone⟩
  · cases h

/-- The same holds of all statements. -/
theorem statements_from_unseen (limit : Int) {trees : List ParseTree} {statements : List Node}
    (h : statementsFrom depth ctx anomalies trees = .ok (statements, rest)) :
    (IsCut anomalies → IsCut rest) ∧ (ctx.maxNesting ≤ limit → ¬ IsCut rest →
      statementsFrom depth (ctx.under limit) anomalies trees = .ok (statements, rest)) := by
  induction trees generalizing anomalies statements with
  | nil =>
      obtain ⟨rfl, rfl⟩ := Prod.mk.inj (Except.ok.inj h)
      exact ⟨fun h => h, fun _ _ => rfl⟩
  | cons tree trees ih =>
      obtain ⟨⟨statement, noted⟩, hstatement, h⟩ := bind_eq_ok_iff.mp h
      obtain ⟨⟨following, last⟩, hfollowing, h⟩ := bind_eq_ok_iff.mp h
      obtain ⟨rfl, rfl⟩ := Prod.mk.inj (Except.ok.inj h)
      obtain ⟨hkeeps, hsame⟩ := statement_from_unseen limit hstatement
      obtain ⟨hkeepsAll, hsameAll⟩ := ih hfollowing
      refine ⟨fun hcut => hkeepsAll (hkeeps hcut), fun hle hnone => ?_⟩
      refine bind_eq_ok_iff.mpr ⟨_, hsame hle fun hcut => hnone (hkeepsAll hcut), ?_⟩
      exact bind_eq_ok_iff.mpr ⟨_, hsameAll hle hnone, rfl⟩

/-- Statements among which nothing was nested too deep make the same file under every greater
limit. -/
theorem of_parsed_unseen {bytes : List UInt8} {fileName : Text} {parsed : ParsedSource}
    {file : SourceFile} {limit limit' : Int} (hle : limit ≤ limit')
    (h : ofParsed bytes fileName limit parsed = .ok file) (hnone : ¬ IsCut file.anomalies) :
    ofParsed bytes fileName limit' parsed = .ok file := by
  obtain ⟨⟨statements, anomalies⟩, hstatements, h⟩ := bind_eq_ok_iff.mp h
  obtain rfl := Except.ok.inj h
  have huncut : ¬ IsCut anomalies := fun ⟨a, ha, hreason⟩ =>
    hnone ⟨a, List.mem_append_right _ ha, hreason⟩
  obtain ⟨-, hsame⟩ := statements_from_unseen limit' hstatements
  exact bind_eq_ok_iff.mpr ⟨_, hsame hle huncut, rfl⟩

/-- What was parsed is a file if there is a grammar for its dialect. -/
theorem parsed_of_dialect_iff {dialect : Text} {made : Except SyntaxStop SourceFile}
    {file : SourceFile} :
    (if isKnownDialect dialect then
        match made with
        | .ok file => (.ok file : Except SourceFault SourceFile)
        | .error stop => .error (.stopped stop)
      else .error (.unsupportedDialect dialect)) = .ok file ↔
      isKnownDialect dialect ∧ made = .ok file := by
  by_cases hknown : isKnownDialect dialect <;> cases made <;> simp [hknown]

/-- A text of whose file nothing was nested too deep is the same file, with the same statements,
spans and anomalies, under every greater limit. -/
theorem limit_unseen {config : Config} {limit : Int} {fileName text : Text} {dialect : Option Text}
    {parsed : ParsedSource} {file : SourceFile} (hle : config.maxNestingDepth ≤ limit)
    (h : ofText config fileName text dialect parsed = .ok file)
    (hnone : ∀ a ∈ file.anomalies, a.reason ≠ .nestingTooDeep) :
    ofText { config with maxNestingDepth := limit } fileName text dialect parsed = .ok file := by
  have huncut : ¬ IsCut file.anomalies := fun ⟨a, ha, hreason⟩ => hnone a ha hreason
  unfold ofText at h ⊢
  by_cases hencodable : !Utf8.isEncodable text
  · simp only [if_pos hencodable, reduceCtorEq] at h
  · simp only [if_neg hencodable] at h ⊢
    rcases dialect with _ | _ | ⟨c, rest⟩ <;>
      obtain ⟨hknown, hparsed⟩ := parsed_of_dialect_iff.mp h <;>
      exact parsed_of_dialect_iff.mpr ⟨hknown, of_parsed_unseen hle hparsed huncut⟩

/-- A name is nested as deep as the least of the limits allows. -/
theorem limit_unseen_of_name :
    let name := ParseTree.node "identifier" true 0 1 none []
    let tree := ParseTree.node "program" true 0 1 none
      [.node "expression_statement" true 0 1 none [name]]
    ∃ file, ofText { maxNestingDepth := 2 } (Text.ofString "a.ts") (Text.ofString "a") none
        ⟨tree, false⟩ = .ok file ∧
      (∀ a ∈ file.anomalies, a.reason ≠ .nestingTooDeep) ∧
      ofText { maxNestingDepth := 100 } (Text.ofString "a.ts") (Text.ofString "a") none
        ⟨tree, false⟩ = .ok file := by
  intro name tree
  obtain ⟨file, hfile, hnone⟩ : ∃ file, ofText { maxNestingDepth := 2 } (Text.ofString "a.ts")
      (Text.ofString "a") none ⟨tree, false⟩ = .ok file ∧
      ∀ a ∈ file.anomalies, a.reason ≠ .nestingTooDeep :=
    exists_ok_of_any (by decide +kernel)
  exact ⟨file, hfile, hnone, @limit_unseen _ 100 _ _ _ _ _ (by decide) hfile hnone⟩

end SourceFile

end StaticLiteral
