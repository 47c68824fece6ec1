import StaticLiteral.Proofs.Cooked
import StaticLiteral.Proofs.Depth
import StaticLiteral.Proofs.ParseTree.Making

/-!
# Templates made from parse trees

The text of a template is what stands between its substitutions: `ParseTree.chunks` slices it out of
the source. `template_texts` says that the template that is made has these texts decoded, one for
each, and `template_cooked_iff` when they are what the language says they mean.
-/

namespace StaticLiteral

open MakeSyntax

namespace ParseTree

/-- The substitutions of a template. -/
def substitutions (n : ParseTree) : List ParseTree :=
  n.children.filter (·.type == "template_substitution")

/-- The text from a place in a template up to a substitution, and so on behind it; the last one
reaches up to the end mark. -/
def chunksFrom (ctx : SyntaxContext) (n : ParseTree) (start : Nat) : List ParseTree → List Text
  | [] => [Utf8.decode (ctx.slice start ((n.stop : Int) - 1))]
  | sub :: rest => Utf8.decode (ctx.slice start sub.start) :: chunksFrom ctx n sub.stop rest

/-- The texts between the marks of a template and its substitutions. -/
def chunks (ctx : SyntaxContext) (n : ParseTree) : List Text :=
  n.chunksFrom ctx (n.start + 1) n.substitutions

end ParseTree

namespace Node

/-- The text behind a substitution. -/
def textBehind? : Node → Option Text
  | templateSpan _ _ literal => some literal
  | _ => none

/-- The texts of a template, without substitutions or with some. -/
def templateTexts? : Node → Option (List Text)
  | templateLiteral _ text => some [text]
  | templateExpression _ head (span :: spans) =>
    some (head :: (span :: spans).filterMap textBehind?)
  | _ => none

end Node

/-- Each of the texts is what one of the others is decoded to. -/
def Decoded (raws texts : List Text) : Prop :=
  List.Forall₂ (fun raw text => Escape.decode raw = .ok text) raws texts

variable {α β : Type} {ctx : SyntaxContext} {P : α → Prop} {Q : β → Prop} {E : SyntaxStop → Prop}
  {n sub : ParseTree} {subs rest : List ParseTree}

/-! ## What is made in one setting -/

/-- In the setting, whatever is made has the first property, and if the work stops, the reason has
the second. -/
def Yields (ctx : SyntaxContext) (P : α → Prop) (E : SyntaxStop → Prop) (make : MakeSyntax α) :
    Prop :=
  ∀ anomalies, match (make ctx).run anomalies with
    | (.ok a, _) => P a
    | (.error stop, _) => E stop

namespace Yields

/-- What is there already has its properties. -/
theorem pure {a : α} (h : P a) : Yields ctx P E (Pure.pure a) := fun _ => h

/-- Work that goes on with what was made before. -/
theorem bind {make : MakeSyntax α} {f : α → MakeSyntax β} (h : Yields ctx P E make)
    (hf : ∀ a, P a → Yields ctx Q E (f a)) : Yields ctx Q E (make >>= f) := by
  intro anomalies
  have hmake := h anomalies
  rw [run_bind]
  obtain ⟨made, rest, hrun⟩ : ∃ made rest, (make ctx).run anomalies = (made, rest) := ⟨_, _, rfl⟩
  rw [hrun] at hmake ⊢
  cases made with
  | ok a => exact hf a hmake rest
  | error stop => exact hmake

/-- What is weaker holds too. -/
theorem mono {P' : α → Prop} {make : MakeSyntax α} (h : Yields ctx P E make)
    (himp : ∀ a, P a → P' a) : Yields ctx P' E make := by
  intro anomalies
  have hmake := h anomalies
  split at hmake
  case h_1 a _ _ => exact himp a hmake
  case h_2 => exact hmake

/-- What a node carries is always made. -/
theorem info (n : ParseTree) : Yields ctx (fun _ => True) E (info n) := fun _ => trivial

/-- A slice of the source is its text. -/
theorem text_between (start : Nat) (stop : Int) :
    Yields ctx (· = Utf8.decode (ctx.slice start stop)) E (textBetween start stop) := fun _ => rfl

/-- What can be decoded is decoded. -/
theorem decoded {raw text : Text} (h : Escape.decode raw = .ok text) (n : ParseTree) :
    Yields ctx (· = some text) E (decoded? raw n) := by
  unfold decoded?
  rw [h]
  exact .pure rfl

end Yields

/-! ## Substitutions -/

namespace MakeSyntax.Makers

variable {m : Makers}

/-- Work stops because one of the substitutions has no expression. -/
def StopsIn (m : Makers) (ctx : SyntaxContext) (subs : List ParseTree) (stop : SyntaxStop) : Prop :=
  ∃ sub ∈ subs, ∃ before after,
    (m.expressionOrMissing sub.firstNamed? ctx).run before = (.error stop, after)

/-- The expression of a substitution is made, or work stops there. -/
theorem yields_expression (hsub : sub ∈ subs) :
    Yields ctx (fun _ => True) (m.StopsIn ctx subs) (m.expressionOrMissing sub.firstNamed?) := by
  intro anomalies
  split
  case h_1 => trivial
  case h_2 stop after hrun => exact ⟨sub, hsub, anomalies, after, hrun⟩

/-- A substitution is made with the text behind it decoded, in front of the other substitutions. -/
theorem yields_span (stop : Int) (R : List Text → Prop) {literal : Text} (hsub : sub ∈ subs)
    (hstop : stop = match rest with
      | following :: _ => (following.start : Int)
      | [] => (n.stop : Int) - 1)
    (hdecode : Escape.decode (Utf8.decode (ctx.slice sub.stop stop)) = .ok literal)
    (hrest : Yields ctx (fun spans => ∃ es, spans = some es ∧ R (es.filterMap Node.textBehind?))
      (m.StopsIn ctx subs) (m.templateSpans n true rest)) :
    Yields ctx (fun spans => ∃ e es, spans = some (e :: es) ∧
        ∃ texts, (e :: es).filterMap Node.textBehind? = literal :: texts ∧ R texts)
      (m.StopsIn ctx subs) (m.templateSpans n true (sub :: rest)) := by
  unfold templateSpans
  subst hstop
  refine .bind (.text_between _ _) fun raw hraw => ?_
  subst hraw
  refine .bind (.decoded hdecode n) fun found hfound => ?_
  subst hfound
  refine .bind (yields_expression hsub) fun e _ => .bind (.info sub) fun i _ => ?_
  refine .bind hrest fun spans hspans => .pure ?_
  obtain ⟨es, rfl, htexts⟩ := hspans
  exact ⟨_, es, rfl, _, rfl, htexts⟩

/-- The substitutions are made with the texts behind them decoded. -/
theorem yields_spans (hsubs : ∀ s ∈ sub :: rest, s ∈ subs)
    (h : ∀ raw ∈ n.chunksFrom ctx sub.stop rest, ∃ text, Escape.decode raw = .ok text) :
    Yields ctx (fun spans => ∃ e es, spans = some (e :: es) ∧
        Decoded (n.chunksFrom ctx sub.stop rest) ((e :: es).filterMap Node.textBehind?))
      (m.StopsIn ctx subs) (m.templateSpans n true (sub :: rest)) := by
  induction rest generalizing sub with
  | nil =>
      rw [ParseTree.chunksFrom] at h ⊢
      obtain ⟨literal, hliteral⟩ := List.forall_mem_singleton.mp h
      have hnone : Yields ctx
          (fun spans => ∃ es, spans = some es ∧ es.filterMap Node.textBehind? = [])
          (m.StopsIn ctx subs) (m.templateSpans n true []) := .pure ⟨[], rfl, rfl⟩
      refine (yields_span ((n.stop : Int) - 1) (· = []) (hsubs sub (by simp)) rfl hliteral
        hnone).mono ?_
      rintro spans ⟨e, es, rfl, texts, htexts, rfl⟩
      refine ⟨e, es, rfl, ?_⟩
      rw [htexts]
      exact .cons hliteral .nil
  | cons following rest ih =>
      rw [ParseTree.chunksFrom] at h ⊢
      obtain ⟨⟨literal, hliteral⟩, hothers⟩ := List.forall_mem_cons.mp h
      have hrest : Yields ctx (fun spans => ∃ es, spans = some es ∧
          Decoded (n.chunksFrom ctx following.stop rest) (es.filterMap Node.textBehind?))
          (m.StopsIn ctx subs) (m.templateSpans n true (following :: rest)) := by
        refine (ih (fun s hs => hsubs s (List.mem_cons_of_mem _ hs)) hothers).mono ?_
        rintro spans ⟨e, es, rfl, htexts⟩
        exact ⟨e :: es, rfl, htexts⟩
      refine (yields_span following.start (Decoded (n.chunksFrom ctx following.stop rest))
        (hsubs sub (by simp)) rfl hliteral hrest).mono ?_
      rintro spans ⟨e, es, rfl, texts, htexts, hdecoded⟩
      refine ⟨e, es, rfl, ?_⟩
      rw [htexts]
      exact .cons hliteral hdecoded

/-- A template is made with its texts decoded, if all of them can be; work stops only where an
expression is not made. -/
theorem yields_template
    (h : ∀ raw ∈ n.chunks ctx, ∃ text, Escape.decode raw = .ok text) :
    Yields ctx (fun node => ∃ texts, node.templateTexts? = some texts ∧
        Decoded (n.chunks ctx) texts)
      (m.StopsIn ctx n.substitutions) (m.template n) := by
  unfold template
  rw [ParseTree.chunks] at h ⊢
  split
  case h_1 hnone =>
    have hnone : n.substitutions = [] := hnone
    rw [hnone] at h ⊢
    obtain ⟨text, htext⟩ := List.forall_mem_singleton.mp h
    refine .bind (.text_between _ _) fun raw hraw => ?_
    subst hraw
    refine .bind (.decoded htext n) fun found hfound => ?_
    subst hfound
    exact .bind (.info n) fun i _ => .pure ⟨[text], rfl, .cons htext .nil⟩
  case h_2 first rest hsome =>
    have hsome : n.substitutions = first :: rest := hsome
    rw [hsome] at h ⊢
    obtain ⟨⟨head, hhead⟩, hothers⟩ := List.forall_mem_cons.mp h
    refine .bind (.text_between _ _) fun raw hraw => ?_
    subst hraw
    refine .bind (.decoded hhead n) fun found hfound => ?_
    subst hfound
    refine .bind (yields_spans (fun s hs => hs) hothers) fun spans hspans => ?_
    obtain ⟨e, es, rfl, htexts⟩ := hspans
    exact .bind (.info n) fun i _ => .pure ⟨_, rfl, .cons hhead htexts⟩

/-- The texts of a template whose escapes are all allowed are what the language says they mean but
for the ends of lines in them, which are kept as they are written: a text means what it should
exactly if no carriage return stands in it without a backslash before it. Work stops only where the
expression of a substitution is not made. -/
theorem template_cooked_iff (m : Makers) (ctx : SyntaxContext) (n : ParseTree)
    (anomalies : List Anomaly)
    (h : ∀ raw ∈ n.chunks ctx, ∃ cooked, Escape.Cooked false raw cooked) :
    (∀ stop rest, (m.template n ctx).run anomalies = (.error stop, rest) →
      m.StopsIn ctx n.substitutions stop) ∧
    ∀ node rest, (m.template n ctx).run anomalies = (.ok node, rest) →
      ∃ texts, node.templateTexts? = some texts ∧
        List.Forall₂ (fun raw text =>
          (∃ units, Escape.Cooked true raw units ∧ text = Text.pairSurrogates units) ∧
          ∀ cooked, Escape.Cooked false raw cooked →
            (text = Text.pairSurrogates cooked ↔ Escape.bareReturns raw = 0))
          (n.chunks ctx) texts := by
  have hdecode : ∀ raw ∈ n.chunks ctx, ∃ text, Escape.decode raw = .ok text := by
    intro raw hraw
    obtain ⟨cooked, hcooked⟩ := h raw hraw
    obtain ⟨units, _, hdecode, _⟩ := Escape.decode_of_cooked hcooked
    exact ⟨_, hdecode⟩
  have hrun := yields_template (m := m) hdecode anomalies
  constructor
  · intro stop rest hstop
    rw [hstop] at hrun
    exact hrun
  · intro node rest hnode
    rw [hnode] at hrun
    obtain ⟨texts, htexts, hdecoded⟩ := hrun
    refine ⟨texts, htexts, ((List.forall₂_and_left _ _).mpr ⟨h, hdecoded⟩).imp ?_⟩
    rintro raw text ⟨⟨cooked, hcooked⟩, htext⟩
    constructor
    · obtain ⟨units, hunits, hraw, -⟩ := Escape.decode_of_cooked hcooked
      exact ⟨units, hunits, Except.ok.inj (htext.symm.trans hraw)⟩
    · intro meant hmeant
      obtain ⟨units, -, hraw, hiff⟩ := Escape.decode_of_cooked hmeant
      obtain rfl := Except.ok.inj (htext.symm.trans hraw)
      exact hiff

/-- The law at a template with an escape, a substitution and a line that goes on. -/
theorem template_cooked_iff_continuation :
    let source := Utf8.encode (Text.ofString "\x60\\x41$\x7bx\x7d\\\r\n\x60")
    let ctx : SyntaxContext := { source := source, maxNesting := 10 }
    let n := ParseTree.node "template_string" true 0 13 none
      [.node "template_substitution" true 5 9 none [.node "identifier" true 7 8 none []]]
    n.chunks ctx = [Text.ofString "\\x41", Text.ofString "\\\r\n"] ∧
      ∃ node rest, ((ofDepth 3).template n ctx).run [] = (.ok node, rest) ∧
        node.templateTexts? = some [Text.ofString "A", []] := by
  intro source ctx n
  have hchunks : n.chunks ctx = [Text.ofString "\\x41", Text.ofString "\\\r\n"] := by
    decide +kernel
  have hescape : Escape.Cooked false (Text.ofString "\\x41") (Text.ofString "A") :=
    .cons (.byte ⟨4, false⟩ ⟨1, false⟩) .nil
  have hcontinuation : Escape.Cooked false (Text.ofString "\\\r\n") [] :=
    .cons .longContinuation .nil
  have hvalid : ∀ raw ∈ n.chunks ctx, ∃ cooked, Escape.Cooked false raw cooked := by
    rw [hchunks]
    exact List.forall_mem_cons.mpr
      ⟨⟨_, hescape⟩, List.forall_mem_singleton.mpr ⟨_, hcontinuation⟩⟩
  have hmade : (((ofDepth 3).template n ctx).run []).1.toOption.isSome := by decide +kernel
  refine ⟨hchunks, ?_⟩
  have hlaw := template_cooked_iff (ofDepth 3) ctx n [] hvalid
  revert hmade hlaw
  rcases ((ofDepth 3).template n ctx).run [] with ⟨_ | node, rest⟩
  · simp [Except.toOption]
  · rintro - ⟨-, hlaw⟩
    obtain ⟨texts, htexts, hmeant⟩ := hlaw node rest rfl
    rw [hchunks] at hmeant
    cases hmeant with
    | cons hfirst hrest =>
        cases hrest with
        | cons hsecond hnone =>
            cases hnone
            obtain rfl := (hfirst.2 _ hescape).mpr (by decide)
            obtain rfl := (hsecond.2 _ hcontinuation).mpr (by decide)
            exact ⟨node, rest, rfl, htexts⟩

/-- The end of a line in a template is kept as it is written, though it means a line feed. -/
theorem line_break_kept :
    let source := Utf8.encode (Text.ofString "\x60a\r\nb\x60")
    let tree := ParseTree.node "program" true 0 6 none
      [.node "expression_statement" true 0 6 none
        [.node "template_string" true 0 6 none [.node "string_fragment" true 1 5 none []]]]
    let texts (file : SourceFile) := file.statements.map fun statement =>
      match statement with
      | .expressionStatement _ e => e.templateTexts?
      | _ => none
    Escape.Cooked false (Text.ofString "a\r\nb") (Text.ofString "a\nb") ∧
      ∃ file, SourceFile.ofParsed source (Text.ofString "a.ts") 100 ⟨tree, false⟩ = .ok file ∧
        texts file = [some [Text.ofString "a\r\nb"]] := by
  intro source tree texts
  refine ⟨?_, exists_ok_of_any (by decide +kernel)⟩
  exact .cons (.character (c := 'a'.toNat) (by decide) (by decide)) <|
    .cons .lineBreak <| .cons (.character (c := 'b'.toNat) (by decide) (by decide)) .nil

end MakeSyntax.Makers

end StaticLiteral
