import UtilityCss.Proofs.CustomTexts

/-!
# Two readers of one text

Two readers that have gone over different texts may go over the same text from then on.  What they have
in common they keep, if it is a relation of their outlines that every operation on outlines keeps.

* **Obligations** — `Outline.Lockstep`: the relation fixes the text being collected and the selectors of
  the open rules, and it is kept by all that the reader does to an outline.
* **Steps and runs** — then a piece does the same to both readers (`Lockstep.push`), hence a text does
  (`Lockstep.run`), and where it fails, it fails for both with the same error up to its span: `Agree`.
* **The end** — up to spans, the forest is a function of the outline: `finish_upToSpans`.
-/

namespace UtilityCss

/-- An error without its span. -/
def ReadError.clearSpan : ReadError → ReadError
  | .unterminatedString literal _ => .unterminatedString literal .nowhere
  | .missingOpeningBrace _ => .missingOpeningBrace .nowhere
  | .missingClosingBrace selector _ => .missingClosingBrace selector .nowhere

/-- Both readers fail for the same reason, or their outlines are related. -/
inductive Agree (R : Outline → Outline → Prop) :
    Except ReadError Reading → Except ReadError Reading → Prop
  | error {e e' : ReadError} (h : e'.clearSpan = e.clearSpan) : Agree R (.error e) (.error e')
  | ok {r r' : Reading} (h : R r.outline r'.outline) : Agree R (.ok r) (.ok r')

/-- A declaration is the same but for its span. -/
lemma clearSpans_declarationOf_congr (text : List Char) (parts : Option (List Char × List Char))
    (span span' : Span) :
    (declarationOf text parts span').clearSpans = (declarationOf text parts span).clearSpans := by
  obtain ⟨property, value, important, h⟩ := Token.exists_ofParts text parts
  rw [clearSpans_declarationOf h, clearSpans_declarationOf h]

/-- A relation of outlines that reading on keeps. -/
structure Outline.Lockstep (R : Outline → Outline → Prop) : Prop where
  current {o o' : Outline} (h : R o o') : o'.current = o.current
  /-- The open rules have the same selectors. -/
  selectors {o o' : Outline} (h : R o o') : o'.opened.map Prod.fst = o.opened.map Prod.fst
  withCurrent {o o' : Outline} (h : R o o') (current : List Char) :
    R { o with current } { o' with current }
  withLicence {o o' : Outline} (h : R o o') (node : Node) :
    R { o with licences := node :: o.licences } { o' with licences := node :: o'.licences }
  attach {o o' : Outline} (h : R o o') (node : Node) : R (o.attach node) (o'.attach node)
  enter {o o' : Outline} (h : R o o') (selector : String) : R (o.enter selector) (o'.enter selector)
  leave {o o' : Outline} (h : R o o') : R o.leave o'.leave

namespace Outline.Lockstep
variable {R : Outline → Outline → Prop} (hR : Lockstep R) {r r' : Reading}
  (h : R r.outline r'.outline)
include hR h

lemma text : r'.text = r.text := by
  have hcurrent : r'.current = r.current := hR.current h
  rw [Reading.text, hcurrent, Reading.text]

lemma clear : R r.clear.outline r'.clear.outline :=
  hR.withCurrent h []

/-- Both readers are outside of all rules, or inside of rules with the same selector. -/
lemma opened_cases :
    r.opened = [] ∧ r'.opened = [] ∨
      ∃ rule outer rule' outer', r.opened = rule :: outer ∧ r'.opened = rule' :: outer' ∧
        rule'.selector = rule.selector := by
  have hselectors := hR.selectors h
  rw [Reading.outline, Reading.outline] at hselectors
  cases hopened : r.opened with
  | nil =>
      rw [hopened] at hselectors
      exact Or.inl ⟨rfl, by simpa using hselectors⟩
  | cons rule outer =>
      rw [hopened] at hselectors
      cases hopened' : r'.opened with
      | nil =>
          rw [hopened'] at hselectors
          cases hselectors
      | cons rule' outer' =>
          rw [hopened'] at hselectors
          exact Or.inr ⟨rule, outer, rule', outer', rfl, rfl, (List.cons.inj hselectors).1⟩

/-- Declarations of one text may have different spans. -/
lemma attachDeclaration (text : List Char) (parts : Option (List Char × List Char))
    (span span' : Span) :
    R (r.attach (declarationOf text parts span)).outline
      (r'.attach (declarationOf text parts span')).outline := by
  rw [Reading.outline_attach, Reading.outline_attach,
    clearSpans_declarationOf_congr text parts span span']
  exact hR.attach h _

lemma attachStatement (text : String) (span span' : Span) :
    R (r.attach (.rule text [] false (some span))).outline
      (r'.attach (.rule text [] false (some span'))).outline := by
  rw [Reading.outline_attach, Reading.outline_attach]
  exact hR.attach h (.rule text [] false none)

/-- A semicolon finishes the same node on both sides. -/
lemma pushSemicolon : R r.pushSemicolon.outline r'.pushSemicolon.outline := by
  rw [Reading.pushSemicolon, Reading.pushSemicolon, Reading.readsAtRule, Reading.readsAtRule,
    hR.text h]
  split_ifs
  · exact hR.attachStatement (hR.clear h) _ _ _
  · exact hR.clear h
  · exact hR.attachDeclaration (hR.clear h) _ _ _ _

/-- The text in front of a closing brace becomes the same node on both sides. -/
lemma finishText : R r.finishText.outline r'.finishText.outline := by
  have hcurrent : r'.current = r.current := hR.current h
  rw [Reading.finishText, Reading.finishText, Reading.readsAtRule, Reading.readsAtRule, hR.text h,
    hcurrent]
  split_ifs
  · exact h
  · exact hR.attachStatement (hR.clear h) _ _ _
  · exact hR.attachDeclaration (hR.clear h) _ _ _ _

/-- A newline joins the text on both sides or on neither. -/
lemma pushNewline : R r.pushNewline.outline r'.pushNewline.outline := by
  have hcurrent : r'.current = r.current := hR.current h
  rw [Reading.pushNewline, Reading.pushNewline, hcurrent]
  split
  · exact h
  · split_ifs
    · exact h
    · exact hR.withCurrent h _

lemma append (text : List Char) : R (r.append text).outline (r'.append text).outline := by
  rw [Reading.outline_append, Reading.outline_append, Outline.typed, Outline.typed, hR.current h]
  exact hR.withCurrent h _

/-- The step: a piece does the same to both. -/
lemma push (p : Piece) : Agree R (r.push p) (r'.push p) := by
  have hcurrent : r'.current = r.current := hR.current h
  cases p with
  | verbatim text => exact .ok (hR.append h text)
  | comment text closed =>
      refine .ok ?_
      rw [Reading.outline_advance, Reading.outline_advance, Reading.pushComment, Reading.pushComment]
      split_ifs
      · exact hR.withLicence h (.comment (String.ofList text) none)
      · exact h
  | brokenString text => exact .error rfl
  | gap c => exact .ok h
  | newline => exact .ok (hR.pushNewline h)
  | custom text ended => exact .ok (hR.attachDeclaration h _ _ _ _)
  | semicolon => exact .ok (hR.pushSemicolon h)
  | opening =>
      refine .ok ?_
      have hopening : ∀ s : Reading, (s.pushOpening.advance (Piece.width .opening)).outline
          = s.clear.outline.enter (String.ofList (Text.trim s.text)) := fun _ => rfl
      rw [hopening, hopening, hR.text h]
      exact hR.enter (hR.clear h) _
  | closing =>
      have hfinish := hR.finishText h
      rcases hR.opened_cases hfinish with
        ⟨hnone, hnone'⟩ | ⟨rule, outer, rule', outer', hopened, hopened', -⟩
      · rw [Reading.push_closing_of_finishText hnone, Reading.push_closing_of_finishText hnone']
        exact .error rfl
      · rw [Reading.push_closing_iff.2 ⟨rule, outer, hopened, rfl⟩,
          Reading.push_closing_iff.2 ⟨rule', outer', hopened', rfl⟩]
        refine .ok ?_
        rw [Reading.outline_advance, Reading.outline_advance, Reading.outline_close hopened,
          Reading.outline_close hopened']
        exact hR.leave hfinish
  | plain c =>
      refine .ok ?_
      rw [Reading.outline_advance, Reading.outline_advance, Reading.pushPlain, Reading.pushPlain,
        hcurrent]
      split_ifs
      · exact h
      · exact hR.append h [c]

/-- The run: so does a text. -/
lemma run (cs : List Char) : Agree R (r.run cs) (r'.run cs) := by
  induction hn : cs.length using Nat.strong_induction_on generalizing cs r r' with
  | _ n ih =>
      cases cs with
      | nil =>
          rw [Reading.run, Reading.run]
          exact .ok h
      | cons c rest =>
          have hcurrent : r'.current = r.current := hR.current h
          have hlength := Piece.next_length r.current.isEmpty c rest
          rw [Reading.run, Reading.run, hcurrent]
          generalize Piece.next r.current.isEmpty c rest = step at hlength ⊢
          have hpush := hR.push h step.1
          generalize r.push step.1 = result, r'.push step.1 = result' at hpush ⊢
          cases hpush with
          | error he => exact .error he
          | ok hnext =>
              exact ih step.2.length (by simp only [← hn, List.length_cons]; omega) hnext _ rfl

end Outline.Lockstep

/-! ## The end -/

/-- What is read of a text, without spans. -/
def readUpToSpans (file : Nat) (text : String) : Except ReadError (List Node) :=
  ((readStylesheet file text).map Node.clearSpansAll).mapError ReadError.clearSpan

/-- What is read depends on the run only. -/
lemma readUpToSpans_of_run (file : Nat) (text : String) {r : Reading} {cs : List Char}
    (hrun : ({ file : Reading }).run text.toList = r.run cs) :
    readUpToSpans file text
      = (((r.run cs).bind Reading.finish).map Node.clearSpansAll).mapError ReadError.clearSpan := by
  rw [readUpToSpans, readStylesheet, hrun]
  cases r.run cs <;> rfl

/-- The forest of an outline without open rules. -/
def Outline.finish (o : Outline) : Except ReadError (List Node) :=
  match o.opened with
  | [] => .ok (o.licences.reverse ++ o.finished.reverse)
  | rule :: _ => .error (.missingClosingBrace rule.1 .nowhere)

/-- The end of a reading can be told from its outline. -/
lemma finish_upToSpans (r : Reading) :
    (r.finish.map Node.clearSpansAll).mapError ReadError.clearSpan = r.outline.finish := by
  cases hopened : r.opened with
  | nil =>
      simp [Reading.finish, Outline.finish, Reading.outline, hopened, Except.map, Except.mapError,
        Node.clearSpansAll_eq_map]
  | cons rule outer =>
      simp [Reading.finish, Outline.finish, Reading.outline, hopened, Except.map, Except.mapError,
        OpenRule.outline, ReadError.clearSpan]

end UtilityCss
