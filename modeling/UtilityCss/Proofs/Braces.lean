import Mathlib.Data.List.Infix
import UtilityCss.Proofs.BareTexts
import UtilityCss.Proofs.Boundaries
import UtilityCss.Proofs.Minified

/-!
# Blocks and braces

In a bare text the blocks are the braces: `readStylesheet_braces`.

* **Texts** — `Matched`, by counting braces in every beginning of a text.  `Unmatched seen heads` takes
  a text apart at its unmatched braces; `heads` is what stands in front of each, innermost first.
* **Trees** — the braces of a forest in the order of its tokens, `Token.brace?`.
* **The reader** — it has the rules open whose braces are unmatched, and it has told the braces that it
  has seen: `Reading.Follows`, with its step `Follows.push` and its run `Follows.feed`.  `Outcome` is
  what that comes to at the end.
-/

namespace UtilityCss

/-! ## Braces of texts -/

/-- Whether a character is a brace. -/
def isBrace (c : Char) : Bool :=
  c == '{' || c == '}'

/-- No beginning of a text closes more blocks than it opens. -/
def Covered (cs : List Char) : Prop :=
  ∀ front, front <+: cs → front.count '}' ≤ front.count '{'

/-- No beginning of a text closes more blocks than it opens, and the whole closes as many. -/
structure Matched (cs : List Char) : Prop where
  covered : Covered cs
  total : cs.count '{' = cs.count '}'

instance : DecidablePred Covered := fun cs =>
  decidable_of_iff (∀ front ∈ cs.inits, front.count '}' ≤ front.count '{')
    (by simp [Covered, List.mem_inits])

instance : DecidablePred Matched := fun cs =>
  decidable_of_iff (Covered cs ∧ cs.count '{' = cs.count '}')
    ⟨fun h => ⟨h.1, h.2⟩, fun h => ⟨h.covered, h.total⟩⟩

/-- One more character is covered if the text in front is and no brace closes too much. -/
lemma covered_concat_iff {cs : List Char} {c : Char} : Covered (cs ++ [c]) ↔
    Covered cs ∧ (cs ++ [c]).count '}' ≤ (cs ++ [c]).count '{' := by
  constructor
  · intro h
    exact ⟨fun front hfront => h front (hfront.trans (List.prefix_append cs [c])),
      h _ List.prefix_rfl⟩
  · rintro ⟨hcovered, hcount⟩ front hfront
    rcases List.prefix_concat_iff.1 hfront with rfl | hfront
    · exact hcount
    · exact hcovered front hfront

lemma Covered.append {a b : List Char} (ha : Covered a) (hb : Covered b) : Covered (a ++ b) := by
  intro front hfront
  rcases List.prefix_or_prefix_of_prefix hfront (List.prefix_append a b) with hshort | ⟨back, rfl⟩
  · exact ha front hshort
  · have hfirst := ha a List.prefix_rfl
    have hsecond := hb back ((List.prefix_append_right_inj a).1 hfront)
    rw [List.count_append, List.count_append]
    omega

lemma matched_nil : Matched [] where
  covered := by
    intro front hfront
    rw [List.prefix_nil.1 hfront]
    exact Nat.le_refl _
  total := rfl

lemma Matched.append {a b : List Char} (ha : Matched a) (hb : Matched b) : Matched (a ++ b) where
  covered := ha.covered.append hb.covered
  total := by rw [List.count_append, List.count_append, ha.total, hb.total]

lemma matched_single {c : Char} (hc : isBrace c = false) : Matched [c] := by
  obtain ⟨hopening, hclosing⟩ : c ≠ '{' ∧ c ≠ '}' := by simpa [isBrace] using hc
  have hcount : [c].count '{' = [c].count '}' := by
    rw [List.count_singleton, List.count_singleton]
    simp [hopening, hclosing]
  exact ⟨covered_concat_iff.2 ⟨matched_nil.covered, hcount.ge⟩, hcount⟩

lemma covered_opening : Covered ['{'] :=
  covered_concat_iff.2 ⟨matched_nil.covered, by decide⟩

/-- Braces around matched braces match. -/
lemma Matched.block {cs : List Char} (h : Matched cs) : Matched ('{' :: cs ++ ['}']) := by
  have htotal := h.total
  have hcount : ('{' :: cs ++ ['}']).count '{' = ('{' :: cs ++ ['}']).count '}' := by
    simp [htotal]
  exact ⟨covered_concat_iff.2 ⟨covered_opening.append h.covered, hcount.ge⟩, hcount⟩

/-- The text in front of each unmatched brace of a text, the innermost first. -/
inductive Unmatched : (cs : List Char) → (heads : List (List Char)) → Prop
  | none {cs : List Char} (h : Matched cs) : Unmatched cs []
  | brace {front back : List Char} {heads : List (List Char)} (hfront : Unmatched front heads)
      (hback : Matched back) : Unmatched (front ++ '{' :: back) (front :: heads)

namespace Unmatched
variable {cs : List Char} {heads : List (List Char)}

/-- Matched braces behind the open ones change nothing about these. -/
lemma append (h : Unmatched cs heads) {back : List Char} (hback : Matched back) :
    Unmatched (cs ++ back) heads := by
  cases h with
  | none h => exact .none (h.append hback)
  | brace hfront hinner =>
      rw [List.append_assoc]
      exact .brace hfront (hinner.append hback)

/-- An opening brace leaves one block more open, and its head is all that was read. -/
lemma opening (h : Unmatched cs heads) : Unmatched (cs ++ ['{']) (cs :: heads) :=
  .brace h matched_nil

/-- A closing brace closes the innermost open block. -/
lemma closing {head : List Char} (h : Unmatched cs (head :: heads)) :
    Unmatched (cs ++ ['}']) heads := by
  cases h with
  | brace hfront hback =>
      rw [List.append_assoc]
      exact hfront.append hback.block

lemma matched (h : Unmatched cs []) : Matched cs := by
  cases h with
  | none h => exact h

lemma covered (h : Unmatched cs heads) : Covered cs := by
  induction h with
  | none h => exact h.covered
  | brace _ hback ih => exact ih.append (covered_opening.append hback.covered)

/-- There are as many more opening braces as blocks are open. -/
lemma count (h : Unmatched cs heads) : cs.count '{' = cs.count '}' + heads.length := by
  induction h with
  | none h => exact h.total
  | brace _ hback ih =>
      have htotal := hback.total
      have hopening : ∀ cs : List Char, ('{' :: cs).count '{' = cs.count '{' + 1 := by simp
      have hclosing : ∀ cs : List Char, ('{' :: cs).count '}' = cs.count '}' := by simp
      rw [List.count_append, List.count_append, hopening, hclosing, List.length_cons]
      omega

end Unmatched

/-- The selector of the rule whose brace stands behind a text. -/
def selectorOf (front : List Char) : String :=
  String.ofList (Text.trim (squeeze none (lastPart front)))

/-- The selector of a rule and the offset behind its opening brace, if that stands behind a text. -/
def headOf (front : List Char) : String × Nat :=
  (selectorOf front, Text.byteLength front + 1)

lemma trim_dropWhile_isGap (cs : List Char) : Text.trim (cs.dropWhile isGap) = Text.trim cs := by
  have hblank : ∀ c ∈ cs.takeWhile isGap, Text.isBlank c = true := by
    intro c hc
    exact isBlank_of_isGap (List.mem_takeWhile_imp hc)
  conv_rhs => rw [← List.takeWhile_append_dropWhile (p := isGap) (l := cs)]
  rw [Text.trim_append_of_blank_left _ hblank]

/-- The text collected in front of an opening brace is trimmed to the selector. -/
lemma trim_collected_opening (seen : List Char) :
    String.ofList (Text.trim (collected (some '{') seen)) = selectorOf seen := by
  rw [collected, trim_dropWhile_isGap, squeeze_congr (some '{') none rfl]
  rfl

/-! ## Braces of trees -/

/-- The brace that a token stands for. -/
def Token.brace? : Token → Option Char
  | .opens _ => some '{'
  | .closes => some '}'
  | _ => none

/-- Whether a node is a rule with a block. -/
def Node.isBlock : Node → Bool
  | .rule _ _ true _ => true
  | _ => false

/-- The braces of a forest, in order. -/
def bracesOf (nodes : List Node) : List Char :=
  (Node.tokensAll nodes).filterMap Token.brace?

/-- The braces of a block are a pair around those of its children. -/
lemma bracesOf_block (selector : String) (nodes rest : List Node) (span : Option Span) :
    bracesOf (.rule selector nodes true span :: rest)
      = '{' :: (bracesOf nodes ++ '}' :: bracesOf rest) := by
  simp [bracesOf, Node.tokensAll, Node.tokens, Token.brace?]

lemma Token.brace?_ofParts (text : List Char) (parts : Option (List Char × List Char)) :
    (ofParts text parts).brace? = none := by
  obtain ⟨property, value, important, h⟩ := exists_ofParts text parts
  rw [h]
  rfl

lemma Token.brace?_ofText (text : List Char) : (ofText text).brace? = none := by
  rw [ofText]
  split_ifs
  · rfl
  · exact brace?_ofParts _ _

/-- A forest that is laid out has one opening brace for every block rule, at any depth. -/
lemma LaidOut.countP_isBlock {file lo hi : Nat} {nodes : List Node} (h : LaidOut file lo hi nodes)
    (depth : Nat) : (Node.visitsAll depth nodes).countP (fun visit => visit.2.isBlock)
      = (bracesOf nodes).count '{' := by
  induction h generalizing depth with
  | nil => rfl
  | declaration _ _ _ ih => exact ih depth
  | statement _ _ _ _ ih => exact ih depth
  | @block _ _ _ _ _ _ nodes rest _ _ _ _ ihnodes ihrest =>
      rw [Node.visitsAll, Node.visits, List.countP_append, List.countP_cons_of_pos rfl,
        ihnodes (depth + 1), ihrest depth, bracesOf_block, List.count_cons_self, List.count_append,
        List.count_cons_of_ne (by decide)]
      omega

/-- A character tells a brace if it is one. -/
lemma Piece.braces_told_ofChar (c : Char) (next : Option Char) (current : List Char) :
    ((ofChar c next).told current).filterMap Token.brace? = [c].filter isBrace := by
  by_cases hopening : c = '{'
  · subst hopening; rfl
  · by_cases hclosing : c = '}'
    · subst hclosing
      show ((if current.isEmpty then [] else [Token.ofText current.reverse]) ++
        [Token.closes]).filterMap _ = _
      split_ifs
      · rfl
      · rw [List.singleton_append, List.filterMap_cons_none (Token.brace?_ofText _)]
        rfl
    · have hbrace : isBrace c = false := by simp [isBrace, hopening, hclosing]
      rw [ofChar, if_neg hopening, if_neg hclosing, List.filter_cons_of_neg (by simp [hbrace])]
      split_ifs
      · rfl
      · rfl
      · rw [told]
        split_ifs
        · rfl
        · simp [Token.brace?_ofText]
      · rfl

/-! ## The reader -/

namespace Reading

/-- The selectors of the open rules and the offsets behind their braces, innermost first. -/
def heads (r : Reading) : List (String × Nat) :=
  r.opened.map fun rule => (rule.selector, rule.bodyStart)

/-- Attaching a node opens and closes nothing. -/
lemma heads_attach (r : Reading) (node : Node) : (r.attach node).heads = r.heads := by
  unfold attach
  split
  next h => simp [heads, h]
  next h => simp [heads, h]

lemma heads_finishText (r : Reading) : r.finishText.heads = r.heads := by
  rcases finishText_eq_or r with h | ⟨node, -, h⟩
  · rw [h]
  · rw [h, heads_attach]
    rfl

/-- Only braces open and close rules. -/
lemma heads_of_push {r r' : Reading} {p : Piece} (hpush : r.push p = .ok r')
    (hcustom : ∀ text ended, p ≠ .custom text ended) (hopening : p ≠ .opening)
    (hclosing : p ≠ .closing) : r'.heads = r.heads := by
  cases push_effect hpush fun text ended hp => absurd hp (hcustom text ended) with
  | quiet _ hopened _ _ => rw [heads, hopened, heads]
  | leaf _ node _ hopened _ _ => rw [heads, hopened, ← heads, heads_attach]
  | opening => exact absurd rfl hopening
  | closing => exact absurd rfl hclosing

/-- A closing brace that is no error takes away the innermost open block. -/
lemma heads_of_push_closing {r r' : Reading} (hpush : r.push .closing = .ok r') :
    ∃ head, r.heads = head :: r'.heads := by
  obtain ⟨rule, outer, hopened, rfl⟩ := push_closing_iff.1 hpush
  refine ⟨(rule.selector, rule.bodyStart), ?_⟩
  rw [← heads_finishText, heads, hopened]
  show _ = _ :: (Reading.attach _ _).heads
  rw [heads_attach]
  rfl

/-- The reader has gone over the bare text `seen`, which `next` stands behind. -/
structure Follows (file : Nat) (next : Option Char) (seen : List Char) (r : Reading) : Prop where
  file : r.file = file
  pos : r.pos = Text.byteLength seen
  current : r.current = (collected next seen).reverse
  told : r.outline.tokens.filterMap Token.brace? = seen.filter isBrace
  heads : ∃ heads, Unmatched seen heads ∧ r.heads = heads.map headOf

lemma Follows.fresh (file : Nat) (next : Option Char) : Follows file next [] { file } where
  file := rfl
  pos := rfl
  current := rfl
  told := rfl
  heads := ⟨[], .none matched_nil, rfl⟩

/-- Where no rule is open, all braces are matched. -/
lemma Follows.matched {file : Nat} {next : Option Char} {seen : List Char} {r : Reading}
    (h : Follows file next seen r) (hnone : r.heads = []) : Matched seen := by
  obtain ⟨heads, hunmatched, hheads⟩ := h.heads
  rw [hnone, eq_comm, List.map_eq_nil_iff] at hheads
  subst hheads
  exact hunmatched.matched

/-- The step for the open rules. -/
lemma Follows.heads_push {file : Nat} {seen : List Char} {c : Char} {next : Option Char}
    {r r' : Reading} (h : Follows file (some c) seen r) (hpush : r.push (.ofChar c next) = .ok r') :
    ∃ heads, Unmatched (seen ++ [c]) heads ∧ r'.heads = heads.map headOf := by
  obtain ⟨heads, hunmatched, hheads⟩ := h.heads
  by_cases hopening : c = '{'
  · subst hopening
    obtain rfl := Except.ok.inj hpush
    refine ⟨seen :: heads, hunmatched.opening, ?_⟩
    show (String.ofList (Text.trim r.text), r.pos + 1) :: r.heads = _
    rw [hheads, text, h.current, List.reverse_reverse, trim_collected_opening, h.pos]
    rfl
  · by_cases hclosing : c = '}'
    · subst hclosing
      obtain ⟨head, hhead⟩ := heads_of_push_closing hpush
      rw [hhead] at hheads
      cases heads with
      | nil => cases hheads
      | cons front heads => exact ⟨heads, hunmatched.closing, (List.cons.inj hheads).2⟩
    · have hbrace : isBrace c = false := by simp [isBrace, hopening, hclosing]
      refine ⟨heads, hunmatched.append (matched_single hbrace), ?_⟩
      rw [heads_of_push hpush (Piece.ofChar_ne_custom c next), hheads]
      · exact fun hp => hopening (Piece.eq_of_ofChar hp rfl)
      · exact fun hp => hclosing (Piece.eq_of_ofChar hp rfl)

/-- The step: a character that can be read. -/
lemma Follows.push {file : Nat} {seen : List Char} {c : Char} {next : Option Char} {r r' : Reading}
    (h : Follows file (some c) seen r) (hpush : r.push (.ofChar c next) = .ok r') :
    Follows file next (seen ++ [c]) r' := by
  obtain ⟨hcurrent, htokens⟩ := push_told hpush
  obtain ⟨hfile, hpos, -⟩ := push_movesPast hpush
  refine ⟨hfile.trans h.file, ?_, ?_, ?_, h.heads_push hpush⟩
  · rw [hpos, h.pos, Piece.width_ofChar, byteLength_append]
    rfl
  · rw [hcurrent, h.current, kept_ofChar]
  · rw [htokens, List.filterMap_append, h.told, Piece.braces_told_ofChar, List.filter_append]

/-- The step: a character that cannot be read closes a block where none is open. -/
lemma Follows.eq_of_push_error {file : Nat} {seen : List Char} {c : Char} {next : Option Char}
    {r : Reading} {e : ReadError} (h : Follows file (some c) seen r)
    (hpush : r.push (.ofChar c next) = .error e)
    (hsize : Text.byteLength seen + 1 < Span.offsetBound) :
    c = '}' ∧ Matched seen ∧ e = .missingOpeningBrace
      ⟨file, Text.byteLength seen, Text.byteLength seen + 1⟩ := by
  have hclosing : c = '}' := by
    by_contra hne
    rw [Piece.ofChar, if_neg hne] at hpush
    split_ifs at hpush <;> cases hpush
  subst hclosing
  rw [show Piece.ofChar '}' next = .closing from rfl] at hpush
  cases hopened : r.finishText.opened with
  | cons rule outer =>
      rw [push_closing_iff.2 ⟨rule, outer, hopened, rfl⟩] at hpush
      cases hpush
  | nil =>
      refine ⟨rfl, h.matched ?_, ?_⟩
      · rw [← heads_finishText, Reading.heads, hopened, List.map_nil]
      · rw [push_closing_of_finishText hopened, h.pos, span_eq (Nat.le_succ _) hsize, h.file] at hpush
        exact (Except.error.inj hpush).symm

/-- The run over a bare text: it is read to its end, or up to a brace that closes nothing. -/
lemma Follows.feed {file : Nat} {seen cs : List Char} {next : Option Char} {r : Reading}
    (h : Follows file (cs.head?.or next) seen r)
    (hsize : Text.byteLength (seen ++ cs) < Span.offsetBound) :
    (∃ r', r.feed next cs = .ok r' ∧ Follows file next (seen ++ cs) r') ∨
      ∃ front back, seen ++ cs = front ++ '}' :: back ∧ Matched front ∧
        r.feed next cs = .error (.missingOpeningBrace
          ⟨file, Text.byteLength front, Text.byteLength front + 1⟩) := by
  induction cs generalizing seen r with
  | nil => exact Or.inl ⟨r, rfl, by simpa using h⟩
  | cons c cs ih =>
      rw [Reading.feed]
      cases hpush : r.push (.ofChar c (cs.head?.or next)) with
      | ok r' =>
          have hnext := ih (h.push hpush) (by simpa using hsize)
          simpa using hnext
      | error e =>
          have hlength : Text.byteLength seen + 1 < Span.offsetBound := by
            have := c.utf8Size_pos
            simp only [byteLength_append, Text.byteLength] at hsize
            omega
          obtain ⟨rfl, hmatched, rfl⟩ := h.eq_of_push_error hpush hlength
          exact Or.inr ⟨seen, cs, rfl, hmatched, rfl⟩

end Reading

/-! ## The forest -/

/-- What reading a bare text comes to. -/
inductive Outcome (file : Nat) (text : List Char) : Except ReadError (List Node) → Prop
  | read {nodes : List Node} (hmatched : Matched text)
      (hbraces : bracesOf nodes = text.filter isBrace)
      (hblocks : (Node.visitsAll 0 nodes).countP (fun visit => visit.2.isBlock) = text.count '{') :
      Outcome file text (.ok nodes)
  | missingOpening {front back : List Char} (htext : text = front ++ '}' :: back)
      (hfront : Matched front) :
      Outcome file text (.error (.missingOpeningBrace
        ⟨file, Text.byteLength front, Text.byteLength front + 1⟩))
  | missingClosing {front back : List Char} {heads : List (List Char)} {start : Nat}
      (htext : text = front ++ '{' :: back) (hfront : Unmatched front heads) (hback : Matched back)
      (hstart : start ≤ Text.byteLength front) :
      Outcome file text (.error (.missingClosingBrace (selectorOf front)
        ⟨file, start, Text.byteLength front + 1⟩))

section
variable {file : Nat} {text : String} {r : Reading} (h : r.Follows file none text.toList)
  (hsize : Text.byteLength text.toList < Span.offsetBound)
  (hrun : ({ file : Reading }).run text.toList = .ok r)
include h hsize hrun

/-- No rule is left open, so the reader has told the braces of the forest. -/
lemma outcome_of_closed (hlicences : r.licences = []) (hopened : r.opened = []) :
    Outcome file text.toList (.ok (r.licences.reverse ++ r.finished.reverse)) := by
  obtain ⟨hnested, -, -⟩ := (Reading.Nested.fresh file).run (by simpa using hsize) hrun
  have hmatched := h.matched (by rw [Reading.heads, hopened, List.map_nil])
  have hbraces : bracesOf r.finished.reverse = text.toList.filter isBrace := by
    rw [← h.told, bracesOf, ← Node.tokensAll_clearSpansAll, Node.clearSpansAll_eq_map,
      List.map_reverse]
    simp [Outline.tokens, Reading.outline, hopened]
  rw [hlicences, List.reverse_nil, List.nil_append]
  refine .read hmatched hbraces ?_
  rw [(hnested.laidOut hopened).countP_isBlock, hbraces, List.count_filter rfl]

/-- The innermost rule that is left open is the one of the last unmatched brace. -/
lemma outcome_of_opened {rule : OpenRule} {outer : List OpenRule}
    (hopened : r.opened = rule :: outer) : Outcome file text.toList
      (.error (.missingClosingBrace rule.selector (r.span rule.start rule.bodyStart))) := by
  have hplaced := (Reading.Placed.fresh file text.toList).run hsize (List.nil_append _) rfl
  rw [hrun] at hplaced
  have hhead := hplaced.1.opened rule (by simp [hopened])
  have hpos := h.pos
  have hlt := hhead.start_lt
  have hle := hhead.bodyStart_le
  rw [Reading.span_eq hhead.start_le (by omega), h.file]
  obtain ⟨heads, hunmatched, hheads⟩ := h.heads
  rw [Reading.heads, hopened, List.map_cons] at hheads
  generalize text.toList = cs at hunmatched
  cases hunmatched with
  | none => cases hheads
  | @brace front back heads hfront hback =>
      obtain ⟨hselector, hbody⟩ := Prod.mk.inj (List.cons.inj hheads).1
      rw [hbody] at hlt ⊢
      rw [hselector]
      exact .missingClosing rfl hfront hback (Nat.le_of_lt_succ hlt)

end

/-- A bare text is read to the end with what its braces say. -/
lemma outcome_of_bare (file : Nat) {text : String} (hsize : text.utf8ByteSize < Span.offsetBound)
    (hbare : Bare text.toList) : Outcome file text.toList (readStylesheet file text) := by
  rw [← byteLength_toList] at hsize
  have hrun := Reading.run_of_bare hbare { file }
  rw [readStylesheet]
  rcases (Reading.Follows.fresh file (text.toList.head?.or none)).feed hsize with
    ⟨r, hfeed, hr⟩ | ⟨front, back, htext, hfront, hfeed⟩
  · rw [hfeed] at hrun
    rw [hrun]
    dsimp only [Reading.finish]
    cases hopened : r.opened with
    | nil => exact outcome_of_closed hr hsize hrun (Reading.licences_of_feed hfeed) hopened
    | cons rule outer => exact outcome_of_opened hr hsize hrun hopened
  · rw [hrun, hfeed]
    exact .missingOpening htext hfront

/-- Behind matched braces, another closing one has no block to close. -/
lemma Matched.not_covered {front : List Char} (h : Matched front) (back : List Char) :
    ¬ Covered (front ++ '}' :: back) := by
  intro hcovered
  have hcount := hcovered (front ++ ['}']) (by simp)
  rw [List.count_append, List.count_append, h.total, List.count_singleton_self] at hcount
  exact Nat.not_succ_le_self _ hcount

/-- **Blocks are braces.**  A bare text can be read exactly if its braces match.  Its forest then has
the braces of the text, so the blocks are nested as the braces are, and as many block rules as the text
has opening braces.  If a brace closes more than was opened, the first one that does is reported, and
otherwise the innermost rule that is left open, with a span that ends behind its brace. -/
theorem readStylesheet_braces (file : Nat) {text : String}
    (hsize : text.utf8ByteSize < Span.offsetBound) (hbare : Bare text.toList) :
    ((∃ nodes, readStylesheet file text = .ok nodes) ↔ Matched text.toList) ∧
    (∀ nodes, readStylesheet file text = .ok nodes →
      bracesOf nodes = text.toList.filter isBrace ∧
      (Node.visitsAll 0 nodes).countP (fun visit => visit.2.isBlock) = text.toList.count '{') ∧
    (¬ Covered text.toList → ∃ front back, text.toList = front ++ '}' :: back ∧ Matched front ∧
      readStylesheet file text = .error (.missingOpeningBrace
        ⟨file, Text.byteLength front, Text.byteLength front + 1⟩)) ∧
    (Covered text.toList → ¬ Matched text.toList → ∃ front back start,
      text.toList = front ++ '{' :: back ∧ Matched back ∧ start ≤ Text.byteLength front ∧
      readStylesheet file text = .error (.missingClosingBrace (selectorOf front)
        ⟨file, start, Text.byteLength front + 1⟩)) := by
  have houtcome := outcome_of_bare file hsize hbare
  generalize readStylesheet file text = result at houtcome ⊢
  cases houtcome with
  | @read nodes hmatched hbraces hblocks =>
      refine ⟨⟨fun _ => hmatched, fun _ => ⟨nodes, rfl⟩⟩, ?_, ?_, ?_⟩
      · rintro _ ⟨⟩
        exact ⟨hbraces, hblocks⟩
      · exact fun hcovered => absurd hmatched.covered hcovered
      · exact fun _ hnot => absurd hmatched hnot
  | @missingOpening front back htext hfront =>
      have hcovered : ¬ Covered text.toList := htext ▸ hfront.not_covered back
      refine ⟨⟨nofun, fun hmatched => absurd hmatched.covered hcovered⟩, nofun, ?_, ?_⟩
      · exact fun _ => ⟨front, back, htext, hfront, rfl⟩
      · exact fun h => absurd h hcovered
  | @missingClosing front back heads start htext hfront hback hstart =>
      have hunmatched : Unmatched text.toList (front :: heads) := htext ▸ .brace hfront hback
      have hnot : ¬ Matched text.toList := by
        intro hmatched
        have hcount := hunmatched.count
        rw [hmatched.total, List.length_cons] at hcount
        omega
      refine ⟨⟨nofun, fun hmatched => absurd hmatched hnot⟩, nofun, ?_, ?_⟩
      · exact fun hcovered => absurd hunmatched.covered hcovered
      · exact fun _ _ => ⟨front, back, start, htext, hback, hstart, rfl⟩

namespace Sample

/-- Two rules side by side, the second with a rule in it. -/
def nested : String := ".a  b\x7bc:d;\x7d\n@e\x7bf\x7b\x7d\x7d"

lemma toList_nested : nested.toList = ['.', 'a', ' ', ' ', 'b', '{', 'c', ':', 'd', ';', '}', '\n',
    '@', 'e', '{', 'f', '{', '}', '}'] := by
  decide

end Sample

theorem readStylesheet_braces_nested :
    Sample.nested.utf8ByteSize < Span.offsetBound ∧ Bare Sample.nested.toList ∧
      ∃ nodes, readStylesheet 1 Sample.nested = .ok nodes ∧
        bracesOf nodes = ['{', '}', '{', '{', '}', '}'] ∧
        (Node.visitsAll 0 nodes).countP (fun visit => visit.2.isBlock) = 3 := by
  have hsize : Sample.nested.utf8ByteSize < Span.offsetBound := by decide
  have hbare : Bare Sample.nested.toList := by
    rw [Sample.toList_nested]
    decide
  have hmatched : Matched Sample.nested.toList := by
    rw [Sample.toList_nested]
    decide
  obtain ⟨hread, hforest, -, -⟩ := readStylesheet_braces 1 hsize hbare
  obtain ⟨nodes, hnodes⟩ := hread.2 hmatched
  obtain ⟨hbraces, hblocks⟩ := hforest nodes hnodes
  rw [Sample.toList_nested] at hbraces hblocks
  exact ⟨hsize, hbare, nodes, hnodes, hbraces, hblocks⟩

end UtilityCss
