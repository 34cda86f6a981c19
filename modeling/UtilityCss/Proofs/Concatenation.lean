import UtilityCss.Proofs.Boundaries
import UtilityCss.Proofs.CustomTexts

/-!
# One text behind another

A text that ends with a statement, outside of all blocks, and any text behind it are read as the two
would be read by themselves: `readStylesheet_append`.

* **Stops** — a semicolon, a closing brace and a custom property with its semicolon are the same piece
  whatever stands behind them (`Piece.next_append_of_stops`), and the reader collects no text there.
  `Reading.EndsWith` names the last piece of a text, and `EndsWith.run_append` reads on behind it.
* **The second text** — by itself and behind the first it is read in lockstep (`Within.push_shifted`,
  `Within.run_shifted`), errors included, which stand further on by the length of the first text.
* **The two forests** — the licences of both are in front of all other nodes: `joined`.
-/

namespace UtilityCss

/-- Changes the span of an error. -/
def ReadError.mapSpan (f : Span → Span) : ReadError → ReadError
  | .unterminatedString literal span => .unterminatedString literal (f span)
  | .missingOpeningBrace span => .missingOpeningBrace (f span)
  | .missingClosingBrace selector span => .missingClosingBrace selector (f span)

/-! ## Stops -/

/-- A custom property that a semicolon ended is the same in front of any text. -/
lemma customBody_append_of_ended {cs : List Char} (h : (customBody false [] cs).2.1 = true)
    (tail : List Char) :
    customBody false [] ((customBody false [] cs).1 ++ ';' :: tail)
      = ((customBody false [] cs).1, true, tail) := by
  obtain ⟨cover, brackets, hsurvey, hend⟩ := survey_customBody cs false []
  rw [h] at hsurvey hend
  rcases hend with hopen | ⟨rfl, rfl, -⟩
  · rw [hopen] at h
    cases h
  · have hsurvey : survey nest (.inside false) [] (customBody false [] cs).1 (some ';')
        = some (.inside false, []) := hsurvey
    rw [customBody_of_survey _ (';' :: tail) hsurvey]
    show (_ ++ [], true, tail) = _
    rw [List.append_nil]

namespace Piece

/-- Whether a piece is the end of a statement, a declaration or a block. -/
def stops : Piece → Bool
  | .semicolon => true
  | .closing => true
  | .custom _ ended => ended
  | _ => false

/-- A piece that stops is the same piece in front of any text. -/
lemma next_append_of_stops {fresh : Bool} {c : Char} {rest : List Char}
    (hstops : (next fresh c rest).1.stops = true) (tail : List Char) {rest' : List Char}
    (hrest' : (next fresh c rest).1.source ++ tail = c :: rest') :
    next fresh c rest' = ((next fresh c rest).1, tail) := by
  revert hstops hrest'
  fun_cases next fresh c rest with
  | case1 => cases rest <;> (intro hstops; cases hstops)
  | case3 hesc hcomment hquote body =>
      cases hbody : stringBody c rest <;> simp [body, hbody, quoted, stops]
  | case6 hesc hcomment hquote hgap hline hcustom body =>
      intro hended hrest'
      have hended : body.2.1 = true := hended
      have hbody := customBody_append_of_ended hended tail
      obtain ⟨rfl, rfl⟩ : '-' = c ∧ '-' :: (body.1 ++ ';' :: tail) = rest' := by
        simpa [source, hended] using hrest'
      have hnext : ∀ cs, next true '-' ('-' :: cs) = (.custom ('-' :: '-' :: (customBody false [] cs).1)
          (customBody false [] cs).2.1, (customBody false [] cs).2.2) := fun _ => rfl
      rw [Bool.and_eq_true] at hcustom
      rw [hcustom.2, hnext, hbody, hended]
  | case7 =>
      intro _ hrest'
      obtain ⟨rfl, rfl⟩ : ';' = c ∧ tail = rest' := by simpa [source] using hrest'
      rfl
  | case9 =>
      intro _ hrest'
      obtain ⟨rfl, rfl⟩ : '}' = c ∧ tail = rest' := by simpa [source] using hrest'
      rfl
  | _ =>
      intro hstops
      cases hstops

end Piece

namespace Reading

/-- Reading a text comes to an end with the piece `p` in the state `r'`. -/
inductive EndsWith : (r : Reading) → (cs : List Char) → (p : Piece) → (r' : Reading) → Prop
  | last {r r' : Reading} {c : Char} {rest : List Char} {p : Piece}
      (hnext : Piece.next r.current.isEmpty c rest = (p, [])) (hpush : r.push p = .ok r') :
      EndsWith r (c :: rest) p r'
  | more {r r' r'' : Reading} {c : Char} {rest rest' : List Char} {p q : Piece}
      (hnext : Piece.next r.current.isEmpty c rest = (p, rest')) (hpush : r.push p = .ok r')
      (hmore : EndsWith r' rest' q r'') : EndsWith r (c :: rest) q r''

namespace EndsWith
variable {r r' : Reading} {cs : List Char} {p : Piece} (h : EndsWith r cs p r')
  (hstops : p.stops = true)
include h hstops

/-- Behind a stop the reader reads on in the state that it has there. -/
lemma run_append (tail : List Char) : r.run (cs ++ tail) = r'.run tail := by
  induction h with
  | @last r r' c rest p hnext hpush =>
      have hsource : p.source ++ [] = c :: rest := (taken_of_push hnext hpush).source
      obtain rfl : (Piece.next r.current.isEmpty c rest).1 = p := by rw [hnext]
      rw [List.append_nil] at hsource
      rw [List.cons_append, Reading.run, Piece.next_append_of_stops hstops tail (by
        rw [hsource, List.cons_append])]
      simp only [hpush]
  | @more r r' r'' c rest rest' p q hnext hpush hmore ih =>
      have hsource : p.source ++ rest' = c :: rest := (taken_of_push hnext hpush).source
      have hhead : (rest' ++ tail).head? = rest'.head? := by cases hmore <;> rfl
      rw [← hsource, List.append_assoc, Reading.run_append hnext hpush hhead]
      exact ih hstops

/-- The text is read to its last step. -/
lemma run_eq : r.run cs = .ok r' := by
  have hrun := h.run_append hstops []
  rwa [List.append_nil, Reading.run] at hrun

/-- At a stop no text is being collected. -/
lemma current : r'.current = [] := by
  induction h with
  | @last r r' c rest p hnext hpush =>
      rw [(push_told hpush).1]
      cases p with
      | semicolon => rfl
      | closing => rfl
      | custom text ended => exact (taken_of_push hnext hpush).custom text ended rfl
      | _ => cases hstops
  | more _ _ _ ih => exact ih hstops

end EndsWith

/-! ## The second text -/

lemma attachAll_of_opened_eq_nil {r : Reading} (h : r.opened = []) (nodes : List Node) :
    r.attachAll nodes = { r with finished := nodes ++ r.finished } := by
  induction nodes with
  | nil => rfl
  | cons node nodes ih =>
      show (r.attachAll nodes).attach node = _
      rw [ih]
      exact attach_of_opened_eq_nil (r := { r with finished := nodes ++ r.finished }) h node

/-- Both readers fail for the same reason, or the second stays behind `ctx` with what the first has
read. -/
inductive Shifted (ctx : Reading) : Except ReadError Reading → Except ReadError Reading → Prop
  | error (e : ReadError) : Shifted ctx (.error e) (.error (e.mapSpan (Span.forward ctx.pos)))
  | ok {alone r : Reading} (h : Within ctx alone r) : Shifted ctx (.ok alone) (.ok r)

namespace Within
variable {ctx alone r : Reading} (hctx : ctx.opened = []) (h : Within ctx alone r)
include hctx h

/-- Its open rules are those of the part read alone, moved to their place. -/
lemma opened_eq : r.opened = alone.opened.map (OpenRule.forward ctx.pos) := by
  rw [h.opened, attachAll_of_opened_eq_nil hctx, hctx, List.append_nil]

/-- Its nodes are those of the part alone, moved, on top of those of the context. -/
lemma finished_eq :
    r.finished = Node.mapSpansAll (Span.forward ctx.pos) alone.finished ++ ctx.finished := by
  rw [h.finished, attachAll_of_opened_eq_nil hctx]

/-- The step: a piece does the same to both, and where it fails, it fails for both. -/
lemma push_shifted (hnested : alone.Nested) (p : Piece) (hsize : r.pos + p.width < Span.offsetBound) :
    Shifted ctx (alone.push p) (r.push p) := by
  cases p with
  | brokenString text =>
      show Shifted ctx (.error (.unterminatedString _ _)) (.error (.unterminatedString _ _))
      rw [h.span_pos hsize]
      exact .error _
  | closing =>
      have hfinish := (h.finishText hnested (Nat.lt_of_succ_lt hsize)).opened_eq hctx
      cases hopened : alone.finishText.opened with
      | nil =>
          rw [hopened, List.map_nil] at hfinish
          rw [push_closing_of_finishText hopened, push_closing_of_finishText hfinish,
            h.span_pos (n := 1) hsize]
          exact .error _
      | cons rule outer =>
          rw [hopened, List.map_cons] at hfinish
          have halone := push_closing_iff.2 ⟨rule, outer, hopened, rfl⟩
          have hpush := push_closing_iff.2 ⟨_, _, hfinish, rfl⟩
          rw [halone, hpush]
          exact .ok (h.push hnested halone hpush hsize)
  | _ => exact .ok (h.push hnested rfl rfl hsize)

/-- The run: so does a text. -/
lemma run_shifted (hnested : alone.Nested) (cs : List Char)
    (hsize : r.pos + Text.byteLength cs < Span.offsetBound) :
    Shifted ctx (alone.run cs) (r.run cs) := by
  induction hn : cs.length using Nat.strong_induction_on generalizing cs alone r with
  | _ n ih =>
      cases cs with
      | nil =>
          rw [Reading.run, Reading.run]
          exact .ok h
      | cons c rest =>
          have hlength := Piece.next_length alone.current.isEmpty c rest
          obtain ⟨back, hback⟩ := Piece.source_begins alone.current.isEmpty c rest
          have hwidth : (Piece.next alone.current.isEmpty c rest).1.width + Text.byteLength back
              = Text.byteLength (c :: rest) := by
            rw [← hback, byteLength_append]
            rfl
          have hpush := h.push_shifted hctx hnested (Piece.next alone.current.isEmpty c rest).1
            (by omega)
          rw [Reading.run, Reading.run, h.current]
          generalize hstep : Piece.next alone.current.isEmpty c rest = step at *
          generalize halone : alone.push step.1 = result, hr : r.push step.1 = result' at hpush ⊢
          cases hpush with
          | error e => exact .error e
          | @ok alone' r' hnext =>
              have htaken := taken_of_push hstep halone
              have hrest := htaken.length
              have hpos := h.pos
              have hpos' := (push_movesPast hr).pos
              have hnested' := hnested.push halone (by omega) htaken.width_pos htaken.custom
              exact ih step.2.length (by simp only [← hn, List.length_cons]; omega) hnext hnested' _
                (by omega) rfl

end Within

end Reading

/-! ## The two forests -/

/-- Two forests as one, in which the comments of both come first. -/
def joined (first second : List Node) : List Node :=
  first.filter Node.isComment ++ second.filter Node.isComment ++
    (first.filter (fun node => !node.isComment) ++ second.filter (fun node => !node.isComment))

lemma Node.isComment_mapSpans (f : Span → Span) (node : Node) :
    (node.mapSpans f).isComment = node.isComment := by
  cases node <;> rfl

lemma Node.isComment_mapSpansAll {nodes : List Node} {b : Bool} (f : Span → Span)
    (h : ∀ node ∈ nodes, node.isComment = b) : ∀ node ∈ mapSpansAll f nodes, node.isComment = b := by
  intro node hnode
  rw [mapSpansAll_eq_map, List.mem_map] at hnode
  obtain ⟨node, hmem, rfl⟩ := hnode
  rw [isComment_mapSpans, h node hmem]

/-- Comments stand in front, so they can be told apart again. -/
lemma filter_comments_append {comments others : List Node}
    (hcomments : ∀ node ∈ comments, node.isComment = true)
    (hothers : ∀ node ∈ others, node.isComment = false) :
    (comments ++ others).filter Node.isComment = comments ∧
      (comments ++ others).filter (fun node => !node.isComment) = others := by
  rw [List.filter_append, List.filter_append, List.filter_eq_self.2 hcomments,
    List.filter_eq_nil_iff.2 (by simpa using hothers),
    List.filter_eq_nil_iff.2 (by simpa using hcomments),
    List.filter_eq_self.2 (by simpa using hothers)]
  exact ⟨List.append_nil _, rfl⟩

/-- Joining puts the comments of both forests in front. -/
lemma joined_of_comments {comments others comments' others' : List Node}
    (hcomments : ∀ node ∈ comments, node.isComment = true)
    (hothers : ∀ node ∈ others, node.isComment = false)
    (hcomments' : ∀ node ∈ comments', node.isComment = true)
    (hothers' : ∀ node ∈ others', node.isComment = false) :
    joined (comments ++ others) (comments' ++ others')
      = comments ++ comments' ++ (others ++ others') := by
  obtain ⟨hfirst, hfirst'⟩ := filter_comments_append hcomments hothers
  obtain ⟨hsecond, hsecond'⟩ := filter_comments_append hcomments' hothers'
  rw [joined, hfirst, hfirst', hsecond, hsecond']

namespace Reading

/-- The comments that a reader has noted are comments, and the nodes that it has finished are none. -/
lemma Nested.isComment {r : Reading} (h : r.Nested) (hopened : r.opened = []) :
    (∀ node ∈ r.licences.reverse, node.isComment = true) ∧
      ∀ node ∈ r.finished.reverse, node.isComment = false := by
  constructor
  · intro node hnode
    obtain ⟨text, s, rfl, -⟩ := h.noted.of_mem (List.mem_reverse.1 hnode)
    rfl
  · intro node hnode
    have hvisit := Node.mem_visitsAll.2 ⟨node, hnode, Node.mem_visits_self 0 node⟩
    exact ((h.laidOut hopened).fits 0 _ hvisit).2

/-- The end: a rule that is open is an error for both, and otherwise the forest of the second is the
two. -/
lemma Within.finish_shifted {ctx alone r : Reading} (hctx : ctx.opened = []) (h : Within ctx alone r)
    (hfirst : ctx.Nested) (hnested : alone.Nested)
    (hheads : ∀ rule ∈ alone.opened, rule.start ≤ rule.bodyStart ∧ rule.bodyStart ≤ alone.pos)
    (hsize : r.pos < Span.offsetBound) :
    (∃ e, alone.finish = .error e ∧ r.finish = .error (e.mapSpan (Span.forward ctx.pos))) ∨
      ∃ second, alone.finish = .ok second ∧ r.finish = .ok (joined
        (ctx.licences.reverse ++ ctx.finished.reverse)
        (Node.mapSpansAll (Span.forward ctx.pos) second)) := by
  have hopened' := h.opened_eq hctx
  cases hopened : alone.opened with
  | cons rule outer =>
      left
      rw [hopened, List.map_cons] at hopened'
      obtain ⟨hstart, hbody⟩ := hheads rule (by simp [hopened])
      have hpos := h.pos
      refine ⟨_, by rw [finish, hopened], ?_⟩
      rw [finish, hopened']
      dsimp only [OpenRule.forward, ReadError.mapSpan]
      rw [span_forward h.file hstart (by omega)]
  | nil =>
      right
      rw [hopened, List.map_nil] at hopened'
      refine ⟨_, by rw [finish, hopened], ?_⟩
      rw [finish, hopened']
      dsimp only
      obtain ⟨hcomments, hothers⟩ := hfirst.isComment hctx
      obtain ⟨hcomments', hothers'⟩ := hnested.isComment hopened
      rw [Node.mapSpansAll_append, joined_of_comments hcomments hothers
        (Node.isComment_mapSpansAll _ hcomments') (Node.isComment_mapSpansAll _ hothers'), h.licences,
        h.finished_eq hctx, List.reverse_append, List.reverse_append, Node.mapSpansAll_reverse,
        Node.mapSpansAll_reverse]

/-- A text that is read behind a stop, and by itself. -/
lemma Nested.read_shifted {r : Reading} (h : r.Nested) (hcurrent : r.current = [])
    (hopened : r.opened = []) (back : String)
    (hsize : r.pos + Text.byteLength back.toList < Span.offsetBound) :
    (∃ e, readStylesheet r.file back = .error e ∧
        (r.run back.toList).bind finish = .error (e.mapSpan (Span.forward r.pos))) ∨
      ∃ second, readStylesheet r.file back = .ok second ∧
        (r.run back.toList).bind finish = .ok (joined (r.licences.reverse ++ r.finished.reverse)
          (Node.mapSpansAll (Span.forward r.pos) second)) := by
  have hshifted := (Within.here hcurrent).run_shifted hopened (.fresh _) back.toList hsize
  have hplaced := (Placed.fresh r.file back.toList).run (by omega) (List.nil_append _) rfl
  rw [readStylesheet]
  generalize halone : ({ file := r.file } : Reading).run back.toList = result,
    r.run back.toList = result' at hshifted hplaced ⊢
  cases hshifted with
  | error e => exact Or.inl ⟨e, rfl, rfl⟩
  | @ok alone s hs =>
      obtain ⟨hnested, -, hpos⟩ := (Nested.fresh r.file).run (by rw [Nat.zero_add]; omega) halone
      have hplace := hs.pos
      rw [Nat.zero_add] at hpos
      refine hs.finish_shifted hopened h hnested (fun rule hrule => ?_) (by omega)
      have hhead := hplaced.1.opened rule hrule
      exact ⟨hhead.start_le, hhead.bodyStart_le⟩

end Reading

/-- **Reading distributes over concatenation.**  Take a text that ends with a statement, a declaration or
a block, outside of all blocks.  It can be read, and with any other text behind it reading fails if the
other text cannot be read, with the same error further on, and otherwise gives the forests of both, the
comments in front and the second further on. -/
theorem readStylesheet_append {file : Nat} {front : String} {last : Piece} {r : Reading}
    (hlast : Reading.EndsWith { file } front.toList last r) (hstops : last.stops = true)
    (hopened : r.opened = []) (back : String)
    (hsize : (front ++ back).utf8ByteSize < Span.offsetBound) :
    ∃ first, readStylesheet file front = .ok first ∧
      (∀ e, readStylesheet file back = .error e →
        readStylesheet file (front ++ back)
          = .error (e.mapSpan (Span.forward front.utf8ByteSize))) ∧
      (∀ second, readStylesheet file back = .ok second →
        readStylesheet file (front ++ back)
          = .ok (joined first (Node.mapSpansAll (Span.forward front.utf8ByteSize) second))) := by
  rw [← byteLength_toList, String.toList_append, byteLength_append] at hsize
  rw [← byteLength_toList front]
  have hfront := hlast.run_eq hstops
  obtain ⟨hnested, hfile, hpos⟩ := (Reading.Nested.fresh file).run
    (by rw [Nat.zero_add]; omega) hfront
  rw [Nat.zero_add] at hpos
  obtain rfl : r.file = file := hfile
  have hread : readStylesheet r.file (front ++ back) = (r.run back.toList).bind Reading.finish := by
    rw [readStylesheet, String.toList_append, hlast.run_append hstops]
    cases r.run back.toList <;> rfl
  rw [hread, ← hpos]
  refine ⟨r.licences.reverse ++ r.finished.reverse, ?_, ?_⟩
  · rw [readStylesheet, hfront]
    dsimp only
    rw [Reading.finish, hopened]
  · rcases hnested.read_shifted (hlast.current hstops) hopened back (by omega) with
      ⟨e, hback, hwhole⟩ | ⟨second, hback, hwhole⟩
    · rw [hback, hwhole]
      exact ⟨fun _ he => by rw [Except.error.inj he], fun _ hok => by cases hok⟩
    · rw [hback, hwhole]
      exact ⟨fun _ he => (by cases he), fun _ hok => by rw [Except.ok.inj hok]⟩

namespace Sample

/-- A licence and a custom property, and behind them a licence and a rule. -/
def before : String := "/*!l*/--a:b;"

def behind : String := ".c\x7b/*!m*/d:e\x7d"

end Sample

theorem readStylesheet_append_licences :
    ∃ r, Reading.EndsWith { file := 1 } Sample.before.toList (.custom "--a:b".toList true) r ∧
      r.opened = [] ∧ (Sample.before ++ Sample.behind).utf8ByteSize < Span.offsetBound ∧
      readStylesheet 1 (Sample.before ++ Sample.behind)
        = .ok [.comment "!l" (some ⟨1, 0, 6⟩), .comment "!m" (some ⟨1, 15, 21⟩),
          .declaration "--a" "b" false (some ⟨1, 6, 12⟩),
          .rule ".c" [.declaration "d" "e" false (some ⟨1, 21, 24⟩)] true (some ⟨1, 12, 25⟩)] := by
  have hlast : Reading.EndsWith { file := 1 } Sample.before.toList (.custom "--a:b".toList true) _ :=
    .more rfl rfl (.last rfl rfl)
  have hsize : (Sample.before ++ Sample.behind).utf8ByteSize < Span.offsetBound := by decide
  have hbefore : readStylesheet 1 Sample.before = .ok [.comment "!l" (some ⟨1, 0, 6⟩),
      .declaration "--a" "b" false (some ⟨1, 6, 12⟩)] := by
    with_unfolding_all rfl
  have hbehind : readStylesheet 1 Sample.behind = .ok [.comment "!m" (some ⟨1, 3, 9⟩),
      .rule ".c" [.declaration "d" "e" false (some ⟨1, 9, 12⟩)] true (some ⟨1, 0, 13⟩)] := by
    with_unfolding_all rfl
  obtain ⟨first, hfirst, -, hboth⟩ := readStylesheet_append hlast rfl rfl Sample.behind hsize
  obtain rfl := Except.ok.inj (hbefore.symm.trans hfirst)
  exact ⟨_, hlast, rfl, hsize, hboth _ hbehind⟩

end UtilityCss
