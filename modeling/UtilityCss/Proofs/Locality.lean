import UtilityCss.Proofs.Layout

/-!
# Reading a text inside another

The reader looks one character ahead and no further, and it looks at offsets only to write them into
spans.  So what it makes of a text does not depend on where the text stands.

**Pieces.**  A piece is the same piece in front of any text that begins with the same character:
`Piece.next_append`, and `Reading.run_append` for the reader.

**Places.**  `Span.forward` moves a span, and through `Node.mapSpans` a node, to another place of
the file.  `Within ctx alone r` says that `r` is in the middle of a text of which `ctx` has read the
part in front, while `alone` has read only the part behind `ctx`: the text being collected is the
same, and everything `alone` has finished or opened stands in `r` on top of what `ctx` had, moved by
the offset of `ctx`.  Whatever piece `alone` can read keeps them so: `Within.push`.
-/

namespace UtilityCss

/-! ## Pieces -/

lemma head?_append_congr (a : List Char) {b c : List Char} (h : b.head? = c.head?) :
    (a ++ b).head? = (a ++ c).head? := by
  cases a with
  | nil => exact h
  | cons => rfl

lemma eq_cons_of_head?_eq {a b : List Char} (h : a.head? = b.head?) {c : Char} {rest : List Char}
    (ha : a = c :: rest) : b = c :: b.tail := by
  rw [ha, List.head?_cons] at h
  exact List.eq_cons_of_mem_head? h.symm

/-- A comment reads the same in front of another text, if its end can be told the same way. -/
lemma commentBody_append (cs : List Char) {tail : List Char}
    (h : tail.head? = (commentBody cs).2.2.head?) :
    commentBody ((commentBody cs).1 ++ ((if (commentBody cs).2.1 then ['*', '/'] else []) ++ tail))
      = ((commentBody cs).1, (commentBody cs).2.1, tail) := by
  fun_induction commentBody cs with
  | case1 =>
      obtain rfl : tail = [] := by simpa using h
      rfl
  | case2 rest => rfl
  | case3 c rest text closed rest' hbody ih =>
      rw [hbody] at ih
      simp only [List.cons_append, commentBody, ih h]
  | case4 c rest hend hesc text closed rest' hbody ih =>
      have hsource := commentBody_source rest
      rw [hbody] at ih hsource
      -- The text behind the character begins as it did, so it is no other case.
      have hhead : (text ++ ((if closed then ['*', '/'] else []) ++ tail)).head? = rest.head? := by
        rw [← hsource]
        exact head?_append_congr _ (head?_append_congr _ h)
      rw [List.cons_append, commentBody.eq_4, ih h]
      · intro _ hc hrest
        exact hend _ hc (eq_cons_of_head?_eq hhead hrest)
      · intro _ _ hc hrest
        exact hesc _ _ hc (eq_cons_of_head?_eq hhead hrest)

/-- A literal that is closed reads the same in front of any text. -/
lemma stringBody_append {quote : Char} (hquote : quote ≠ '\\') {cs text rest : List Char}
    (h : stringBody quote cs = .closed text rest) (tail : List Char) :
    stringBody quote (text ++ quote :: tail) = .closed text tail := by
  fun_induction stringBody quote cs generalizing text rest with
  | case1 => cases h
  | case2 c cs ih =>
      obtain ⟨back, hback, rfl⟩ := StringEnd.cons_eq_closed h
      simp only [List.cons_append, List.nil_append, stringBody, ih hback, StringEnd.cons]
  | case3 cs =>
      obtain ⟨rfl, rfl⟩ := StringEnd.closed.inj h
      rw [List.nil_append, stringBody.eq_3, if_pos rfl]
      exact fun _ _ hesc _ => hquote hesc
  | case4 c cs hquote hcut => cases h
  | case5 cs => cases h
  | case6 c cs hesc hne hcut hline ih =>
      obtain ⟨back, hback, rfl⟩ := StringEnd.cons_eq_closed h
      have hhead : (back ++ quote :: tail).head? = cs.head? := by
        rw [← stringBody_source hback]
        exact head?_append_congr back rfl
      rw [List.singleton_append, List.cons_append, stringBody.eq_3, if_neg hne, hhead, if_neg hcut,
        if_neg hline, ih hback, StringEnd.cons, List.singleton_append]
      intro _ _ hc hrest
      exact hesc _ _ hc (eq_cons_of_head?_eq hhead hrest)

/-- A custom property reads the same in front of another text, if its end can be told the same way. -/
lemma customBody_append (inComment : Bool) (brackets cs : List Char) {tail : List Char}
    (h : tail.head? = (customBody inComment brackets cs).2.2.head?) :
    customBody inComment brackets ((customBody inComment brackets cs).1 ++
        ((if (customBody inComment brackets cs).2.1 then [';'] else []) ++ tail))
      = ((customBody inComment brackets cs).1, (customBody inComment brackets cs).2.1, tail) := by
  fun_induction customBody inComment brackets cs with
  | case1 =>
      obtain rfl : tail = [] := by simpa using h
      rfl
  | case2 inComment brackets c rest text ended rest' hbody ih =>
      rw [hbody] at ih
      simp only [List.cons_append, customBody, ih h]
  | case3 brackets rest text ended rest' hbody ih =>
      rw [hbody] at ih
      simp only [List.cons_append, customBody, ih h]
  | case4 brackets rest text ended rest' hbody ih =>
      rw [hbody] at ih
      simp only [List.cons_append, customBody, ih h]
  | case5 brackets c rest hesc hend text ended rest' hbody ih =>
      have hsource := customBody_source true brackets rest
      rw [hbody] at ih hsource
      have hhead : (text ++ ((if ended then [';'] else []) ++ tail)).head? = rest.head? := by
        rw [← hsource]
        exact head?_append_congr _ (head?_append_congr _ h)
      rw [List.cons_append, customBody.eq_5, ih h]
      · intro _ _ hc hrest
        exact hesc _ _ hc (eq_cons_of_head?_eq hhead hrest)
      · intro _ hc hrest
        exact hend _ hc (eq_cons_of_head?_eq hhead hrest)
  | case6 brackets c rest hesc hcomment hsemi =>
      have hself : c = ';' := by
        rw [Bool.and_eq_true, beq_iff_eq] at hsemi
        exact hsemi.2
      subst hself
      rw [List.nil_append, if_pos rfl, List.singleton_append, customBody.eq_6, if_pos hsemi]
      · exact fun _ _ hc _ => absurd hc (by decide)
      · exact fun _ hc _ => absurd hc (by decide)
  | case7 brackets c rest hesc hcomment hsemi hbrace =>
      have hself : c = '}' := by
        rw [Bool.and_eq_true, beq_iff_eq] at hbrace
        exact hbrace.2
      subst hself
      -- The brace is left to be read, so the other text has one too.
      obtain ⟨tail, rfl⟩ := List.head?_eq_some_iff.1 h
      show customBody false brackets ('}' :: tail) = ([], false, '}' :: tail)
      rw [customBody.eq_6, if_neg hsemi, if_pos hbrace]
      · exact fun _ _ hc _ => absurd hc (by decide)
      · exact fun _ hc _ => absurd hc (by decide)
  | case8 brackets c rest hesc hcomment hsemi hbrace text ended rest' hbody ih =>
      have hsource := customBody_source false (bracketsAfter brackets c) rest
      rw [hbody] at ih hsource
      have hhead : (text ++ ((if ended then [';'] else []) ++ tail)).head? = rest.head? := by
        rw [← hsource]
        exact head?_append_congr _ (head?_append_congr _ h)
      rw [List.cons_append, customBody.eq_6, if_neg hsemi, if_neg hbrace, ih h]
      · intro _ _ hc hrest
        exact hesc _ _ hc (eq_cons_of_head?_eq hhead hrest)
      · intro _ hc hrest
        exact hcomment _ hc (eq_cons_of_head?_eq hhead hrest)

namespace Piece

/-- A piece takes something off the text. -/
lemma next_source_ne_nil (fresh : Bool) (c : Char) (rest : List Char)
    (hbroken : ∀ text, (next fresh c rest).1 ≠ .brokenString text) :
    (next fresh c rest).1.source ≠ [] := by
  intro hnil
  have hwidth := (next_width fresh c rest hbroken).1
  rw [width, hnil] at hwidth
  exact Nat.lt_irrefl 0 hwidth

/-- A piece looks at no more than one character behind its own. -/
lemma head?_of_next_append {fresh : Bool} {c : Char} {rest : List Char}
    (hbroken : ∀ text, (next fresh c rest).1 ≠ .brokenString text) {tail rest' : List Char}
    (htail : tail.head? = (next fresh c rest).2.head?)
    (hrest' : (next fresh c rest).1.source ++ tail = c :: rest') : rest'.head? = rest.head? := by
  have hsource := next_source fresh c rest hbroken
  have hne := next_source_ne_nil fresh c rest hbroken
  generalize (next fresh c rest).1.source = source at *
  cases source with
  | nil => exact absurd rfl hne
  | cons d source =>
      simp only [List.cons_append, List.cons.injEq] at hsource hrest'
      rw [← hsource.2, ← hrest'.2]
      exact head?_append_congr source htail

/-- A piece is the same piece in front of any text that begins with the same character. -/
lemma next_append {fresh : Bool} {c : Char} {rest : List Char}
    (hbroken : ∀ text, (next fresh c rest).1 ≠ .brokenString text) {tail rest' : List Char}
    (htail : tail.head? = (next fresh c rest).2.head?)
    (hrest' : (next fresh c rest).1.source ++ tail = c :: rest') :
    next fresh c rest' = ((next fresh c rest).1, tail) := by
  have hhead := head?_of_next_append hbroken htail hrest'
  revert hbroken htail hrest'
  fun_cases next fresh c rest with
  | case1 hesc =>
      intro _ htail hrest'
      rw [next, if_pos hesc]
      cases rest with
      | nil =>
          obtain rfl : tail = [] := by simpa [escaped] using htail
          obtain rfl : [] = rest' := by simpa [escaped, source, hesc] using hrest'
          rfl
      | cons d rest =>
          obtain rfl : d :: tail = rest' := by simpa [escaped, source, hesc] using hrest'
          rfl
  | case2 hesc hcomment body =>
      intro _ htail hrest'
      have hbody := commentBody_append rest.tail htail
      rw [Bool.and_eq_true] at hcomment
      obtain ⟨-, rfl⟩ : '/' = c ∧ '*' :: (body.1 ++ ((if body.2.1 then ['*', '/'] else []) ++ tail))
          = rest' := by
        simpa [source] using hrest'
      rw [next, if_neg hesc, if_pos (by simpa using hcomment.1)]
      simp only [List.tail_cons, body, hbody]
  | case3 hesc hcomment hquote body =>
      intro hbroken htail hrest'
      rw [next, if_neg hesc, hhead, if_neg hcomment, if_pos hquote]
      cases hbody : stringBody c rest with
      | cutOff text =>
          simp only [body, hbody, quoted] at hbroken
          exact absurd rfl (hbroken _)
      | closed text rest₁ =>
          obtain rfl : text ++ c :: tail = rest' := by
            simpa [body, hbody, quoted, source] using hrest'
          simp [body, hbody, quoted, stringBody_append hesc hbody tail]
  | case6 hesc hcomment hquote hgap hline hcustom body =>
      intro _ htail hrest'
      have hbody := customBody_append false [] rest.tail htail
      obtain ⟨-, rfl⟩ : '-' = c ∧ '-' :: (body.1 ++ ((if body.2.1 then [';'] else []) ++ tail))
          = rest' := by
        simpa [source] using hrest'
      rw [next, if_neg hesc, hhead, if_neg hcomment, if_neg hquote, if_neg hgap, if_neg hline,
        if_pos hcustom]
      simp only [List.tail_cons, body, hbody]
  -- Every other piece is the one character it begins with.
  | _ =>
      intro _ _ hrest'
      obtain rfl : tail = rest' := (List.cons.inj hrest').2
      rw [next, hhead]
      split_ifs
      rfl

end Piece

namespace Reading

/-- A piece that was read can be read again in front of any text that begins with the same
character. -/
lemma run_append {r r' : Reading} {p : Piece} {c : Char} {rest rest' tail : List Char}
    (hnext : Piece.next r.current.isEmpty c rest = (p, rest')) (hpush : r.push p = .ok r')
    (htail : tail.head? = rest'.head?) : r.run (p.source ++ tail) = r'.run tail := by
  obtain ⟨rfl, rfl⟩ : (Piece.next r.current.isEmpty c rest).1 = p ∧
      (Piece.next r.current.isEmpty c rest).2 = rest' := by
    simp [hnext]
  have hbroken := ne_brokenString_of_push hpush
  obtain ⟨source, hcons⟩ : ∃ source,
      (Piece.next r.current.isEmpty c rest).1.source = c :: source := by
    have hsource := Piece.next_source _ c rest hbroken
    obtain ⟨d, source, hcons⟩ :=
      List.exists_cons_of_ne_nil (Piece.next_source_ne_nil _ c rest hbroken)
    rw [hcons, List.cons_append, List.cons.injEq] at hsource
    exact ⟨source, by rw [hcons, hsource.1]⟩
  have hrest : (Piece.next r.current.isEmpty c rest).1.source ++ tail = c :: (source ++ tail) := by
    rw [hcons, List.cons_append]
  rw [hrest, Reading.run, Piece.next_append hbroken htail hrest]
  simp only [hpush]

end Reading

/-! ## Places -/

/-- The span `n` bytes further on. -/
def Span.forward (n : Nat) (s : Span) : Span :=
  { s with start := s.start + n, stop := s.stop + n }

/-- The span `n` bytes further back. -/
def Span.back (n : Nat) (s : Span) : Span :=
  { s with start := s.start - n, stop := s.stop - n }

/-- What is moved forward can be moved back. -/
lemma Span.back_forward (n : Nat) (s : Span) : (s.forward n).back n = s := by
  simp [Span.forward, Span.back]

namespace Node

mutual

/-- Changes every span of a tree. -/
def mapSpans (f : Span → Span) : Node → Node
  | .rule selector nodes hasBlock span =>
    .rule selector (mapSpansAll f nodes) hasBlock (span.map f)
  | .declaration property value important span =>
    .declaration property value important (span.map f)
  | .comment text span => .comment text (span.map f)

/-- Applies `mapSpans` to every tree of a forest. -/
def mapSpansAll (f : Span → Span) : List Node → List Node
  | [] => []
  | node :: rest => mapSpans f node :: mapSpansAll f rest

end

lemma mapSpansAll_eq_map (f : Span → Span) (nodes : List Node) :
    mapSpansAll f nodes = nodes.map (mapSpans f) := by
  induction nodes with
  | nil => rfl
  | cons node rest ih => rw [mapSpansAll, ih, List.map_cons]

mutual

/-- Where one move undoes another, spans come back. -/
lemma mapSpans_mapSpans {f g : Span → Span} (h : ∀ s, g (f s) = s) (node : Node) :
    (node.mapSpans f).mapSpans g = node := by
  have hspan : ∀ span : Option Span, (span.map f).map g = span := by
    intro span
    cases span <;> simp [h]
  cases node with
  | rule selector nodes hasBlock span =>
      rw [mapSpans, mapSpans, mapSpansAll_mapSpansAll h nodes, hspan]
  | declaration property value important span => rw [mapSpans, mapSpans, hspan]
  | comment text span => rw [mapSpans, mapSpans, hspan]

lemma mapSpansAll_mapSpansAll {f g : Span → Span} (h : ∀ s, g (f s) = s) (nodes : List Node) :
    mapSpansAll g (mapSpansAll f nodes) = nodes := by
  cases nodes with
  | nil => rfl
  | cons node rest =>
      rw [mapSpansAll, mapSpansAll, mapSpans_mapSpans h node, mapSpansAll_mapSpansAll h rest]

end

lemma mapSpansAll_reverse (f : Span → Span) (nodes : List Node) :
    mapSpansAll f nodes.reverse = (mapSpansAll f nodes).reverse := by
  simp only [mapSpansAll_eq_map, List.map_reverse]

lemma mapSpansAll_append (f : Span → Span) (a b : List Node) :
    mapSpansAll f (a ++ b) = mapSpansAll f a ++ mapSpansAll f b := by
  simp only [mapSpansAll_eq_map, List.map_append]

end Node

/-- A declaration's span is moved and its text kept. -/
lemma mapSpans_declarationOf (f : Span → Span) (text : List Char)
    (parts : Option (List Char × List Char)) (s : Span) :
    (declarationOf text parts s).mapSpans f = declarationOf text parts (f s) := by
  cases parts with
  | none => rfl
  | some parts =>
      obtain ⟨property, value⟩ := parts
      simp only [declarationOf]
      split <;> rfl

/-- The open rule `n` bytes further on. -/
def OpenRule.forward (n : Nat) (rule : OpenRule) : OpenRule :=
  { rule with
    start := rule.start + n
    bodyStart := rule.bodyStart + n
    nodes := Node.mapSpansAll (Span.forward n) rule.nodes }

namespace Reading

/-- Offsets that are moved make the span that is moved. -/
lemma span_forward {r r' : Reading} {n start stop : Nat} (hfile : r'.file = r.file)
    (hle : start ≤ stop) (hsize : stop + n < Span.offsetBound) :
    r'.span (start + n) (stop + n) = (r.span start stop).forward n := by
  rw [span_eq (by omega) hsize, span_eq hle (by omega), hfile]
  rfl

@[simp]
lemma attach_currentStart (r : Reading) (node : Node) :
    (r.attach node).currentStart = r.currentStart := by
  unfold attach; split <;> rfl

lemma attach_of_opened_eq_nil {r : Reading} (h : r.opened = []) (node : Node) :
    r.attach node = { r with finished := node :: r.finished } := by
  rw [attach, h]

lemma attach_of_opened_eq_cons {r : Reading} {rule : OpenRule} {outer : List OpenRule}
    (h : r.opened = rule :: outer) (node : Node) :
    r.attach node = { r with opened := { rule with nodes := node :: rule.nodes } :: outer } := by
  rw [attach, h]

/-- Where a node goes depends on the open rules and the finished nodes only. -/
lemma attach_congr {r s : Reading} (node : Node) (hopened : r.opened = s.opened)
    (hfinished : r.finished = s.finished) :
    (r.attach node).opened = (s.attach node).opened ∧
      (r.attach node).finished = (s.attach node).finished := by
  unfold attach
  rw [hopened, hfinished]
  split <;> simp

/-- Adds finished nodes, given newest first. -/
def attachAll (r : Reading) (nodes : List Node) : Reading :=
  nodes.foldr (fun node r => r.attach node) r

/-- `alone` reads the part of a text behind `ctx`, and `r` the whole of it. -/
structure Within (ctx alone r : Reading) : Prop where
  file : r.file = alone.file
  pos : r.pos = alone.pos + ctx.pos
  current : r.current = alone.current
  currentStart : alone.current ≠ [] → r.currentStart = alone.currentStart + ctx.pos
  licences : r.licences = Node.mapSpansAll (Span.forward ctx.pos) alone.licences ++ ctx.licences
  opened : r.opened = alone.opened.map (OpenRule.forward ctx.pos) ++
    (ctx.attachAll (Node.mapSpansAll (Span.forward ctx.pos) alone.finished)).opened
  finished : r.finished =
    (ctx.attachAll (Node.mapSpansAll (Span.forward ctx.pos) alone.finished)).finished

namespace Within

/-- Where no text is being collected, a reader may begin. -/
lemma here {r : Reading} (hcurrent : r.current = []) : Within r { file := r.file } r :=
  ⟨rfl, (Nat.zero_add _).symm, hcurrent, fun hne => absurd rfl hne, rfl, rfl, rfl⟩

variable {ctx alone r : Reading} (h : Within ctx alone r)

include h in
/-- The last node ends as far behind the context as it ended in the part alone. -/
lemma edge : r.edge = alone.edge + ctx.pos := by
  by_cases hcurrent : alone.current = []
  · rw [edge_of_current_eq_nil hcurrent, edge_of_current_eq_nil (h.current.trans hcurrent), h.pos]
  · rw [edge_of_current_ne_nil hcurrent, edge_of_current_ne_nil (by rwa [h.current]),
      h.currentStart hcurrent]

include h in
lemma advance (n : Nat) : Within ctx (alone.advance n) (r.advance n) := by
  refine { h with pos := ?_ }
  simp only [Reading.advance, h.pos]
  omega

include h in
lemma clear : Within ctx alone.clear r.clear :=
  { h with current := rfl, currentStart := fun hne => absurd rfl hne }

include h in
lemma append (text : List Char) : Within ctx (alone.append text) (r.append text) := by
  refine { h with current := ?_, currentStart := fun _ => h.edge }
  simp only [Reading.append, h.current]

include h in
/-- A finished node joins both readings. -/
lemma attach (node : Node) :
    Within ctx (alone.attach node) (r.attach (node.mapSpans (Span.forward ctx.pos))) := by
  -- The node goes to the innermost rule `alone` has opened, or else to where `ctx` puts its nodes.
  have hopened := h.opened
  cases hrules : alone.opened with
  | nil =>
      rw [hrules, List.map_nil, List.nil_append] at hopened
      have hcongr := attach_congr (node.mapSpans (Span.forward ctx.pos)) hopened h.finished
      rw [attach_of_opened_eq_nil hrules]
      refine ⟨by simpa using h.file, by simpa using h.pos, by simpa using h.current,
        by simpa using h.currentStart, by simpa using h.licences, ?_, hcongr.2⟩
      rw [hrules]
      exact hcongr.1
  | cons rule outer =>
      rw [hrules, List.map_cons, List.cons_append] at hopened
      rw [attach_of_opened_eq_cons hrules, attach_of_opened_eq_cons hopened]
      exact { h with opened := rfl }

include h in
lemma text : r.text = alone.text := by
  rw [Reading.text, Reading.text, h.current]

include h in
lemma readsAtRule : r.readsAtRule = alone.readsAtRule := by
  rw [Reading.readsAtRule, Reading.readsAtRule, h.text]

include h in
lemma pushPlain (c : Char) : Within ctx (alone.pushPlain c) (r.pushPlain c) := by
  rw [Reading.pushPlain, Reading.pushPlain, h.current]
  split_ifs
  · exact h
  · exact h.append [c]

include h in
lemma pushNewline : Within ctx alone.pushNewline r.pushNewline := by
  rw [Reading.pushNewline, Reading.pushNewline, h.current]
  cases hcurrent : alone.current with
  | nil => exact h
  | cons last before =>
      dsimp only
      split_ifs
      · exact h
      · have hne : alone.current ≠ [] := by simp [hcurrent]
        exact { h with current := rfl, currentStart := fun _ => h.currentStart hne }

include h in
/-- The span of a piece is moved. -/
lemma span_pos {n : Nat} (hsize : r.pos + n < Span.offsetBound) :
    r.span r.pos (r.pos + n) = (alone.span alone.pos (alone.pos + n)).forward ctx.pos := by
  have hpos := h.pos
  rw [show r.pos + n = alone.pos + n + ctx.pos by omega, hpos]
  exact span_forward h.file (Nat.le_add_right _ _) (by omega)

include h in
/-- A comment goes where it went alone. -/
lemma pushComment (text : List Char) (n : Nat) (hsize : r.pos + n < Span.offsetBound) :
    Within ctx (alone.pushComment text n) (r.pushComment text n) := by
  rw [Reading.pushComment, Reading.pushComment]
  split_ifs
  · refine { h with licences := ?_ }
    rw [h.licences, h.span_pos hsize]
    rfl
  · exact h

include h in
/-- The rule that is opened begins where it began alone. -/
lemma pushOpening : Within ctx alone.pushOpening r.pushOpening := by
  refine { h.clear with opened := ?_ }
  have hrule : OpenRule.forward ctx.pos ⟨String.ofList (Text.trim alone.text), alone.edge,
      alone.pos + 1, []⟩ = ⟨String.ofList (Text.trim r.text), r.edge, r.pos + 1, []⟩ := by
    rw [OpenRule.forward, h.text, h.edge, h.pos, Nat.add_right_comm]
    rfl
  show ⟨_, r.edge, _, _⟩ :: r.opened =
    OpenRule.forward ctx.pos ⟨_, alone.edge, _, _⟩ :: (_ ++ _)
  rw [hrule, h.opened]
  rfl

variable (hnested : alone.Nested)

include h hnested in
/-- The span of the node being read is moved. -/
lemma span_currentStart (hcurrent : alone.current ≠ []) {n : Nat}
    (hsize : r.pos + n < Span.offsetBound) : r.span r.currentStart (r.pos + n) =
      (alone.span alone.currentStart (alone.pos + n)).forward ctx.pos := by
  have hpos := h.pos
  have hlt := hnested.begun hcurrent
  rw [h.currentStart hcurrent, show r.pos + n = alone.pos + n + ctx.pos by omega]
  exact span_forward h.file (by omega) (by omega)

include h hnested in
/-- A semicolon finishes the node that it finished alone. -/
lemma pushSemicolon (hsize : r.pos + 1 < Span.offsetBound) :
    Within ctx alone.pushSemicolon r.pushSemicolon := by
  rw [Reading.pushSemicolon, Reading.pushSemicolon, h.readsAtRule, h.text]
  split_ifs with hat hblank
  · rw [h.span_currentStart hnested (current_ne_nil_of_readsAtRule hat) hsize]
    exact h.clear.attach _
  · exact h.clear
  · have hcurrent : alone.current ≠ [] := by
      intro hnil
      rw [Reading.text, hnil] at hblank
      exact hblank rfl
    rw [h.span_currentStart hnested hcurrent hsize, plainDeclaration, plainDeclaration,
      ← mapSpans_declarationOf]
    exact h.clear.attach _

include h hnested in
lemma finishText (hsize : r.pos < Span.offsetBound) :
    Within ctx alone.finishText r.finishText := by
  rw [Reading.finishText, Reading.finishText, h.readsAtRule, h.text, h.current]
  split_ifs with hcurrent hat
  · exact h
  · have hspan := h.span_currentStart hnested (n := 0) (current_ne_nil_of_readsAtRule hat) hsize
    rw [Nat.add_zero, Nat.add_zero] at hspan
    rw [hspan]
    exact h.clear.attach _
  · have hspan := h.span_currentStart hnested (n := 0) (by simpa using hcurrent) hsize
    rw [Nat.add_zero, Nat.add_zero] at hspan
    rw [hspan, plainDeclaration, plainDeclaration, ← mapSpans_declarationOf]
    exact h.clear.attach _

include h in
/-- The innermost open rule is the same in both readings, and so are those outside it. -/
lemma pop {rule rule' : OpenRule} {outer outer' : List OpenRule}
    (halone : alone.opened = rule :: outer) (hr : r.opened = rule' :: outer') :
    rule' = rule.forward ctx.pos ∧
      Within ctx { alone with opened := outer } { r with opened := outer' } := by
  have hopened := h.opened
  rw [halone, hr, List.map_cons, List.cons_append, List.cons.injEq] at hopened
  exact ⟨hopened.1, { h with opened := hopened.2 }⟩

include h hnested in
/-- The rule that is closed is the same, with its children, but for the move. -/
lemma mapSpans_closed {rule : OpenRule} {outer : List OpenRule}
    (hopened : alone.finishText.opened = rule :: outer) (hsize : r.pos + 1 < Span.offsetBound) :
    (alone.closed rule).mapSpans (Span.forward ctx.pos) =
      r.closed (rule.forward ctx.pos) := by
  have hpos := h.pos
  have hstart : rule.start < alone.pos := by
    have hstacked := hnested.stacked_finishText (by omega)
    rw [hopened] at hstacked
    exact hstacked.2.le
  have hspan : r.span (rule.start + ctx.pos) (r.pos + 1) =
      (alone.span rule.start (alone.pos + 1)).forward ctx.pos := by
    rw [show r.pos + 1 = alone.pos + 1 + ctx.pos by omega]
    exact span_forward h.file (by omega) (by omega)
  simp only [closed, OpenRule.forward, Node.mapSpans, Node.mapSpansAll_reverse, Option.map_some,
    hspan]

include h hnested in
/-- A piece that `alone` can read keeps the readings together. -/
lemma push {p : Piece} {alone' r' : Reading} (halone : alone.push p = .ok alone')
    (hpush : r.push p = .ok r') (hsize : r.pos + p.width < Span.offsetBound) :
    Within ctx alone' r' := by
  cases p with
  | verbatim text =>
      obtain rfl := Except.ok.inj halone
      obtain rfl := Except.ok.inj hpush
      exact (h.append text).advance _
  | comment text closed =>
      obtain rfl := Except.ok.inj halone
      obtain rfl := Except.ok.inj hpush
      exact (h.pushComment text _ hsize).advance _
  | brokenString text => cases hpush
  | gap c =>
      obtain rfl := Except.ok.inj halone
      obtain rfl := Except.ok.inj hpush
      exact h.advance _
  | newline =>
      obtain rfl := Except.ok.inj halone
      obtain rfl := Except.ok.inj hpush
      exact h.pushNewline.advance _
  | custom text ended =>
      obtain rfl := Except.ok.inj halone
      obtain rfl := Except.ok.inj hpush
      rw [h.span_pos hsize, customDeclaration, customDeclaration, ← mapSpans_declarationOf]
      exact (h.attach _).advance _
  | semicolon =>
      obtain rfl := Except.ok.inj halone
      obtain rfl := Except.ok.inj hpush
      exact (h.pushSemicolon hnested hsize).advance _
  | opening =>
      obtain rfl := Except.ok.inj halone
      obtain rfl := Except.ok.inj hpush
      exact h.pushOpening.advance _
  | closing =>
      obtain ⟨rule, outer, hopened, rfl⟩ := push_closing_iff.1 halone
      obtain ⟨rule', outer', hopened', rfl⟩ := push_closing_iff.1 hpush
      have hfinish := h.finishText hnested (Nat.lt_of_succ_lt hsize)
      obtain ⟨rfl, houter⟩ := hfinish.pop hopened hopened'
      rw [← h.mapSpans_closed hnested hopened hsize]
      exact (houter.attach _).advance 1
  | plain c =>
      obtain rfl := Except.ok.inj halone
      obtain rfl := Except.ok.inj hpush
      exact (h.pushPlain c).advance _

end Within

end Reading

end UtilityCss
