import Mathlib.Data.List.Perm.Basic
import Mathlib.Data.List.Nodup
import Mathlib.Tactic.Common
import UtilityCss.Stylesheet.Reader

/-!
# Where nodes begin

No two rules or declarations of a source begin at the same byte: `readStylesheet_marks`.  The reader
gives a node the offset where its text began, and by then it has moved past that offset for good,
so the offsets already given away lie in front of its `edge`.  `Reading.Ordered` is that invariant,
`Ordered.push` its step and `Ordered.run` its run; `Marking` is what a single piece does to the offsets
given away.

Offsets are counted in bytes and kept in 32-bit words, so the statement is about sources shorter
than `Span.offsetBound`.  That the offset of the reader never passes the length of the source is
`Piece.next_source`: a piece and what is left behind it are the text they were taken from.
-/

namespace UtilityCss

/-! ## Pieces make up the text -/

/-- Nothing of a comment is lost. -/
lemma commentBody_source (cs : List Char) :
    (commentBody cs).1 ++ ((if (commentBody cs).2.1 then ['*', '/'] else []) ++
      (commentBody cs).2.2) = cs := by
  fun_induction commentBody cs with
  | case1 => rfl
  | case2 rest => rfl
  | case3 c rest text closed rest' hbody ih =>
      rw [hbody] at ih
      exact congrArg ('\\' :: c :: ·) ih
  | case4 c rest hend hesc text closed rest' hbody ih =>
      rw [hbody] at ih
      exact congrArg (c :: ·) ih

lemma head?_commentBody (cs : List Char) :
    ((commentBody cs).1.head? == some '!') = (cs.head? == some '!') := by
  fun_cases commentBody cs <;> simp

lemma StringEnd.cons_eq_closed {front text rest : List Char} {e : StringEnd}
    (h : e.cons front = .closed text rest) :
    ∃ back, e = .closed back rest ∧ front ++ back = text := by
  cases e with
  | closed back rest' =>
      obtain ⟨rfl, rfl⟩ := StringEnd.closed.inj h
      exact ⟨back, rfl, rfl⟩
  | cutOff back => cases h

/-- Nothing of a closed literal is lost. -/
lemma stringBody_source {quote : Char} {cs text rest : List Char}
    (h : stringBody quote cs = .closed text rest) : text ++ quote :: rest = cs := by
  fun_induction stringBody quote cs generalizing text rest with
  | case1 => cases h
  | case2 c cs ih =>
      obtain ⟨back, hback, rfl⟩ := StringEnd.cons_eq_closed h
      simp [ih hback]
  | case3 cs =>
      obtain ⟨rfl, rfl⟩ := StringEnd.closed.inj h
      rfl
  | case4 c cs hquote hcut => cases h
  | case5 cs => cases h
  | case6 c cs hesc hquote hcut hline ih =>
      obtain ⟨back, hback, rfl⟩ := StringEnd.cons_eq_closed h
      simp [ih hback]

lemma bracketsAfter_of_not_mem {brackets : List Char} {c : Char} (hopen : c ∉ ['(', '[', '{'])
    (hclose : c ∉ brackets) : bracketsAfter brackets c = brackets := by
  have hcloser : closer? c = none := by
    fun_cases closer? c with
    | case4 => rfl
    | _ => exact absurd (by decide) hopen
  rw [bracketsAfter, hcloser]
  refine if_neg fun hhead => hclose ?_
  rw [beq_iff_eq] at hhead
  exact List.mem_of_mem_head? hhead

/-- Only closing brackets are ever expected. -/
lemma mem_of_mem_bracketsAfter {brackets : List Char} {c x : Char}
    (h : x ∈ bracketsAfter brackets c) : x ∈ brackets ∨ x ∈ [')', ']', '}'] := by
  rw [bracketsAfter] at h
  split at h
  next close hclose =>
    rcases List.mem_cons.1 h with rfl | h
    · right
      revert hclose
      fun_cases closer? c <;> rintro ⟨⟩ <;> decide
    · exact Or.inl h
  next =>
    split_ifs at h
    · exact Or.inl (List.mem_of_mem_tail h)
    · exact Or.inl h

/-- Nothing of a custom property is lost. -/
lemma customBody_source (inComment : Bool) (brackets cs : List Char) :
    (customBody inComment brackets cs).1 ++
      ((if (customBody inComment brackets cs).2.1 then [';'] else []) ++
        (customBody inComment brackets cs).2.2) = cs := by
  fun_induction customBody inComment brackets cs with
  | case1 => rfl
  | case2 inComment brackets c rest text ended rest' hbody ih =>
      rw [hbody] at ih
      exact congrArg ('\\' :: c :: ·) ih
  | case3 brackets rest text ended rest' hbody ih =>
      rw [hbody] at ih
      exact congrArg ('/' :: '*' :: ·) ih
  | case4 brackets rest text ended rest' hbody ih =>
      rw [hbody] at ih
      exact congrArg ('*' :: '/' :: ·) ih
  | case5 brackets c rest hesc hend text ended rest' hbody ih =>
      rw [hbody] at ih
      exact congrArg (c :: ·) ih
  | case6 brackets c rest hesc hcomment hsemi =>
      rw [Bool.and_eq_true, beq_iff_eq] at hsemi
      rw [hsemi.2]
      rfl
  | case7 brackets c rest hesc hcomment hsemi hbrace => rfl
  | case8 brackets c rest hesc hcomment hsemi hbrace text ended rest' hbody ih =>
      rw [hbody] at ih
      exact congrArg (c :: ·) ih

namespace Piece

lemma head?_eq_some_of_beq {c : Char} {rest : List Char} (h : (rest.head? == some c) = true) :
    rest = c :: rest.tail := by
  cases rest with
  | nil => simp at h
  | cons d rest => simpa using h

/-- A piece and what is left behind it are the text they were taken from, unless a literal was cut
off. -/
lemma next_source (fresh : Bool) (c : Char) (rest : List Char)
    (hbroken : ∀ text, (next fresh c rest).1 ≠ .brokenString text) :
    (next fresh c rest).1.source ++ (next fresh c rest).2 = c :: rest := by
  revert hbroken
  fun_cases next fresh c rest with
  | case1 hesc =>
      subst hesc
      cases rest <;> exact fun _ => rfl
  | case2 _ hcomment body =>
      intro _
      rw [Bool.and_eq_true, decide_eq_true_eq] at hcomment
      obtain ⟨rfl, hstar⟩ := hcomment
      have hsource := commentBody_source rest.tail
      rw [head?_eq_some_of_beq hstar]
      simp only [source, List.cons_append, List.append_assoc]
      exact congrArg ('/' :: '*' :: ·) hsource
  | case3 _ _ hquote body =>
      intro hbroken
      cases hbody : stringBody c rest with
      | closed text rest' =>
          have hsource := stringBody_source hbody
          simp [body, hbody, quoted, source, hsource]
      | cutOff text =>
          simp only [body, hbody, quoted] at hbroken
          exact absurd rfl (hbroken _)
  | case6 _ _ _ _ _ hcustom body =>
      intro _
      rw [Bool.and_eq_true, Bool.and_eq_true, decide_eq_true_eq] at hcustom
      obtain ⟨⟨rfl, hdash⟩, -⟩ := hcustom
      have hsource := customBody_source false [] rest.tail
      rw [head?_eq_some_of_beq hdash]
      simp only [source, List.cons_append, List.append_assoc]
      exact congrArg ('-' :: '-' :: ·) hsource
  -- Every other piece is the one character it begins with.
  | case4 => exact fun _ => rfl
  | case5 _ _ _ _ hline => exact fun _ => hline ▸ rfl
  | case7 _ _ _ _ _ _ hsemi => exact fun _ => hsemi ▸ rfl
  | case8 _ _ _ _ _ _ _ hopen => exact fun _ => hopen ▸ rfl
  | case9 _ _ _ _ _ _ _ _ hclose => exact fun _ => hclose ▸ rfl
  | case10 => exact fun _ => rfl

/-- A custom property is read only where no other text is being collected. -/
lemma fresh_of_next_custom {fresh : Bool} {c : Char} {rest text : List Char} {ended : Bool}
    (h : (next fresh c rest).1 = .custom text ended) : fresh = true := by
  revert h
  fun_cases next fresh c rest with
  | case1 => cases rest <;> rintro ⟨⟩
  | case3 _ _ hquote body => cases hbody : stringBody c rest <;> simp [body, hbody, quoted]
  | case6 _ _ _ _ _ hcustom body =>
      rw [Bool.and_eq_true] at hcustom
      exact fun _ => hcustom.2
  | _ => rintro ⟨⟩

end Piece

lemma byteLength_append (a b : List Char) :
    Text.byteLength (a ++ b) = Text.byteLength a + Text.byteLength b := by
  induction a with
  | nil => simp [Text.byteLength]
  | cons c a ih => simp [Text.byteLength, ih]; omega

lemma byteLength_toList (text : String) : Text.byteLength text.toList = text.utf8ByteSize := by
  have hlist : ∀ cs : List Char, Text.byteLength cs = (String.ofList cs).utf8ByteSize := by
    intro cs
    induction cs with
    | nil => rfl
    | cons c cs ih =>
        rw [show c :: cs = [c] ++ cs from rfl, String.ofList_append, String.utf8ByteSize_append,
          ← ih, byteLength_append, ← String.singleton_eq_ofList, String.utf8ByteSize_singleton]
        rfl
  rw [hlist, String.ofList_toList]

lemma byteLength_pos {cs : List Char} (h : cs ≠ []) : 0 < Text.byteLength cs := by
  cases cs with
  | nil => exact absurd rfl h
  | cons c cs =>
      have := c.utf8Size_pos
      rw [Text.byteLength]
      omega

/-- A piece has at least one byte, and moves past no more than the text has. -/
lemma Piece.next_width (fresh : Bool) (c : Char) (rest : List Char)
    (hbroken : ∀ text, (Piece.next fresh c rest).1 ≠ .brokenString text) :
    0 < (Piece.next fresh c rest).1.width ∧
      (Piece.next fresh c rest).1.width + Text.byteLength (Piece.next fresh c rest).2 =
        Text.byteLength (c :: rest) := by
  have hsource := Piece.next_source fresh c rest hbroken
  constructor
  · refine byteLength_pos fun hnil => ?_
    have hlength := Piece.next_length fresh c rest
    rw [hnil, List.nil_append] at hsource
    rw [hsource, List.length_cons] at hlength
    omega
  · rw [Piece.width, ← byteLength_append, hsource]

/-! ## Marks -/

/-- The file and the offset where a span begins. -/
def Span.mark (s : Span) : Nat × Nat := (s.file, s.start)

mutual

/-- The marks of the rules and declarations of a tree. -/
def Node.marks : Node → List (Option (Nat × Nat))
  | .rule _ nodes _ span => span.map Span.mark :: marksAll nodes
  | .declaration _ _ _ span => [span.map Span.mark]
  | .comment _ _ => []

def Node.marksAll : List Node → List (Option (Nat × Nat))
  | [] => []
  | node :: rest => marks node ++ marksAll rest

end

lemma Node.marksAll_append (a b : List Node) :
    Node.marksAll (a ++ b) = Node.marksAll a ++ Node.marksAll b := by
  induction a with
  | nil => rfl
  | cons node rest ih => simp [Node.marksAll, ih]

/-- The order of trees does not matter to which marks there are. -/
lemma Node.marksAll_reverse (nodes : List Node) :
    (Node.marksAll nodes.reverse).Perm (Node.marksAll nodes) := by
  induction nodes with
  | nil => exact .refl _
  | cons node rest ih =>
      rw [List.reverse_cons, marksAll_append]
      simp only [marksAll, List.append_nil]
      exact (ih.append_right _).trans List.perm_append_comm

namespace Reading

/-- The marks of a rule whose block is open. -/
def openMarks (file : Nat) (rule : OpenRule) : List (Option (Nat × Nat)) :=
  some (file, rule.start) :: Node.marksAll rule.nodes

/-- The marks given away so far. -/
def marks (r : Reading) : List (Option (Nat × Nat)) :=
  Node.marksAll r.finished ++ r.opened.flatMap (openMarks r.file)

/-- Where the next node begins. -/
def edge (r : Reading) : Nat :=
  if r.current.isEmpty then r.pos else r.currentStart

@[simp]
lemma attach_file (r : Reading) (node : Node) : (r.attach node).file = r.file := by
  unfold attach; split <;> rfl

@[simp]
lemma attach_pos (r : Reading) (node : Node) : (r.attach node).pos = r.pos := by
  unfold attach; split <;> rfl

@[simp]
lemma attach_licences (r : Reading) (node : Node) : (r.attach node).licences = r.licences := by
  unfold attach; split <;> rfl

@[simp]
lemma attach_current (r : Reading) (node : Node) : (r.attach node).current = r.current := by
  unfold attach; split <;> rfl

lemma marks_attach (r : Reading) (node : Node) :
    (r.attach node).marks.Perm (node.marks ++ r.marks) := by
  unfold attach marks
  cases r.opened with
  | nil => simp [Node.marksAll]
  | cons rule outer =>
      simp only [List.flatMap_cons, openMarks, Node.marksAll, List.cons_append, List.append_assoc]
      have hinner := List.perm_append_comm_assoc [some (r.file, rule.start)] node.marks
        (Node.marksAll rule.nodes ++ outer.flatMap (openMarks r.file))
      exact (hinner.append_left _).trans (List.perm_append_comm_assoc _ _ _)

/-- The offsets given away are different and lie in front of the edge. -/
structure Ordered (r : Reading) : Prop where
  nodup : r.marks.Nodup
  below : ∀ mark ∈ r.marks, ∃ n, mark = some (r.file, n) ∧ n < r.edge
  edge_le : r.edge ≤ r.pos

lemma Ordered.fresh (file : Nat) : ({ file : Reading }).Ordered :=
  ⟨List.nodup_nil, nofun, Nat.le_refl _⟩

lemma Ordered.lt_edge {r : Reading} (h : r.Ordered) {start : Nat}
    (hmem : some (r.file, start) ∈ r.marks) : start < r.edge := by
  obtain ⟨n, hn, hlt⟩ := h.below _ hmem
  simp only [Option.some.injEq, Prod.mk.injEq] at hn
  omega

/-- Reading on without beginning a node keeps the order. -/
lemma Ordered.of_perm {r r' : Reading} (h : r.Ordered) (hfile : r'.file = r.file)
    (hmarks : r'.marks.Perm r.marks) (hedge : r.edge ≤ r'.edge) (hle : r'.edge ≤ r'.pos) :
    r'.Ordered := by
  refine ⟨hmarks.nodup_iff.2 h.nodup, fun mark hmark => ?_, hle⟩
  obtain ⟨n, hn, hlt⟩ := h.below mark (hmarks.mem_iff.1 hmark)
  exact ⟨n, by rw [hn, hfile], by omega⟩

/-- Beginning a node at the edge and moving past it keeps the order. -/
lemma Ordered.of_perm_cons {r r' : Reading} (h : r.Ordered) (hfile : r'.file = r.file)
    (hmarks : r'.marks.Perm (some (r.file, r.edge) :: r.marks)) (hedge : r.edge < r'.edge)
    (hle : r'.edge ≤ r'.pos) : r'.Ordered := by
  refine ⟨hmarks.nodup_iff.2 (List.nodup_cons.2 ⟨fun hmem => ?_, h.nodup⟩), fun mark hmark => ?_,
    hle⟩
  · exact Nat.lt_irrefl _ (h.lt_edge hmem)
  · rcases List.mem_cons.1 (hmarks.mem_iff.1 hmark) with rfl | hmem
    · exact ⟨r.edge, by rw [hfile], hedge⟩
    · obtain ⟨n, hn, hlt⟩ := h.below mark hmem
      exact ⟨n, by rw [hn, hfile], by omega⟩

/-! ## One piece -/

lemma edge_of_current_ne_nil {r : Reading} (h : r.current ≠ []) : r.edge = r.currentStart :=
  if_neg (by simpa using h)

lemma edge_of_current_eq_nil {r : Reading} (h : r.current = []) : r.edge = r.pos :=
  if_pos (by simpa using h)

lemma mark_ofRange {file start stop : Nat} (h : start < Span.offsetBound) :
    (Span.ofRange file start stop).mark = (file, start) := by
  rw [Span.mark, Span.ofRange, Nat.mod_eq_of_lt h]

/-- What a piece does to the marks.  They stay, and then a text that is being collected behind the piece
begins at the edge; or one is given away at the edge, which finishes the text. -/
inductive Marking (r r' : Reading) : Prop
  | stays (hmarks : r'.marks.Perm r.marks) (hstart : r'.current ≠ [] → r'.currentStart = r.edge)
  | gives (hmarks : r'.marks.Perm (some (r.file, r.edge) :: r.marks)) (hcurrent : r'.current = [])

/-- A finished node without children. -/
lemma Marking.attach_clear {r : Reading} {node : Node} (hnode : node.marks = [some (r.file, r.edge)])
    (n : Nat) : Marking r ((r.clear.attach node).advance n) := by
  refine .gives ?_ ?_
  · have hmarks := marks_attach r.clear node
    rwa [hnode] at hmarks
  · simp [advance, clear]

section step
variable {r : Reading} (hedge : r.edge < Span.offsetBound)
include hedge

lemma mark_span_edge (stop : Nat) : (r.span r.edge stop).mark = (r.file, r.edge) :=
  mark_ofRange hedge

lemma marks_declaration (text : List Char) (parts : Option (List Char × List Char)) (stop : Nat) :
    (declarationOf text parts (r.span r.edge stop)).marks = [some (r.file, r.edge)] := by
  have hmark := mark_span_edge hedge stop
  cases parts with
  | none => simp [declarationOf, Node.marks, hmark]
  | some parts =>
      obtain ⟨property, value⟩ := parts
      simp only [declarationOf]
      split <;> simp [Node.marks, hmark]

lemma marks_statement (selector : String) (stop : Nat) :
    (Node.rule selector [] false (some (r.span r.edge stop))).marks =
      [some (r.file, r.edge)] := by
  simp [Node.marks, Node.marksAll, mark_span_edge hedge stop]

omit hedge in
lemma current_ne_nil_of_readsAtRule (hat : r.readsAtRule = true) : r.current ≠ [] := by
  intro hnil
  simp [readsAtRule, text, hnil] at hat

lemma Marking.pushSemicolon : Marking r (r.pushSemicolon.advance 1) := by
  rw [Reading.pushSemicolon]
  split_ifs with hat hblank
  · refine .attach_clear ?_ 1
    rw [← edge_of_current_ne_nil (current_ne_nil_of_readsAtRule hat)]
    exact marks_statement hedge _ _
  · exact .stays (.refl _) (by simp [advance, clear])
  · have hcurrent : r.current ≠ [] := by
      intro hnil
      rw [text, hnil] at hblank
      exact hblank rfl
    refine .attach_clear ?_ 1
    rw [← edge_of_current_ne_nil hcurrent]
    exact marks_declaration hedge _ _ _

/-- Text in front of a closing brace begins a node at the edge, or there is none. -/
lemma marks_finishText :
    r.finishText.marks.Perm r.marks ∨
      r.finishText.marks.Perm (some (r.file, r.edge) :: r.marks) := by
  rw [finishText]
  split_ifs with hcurrent hat
  · exact Or.inl (.refl _)
  · refine Or.inr ?_
    have hmarks := marks_attach r.clear
      (.rule (String.ofList (Text.trim r.text)) [] false (some (r.span r.edge r.pos)))
    rw [marks_statement hedge] at hmarks
    rw [← edge_of_current_ne_nil (current_ne_nil_of_readsAtRule hat)]
    exact hmarks
  · refine Or.inr ?_
    have hmarks := marks_attach r.clear (plainDeclaration r.text (r.span r.edge r.pos))
    rw [plainDeclaration, marks_declaration hedge] at hmarks
    rw [← edge_of_current_ne_nil (by simpa using hcurrent)]
    exact hmarks

end step

@[simp]
lemma finishText_file (r : Reading) : r.finishText.file = r.file := by
  rw [finishText]; split_ifs <;> simp [clear]

@[simp]
lemma finishText_pos (r : Reading) : r.finishText.pos = r.pos := by
  rw [finishText]; split_ifs <;> simp [clear]

@[simp]
lemma finishText_licences (r : Reading) : r.finishText.licences = r.licences := by
  rw [finishText]; split_ifs <;> simp [clear]

lemma finishText_current (r : Reading) : r.finishText.current = [] := by
  rw [finishText]
  split_ifs with hcurrent
  · simpa using hcurrent
  · simp [clear]
  · simp [clear]

/-- Closing a block moves the marks of the rule from the open rules to the finished nodes. -/
lemma marks_close {r : Reading} {rule : OpenRule} {outer : List OpenRule}
    (hopened : r.opened = rule :: outer) (hstart : rule.start < Span.offsetBound) (stop : Nat) :
    ({ r with opened := outer }.attach (.rule rule.selector rule.nodes.reverse true
      (some (r.span rule.start stop)))).marks.Perm r.marks := by
  refine (marks_attach _ _).trans ?_
  have hmark : (r.span rule.start stop).mark = (r.file, rule.start) := mark_ofRange hstart
  have hrule := ((Node.marksAll_reverse rule.nodes).cons (some (r.file, rule.start))).append_right
    (Node.marksAll r.finished ++ outer.flatMap (openMarks r.file))
  simp only [Node.marks, marks, hopened, List.flatMap_cons, openMarks, Option.map_some, hmark]
  exact hrule.trans (List.perm_append_comm_assoc _ _ _)

lemma Ordered.marking_pushClosing {r r' : Reading} (h : r.Ordered) (hedge : r.edge < Span.offsetBound)
    (hpush : r.pushClosing = .ok r') : Marking r (r'.advance 1) := by
  have hfinish := marks_finishText hedge
  unfold Reading.pushClosing at hpush
  cases hopened : r.finishText.opened with
  | nil => simp [hopened] at hpush
  | cons rule outer =>
      simp only [hopened, Except.ok.injEq] at hpush
      have hstart : rule.start < Span.offsetBound := by
        have hmem : some (r.file, rule.start) ∈ r.finishText.marks := by
          simp [marks, hopened, openMarks]
        have hle : rule.start ≤ r.edge := by
          rcases hfinish with hsame | hmore
          · exact Nat.le_of_lt (h.lt_edge (hsame.mem_iff.1 hmem))
          · rcases List.mem_cons.1 (hmore.mem_iff.1 hmem) with hself | hin
            · simp only [Option.some.injEq, Prod.mk.injEq] at hself
              exact Nat.le_of_eq hself.2
            · exact Nat.le_of_lt (h.lt_edge hin)
        omega
      have hclose := marks_close hopened hstart (r.pos + 1)
      have hspan : r.finishText.span rule.start (r.pos + 1) = r.span rule.start (r.pos + 1) := by
        simp [span]
      rw [hspan, hpush] at hclose
      have hcurrent : r'.current = [] := by simp [← hpush, finishText_current]
      rcases hfinish with hsame | hmore
      · exact .stays (hclose.trans hsame) fun hne => absurd hcurrent hne
      · exact .gives (hclose.trans hmore) hcurrent

namespace Marking

/-- Moving on without touching the text. -/
lemma advance (r : Reading) (n : Nat) : Marking r (r.advance n) :=
  .stays (.refl _) fun hne => (edge_of_current_ne_nil (r := r) hne).symm

lemma append (r : Reading) (text : List Char) (n : Nat) : Marking r ((r.append text).advance n) :=
  .stays (.refl _) fun _ => rfl

lemma pushPlain (r : Reading) (c : Char) (n : Nat) : Marking r ((r.pushPlain c).advance n) := by
  rw [Reading.pushPlain]
  split_ifs
  · exact .advance r n
  · exact .append r [c] n

lemma pushNewline (r : Reading) (n : Nat) : Marking r (r.pushNewline.advance n) := by
  rw [Reading.pushNewline]
  split
  · exact .advance r n
  next last before hcurrent =>
    split_ifs
    · exact .advance r n
    · refine .stays (.refl _) fun _ => ?_
      exact (edge_of_current_ne_nil (r := r) (by simp [hcurrent])).symm

lemma pushComment (r : Reading) (text : List Char) (n : Nat) :
    Marking r ((r.pushComment text n).advance n) := by
  rw [Reading.pushComment]
  split_ifs
  · exact .stays (.refl _) fun hne => (edge_of_current_ne_nil (r := r) hne).symm
  · exact .advance r n

end Marking

/-- Every piece gives away one mark at most, a custom property where no text is being collected. -/
lemma Ordered.marking {r r' : Reading} (h : r.Ordered) (hpos : r.pos < Span.offsetBound) {p : Piece}
    (hpush : r.push p = .ok r')
    (hcustom : ∀ text ended, p = .custom text ended → r.current = []) : Marking r r' := by
  have hbound : r.edge < Span.offsetBound := Nat.lt_of_le_of_lt h.edge_le hpos
  cases p with
  | verbatim text =>
      obtain rfl := Except.ok.inj hpush
      exact .append r text _
  | comment text closed =>
      obtain rfl := Except.ok.inj hpush
      exact .pushComment r text _
  | brokenString text => cases hpush
  | gap c =>
      obtain rfl := Except.ok.inj hpush
      exact .advance r _
  | newline =>
      obtain rfl := Except.ok.inj hpush
      exact .pushNewline r _
  | custom text ended =>
      obtain rfl := Except.ok.inj hpush
      have hcurrent := hcustom text ended rfl
      have hclear : r.clear = r := by
        rw [clear, ← hcurrent]
      have hattach := Marking.attach_clear (marks_declaration hbound text
        ((splitAtColon? false text).or (splitAtChar? ':' text))
        (r.pos + (Piece.custom text ended).width)) (Piece.custom text ended).width
      rw [hclear, edge_of_current_eq_nil hcurrent] at hattach
      exact hattach
  | semicolon =>
      obtain rfl := Except.ok.inj hpush
      exact .pushSemicolon hbound
  | opening =>
      obtain rfl := Except.ok.inj hpush
      exact .gives List.perm_middle rfl
  | closing =>
      cases hclosing : r.pushClosing with
      | error e => simp [Reading.push, hclosing, Except.map] at hpush
      | ok r'' =>
          simp only [Reading.push, hclosing, Except.map, Except.ok.injEq] at hpush
          obtain rfl := hpush
          exact h.marking_pushClosing hbound hclosing
  | plain c =>
      obtain rfl := Except.ok.inj hpush
      exact .pushPlain r c _

/-- What every piece does apart from nodes: it stays in the file, moves past its own bytes and notes
no licence other than comments. -/
structure MovesPast (r : Reading) (n : Nat) (r' : Reading) : Prop where
  file : r'.file = r.file
  pos : r'.pos = r.pos + n
  licences : Node.marksAll r'.licences = Node.marksAll r.licences

lemma pushClosing_movesPast {r r' : Reading} (h : r.pushClosing = .ok r') : MovesPast r 0 r' := by
  unfold Reading.pushClosing at h
  cases hopened : r.finishText.opened with
  | nil => simp [hopened] at h
  | cons rule outer =>
      simp only [hopened, Except.ok.injEq] at h
      constructor <;> simp [← h]

lemma push_movesPast {r r' : Reading} {p : Piece} (hpush : r.push p = .ok r') :
    MovesPast r p.width r' := by
  cases p with
  | brokenString text => cases hpush
  | closing =>
      cases hclosing : r.pushClosing with
      | error e => simp [Reading.push, hclosing, Except.map] at hpush
      | ok r'' =>
          simp only [Reading.push, hclosing, Except.map, Except.ok.injEq] at hpush
          obtain ⟨hfile, hpos, hlicences⟩ := pushClosing_movesPast hclosing
          constructor <;> simp [← hpush, Reading.advance, hfile, hpos, hlicences]
  | semicolon =>
      obtain rfl := Except.ok.inj hpush
      constructor <;> simp only [Reading.advance, Reading.pushSemicolon] <;> split_ifs <;>
        simp [clear]
  | comment text closed =>
      obtain rfl := Except.ok.inj hpush
      constructor <;> simp only [Reading.advance, pushComment] <;> split_ifs <;>
        simp [Node.marksAll, Node.marks]
  | newline =>
      obtain rfl := Except.ok.inj hpush
      constructor <;> simp only [Reading.advance, pushNewline] <;> split <;>
        first | rfl | (split_ifs <;> rfl)
  | plain c =>
      obtain rfl := Except.ok.inj hpush
      constructor <;> simp only [Reading.advance, pushPlain] <;> split_ifs <;> rfl
  | verbatim text => obtain rfl := Except.ok.inj hpush; exact ⟨rfl, rfl, rfl⟩
  | gap c => obtain rfl := Except.ok.inj hpush; exact ⟨rfl, rfl, rfl⟩
  | opening => obtain rfl := Except.ok.inj hpush; exact ⟨rfl, rfl, rfl⟩
  | custom text ended =>
      obtain rfl := Except.ok.inj hpush
      constructor <;> simp [Reading.advance]

/-- The step: every piece keeps the order. -/
lemma Ordered.push {r r' : Reading} (h : r.Ordered) (hpos : r.pos < Span.offsetBound) {p : Piece}
    (hpush : r.push p = .ok r') (hwidth : 0 < p.width)
    (hcustom : ∀ text ended, p = .custom text ended → r.current = []) : r'.Ordered := by
  obtain ⟨hfile, hplace, -⟩ := push_movesPast hpush
  have hle := h.edge_le
  cases h.marking hpos hpush hcustom with
  | stays hmarks hstart =>
      by_cases hcurrent : r'.current = []
      · have hedge := edge_of_current_eq_nil hcurrent
        exact h.of_perm hfile hmarks (by omega) (by omega)
      · have hedge := edge_of_current_ne_nil hcurrent
        have := hstart hcurrent
        exact h.of_perm hfile hmarks (by omega) (by omega)
  | gives hmarks hcurrent =>
      have hedge := edge_of_current_eq_nil hcurrent
      exact h.of_perm_cons hfile hmarks (by omega) (by omega)

/-- The order is kept to the end of the text. -/
theorem Ordered.run {r r' : Reading} (h : r.Ordered) {cs : List Char}
    (hsize : r.pos + Text.byteLength cs < Span.offsetBound) (hrun : r.run cs = .ok r') :
    r'.Ordered ∧ r'.file = r.file ∧ Node.marksAll r'.licences = Node.marksAll r.licences := by
  fun_induction Reading.run r cs with
  | case1 r =>
      obtain rfl := Except.ok.inj hrun
      exact ⟨h, rfl, rfl⟩
  | case2 r c rest step e herror => cases hrun
  | case3 r c rest step next hok ih =>
      have hbroken : ∀ text, step.1 ≠ .brokenString text := by
        intro text hbroken
        rw [hbroken] at hok
        cases hok
      obtain ⟨hwidth, hlength⟩ : 0 < step.1.width ∧
          step.1.width + Text.byteLength step.2 = Text.byteLength (c :: rest) :=
        Piece.next_width r.current.isEmpty c rest hbroken
      obtain ⟨hfile, hplace, hlicences⟩ := push_movesPast hok
      have hnext : next.Ordered := by
        refine h.push (by omega) hok hwidth fun text ended hcustom => ?_
        simpa using Piece.fresh_of_next_custom hcustom
      obtain ⟨hordered, hfile', hlicences'⟩ := ih hnext (by omega) hrun
      exact ⟨hordered, hfile'.trans hfile, hlicences'.trans hlicences⟩

end Reading

section
variable {file : Nat} {text : String} (hsize : text.utf8ByteSize < Span.offsetBound)
  {nodes : List Node} (hread : readStylesheet file text = .ok nodes)
include hsize hread

/-- The marks of a forest are those that its reader has given away; licences have none. -/
lemma exists_marks_of_readStylesheet : ∃ r, ({ file : Reading }).run text.toList = .ok r ∧
    r.Ordered ∧ r.file = file ∧ (Node.marksAll nodes).Perm r.marks := by
  unfold readStylesheet at hread
  cases hrun : ({ file : Reading }).run text.toList with
  | error e => simp [hrun] at hread
  | ok r =>
      simp only [hrun] at hread
      have hlength : Text.byteLength text.toList < Span.offsetBound := by
        rwa [byteLength_toList]
      obtain ⟨hordered, hfile, hlicences⟩ := (Reading.Ordered.fresh file).run (by simpa using hlength) hrun
      refine ⟨r, rfl, hordered, hfile, ?_⟩
      unfold Reading.finish at hread
      cases hopened : r.opened with
      | cons rule outer => simp [hopened] at hread
      | nil =>
          simp only [hopened, Except.ok.injEq] at hread
          have hnone : Node.marksAll r.licences.reverse = [] := by
            have := Node.marksAll_reverse r.licences
            rw [hlicences] at this
            exact List.perm_nil.1 this
          rw [← hread, Node.marksAll_append, hnone, List.nil_append, Reading.marks, hopened,
            List.flatMap_nil, List.append_nil]
          exact Node.marksAll_reverse r.finished

/-- In a source shorter than `Span.offsetBound` no two rules or declarations begin at the same
byte. -/
theorem readStylesheet_marks :
    (Node.marksAll nodes).Nodup ∧ ∀ mark ∈ Node.marksAll nodes, ∃ n, mark = some (file, n) := by
  obtain ⟨r, -, hordered, hfile, hmarks⟩ := exists_marks_of_readStylesheet hsize hread
  refine ⟨hmarks.nodup_iff.2 hordered.nodup, fun mark hmark => ?_⟩
  obtain ⟨n, hn, -⟩ := hordered.below mark (hmarks.mem_iff.1 hmark)
  exact ⟨n, by rw [hn, hfile]⟩

end

end UtilityCss
