import UtilityCss.Proofs.Starts

/-!
# How a stylesheet is laid out

What the spans of a tree that was read say about it: `readStylesheet_layout`.

**Forests.**  `LaidOut file lo hi nodes` says that the nodes stand one behind the other between two
offsets, the children of every block strictly inside it.  Everything about single nodes follows
from it by induction: `LaidOut.fits`.

**The reader.**  Each open rule has its finished children laid out behind its first byte, and the
rules outside it end where it begins: `Stacked`.  The next node begins at the `edge`, which no
finished node has passed, so a finished node is laid out behind the others.  `Reading.Nested` is
that invariant, `Nested.push` its step and `Nested.run` its run.

**Licences** are taken out of the tree, so they are laid out on their own: `Noted`.
-/

namespace UtilityCss

/-! ## Nodes and their neighbours -/

namespace Node

/-- The nodes in the block of a rule. -/
def children : Node → List Node
  | .rule _ nodes _ _ => nodes
  | _ => []

/-- Whether a node is a comment. -/
def isComment : Node → Bool
  | .comment _ _ => true
  | _ => false

/-- The first node ends where the second begins, or in front of it. -/
def Precedes (a b : Node) : Prop :=
  ∃ s t, a.span = some s ∧ b.span = some t ∧ s.stop ≤ t.start

/-- The second node begins behind the beginning of the first, and ends in front of its end. -/
def Encloses (a b : Node) : Prop :=
  ∃ s t, a.span = some s ∧ b.span = some t ∧ s.start < t.start ∧ t.stop < s.stop

/-- What a node of a source with `size` bytes shows by itself. -/
structure Fits (file size : Nat) (node : Node) : Prop where
  span : ∃ s, node.span = some s ∧ s.file = file ∧ s.start < s.stop ∧ s.stop ≤ size
  encloses : ∀ child ∈ node.children, node.Encloses child
  siblings : node.children.Pairwise Precedes
  statement : ∀ selector nodes span, node = .rule selector nodes false span →
    nodes = [] ∧ isAtRuleSelector selector = true

/-- What fits into a text fits into a longer one. -/
lemma Fits.mono {file size size' : Nat} {node : Node} (h : node.Fits file size)
    (hle : size ≤ size') : node.Fits file size' := by
  obtain ⟨s, hs, hfile, hlt, hstop⟩ := h.span
  exact ⟨⟨s, hs, hfile, hlt, by omega⟩, h.encloses, h.siblings, h.statement⟩

lemma visitsAll_append (depth : Nat) (a b : List Node) :
    visitsAll depth (a ++ b) = visitsAll depth a ++ visitsAll depth b := by
  induction a with
  | nil => rfl
  | cons node rest ih => simp [visitsAll, ih]

end Node

/-- The nodes of a forest stand one behind the other between two offsets, and so do the children of
every block, behind its first byte and in front of its last. -/
inductive LaidOut (file : Nat) : Nat → Nat → List Node → Prop
  | nil {lo hi : Nat} (hle : lo ≤ hi) : LaidOut file lo hi []
  | declaration {lo hi start stop : Nat} {property value : String} {important : Bool}
      {rest : List Node} (hlo : lo ≤ start) (hlt : start < stop)
      (hrest : LaidOut file stop hi rest) :
      LaidOut file lo hi (.declaration property value important (some ⟨file, start, stop⟩) :: rest)
  | statement {lo hi start stop : Nat} {selector : String} {rest : List Node} (hlo : lo ≤ start)
      (hlt : start < stop) (hat : Node.isAtRuleSelector selector = true)
      (hrest : LaidOut file stop hi rest) :
      LaidOut file lo hi (.rule selector [] false (some ⟨file, start, stop⟩) :: rest)
  | block {lo hi start inner stop : Nat} {selector : String} {nodes rest : List Node}
      (hlo : lo ≤ start) (hnodes : LaidOut file (start + 1) inner nodes) (hinner : inner < stop)
      (hrest : LaidOut file stop hi rest) :
      LaidOut file lo hi (.rule selector nodes true (some ⟨file, start, stop⟩) :: rest)

namespace LaidOut
variable {file lo hi : Nat} {nodes : List Node}

/-- A row of nodes does not end in front of where it begins. -/
lemma le (h : LaidOut file lo hi nodes) : lo ≤ hi := by
  induction h with
  | nil hle => exact hle
  | declaration _ _ _ ih => omega
  | statement _ _ _ _ ih => omega
  | block _ _ _ _ ihnodes ihrest => omega

/-- A row may begin earlier than its first node. -/
lemma mono_left (h : LaidOut file lo hi nodes) {lo' : Nat} (hle : lo' ≤ lo) :
    LaidOut file lo' hi nodes := by
  cases h with
  | nil h => exact .nil (by omega)
  | declaration hlo hlt hrest => exact .declaration (by omega) hlt hrest
  | statement hlo hlt hat hrest => exact .statement (by omega) hlt hat hrest
  | block hlo hnodes hinner hrest => exact .block (by omega) hnodes hinner hrest

/-- Two rows one behind the other are a row. -/
lemma append (h : LaidOut file lo hi nodes) {hi' : Nat} {more : List Node}
    (hmore : LaidOut file hi hi' more) : LaidOut file lo hi' (nodes ++ more) := by
  induction h with
  | nil hle => exact hmore.mono_left hle
  | declaration hlo hlt _ ih => exact .declaration hlo hlt (ih hmore)
  | statement hlo hlt hat _ ih => exact .statement hlo hlt hat (ih hmore)
  | block hlo hnodes hinner _ _ ih => exact .block hlo hnodes hinner (ih hmore)

/-- A row may end later than its last node. -/
lemma mono_right (h : LaidOut file lo hi nodes) {hi' : Nat} (hle : hi ≤ hi') :
    LaidOut file lo hi' nodes := by
  have hmore := h.append (.nil hle)
  rwa [List.append_nil] at hmore

/-- Each node stands between the offsets. -/
lemma span_of_mem (h : LaidOut file lo hi nodes) {node : Node} (hmem : node ∈ nodes) :
    ∃ s, node.span = some s ∧ lo ≤ s.start ∧ s.stop ≤ hi := by
  induction h with
  | nil => cases hmem
  | declaration hlo hlt hrest ih =>
      rcases List.mem_cons.1 hmem with rfl | hmem
      · exact ⟨_, rfl, hlo, hrest.le⟩
      · obtain ⟨s, hs, hstart, hstop⟩ := ih hmem
        exact ⟨s, hs, by omega, hstop⟩
  | statement hlo hlt _ hrest ih =>
      rcases List.mem_cons.1 hmem with rfl | hmem
      · exact ⟨_, rfl, hlo, hrest.le⟩
      · obtain ⟨s, hs, hstart, hstop⟩ := ih hmem
        exact ⟨s, hs, by omega, hstop⟩
  | block hlo hnodes hinner hrest _ ih =>
      rcases List.mem_cons.1 hmem with rfl | hmem
      · exact ⟨_, rfl, hlo, hrest.le⟩
      · have := hnodes.le
        obtain ⟨s, hs, hstart, hstop⟩ := ih hmem
        exact ⟨s, hs, by omega, hstop⟩

/-- A node stands in front of what is laid out behind its end. -/
lemma precedes (h : LaidOut file lo hi nodes) {node : Node} {s : Span} (hs : node.span = some s)
    (hstop : s.stop ≤ lo) : ∀ next ∈ nodes, node.Precedes next := by
  intro next hnext
  obtain ⟨t, ht, hstart, -⟩ := h.span_of_mem hnext
  exact ⟨s, t, hs, ht, Nat.le_trans hstop hstart⟩

/-- Siblings do not overlap, and come in the order of the text. -/
lemma pairwise (h : LaidOut file lo hi nodes) : nodes.Pairwise Node.Precedes := by
  induction h with
  | nil => exact .nil
  | declaration _ _ hrest ih => exact .cons (hrest.precedes rfl (Nat.le_refl _)) ih
  | statement _ _ _ hrest ih => exact .cons (hrest.precedes rfl (Nat.le_refl _)) ih
  | block _ _ _ hrest _ ih => exact .cons (hrest.precedes rfl (Nat.le_refl _)) ih

/-- At every depth the nodes fit into the source, and none is a comment. -/
lemma fits (h : LaidOut file lo hi nodes) (depth : Nat) :
    ∀ visit ∈ Node.visitsAll depth nodes, visit.2.Fits file hi ∧ visit.2.isComment = false := by
  intro visit hvisit
  induction h generalizing depth with
  | nil => cases hvisit
  | declaration hlo hlt hrest ih =>
      rcases List.mem_cons.1 hvisit with rfl | hvisit
      · exact ⟨⟨⟨_, rfl, rfl, hlt, hrest.le⟩, nofun, .nil, nofun⟩, rfl⟩
      · exact ih depth hvisit
  | statement hlo hlt hat hrest ih =>
      rcases List.mem_cons.1 hvisit with rfl | hvisit
      · refine ⟨⟨⟨_, rfl, rfl, hlt, hrest.le⟩, nofun, .nil, ?_⟩, rfl⟩
        rintro _ _ _ ⟨⟩
        exact ⟨rfl, hat⟩
      · exact ih depth hvisit
  | block hlo hnodes hinner hrest ihnodes ihrest =>
      have hbody := hnodes.le
      have hend := hrest.le
      rcases List.mem_append.1 hvisit with hself | hvisit
      · rcases List.mem_cons.1 hself with rfl | hchild
        · refine ⟨⟨⟨_, rfl, rfl, by simp only; omega, hend⟩, ?_, hnodes.pairwise, nofun⟩, rfl⟩
          intro child hchild
          obtain ⟨t, ht, hstart, hstop⟩ := hnodes.span_of_mem hchild
          exact ⟨_, t, rfl, ht, hstart, Nat.lt_of_le_of_lt hstop hinner⟩
        · obtain ⟨hfits, hcomment⟩ := ihnodes (depth + 1) hchild
          exact ⟨hfits.mono (by omega), hcomment⟩
      · exact ihrest depth hvisit

end LaidOut

/-- Licence comments, newest first, one behind the other up to an offset. -/
inductive Noted (file : Nat) : Nat → List Node → Prop
  | nil {hi : Nat} : Noted file hi []
  | cons {start stop hi : Nat} {text : String} {older : List Node} (hlt : start < stop)
      (hstop : stop ≤ hi) (hlicence : text.toList.head? = some '!')
      (holder : Noted file start older) :
      Noted file hi (.comment text (some ⟨file, start, stop⟩) :: older)

namespace Noted
variable {file hi : Nat} {licences : List Node}

lemma mono (h : Noted file hi licences) {hi' : Nat} (hle : hi ≤ hi') :
    Noted file hi' licences := by
  cases h with
  | nil => exact .nil
  | cons hlt hstop hlicence holder => exact .cons hlt (by omega) hlicence holder

/-- A licence is a comment that begins with `!` and ends in front of the offset. -/
lemma of_mem (h : Noted file hi licences) {node : Node} (hmem : node ∈ licences) :
    ∃ text s, node = .comment text (some s) ∧ text.toList.head? = some '!' ∧ s.file = file ∧
      s.start < s.stop ∧ s.stop ≤ hi := by
  induction h with
  | nil => cases hmem
  | cons hlt hstop hlicence _ ih =>
      rcases List.mem_cons.1 hmem with rfl | hmem
      · exact ⟨_, _, rfl, hlicence, rfl, hlt, hstop⟩
      · obtain ⟨text, s, hnode, hhead, hfile, hlt', hstop'⟩ := ih hmem
        exact ⟨text, s, hnode, hhead, hfile, hlt', by omega⟩

/-- Comments do not overlap either. -/
lemma pairwise (h : Noted file hi licences) : licences.reverse.Pairwise Node.Precedes := by
  rw [List.pairwise_reverse]
  induction h with
  | nil => exact .nil
  | cons hlt hstop hlicence holder ih =>
      refine .cons (fun older holds => ?_) ih
      obtain ⟨text, s, rfl, -, -, -, hle⟩ := holder.of_mem holds
      exact ⟨s, _, rfl, rfl, hle⟩

/-- A licence fits into the source wherever it is visited. -/
lemma fits (h : Noted file hi licences) (depth : Nat) :
    ∀ visit ∈ Node.visitsAll depth licences.reverse, visit.2.Fits file hi := by
  intro visit hvisit
  induction h generalizing visit with
  | nil => cases hvisit
  | cons hlt hstop hlicence holder ih =>
      rw [List.reverse_cons, Node.visitsAll_append, List.mem_append] at hvisit
      rcases hvisit with holds | hself
      · exact (ih visit holds).mono (by omega)
      · obtain rfl := List.mem_singleton.1 hself
        exact ⟨⟨_, rfl, rfl, hlt, hstop⟩, nofun, .nil, nofun⟩

end Noted

namespace Reading

/-! ## The invariant of the reader -/

/-- The finished nodes of every open rule are laid out up to where the rule inside it begins, those
of the innermost up to `edge`. -/
def Stacked (file : Nat) (finished : List Node) : List OpenRule → Nat → Prop
  | [], edge => LaidOut file 0 edge finished.reverse
  | rule :: outer, edge =>
    Stacked file finished outer rule.start ∧
      LaidOut file (rule.start + 1) edge rule.nodes.reverse

/-- What is open may stay open longer. -/
lemma Stacked.mono {file : Nat} {finished : List Node} {opened : List OpenRule} {edge edge' : Nat}
    (h : Stacked file finished opened edge) (hle : edge ≤ edge') :
    Stacked file finished opened edge' := by
  cases opened with
  | nil => exact LaidOut.mono_right h hle
  | cons rule outer => exact ⟨h.1, h.2.mono_right hle⟩

/-- A node behind the edge moves the edge behind it. -/
lemma Stacked.attach {r : Reading} {edge stop : Nat} {node : Node}
    (h : Stacked r.file r.finished r.opened edge) (hnode : LaidOut r.file edge stop [node]) :
    Stacked r.file (r.attach node).finished (r.attach node).opened stop := by
  unfold Reading.attach
  cases hopened : r.opened with
  | nil =>
      rw [hopened] at h
      simpa [Stacked] using LaidOut.append h hnode
  | cons rule outer =>
      rw [hopened] at h
      refine ⟨h.1, ?_⟩
      simpa using h.2.append hnode

/-- The nodes read so far are laid out in front of the edge, and the licences in front of the next
piece. -/
structure Nested (r : Reading) : Prop where
  stacked : Stacked r.file r.finished r.opened r.edge
  begun : r.current ≠ [] → r.currentStart < r.pos
  noted : Noted r.file r.pos r.licences

/-- No node reaches past what was read. -/
lemma Nested.edge_le {r : Reading} (h : r.Nested) : r.edge ≤ r.pos := by
  by_cases hcurrent : r.current = []
  · exact Nat.le_of_eq (edge_of_current_eq_nil hcurrent)
  · rw [edge_of_current_ne_nil hcurrent]
    exact Nat.le_of_lt (h.begun hcurrent)

/-- Outside of all rules the finished nodes are laid out from the beginning. -/
lemma Nested.laidOut {r : Reading} (h : r.Nested) (hopened : r.opened = []) :
    LaidOut r.file 0 r.edge r.finished.reverse := by
  simpa [hopened, Stacked] using h.stacked

/-- At the start nothing was read. -/
lemma Nested.fresh (file : Nat) : ({ file : Reading }).Nested :=
  ⟨.nil (Nat.le_refl _), fun hne => absurd rfl hne, .nil⟩

/-- Offsets inside a text that is not too long are kept. -/
lemma span_eq {r : Reading} {start stop : Nat} (hle : start ≤ stop)
    (hstop : stop < Span.offsetBound) : r.span start stop = ⟨r.file, start, stop⟩ := by
  rw [span, Span.ofRange, Nat.mod_eq_of_lt hstop, Nat.mod_eq_of_lt (by omega)]

/-! ## One piece -/

/-- A literal that is cut off is an error. -/
lemma ne_brokenString_of_push {r r' : Reading} {p : Piece} (h : r.push p = .ok r') :
    ∀ text, p ≠ .brokenString text := by
  rintro text rfl
  cases h

/-- What is known of a piece that was taken off a text and read. -/
structure Taken (r : Reading) (p : Piece) (cs rest : List Char) : Prop where
  source : p.source ++ rest = cs
  width_pos : 0 < p.width
  custom : ∀ text ended, p = .custom text ended → r.current = []

/-- A piece takes its bytes off the text. -/
lemma Taken.length {r : Reading} {p : Piece} {cs rest : List Char} (h : Taken r p cs rest) :
    p.width + Text.byteLength rest = Text.byteLength cs := by
  rw [Piece.width, ← byteLength_append, h.source]

lemma taken_of_push {r r' : Reading} {p : Piece} {c : Char} {rest rest' : List Char}
    (hnext : Piece.next r.current.isEmpty c rest = (p, rest')) (hpush : r.push p = .ok r') :
    Taken r p (c :: rest) rest' := by
  obtain ⟨rfl, rfl⟩ : (Piece.next r.current.isEmpty c rest).1 = p ∧
      (Piece.next r.current.isEmpty c rest).2 = rest' := by
    simp [hnext]
  have hbroken := ne_brokenString_of_push hpush
  refine ⟨Piece.next_source _ c rest hbroken, (Piece.next_width _ c rest hbroken).1, ?_⟩
  intro text ended hcustom
  simpa using Piece.fresh_of_next_custom hcustom

/-- The node that a closing brace makes of an open rule. -/
def closed (r : Reading) (rule : OpenRule) : Node :=
  .rule rule.selector rule.nodes.reverse true (some (r.span rule.start (r.pos + 1)))

/-- A closing brace finishes the text in front of it, and then the innermost rule. -/
lemma push_closing_iff {r r' : Reading} : r.push .closing = .ok r' ↔ ∃ rule outer,
    r.finishText.opened = rule :: outer ∧
      r' = ({ r.finishText with opened := outer }.attach (r.closed rule)).advance 1 := by
  cases hopened : r.finishText.opened with
  | nil => simp [Reading.push, pushClosing, hopened, Except.map]
  | cons rule outer =>
      simp only [Reading.push, pushClosing, hopened, Except.map, Except.ok.injEq, List.cons.injEq]
      constructor
      · rintro rfl
        exact ⟨rule, outer, ⟨rfl, rfl⟩, rfl⟩
      · rintro ⟨_, _, ⟨rfl, rfl⟩, rfl⟩
        rfl

lemma push_closing_of_finishText {r : Reading} (h : r.finishText.opened = []) :
    r.push .closing = .error (.missingOpeningBrace (r.span r.pos (r.pos + 1))) := by
  simp only [push, pushClosing, h]
  rfl

/-- A piece that finishes no node: it adds to the text, drops it, or notes a licence. -/
lemma Nested.quiet {r r' : Reading} (h : r.Nested) (hfile : r'.file = r.file)
    (hfinished : r'.finished = r.finished) (hopened : r'.opened = r.opened)
    (hpos : r.pos < r'.pos) (hstart : r'.current ≠ [] → r'.currentStart = r.edge)
    (hnoted : Noted r.file r'.pos r'.licences) : r'.Nested := by
  have hle := h.edge_le
  have hedge : r.edge ≤ r'.edge := by
    by_cases hcurrent : r'.current = []
    · rw [edge_of_current_eq_nil hcurrent]
      omega
    · have := hstart hcurrent
      rw [edge_of_current_ne_nil hcurrent]
      omega
  refine ⟨?_, fun hne => ?_, ?_⟩
  · rw [hfile, hfinished, hopened]
    exact h.stacked.mono hedge
  · rw [hstart hne]
    omega
  · rwa [hfile]

/-- A finished node takes its place behind the others. -/
lemma Nested.attach {r : Reading} {lo stop n : Nat} {node : Node}
    (hstacked : Stacked r.file r.finished r.opened lo) (hcurrent : r.current = [])
    (hnoted : Noted r.file r.pos r.licences) (hnode : LaidOut r.file lo stop [node])
    (hstop : stop ≤ r.pos + n) : ((r.attach node).advance n).Nested := by
  have hnil : ((r.attach node).advance n).current = [] := by simp [Reading.advance, hcurrent]
  refine ⟨?_, fun hne => absurd hnil hne, ?_⟩
  · rw [edge_of_current_eq_nil hnil]
    simpa [Reading.advance] using (hstacked.attach hnode).mono hstop
  · simpa [Reading.advance] using hnoted.mono (Nat.le_add_right _ n)

lemma isAtRuleSelector_trimEnd {text : List Char} (h : (text.head? == some '@') = true) :
    Node.isAtRuleSelector (String.ofList (Text.trimEnd text)) = true := by
  obtain ⟨rest, rfl⟩ : ∃ rest, text = '@' :: rest := List.head?_eq_some_iff.1 (by simpa using h)
  have hat : Text.isBlank '@' = false := by decide
  rw [Node.isAtRuleSelector, String.toList_ofList, Text.trimEnd, List.reverse_cons,
    List.dropWhile_append]
  split_ifs <;> simp [hat]

/-- Trimming does not take the at-sign away. -/
lemma isAtRuleSelector_trim {text : List Char} (h : (text.head? == some '@') = true) :
    Node.isAtRuleSelector (String.ofList (Text.trim text)) = true := by
  have hstart : Text.trimStart text = text := by
    obtain ⟨rest, rfl⟩ : ∃ rest, text = '@' :: rest := List.head?_eq_some_iff.1 (by simpa using h)
    exact List.dropWhile_cons_of_neg (by decide)
  rw [Text.trim, hstart]
  exact isAtRuleSelector_trimEnd h

/-- A declaration alone is a row. -/
lemma laidOut_declaration {file start stop : Nat} (text : List Char)
    (parts : Option (List Char × List Char)) (hlt : start < stop) :
    LaidOut file start stop [declarationOf text parts ⟨file, start, stop⟩] := by
  have hnil : LaidOut file stop stop [] := .nil (Nat.le_refl _)
  cases parts with
  | none => exact .declaration (Nat.le_refl _) hlt hnil
  | some parts =>
      obtain ⟨property, value⟩ := parts
      simp only [declarationOf]
      split <;> exact .declaration (Nat.le_refl _) hlt hnil

section step
variable {r : Reading} (h : r.Nested)

include h in
/-- Reading on without touching the text. -/
lemma Nested.advance {n : Nat} (hn : 0 < n) : (r.advance n).Nested :=
  h.quiet rfl rfl rfl (Nat.lt_add_of_pos_right hn)
    (fun hne => (edge_of_current_ne_nil (r := r) hne).symm) (h.noted.mono (Nat.le_add_right _ n))

include h in
/-- Text that joins a node ends no node. -/
lemma Nested.append (text : List Char) {n : Nat} (hn : 0 < n) :
    ((r.append text).advance n).Nested :=
  h.quiet rfl rfl rfl (Nat.lt_add_of_pos_right hn) (fun _ => rfl)
    (h.noted.mono (Nat.le_add_right _ n))

include h in
lemma Nested.pushPlain (c : Char) {n : Nat} (hn : 0 < n) :
    ((r.pushPlain c).advance n).Nested := by
  rw [Reading.pushPlain]
  split_ifs
  · exact h.advance hn
  · exact h.append [c] hn

include h in
lemma Nested.pushNewline {n : Nat} (hn : 0 < n) : (r.pushNewline.advance n).Nested := by
  rw [Reading.pushNewline]
  split
  · exact h.advance hn
  next last before hcurrent =>
    split_ifs
    · exact h.advance hn
    · refine h.quiet rfl rfl rfl (Nat.lt_add_of_pos_right hn) (fun _ => ?_)
        (h.noted.mono (Nat.le_add_right _ n))
      exact (edge_of_current_ne_nil (r := r) (by simp [hcurrent])).symm

include h in
lemma Nested.pushComment (text : List Char) {n : Nat} (hn : 0 < n)
    (hsize : r.pos + n < Span.offsetBound) : ((r.pushComment text n).advance n).Nested := by
  rw [Reading.pushComment]
  split_ifs with hlicence
  · refine h.quiet rfl rfl rfl (Nat.lt_add_of_pos_right hn)
      (fun hne => (edge_of_current_ne_nil (r := r) hne).symm) ?_
    rw [span_eq (Nat.le_add_right _ n) hsize]
    exact .cons (Nat.lt_add_of_pos_right hn) (Nat.le_refl _) (by simpa using hlicence) h.noted
  · exact h.advance hn

include h in
/-- A new open rule begins where the text of its selector does. -/
lemma Nested.pushOpening : (r.pushOpening.advance 1).Nested := by
  have hle := h.edge_le
  have hedge : (r.pushOpening.advance 1).edge = r.pos + 1 := edge_of_current_eq_nil rfl
  refine ⟨⟨h.stacked, ?_⟩, fun hne => absurd rfl hne, h.noted.mono (Nat.le_add_right _ 1)⟩
  rw [hedge]
  exact .nil (Nat.add_le_add_right hle 1)

include h in
/-- The text of a node that ends here is laid out behind everything finished. -/
lemma Nested.lt_of_current (hcurrent : r.current ≠ []) :
    r.edge = r.currentStart ∧ r.currentStart < r.pos :=
  ⟨edge_of_current_ne_nil hcurrent, h.begun hcurrent⟩

include h in
/-- A node that is finished ends where the semicolon does. -/
lemma Nested.pushSemicolon (hsize : r.pos + 1 < Span.offsetBound) :
    (r.pushSemicolon.advance 1).Nested := by
  rw [Reading.pushSemicolon]
  split_ifs with hat hblank
  · obtain ⟨hedge, hlt⟩ := h.lt_of_current (current_ne_nil_of_readsAtRule hat)
    refine Nested.attach h.stacked rfl h.noted ?_ (Nat.le_refl _)
    rw [span_eq (by omega) hsize, hedge]
    exact .statement (Nat.le_refl _) (by omega) (isAtRuleSelector_trimEnd hat)
      (.nil (Nat.le_refl _))
  · exact h.quiet rfl rfl rfl (Nat.lt_add_of_pos_right Nat.one_pos) (fun hne => absurd rfl hne)
      (h.noted.mono (Nat.le_add_right _ 1))
  · have hcurrent : r.current ≠ [] := by
      intro hnil
      rw [text, hnil] at hblank
      exact hblank rfl
    obtain ⟨hedge, hlt⟩ := h.lt_of_current hcurrent
    refine Nested.attach h.stacked rfl h.noted ?_ (Nat.le_refl _)
    rw [span_eq (by omega) hsize, hedge]
    exact laidOut_declaration _ _ (Nat.lt_succ_of_lt hlt)

include h in
/-- Behind the text in front of a closing brace everything is laid out up to the brace. -/
lemma Nested.stacked_finishText (hsize : r.pos < Span.offsetBound) :
    Stacked r.file r.finishText.finished r.finishText.opened r.pos := by
  rw [finishText]
  split_ifs with hcurrent hat
  · exact h.stacked.mono h.edge_le
  · obtain ⟨hedge, hlt⟩ := h.lt_of_current (current_ne_nil_of_readsAtRule hat)
    refine Stacked.attach (r := r.clear) h.stacked ?_
    rw [span_eq (by omega) hsize, hedge]
    exact .statement (Nat.le_refl _) hlt (isAtRuleSelector_trim hat) (.nil (Nat.le_refl _))
  · obtain ⟨hedge, hlt⟩ := h.lt_of_current (by simpa using hcurrent)
    refine Stacked.attach (r := r.clear) h.stacked ?_
    rw [span_eq (by omega) hsize, hedge]
    exact laidOut_declaration _ _ hlt

include h in
/-- A rule that is closed lies behind its siblings and around its children. -/
lemma Nested.close {rule : OpenRule} {outer : List OpenRule}
    (hopened : r.finishText.opened = rule :: outer) (hsize : r.pos + 1 < Span.offsetBound) :
    (({ r.finishText with opened := outer }.attach (r.closed rule)).advance 1).Nested := by
  have hfinish := h.stacked_finishText (by omega)
  rw [hopened] at hfinish
  obtain ⟨houter, hnodes⟩ := hfinish
  have hlt := hnodes.le
  have hrule : LaidOut r.file rule.start (r.pos + 1) [r.closed rule] := by
    rw [closed, span_eq (by omega) hsize]
    exact .block (Nat.le_refl _) hnodes (Nat.lt_succ_self _) (.nil (Nat.le_refl _))
  refine Nested.attach ?_ (finishText_current r) ?_ (by simpa using hrule) (by simp)
  · simpa using houter
  · simpa using h.noted

end step

/-- Every piece keeps the layout, a custom property where no text is being collected. -/
lemma Nested.push {r r' : Reading} (h : r.Nested) {p : Piece} (hpush : r.push p = .ok r')
    (hsize : r.pos + p.width < Span.offsetBound) (hwidth : 0 < p.width)
    (hcustom : ∀ text ended, p = .custom text ended → r.current = []) : r'.Nested := by
  cases p with
  | verbatim text =>
      obtain rfl := Except.ok.inj hpush
      exact h.append text hwidth
  | comment text closed =>
      obtain rfl := Except.ok.inj hpush
      exact h.pushComment text hwidth hsize
  | brokenString text => cases hpush
  | gap c =>
      obtain rfl := Except.ok.inj hpush
      exact h.advance hwidth
  | newline =>
      obtain rfl := Except.ok.inj hpush
      exact h.pushNewline hwidth
  | custom text ended =>
      obtain rfl := Except.ok.inj hpush
      have hcurrent := hcustom text ended rfl
      have hedge := edge_of_current_eq_nil hcurrent
      refine Nested.attach h.stacked hcurrent h.noted ?_ (Nat.le_refl _)
      rw [span_eq (Nat.le_add_right _ _) hsize, hedge]
      exact laidOut_declaration _ _ (Nat.lt_add_of_pos_right hwidth)
  | semicolon =>
      obtain rfl := Except.ok.inj hpush
      exact h.pushSemicolon hsize
  | opening =>
      obtain rfl := Except.ok.inj hpush
      exact h.pushOpening
  | closing =>
      obtain ⟨rule, outer, hopened, rfl⟩ := push_closing_iff.1 hpush
      exact h.close hopened hsize
  | plain c =>
      obtain rfl := Except.ok.inj hpush
      exact h.pushPlain c hwidth

/-- The layout is kept to the end of the text, and the reader stands there then. -/
theorem Nested.run {r r' : Reading} (h : r.Nested) {cs : List Char}
    (hsize : r.pos + Text.byteLength cs < Span.offsetBound) (hrun : r.run cs = .ok r') :
    r'.Nested ∧ r'.file = r.file ∧ r'.pos = r.pos + Text.byteLength cs := by
  fun_induction Reading.run r cs with
  | case1 r =>
      obtain rfl := Except.ok.inj hrun
      exact ⟨h, rfl, rfl⟩
  | case2 r c rest step e herror => cases hrun
  | case3 r c rest step next hok ih =>
      have htaken : Taken r step.1 (c :: rest) step.2 := taken_of_push rfl hok
      have hlength := htaken.length
      obtain ⟨hfile, hplace, -⟩ := push_movesPast hok
      have hnext := h.push hok (by omega) htaken.width_pos htaken.custom
      obtain ⟨hnested, hfile', hplace'⟩ := ih hnext (by omega) hrun
      exact ⟨hnested, hfile'.trans hfile, by omega⟩

end Reading

/-! ## The forest -/

/-- A source that can be read leads to a reading without an open rule, and that has the forest. -/
lemma exists_run_of_readStylesheet {file : Nat} {text : String} {nodes : List Node}
    (hread : readStylesheet file text = .ok nodes) :
    ∃ r, ({ file : Reading }).run text.toList = .ok r ∧ r.opened = [] ∧
      nodes = r.licences.reverse ++ r.finished.reverse := by
  unfold readStylesheet at hread
  cases hrun : ({ file : Reading }).run text.toList with
  | error e => simp [hrun] at hread
  | ok r =>
      simp only [hrun] at hread
      unfold Reading.finish at hread
      cases hopened : r.opened with
      | cons rule outer => simp [hopened] at hread
      | nil =>
          simp only [hopened, Except.ok.injEq] at hread
          exact ⟨r, rfl, hopened, hread.symm⟩

/-- How the forest of a source with `size` bytes is laid out: licence comments in front, then nodes
of which none is a comment, and each node fits. -/
structure SheetLayout (file size : Nat) (nodes : List Node) : Prop where
  fits : ∀ visit ∈ Node.visitsAll 0 nodes, visit.2.Fits file size
  comments_first : ∃ comments others, nodes = comments ++ others ∧
    (∀ node ∈ comments, ∃ text span, node = .comment text span ∧ text.toList.head? = some '!') ∧
    (∀ visit ∈ Node.visitsAll 0 others, visit.2.isComment = false) ∧
    comments.Pairwise Node.Precedes ∧ others.Pairwise Node.Precedes

/-- Every source shorter than `Span.offsetBound` that can be read is laid out. -/
theorem readStylesheet_layout {file : Nat} {text : String} {nodes : List Node}
    (hsize : text.utf8ByteSize < Span.offsetBound) (hread : readStylesheet file text = .ok nodes) :
    SheetLayout file text.utf8ByteSize nodes := by
  rw [← byteLength_toList] at hsize ⊢
  obtain ⟨r, hrun, hopened, rfl⟩ := exists_run_of_readStylesheet hread
  obtain ⟨hnested, hfile, hpos⟩ := (Reading.Nested.fresh file).run (by simpa using hsize) hrun
  have hlaid : LaidOut file 0 (Text.byteLength text.toList) r.finished.reverse := by
    have hstacked := hnested.stacked.mono hnested.edge_le
    simpa [hopened, Reading.Stacked, hfile, hpos] using hstacked
  have hnoted : Noted file (Text.byteLength text.toList) r.licences := by
    simpa [hfile, hpos] using hnested.noted
  refine ⟨fun visit hvisit => ?_, r.licences.reverse, r.finished.reverse, rfl, ?_, ?_,
    hnoted.pairwise, hlaid.pairwise⟩
  · rw [Node.visitsAll_append] at hvisit
    rcases List.mem_append.1 hvisit with hvisit | hvisit
    · exact hnoted.fits 0 visit hvisit
    · exact (hlaid.fits 0 visit hvisit).1
  · intro node hnode
    obtain ⟨text, s, rfl, hhead, -⟩ := hnoted.of_mem (List.mem_reverse.1 hnode)
    exact ⟨text, _, rfl, hhead⟩
  · exact fun visit hvisit => (hlaid.fits 0 visit hvisit).2

namespace Sample

/-- A licence, a statement, a custom property and a rule in a rule. -/
def layered : String := "/*!l*/@i x;.a\x7b--b:\x7b;\x7d;.c\x7bd:e\x7d\x7d"

def layeredForest : List Node :=
  [.comment "!l" (some ⟨1, 0, 6⟩), .rule "@i x" [] false (some ⟨1, 6, 11⟩),
    .rule ".a" [.declaration "--b" "\x7b;\x7d" false (some ⟨1, 14, 22⟩),
      .rule ".c" [.declaration "d" "e" false (some ⟨1, 25, 28⟩)] true (some ⟨1, 22, 29⟩)]
      true (some ⟨1, 11, 30⟩)]

end Sample

theorem readStylesheet_layout_nested :
    Sample.layered.utf8ByteSize < Span.offsetBound ∧
      readStylesheet 1 Sample.layered = .ok Sample.layeredForest ∧
      SheetLayout 1 Sample.layered.utf8ByteSize Sample.layeredForest := by
  have hsize : Sample.layered.utf8ByteSize < Span.offsetBound := by decide
  have hread : readStylesheet 1 Sample.layered = .ok Sample.layeredForest := by
    with_unfolding_all rfl
  exact ⟨hsize, hread, readStylesheet_layout hsize hread⟩

end UtilityCss
