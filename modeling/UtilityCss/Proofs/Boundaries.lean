import UtilityCss.Proofs.Slices

/-!
# Spans on character boundaries

Every span that the reader gives away can be cut out of the source: its ends are in order and fall
between two characters.  The offsets the reader remembers are places where a piece began or ended,
so they are boundaries of the text (`Reading.Placed`), and the spans of nodes and errors are made of
those offsets (`Placed.push`, `Placed.run`).

* **Boundaries** — `Text.IsBoundary`, and `slice?_isSome_iff`: a slice exists between two boundaries
  in order.  An offset that is none is inside a character or past the end (`exists_character`).
* **Spans of a tree** — `Node.Spanned`, a property of the span of every node, at any depth.
* **The reader** — the forest (`located_of_readStylesheet`) and the error (`within_of_readStylesheet`)
  of a source.
-/

namespace UtilityCss

/-! ## Boundaries -/

namespace Text

/-- An offset at which a text can be cut: it is not past the end and not inside a character. -/
def IsBoundary (cs : List Char) (n : Nat) : Prop :=
  (splitAtByte? n cs).isSome = true

/-- What is split belongs together, and the front has as many bytes as were asked for. -/
lemma splitAtByte?_eq_some {n : Nat} {cs before after : List Char}
    (h : splitAtByte? n cs = some (before, after)) :
    before ++ after = cs ∧ byteLength before = n := by
  induction cs generalizing n before after with
  | nil =>
      cases n with
      | zero =>
          obtain ⟨rfl, rfl⟩ := Prod.mk.inj (Option.some.inj h)
          exact ⟨rfl, rfl⟩
      | succ n => cases h
  | cons c cs ih =>
      cases n with
      | zero =>
          obtain ⟨rfl, rfl⟩ := Prod.mk.inj (Option.some.inj h)
          exact ⟨rfl, rfl⟩
      | succ n =>
          rw [splitAtByte?] at h
          split_ifs at h with hsize
          obtain ⟨⟨front, back⟩, hsplit, hparts⟩ := Option.map_eq_some_iff.1 h
          obtain ⟨rfl, rfl⟩ := Prod.mk.inj hparts
          obtain ⟨rfl, hlength⟩ := ih hsplit
          refine ⟨rfl, ?_⟩
          rw [byteLength, hlength]
          omega

/-- A boundary is where the text can be cut in two. -/
lemma isBoundary_iff {cs : List Char} {n : Nat} :
    IsBoundary cs n ↔ ∃ before after, before ++ after = cs ∧ byteLength before = n := by
  constructor
  · intro h
    obtain ⟨⟨before, after⟩, hsplit⟩ := Option.isSome_iff_exists.1 h
    exact ⟨before, after, splitAtByte?_eq_some hsplit⟩
  · rintro ⟨before, after, rfl, rfl⟩
    rw [IsBoundary, splitAtByte?_append]
    rfl

lemma isBoundary_append (before after : List Char) :
    IsBoundary (before ++ after) (byteLength before) :=
  isBoundary_iff.2 ⟨before, after, rfl, rfl⟩

lemma IsBoundary.le {cs : List Char} {n : Nat} (h : IsBoundary cs n) : n ≤ byteLength cs := by
  obtain ⟨before, after, rfl, rfl⟩ := isBoundary_iff.1 h
  rw [byteLength_append]
  omega

/-- Of two beginnings of a text, the one with fewer bytes begins the other. -/
lemma exists_append_of_byteLength_le {a b c d : List Char} (h : a ++ b = c ++ d)
    (hle : byteLength a ≤ byteLength c) : ∃ back, a ++ back = c := by
  rcases List.append_eq_append_iff.1 h with ⟨back, rfl, -⟩ | ⟨back, rfl, -⟩
  · exact ⟨back, rfl⟩
  · rw [byteLength_append] at hle
    have hback : back = [] := by
      by_contra hne
      have := byteLength_pos hne
      omega
    exact ⟨[], by simp [hback]⟩

/-- Every offset is at or inside of a character, or else at the end of the text or behind it. -/
lemma exists_character (cs : List Char) (n : Nat) : ∃ before after, before ++ after = cs ∧
    byteLength before ≤ n ∧ ∀ c ∈ after.head?, n < byteLength before + c.utf8Size := by
  induction cs generalizing n with
  | nil => exact ⟨[], [], rfl, Nat.zero_le _, nofun⟩
  | cons c cs ih =>
      by_cases hinside : n < c.utf8Size
      · refine ⟨[], c :: cs, rfl, Nat.zero_le _, fun d hd => ?_⟩
        obtain rfl : c = d := by simpa using hd
        simpa [byteLength] using hinside
      · obtain ⟨before, after, rfl, hle, hlt⟩ := ih (n - c.utf8Size)
        refine ⟨c :: before, after, rfl, ?_, fun d hd => ?_⟩
        · rw [byteLength]
          omega
        · have := hlt d hd
          rw [byteLength]
          omega

/-- Cutting behind a part and in front of it leaves the part. -/
lemma splitAtByte?_splitAtByte? {text front before middle after : List Char} {start stop : Nat}
    (hstop : splitAtByte? stop text = some (front, after))
    (hstart : splitAtByte? start front = some (before, middle)) :
    before ++ (middle ++ after) = text ∧ byteLength before = start ∧
      byteLength before + byteLength middle = stop := by
  obtain ⟨rfl, rfl⟩ := splitAtByte?_eq_some hstop
  obtain ⟨rfl, rfl⟩ := splitAtByte?_eq_some hstart
  exact ⟨(List.append_assoc ..).symm, rfl, (byteLength_append ..).symm⟩

/-- What is cut out of a text stands there. -/
lemma exists_of_slice?_eq_some {text middle : List Char} {start stop : Nat}
    (h : slice? start stop text = some middle) :
    ∃ before after, before ++ (middle ++ after) = text ∧ byteLength before = start ∧
      byteLength before + byteLength middle = stop := by
  rw [slice?] at h
  split_ifs at h
  obtain ⟨⟨front, after⟩, hstop, h⟩ := Option.bind_eq_some_iff.1 h
  obtain ⟨⟨before, middle'⟩, hstart, h⟩ := Option.bind_eq_some_iff.1 h
  obtain rfl := Option.some.inj h
  exact ⟨before, after, splitAtByte?_splitAtByte? hstop hstart⟩

/-- The text between two boundaries in order can be cut out, and no other. -/
lemma slice?_isSome_iff {start stop : Nat} {cs : List Char} :
    (slice? start stop cs).isSome = true ↔
      start ≤ stop ∧ IsBoundary cs start ∧ IsBoundary cs stop := by
  constructor
  · intro h
    obtain ⟨middle, hslice⟩ := Option.isSome_iff_exists.1 h
    obtain ⟨before, after, rfl, rfl, rfl⟩ := exists_of_slice?_eq_some hslice
    refine ⟨Nat.le_add_right _ _, isBoundary_append _ _, ?_⟩
    rw [← byteLength_append, ← List.append_assoc]
    exact isBoundary_append _ _
  · rintro ⟨hle, hstart, hstop⟩
    obtain ⟨front, back, hfront, rfl⟩ := isBoundary_iff.1 hstart
    obtain ⟨before, after, rfl, rfl⟩ := isBoundary_iff.1 hstop
    obtain ⟨middle, rfl⟩ := exists_append_of_byteLength_le hfront hle
    rw [List.append_assoc, byteLength_append, slice?_append]
    rfl

end Text

/-! ## Spans of a tree -/

/-- The span is one of the file whose text this is, and the bytes under it can be cut out. -/
structure Span.Within (file : Nat) (text : List Char) (s : Span) : Prop where
  file : s.file = file
  slice : (Text.slice? s.start s.stop text).isSome = true

namespace Node

mutual

/-- The span of every node of the tree, at any depth, has the property. -/
def Spanned (P : Option Span → Prop) : Node → Prop
  | .rule _ nodes _ span => P span ∧ SpannedAll P nodes
  | .declaration _ _ _ span => P span
  | .comment _ span => P span

/-- Applies `Spanned` to every tree of a forest. -/
def SpannedAll (P : Option Span → Prop) : List Node → Prop
  | [] => True
  | node :: rest => Spanned P node ∧ SpannedAll P rest

end

variable {P : Option Span → Prop}

/-- Of a forest the same is said as of each of its trees. -/
lemma spannedAll_iff {nodes : List Node} :
    SpannedAll P nodes ↔ ∀ node ∈ nodes, Spanned P node := by
  induction nodes with
  | nil => simp [SpannedAll]
  | cons node rest ih => simp [SpannedAll, ih]

mutual

/-- What holds of all spans of a tree may be weakened. -/
lemma Spanned.mono {Q : Option Span → Prop} (himp : ∀ span, P span → Q span) {node : Node}
    (h : node.Spanned P) : node.Spanned Q := by
  cases node with
  | rule selector nodes hasBlock span => exact ⟨himp span h.1, SpannedAll.mono himp h.2⟩
  | declaration property value important span => exact himp span h
  | comment text span => exact himp span h

lemma SpannedAll.mono {Q : Option Span → Prop} (himp : ∀ span, P span → Q span)
    {nodes : List Node} (h : SpannedAll P nodes) : SpannedAll Q nodes := by
  cases nodes with
  | nil => exact trivial
  | cons node rest => exact ⟨h.1.mono himp, SpannedAll.mono himp h.2⟩

end

mutual

/-- Every node of a tree has such a span. -/
lemma Spanned.visits {node : Node} (h : node.Spanned P) (depth : Nat) :
    ∀ visit ∈ node.visits depth, P visit.2.span := by
  cases node with
  | rule selector nodes hasBlock span =>
      intro visit hvisit
      rcases List.mem_cons.1 hvisit with rfl | hvisit
      · exact h.1
      · exact SpannedAll.visitsAll h.2 (depth + 1) visit hvisit
  | declaration property value important span =>
      intro visit hvisit
      obtain rfl := List.mem_singleton.1 hvisit
      exact h
  | comment text span =>
      intro visit hvisit
      obtain rfl := List.mem_singleton.1 hvisit
      exact h

lemma SpannedAll.visitsAll {nodes : List Node} (h : SpannedAll P nodes) (depth : Nat) :
    ∀ visit ∈ visitsAll depth nodes, P visit.2.span := by
  cases nodes with
  | nil => nofun
  | cons node rest =>
      intro visit hvisit
      rcases List.mem_append.1 hvisit with hvisit | hvisit
      · exact h.1.visits depth visit hvisit
      · exact SpannedAll.visitsAll h.2 depth visit hvisit

end

end Node

/-- The span is there, and it is one of the text. -/
def Located (file : Nat) (text : List Char) (span : Option Span) : Prop :=
  ∃ s, span = some s ∧ s.Within file text

namespace Reading

/-! ## The invariant of the reader -/

/-- The head of an open rule was read from the text in front of an offset. -/
structure HeadRead (text : List Char) (pos : Nat) (rule : OpenRule) : Prop where
  start : Text.IsBoundary text rule.start
  bodyStart : Text.IsBoundary text rule.bodyStart
  start_lt : rule.start < rule.bodyStart
  bodyStart_le : rule.bodyStart ≤ pos

lemma HeadRead.start_le {text : List Char} {pos : Nat} {rule : OpenRule} (h : HeadRead text pos rule) :
    rule.start ≤ rule.bodyStart :=
  Nat.le_of_lt h.start_lt

/-- What was read in front of an offset was read in front of any later one. -/
lemma HeadRead.mono {text : List Char} {pos pos' : Nat} {rule : OpenRule}
    (h : HeadRead text pos rule) (hle : pos ≤ pos') : HeadRead text pos' rule :=
  { h with bodyStart_le := Nat.le_trans h.bodyStart_le hle }

/-- The offsets the reader remembers are boundaries in front of the next piece, and the nodes it has
finished are located. -/
structure Placed (text : List Char) (r : Reading) : Prop where
  pos : Text.IsBoundary text r.pos
  edge : Text.IsBoundary text r.edge
  edge_le : r.edge ≤ r.pos
  opened : ∀ rule ∈ r.opened, HeadRead text r.pos rule
  built : ∀ node ∈ r.built, node.Spanned (Located r.file text)
  licences : ∀ node ∈ r.licences, node.Spanned (Located r.file text)

variable {text : List Char}

/-- Before anything is read there is nothing to be placed. -/
lemma Placed.fresh (file : Nat) (text : List Char) : ({ file : Reading }).Placed text where
  pos := Text.isBoundary_append [] text
  edge := Text.isBoundary_append [] text
  edge_le := Nat.le_refl _
  opened := nofun
  built := nofun
  licences := nofun

/-- The span between two boundaries. -/
lemma located_span {r : Reading} {start stop : Nat} (hsize : Text.byteLength text < Span.offsetBound)
    (hstart : Text.IsBoundary text start) (hstop : Text.IsBoundary text stop) (hle : start ≤ stop) :
    (r.span start stop).Within r.file text := by
  have hbound := hstop.le
  rw [span_eq hle (by omega)]
  exact ⟨rfl, Text.slice?_isSome_iff.2 ⟨hle, hstart, hstop⟩⟩

/-- A declaration has the span it is made with, whatever its text. -/
lemma spanned_declarationOf {P : Option Span → Prop} {s : Span} (h : P (some s))
    (cs : List Char) (parts : Option (List Char × List Char)) :
    (declarationOf cs parts s).Spanned P := by
  cases parts with
  | none => exact h
  | some parts =>
      obtain ⟨property, value⟩ := parts
      simp only [declarationOf]
      split <;> exact h

/-- A node that is attached leaves the heads of open rules as they were. -/
lemma headRead_attach {r : Reading} {pos : Nat} (h : ∀ rule ∈ r.opened, HeadRead text pos rule)
    (node : Node) : ∀ rule ∈ (r.attach node).opened, HeadRead text pos rule := by
  cases hopened : r.opened with
  | nil => simp [attach_of_opened_eq_nil hopened, hopened]
  | cons rule outer =>
      rw [hopened, List.forall_mem_cons] at h
      rw [attach_of_opened_eq_cons hopened, List.forall_mem_cons]
      exact ⟨⟨h.1.start, h.1.bodyStart, h.1.start_lt, h.1.bodyStart_le⟩, h.2⟩

/-- A node takes its place; the text in front of it is forgotten. -/
lemma Placed.attach {r : Reading} (h : r.Placed text) (hcurrent : r.current = []) {node : Node}
    (hnode : node.Spanned (Located r.file text)) : (r.attach node).Placed text where
  pos := by simpa using h.pos
  edge := by simpa [Reading.edge, hcurrent] using h.pos
  edge_le := by simp [Reading.edge, hcurrent]
  opened := by simpa using headRead_attach h.opened node
  built := by
    intro node' hnode'
    rw [attach_file]
    rcases mem_built_attach.1 hnode' with rfl | hnode'
    · exact hnode
    · exact h.built node' hnode'
  licences := by simpa using h.licences

lemma Placed.clear {r : Reading} (h : r.Placed text) : r.clear.Placed text where
  pos := h.pos
  edge := h.pos
  edge_le := Nat.le_refl _
  opened := h.opened
  built := h.built
  licences := h.licences

/-- The reader moves on, and the text being collected, if any, began where it did. -/
lemma Placed.quiet {r r' : Reading} (h : r.Placed text) (hfile : r'.file = r.file)
    (hopened : r'.opened = r.opened) (hfinished : r'.finished = r.finished)
    (hlicences : ∀ node ∈ r'.licences, node.Spanned (Located r.file text))
    (hpos : Text.IsBoundary text r'.pos) (hle : r.pos ≤ r'.pos)
    (hedge : r'.current ≠ [] → r'.edge = r.edge) : r'.Placed text := by
  have hplace : Text.IsBoundary text r'.edge ∧ r'.edge ≤ r'.pos := by
    by_cases hcurrent : r'.current = []
    · rw [edge_of_current_eq_nil hcurrent]
      exact ⟨hpos, Nat.le_refl _⟩
    · rw [hedge hcurrent]
      exact ⟨h.edge, Nat.le_trans h.edge_le hle⟩
  refine ⟨hpos, hplace.1, hplace.2, ?_, ?_, ?_⟩
  · rw [hopened]
    exact fun rule hrule => (h.opened rule hrule).mono hle
  · rw [Reading.built, hfinished, hopened, hfile]
    exact h.built
  · rw [hfile]
    exact hlicences

/-- Moving on to a boundary keeps everything placed. -/
lemma Placed.advance {r : Reading} (h : r.Placed text) {n : Nat}
    (hpos : Text.IsBoundary text (r.pos + n)) : (r.advance n).Placed text :=
  h.quiet rfl rfl rfl h.licences hpos (Nat.le_add_right _ _) fun hne =>
    (edge_of_current_ne_nil hne).trans (edge_of_current_ne_nil (r := r) hne).symm

lemma Placed.pushOpening {r : Reading} (h : r.Placed text)
    (hpos : Text.IsBoundary text (r.pos + 1)) : (r.pushOpening.advance 1).Placed text where
  pos := hpos
  edge := hpos
  edge_le := Nat.le_refl _
  opened := by
    refine List.forall_mem_cons.2 ⟨⟨h.edge, hpos, ?_, Nat.le_refl _⟩, fun rule hrule => ?_⟩
    · exact Nat.lt_succ_of_le h.edge_le
    · exact (h.opened rule hrule).mono (Nat.le_succ _)
  built := h.built
  licences := h.licences

section
variable {r : Reading} (h : r.Placed text) (hsize : Text.byteLength text < Span.offsetBound)
include h hsize

/-- The text being collected and what ends it. -/
lemma Placed.within_current (hcurrent : r.current ≠ []) {stop : Nat} (hstop : Text.IsBoundary text stop)
    (hle : r.pos ≤ stop) : Located r.file text (some (r.span r.currentStart stop)) := by
  have hedge := edge_of_current_ne_nil hcurrent
  refine ⟨_, rfl, ?_⟩
  rw [← hedge]
  exact located_span hsize h.edge hstop (Nat.le_trans h.edge_le hle)

lemma Placed.pushSemicolon (hpos : Text.IsBoundary text (r.pos + 1)) :
    (r.pushSemicolon.advance 1).Placed text := by
  have hclear : ∀ {node : Node}, node.Spanned (Located r.file text) →
      ((r.clear.attach node).advance 1).Placed text := fun hnode =>
    (h.clear.attach rfl hnode).advance (by rwa [attach_pos])
  rw [Reading.pushSemicolon]
  split_ifs with hat hblank
  · have hne := current_ne_nil_of_readsAtRule hat
    exact hclear ⟨h.within_current hsize hne hpos (Nat.le_succ _), trivial⟩
  · exact h.clear.advance hpos
  · have hne : r.current ≠ [] := by
      intro hnil
      simp [Reading.text, hnil, Text.trim, Text.trimStart, Text.trimEnd] at hblank
    exact hclear (spanned_declarationOf (h.within_current hsize hne hpos (Nat.le_succ _)) _ _)

/-- The text in front of a closing brace becomes a node that ends where it ends. -/
lemma Placed.finishText : r.finishText.Placed text := by
  rw [Reading.finishText]
  split_ifs with hnil hat
  · exact h
  · have hne := current_ne_nil_of_readsAtRule hat
    exact h.clear.attach rfl ⟨h.within_current hsize hne h.pos (Nat.le_refl _), trivial⟩
  · have hne : r.current ≠ [] := by simpa using hnil
    exact h.clear.attach rfl
      (spanned_declarationOf (h.within_current hsize hne h.pos (Nat.le_refl _)) _ _)

/-- A rule that is closed takes its place behind its children. -/
lemma Placed.close (hcurrent : r.current = []) {rule : OpenRule} {outer : List OpenRule}
    (hopened : r.opened = rule :: outer) (hpos : Text.IsBoundary text (r.pos + 1)) :
    (({ r with opened := outer }.attach (r.closed rule)).advance 1).Placed text := by
  have hhead : HeadRead text r.pos rule := h.opened rule (by simp [hopened])
  have houter : ({ r with opened := outer } : Reading).Placed text :=
    { h with
      opened := fun rule' hrule => h.opened rule' (by simp [hopened, hrule])
      built := by
        intro node hnode
        refine h.built node ?_
        simp only [Reading.built, hopened, List.flatMap_cons, List.mem_append] at hnode ⊢
        exact hnode.imp_right Or.inr }
  have hnode : (r.closed rule).Spanned (Located r.file text) := by
    refine ⟨⟨_, rfl, located_span hsize hhead.start hpos ?_⟩, Node.spannedAll_iff.2 ?_⟩
    · have := hhead.start_le
      have := hhead.bodyStart_le
      omega
    · intro node hnode
      exact h.built node (by simp [Reading.built, hopened, List.mem_reverse.1 hnode])
  exact (houter.attach hcurrent hnode).advance (by simpa using hpos)

end

/-- The step: a piece that ends at a boundary keeps the invariant. -/
lemma Placed.push {r r' : Reading} (h : r.Placed text)
    (hsize : Text.byteLength text < Span.offsetBound) {p : Piece}
    (hpos : Text.IsBoundary text (r.pos + p.width)) (hpush : r.push p = .ok r')
    (hcustom : ∀ text ended, p = .custom text ended → r.current = []) : r'.Placed text := by
  cases p with
  | verbatim cs =>
      obtain rfl := Except.ok.inj hpush
      exact h.quiet rfl rfl rfl h.licences hpos (Nat.le_add_right _ _) fun hne =>
        edge_of_current_ne_nil hne
  | comment cs isClosed =>
      obtain rfl := Except.ok.inj hpush
      rw [pushComment]
      split_ifs
      · refine h.quiet rfl rfl rfl ?_ hpos (Nat.le_add_right _ _) fun hne =>
          (edge_of_current_ne_nil hne).trans (edge_of_current_ne_nil (r := r) hne).symm
        refine List.forall_mem_cons.2 ⟨⟨_, rfl, ?_⟩, h.licences⟩
        exact located_span hsize h.pos hpos (Nat.le_add_right _ _)
      · exact h.advance hpos
  | brokenString cs => cases hpush
  | gap c =>
      obtain rfl := Except.ok.inj hpush
      exact h.advance hpos
  | newline =>
      obtain rfl := Except.ok.inj hpush
      rw [pushNewline]
      split
      · exact h.advance hpos
      next last before hcurrent =>
        split_ifs
        · exact h.advance hpos
        · exact h.quiet rfl rfl rfl h.licences hpos (Nat.le_add_right _ _) fun hne =>
            (edge_of_current_ne_nil hne).trans
              (edge_of_current_ne_nil (r := r) (by simp [hcurrent])).symm
  | custom cs ended =>
      obtain rfl := Except.ok.inj hpush
      refine (h.attach (hcustom cs ended rfl) (spanned_declarationOf ?_ _ _)).advance ?_
      · exact ⟨_, rfl, located_span hsize h.pos hpos (Nat.le_add_right _ _)⟩
      · simpa using hpos
  | semicolon =>
      obtain rfl := Except.ok.inj hpush
      exact h.pushSemicolon hsize hpos
  | opening =>
      obtain rfl := Except.ok.inj hpush
      exact h.pushOpening hpos
  | closing =>
      obtain ⟨rule, outer, hopened, rfl⟩ := push_closing_iff.1 hpush
      have hclosed : r.closed rule = r.finishText.closed rule := by
        simp [closed, span]
      rw [hclosed]
      exact (h.finishText hsize).close hsize r.finishText_current hopened (by rwa [finishText_pos])
  | plain c =>
      obtain rfl := Except.ok.inj hpush
      rw [pushPlain]
      split_ifs
      · exact h.advance hpos
      · exact h.quiet rfl rfl rfl h.licences hpos (Nat.le_add_right _ _) fun hne =>
          edge_of_current_ne_nil hne

/-- An error is about the piece that was read. -/
lemma span_of_push_error {r : Reading} {p : Piece} {e : ReadError} (hpush : r.push p = .error e) :
    e.span = r.span r.pos (r.pos + p.width) := by
  cases p with
  | brokenString cs =>
      obtain rfl := Except.error.inj hpush
      rfl
  | closing =>
      cases hopened : r.finishText.opened with
      | nil =>
          simp only [Reading.push, pushClosing, hopened, Except.map, Except.error.injEq] at hpush
          subst hpush
          rfl
      | cons rule outer => simp [Reading.push, pushClosing, hopened, Except.map] at hpush
  | _ => cases hpush

/-- An error that a piece leads to has a span inside the text. -/
lemma Placed.within_of_push {r : Reading} (h : r.Placed text)
    (hsize : Text.byteLength text < Span.offsetBound) {p : Piece}
    (hpos : Text.IsBoundary text (r.pos + p.width)) {e : ReadError} (hpush : r.push p = .error e) :
    e.span.Within r.file text := by
  rw [span_of_push_error hpush]
  exact located_span hsize h.pos hpos (Nat.le_add_right _ _)

end Reading

/-! ## Where pieces end -/

lemma StringEnd.cons_eq_cutOff {front text : List Char} {e : StringEnd}
    (h : e.cons front = .cutOff text) : ∃ back, e = .cutOff back ∧ front ++ back = text := by
  cases e with
  | closed back rest => cases h
  | cutOff back => exact ⟨back, rfl, StringEnd.cutOff.inj h⟩

/-- A literal that is cut off is a beginning of the text. -/
lemma stringBody_cutOff {quote : Char} {cs text : List Char}
    (h : stringBody quote cs = .cutOff text) : text <+: cs := by
  fun_induction stringBody quote cs generalizing text with
  | case1 => exact ⟨[], by simp [← StringEnd.cutOff.inj h]⟩
  | case2 c cs ih =>
      obtain ⟨back, hback, rfl⟩ := StringEnd.cons_eq_cutOff h
      simpa using ih hback
  | case3 cs => cases h
  | case4 c cs hesc hquote hcut =>
      obtain rfl := StringEnd.cutOff.inj h
      have hc : c = ';' := by simp_all
      simp [hc]
  | case5 cs => exact ⟨'\n' :: cs, by simp [← StringEnd.cutOff.inj h]⟩
  | case6 c cs hesc hquote hcut hline ih =>
      obtain ⟨back, hback, rfl⟩ := StringEnd.cons_eq_cutOff h
      simpa using ih hback

/-- A piece is a beginning of the text it was taken from, even if it is a literal that was cut
off. -/
lemma Piece.source_begins (fresh : Bool) (c : Char) (rest : List Char) :
    (Piece.next fresh c rest).1.source <+: c :: rest := by
  by_cases hbroken : ∃ text, (Piece.next fresh c rest).1 = .brokenString text
  · obtain ⟨text, htext⟩ := hbroken
    rw [htext]
    revert htext
    fun_cases Piece.next fresh c rest with
    | case1 => cases rest <;> rintro ⟨⟩
    | case3 _ _ hquote body =>
        cases hbody : stringBody c rest with
        | closed cs rest' => simp [body, hbody, Piece.quoted]
        | cutOff cs =>
            simp only [body, hbody, Piece.quoted, Piece.brokenString.injEq]
            rintro rfl
            simpa [Piece.source] using stringBody_cutOff hbody
    | _ => rintro ⟨⟩
  · exact ⟨_, Piece.next_source fresh c rest (not_exists.1 hbroken)⟩

namespace Reading

variable {text front rest : List Char} {c : Char}

/-- Behind each piece the text can be cut. -/
lemma isBoundary_behind {r : Reading} (htext : front ++ c :: rest = text)
    (hpos : r.pos = Text.byteLength front) :
    Text.IsBoundary text (r.pos + (Piece.next r.current.isEmpty c rest).1.width) := by
  obtain ⟨back, hback⟩ := Piece.source_begins r.current.isEmpty c rest
  rw [← htext, ← hback, hpos, Piece.width, ← byteLength_append, ← List.append_assoc]
  exact Text.isBoundary_append _ _

/-- The run: the invariant holds at the end of the text, and an error on the way is located. -/
theorem Placed.run (hsize : Text.byteLength text < Span.offsetBound) {r : Reading}
    (h : r.Placed text) {cs : List Char} (htext : front ++ cs = text)
    (hpos : r.pos = Text.byteLength front) :
    match r.run cs with
    | .error e => e.span.Within r.file text
    | .ok r' => r'.Placed text ∧ r'.file = r.file := by
  fun_induction Reading.run r cs generalizing front with
  | case1 r => exact ⟨h, rfl⟩
  | case2 r c rest step e =>
      have herror : r.push step.1 = .error e := ‹_›
      exact h.within_of_push hsize (isBoundary_behind htext hpos) herror
  | case3 r c rest step next =>
      rename_i hok ih
      have htaken : Taken r step.1 (c :: rest) step.2 := taken_of_push rfl hok
      obtain ⟨hfile, hplace, -⟩ := push_movesPast hok
      have hnext := h.push hsize (isBoundary_behind htext hpos) hok htaken.custom
      rw [← htaken.source, ← List.append_assoc] at htext
      have hrun := ih hnext htext (by rw [hplace, hpos, byteLength_append, Piece.width])
      rwa [hfile] at hrun

end Reading

/-! ## Spans of a source -/

section
variable {file : Nat} {text : String} (hsize : text.utf8ByteSize < Span.offsetBound)
include hsize

/-- Every node of the forest is located. -/
theorem located_of_readStylesheet {nodes : List Node} (hread : readStylesheet file text = .ok nodes) :
    Node.SpannedAll (Located file text.toList) nodes := by
  rw [← byteLength_toList] at hsize
  obtain ⟨r, hrun, hopened, rfl⟩ := exists_run_of_readStylesheet hread
  have hplaced := (Reading.Placed.fresh file text.toList).run hsize (List.nil_append _) rfl
  rw [hrun] at hplaced
  obtain ⟨hplaced, hfile⟩ := hplaced
  have hfile : r.file = file := hfile
  have hbuilt := hplaced.built
  have hlicences := hplaced.licences
  rw [hfile] at hbuilt hlicences
  refine Node.spannedAll_iff.2 fun node hnode => ?_
  rw [List.mem_append, List.mem_reverse, List.mem_reverse] at hnode
  rcases hnode with hnode | hnode
  · exact hlicences node hnode
  · exact hbuilt node (List.mem_append_left _ hnode)

/-- The span of an error is located. -/
theorem within_of_readStylesheet {e : ReadError} (hread : readStylesheet file text = .error e) :
    e.span.Within file text.toList := by
  rw [← byteLength_toList] at hsize
  have hplaced := (Reading.Placed.fresh file text.toList).run hsize (List.nil_append _) rfl
  unfold readStylesheet at hread
  cases hrun : ({ file : Reading }).run text.toList with
  | error e' =>
      simp only [hrun, Except.error.injEq] at hread hplaced
      exact hread ▸ hplaced
  | ok r =>
      simp only [hrun] at hread hplaced
      obtain ⟨hplaced, hfile⟩ := hplaced
      unfold Reading.finish at hread
      cases hopened : r.opened with
      | nil => simp [hopened] at hread
      | cons rule outer =>
          have hhead := hplaced.opened rule (by simp [hopened])
          simp only [hopened, Except.error.injEq] at hread
          subst hread
          have hfile : r.file = file := hfile
          rw [← hfile]
          exact Reading.located_span hsize hhead.start hhead.bodyStart hhead.start_le

end

end UtilityCss
