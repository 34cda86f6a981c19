import UtilityCss.Proofs.Boundaries
import UtilityCss.Proofs.Texts

/-!
# What spans begin with

No rule and no error of a source begins at a blank: what stands under its first byte can be seen.

* **Places** — `Text.VisibleAt`: at an offset stands something else than a space, a newline or a tab.
* **The reader** — it drops blanks in front of a node, so the text it collects begins at a visible
  place, and so do the nodes it has begun (`Reading.Sighted`).  `Reading.Marking` says what a piece does
  to these places, which is all that the step `Sighted.push` needs to know of it.
* **Spans** — `Span.Pointed` adds the visible place to what is known of a span of the source.  It holds of
  every rule, at any depth (`pointed_of_visit`), and of an error (`pointed_of_error`), which is about a
  quote, a brace or the head of a rule.
-/

namespace UtilityCss

/-- At the offset stands a character that is not a blank. -/
def Text.VisibleAt (cs : List Char) (n : Nat) : Prop :=
  ∃ before c after, before ++ c :: after = cs ∧ Text.byteLength before = n ∧ isGap c = false

namespace Reading

/-! ## The invariant of the reader -/

/-- The text being collected and the nodes that were begun begin at visible places. -/
structure Sighted (text : List Char) (r : Reading) : Prop where
  ordered : r.Ordered
  start : r.current ≠ [] → Text.VisibleAt text r.currentStart
  marks : ∀ n, some (r.file, n) ∈ r.marks → Text.VisibleAt text n

variable {text front rest rest' : List Char} {c : Char} {r r' : Reading} {p : Piece}

lemma Sighted.fresh (file : Nat) (text : List Char) : ({ file : Reading }).Sighted text where
  ordered := .fresh file
  start h := absurd rfl h
  marks := nofun

/-- Unless the reader stands at a blank in front of a node, the next node begins at a visible place. -/
lemma Sighted.edge (h : r.Sighted text) (htext : front ++ c :: rest = text)
    (hpos : r.pos = Text.byteLength front) (hc : r.current = [] → isGap c = false) :
    Text.VisibleAt text r.edge := by
  by_cases hcurrent : r.current = []
  · rw [edge_of_current_eq_nil hcurrent]
    exact ⟨front, c, rest, htext, hpos.symm, hc hcurrent⟩
  · rw [edge_of_current_ne_nil hcurrent]
    exact h.start hcurrent

/-- The step: a piece gives away the place of its edge at most, and keeps no other. -/
lemma Sighted.push (h : r.Sighted text) (htext : front ++ c :: rest = text)
    (hpos : r.pos = Text.byteLength front) (hbound : r.pos < Span.offsetBound)
    (hnext : Piece.next r.current.isEmpty c rest = (p, rest')) (hpush : r.push p = .ok r') :
    r'.Sighted text := by
  have htaken := taken_of_push hnext hpush
  have hordered := h.ordered.push hbound hpush htaken.width_pos htaken.custom
  by_cases hblank : r.current = [] ∧ isGap c = true
  · obtain ⟨p', hnext', hp⟩ := Piece.next_blank hblank.2 r.current.isEmpty rest
    obtain rfl : p' = p := (Prod.mk.inj (hnext'.symm.trans hnext)).1
    obtain rfl := Except.ok.inj ((push_blank hblank.1 hblank.2 hp).symm.trans hpush)
    exact ⟨hordered, h.start, h.marks⟩
  · have hfile := (push_movesPast hpush).file
    have hedge := h.edge htext hpos fun hcurrent => by
      rw [← Bool.not_eq_true]
      exact fun hc => hblank ⟨hcurrent, hc⟩
    cases h.ordered.marking hbound hpush htaken.custom with
    | stays hmarks hstart =>
        refine ⟨hordered, fun hne => hstart hne ▸ hedge, fun n hn => h.marks n ?_⟩
        rw [← hfile]
        exact hmarks.mem_iff.1 hn
    | gives hmarks hcurrent =>
        refine ⟨hordered, fun hne => absurd hcurrent hne, fun n hn => ?_⟩
        rw [hfile] at hn
        rcases List.mem_cons.1 (hmarks.mem_iff.1 hn) with hself | hn
        · obtain ⟨-, rfl⟩ := Prod.mk.inj (Option.some.inj hself)
          exact hedge
        · exact h.marks n hn

/-- What cannot be read is no blank: blanks are passed over. -/
lemma visibleAt_of_push (htext : front ++ c :: rest = text) (hpos : r.pos = Text.byteLength front)
    (hbound : r.pos < Span.offsetBound) (hnext : Piece.next r.current.isEmpty c rest = (p, rest'))
    {e : ReadError} (hpush : r.push p = .error e) : Text.VisibleAt text e.span.start := by
  have hstart : e.span.start = r.pos := by
    rw [span_of_push_error hpush]
    exact Nat.mod_eq_of_lt hbound
  have hc : isGap c = false := by
    rw [← Bool.not_eq_true]
    intro hc
    obtain ⟨p', hnext', hp⟩ := Piece.next_blank hc r.current.isEmpty rest
    obtain rfl : p' = p := (Prod.mk.inj (hnext'.symm.trans hnext)).1
    rcases hp with rfl | rfl | rfl <;> cases hpush
  rw [hstart]
  exact ⟨front, c, rest, htext, hpos.symm, hc⟩

/-- The run: the invariant holds at the end of the text, and an error on the way is about a visible
place. -/
theorem Sighted.run (hsize : Text.byteLength text < Span.offsetBound) {cs : List Char}
    (h : r.Sighted text) (htext : front ++ cs = text) (hpos : r.pos = Text.byteLength front) :
    match r.run cs with
    | .error e => Text.VisibleAt text e.span.start
    | .ok r' => r'.Sighted text ∧ r'.file = r.file := by
  have hbound : r.pos < Span.offsetBound := by
    rw [← htext, byteLength_append] at hsize
    omega
  fun_induction Reading.run r cs generalizing front with
  | case1 r => exact ⟨h, rfl⟩
  | case2 r c rest step e =>
      have herror : r.push step.1 = .error e := ‹_›
      exact visibleAt_of_push htext hpos hbound rfl herror
  | case3 r c rest step next =>
      rename_i hok ih
      have htaken : Taken r step.1 (c :: rest) step.2 := taken_of_push rfl hok
      obtain ⟨hfile, hplace, -⟩ := push_movesPast hok
      have hnext := h.push htext hpos hbound rfl hok
      rw [← htaken.source, ← List.append_assoc] at htext
      have hpos' : next.pos = Text.byteLength (front ++ step.1.source) := by
        rw [hplace, hpos, byteLength_append, Piece.width]
      have hbound' : next.pos < Span.offsetBound := by
        rw [← htext, byteLength_append] at hsize
        omega
      have hrun := ih hnext htext hpos' hbound'
      rwa [hfile] at hrun

end Reading

/-! ## Marks of rules -/

namespace Node

mutual

lemma mark_mem_marks {selector : String} {children : List Node} {hasBlock : Bool} {span : Option Span}
    {node : Node} {d e : Nat} (h : (d, .rule selector children hasBlock span) ∈ node.visits e) :
    span.map Span.mark ∈ node.marks := by
  cases node with
  | rule selector' nodes hasBlock' span' =>
      rw [visits, List.mem_cons] at h
      rw [marks, List.mem_cons]
      rcases h with hself | hbelow
      · obtain ⟨-, -, -, rfl⟩ := Node.rule.inj (Prod.mk.inj hself).2
        exact Or.inl rfl
      · exact Or.inr (mark_mem_marksAll hbelow)
  | declaration property value important span' => simp [visits] at h
  | comment text span' => simp [visits] at h

/-- The span of every rule of a forest is marked, whatever its depth. -/
lemma mark_mem_marksAll {selector : String} {children : List Node} {hasBlock : Bool}
    {span : Option Span} {nodes : List Node} {d e : Nat}
    (h : (d, .rule selector children hasBlock span) ∈ visitsAll e nodes) :
    span.map Span.mark ∈ marksAll nodes := by
  cases nodes with
  | nil => cases h
  | cons node rest =>
      rw [visitsAll, List.mem_append] at h
      rw [marksAll, List.mem_append]
      exact h.imp mark_mem_marks mark_mem_marksAll

end

end Node

/-! ## Spans of a source -/

/-- The span is one of the text, and begins at a visible place. -/
structure Span.Pointed (file : Nat) (text : List Char) (s : Span) : Prop extends
    s.Within file text where
  visible : Text.VisibleAt text s.start

section
variable {file : Nat} {text : String} (hsize : text.utf8ByteSize < Span.offsetBound)
include hsize

lemma visibleAt_of_mem_marksAll {nodes : List Node} (hread : readStylesheet file text = .ok nodes)
    {n : Nat} (hmark : some (file, n) ∈ Node.marksAll nodes) : Text.VisibleAt text.toList n := by
  obtain ⟨r, hrun, -, hfile, hmarks⟩ := exists_marks_of_readStylesheet hsize hread
  rw [← byteLength_toList] at hsize
  have hsighted := (Reading.Sighted.fresh file text.toList).run hsize (List.nil_append _) rfl
  rw [hrun] at hsighted
  refine hsighted.1.marks n ?_
  rw [hfile]
  exact hmarks.mem_iff.1 hmark

/-- Every rule points at the source. -/
theorem pointed_of_visit {nodes : List Node} (hread : readStylesheet file text = .ok nodes)
    {depth : Nat} {selector : String} {children : List Node} {hasBlock : Bool} {span : Option Span}
    (hvisit : (depth, .rule selector children hasBlock span) ∈ Node.visitsAll 0 nodes) :
    ∃ s, span = some s ∧ s.Pointed file text.toList := by
  obtain ⟨s, hspan, hwithin⟩ := (located_of_readStylesheet hsize hread).visitsAll 0 _ hvisit
  obtain rfl : span = some s := hspan
  have hmark := Node.mark_mem_marksAll hvisit
  rw [Option.map_some, Span.mark, hwithin.file] at hmark
  exact ⟨s, rfl, { hwithin with visible := visibleAt_of_mem_marksAll hsize hread hmark }⟩

/-- An error points at the source. -/
theorem pointed_of_error {e : ReadError} (hread : readStylesheet file text = .error e) :
    e.span.Pointed file text.toList := by
  have hwithin := within_of_readStylesheet hsize hread
  rw [← byteLength_toList] at hsize
  refine { hwithin with visible := ?_ }
  have hsighted := (Reading.Sighted.fresh file text.toList).run hsize (List.nil_append _) rfl
  unfold readStylesheet at hread
  cases hrun : ({ file : Reading }).run text.toList with
  | error e' =>
      simp only [hrun, Except.error.injEq] at hread hsighted
      exact hread ▸ hsighted
  | ok r =>
      simp only [hrun] at hread hsighted
      obtain ⟨hsighted, -⟩ := hsighted
      unfold Reading.finish at hread
      cases hopened : r.opened with
      | nil => simp [hopened] at hread
      | cons rule outer =>
          simp only [hopened, Except.error.injEq] at hread
          subst hread
          have hvisible := hsighted.marks rule.start (by simp [Reading.marks, hopened, Reading.openMarks])
          have hstart : rule.start < Span.offsetBound := by
            obtain ⟨before, c, after, htext, hbefore, -⟩ := hvisible
            rw [← htext, byteLength_append] at hsize
            omega
          have hoffset : (r.span rule.start rule.bodyStart).start = rule.start :=
            Nat.mod_eq_of_lt hstart
          show Text.VisibleAt text.toList (r.span rule.start rule.bodyStart).start
          rwa [hoffset]

end

end UtilityCss
