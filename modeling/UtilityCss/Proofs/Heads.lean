import UtilityCss.Proofs.Minified
import UtilityCss.Proofs.Visible

/-!
# Where the head of a rule was written

The selector of a rule is not the text that its span begins with.  Comments are taken out of it, blanks are
trimmed off both ends, and runs of blanks become one.  What was written is told apart again here.

* **Strewn texts** — `Text.Strewn`: a text as it is written, and without its comments.
* **Gathered texts** — `Text.Gathered` says, piece by piece, what the reader collects from what is written.
  A blank in front of another is dropped, and another has to follow; so a name without blanks is written
  with comments in between and nothing else (`Gathered.spread`).
* **The reader** — the text it collects was gathered from its edge on (`Reading.Gathering`), and so were the
  heads of its rules, at any depth (`Reading.Begun`); `headAt_of_visit` says it of a source.
-/

namespace UtilityCss

/-! ## Strewn texts -/

/-- A comment that is closed is so whatever follows it. -/
lemma encloses_of_closed {cs text rest : List Char} (h : commentBody cs = (text, true, rest)) :
    Encloses text := by
  have hsource : text ++ '*' :: '/' :: rest = cs := by
    have hparts := commentBody_source cs
    rwa [h] at hparts
  exact encloses_of_commentBody (by rw [hsource, h])

namespace Text

/-- Closed comments, and characters of a kind in between. -/
inductive Filler (kind : Char → Bool) : List Char → Prop
  | nil : Filler kind []
  | char {c : Char} {cs : List Char} (hc : kind c = true) (h : Filler kind cs) : Filler kind (c :: cs)
  | comment {text cs : List Char} (hclosed : Encloses text) (h : Filler kind cs) :
      Filler kind ('/' :: '*' :: (text ++ '*' :: '/' :: cs))

/-- A text as it is written, with closed comments in front of its characters, and without them. -/
inductive Strewn : (written bare : List Char) → Prop
  | nil : Strewn [] []
  | keep (c : Char) {written bare : List Char} (h : Strewn written bare) :
      Strewn (c :: written) (c :: bare)
  | comment {text written bare : List Char} (hclosed : Encloses text) (hbare : bare ≠ [])
      (h : Strewn written bare) : Strewn ('/' :: '*' :: (text ++ '*' :: '/' :: written)) bare

namespace Filler
variable {kind : Char → Bool} {a b : List Char}

lemma append (h : Filler kind a) (h' : Filler kind b) : Filler kind (a ++ b) := by
  induction h with
  | nil => exact h'
  | char hc h ih => exact .char hc ih
  | comment hclosed h ih =>
      rw [List.cons_append, List.cons_append, List.append_assoc]
      exact .comment hclosed ih

/-- Comments alone can stand in front of a text. -/
lemma strewn (h : Filler (fun _ => false) a) {written bare : List Char} (h' : Strewn written bare)
    (hbare : bare ≠ []) : Strewn (a ++ written) bare := by
  induction h with
  | nil => exact h'
  | char hc h ih => cases hc
  | comment hclosed h ih =>
      rw [List.cons_append, List.cons_append, List.append_assoc]
      exact .comment hclosed hbare ih

end Filler

namespace Strewn
variable {written written' bare bare' : List Char}

/-- What is strewn in parts is strewn in whole. -/
lemma append (h : Strewn written bare) (h' : Strewn written' bare') :
    Strewn (written ++ written') (bare ++ bare') := by
  induction h with
  | nil => exact h'
  | keep c h ih => exact .keep c ih
  | comment hclosed hbare h ih =>
      rw [List.cons_append, List.cons_append, List.append_assoc]
      exact .comment hclosed (List.append_ne_nil_of_left_ne_nil hbare _) ih

lemma eq_nil (h : Strewn written []) : written = [] := by
  cases h with
  | nil => rfl
  | comment hclosed hbare h => exact absurd rfl hbare

/-- A text without slashes that is the beginning of what is written stands there as it is. -/
lemma eq_of_prefix (h : Strewn written bare) (hslash : '/' ∉ bare) {more : List Char}
    (hbegins : bare <+: written ++ more) : written = bare := by
  induction h with
  | nil => rfl
  | keep c h ih =>
      rw [List.cons_append, List.cons_prefix_cons] at hbegins
      rw [ih (fun hmem => hslash (List.mem_cons_of_mem c hmem)) hbegins.2]
  | @comment text written bare hclosed hbare h ih =>
      cases bare with
      | nil => exact absurd rfl hbare
      | cons c bare =>
          rw [List.cons_append, List.cons_prefix_cons] at hbegins
          exact absurd (by rw [hbegins.1]; exact List.mem_cons_self) hslash

/-- Filling makes a text no shorter. -/
lemma byteLength_le (h : Strewn written bare) : byteLength bare ≤ byteLength written := by
  induction h with
  | nil => exact Nat.le_refl _
  | keep c h ih =>
      rw [byteLength, byteLength]
      omega
  | comment hclosed hbare h ih =>
      rw [byteLength, byteLength, byteLength_append, byteLength, byteLength]
      omega

/-- Comments take place. -/
lemma eq_of_byteLength_eq (h : Strewn written bare) (hlength : byteLength written = byteLength bare) :
    written = bare := by
  induction h with
  | nil => rfl
  | keep c h ih =>
      rw [byteLength, byteLength, Nat.add_left_cancel_iff] at hlength
      rw [ih hlength]
  | comment hclosed hbare h ih =>
      have hle := h.byteLength_le
      have hpos := '/'.utf8Size_pos
      rw [byteLength, byteLength, byteLength_append, byteLength, byteLength] at hlength
      omega

end Strewn

/-! ## Gathered texts -/

/-- What is collected, back to front, from what is written.  A blank in front of another may be owed. -/
inductive Gathered : (owed : Bool) → (written current : List Char) → Prop
  | fresh : Gathered false [] []
  | verbatim {owed : Bool} {written current text : List Char}
      (hmark : ∃ d ∈ text, d = '\\' ∨ d = '"' ∨ d = '\'') (h : Gathered owed written current) :
      Gathered false (written ++ text) (text.reverse ++ current)
  | plain {owed : Bool} {written current : List Char} {c : Char}
      (howed : owed = true → isGap c = true) (h : Gathered owed written current) :
      Gathered false (written ++ [c]) (c :: current)
  | comment {written current text : List Char} (hclosed : Encloses text)
      (h : Gathered false written current) :
      Gathered false (written ++ '/' :: '*' :: (text ++ ['*', '/'])) current
  | gap {owed : Bool} {written current : List Char} {c : Char} (hc : isGap c = true)
      (h : Gathered owed written current) : Gathered true (written ++ [c]) current
  | newline {owed : Bool} {written current : List Char} (h : Gathered owed written current) :
      Gathered false (written ++ ['\n']) (Piece.joinLine current)

/-- A name is written with comments in between, and blanks and comments around it; if the name is the last,
comments alone are behind it. -/
def Spread (last : Prop) (written name : List Char) : Prop :=
  ∃ front middle back, written = front ++ (middle ++ back) ∧ Filler isBlank front ∧
    Strewn middle name ∧ Filler isBlank back ∧ (last → Filler (fun _ => false) back)

/-- More blanks may follow a name that is spread. -/
lemma Spread.more {last last' : Prop} {written name more : List Char} (h : Spread last written name)
    (hmore : Filler isBlank more) (hlast : last' → last ∧ Filler (fun _ => false) more) :
    Spread last' (written ++ more) name := by
  obtain ⟨front, middle, back, rfl, hfront, hmiddle, hback, hbare⟩ := h
  refine ⟨front, middle, back ++ more, by simp only [List.append_assoc], hfront, hmiddle,
    hback.append hmore, fun h => ?_⟩
  exact (hbare (hlast h).1).append (hlast h).2

/-- One character more of the name keeps the comments that stand in front of it within the name. -/
lemma Spread.name {written name : List Char} {gap last : Prop} (h : Spread gap written name)
    (hgap : name ≠ [] → gap) (c : Char) : Spread last (written ++ [c]) (name ++ [c]) := by
  obtain ⟨front, middle, back, rfl, hfront, hmiddle, hback, hcomments⟩ := h
  by_cases hname : name = []
  · subst hname
    obtain rfl := hmiddle.eq_nil
    exact ⟨front ++ back, [c], [], by simp, hfront.append hback, .keep c .nil, .nil, fun _ => .nil⟩
  · refine ⟨front, middle ++ (back ++ [c]), [], by simp, hfront, ?_, .nil, fun _ => .nil⟩
    exact hmiddle.append ((hcomments (hgap hname)).strewn (.keep c .nil) (List.cons_ne_nil c []))

/-- A text is a name with blanks around it.  In the name is nothing that has to be kept as it stands. -/
structure Around (text lead name trail : List Char) : Prop where
  text_eq : text = lead ++ (name ++ trail)
  lead : ∀ c ∈ lead, isBlank c = true
  name : ∀ c ∈ name, isBlank c = false ∧ c ≠ '\\' ∧ c ≠ '"' ∧ c ≠ '\''
  trail : ∀ c ∈ trail, isBlank c = true

/-- The last character of the text is one behind the name, or the last of the name, or one in front. -/
lemma Around.of_concat {text lead name trail : List Char} {c : Char}
    (h : Around (text ++ [c]) lead name trail) :
    (∃ trail', trail = trail' ++ [c] ∧ isBlank c = true ∧ Around text lead name trail') ∨
      (trail = [] ∧ isBlank c = false ∧ ∃ name', name = name' ++ [c] ∧ Around text lead name' []) ∨
      (trail = [] ∧ name = [] ∧ isBlank c = true ∧ ∃ lead', Around text lead' [] []) := by
  obtain ⟨htext, hlead, hname, htrail⟩ := h
  rcases List.eq_nil_or_concat trail with rfl | ⟨trail', d, rfl⟩
  · right
    rw [List.append_nil] at htext
    rcases List.eq_nil_or_concat name with rfl | ⟨name', d, rfl⟩
    · right
      rw [List.append_nil] at htext
      subst htext
      rw [List.forall_mem_append, List.forall_mem_singleton] at hlead
      exact ⟨rfl, rfl, hlead.2, text, by simp, hlead.1, nofun, nofun⟩
    · left
      rw [List.concat_eq_append] at htext hname ⊢
      rw [← List.append_assoc] at htext
      obtain ⟨rfl, hd⟩ := List.append_inj' htext rfl
      obtain rfl : c = d := by simpa using hd
      rw [List.forall_mem_append, List.forall_mem_singleton] at hname
      exact ⟨rfl, hname.2.1, name', rfl, by simp, hlead, hname.1, nofun⟩
  · left
    rw [List.concat_eq_append] at htext htrail ⊢
    rw [← List.append_assoc, ← List.append_assoc] at htext
    obtain ⟨rfl, hd⟩ := List.append_inj' htext rfl
    obtain rfl : c = d := by simpa using hd
    rw [List.forall_mem_append, List.forall_mem_singleton] at htrail
    exact ⟨trail', rfl, htrail.2, by simp, hlead, hname, htrail.1⟩

/-- A head holds nothing that the reader takes for an escape or a literal. -/
lemma Around.not_mark {text lead name trail : List Char} (h : Around text lead name trail) :
    ∀ c ∈ text, c ≠ '\\' ∧ c ≠ '"' ∧ c ≠ '\'' := by
  have hblank : ∀ c : Char, isBlank c = true → c ≠ '\\' ∧ c ≠ '"' ∧ c ≠ '\'' := by
    rintro c hc
    refine ⟨?_, ?_, ?_⟩ <;>
      · rintro rfl
        cases hc
  intro c hc
  rw [h.text_eq, List.mem_append, List.mem_append] at hc
  rcases hc with hc | hc | hc
  · exact hblank c (h.lead c hc)
  · exact (h.name c hc).2
  · exact hblank c (h.trail c hc)

/-- One blank more is collected, and one is written, not always the same. -/
lemma Spread.blank {owed : Bool} {written text lead name trail : List Char} {c d : Char} {last : Prop}
    (hwritten : isBlank c = true) (hd : isBlank d = true) (h : Around (text ++ [d]) lead name trail)
    (hlast : last → trail = [] ∧ name ≠ [])
    (ih : ∀ {lead name trail : List Char}, Around text lead name trail →
      Spread (trail = [] ∧ name ≠ [] ∧ owed = false) written name) :
    Spread last (written ++ [c]) name := by
  rcases h.of_concat with
    ⟨trail', rfl, -, h'⟩ | ⟨-, hc, -⟩ | ⟨-, rfl, -, lead', h'⟩
  · refine (ih h').more (.char hwritten .nil) fun hl => ?_
    exact absurd (hlast hl).1 (by simp)
  · rw [hd] at hc
    cases hc
  · refine (ih h').more (.char hwritten .nil) fun hl => ?_
    exact absurd rfl (hlast hl).2

/-- **What was written for a name.**  The induction is on what was gathered: every character of the name
closes the gap of comments in front of it. -/
theorem Gathered.spread {owed : Bool} {written current : List Char} (h : Gathered owed written current)
    {lead name trail : List Char} (haround : Around current.reverse lead name trail) :
    Spread (trail = [] ∧ name ≠ [] ∧ owed = false) written name := by
  induction h generalizing lead name trail with
  | fresh =>
      obtain ⟨htext, -, -, -⟩ := haround
      obtain ⟨rfl, rfl, rfl⟩ : lead = [] ∧ name = [] ∧ trail = [] := by simpa using htext.symm
      exact ⟨[], [], [], rfl, .nil, .nil, .nil, fun _ => .nil⟩
  | @verbatim owed written current text hmark h ih =>
      obtain ⟨d, hd, hmark⟩ := hmark
      have hplain := haround.not_mark d (by simp [hd])
      rcases hmark with rfl | rfl | rfl
      · exact absurd rfl hplain.1
      · exact absurd rfl hplain.2.1
      · exact absurd rfl hplain.2.2
  | @plain owed written current c howed h ih =>
      rw [List.reverse_cons] at haround
      by_cases hc : isBlank c = true
      · exact .blank hc hc haround (fun hl => ⟨hl.1, hl.2.1⟩) ih
      · rcases haround.of_concat with
          ⟨trail', -, hblank, -⟩ | ⟨rfl, -, name', rfl, h'⟩ | ⟨-, -, hblank, -⟩
        · exact absurd hblank hc
        · have howed : owed = false := by
            rw [← Bool.not_eq_true]
            exact fun hgap => hc (isBlank_of_isGap (howed hgap))
          exact (ih h').name (fun hname => ⟨rfl, hname, howed⟩) c
        · exact absurd hblank hc
  | @comment written current text hclosed h ih =>
      exact (ih haround).more (.comment hclosed .nil) fun hl => ⟨hl, .comment hclosed .nil⟩
  | @gap owed written current c hc h ih =>
      exact (ih haround).more (.char (isBlank_of_isGap hc) .nil) fun hl => absurd hl.2.2.symm nofun
  | @newline owed written current h ih =>
      cases current with
      | nil =>
          have hname : name = [] := by
            have htext := haround.text_eq
            simp only [Piece.joinLine, List.reverse_nil, List.nil_eq, List.append_eq_nil_iff] at htext
            exact htext.2.1
          exact (ih haround).more (.char rfl .nil) fun hl => absurd hname hl.2.1
      | cons last before =>
          rw [Piece.joinLine] at haround
          split_ifs at haround with hgap
          · refine (ih haround).more (.char rfl .nil) fun hl => ?_
            rw [List.reverse_cons] at haround
            rcases haround.of_concat with ⟨trail', rfl, -⟩ | ⟨-, hlast, -⟩ | ⟨-, hname, -⟩
            · exact absurd hl.1 (by simp)
            · rw [isBlank_of_isGap hgap] at hlast
              cases hlast
            · exact absurd hname hl.2.1
          · rw [List.reverse_cons] at haround
            exact .blank rfl rfl haround (fun hl => ⟨hl.1, hl.2.1⟩) ih

end Text

/-! ## Pieces -/

/-- What the next piece tells of the text that it was taken from. -/
lemma Piece.tells_next (fresh : Bool) (c : Char) (rest : List Char) :
    match (next fresh c rest).1 with
    | .comment text closed => c = '/' ∧ commentBody rest.tail = (text, closed, (next fresh c rest).2)
    | .gap d => d = c ∧ isGap c = true ∧ (next fresh c rest).2.head?.any isGap = true
    | .plain d => d = c
    | _ => True := by
  fun_cases next fresh c rest with
  | case1 hesc => cases rest <;> trivial
  | case2 hesc hcomment body =>
      simp only [Bool.and_eq_true, decide_eq_true_eq] at hcomment
      exact ⟨hcomment.1, rfl⟩
  | case3 _ _ hquote body => cases hbody : stringBody c rest <;> simp [body, hbody, quoted]
  | case4 _ _ _ hgap => exact ⟨rfl, Bool.and_eq_true_iff.1 hgap⟩
  | case10 => rfl
  | _ => trivial

/-- The step on what was gathered: unless a comment runs to the end, a piece that leaves text adds to it. -/
lemma Text.Gathered.next {owed : Bool} {written current rest rest' : List Char} {c : Char} {p : Piece}
    (h : Gathered owed written current) (howed : owed = true → isGap c = true)
    (hnext : Piece.next current.isEmpty c rest = (p, rest'))
    (hbroken : ∀ text, p ≠ .brokenString text) (hkept : p.kept current ≠ []) :
    rest' = [] ∨ ∃ owed', Gathered owed' (written ++ p.source) (p.kept current) ∧
      (owed' = true → rest'.head?.any isGap = true) := by
  have htells := Piece.tells_next current.isEmpty c rest
  rw [hnext] at htells
  cases p with
  | verbatim text =>
      obtain ⟨d, hd, hmark⟩ := Piece.head?_of_next_verbatim hnext
      exact Or.inr ⟨false, .verbatim ⟨d, List.mem_of_mem_head? hd, hmark⟩ h, nofun⟩
  | comment text closed =>
      obtain ⟨rfl, hbody⟩ := htells
      cases closed with
      | false =>
          have hrest : (commentBody rest.tail).2.2 = [] := rest_of_commentBody (by rw [hbody])
          rw [hbody] at hrest
          exact Or.inl hrest
      | true =>
          obtain rfl : owed = false := by
            rw [← Bool.not_eq_true]
            exact fun hgap => absurd (howed hgap) (by decide)
          exact Or.inr ⟨false, .comment (encloses_of_closed hbody) h, nofun⟩
  | brokenString text => exact absurd rfl (hbroken text)
  | gap d =>
      obtain ⟨rfl, hgap, hrun⟩ := htells
      exact Or.inr ⟨true, .gap hgap h, fun _ => hrun⟩
  | newline => exact Or.inr ⟨false, .newline h, nofun⟩
  | custom text ended =>
      have hfresh := Piece.fresh_of_next_custom (congrArg Prod.fst hnext)
      exact absurd (List.isEmpty_iff.1 hfresh) hkept
  | semicolon => exact absurd rfl hkept
  | opening => exact absurd rfl hkept
  | closing => exact absurd rfl hkept
  | plain d =>
      obtain rfl : d = c := htells
      rw [Piece.kept] at hkept ⊢
      split_ifs at hkept ⊢ with hblank
      · simp only [Bool.and_eq_true, List.isEmpty_iff] at hblank
        exact absurd hblank.1 hkept
      · exact Or.inr ⟨false, .plain howed h, nofun⟩

/-- At an offset of a text is written what a selector was collected from. -/
def Text.HeadAt (text : List Char) (start : Nat) (selector : String) : Prop :=
  ∃ before written after owed current, before ++ (written ++ after) = text ∧
    byteLength before = start ∧ Gathered owed written current ∧
    selector = String.ofList (trim current.reverse)

/-- If the node is a rule, its span is there and begins where its selector was written. -/
def Headed (text : List Char) : Node → Prop
  | .rule selector _ _ span => ∃ s, span = some s ∧ Text.HeadAt text s.start selector
  | .declaration .. => True
  | .comment .. => True

namespace Reading

/-! ## The text being collected -/

variable {text front rest rest' : List Char} {c : Char} {r r' : Reading} {p : Piece}

/-- The text being collected was gathered from the edge on, unless nothing is left to read. -/
def Gathering (front rest : List Char) (r : Reading) : Prop :=
  rest = [] ∨ ∃ before written owed, before ++ written = front ∧ Text.byteLength before = r.edge ∧
    Text.Gathered owed written r.current ∧ (owed = true → rest.head?.any isGap = true)

/-- Where nothing is collected, a head may begin. -/
lemma Gathering.fresh (hcurrent : r.current = []) (hpos : r.pos = Text.byteLength front)
    (rest : List Char) : r.Gathering front rest := by
  refine Or.inr ⟨front, [], false, List.append_nil front, ?_, ?_, nofun⟩
  · rw [edge_of_current_eq_nil hcurrent, hpos]
  · rw [hcurrent]
    exact .fresh

/-- The text that a piece leaves began where it did. -/
lemma edge_of_push (hpush : r.push p = .ok r')
    (hcustom : ∀ text ended, p = .custom text ended → r.current = []) (hne : r'.current ≠ []) :
    r'.edge = r.edge := by
  cases push_effect hpush hcustom with
  | quiet hp hopened hfinished hedge => exact hedge hne
  | leaf hp node hnode hopened hfinished hcurrent => exact absurd hcurrent hne
  | opening rule hstart hnodes hopened hfinished hcurrent => exact absurd hcurrent hne
  | closing hopened =>
      refine absurd ?_ hne
      show (Reading.attach _ _).current = []
      rw [attach_current]
      exact finishText_current r

/-- One piece more, whatever it is, keeps what was gathered apart from what was filled in. -/
lemma Gathering.push (h : r.Gathering front (c :: rest)) (hpos : r.pos = Text.byteLength front)
    (hnext : Piece.next r.current.isEmpty c rest = (p, rest')) (hpush : r.push p = .ok r') :
    r'.Gathering (front ++ p.source) rest' := by
  have htaken := taken_of_push hnext hpush
  have hcurrent := (push_told hpush).1
  have hpos' : r'.pos = Text.byteLength (front ++ p.source) := by
    rw [(push_movesPast hpush).pos, hpos, byteLength_append, Piece.width]
  by_cases hnil : r'.current = []
  · exact .fresh hnil hpos' rest'
  · obtain ⟨before, written, owed, rfl, hbefore, hgathered, howed⟩ :=
      h.resolve_left (List.cons_ne_nil c rest)
    have hbroken : ∀ text, p ≠ .brokenString text := by
      rintro text rfl
      cases hpush
    rw [hcurrent] at hnil
    rcases hgathered.next (by simpa using howed) hnext hbroken hnil with hend | ⟨owed', hnew, howed'⟩
    · exact Or.inl hend
    · refine Or.inr ⟨before, written ++ p.source, owed', (List.append_assoc ..).symm, ?_, ?_, howed'⟩
      · rw [edge_of_push hpush htaken.custom (by rwa [hcurrent]), hbefore]
      · rwa [hcurrent]

/-- What is collected where something is left to read was written at the edge. -/
lemma Gathering.headAt (h : r.Gathering front (c :: rest)) (htext : front ++ c :: rest = text) :
    Text.HeadAt text r.edge (String.ofList (Text.trim r.text)) := by
  obtain ⟨before, written, owed, rfl, hbefore, hgathered, -⟩ := h.resolve_left (List.cons_ne_nil c rest)
  exact ⟨before, written, c :: rest, owed, r.current, by rw [← htext, List.append_assoc], hbefore,
    hgathered, rfl⟩

/-! ## The rules that were begun -/

/-- The rules that are open and those that were finished begin where their selectors were written. -/
structure Begun (text : List Char) (r : Reading) : Prop where
  opened : ∀ rule ∈ r.opened, rule.start < Span.offsetBound ∧ Text.HeadAt text rule.start rule.selector
  built : ∀ node ∈ r.built, node.Every (Headed text)
  licences : ∀ node ∈ r.licences, node.Every (Headed text)

namespace Begun

lemma fresh (file : Nat) (text : List Char) : ({ file : Reading }).Begun text :=
  ⟨nofun, nofun, nofun⟩

/-- The reader goes on without finishing a node. -/
lemma quiet (h : r.Begun text) (hopened : r'.opened = r.opened) (hfinished : r'.finished = r.finished)
    (hlicences : ∀ node ∈ r'.licences, node.Every (Headed text)) : r'.Begun text := by
  refine ⟨by rw [hopened]; exact h.opened, ?_, hlicences⟩
  rw [Reading.built, hopened, hfinished]
  exact h.built

lemma clear (h : r.Begun text) : r.clear.Begun text :=
  h.quiet rfl rfl h.licences

lemma advance (h : r.Begun text) (n : Nat) : (r.advance n).Begun text :=
  h.quiet rfl rfl h.licences

/-- A node with its head in the text joins the others. -/
lemma attach (h : r.Begun text) {node : Node} (hnode : node.Every (Headed text)) :
    (r.attach node).Begun text := by
  refine ⟨?_, fun node' hnode' => ?_, by rw [attach_licences]; exact h.licences⟩
  · cases hopened : r.opened with
    | nil => simp [attach_of_opened_eq_nil hopened, hopened]
    | cons rule outer =>
        have hall := h.opened
        rw [hopened, List.forall_mem_cons] at hall
        rw [attach_of_opened_eq_cons hopened, List.forall_mem_cons]
        exact hall
  · rcases mem_built_attach.1 hnode' with rfl | hnode'
    · exact hnode
    · exact h.built node' hnode'

/-- A statement begins at the edge. -/
lemma statement (hhead : Text.HeadAt text r.edge (String.ofList (Text.trim r.text)))
    (hedge : r.edge < Span.offsetBound) (hcurrent : r.current ≠ []) (stop : Nat) :
    (Node.rule (String.ofList (Text.trim r.text)) [] false
      (some (r.span r.currentStart stop))).Every (Headed text) := by
  rw [edge_of_current_ne_nil hcurrent] at hhead hedge
  refine .rule ⟨_, rfl, ?_⟩ nofun
  show Text.HeadAt text (r.currentStart % Span.offsetBound) _
  rwa [Nat.mod_eq_of_lt hedge]

section
variable (h : r.Begun text) (hhead : Text.HeadAt text r.edge (String.ofList (Text.trim r.text)))
  (hedge : r.edge < Span.offsetBound)
include h hhead hedge

/-- A statement has its head in the text. -/
lemma pushSemicolon : r.pushSemicolon.Begun text := by
  rw [Reading.pushSemicolon]
  split_ifs with hat hblank
  · rw [trimEnd_eq_trim (by simpa [readsAtRule] using hat)]
    exact h.clear.attach (statement hhead hedge (current_ne_nil_of_readsAtRule hat) _)
  · exact h.clear
  · exact h.clear.attach (.declarationOf fun _ _ _ => trivial)

/-- A statement that a closing brace ends has its head in the text, too. -/
lemma finishText : r.finishText.Begun text := by
  rw [Reading.finishText]
  split_ifs with hnil hat
  · exact h
  · exact h.clear.attach (statement hhead hedge (current_ne_nil_of_readsAtRule hat) _)
  · exact h.clear.attach (.declarationOf fun _ _ _ => trivial)

end

/-- A rule that is closed takes its place behind its children. -/
lemma close (h : r.Begun text) {rule : OpenRule} {outer : List OpenRule}
    (hopened : r.opened = rule :: outer) :
    ({ r with opened := outer }.attach (r.closed rule)).Begun text := by
  obtain ⟨hstart, hhead⟩ := h.opened rule (by simp [hopened])
  have houter : ({ r with opened := outer } : Reading).Begun text :=
    { opened := fun rule' hrule => h.opened rule' (by simp [hopened, hrule])
      built := by
        intro node hnode
        refine h.built node ?_
        simp only [Reading.built, hopened, List.flatMap_cons, List.mem_append] at hnode ⊢
        exact hnode.imp_right Or.inr
      licences := h.licences }
  refine houter.attach (.rule ⟨_, rfl, ?_⟩ fun node hnode => ?_)
  · show Text.HeadAt text (rule.start % Span.offsetBound) _
    rwa [Nat.mod_eq_of_lt hstart]
  · exact h.built node (by simp [Reading.built, hopened, List.mem_reverse.1 hnode])

/-- The step: what is collected is the head of a rule that begins at the edge, if it is one at all. -/
lemma push (h : r.Begun text) (hhead : Text.HeadAt text r.edge (String.ofList (Text.trim r.text)))
    (hedge : r.edge < Span.offsetBound) (hpush : r.push p = .ok r') : r'.Begun text := by
  cases p with
  | verbatim cs =>
      obtain rfl := Except.ok.inj hpush
      exact h.quiet rfl rfl h.licences
  | comment cs closed =>
      obtain rfl := Except.ok.inj hpush
      rw [pushComment]
      split_ifs
      · exact h.quiet rfl rfl (List.forall_mem_cons.2 ⟨.comment trivial, h.licences⟩)
      · exact h.advance _
  | brokenString cs => cases hpush
  | gap c =>
      obtain rfl := Except.ok.inj hpush
      exact h.advance _
  | newline =>
      obtain rfl := Except.ok.inj hpush
      rw [pushNewline]
      split
      · exact h.advance _
      · split_ifs
        · exact h.advance _
        · exact h.quiet rfl rfl h.licences
  | custom cs ended =>
      obtain rfl := Except.ok.inj hpush
      exact (h.attach (.declarationOf fun _ _ _ => trivial)).advance _
  | semicolon =>
      obtain rfl := Except.ok.inj hpush
      exact (h.pushSemicolon hhead hedge).advance _
  | opening =>
      obtain rfl := Except.ok.inj hpush
      exact ⟨List.forall_mem_cons.2 ⟨⟨hedge, hhead⟩, h.opened⟩, h.built, h.licences⟩
  | closing =>
      obtain ⟨rule, outer, hopened, rfl⟩ := push_closing_iff.1 hpush
      have hclosed : r.closed rule = r.finishText.closed rule := by
        simp [closed, span]
      rw [hclosed]
      exact ((h.finishText hhead hedge).close hopened).advance 1
  | plain c =>
      obtain rfl := Except.ok.inj hpush
      rw [pushPlain]
      split_ifs
      · exact h.advance _
      · exact h.quiet rfl rfl h.licences

end Begun

/-- The run: both invariants are kept to the end. -/
theorem Begun.run (hsize : Text.byteLength text < Span.offsetBound) {cs : List Char}
    (h : r.Begun text) (hcollects : r.Gathering front cs) (htext : front ++ cs = text)
    (hpos : r.pos = Text.byteLength front) (hrun : r.run cs = .ok r') : r'.Begun text := by
  fun_induction Reading.run r cs generalizing front with
  | case1 r =>
      obtain rfl := Except.ok.inj hrun
      exact h
  | case2 r c rest step e => cases hrun
  | case3 r c rest step next =>
      rename_i hok ih
      have htaken : Taken r step.1 (c :: rest) step.2 := taken_of_push rfl hok
      have hhead := hcollects.headAt htext
      have hedge : r.edge < Span.offsetBound := by
        obtain ⟨before, written, after, owed, current, hparts, hbefore, -⟩ := hhead
        rw [← hparts, byteLength_append, hbefore] at hsize
        omega
      have hnext : next.Gathering (front ++ step.1.source) step.2 := hcollects.push hpos rfl hok
      rw [← htaken.source, ← List.append_assoc] at htext
      refine ih (h.push hhead hedge hok) hnext htext ?_ hrun
      rw [(push_movesPast hok).pos, hpos, byteLength_append, Piece.width]

end Reading

/-- **Heads of a source.**  Every rule, at any depth, has a span that begins where its selector was
written. -/
theorem headAt_of_visit {file : Nat} {text : String} (hsize : text.utf8ByteSize < Span.offsetBound)
    {nodes : List Node} (hread : readStylesheet file text = .ok nodes) {depth : Nat}
    {selector : String} {children : List Node} {hasBlock : Bool} {span : Option Span}
    (hvisit : (depth, .rule selector children hasBlock span) ∈ Node.visitsAll 0 nodes) :
    ∃ s, span = some s ∧ Text.HeadAt text.toList s.start selector := by
  rw [← byteLength_toList] at hsize
  obtain ⟨r, hrun, -, rfl⟩ := exists_run_of_readStylesheet hread
  have hbegun := (Reading.Begun.fresh file text.toList).run hsize
    (Reading.Gathering.fresh rfl rfl text.toList) (List.nil_append _) rfl hrun
  obtain ⟨node, hnode, hvisit⟩ := Node.mem_visitsAll.1 hvisit
  rw [List.mem_append, List.mem_reverse, List.mem_reverse] at hnode
  rcases hnode with hnode | hnode
  · exact hbegun.licences node hnode 0 _ hvisit
  · exact hbegun.built node (List.mem_append_left _ hnode) 0 _ hvisit

end UtilityCss
