import UtilityCss.Proofs.Texts

/-!
# Reading up to positions

What the reader does next depends on the text it holds and on the rules that are open, never on
where in the source it stands.  The `Outline` of a reading forgets positions and spans, and
`Leads o cs o' rest` says that from any reading with outline `o`, reading `cs` comes down to
reading `rest` from one with outline `o'`.  Since the claim is about *every* reading with the
outline, such facts compose: `Leads.trans`.

The rest of the module is one fact for each kind of piece: what it leads to.  `Spells` names what a
semicolon and a closing brace have in common, namely the node they make of the text in front of
them.
-/

namespace UtilityCss

lemma Node.clearSpansAll_eq_map (nodes : List Node) :
    Node.clearSpansAll nodes = nodes.map Node.clearSpans := by
  induction nodes with
  | nil => rfl
  | cons node nodes ih => rw [Node.clearSpansAll, ih, List.map_cons]

/-- A reading without positions and spans. -/
structure Outline where
  finished : List Node
  licences : List Node
  opened : List (String × List Node)
  current : List Char

def OpenRule.outline (rule : OpenRule) : String × List Node :=
  (rule.selector, rule.nodes.map Node.clearSpans)

def Reading.outline (r : Reading) : Outline where
  finished := r.finished.map Node.clearSpans
  licences := r.licences.map Node.clearSpans
  opened := r.opened.map OpenRule.outline
  current := r.current

namespace Outline

/-- Adds a node to the innermost open rule, or to the top level. -/
def attach (o : Outline) (node : Node) : Outline :=
  match o.opened with
  | [] => { o with finished := node :: o.finished }
  | (selector, nodes) :: outer => { o with opened := (selector, node :: nodes) :: outer }

/-- Nodes attached one after the other. -/
def attachAll (o : Outline) (nodes : List Node) : Outline :=
  nodes.foldl attach o

/-- Adds text to the node being read. -/
def typed (o : Outline) (text : List Char) : Outline :=
  { o with current := text.reverse ++ o.current }

/-- Opens the block of a rule. -/
def enter (o : Outline) (selector : String) : Outline :=
  { o with opened := (selector, []) :: o.opened }

/-- Closes the innermost open block. -/
def leave (o : Outline) : Outline :=
  match o.opened with
  | [] => o
  | (selector, nodes) :: outer =>
    { o with opened := outer }.attach (.rule selector nodes.reverse true none)

@[simp]
lemma attach_current (o : Outline) (node : Node) : (o.attach node).current = o.current := by
  unfold attach; split <;> rfl

@[simp]
lemma attach_licences (o : Outline) (node : Node) : (o.attach node).licences = o.licences := by
  unfold attach; split <;> rfl

/-- Attaching a node closes no rule. -/
lemma attach_opened_ne_nil {o : Outline} (h : o.opened ≠ []) (node : Node) :
    (o.attach node).opened ≠ [] := by
  unfold attach; split <;> simp_all

@[simp]
lemma attachAll_nil (o : Outline) : o.attachAll [] = o := rfl

@[simp]
lemma attachAll_cons (o : Outline) (node : Node) (nodes : List Node) :
    o.attachAll (node :: nodes) = (o.attach node).attachAll nodes := rfl

@[simp]
lemma enter_current (o : Outline) (selector : String) : (o.enter selector).current = o.current :=
  rfl

@[simp]
lemma typed_typed (o : Outline) (a b : List Char) : (o.typed a).typed b = o.typed (a ++ b) := by
  simp [typed]

lemma attachAll_current (o : Outline) (nodes : List Node) :
    (o.attachAll nodes).current = o.current := by
  induction nodes generalizing o with
  | nil => rfl
  | cons node nodes ih => simp [ih]

/-- In an open block, nodes become its children. -/
lemma attachAll_of_opened {o : Outline} {selector : String} {inner : List Node}
    {outer : List (String × List Node)} (h : o.opened = (selector, inner) :: outer)
    (nodes : List Node) :
    o.attachAll nodes = { o with opened := (selector, nodes.reverse ++ inner) :: outer } := by
  induction nodes generalizing o inner with
  | nil => cases o; simp_all
  | cons node nodes ih =>
      have hattach : o.attach node = { o with opened := (selector, node :: inner) :: outer } := by
        simp [attach, h]
      rw [attachAll_cons, hattach, ih rfl]
      simp

/-- Outside all blocks, they are finished. -/
lemma attachAll_of_not_opened {o : Outline} (h : o.opened = []) (nodes : List Node) :
    o.attachAll nodes = { o with finished := nodes.reverse ++ o.finished } := by
  induction nodes generalizing o with
  | nil => rfl
  | cons node nodes ih =>
      have hattach : o.attach node = { o with finished := node :: o.finished } := by
        simp [attach, h]
      rw [attachAll_cons, hattach, ih (o := { o with finished := node :: o.finished }) h]
      simp

/-- A block that is opened, filled and closed is one rule more. -/
lemma leave_attachAll_enter (o : Outline) (selector : String) (nodes : List Node) :
    ((o.enter selector).attachAll nodes).leave = o.attach (.rule selector nodes true none) := by
  rw [attachAll_of_opened (o := o.enter selector) rfl]
  simp [leave, enter]

end Outline

/-! ## Outlines of the reader's operations -/

namespace Reading

@[simp]
lemma outline_current (r : Reading) : r.outline.current = r.current := rfl

@[simp]
lemma outline_advance (r : Reading) (n : Nat) : (r.advance n).outline = r.outline := rfl

@[simp]
lemma outline_append (r : Reading) (text : List Char) :
    (r.append text).outline = r.outline.typed text := rfl

@[simp]
lemma outline_clear (r : Reading) : r.clear.outline = { r.outline with current := [] } := rfl

/-- The outline keeps nodes without their spans. -/
@[simp]
lemma outline_attach (r : Reading) (node : Node) :
    (r.attach node).outline = r.outline.attach node.clearSpans := by
  unfold attach Outline.attach
  cases h : r.opened <;> simp [outline, OpenRule.outline, h]

end Reading

/-- From every reading with outline `o`, reading `cs` comes down to reading `rest` from a reading
with outline `o'`. -/
def Leads (o : Outline) (cs : List Char) (o' : Outline) (rest : List Char) : Prop :=
  ∀ r : Reading, r.outline = o → ∃ r' : Reading, r'.outline = o' ∧ r.run cs = r'.run rest

lemma Leads.refl (o : Outline) (cs : List Char) : Leads o cs o cs :=
  fun r hr => ⟨r, hr, rfl⟩

/-- A text can be read a part at a time. -/
lemma Leads.trans {o₁ o₂ o₃ : Outline} {cs₁ cs₂ cs₃ : List Char} (h₁ : Leads o₁ cs₁ o₂ cs₂)
    (h₂ : Leads o₂ cs₂ o₃ cs₃) : Leads o₁ cs₁ o₃ cs₃ := by
  intro r hr
  obtain ⟨r₂, hr₂, hrun₂⟩ := h₁ r hr
  obtain ⟨r₃, hr₃, hrun₃⟩ := h₂ r₂ hr₂
  exact ⟨r₃, hr₃, hrun₂.trans hrun₃⟩

/-- One piece: what it leads to is what pushing it does. -/
lemma Leads.of_push {o o' : Outline} {c : Char} {cs rest : List Char} {p : Piece}
    (hnext : Piece.next o.current.isEmpty c cs = (p, rest))
    (hpush : ∀ r : Reading, r.outline = o → ∃ r', r.push p = .ok r' ∧ r'.outline = o') :
    Leads o (c :: cs) o' rest := by
  intro r hr
  obtain ⟨r', hok, ho⟩ := hpush r hr
  refine ⟨r', ho, ?_⟩
  have hcurrent : r.current = o.current := by rw [← hr, Reading.outline_current]
  rw [Reading.run, hcurrent, hnext]
  simp only [hok]

/-! ## Text that is kept -/

namespace Piece

/-- Where a plain character is read as itself: it begins no comment, no run of blanks and no custom
property. -/
structure Calm (fresh : Bool) (c : Char) (rest : List Char) : Prop where
  comment : c = '/' → rest.head? ≠ some '*'
  gap : isGap c = true → rest.head?.any isGap = false
  custom : c = '-' → fresh = true → rest.head? ≠ some '-'

/-- The characters that are never read as themselves. -/
def special : List Char := ['\\', '"', '\'', '{', '}', ';', '\n', '\t']

/-- A calm character that is no mark is read as it is. -/
lemma next_plain {fresh : Bool} {c : Char} {rest : List Char} (hc : c ∉ special)
    (h : Calm fresh c rest) : next fresh c rest = (.plain c, rest) := by
  simp only [special, List.mem_cons, List.not_mem_nil, or_false, not_or] at hc
  obtain ⟨h₁, h₂, h₃, h₄, h₅, h₆, h₇, -⟩ := hc
  have hcomment : ¬ (c = '/' && rest.head? == some '*') = true := by
    simpa using h.comment
  have hgap : ¬ (isGap c && rest.head?.any isGap) = true := by
    intro hboth
    rw [Bool.and_eq_true] at hboth
    simp [h.gap hboth.1] at hboth
  have hcustom : ¬ (c = '-' && rest.head? == some '-' && fresh) = true := by
    intro hall
    simp only [Bool.and_eq_true, decide_eq_true_eq, beq_iff_eq] at hall
    exact h.custom hall.1.1 hall.2 hall.1.2
  have hquote : ¬ (c = '"' || c = '\'') = true := by simp [h₂, h₃]
  rw [next, if_neg h₁, if_neg hcomment, if_neg hquote, if_neg hgap, if_neg h₇, if_neg hcustom,
    if_neg h₆, if_neg h₄, if_neg h₅]

/-- A literal without backslashes and newlines ends at its next quote. -/
lemma stringBody_closed {quote : Char} (hq : quote = '"' ∨ quote = '\'') {text : List Char}
    (hslash : '\\' ∉ text) (hline : '\n' ∉ text) (hquote : quote ∉ text) (rest : List Char) :
    stringBody quote (text ++ quote :: rest) = .closed text rest := by
  induction text with
  | nil =>
      rw [List.nil_append, stringBody, if_pos rfl]
      rintro c rest' rfl
      simp at hq
  | cons c text ih =>
      simp only [List.mem_cons, not_or] at hslash hline hquote
      have hcut : ¬ (c = ';' && (text ++ quote :: rest).head? == some '\n') = true := by
        rw [Bool.and_eq_true, beq_iff_eq]
        rintro ⟨-, hhead⟩
        cases text with
        | nil => rcases hq with rfl | rfl <;> simp at hhead
        | cons d text => simp_all
      rw [List.cons_append, stringBody, if_neg (Ne.symm hquote.1), if_neg hcut,
        if_neg (Ne.symm hline.1), ih hslash.2 hline.2 hquote.2]
      · rfl
      · rintro c rest' rfl
        exact absurd rfl hslash.1

/-- A comment without backslashes ends where it is first closed. -/
lemma commentBody_closed {text : List Char} (hslash : '\\' ∉ text)
    (hend : ¬ ['*', '/'] <:+: text) (rest : List Char) :
    commentBody (text ++ '*' :: '/' :: rest) = (text, true, rest) := by
  induction text with
  | nil => rw [List.nil_append, commentBody]
  | cons c text ih =>
      simp only [List.mem_cons, not_or] at hslash
      rw [List.infix_cons_iff, not_or] at hend
      rw [List.cons_append, commentBody, ih hslash.2 hend.2]
      · rintro rest' rfl htext
        cases text with
        | nil => simp at htext
        | cons d text =>
            obtain ⟨rfl, -⟩ := List.cons.inj htext
            exact hend.1 (by simp)
      · rintro c rest' rfl
        exact absurd rfl hslash.1

end Piece

/-- A plain character joins the text, unless it is a blank in front of a node. -/
lemma leads_plain {o : Outline} {c : Char} {rest : List Char} (hc : c ∉ Piece.special)
    (hcalm : Piece.Calm o.current.isEmpty c rest) (hgap : o.current = [] → isGap c = false) :
    Leads o (c :: rest) (o.typed [c]) rest := by
  refine Leads.of_push (Piece.next_plain hc hcalm) fun r hr => ?_
  have hkeep : ¬ (r.current.isEmpty && isGap c) = true := by
    rw [Bool.and_eq_true, List.isEmpty_iff]
    rintro ⟨hempty, hisGap⟩
    rw [hgap (by rw [← hr, Reading.outline_current, hempty])] at hisGap
    exact Bool.false_ne_true hisGap
  refine ⟨_, rfl, ?_⟩
  rw [Reading.outline_advance, Reading.pushPlain, if_neg hkeep, Reading.outline_append, hr]

/-- An escaped character joins with its backslash. -/
lemma leads_escaped (o : Outline) (c : Char) (rest : List Char) :
    Leads o ('\\' :: c :: rest) (o.typed ['\\', c]) rest :=
  Leads.of_push rfl fun r hr => ⟨_, rfl, by simp [hr]⟩

/-- A literal joins as a whole. -/
lemma leads_literal (o : Outline) {quote : Char} (hq : quote = '"' ∨ quote = '\'')
    {text : List Char} (hslash : '\\' ∉ text) (hline : '\n' ∉ text) (hquote : quote ∉ text)
    (rest : List Char) :
    Leads o (quote :: (text ++ quote :: rest)) (o.typed (quote :: (text ++ [quote]))) rest := by
  refine Leads.of_push (p := .verbatim (quote :: (text ++ [quote]))) ?_
    fun r hr => ⟨_, rfl, by simp [hr]⟩
  have hbody := Piece.stringBody_closed hq hslash hline hquote rest
  rcases hq with rfl | rfl <;> simp [Piece.next, hbody, Piece.quoted]

/-! ## Blanks and comments -/

/-- In front of a node every blank is dropped. -/
lemma leads_blank {o : Outline} (ho : o.current = []) {c : Char} (hc : isGap c = true)
    (rest : List Char) : Leads o (c :: rest) o rest := by
  have hcurrent : ∀ r : Reading, r.outline = o → r.current = [] := by
    rintro r rfl
    exact ho
  obtain ⟨p, hnext, hp⟩ := Piece.next_blank hc o.current.isEmpty rest
  exact Leads.of_push hnext fun r hr => ⟨_, Reading.push_blank (hcurrent r hr) hc hp, by simp [hr]⟩

/-- Blanks in front of a node are dropped. -/
lemma leads_blanks {o : Outline} (ho : o.current = []) {cs : List Char}
    (hcs : ∀ c ∈ cs, isGap c = true) (rest : List Char) : Leads o (cs ++ rest) o rest := by
  induction cs with
  | nil => exact Leads.refl o rest
  | cons c cs ih =>
      rw [List.forall_mem_cons] at hcs
      exact (leads_blank ho hcs.1 (cs ++ rest)).trans (ih hcs.2)

/-- A space in front of another is dropped wherever it stands. -/
lemma leads_double_space (o : Outline) (rest : List Char) :
    Leads o (' ' :: ' ' :: rest) o (' ' :: rest) :=
  Leads.of_push rfl fun r hr => ⟨_, rfl, by simp [hr]⟩

/-- A licence comment goes to the front, wherever it stands. -/
lemma leads_notice (o : Outline) {text cs rest : List Char} (hhead : text.head? = some '!')
    (hbody : commentBody cs = (text, true, rest)) :
    Leads o ('/' :: '*' :: cs)
      { o with licences := .comment (String.ofList text) none :: o.licences } rest := by
  refine Leads.of_push (p := .comment text true) (by simp [Piece.next, hbody]) fun r hr => ?_
  refine ⟨_, rfl, ?_⟩
  rw [Reading.outline_advance, Reading.pushComment, if_pos (by simp [hhead]), ← hr]
  rfl

/-- A licence comment may hold anything but its end and a backslash. -/
lemma leads_licence (o : Outline) {text : List Char} (hhead : text.head? = some '!')
    (hslash : '\\' ∉ text) (hend : ¬ ['*', '/'] <:+: text) (rest : List Char) :
    Leads o ('/' :: '*' :: (text ++ '*' :: '/' :: rest))
      { o with licences := .comment (String.ofList text) none :: o.licences } rest :=
  leads_notice o hhead (Piece.commentBody_closed hslash hend rest)

/-! ## The ends of nodes -/

/-- The text in front of a semicolon or a closing brace that makes a node, up to its span. -/
inductive Spells : List Char → Node → Prop
  | statement {text : List Char} (hat : text.head? = some '@') (htrim : Text.trim text = text) :
      Spells text (.rule (String.ofList text) [] false none)
  | declaration {text : List Char} {node : Node} (hat : text.head? ≠ some '@')
      (hblank : Text.trim text ≠ [])
      (hnode : ∀ span, (plainDeclaration text span).clearSpans = node) : Spells text node

/-- A node is spelled by something. -/
lemma Spells.ne_nil {text : List Char} {node : Node} (h : Spells text node) : text ≠ [] := by
  rintro rfl
  cases h with
  | statement hat htrim => simp at hat
  | declaration hat hblank hnode => exact hblank rfl

section ends
variable {o : Outline} (ho : o.current = [])
include ho

lemma text_of_outline_typed {text : List Char} {r : Reading} (hr : r.outline = o.typed text) :
    r.text = text := by
  rw [Reading.text, ← Reading.outline_current, hr]
  simp [Outline.typed, ho]

lemma outline_clear_of_typed {text : List Char} {r : Reading} (hr : r.outline = o.typed text) :
    r.clear.outline = o := by
  rw [Reading.outline_clear, hr]
  cases o; simp_all [Outline.typed]

/-- A text that spells a node becomes that node at a semicolon. -/
lemma leads_semicolon {text : List Char} {node : Node} (h : Spells text node)
    (rest : List Char) : Leads (o.typed text) (';' :: rest) (o.attach node) rest := by
  refine Leads.of_push (p := .semicolon) (by simp [Piece.next, isGap]) fun r hr => ?_
  refine ⟨_, rfl, ?_⟩
  rw [Reading.outline_advance, Reading.pushSemicolon, Reading.readsAtRule,
    text_of_outline_typed ho hr]
  cases h with
  | statement hat htrim =>
      rw [if_pos (by simp [hat]), (Text.trim_eq_self_iff.1 htrim).2, Reading.outline_attach,
        outline_clear_of_typed ho hr]
      rfl
  | declaration hat hblank hnode =>
      rw [if_neg (by simpa using hat), if_neg (by simpa using hblank), Reading.outline_attach,
        outline_clear_of_typed ho hr, hnode]

/-- At an opening brace it becomes a selector, trimmed. -/
lemma leads_opening (text rest : List Char) :
    Leads (o.typed text) ('{' :: rest) (o.enter (String.ofList (Text.trim text))) rest := by
  refine Leads.of_push (p := .opening) (by simp [Piece.next, isGap]) fun r hr => ?_
  refine ⟨_, rfl, ?_⟩
  rw [Reading.outline_advance, Reading.pushOpening, text_of_outline_typed ho hr]
  have hclear := outline_clear_of_typed ho hr
  simp only [Reading.outline, Reading.clear] at hclear
  simp [Reading.outline, Reading.clear, OpenRule.outline, Outline.enter, ← hclear]

/-- What stands in front of a closing brace is finished as by a semicolon. -/
lemma outline_finishText {text : List Char} {node : Node} (h : Spells text node) {r : Reading}
    (hr : r.outline = o.typed text) : r.finishText.outline = o.attach node := by
  have htext := text_of_outline_typed ho hr
  have hne : r.current ≠ [] := by
    intro hnil
    rw [Reading.text, hnil] at htext
    exact h.ne_nil htext.symm
  rw [Reading.finishText, if_neg (by simpa using hne), Reading.readsAtRule, htext]
  cases h with
  | statement hat htrim =>
      rw [if_pos (by simp [hat]), htrim, Reading.outline_attach, outline_clear_of_typed ho hr]
      rfl
  | declaration hat hblank hnode =>
      rw [if_neg (by simpa using hat), Reading.outline_attach, outline_clear_of_typed ho hr, hnode]

end ends

/-- A closing brace closes what is open once the text in front of it is finished. -/
lemma leads_of_finishText {o o' : Outline} (hopen : o'.opened ≠ [])
    (hfinish : ∀ r : Reading, r.outline = o → r.finishText.outline = o') (rest : List Char) :
    Leads o ('}' :: rest) o'.leave rest := by
  refine Leads.of_push (p := .closing) (by simp [Piece.next, isGap]) fun r hr => ?_
  have hr' := hfinish r hr
  cases hop : r.finishText.opened with
  | nil =>
      rw [← hr'] at hopen
      simp [Reading.outline, hop] at hopen
  | cons rule outer =>
      have hpush : r.push .closing = .ok (({ r.finishText with opened := outer }.attach
          (.rule rule.selector rule.nodes.reverse true
            (some (r.span rule.start (r.pos + 1))))).advance (Piece.width .closing)) := by
        simp only [Reading.push, Reading.pushClosing, hop]
        rfl
      refine ⟨_, hpush, ?_⟩
      rw [Reading.outline_advance, Reading.outline_attach, ← hr', Outline.leave]
      simp [Reading.outline, hop, OpenRule.outline, Node.clearSpans, Node.clearSpansAll_eq_map]

/-- A closing brace behind nothing closes the innermost rule. -/
lemma leads_closing {o : Outline} (ho : o.current = []) (hopen : o.opened ≠ [])
    (rest : List Char) : Leads o ('}' :: rest) o.leave rest := by
  refine leads_of_finishText hopen (fun r hr => ?_) rest
  have hcurrent : r.current = [] := by rw [← Reading.outline_current, hr, ho]
  rw [Reading.finishText, if_pos (by simp [hcurrent]), hr]

/-- A closing brace behind a text finishes that first. -/
lemma leads_closing_text {o : Outline} (ho : o.current = []) (hopen : o.opened ≠ [])
    {text : List Char} {node : Node} (h : Spells text node) (rest : List Char) :
    Leads (o.typed text) ('}' :: rest) (o.attach node).leave rest :=
  leads_of_finishText (Outline.attach_opened_ne_nil hopen node)
    (fun _ hr => outline_finishText ho h hr) rest

end UtilityCss
