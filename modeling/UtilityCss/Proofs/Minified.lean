import UtilityCss.Proofs.CustomTexts
import UtilityCss.Proofs.Slices

/-!
# Minified stylesheets are read back where pretty ones are

If the pretty text of a forest is read back as the forest, then it told as much as it weighs, and every
line of it ended where it was printed to end.  Then nothing depends on the optional blanks, and the
minified text is read back as well: `readStylesheet_minified_of_pretty`.  The exception are selectors in
front of a brace that end in a backslash: there the blank is all that keeps the brace from being hidden.

* **Nodes** — `Made`: what a reader makes, and `readOn_of_made`: each such node is read back without
  optional blanks, or is the last of everything.
* **Licences** — `exists_run_behind_notices`: licences end at their marks, since they were told one by
  one.
* **Spans** — printing does not look at them: `printStylesheet_clearSpansAll`.
-/

namespace UtilityCss

/-! ## What a reader makes -/

/-- A node that a reader makes: a block, a statement without children, or a declaration.  Comments are
kept apart. -/
inductive Made : Node → Prop
  | block {selector : String} {nodes : List Node} {span : Option Span}
      (hnodes : ∀ node ∈ nodes, Made node) : Made (.rule selector nodes true span)
  | statement {selector : String} {span : Option Span} : Made (.rule selector [] false span)
  | declaration {property value : String} {important : Bool} {span : Option Span} :
      Made (.declaration property value important span)

/-- A comment that a reader keeps. -/
def Noticed (node : Node) : Prop :=
  ∃ text, node = .comment text none ∧ text.toList.head? = some '!'

/-- All nodes so far were made by a reader. -/
structure Outline.Made (o : Outline) : Prop where
  finished : ∀ node ∈ o.finished, UtilityCss.Made node
  opened : ∀ rule ∈ o.opened, ∀ node ∈ rule.2, UtilityCss.Made node

namespace Outline.Made
variable {o : Outline}

/-- A made node joins made nodes. -/
lemma attach (h : o.Made) {node : Node} (hnode : UtilityCss.Made node) : (o.attach node).Made := by
  unfold Outline.attach
  cases hopened : o.opened with
  | nil => exact ⟨List.forall_mem_cons.2 ⟨hnode, h.finished⟩, nofun⟩
  | cons rule outer =>
      have hrules := h.opened
      rw [hopened, List.forall_mem_cons] at hrules
      refine ⟨h.finished, ?_⟩
      rw [List.forall_mem_cons, List.forall_mem_cons]
      exact ⟨⟨hnode, hrules.1⟩, hrules.2⟩

/-- The rule that is closed is made if its children are. -/
lemma leave (h : o.Made) : o.leave.Made := by
  unfold Outline.leave
  cases hopened : o.opened with
  | nil => exact h
  | cons rule outer =>
      have hrules := h.opened
      rw [hopened, List.forall_mem_cons] at hrules
      have houter : ({ o with opened := outer } : Outline).Made := ⟨h.finished, hrules.2⟩
      exact houter.attach (.block fun node hnode => hrules.1 node (List.mem_reverse.1 hnode))

end Outline.Made

/-- Whatever the reader takes for a declaration is made. -/
lemma made_declarationOf (text : List Char) (parts : Option (List Char × List Char)) (span : Span) :
    Made (declarationOf text parts span).clearSpans := by
  obtain ⟨property, value, important, h⟩ := Token.exists_ofParts text parts
  rw [clearSpans_declarationOf h]
  exact .declaration

/-- The text in front of a closing brace is made into a node. -/
lemma made_finishText {r : Reading} (h : r.outline.Made) : r.finishText.outline.Made := by
  have hclear : r.clear.outline.Made := ⟨h.finished, h.opened⟩
  rw [Reading.finishText]
  split_ifs
  · exact h
  · rw [Reading.outline_attach]
    exact hclear.attach .statement
  · rw [Reading.outline_attach]
    exact hclear.attach (made_declarationOf _ _ _)

/-- The step: what a piece finishes was made by a reader. -/
lemma Reading.push_made {r r' : Reading} {p : Piece} (h : r.outline.Made)
    (hpush : r.push p = .ok r') : r'.outline.Made := by
  have hclear : r.clear.outline.Made := ⟨h.finished, h.opened⟩
  cases p with
  | brokenString text => cases hpush
  | comment text closed =>
      obtain rfl := Except.ok.inj hpush
      rw [outline_advance, pushComment]
      split_ifs
      · exact ⟨h.finished, h.opened⟩
      · exact h
  | newline =>
      obtain rfl := Except.ok.inj hpush
      rw [outline_advance, pushNewline]
      split
      · exact h
      · split_ifs
        · exact h
        · exact ⟨h.finished, h.opened⟩
  | custom text ended =>
      obtain rfl := Except.ok.inj hpush
      rw [outline_advance, outline_attach]
      exact h.attach (made_declarationOf _ _ _)
  | semicolon =>
      obtain rfl := Except.ok.inj hpush
      rw [outline_advance, pushSemicolon]
      split_ifs
      · rw [outline_attach]
        exact hclear.attach .statement
      · exact hclear
      · rw [outline_attach]
        exact hclear.attach (made_declarationOf _ _ _)
  | opening =>
      obtain rfl := Except.ok.inj hpush
      exact ⟨h.finished, List.forall_mem_cons.2 ⟨List.forall_mem_nil _, h.opened⟩⟩
  | closing =>
      obtain ⟨rule, outer, hopened, rfl⟩ := push_closing_iff.1 hpush
      rw [outline_advance, outline_close hopened]
      exact (made_finishText h).leave
  | plain c =>
      obtain rfl := Except.ok.inj hpush
      rw [outline_advance, pushPlain]
      split_ifs
      · exact h
      · exact ⟨h.finished, h.opened⟩
  | _ =>
      obtain rfl := Except.ok.inj hpush
      exact ⟨h.finished, h.opened⟩

/-- The run. -/
lemma made_of_run {r r' : Reading} {cs : List Char} (h : r.outline.Made) (hrun : r.run cs = .ok r') :
    r'.outline.Made := by
  fun_induction Reading.run r cs with
  | case1 r =>
      obtain rfl := Except.ok.inj hrun
      exact h
  | case2 r c rest step e herror => cases hrun
  | case3 r c rest step next hok ih => exact ih (Reading.push_made h hok) hrun

/-- The run: licences are only added. -/
lemma licences_of_run {r r' : Reading} {cs : List Char} (hrun : r.run cs = .ok r') :
    ∃ newer, r'.outline.licences = newer ++ r.outline.licences ∧ ∀ node ∈ newer, Noticed node := by
  fun_induction Reading.run r cs with
  | case1 r =>
      obtain rfl := Except.ok.inj hrun
      exact ⟨[], rfl, List.forall_mem_nil _⟩
  | case2 r c rest step e herror => cases hrun
  | case3 r c rest step next hok ih =>
      obtain ⟨newer, hnewer, hnoticed⟩ := ih hrun
      rcases Reading.licences_of_push hok with hsame | ⟨text, hhead, hmore⟩
      · refine ⟨newer, ?_, hnoticed⟩
        rw [hnewer, Reading.outline, hsame]
        rfl
      · refine ⟨newer ++ [.comment text none], ?_, ?_⟩
        · rw [hnewer, Reading.outline, hmore, List.append_assoc]
          rfl
        · rw [List.forall_mem_append, List.forall_mem_singleton]
          exact ⟨hnoticed, text, rfl, hhead⟩

/-! ## The weight of printed text -/

namespace Node

lemma weight_indentation (depth : Nat) : Text.weight (indentation depth) = 0 := by
  rw [Text.weight, List.countP_eq_zero]
  intro c hc
  rw [List.eq_of_mem_replicate hc]
  decide

/-- The text of a declaration on a line of its own. -/
lemma pretty_declaration (property value : String) (important : Bool) (span : Option Span)
    (depth : Nat) (rest : List Char) :
    (Node.declaration property value important span).pretty depth rest = indentation depth ++
      (property.toList ++ ':' :: ' ' :: (value.toList ++ markText important [' '])
        ++ ';' :: '\n' :: rest) := by
  rw [List.append_assoc, List.cons_append, List.cons_append, List.append_assoc]
  rfl

lemma pretty_statement (selector : String) (nodes : List Node) (span : Option Span) (depth : Nat)
    (rest : List Char) : (Node.rule selector nodes false span).pretty depth rest =
      indentation depth ++ (selector.toList ++ ';' :: '\n' :: rest) :=
  rfl

/-- A rule with a block, with its braces. -/
lemma pretty_block (selector : String) (nodes : List Node) (span : Option Span) (depth : Nat)
    (rest : List Char) : (Node.rule selector nodes true span).pretty depth rest =
      indentation depth ++ (selector.toList ++ ' ' :: '{' :: '\n' ::
        prettyAll (depth + 1) nodes (indentation depth ++ '}' :: '\n' :: rest)) :=
  rfl

mutual

/-- Printed text weighs as much as what it is to tell. -/
lemma weight_pretty {node : Node} (h : Made node) (depth : Nat) (rest : List Char) :
    Text.weight (node.pretty depth rest) = Token.weightAll node.tokens + Text.weight rest := by
  cases h with
  | declaration =>
      rename_i property value important span
      have hmark : Text.weight (markText important [' ']) = if important then 10 else 0 := by
        cases important <;> rfl
      rw [pretty_declaration]
      simp only [Text.weight_append, Text.weight_cons, weight_indentation, hmark, tokens,
        Token.weightAll_cons, Token.weightAll_nil, Token.weight]
      have hcolon : Text.weighs ':' = false := by decide
      have hspace : Text.weighs ' ' = false := by decide
      have hsemi : Text.weighs ';' = false := by decide
      have hline : Text.weighs '\n' = false := by decide
      simp only [hcolon, hspace, hsemi, hline, Bool.false_eq_true, if_false]
      omega
  | statement => 
      rename_i selector span
      have hsemi : Text.weighs ';' = false := by decide
      have hline : Text.weighs '\n' = false := by decide
      rw [pretty_statement]
      simp only [Text.weight_append, Text.weight_cons, weight_indentation, tokens, hsemi, hline,
        Token.weightAll_cons, Token.weightAll_nil, Token.weight, Bool.false_eq_true, if_false]
      omega
  | block hnodes =>
      rename_i selector nodes span
      have hspace : Text.weighs ' ' = false := by decide
      have hline : Text.weighs '\n' = false := by decide
      have hopen : Text.weighs '{' = true := by decide
      have hclose : Text.weighs '}' = true := by decide
      rw [pretty_block]
      simp only [Text.weight_append, Text.weight_cons, weight_indentation, weight_prettyAll hnodes,
        tokens, hspace, hline, hopen, hclose, Token.weightAll_cons, Token.weightAll_append,
        Token.weightAll_nil, Token.weight, Bool.false_eq_true, if_false, if_true]
      omega

/-- Printing adds blanks only, which weigh nothing. -/
lemma weight_prettyAll {nodes : List Node} (h : ∀ node ∈ nodes, Made node) (depth : Nat)
    (rest : List Char) : Text.weight (prettyAll depth nodes rest)
      = Token.weightAll (tokensAll nodes) + Text.weight rest := by
  cases nodes with
  | nil => simp [prettyAll, tokensAll]
  | cons node nodes =>
      rw [List.forall_mem_cons] at h
      rw [prettyAll, weight_pretty h.1, weight_prettyAll h.2, tokensAll, Token.weightAll_append]
      omega

end

end Node

/-! ## Nodes on lines of their own -/

/-- A text that is walked through unchanged is typed. -/
lemma leads_of_walk {o : Outline} (ho : o.current = []) {text : List Char} (tail : List Char)
    (h : walk .text [] text tail.head? = some (.text, text.reverse)) :
    Leads o (text ++ tail) (o.typed text) tail := by
  have hleads := (collects_of_walk text tail h).leads ho
  rwa [Outline.typed, ho, List.append_nil]

/-- A text that is walked over up to both ends of a node is read back. -/
lemma readBack_of_walk {node : Node} {text : List Char}
    (hwrite : ∀ closing rest, node.minified closing rest = text ++ Node.semicolonUnless closing rest)
    (hspells : Spells text node.clearSpans)
    (hwalk : ∀ stop, stop = ';' ∨ stop = '}' →
      walk .text [] text (some stop) = some (.text, text.reverse)) : ReadBack node :=
  readBack_of_spells (text ++ ·) hwrite fun _ stop _ ho hstop =>
    ⟨text, hspells, leads_of_walk ho _ (hwalk stop hstop)⟩

/-- What is known of printed nodes that a text was found to tell: they are read back without optional
blanks, and the text goes on behind them; or they are the last of everything, and read back there. -/
def ReadOn (nodes : List Node) (rest : List Char) (tokens : List Token) : Prop :=
  (∀ node ∈ nodes, ReadBack node) ∧ Owes [] rest tokens ∨
    tokens = [] ∧ ∀ o : Outline, o.current = [] →
      Leads o (Node.minifiedAll false nodes []) (o.attachAll (Node.clearSpansAll nodes)) []

/-- Every node is read from something. -/
lemma tokens_ne_nil {node : Node} (h : Made node) : node.tokens ≠ [] := by
  cases h <;> exact List.cons_ne_nil _ _

/-- A forest goes on if each of its trees does. -/
lemma readOn_all {nodes : List Node} (hmade : ∀ node ∈ nodes, Made node) {depth : Nat}
    (h : ∀ node ∈ nodes, ∀ (rest : List Char) (tokens : List Token),
      Owes [] (node.pretty depth rest) (node.tokens ++ tokens) → ReadOn [node] rest tokens)
    {rest : List Char} {tokens : List Token}
    (howes : Owes [] (Node.prettyAll depth nodes rest) (Node.tokensAll nodes ++ tokens)) :
    ReadOn nodes rest tokens := by
  induction nodes with
  | nil => exact Or.inl ⟨nofun, howes⟩
  | cons node nodes ih =>
      rw [List.forall_mem_cons] at hmade h
      rw [Node.prettyAll, Node.tokensAll, List.append_assoc] at howes
      rcases h.1 _ _ howes with ⟨hnode, howes⟩ | ⟨hnone, hlast⟩
      · have hnode := hnode node List.mem_cons_self
        rcases ih hmade.2 h.2 howes with ⟨hnodes, howes⟩ | ⟨hnone, hlast⟩
        · exact Or.inl ⟨List.forall_mem_cons.2 ⟨hnode, hnodes⟩, howes⟩
        · refine Or.inr ⟨hnone, fun o ho => ?_⟩
          exact (hnode.between o _ ho).trans (hlast _ (by simpa using ho))
      · obtain ⟨hnodes, rfl⟩ := List.append_eq_nil_iff.1 hnone
        cases nodes with
        | nil => exact Or.inr ⟨rfl, hlast⟩
        | cons next nodes =>
            rw [Node.tokensAll, List.append_eq_nil_iff] at hnodes
            exact absurd hnodes.1 (tokens_ne_nil (hmade.2 next List.mem_cons_self))

/-- A node on lines of its own, by its kind. -/
lemma readOn_of_made {node : Node} (hmade : Made node)
    (hclosed : ∀ selector, Token.opens selector ∈ node.tokens →
      Text.endsHiding selector.toList = false) (depth : Nat) (rest : List Char)
    (tokens : List Token) (h : Owes [] (node.pretty depth rest) (node.tokens ++ tokens)) :
    ReadOn [node] rest tokens := by
  induction hmade generalizing depth rest tokens with
  | @declaration property value important span =>
      rw [Node.pretty_declaration] at h
      have hline := h.of_blanks (indentation_isGap depth)
      by_cases hcustom : ['-', '-'] <+: property.toList
      · rcases readBack_custom hcustom hline span with ⟨hnode, howes⟩ | ⟨hnone, hlast⟩
        · exact Or.inl ⟨by simpa using hnode, howes⟩
        · exact Or.inr ⟨hnone, hlast⟩
      · obtain ⟨hspells, hwalk, howes⟩ := walk_declaration hcustom hline
        refine Or.inl ⟨?_, howes⟩
        rw [List.forall_mem_singleton]
        exact readBack_of_walk (minified_declaration property value important span) hspells hwalk
  | @statement selector span =>
      rw [Node.pretty_statement] at h
      obtain ⟨hspells, hwalk, howes⟩ := walk_statement (h.of_blanks (indentation_isGap depth))
      refine Or.inl ⟨?_, howes⟩
      rw [List.forall_mem_singleton]
      exact readBack_of_walk (fun _ _ => rfl) hspells hwalk
  | @block selector nodes span hnodes ih =>
      rw [Node.pretty_block] at h
      obtain ⟨htrim, hwalk, hinner⟩ := walk_selector (hclosed selector List.mem_cons_self)
        (h.of_blanks (indentation_isGap depth))
      have hchild : ∀ node ∈ nodes, ∀ (rest : List Char) (tokens : List Token),
          Owes [] (node.pretty (depth + 1) rest) (node.tokens ++ tokens) →
            ReadOn [node] rest tokens := by
        intro node hnode
        refine ih node hnode (fun selector hmem => hclosed selector ?_) (depth + 1)
        exact List.mem_cons_of_mem _
          (List.mem_append_left _ (Node.mem_tokensAll.2 ⟨node, hnode, hmem⟩))
      have hinner' : Owes [] (Node.prettyAll (depth + 1) nodes
          (Node.indentation depth ++ '}' :: '\n' :: rest))
          (Node.tokensAll nodes ++ Token.closes :: tokens) := by
        simpa using hinner
      rcases readOn_all hnodes hchild hinner' with ⟨hnodes', howes⟩ | ⟨habsurd, -⟩
      · obtain ⟨-, -, -, -, later, htokens, hlater⟩ :=
          (howes.of_blanks (indentation_isGap depth)).inv (Piece.next_closing _ _)
        obtain ⟨-, rfl⟩ := List.cons.inj htokens
        refine Or.inl ⟨?_, hlater.of_newline⟩
        rw [List.forall_mem_singleton]
        refine readBack_block span (fun o rest ho => ?_) hnodes'
        have hopen := leads_opening ho selector.toList rest
        rw [htrim, String.ofList_toList] at hopen
        exact (leads_of_walk ho ('{' :: rest) hwalk).trans hopen
      · cases habsurd

/-! ## Licences in front -/

/-- A comment that is not closed goes on to the end. -/
lemma rest_of_commentBody {cs : List Char} (h : (commentBody cs).2.1 = false) :
    (commentBody cs).2.2 = [] := by
  fun_induction commentBody cs with
  | case1 => rfl
  | case2 rest => cases h
  | case3 c rest text closed rest' hbody ih =>
      rw [hbody] at ih
      exact ih h
  | case4 c rest hend hesc text closed rest' hbody ih =>
      rw [hbody] at ih
      exact ih h

/-- The text of a comment ends at the mark behind it, whatever follows. -/
def Encloses (text : List Char) : Prop :=
  ∀ rest, commentBody (text ++ '*' :: '/' :: rest) = (text, true, rest)

/-- If the text is read as the text of the comment, then it is in front of anything. -/
lemma encloses_of_commentBody {text more : List Char}
    (h : (commentBody (text ++ '*' :: '/' :: more)).1 = text) : Encloses text := by
  generalize hcs : text ++ '*' :: '/' :: more = cs at h
  fun_induction commentBody cs generalizing text with
  | case1 => simp at hcs
  | case2 cs =>
      subst h
      exact fun rest => rfl
  | case3 c cs part closed tail hbody ih =>
      obtain rfl : '\\' :: c :: part = text := h
      rw [hbody] at ih
      have hpart := ih (List.cons.inj (List.cons.inj hcs).2).2 rfl
      intro rest
      simp only [List.cons_append, commentBody, hpart rest]
  | case4 c cs hend hesc part closed tail hbody ih =>
      obtain rfl : c :: part = text := h
      rw [hbody] at ih
      have hcs' : part ++ '*' :: '/' :: more = cs := (List.cons.inj hcs).2
      have hpart := ih hcs' rfl
      intro rest
      have hhead : (part ++ '*' :: '/' :: rest).head? = cs.head? := by
        rw [← hcs']
        exact head?_append_congr part rfl
      rw [List.cons_append, commentBody.eq_4, hpart rest]
      · exact fun _ hc hrest => hend _ hc (eq_cons_of_head?_eq hhead hrest)
      · exact fun _ _ hc hrest => hesc _ _ hc (eq_cons_of_head?_eq hhead hrest)

/-- If the first licence that is noted is the one in front, then it ends at its mark. -/
lemma encloses_of_run {r r' : Reading} {text : String} {more : List Char} {newer : List Node}
    (hhead : text.toList.head? = some '!')
    (hrun : r.run ('/' :: '*' :: (text.toList ++ '*' :: '/' :: more)) = .ok r')
    (hlicences : r'.outline.licences = newer ++ .comment text none :: r.outline.licences) :
    Encloses text.toList := by
  let body := commentBody (text.toList ++ '*' :: '/' :: more)
  have hbang : body.1.head? = some '!' := by
    have hsame := head?_commentBody (text.toList ++ '*' :: '/' :: more)
    rw [List.head?_append, hhead] at hsame
    simpa using hsame
  have hnext : Piece.next r.current.isEmpty '/' ('*' :: (text.toList ++ '*' :: '/' :: more))
      = (.comment body.1 body.2.1, body.2.2) := by
    simp [Piece.next, body]
  rw [Reading.run, hnext] at hrun
  simp only [Reading.push, Except.map, Reading.pushComment, hbang, beq_self_eq_true, if_true]
    at hrun
  obtain ⟨newer', hnewer, -⟩ := licences_of_run hrun
  have hlist : newer' ++ .comment (String.ofList body.1) none :: r.outline.licences
      = newer ++ .comment text none :: r.outline.licences := hnewer.symm.trans hlicences
  obtain ⟨-, hfirst⟩ := List.append_inj' hlist rfl
  obtain ⟨htext, -⟩ := Node.comment.inj (List.cons.inj hfirst).1
  have hbody := congrArg String.toList htext
  rw [String.toList_ofList] at hbody
  exact encloses_of_commentBody hbody

/-- The licences in front of printed nodes are noted one by one, and reading goes on behind them. -/
lemma exists_run_behind_notices {notices : List Node} (hnoticed : ∀ node ∈ notices, Noticed node)
    (nodes : List Node) {r r' : Reading} (hcurrent : r.current = [])
    (hrun : r.run (Node.prettyAll 0 (notices ++ nodes) []) = .ok r')
    (hlicences : r'.outline.licences = notices.reverse ++ r.outline.licences) :
    (∀ text, .comment text none ∈ notices → Encloses text.toList) ∧
      ∃ r₁ : Reading, r₁.outline = { r.outline with licences := r'.outline.licences } ∧
        r₁.run (Node.prettyAll 0 nodes []) = .ok r' := by
  induction notices generalizing r with
  | nil =>
      refine ⟨nofun, r, ?_, hrun⟩
      rw [hlicences]
      rfl
  | cons notice notices ih =>
      rw [List.forall_mem_cons] at hnoticed
      obtain ⟨⟨text, rfl, hhead⟩, hnoticed⟩ := hnoticed
      rw [List.reverse_cons, List.append_assoc, List.singleton_append] at hlicences
      have hencloses := encloses_of_run hhead hrun hlicences
      obtain ⟨r₁, hr₁, hsame⟩ := leads_notice r.outline hhead
        (hencloses ('\n' :: Node.prettyAll 0 (notices ++ nodes) [])) r rfl
      have hcurrent₁ : r₁.outline.current = [] := by rw [hr₁]; exact hcurrent
      obtain ⟨r₂, hr₂, hsame'⟩ := leads_newline hcurrent₁ (Node.prettyAll 0 (notices ++ nodes) []) r₁ rfl
      have hrun₂ : r₂.run (Node.prettyAll 0 (notices ++ nodes) []) = .ok r' := by
        rw [← hsame', ← hsame]
        exact hrun
      have hlicences₂ : r₂.outline.licences = .comment text none :: r.outline.licences := by
        rw [hr₂, hr₁, String.ofList_toList]
      have hcurrent₂ : r₂.current = [] := by
        rw [← Reading.outline_current, hr₂, hcurrent₁]
      obtain ⟨hrest, r₃, hr₃, hrun₃⟩ := ih hnoticed hcurrent₂ hrun₂ (by rw [hlicences₂, hlicences])
      refine ⟨fun text' hmem => ?_, r₃, ?_, hrun₃⟩
      · rcases List.mem_cons.1 hmem with hself | hmem
        · obtain ⟨rfl, -⟩ := Node.comment.inj hself
          exact hencloses
        · exact hrest text' hmem
      · rw [hr₃, hr₂, hr₁]

/-! ## Spans are not printed -/

namespace Node

mutual

lemma pretty_clearSpans (depth : Nat) (node : Node) (rest : List Char) :
    node.clearSpans.pretty depth rest = node.pretty depth rest := by
  cases node with
  | comment text span => rfl
  | declaration property value important span => rfl
  | rule selector nodes hasBlock span =>
      rw [clearSpans, pretty, pretty, prettyAll_clearSpansAll]

/-- Spans are not printed. -/
lemma prettyAll_clearSpansAll (depth : Nat) (nodes : List Node) (rest : List Char) :
    prettyAll depth (clearSpansAll nodes) rest = prettyAll depth nodes rest := by
  cases nodes with
  | nil => rfl
  | cons node nodes =>
      rw [clearSpansAll, prettyAll, prettyAll, pretty_clearSpans, prettyAll_clearSpansAll]

end

mutual

lemma minified_clearSpans (closing : Bool) (node : Node) (rest : List Char) :
    node.clearSpans.minified closing rest = node.minified closing rest := by
  cases node with
  | comment text span => rfl
  | declaration property value important span => rfl
  | rule selector nodes hasBlock span =>
      rw [clearSpans, minified, minified, minifiedAll_clearSpansAll]

/-- Spans are not printed in the other style either. -/
lemma minifiedAll_clearSpansAll (inBlock : Bool) (nodes : List Node) (rest : List Char) :
    minifiedAll inBlock (clearSpansAll nodes) rest = minifiedAll inBlock nodes rest := by
  cases nodes with
  | nil => rfl
  | cons node nodes =>
      have hempty : (clearSpansAll nodes).isEmpty = nodes.isEmpty := by
        cases nodes <;> rfl
      rw [clearSpansAll, minifiedAll, minifiedAll, hempty, minified_clearSpans,
        minifiedAll_clearSpansAll]

end

mutual

/-- What is told of a block comes from a block. -/
lemma exists_visit_of_opens {selector : String} {node : Node} (depth : Nat)
    (h : .opens selector ∈ node.tokens) : ∃ visit ∈ node.visits depth, ∃ nodes span,
      visit.2 = .rule selector nodes true span := by
  cases node with
  | comment text span => cases h
  | declaration property value important span =>
      cases List.mem_singleton.1 h
  | rule selector' nodes hasBlock span =>
      cases hasBlock with
      | false => cases List.mem_singleton.1 h
      | true =>
          rw [tokens, List.mem_cons, List.mem_append] at h
          rcases h with hself | hbelow | hcloses
          · obtain rfl := Token.opens.inj hself
            exact ⟨_, List.mem_cons_self, nodes, span, rfl⟩
          · obtain ⟨visit, hvisit, hrule⟩ := exists_visit_of_opens_all (depth + 1) hbelow
            exact ⟨visit, List.mem_cons_of_mem _ hvisit, hrule⟩
          · cases List.mem_singleton.1 hcloses

/-- A brace is opened only by a rule with a block. -/
lemma exists_visit_of_opens_all {selector : String} {nodes : List Node} (depth : Nat)
    (h : .opens selector ∈ tokensAll nodes) : ∃ visit ∈ visitsAll depth nodes, ∃ nodes span,
      visit.2 = .rule selector nodes true span := by
  cases nodes with
  | nil => cases h
  | cons node nodes =>
      rw [tokensAll, List.mem_append] at h
      rcases h with h | h
      · obtain ⟨visit, hvisit, hrule⟩ := exists_visit_of_opens depth h
        exact ⟨visit, List.mem_append_left _ hvisit, hrule⟩
      · obtain ⟨visit, hvisit, hrule⟩ := exists_visit_of_opens_all depth h
        exact ⟨visit, List.mem_append_right _ hvisit, hrule⟩

end

mutual

lemma tokens_clearSpans (node : Node) : node.clearSpans.tokens = node.tokens := by
  cases node with
  | comment text span => rfl
  | declaration property value important span => rfl
  | rule selector nodes hasBlock span =>
      cases hasBlock with
      | false => rfl
      | true => rw [clearSpans, tokens, tokens, tokensAll_clearSpansAll]

/-- Tokens have no spans. -/
lemma tokensAll_clearSpansAll (nodes : List Node) :
    tokensAll (clearSpansAll nodes) = tokensAll nodes := by
  cases nodes with
  | nil => rfl
  | cons node nodes =>
      rw [clearSpansAll, tokensAll, tokensAll, tokens_clearSpans, tokensAll_clearSpansAll]

end

mutual

lemma clearSpans_clearSpans (node : Node) : node.clearSpans.clearSpans = node.clearSpans := by
  cases node with
  | comment text span => rfl
  | declaration property value important span => rfl
  | rule selector nodes hasBlock span =>
      rw [clearSpans, clearSpans, clearSpansAll_clearSpansAll]

lemma clearSpansAll_clearSpansAll (nodes : List Node) :
    clearSpansAll (clearSpansAll nodes) = clearSpansAll nodes := by
  cases nodes with
  | nil => rfl
  | cons node nodes =>
      rw [clearSpansAll, clearSpansAll, clearSpans_clearSpans, clearSpansAll_clearSpansAll]

end

end Node

/-- The printed text tells nothing about spans. -/
lemma printStylesheet_clearSpansAll (style : Style) (nodes : List Node) :
    printStylesheet style (Node.clearSpansAll nodes) = printStylesheet style nodes := by
  cases style with
  | pretty => rw [printStylesheet, printStylesheet, Node.prettyAll_clearSpansAll]
  | minified => rw [printStylesheet, printStylesheet, Node.minifiedAll_clearSpansAll]

/-! ## Minified stylesheets -/

/-- A text that tells licences and then nodes is read as these. -/
lemma readStylesheet_of_leads_attachAll {text : List Char} {notices nodes : List Node}
    (h : Leads .empty text (({ Outline.empty with
      licences := (Node.clearSpansAll notices).reverse }).attachAll (Node.clearSpansAll nodes)) [])
    (file : Nat) : (readStylesheet file (String.ofList text)).map Node.clearSpansAll
      = .ok (Node.clearSpansAll (notices ++ nodes)) := by
  rw [Outline.attachAll_of_not_opened rfl] at h
  rw [readStylesheet_of_leads h]
  simp [Outline.empty, Node.clearSpansAll_eq_map]

/-- Without optional blanks, licences that end at their marks and nodes that are read back are read
back together. -/
lemma readStylesheet_minified {notices nodes : List Node}
    (hnotices : ∀ node ∈ notices, Noticed node)
    (hencloses : ∀ text, .comment text none ∈ notices → Encloses text.toList)
    (hnodes : ∀ o : Outline, o.current = [] →
      Leads o (Node.minifiedAll false nodes []) (o.attachAll (Node.clearSpansAll nodes)) [])
    (file : Nat) :
    (readStylesheet file (printStylesheet .minified (notices ++ nodes))).map Node.clearSpansAll
      = .ok (Node.clearSpansAll (notices ++ nodes)) := by
  refine readStylesheet_of_leads_attachAll (Leads.trans ?_ (hnodes _ rfl)) file
  have hnotice : ∀ notice ∈ notices, ∀ (nodes : List Node) (o : Outline), o.current = [] →
      Leads o (Node.minifiedAll false (notice :: nodes) [])
        { o with licences := notice.clearSpans :: o.licences } (Node.minifiedAll false nodes []) := by
    intro notice hmem nodes o _
    obtain ⟨text, rfl, hhead⟩ := hnotices notice hmem
    have hleads := leads_notice o hhead (hencloses text hmem (Node.minifiedAll false nodes []))
    rwa [String.ofList_toList] at hleads
  have hfront := leads_licences (Node.minifiedAll false · []) hnotice (o := .empty) rfl nodes
  simpa [Outline.empty] using hfront

/-- What the pretty text of a forest tells, if it is read back: the licences one by one, and then all of
the nodes. -/
lemma owes_of_readStylesheet {file : Nat} {nodes : List Node}
    (hread : (readStylesheet file (printStylesheet .pretty nodes)).map Node.clearSpansAll
      = .ok (Node.clearSpansAll nodes)) :
    ∃ notices others, Node.clearSpansAll nodes = notices ++ others ∧
      (∀ node ∈ notices, Noticed node) ∧
      (∀ text, .comment text none ∈ notices → Encloses text.toList) ∧
      (∀ node ∈ others, Made node) ∧
      Owes [] (Node.prettyAll 0 others []) (Node.tokensAll others) := by
  cases hok : readStylesheet file (printStylesheet .pretty nodes) with
  | error e =>
      rw [hok] at hread
      cases hread
  | ok read =>
      rw [hok] at hread
      obtain ⟨r, hrun, hopened, rfl⟩ := exists_run_of_readStylesheet hok
      have hsplit : Node.clearSpansAll nodes
          = r.outline.licences.reverse ++ r.outline.finished.reverse := by
        rw [← Except.ok.inj hread]
        simp [Reading.outline, Node.clearSpansAll_eq_map]
      rw [← printStylesheet_clearSpansAll, hsplit, printStylesheet, String.toList_ofList] at hrun
      have hmade := made_of_run (r := { file }) ⟨List.forall_mem_nil _, List.forall_mem_nil _⟩ hrun
      obtain ⟨newer, hnewer, hnoticed⟩ := licences_of_run hrun
      have hlicences : r.outline.licences = newer := hnewer.trans (List.append_nil newer)
      have hnotices : ∀ node ∈ r.outline.licences.reverse, Noticed node := by
        intro node hnode
        rw [List.mem_reverse, hlicences] at hnode
        exact hnoticed node hnode
      obtain ⟨hencloses, r₁, hr₁, hrun₁⟩ := exists_run_behind_notices hnotices _ rfl hrun
        (by rw [List.reverse_reverse]; exact (List.append_nil _).symm)
      have hothers : ∀ node ∈ r.outline.finished.reverse, Made node :=
        fun node hnode => hmade.finished node (List.mem_reverse.1 hnode)
      obtain ⟨tokens, htells, htokens⟩ := tells_of_run hrun₁
      have hcurrent : r₁.current = [] := congrArg Outline.current hr₁
      have hnone : r₁.outline.tokens = [] := by
        rw [hr₁]
        rfl
      have hall : r.outline.tokens = Node.tokensAll r.outline.finished.reverse := by
        have hempty : r.outline.opened = [] := by simp [Reading.outline, hopened]
        rw [Outline.tokens, hempty]
        exact List.append_nil _
      rw [hnone, List.nil_append, hall] at htokens
      rw [hcurrent, ← htokens] at htells
      refine ⟨_, _, hsplit, hnotices, hencloses, hothers, htells, ?_⟩
      rw [Node.weight_prettyAll hothers]
      simp

/-- If the pretty text of a forest is read back up to spans, and no selector of a block ends in a
backslash that hides what follows, then so is the minified text. -/
theorem readStylesheet_minified_of_pretty (file : Nat) {nodes : List Node}
    (hread : (readStylesheet file (printStylesheet .pretty nodes)).map Node.clearSpansAll
      = .ok (Node.clearSpansAll nodes))
    (hselectors : ∀ visit ∈ Node.visitsAll 0 nodes, ∀ selector inner span,
      visit.2 = .rule selector inner true span → Text.endsHiding selector.toList = false) :
    (readStylesheet file (printStylesheet .minified nodes)).map Node.clearSpansAll
      = .ok (Node.clearSpansAll nodes) := by
  obtain ⟨notices, others, hsplit, hnotices, hencloses, hothers, howes⟩ :=
    owes_of_readStylesheet hread
  have hclosed : ∀ selector, Token.opens selector ∈ Node.tokensAll others →
      Text.endsHiding selector.toList = false := by
    intro selector hmem
    have hall : Token.opens selector ∈ Node.tokensAll nodes := by
      rw [← Node.tokensAll_clearSpansAll, hsplit, Node.tokensAll_append]
      exact List.mem_append_right _ hmem
    obtain ⟨visit, hvisit, inner, span, hrule⟩ := Node.exists_visit_of_opens_all 0 hall
    exact hselectors visit hvisit selector inner span hrule
  have hon : ReadOn others [] [] := by
    refine readOn_all hothers (fun node hnode rest tokens => ?_) (by rwa [List.append_nil])
    refine readOn_of_made (hothers node hnode) (fun selector hmem => hclosed selector ?_) 0 rest
      tokens
    exact Node.mem_tokensAll.2 ⟨node, hnode, hmem⟩
  have hleads : ∀ o : Outline, o.current = [] →
      Leads o (Node.minifiedAll false others []) (o.attachAll (Node.clearSpansAll others)) [] := by
    intro o ho
    rcases hon with ⟨hall, -⟩ | ⟨-, hlast⟩
    · exact leads_minifiedAll hall ho []
    · exact hlast o ho
  have hminified := readStylesheet_minified hnotices hencloses hleads file
  rwa [← hsplit, printStylesheet_clearSpansAll, Node.clearSpansAll_clearSpansAll] at hminified

namespace Sample

/-- A licence, a statement, an escape, a custom property with a bracket and an important value. -/
def printed : List Node :=
  [.comment "!l" none, .rule "@i x" [] false none,
    .rule ".a\\/b"
      [.declaration "--c" "\x7b;\x7d" false none, .declaration "d" "e f" true none] true none]

def printedRead : List Node :=
  [.comment "!l" (some ⟨1, 0, 6⟩), .rule "@i x" [] false (some ⟨1, 7, 12⟩),
    .rule ".a\\/b"
      [.declaration "--c" "\x7b;\x7d" false (some ⟨1, 23, 32⟩),
        .declaration "d" "e f" true (some ⟨1, 35, 53⟩)] true (some ⟨1, 13, 55⟩)]

/-- A selector that ended in an escaped blank, before it was trimmed. -/
def trimmedEscape : List Node :=
  [.rule ".a\\" [] true (some ⟨0, 0, 6⟩)]

end Sample

theorem readStylesheet_minified_of_pretty_printed :
    (readStylesheet 1 (printStylesheet .pretty Sample.printed)).map Node.clearSpansAll
        = .ok (Node.clearSpansAll Sample.printed) ∧
      (∀ visit ∈ Node.visitsAll 0 Sample.printed, ∀ selector inner span,
        visit.2 = .rule selector inner true span → Text.endsHiding selector.toList = false) ∧
      (readStylesheet 1 (printStylesheet .minified Sample.printed)).map Node.clearSpansAll
        = .ok (Node.clearSpansAll Sample.printed) := by
  have hpretty : printStylesheet .pretty Sample.printed
      = "/*!l*/\n@i x;\n.a\\/b \x7b\n  --c: \x7b;\x7d;\n  d: e f !important;\n\x7d\n" := rfl
  have hread : readStylesheet 1 (printStylesheet .pretty Sample.printed)
      = .ok Sample.printedRead := by
    rw [hpretty]
    with_unfolding_all rfl
  have hback : (readStylesheet 1 (printStylesheet .pretty Sample.printed)).map Node.clearSpansAll
      = .ok (Node.clearSpansAll Sample.printed) := by
    rw [hread]
    rfl
  have hselectors : ∀ visit ∈ Node.visitsAll 0 Sample.printed, ∀ selector inner span,
      visit.2 = .rule selector inner true span → Text.endsHiding selector.toList = false := by
    intro visit hvisit
    simp only [Sample.printed, Node.visitsAll, Node.visits, List.cons_append, List.nil_append,
      List.mem_cons, List.not_mem_nil, or_false] at hvisit
    rcases hvisit with rfl | rfl | rfl | rfl | rfl <;> rintro selector inner span ⟨⟩
    decide
  exact ⟨hback, hselectors, readStylesheet_minified_of_pretty 1 hback hselectors⟩

/-- The blank that was printed in front of the brace is left out, and then the backslash hides the
brace. -/
theorem readStylesheet_minified_trimmedEscape :
    readStylesheet 0 ".a\\ \x7b\x7d" = .ok Sample.trimmedEscape ∧
      (readStylesheet 0 (printStylesheet .pretty Sample.trimmedEscape)).map Node.clearSpansAll
        = .ok (Node.clearSpansAll Sample.trimmedEscape) ∧
      (readStylesheet 0 (printStylesheet .minified Sample.trimmedEscape)).map Node.clearSpansAll
        ≠ .ok (Node.clearSpansAll Sample.trimmedEscape) := by
  have hpretty : printStylesheet .pretty Sample.trimmedEscape = ".a\\ \x7b\n\x7d\n" := rfl
  have hminified : printStylesheet .minified Sample.trimmedEscape = ".a\\\x7b\x7d" := rfl
  have hread : readStylesheet 0 ".a\\ \x7b\n\x7d\n"
      = .ok [.rule ".a\\" [] true (some ⟨0, 0, 7⟩)] := by
    with_unfolding_all rfl
  have herror : readStylesheet 0 ".a\\\x7b\x7d" = .error (.missingOpeningBrace ⟨0, 4, 5⟩) := by
    with_unfolding_all rfl
  refine ⟨by with_unfolding_all rfl, ?_, ?_⟩
  · rw [hpretty, hread]
    rfl
  · rw [hminified, herror]
    nofun

end UtilityCss
