import UtilityCss.Proofs.Locality

/-!
# The bytes of a rule

Reading only the bytes under the span of a block rule gives that rule, with the licence comments
that stood inside it: `readStylesheet_slice`.

Every rule that is open was begun at some place, and so was the text being collected.  Seen from
such a place, the reader is a reader of its own that began there: a `View`.  The reader keeps one
view for every depth (`Tracked`): a brace that opens a block makes the view of the text the view of
a rule, and one that closes a block finishes the rule in its own view, where it is all that was
read.  The licences a rule contains were noted between its two ends, so later ones do not disturb
it.
-/

namespace UtilityCss

/-! ## Cutting texts -/

lemma splitAtByte?_append (a b : List Char) :
    Text.splitAtByte? (Text.byteLength a) (a ++ b) = some (a, b) := by
  induction a with
  | nil => simp [Text.byteLength, Text.splitAtByte?]
  | cons c a ih =>
      have hpos := c.utf8Size_pos
      obtain ⟨n, hn⟩ : ∃ n, c.utf8Size + Text.byteLength a = n + 1 :=
        ⟨c.utf8Size + Text.byteLength a - 1, by omega⟩
      have hrest : n + 1 - c.utf8Size = Text.byteLength a := by omega
      rw [Text.byteLength, hn, List.cons_append, Text.splitAtByte?, if_pos (by omega), hrest, ih]
      rfl

/-- Between two boundaries lies what stands there. -/
lemma slice?_append (a b c : List Char) :
    Text.slice? (Text.byteLength a) (Text.byteLength a + Text.byteLength b) (a ++ (b ++ c)) =
      some b := by
  have hwhole := splitAtByte?_append (a ++ b) c
  have hfront := splitAtByte?_append a b
  rw [byteLength_append, List.append_assoc] at hwhole
  rw [Text.slice?, if_pos (Nat.le_add_right _ _), hwhole]
  simp [hfront]

lemma slice?_front (a b : List Char) : Text.slice? 0 (Text.byteLength a) (a ++ b) = some a := by
  simpa [Text.byteLength] using slice?_append [] a b

lemma slice?_back (a b : List Char) :
    Text.slice? (Text.byteLength a) (Text.byteLength (a ++ b)) (a ++ b) = some b := by
  simpa [byteLength_append] using slice?_append a b []

/-! ## Block rules -/

namespace Node

/-- The nodes of a forest are those of its trees. -/
lemma mem_visitsAll {depth : Nat} {nodes : List Node} {visit : Nat × Node} :
    visit ∈ visitsAll depth nodes ↔ ∃ node ∈ nodes, visit ∈ visits depth node := by
  induction nodes with
  | nil => simp [visitsAll]
  | cons node rest ih => simp [visitsAll, ih]

/-- Whether a node is a comment inside a span. -/
def isCommentIn (s : Span) : Node → Bool
  | .comment _ (some t) => decide (s.start ≤ t.start) && decide (t.stop ≤ s.stop)
  | _ => false

/-- Every node of a tree, at any depth, has the property. -/
def Every (P : Node → Prop) (node : Node) : Prop :=
  ∀ depth, ∀ visit ∈ visits depth node, P visit.2

namespace Every
variable {P : Node → Prop}

lemma comment {text : String} {span : Option Span} (h : P (.comment text span)) :
    (Node.comment text span).Every P := by
  intro depth visit hvisit
  rw [List.mem_singleton.1 hvisit]
  exact h

lemma declarationOf {text : List Char} {parts : Option (List Char × List Char)} {s : Span}
    (h : ∀ property value important, P (.declaration property value important (some s))) :
    (UtilityCss.declarationOf text parts s).Every P := by
  have hdeclared : ∀ property value important,
      (Node.declaration property value important (some s)).Every P := by
    intro property value important depth visit hvisit
    rw [List.mem_singleton.1 hvisit]
    exact h property value important
  cases parts with
  | none => exact hdeclared _ _ _
  | some parts =>
      obtain ⟨property, value⟩ := parts
      simp only [UtilityCss.declarationOf]
      split <;> exact hdeclared _ _ _

/-- What holds of a rule and of every tree below it holds of every node. -/
lemma rule {selector : String} {nodes : List Node} {hasBlock : Bool} {span : Option Span}
    (hself : P (.rule selector nodes hasBlock span)) (hnodes : ∀ node ∈ nodes, node.Every P) :
    (Node.rule selector nodes hasBlock span).Every P := by
  intro depth visit hvisit
  rw [visits, List.mem_cons] at hvisit
  rcases hvisit with rfl | hvisit
  · exact hself
  · obtain ⟨node, hnode, hvisit⟩ := mem_visitsAll.1 hvisit
    exact hnodes node hnode _ visit hvisit

end Every

/-- Every block rule of a tree, at any depth, has the property. -/
def EveryBlock (P : Node → Prop) (node : Node) : Prop :=
  ∀ depth, ∀ visit ∈ visits depth node, ∀ selector nodes span,
    visit.2 = .rule selector nodes true span → P visit.2

namespace EveryBlock
variable {P Q : Node → Prop}

lemma iff_every {node : Node} : node.EveryBlock P ↔
    node.Every fun node => ∀ selector nodes span, node = .rule selector nodes true span → P node :=
  Iff.rfl

lemma imp {node : Node} (h : node.EveryBlock P) (hPQ : ∀ node, P node → Q node) :
    node.EveryBlock Q := by
  intro depth visit hvisit selector nodes span hrule
  exact hPQ _ (h depth visit hvisit selector nodes span hrule)

lemma comment (text : String) (span : Option Span) : (Node.comment text span).EveryBlock P := by
  refine iff_every.2 (.comment fun selector nodes span' hrule => ?_)
  cases hrule

lemma declarationOf (text : List Char) (parts : Option (List Char × List Char)) (s : Span) :
    (UtilityCss.declarationOf text parts s).EveryBlock P := by
  refine iff_every.2 (.declarationOf fun property value important selector nodes span hrule => ?_)
  cases hrule

/-- Of a rule without a block nothing has to be shown but for what is below it. -/
lemma rule {selector : String} {nodes : List Node} {hasBlock : Bool} {span : Option Span}
    (hself : hasBlock = true → P (.rule selector nodes hasBlock span))
    (hnodes : ∀ node ∈ nodes, node.EveryBlock P) :
    (Node.rule selector nodes hasBlock span).EveryBlock P := by
  refine iff_every.2 (.rule (fun selector' nodes' span' hrule => ?_) fun node hnode => ?_)
  · exact hself (Node.rule.inj hrule).2.2.1
  · exact iff_every.1 (hnodes node hnode)

end EveryBlock

end Node

namespace Reading

/-! ## What a piece does to the nodes -/

/-- Attaching a node opens and closes nothing. -/
@[simp]
lemma attach_starts (r : Reading) (node : Node) :
    (r.attach node).opened.map OpenRule.start = r.opened.map OpenRule.start := by
  unfold attach
  split
  next h => simp [h]
  next h => simp [h]

@[simp]
lemma attach_opened_length (r : Reading) (node : Node) :
    (r.attach node).opened.length = r.opened.length := by
  have hstarts := congrArg List.length (attach_starts r node)
  rwa [List.length_map, List.length_map] at hstarts

lemma attach_finished {r : Reading} (h : r.opened ≠ []) (node : Node) :
    (r.attach node).finished = r.finished := by
  unfold attach
  split
  next hnil => exact absurd hnil h
  next => rfl

/-- The effect of a piece: it finishes no node, or one without a block, or it opens or closes a
block. -/
inductive Effect (r : Reading) : Piece → Reading → Prop
  | quiet {p : Piece} {r' : Reading} (hp : p ≠ .closing) (hopened : r'.opened = r.opened)
      (hfinished : r'.finished = r.finished) (hedge : r'.current ≠ [] → r'.edge = r.edge) :
      Effect r p r'
  | leaf {p : Piece} {r' : Reading} (hp : p ≠ .closing) (node : Node)
      (hnode : ∀ P, node.EveryBlock P) (hopened : r'.opened = (r.attach node).opened)
      (hfinished : r'.finished = (r.attach node).finished) (hcurrent : r'.current = []) :
      Effect r p r'
  | opening {r' : Reading} (rule : OpenRule) (hstart : rule.start = r.edge)
      (hnodes : rule.nodes = []) (hopened : r'.opened = rule :: r.opened)
      (hfinished : r'.finished = r.finished) (hcurrent : r'.current = []) :
      Effect r .opening r'
  | closing {rule : OpenRule} {outer : List OpenRule}
      (hopened : r.finishText.opened = rule :: outer) :
      Effect r .closing (({ r.finishText with opened := outer }.attach (r.closed rule)).advance 1)

lemma everyBlock_statement (P : Node → Prop) (selector : String) (span : Option Span) :
    (Node.rule selector [] false span).EveryBlock P :=
  .rule nofun nofun

lemma Effect.advance {r : Reading} {p : Piece} (hp : p ≠ .closing) (n : Nat) :
    Effect r p (r.advance n) :=
  .quiet hp rfl rfl fun hne =>
    (edge_of_current_ne_nil hne).trans (edge_of_current_ne_nil (r := r) hne).symm

/-- A node without blocks leaves all open rules as they are. -/
lemma Effect.attach {r : Reading} {p : Piece} (hp : p ≠ .closing) {node : Node}
    (hnode : ∀ P, node.EveryBlock P) (n : Nat) : Effect r p ((r.clear.attach node).advance n) := by
  have hcongr := attach_congr (r := r.clear) (s := r) node rfl rfl
  exact .leaf hp node hnode hcongr.1 hcongr.2 (by simp [Reading.advance, clear])

/-- Everything a piece can do. -/
lemma push_effect {r r' : Reading} {p : Piece} (hpush : r.push p = .ok r')
    (hcustom : ∀ text ended, p = .custom text ended → r.current = []) : Effect r p r' := by
  cases p with
  | verbatim text =>
      obtain rfl := Except.ok.inj hpush
      exact .quiet (by simp) rfl rfl fun hne => edge_of_current_ne_nil hne
  | comment text isClosed =>
      obtain rfl := Except.ok.inj hpush
      rw [pushComment]
      split_ifs
      · exact .quiet (by simp) rfl rfl fun hne =>
          (edge_of_current_ne_nil hne).trans (edge_of_current_ne_nil (r := r) hne).symm
      · exact .advance (by simp) _
  | brokenString text => cases hpush
  | gap c =>
      obtain rfl := Except.ok.inj hpush
      exact .advance (by simp) _
  | newline =>
      obtain rfl := Except.ok.inj hpush
      rw [pushNewline]
      split
      · exact .advance (by simp) _
      next last before hcurrent =>
        split_ifs
        · exact .advance (by simp) _
        · exact .quiet (by simp) rfl rfl fun hne =>
            (edge_of_current_ne_nil hne).trans
              (edge_of_current_ne_nil (r := r) (by simp [hcurrent])).symm
  | custom text ended =>
      obtain rfl := Except.ok.inj hpush
      exact .leaf (by simp) _ (fun P => .declarationOf _ _ _) rfl rfl
        (by simpa [advance] using hcustom text ended rfl)
  | semicolon =>
      obtain rfl := Except.ok.inj hpush
      rw [pushSemicolon]
      split_ifs
      · exact .attach (by simp) (fun P => everyBlock_statement P _ _) _
      · exact .quiet (by simp) rfl rfl fun hne => absurd rfl hne
      · exact .attach (by simp) (fun P => .declarationOf _ _ _) _
  | opening =>
      obtain rfl := Except.ok.inj hpush
      exact .opening _ rfl rfl rfl rfl rfl
  | closing =>
      obtain ⟨rule, outer, hopened, rfl⟩ := push_closing_iff.1 hpush
      exact .closing hopened
  | plain c =>
      obtain rfl := Except.ok.inj hpush
      rw [pushPlain]
      split_ifs
      · exact .advance (by simp) _
      · exact .quiet (by simp) rfl rfl fun hne => edge_of_current_ne_nil hne

/-- The text in front of a closing brace becomes a node without blocks, or nothing. -/
lemma finishText_eq_or (r : Reading) : r.finishText = r ∨
    ∃ node, (∀ P, node.EveryBlock P) ∧ r.finishText = r.clear.attach node := by
  rw [finishText]
  split_ifs
  · exact Or.inl rfl
  · exact Or.inr ⟨_, fun P => everyBlock_statement P _ _, rfl⟩
  · exact Or.inr ⟨_, fun P => .declarationOf _ _ _, rfl⟩

lemma finishText_starts (r : Reading) :
    r.finishText.opened.map OpenRule.start = r.opened.map OpenRule.start := by
  rcases finishText_eq_or r with h | ⟨node, -, h⟩
  · rw [h]
  · rw [h, attach_starts]
    rfl

lemma finishText_opened_length (r : Reading) :
    r.finishText.opened.length = r.opened.length := by
  have hstarts := congrArg List.length (finishText_starts r)
  rwa [List.length_map, List.length_map] at hstarts

lemma finishText_finished {r : Reading} (hopened : r.opened ≠ []) :
    r.finishText.finished = r.finished := by
  rcases finishText_eq_or r with h | ⟨node, -, h⟩
  · rw [h]
  · rw [h]
    exact attach_finished (r := r.clear) hopened node

/-! ## Finished block rules -/

/-- The finished nodes, inside open rules too. -/
def built (r : Reading) : List Node :=
  r.finished ++ r.opened.flatMap OpenRule.nodes

/-- Every block rule that was finished has the property. -/
def Blocks (P : Node → Prop) (r : Reading) : Prop :=
  ∀ node ∈ r.built, node.EveryBlock P

/-- One node more is built. -/
lemma mem_built_attach {r : Reading} {node node' : Node} :
    node' ∈ (r.attach node).built ↔ node' = node ∨ node' ∈ r.built := by
  cases hopened : r.opened with
  | nil => simp [attach_of_opened_eq_nil hopened, built, hopened]
  | cons rule outer =>
      simp [attach_of_opened_eq_cons hopened, built, hopened, or_left_comm]

namespace Blocks
variable {P Q : Node → Prop} {r r' : Reading} (h : r.Blocks P)

include h in
lemma imp (hPQ : ∀ node, P node → Q node) : r.Blocks Q := by
  intro node hnode
  exact (h node hnode).imp hPQ

include h in
lemma attach {node : Node} (hnode : node.EveryBlock P) : (r.attach node).Blocks P := by
  intro node' hnode'
  rcases mem_built_attach.1 hnode' with rfl | hnode'
  · exact hnode
  · exact h node' hnode'

include h in
/-- The rule that is closed is a block, made of those built in it. -/
lemma close {rule : OpenRule} {outer : List OpenRule} (hopened : r.opened = rule :: outer)
    {stop : Option Span} (hrule : P (.rule rule.selector rule.nodes.reverse true stop)) :
    ({ r with opened := outer }.attach
      (.rule rule.selector rule.nodes.reverse true stop)).Blocks P := by
  have hinner : ∀ node ∈ rule.nodes, node.EveryBlock P := by
    intro node hnode
    exact h node (by simp [built, hopened, hnode])
  have houter : ({ r with opened := outer } : Reading).Blocks P := by
    intro node hnode
    refine h node ?_
    simp only [built, hopened, List.flatMap_cons, List.mem_append] at hnode ⊢
    exact hnode.imp_right Or.inr
  refine houter.attach (.rule (fun _ => hrule) fun node hnode => ?_)
  exact hinner node (List.mem_reverse.1 hnode)

include h in
/-- Only a closing brace finishes a block rule. -/
lemma effect {p : Piece} (heffect : Effect r p r')
    (hclosed : p = .closing → ∀ rule outer, r.finishText.opened = rule :: outer →
      P (r.closed rule)) : r'.Blocks P := by
  cases heffect with
  | quiet _ hopened hfinished _ =>
      intro node hnode
      exact h node (by simpa [built, hopened, hfinished] using hnode)
  | leaf _ leaf hleaf hopened hfinished _ =>
      intro node hnode
      exact h.attach (hleaf P) node (by simpa [built, hopened, hfinished] using hnode)
  | opening rule _ hnodes hopened hfinished _ =>
      intro node hnode
      exact h node (by simpa [built, hopened, hfinished, hnodes] using hnode)
  | closing hopened =>
      have hfinish : r.finishText.Blocks P := by
        rcases finishText_eq_or r with heq | ⟨leaf, hleaf, heq⟩
        · rwa [heq]
        · rw [heq]
          exact attach (r := r.clear) h (hleaf P)
      exact hfinish.close hopened (hclosed rfl _ _ hopened)

end Blocks

/-! ## One node, read alone -/

/-- One node was begun, at the first byte, and it is not finished. -/
structure Sole (r : Reading) : Prop where
  finished : r.finished = []
  begins : (r.opened.map OpenRule.start).getLastD r.edge = 0

lemma getLastD_eq {starts : List Nat} (h : starts ≠ []) (a b : Nat) :
    starts.getLastD a = starts.getLastD b := by
  cases starts with
  | nil => exact absurd rfl h
  | cons start outer => rw [List.getLastD_cons, List.getLastD_cons]

/-- As long as a rule is open or text is being collected, the node is the only one. -/
lemma Sole.effect {r r' : Reading} {p : Piece} (h : r.Sole) (heffect : Effect r p r')
    (hbusy : r'.opened = [] → r'.current ≠ []) : r'.Sole := by
  cases heffect with
  | quiet _ hopened hfinished hedge =>
      refine ⟨hfinished.trans h.finished, ?_⟩
      rw [hopened] at hbusy ⊢
      by_cases hnil : r.opened = []
      · rw [hedge (hbusy hnil)]
        exact h.begins
      · rw [getLastD_eq (by simpa using hnil) _ r.edge]
        exact h.begins
  | leaf _ node _ hopened hfinished hcurrent =>
      have hstarts := attach_starts r node
      have hne : r.opened ≠ [] := by
        intro hnil
        rw [hnil, List.map_nil, List.map_eq_nil_iff, ← hopened] at hstarts
        exact hbusy hstarts hcurrent
      refine ⟨?_, ?_⟩
      · rw [hfinished, attach_finished hne, h.finished]
      · rw [hopened, hstarts, getLastD_eq (by simpa using hne) _ r.edge]
        exact h.begins
  | opening rule hstart _ hopened hfinished _ =>
      refine ⟨hfinished.trans h.finished, ?_⟩
      rw [hopened, List.map_cons, List.getLastD_cons, hstart]
      exact h.begins
  | @closing rule outer hopened =>
      have hstarts := finishText_starts r
      rw [hopened, List.map_cons] at hstarts
      have hne : r.opened ≠ [] := by
        rintro hnil
        simp [hnil] at hstarts
      have houter : outer ≠ [] := by
        rintro rfl
        refine hbusy ?_ ?_
        · rw [attach_of_opened_eq_nil rfl]
          rfl
        · simpa [advance] using finishText_current r
      refine ⟨?_, ?_⟩
      · show (Reading.attach _ _).finished = []
        rw [attach_finished houter]
        exact (finishText_finished hne).trans h.finished
      · -- The outermost rule stays open.
        show List.getLastD (List.map _ (Reading.attach _ _).opened) _ = 0
        rw [attach_starts, getLastD_eq (by simpa using houter) _ rule.start, ← List.getLastD_cons,
          hstarts]
        exact h.begins

/-- A closing brace finishes the node, and nothing else was read. -/
lemma Sole.run_closing {r : Reading} {rule : OpenRule} (h : r.Sole)
    (hopened : r.finishText.opened = [rule]) :
    ∃ r', r.run ['}'] = .ok r' ∧ r'.finish = .ok (r.licences.reverse ++ [r.closed rule]) := by
  have hne : r.opened ≠ [] := by
    have hlength := finishText_opened_length r
    rintro hnil
    simp [hopened, hnil] at hlength
  have hpush := push_closing_iff.2 ⟨rule, [], hopened, rfl⟩
  have hnext : Piece.next r.current.isEmpty '}' [] = (.closing, []) := rfl
  refine ⟨_, (run_append hnext hpush rfl).trans (by rw [Reading.run]), ?_⟩
  rw [attach_of_opened_eq_nil rfl]
  simp [finish, Reading.advance, finishText_finished hne, h.finished]

/-! ## Views -/

/-- What the reader has done since `ctx`, as a reading of its own.  The text behind `ctx` leads
there from the beginning, whatever comes next, as long as it begins with the same character. -/
structure View (file : Nat) (text rest : List Char) (ctx alone r : Reading) : Prop where
  within : Within ctx alone r
  nested : alone.Nested
  sole : alone.Sole
  noted : Noted file ctx.pos ctx.licences
  read : ∃ front seen, text = front ++ (seen ++ rest) ∧ Text.byteLength front = ctx.pos ∧
    Text.byteLength seen = alone.pos ∧ ∀ tail, tail.head? = rest.head? →
      ({ file : Reading }).run (seen ++ tail) = alone.run tail

lemma Sole.fresh (file : Nat) : ({ file : Reading }).Sole := ⟨rfl, rfl⟩

/-- Where no text is being collected, a view may begin. -/
lemma View.here {r : Reading} (h : r.Nested) (hcurrent : r.current = []) (front rest : List Char)
    (hfront : Text.byteLength front = r.pos) :
    View r.file (front ++ rest) rest r { file := r.file } r where
  within := .here hcurrent
  nested := Nested.fresh _
  sole := Sole.fresh _
  noted := h.noted
  read := ⟨front, [], rfl, hfront, rfl, fun _ _ => rfl⟩

lemma Within.opened_length {ctx alone r : Reading} (h : Within ctx alone r) :
    r.opened.length = alone.opened.length + ctx.opened.length := by
  have hattach : ∀ nodes, (ctx.attachAll nodes).opened.length = ctx.opened.length := by
    intro nodes
    induction nodes with
    | nil => rfl
    | cons node nodes ih => exact (attach_opened_length _ node).trans ih
  rw [h.opened, List.length_append, List.length_map, hattach]

/-- A view goes on with every piece that it can read by itself and that leaves it busy. -/
lemma View.push {file : Nat} {text rest rest' : List Char} {c : Char} {p : Piece}
    {ctx alone alone' r r' : Reading} (h : View file text (c :: rest) ctx alone r)
    (hnext : Piece.next r.current.isEmpty c rest = (p, rest')) (halone : alone.push p = .ok alone')
    (hpush : r.push p = .ok r') (hsize : r.pos + p.width < Span.offsetBound)
    (hbusy : r'.opened.length = ctx.opened.length → r'.current ≠ []) :
    View file text rest' ctx alone' r' := by
  have hisEmpty : r.current.isEmpty = alone.current.isEmpty := by rw [h.within.current]
  rw [hisEmpty] at hnext
  obtain ⟨hsource, hwidth, hcustom⟩ := taken_of_push hnext halone
  have hwithin := h.within.push h.nested halone hpush hsize
  have hpos := h.within.pos
  obtain ⟨front, seen, htext, hfront, hseen, hleads⟩ := h.read
  refine ⟨hwithin, h.nested.push halone (by omega) hwidth hcustom, ?_, h.noted, front,
    seen ++ p.source, ?_, hfront, ?_, ?_⟩
  · refine h.sole.effect (push_effect halone hcustom) ?_
    intro hnil
    have hlength := hwithin.opened_length
    rw [← hwithin.current]
    exact hbusy (by simpa [hnil] using hlength)
  · rw [htext, ← hsource, List.append_assoc]
  · rw [byteLength_append, hseen, (push_movesPast halone).pos]
    rfl
  · intro tail htail
    have hhead : (p.source ++ tail).head? = (c :: rest).head? := by
      rw [← hsource]
      exact head?_append_congr p.source htail
    rw [List.append_assoc, hleads _ hhead, run_append hnext halone htail]

/-! ## Exact spans -/

/-- The bytes of a node, read alone, give the licences inside it and then the node, moved to the
beginning of the text. -/
def Exact (file : Nat) (text : List Char) (licences : List Node) (pos : Nat) (node : Node) : Prop :=
  ∃ s slice read, node.span = some s ∧ s.stop ≤ pos ∧
    Text.slice? s.start s.stop text = some slice ∧
    readStylesheet file (String.ofList slice) = .ok read ∧
    Node.mapSpansAll (Span.forward s.start) read =
      (licences.filter (Node.isCommentIn s)).reverse ++ [node]

/-- Only a comment adds a licence. -/
lemma licences_of_push_ne_comment {r r' : Reading} {p : Piece} (hpush : r.push p = .ok r')
    (hp : ∀ text closed, p ≠ .comment text closed) : r'.licences = r.licences := by
  cases p with
  | comment text closed => exact absurd rfl (hp text closed)
  | brokenString text => cases hpush
  | newline =>
      obtain rfl := Except.ok.inj hpush
      simp only [advance, pushNewline]
      split
      · rfl
      · split_ifs <;> rfl
  | custom text ended =>
      obtain rfl := Except.ok.inj hpush
      simp [advance]
  | semicolon =>
      obtain rfl := Except.ok.inj hpush
      simp only [advance, pushSemicolon]
      split_ifs <;> simp [clear]
  | closing =>
      obtain ⟨rule, outer, hopened, rfl⟩ := push_closing_iff.1 hpush
      simp [advance]
  | plain c =>
      obtain rfl := Except.ok.inj hpush
      simp only [advance, pushPlain]
      split_ifs <;> rfl
  | verbatim text =>
      obtain rfl := Except.ok.inj hpush
      rfl
  | gap c =>
      obtain rfl := Except.ok.inj hpush
      rfl
  | opening =>
      obtain rfl := Except.ok.inj hpush
      rfl

/-- A piece adds at most one licence. -/
lemma licences_of_push {r r' : Reading} {p : Piece} (hpush : r.push p = .ok r') :
    r'.licences = r.licences ∨ ∃ text, text.toList.head? = some '!' ∧
      r'.licences = .comment text (some (r.span r.pos (r.pos + p.width))) :: r.licences := by
  by_cases hp : ∀ text closed, p ≠ .comment text closed
  · exact Or.inl (licences_of_push_ne_comment hpush hp)
  · push Not at hp
    obtain ⟨text, isClosed, rfl⟩ := hp
    obtain rfl := Except.ok.inj hpush
    rw [pushComment]
    split_ifs with hhead
    · refine Or.inr ⟨String.ofList text, ?_, rfl⟩
      rw [String.toList_ofList]
      exact beq_iff_eq.1 hhead
    · exact Or.inl rfl

/-- A comment is kept with the span of its piece. -/
lemma push_licences {r r' : Reading} {p : Piece} (hpush : r.push p = .ok r')
    (hsize : r.pos + p.width < Span.offsetBound) : r'.licences = r.licences ∨ ∃ text,
      r'.licences = .comment text (some ⟨r.file, r.pos, r.pos + p.width⟩) :: r.licences := by
  rw [← span_eq (Nat.le_add_right _ _) hsize]
  exact (licences_of_push hpush).imp_right fun ⟨text, _, h⟩ => ⟨text, h⟩

/-- A licence that is noted later is not inside. -/
lemma Exact.push {file : Nat} {text : List Char} {r r' : Reading} {p : Piece} {node : Node}
    (h : Exact file text r.licences r.pos node) (hpush : r.push p = .ok r')
    (hsize : r.pos + p.width < Span.offsetBound) (hwidth : 0 < p.width) :
    Exact file text r'.licences r'.pos node := by
  obtain ⟨s, slice, read, hspan, hstop, hslice, hread, hnodes⟩ := h
  have hpos := (push_movesPast hpush).pos
  refine ⟨s, slice, read, hspan, by omega, hslice, hread, ?_⟩
  rcases push_licences hpush hsize with hsame | ⟨text, hmore⟩
  · rw [hsame, hnodes]
  · have hout : Node.isCommentIn s (.comment text (some ⟨r.file, r.pos, r.pos + p.width⟩)) =
        false := by
      simp only [Node.isCommentIn, Bool.and_eq_false_iff, decide_eq_false_iff_not]
      omega
    rw [hmore, List.filter_cons_of_neg (by simp [hout]), hnodes]

/-- Of the licences noted so far, those of the view are inside a rule that begins with it. -/
lemma filter_licences {file file' hi n : Nat} {own older : List Node} {s : Span}
    (hown : Noted file hi own) (holder : Noted file' n older) (hstart : s.start = n)
    (hstop : hi + n ≤ s.stop) :
    (Node.mapSpansAll (Span.forward n) own ++ older).filter (Node.isCommentIn s) =
      Node.mapSpansAll (Span.forward n) own := by
  have hin : ∀ node ∈ Node.mapSpansAll (Span.forward n) own, Node.isCommentIn s node = true := by
    intro node hnode
    rw [Node.mapSpansAll_eq_map, List.mem_map] at hnode
    obtain ⟨node, hmem, rfl⟩ := hnode
    obtain ⟨text, t, rfl, -, -, -, hle⟩ := hown.of_mem hmem
    simp only [Node.mapSpans, Option.map_some, Span.forward, Node.isCommentIn, Bool.and_eq_true,
      decide_eq_true_eq]
    omega
  have hout : ∀ node ∈ older, ¬ Node.isCommentIn s node = true := by
    intro node hnode
    obtain ⟨text, t, rfl, -, -, hlt, hle⟩ := holder.of_mem hnode
    simp only [Node.isCommentIn, Bool.and_eq_true, decide_eq_true_eq]
    omega
  rw [List.filter_append, List.filter_eq_self.2 hin, List.filter_eq_nil_iff.2 hout,
    List.append_nil]

/-- A rule that is closed in a view of its own has an exact span. -/
lemma View.exact_closed {file : Nat} {text rest : List Char} {ctx alone r : Reading}
    {rule : OpenRule} {outer : List OpenRule} (h : View file text ('}' :: rest) ctx alone r)
    (hdepth : r.opened.length = ctx.opened.length + 1)
    (hopened : r.finishText.opened = rule :: outer) (hsize : r.pos + 1 < Span.offsetBound) :
    Exact file text r.licences (r.pos + 1) (r.closed rule) := by
  have hpos := h.within.pos
  have hlength := h.within.opened_length
  have hstarts := finishText_starts alone
  obtain ⟨own, hown⟩ : ∃ own, alone.finishText.opened = [own] := by
    have hsame := finishText_opened_length alone
    exact List.length_eq_one_iff.1 (by omega)
  have hbegins : own.start = 0 := by
    have hbegins := h.sole.begins
    rwa [← hstarts, hown] at hbegins
  obtain ⟨rfl, -⟩ := (h.within.finishText h.nested (by omega)).pop hown hopened
  obtain ⟨front, seen, htext, hfront, hseen, hleads⟩ := h.read
  refine ⟨⟨r.file, ctx.pos, r.pos + 1⟩, seen ++ ['}'], alone.licences.reverse ++
    [alone.closed own], ?_, Nat.le_refl _, ?_, ?_, ?_⟩
  · show some (r.span (own.start + ctx.pos) (r.pos + 1)) = _
    rw [hbegins, Nat.zero_add, span_eq (by omega) hsize]
  · have hslice := slice?_append front (seen ++ ['}']) rest
    have hwidth : Text.byteLength ['}'] = 1 := by decide
    rw [byteLength_append, hfront, hseen, hwidth, show ctx.pos + (alone.pos + 1) = r.pos + 1 by
      omega] at hslice
    rw [htext]
    simpa using hslice
  · obtain ⟨r', hrun, hfinish⟩ := h.sole.run_closing hown
    rw [readStylesheet, String.toList_ofList, hleads ['}'] rfl, hrun]
    exact hfinish
  · have hlicences := filter_licences (s := ⟨r.file, ctx.pos, r.pos + 1⟩) h.nested.noted h.noted
      rfl (by simp only; omega)
    rw [h.within.licences, hlicences, Node.mapSpansAll_append, Node.mapSpansAll_reverse,
      ← h.within.mapSpans_closed h.nested hown hsize]
    rfl

/-! ## Every rule that is read -/

/-- Every depth has a view, and the rules finished so far have exact spans. -/
structure Tracked (file : Nat) (text rest : List Char) (r : Reading) : Prop where
  nested : r.Nested
  source : ∃ front, text = front ++ rest ∧ Text.byteLength front = r.pos
  views : ∀ depth ≤ r.opened.length, ∃ ctx alone,
    ctx.opened.length = depth ∧ View file text rest ctx alone r
  exact : r.Blocks (Exact file text r.licences r.pos)
  file : r.file = file

lemma Tracked.fresh (file : Nat) (text : List Char) : Tracked file text text { file } where
  nested := Nested.fresh file
  file := rfl
  source := ⟨[], rfl, rfl⟩
  views := by
    intro depth hdepth
    obtain rfl : depth = 0 := Nat.le_zero.1 hdepth
    exact ⟨_, _, rfl, View.here (Nested.fresh file) rfl [] text rfl⟩
  exact := nofun

/-- The views that a piece leaves unfinished were there before it, and a closing brace closes a rule
inside each. -/
lemma Effect.depth {r r' : Reading} {p : Piece} (h : Effect r p r') {depth : Nat}
    (hle : depth ≤ r'.opened.length) (htop : depth = r'.opened.length → r'.current ≠ []) :
    depth ≤ r.opened.length ∧ (p = .closing → depth < r.opened.length) := by
  cases h with
  | quiet hp hopened _ _ =>
      rw [hopened] at hle
      exact ⟨hle, fun hclosing => absurd hclosing hp⟩
  | leaf hp node _ hopened _ _ =>
      rw [hopened, attach_opened_length] at hle
      exact ⟨hle, fun hclosing => absurd hclosing hp⟩
  | opening rule _ _ hopened _ hcurrent =>
      have hlength := congrArg List.length hopened
      rw [List.length_cons] at hlength
      have hne : depth ≠ r'.opened.length := fun heq => htop heq hcurrent
      exact ⟨by omega, nofun⟩
  | @closing rule outer hopened =>
      have hinner := finishText_opened_length r
      rw [hopened, List.length_cons] at hinner
      simp only [Reading.advance, attach_opened_length] at hle
      exact ⟨by omega, fun _ => by omega⟩

/-- What one reader can read, another can, if it has a block to close. -/
lemma exists_push {r r' alone : Reading} {p : Piece} (hpush : r.push p = .ok r')
    (hopened : p = .closing → alone.opened ≠ []) : ∃ alone', alone.push p = .ok alone' := by
  cases p with
  | brokenString text => cases hpush
  | closing =>
      have hstarts := finishText_starts alone
      cases hrules : alone.finishText.opened with
      | nil =>
          rw [hrules, List.map_nil] at hstarts
          exact absurd (List.map_eq_nil_iff.1 hstarts.symm) (hopened rfl)
      | cons rule outer => exact ⟨_, push_closing_iff.2 ⟨rule, outer, hrules, rfl⟩⟩
  | _ => exact ⟨_, rfl⟩

/-- One piece more is tracked, and every block it closes is what its slice reads as. -/
lemma Tracked.push {file : Nat} {text rest rest' : List Char} {c : Char} {r r' : Reading}
    {p : Piece} (h : Tracked file text (c :: rest) r)
    (hnext : Piece.next r.current.isEmpty c rest = (p, rest')) (hpush : r.push p = .ok r')
    (hsize : r.pos + p.width < Span.offsetBound) : Tracked file text rest' r' := by
  obtain ⟨hsource, hwidth, hcustom⟩ := taken_of_push hnext hpush
  have hnested := h.nested.push hpush hsize hwidth hcustom
  have heffect := push_effect hpush hcustom
  obtain ⟨hfile, hpos, -⟩ := push_movesPast hpush
  have hread : ∃ front, text = front ++ rest' ∧ Text.byteLength front = r'.pos := by
    obtain ⟨front, htext, hfront⟩ := h.source
    refine ⟨front ++ p.source, ?_, ?_⟩
    · rw [htext, ← hsource, List.append_assoc]
    · rw [byteLength_append, hfront, hpos]
      rfl
  refine ⟨hnested, hread, ?_, ?_, hfile.trans h.file⟩
  · intro depth hdepth
    by_cases htop : depth = r'.opened.length ∧ r'.current = []
    · obtain ⟨front, rfl, hfront⟩ := hread
      have hview := View.here hnested htop.2 front rest' hfront
      rw [hfile, h.file] at hview
      exact ⟨r', { file }, htop.1.symm, hview⟩
    · have hbusy : depth = r'.opened.length → r'.current ≠ [] := by
        intro heq hnil
        exact htop ⟨heq, hnil⟩
      obtain ⟨hle, hclosing⟩ := heffect.depth hdepth hbusy
      obtain ⟨ctx, alone, hctx, hview⟩ := h.views depth hle
      have hlength := hview.within.opened_length
      obtain ⟨alone', halone⟩ : ∃ alone', alone.push p = .ok alone' := by
        refine exists_push hpush fun hp hnil => ?_
        have hlt := hclosing hp
        rw [hnil, List.length_nil] at hlength
        omega
      exact ⟨ctx, alone', hctx, hview.push hnext halone hpush hsize fun heq =>
        hbusy (by omega)⟩
  · have hexact : r.Blocks (Exact file text r'.licences r'.pos) :=
      h.exact.imp fun node hnode => hnode.push hpush hsize hwidth
    refine hexact.effect heffect ?_
    rintro rfl rule outer hopened
    -- A closing brace is one character, and it notes no licence.
    obtain ⟨rfl, rfl⟩ : '}' = c ∧ rest' = rest := by simpa [Piece.source] using hsource
    have hlicences : r'.licences = r.licences := by
      obtain ⟨rule, outer, -, rfl⟩ := push_closing_iff.1 hpush
      simp [Reading.advance]
    have hlength := finishText_opened_length r
    rw [hopened, List.length_cons] at hlength
    obtain ⟨ctx, alone, hctx, hview⟩ := h.views outer.length (by omega)
    rw [hlicences, hpos]
    exact hview.exact_closed (by omega) hopened hsize

/-- All pieces up to the end of the text are tracked. -/
lemma Tracked.run {file : Nat} {text rest : List Char} {r r' : Reading}
    (h : Tracked file text rest r) (hsize : r.pos + Text.byteLength rest < Span.offsetBound)
    (hrun : r.run rest = .ok r') : Tracked file text [] r' := by
  fun_induction Reading.run r rest with
  | case1 r =>
      obtain rfl := Except.ok.inj hrun
      exact h
  | case2 r c rest step e herror => cases hrun
  | case3 r c rest step next hok ih =>
      have hnext : Piece.next r.current.isEmpty c rest = (step.1, step.2) := rfl
      have hlength := (taken_of_push hnext hok).length
      have hpos := (push_movesPast hok).pos
      exact ih (h.push hnext hok (by omega)) (by omega) hrun

end Reading

lemma Noted.everyBlock {file hi : Nat} {licences : List Node} (h : Noted file hi licences)
    {P : Node → Prop} : ∀ node ∈ licences, node.EveryBlock P := by
  intro node hnode
  obtain ⟨text, s, rfl, -⟩ := h.of_mem hnode
  exact .comment text (some s)

/-- A tree is a node of itself. -/
lemma Node.mem_visits_self (depth : Nat) (node : Node) : (depth, node) ∈ node.visits depth := by
  cases node <;> simp [Node.visits]

/-- A row of other nodes has no comments in it. -/
lemma LaidOut.filter_isCommentIn {file lo hi : Nat} {nodes : List Node}
    (h : LaidOut file lo hi nodes) (s : Span) : nodes.filter (Node.isCommentIn s) = [] := by
  rw [List.filter_eq_nil_iff]
  intro node hnode
  have hvisit := Node.mem_visitsAll.2 ⟨node, hnode, Node.mem_visits_self 0 node⟩
  have hcomment := (h.fits 0 _ hvisit).2
  cases node with
  | comment text span => cases hcomment
  | rule => simp [Node.isCommentIn]
  | declaration => simp [Node.isCommentIn]

/-- In a source shorter than `Span.offsetBound` the bytes under the span of any block rule, read by
themselves, are the licence comments inside the rule and then the rule, each span moved back by
where the rule began and none of them cut off at the beginning. -/
theorem readStylesheet_slice {file : Nat} {text : String} {nodes : List Node}
    (hsize : text.utf8ByteSize < Span.offsetBound) (hread : readStylesheet file text = .ok nodes)
    {depth : Nat} {selector : String} {children : List Node} {span : Option Span}
    (hrule : (depth, Node.rule selector children true span) ∈ Node.visitsAll 0 nodes) :
    ∃ s slice alone, span = some s ∧ Text.slice? s.start s.stop text.toList = some slice ∧
      readStylesheet file (String.ofList slice) = .ok alone ∧
      alone = Node.mapSpansAll (Span.back s.start)
        (nodes.filter (Node.isCommentIn s) ++ [.rule selector children true span]) ∧
      Node.mapSpansAll (Span.forward s.start) alone =
        nodes.filter (Node.isCommentIn s) ++ [.rule selector children true span] := by
  obtain ⟨r, hrun, hopened, rfl⟩ := exists_run_of_readStylesheet hread
  have htracked := (Reading.Tracked.fresh file text.toList).run
    (by simpa [byteLength_toList] using hsize) hrun
  have hlaid : LaidOut r.file 0 r.edge r.finished.reverse := by
    simpa [hopened, Reading.Stacked] using htracked.nested.stacked
  have hblocks : ∀ node ∈ r.licences.reverse ++ r.finished.reverse,
      node.EveryBlock (Reading.Exact file text.toList r.licences r.pos) := by
    intro node hnode
    rcases List.mem_append.1 hnode with hnode | hnode
    · exact htracked.nested.noted.everyBlock node (List.mem_reverse.1 hnode)
    · exact htracked.exact node (by simpa [Reading.built, hopened] using hnode)
  obtain ⟨node, hnode, hvisit⟩ := Node.mem_visitsAll.1 hrule
  obtain ⟨s, slice, alone, hspan, -, hslice, halone, hmoved⟩ :=
    hblocks node hnode 0 _ hvisit selector children span rfl
  have hfilter : (r.licences.reverse ++ r.finished.reverse).filter (Node.isCommentIn s) =
      (r.licences.filter (Node.isCommentIn s)).reverse := by
    rw [List.filter_append, hlaid.filter_isCommentIn, List.append_nil, List.filter_reverse]
  rw [← hfilter] at hmoved
  refine ⟨s, slice, alone, hspan, hslice, halone, ?_, hmoved⟩
  rw [← hmoved, Node.mapSpansAll_mapSpansAll (Span.back_forward s.start)]

namespace Sample

/-- A rule in a rule, with licences in front of it, in its head and behind it, and a brace in a
string. -/
def noted : String := "/*!l*/.é\x7b.c/*!m*/\x7bd:\"\x7d\"\x7d/*!n*/\x7d"

def inner : Node :=
  .rule ".c" [.declaration "d" "\"\x7d\"" false (some ⟨1, 19, 24⟩)] true (some ⟨1, 10, 25⟩)

/-- What is read of that text. -/
def notedForest : List Node :=
  [.comment "!l" (some ⟨1, 0, 6⟩), .comment "!m" (some ⟨1, 12, 18⟩),
    .comment "!n" (some ⟨1, 25, 31⟩), .rule ".é" [inner] true (some ⟨1, 6, 32⟩)]

end Sample

theorem readStylesheet_slice_inner :
    Sample.noted.utf8ByteSize < Span.offsetBound ∧
      readStylesheet 1 Sample.noted = .ok Sample.notedForest ∧
      (1, Sample.inner) ∈ Node.visitsAll 0 Sample.notedForest ∧
      ∃ slice, Text.slice? 10 25 Sample.noted.toList = some slice ∧
        readStylesheet 1 (String.ofList slice) =
          .ok [.comment "!m" (some ⟨1, 2, 8⟩),
            .rule ".c" [.declaration "d" "\"\x7d\"" false (some ⟨1, 9, 14⟩)] true
              (some ⟨1, 0, 15⟩)] := by
  have hsize : Sample.noted.utf8ByteSize < Span.offsetBound := by decide
  have hread : readStylesheet 1 Sample.noted = .ok Sample.notedForest := by
    with_unfolding_all rfl
  have hrule : (1, Sample.inner) ∈ Node.visitsAll 0 Sample.notedForest := by
    simp [Sample.notedForest, Sample.inner, Node.visitsAll, Node.visits]
  obtain ⟨s, slice, alone, hspan, hslice, halone, hback, -⟩ :=
    readStylesheet_slice hsize hread hrule
  obtain rfl := Option.some.inj hspan
  refine ⟨hsize, hread, hrule, slice, hslice, ?_⟩
  rw [halone, hback]
  rfl

end UtilityCss
