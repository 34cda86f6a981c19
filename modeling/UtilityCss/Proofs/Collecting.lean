import UtilityCss.Proofs.Tokens

/-!
# Collecting the text of a node, character by character

The reader takes the text of a node off piece by piece, and a literal or an escape is one piece.  To
tell what happens if a blank is taken out of the middle of such a text, it has to be followed one
character at a time.

* **Modes** — `walk` goes over a text with a `Mode` that tells whether a character is hidden by a
  backslash or stands in a literal.  It gives up where the reader would do anything but collect: at
  the end of a node, at a comment, at a custom property and where a literal is cut off.
* **Pieces** — `collects_of_walk`: where `walk` comes through in text mode, the reader collects.
  `reached_of_owes`: in front of the end of a line, a text that tells as much as it weighs is walked over
  to its end, or up to an earlier end of the node, or the end is hidden by a backslash.
* **Ink** — `walk` keeps every character that is not blank: `ink_of_walk`.
-/

namespace UtilityCss

/-! ## Modes -/

/-- What a character stands in. -/
inductive Mode where
  | text
  /-- Behind a backslash. -/
  | escape
  | literal (quote : Char)
  /-- Behind a backslash in a literal. -/
  | hidden (quote : Char)
  deriving DecidableEq

namespace Mode

/-- The mode behind a character, given the character that follows.  A custom property would begin
only if no text was collected, which `fresh` tells. -/
def step (fresh : Bool) (c : Char) (next : Option Char) : Mode → Option Mode
  | .text =>
    if c = '\\' then some .escape
    else if c = '/' && next == some '*' then none
    else if c = '"' || c = '\'' then some (.literal c)
    else if c = '-' && next == some '-' && fresh then none
    else if c = ';' || c = '{' || c = '}' then none
    else some .text
  | .escape => some .text
  | .literal quote =>
    if c = '\\' then some (.hidden quote)
    else if c = quote then some .text
    else if c = ';' && next == some '\n' then none
    else if c = '\n' then none
    else some (.literal quote)
  | .hidden quote => some (.literal quote)

/-- The text collected behind a character, back to front. -/
def keep (current : List Char) (c : Char) (next : Option Char) : Mode → List Char
  | .text =>
    if isGap c && next.any isGap then current
    else if c = '\n' then Piece.joinLine current
    else if current.isEmpty && isGap c then current
    else c :: current
  | _ => c :: current

/-- Whether the next character is hidden. -/
def hides : Mode → Bool
  | .escape => true
  | .hidden _ => true
  | _ => false

/-- Literals stand between quotes. -/
def Quoted : Mode → Prop
  | .literal quote => quote = '"' ∨ quote = '\''
  | .hidden quote => quote = '"' ∨ quote = '\''
  | _ => True

/-- A step leads into a literal at a quote only. -/
lemma Quoted.step {mode mode' : Mode} (h : mode.Quoted) {fresh : Bool} {c : Char}
    {next : Option Char} (hstep : mode.step fresh c next = some mode') : mode'.Quoted := by
  cases mode with
  | text =>
      rw [Mode.step] at hstep
      split_ifs at hstep with _ _ hquote
      · obtain rfl := Option.some.inj hstep
        trivial
      · obtain rfl := Option.some.inj hstep
        simpa [Quoted] using hquote
      · obtain rfl := Option.some.inj hstep
        trivial
  | escape =>
      obtain rfl := Option.some.inj hstep
      trivial
  | literal quote =>
      rw [Mode.step] at hstep
      split_ifs at hstep
      · obtain rfl := Option.some.inj hstep
        exact h
      · obtain rfl := Option.some.inj hstep
        trivial
      · obtain rfl := Option.some.inj hstep
        exact h
  | hidden quote =>
      obtain rfl := Option.some.inj hstep
      exact h

/-- A backslash hides what follows, unless it is hidden itself. -/
lemma hides_of_step {mode mode' : Mode} {fresh : Bool} {c : Char} {next : Option Char}
    (hstep : mode.step fresh c next = some mode') :
    mode'.hides = (c == '\\' && !mode.hides) := by
  cases mode with
  | text =>
      rw [Mode.step] at hstep
      split_ifs at hstep with hesc <;> obtain rfl := Option.some.inj hstep <;> simp [hides, hesc]
  | escape =>
      obtain rfl := Option.some.inj hstep
      simp [hides]
  | literal quote =>
      rw [Mode.step] at hstep
      split_ifs at hstep with hesc <;> obtain rfl := Option.some.inj hstep <;> simp [hides, hesc]
  | hidden quote =>
      obtain rfl := Option.some.inj hstep
      simp [hides]

lemma keep_of_not_gap {current : List Char} {c : Char} {next : Option Char} (h : isGap c = false)
    (mode : Mode) : mode.keep current c next = c :: current := by
  have hline : c ≠ '\n' := by
    rintro rfl
    exact absurd h (by decide)
  cases mode with
  | text => simp [keep, h, hline]
  | _ => rfl

lemma keep_backslash {current : List Char} {next : Option Char} (mode : Mode) :
    mode.keep current '\\' next = '\\' :: current :=
  keep_of_not_gap (by decide) mode

end Mode

/-- Goes over a text, given the character that follows it. -/
def walk (mode : Mode) (current : List Char) : List Char → Option Char → Option (Mode × List Char)
  | [], _ => some (mode, current)
  | c :: cs, next =>
    (mode.step current.isEmpty c (cs.head?.or next)).bind fun mode' =>
      walk mode' (mode.keep current c (cs.head?.or next)) cs next

/-- One step of a walk. -/
lemma walk_cons {mode mode' : Mode} {current : List Char} {c : Char} {cs : List Char}
    {next : Option Char} (h : mode.step current.isEmpty c (cs.head?.or next) = some mode') :
    walk mode current (c :: cs) next
      = walk mode' (mode.keep current c (cs.head?.or next)) cs next := by
  rw [walk, h]
  rfl

lemma walk_cons_eq_some {mode : Mode} {current : List Char} {c : Char} {cs : List Char}
    {next : Option Char} {s : Mode × List Char} (h : walk mode current (c :: cs) next = some s) :
    ∃ mode', mode.step current.isEmpty c (cs.head?.or next) = some mode' ∧
      walk mode' (mode.keep current c (cs.head?.or next)) cs next = some s :=
  Option.bind_eq_some_iff.1 h

/-- A text can be walked a part at a time, given what follows the first part. -/
lemma walk_append (mode : Mode) (current a b : List Char) (next : Option Char) :
    walk mode current (a ++ b) next
      = (walk mode current a (b.head?.or next)).bind fun s => walk s.1 s.2 b next := by
  induction a generalizing mode current with
  | nil => rfl
  | cons c a ih =>
      rw [List.cons_append, walk, walk, List.head?_append, Option.or_assoc, Option.bind_assoc]
      exact Option.bind_congr fun mode' _ => ih mode' _

/-- The second part is walked from where the first one leads. -/
lemma walk_append_of_eq_some {mode mode' : Mode} {current current' a b : List Char}
    {next : Option Char} (h : walk mode current a (b.head?.or next) = some (mode', current')) :
    walk mode current (a ++ b) next = walk mode' current' b next := by
  rw [walk_append, h]
  rfl

/-- A walk over two parts leads over both. -/
lemma walk_append_eq_some {mode : Mode} {current a b : List Char} {next : Option Char}
    {s : Mode × List Char} (h : walk mode current (a ++ b) next = some s) :
    ∃ mode' current', walk mode current a (b.head?.or next) = some (mode', current') ∧
      walk mode' current' b next = some s := by
  rw [walk_append] at h
  obtain ⟨⟨mode', current'⟩, hfront, hback⟩ := Option.bind_eq_some_iff.1 h
  exact ⟨mode', current', hfront, hback⟩

/-! ## Literals -/

/-- One character of a literal that is no backslash. -/
lemma stringBody_cons {quote c : Char} (hesc : c ≠ '\\') (rest : List Char) :
    stringBody quote (c :: rest) =
      if c = quote then .closed [] rest
      else if c = ';' && rest.head? == some '\n' then .cutOff [';']
      else if c = '\n' then .cutOff []
      else (stringBody quote rest).cons [c] := by
  rw [stringBody.eq_3]
  exact fun _ _ hc _ => hesc hc

/-- A literal that was closed is walked over to its quote, whatever follows. -/
lemma walk_of_stringBody {quote : Char} (hquote : quote ≠ '\\') {cs text rest : List Char}
    (h : stringBody quote cs = .closed text rest) (current more : List Char)
    (next : Option Char) : walk (.literal quote) current (text ++ quote :: more) next
      = walk .text (quote :: (text.reverse ++ current)) more next := by
  fun_induction stringBody quote cs generalizing text rest current with
  | case1 => cases h
  | case2 c cs ih =>
      obtain ⟨back, hback, rfl⟩ := StringEnd.cons_eq_closed h
      have hmore := ih hback (c :: '\\' :: current)
      show walk (.literal quote) current ('\\' :: c :: (back ++ quote :: more)) next = _
      have hslash : ∀ fresh next, (Mode.literal quote).step fresh '\\' next = some (.hidden quote) :=
        fun _ _ => rfl
      have hskip : ∀ fresh next, (Mode.hidden quote).step fresh c next = some (.literal quote) :=
        fun _ _ => rfl
      rw [walk_cons (hslash _ _), walk_cons (hskip _ _)]
      simpa [Mode.keep] using hmore
  | case3 cs =>
      obtain ⟨rfl, rfl⟩ := StringEnd.closed.inj h
      have hend : ∀ fresh next, (Mode.literal quote).step fresh quote next = some .text := by
        simp [Mode.step, hquote]
      rw [List.nil_append, walk_cons (hend _ _)]
      rfl
  | case4 c cs hne hcut => cases h
  | case5 cs => cases h
  | case6 c cs hesc hne hcut hline ih =>
      obtain ⟨back, hback, rfl⟩ := StringEnd.cons_eq_closed h
      have hsource := stringBody_source hback
      have hslash : c ≠ '\\' := by
        rintro rfl
        cases hcs : cs with
        | nil => simp [← hsource] at hcs
        | cons d ds => exact hesc d ds rfl hcs
      have hhead : (back ++ quote :: more).head? = cs.head? := by
        rw [← hsource]
        cases back <;> rfl
      have hmore := ih hback (c :: current)
      have hstep : (Mode.literal quote).step current.isEmpty c
          ((back ++ quote :: more).head?.or next) = some (.literal quote) := by
        have hsome : (cs.head?.or next) = cs.head? := by
          cases hcs : cs with
          | nil => simp [← hsource] at hcs
          | cons d ds => rfl
        rw [hhead, hsome, Mode.step, if_neg hslash, if_neg hne, if_neg hcut, if_neg hline]
      rw [List.cons_append, List.nil_append, List.cons_append, walk_cons hstep]
      simpa [Mode.keep] using hmore

/-- A walk that comes out of a literal has found its quote, and so does the reader. -/
lemma stringBody_of_walk {quote : Char} (cs : List Char)
    {current current' : List Char} {next : Option Char}
    (h : walk (.literal quote) current cs next = some (.text, current')) :
    ∃ text rest, cs = text ++ quote :: rest ∧
      (∀ tail : List Char, tail.head? = next →
        stringBody quote (cs ++ tail) = .closed text (rest ++ tail)) ∧
      walk .text (quote :: (text.reverse ++ current)) rest next = some (.text, current') := by
  induction hn : cs.length using Nat.strong_induction_on generalizing cs current with
  | _ n ih =>
      cases cs with
      | nil => cases h
      | cons c cs =>
          obtain ⟨mode', hstep, hwalk⟩ := walk_cons_eq_some h
          rw [Mode.step] at hstep
          by_cases hslash : c = '\\'
          · rw [if_pos hslash] at hstep
            obtain rfl := Option.some.inj hstep
            cases cs with
            | nil => cases hwalk
            | cons d cs =>
                obtain ⟨mode', hstep', hwalk'⟩ := walk_cons_eq_some hwalk
                obtain rfl := Option.some.inj hstep'
                obtain ⟨text, rest, rfl, hbody, hrest⟩ :=
                  ih cs.length (by simp only [← hn, List.length_cons]; omega) cs hwalk' rfl
                refine ⟨c :: d :: text, rest, rfl, fun tail htail => ?_, ?_⟩
                · rw [hslash, List.cons_append, List.cons_append, stringBody, hbody tail htail]
                  rfl
                · simpa [Mode.keep] using hrest
          · rw [if_neg hslash] at hstep
            split_ifs at hstep with hend hcut hline
            · obtain rfl := Option.some.inj hstep
              refine ⟨[], cs, by rw [hend]; rfl, fun tail _ => ?_, ?_⟩
              · rw [List.cons_append, stringBody_cons hslash, if_pos hend]
              · simpa [Mode.keep, hend] using hwalk
            · obtain rfl := Option.some.inj hstep
              obtain ⟨text, rest, rfl, hbody, hrest⟩ := ih cs.length (by simp [← hn]) cs hwalk rfl
              refine ⟨c :: text, rest, rfl, fun tail htail => ?_, by simpa [Mode.keep] using hrest⟩
              have hcut' : ¬ (c = ';' &&
                  ((text ++ quote :: rest) ++ tail).head? == some '\n') = true := by
                rw [List.head?_append, htail]
                exact hcut
              rw [List.cons_append, stringBody_cons hslash, if_neg hend, if_neg hcut', if_neg hline,
                hbody tail htail]
              rfl

/-- A literal in a closed text does not go over the end of a line that no backslash hides. -/
lemma length_le_of_stringBody {quote : Char} (hquote : quote ≠ '\n') {cs text rest : List Char}
    (h : stringBody quote cs = .closed text rest) {front back : List Char} {c : Char}
    (hc : c ≠ '\\') (hcs : cs = front ++ c :: '\n' :: back) : text.length ≤ front.length := by
  have hline : ∀ more text rest, stringBody quote ('\n' :: more) ≠ .closed text rest := by
    intro more text rest hclosed
    rw [stringBody_cons (by decide), if_neg (Ne.symm hquote)] at hclosed
    simp at hclosed
  fun_induction stringBody quote cs generalizing text front with
  | case1 => cases h
  | case2 d cs ih =>
      obtain ⟨text', htext, rfl⟩ := StringEnd.cons_eq_closed h
      cases front with
      | nil => exact absurd (List.cons.inj hcs).1.symm hc
      | cons hidden front =>
          obtain ⟨-, hcs⟩ := List.cons.inj hcs
          cases front with
          | nil =>
              obtain ⟨-, rfl⟩ := List.cons.inj hcs
              exact absurd htext (hline _ _ _)
          | cons d front =>
              have := ih htext (List.cons.inj hcs).2
              simp only [List.length_append, List.length_cons, List.length_nil]
              omega
  | case3 cs =>
      obtain ⟨rfl, -⟩ := StringEnd.closed.inj h
      exact Nat.zero_le _
  | case4 d cs hne hcut => cases h
  | case5 cs => cases h
  | case6 d cs hesc hne hcut hnl ih =>
      obtain ⟨text', htext, rfl⟩ := StringEnd.cons_eq_closed h
      cases front with
      | nil =>
          obtain ⟨-, rfl⟩ := List.cons.inj hcs
          exact absurd htext (hline _ _ _)
      | cons d front =>
          have := ih htext (List.cons.inj hcs).2
          simp only [List.length_append, List.length_cons, List.length_nil]
          omega

/-! ## Pieces -/

/-- The piece only adds to the text that is collected. -/
def Piece.Collected : Piece → Prop
  | .verbatim _ => True
  | .gap _ => True
  | .newline => True
  | .plain _ => True
  | _ => False

/-- Reading comes from one text to the other, and only collects on the way. -/
inductive Collects : (current cs current' cs' : List Char) → Prop
  | refl {current cs : List Char} : Collects current cs current cs
  | piece {current current' rest rest' cs' : List Char} {c : Char} {p : Piece}
      (hnext : Piece.next current.isEmpty c rest = (p, rest')) (hp : p.Collected)
      (hrest : Collects (p.kept current) rest' current' cs') : Collects current (c :: rest) current' cs'

/-- A piece that is only collected yields no token, so what is owed stays owed. -/
lemma Owes.of_collected {current rest rest' : List Char} {c : Char} {p : Piece}
    {tokens : List Token} (h : Owes current (c :: rest) tokens)
    (hnext : Piece.next current.isEmpty c rest = (p, rest')) (hp : p.Collected) :
    Owes (p.kept current) rest' tokens := by
  obtain ⟨-, -, -, -, later, htokens, hlater⟩ := h.inv hnext
  have htold : p.told current = [] := by
    cases p with
    | verbatim | gap | newline | plain => rfl
    | _ => exact hp.elim
  rw [htold, List.nil_append] at htokens
  rwa [htokens]

namespace Collects
variable {current cs current' cs' : List Char}

lemma owes (h : Collects current cs current' cs') {tokens : List Token}
    (howes : Owes current cs tokens) : Owes current' cs' tokens := by
  induction h with
  | refl => exact howes
  | piece hnext hp _ ih => exact ih (howes.of_collected hnext hp)

lemma leads (h : Collects current cs current' cs') {o : Outline} (ho : o.current = current) :
    Leads o cs { o with current := current' } cs' := by
  induction h generalizing o with
  | refl =>
      subst ho
      exact Leads.refl o _
  | @piece current current' rest rest' cs' c p hnext hp _ ih =>
      subst ho
      suffices hpiece : Leads o (c :: rest) { o with current := p.kept o.current } rest' from
        hpiece.trans (ih rfl)
      refine Leads.of_push hnext fun r hr => ?_
      subst hr
      cases p with
      | verbatim text => exact ⟨_, rfl, rfl⟩
      | gap c => exact ⟨_, rfl, rfl⟩
      | newline =>
          refine ⟨_, rfl, ?_⟩
          rw [Reading.outline_advance, Reading.pushNewline, Reading.outline_current, Piece.kept]
          cases hcurrent : r.current with
          | nil => simp [Piece.joinLine, Reading.outline, hcurrent]
          | cons last before =>
              cases hgap : isGap last <;> simp [Piece.joinLine, Reading.outline, hcurrent, hgap]
      | plain c =>
          refine ⟨_, rfl, ?_⟩
          rw [Reading.outline_advance, Reading.pushPlain, Reading.outline_current, Piece.kept]
          split_ifs <;> rfl
      | _ => exact hp.elim

end Collects

/-- A character that leaves the text in text mode is a piece by itself. -/
lemma next_of_step {current : List Char} {c : Char} {rest : List Char} (hesc : c ≠ '\\')
    (h : Mode.text.step current.isEmpty c rest.head? = some .text) :
    ∃ p, Piece.next current.isEmpty c rest = (p, rest) ∧ p.Collected ∧
      p.kept current = Mode.text.keep current c rest.head? := by
  rw [Mode.step, if_neg hesc] at h
  split_ifs at h with hcomment hquote hcustom hend
  · cases h
  simp only [Bool.or_eq_true, decide_eq_true_eq, not_or] at hend
  rw [Piece.next, if_neg hesc, if_neg hcomment, if_neg hquote]
  by_cases hgap : (isGap c && rest.head?.any isGap) = true
  · rw [if_pos hgap]
    exact ⟨.gap c, rfl, trivial, by rw [Mode.keep, if_pos hgap]; rfl⟩
  · rw [if_neg hgap]
    by_cases hline : c = '\n'
    · rw [if_pos hline]
      exact ⟨.newline, rfl, trivial, by rw [Mode.keep, if_neg hgap, if_pos hline]; rfl⟩
    · rw [if_neg hline, if_neg hcustom, if_neg hend.1.1, if_neg hend.1.2, if_neg hend.2]
      exact ⟨.plain c, rfl, trivial, by rw [Mode.keep, if_neg hgap, if_neg hline]; rfl⟩

/-- Where the walk comes through in text mode, the reader collects. -/
lemma collects_of_walk (cs tail : List Char) {current current' : List Char}
    (h : walk .text current cs tail.head? = some (.text, current')) :
    Collects current (cs ++ tail) current' tail := by
  induction hn : cs.length using Nat.strong_induction_on generalizing cs current with
  | _ n ih =>
      cases cs with
      | nil =>
          obtain ⟨-, rfl⟩ := Prod.mk.inj (Option.some.inj h)
          exact .refl
      | cons c cs =>
          obtain ⟨mode', hstep, hwalk⟩ := walk_cons_eq_some h
          rw [← List.head?_append] at hstep hwalk
          by_cases hesc : c = '\\'
          · subst hesc
            obtain rfl := Option.some.inj hstep
            cases cs with
            | nil => cases hwalk
            | cons d cs =>
                obtain ⟨mode', hstep', hwalk'⟩ := walk_cons_eq_some hwalk
                obtain rfl := Option.some.inj hstep'
                refine .piece (p := .verbatim ['\\', d]) rfl trivial ?_
                rw [Mode.keep_backslash] at hwalk'
                exact ih cs.length (by simp only [← hn, List.length_cons]; omega) cs hwalk' rfl
          · have hkeep := hstep
            rw [Mode.step, if_neg hesc] at hstep
            split_ifs at hstep with hcomment hquote hcustom hend
            · obtain rfl := Option.some.inj hstep
              have hgap : isGap c = false := by
                rcases (by simpa using hquote : c = '"' ∨ c = '\'') with rfl | rfl <;> decide
              rw [Mode.keep_of_not_gap hgap] at hwalk
              obtain ⟨text, rest, rfl, hbody, hrest⟩ := stringBody_of_walk cs hwalk
              have hnext : Piece.next current.isEmpty c ((text ++ c :: rest) ++ tail)
                  = (.verbatim (c :: (text ++ [c])), rest ++ tail) := by
                rw [Piece.next, if_neg hesc, if_neg hcomment, if_pos hquote, hbody tail rfl]
                rfl
              refine .piece hnext trivial ?_
              have hshorter : rest.length < n := by
                simp only [← hn, List.length_cons, List.length_append]
                omega
              simpa [Piece.kept] using ih rest.length hshorter rest hrest rfl
            · obtain rfl := Option.some.inj hstep
              obtain ⟨p, hnext, hp, hkept⟩ := next_of_step hesc hkeep
              refine .piece hnext hp ?_
              rw [hkept]
              exact ih cs.length (by simp [← hn]) cs hwalk rfl

/-! ## How far a text is collected -/

/-- How far a text in front of the character `stop` is collected: to its end, up to a character
inside it that ends a node, or to a backslash that hides `stop`. -/
inductive Reached (current cs : List Char) (stop : Char) : Prop
  | whole {current' : List Char} (h : walk .text current cs (some stop) = some (.text, current'))
  | cut {front back current' : List Char} {c : Char} (hcs : cs = front ++ c :: back)
      (hc : c = ';' ∨ c = '{' ∨ c = '}')
      (h : walk .text current front (some c) = some (.text, current'))
  | hidden {front current' : List Char} (hcs : cs = front ++ ['\\'])
      (h : walk .text current front (some '\\') = some (.text, current'))

/-- A front that is collected whatever follows, or at least in front of this text. -/
lemma Reached.append {current current' cs : List Char} (front : List Char) {stop : Char}
    (hfront : ∀ more next, more.head?.or next = cs.head?.or (some stop) →
      walk .text current (front ++ more) next = walk .text current' more next)
    (h : Reached current' cs stop) : Reached current (front ++ cs) stop := by
  cases h with
  | whole h => exact .whole ((hfront cs _ rfl).trans h)
  | @cut front' back _ c hcs hc h =>
      refine .cut (by rw [hcs, List.append_assoc]) hc ((hfront front' _ ?_).trans h)
      rw [hcs]
      cases front' <;> rfl
  | @hidden front' _ hcs h =>
      refine .hidden (by rw [hcs, List.append_assoc]) ((hfront front' _ ?_).trans h)
      rw [hcs]
      cases front' <;> rfl

/-- What has begun is not forgotten. -/
lemma keep_ne_nil {current : List Char} {c : Char} {cs : List Char}
    (hstart : current = [] → Begins (c :: cs)) (mode : Mode) (next : Option Char) :
    mode.keep current c next ≠ [] := by
  by_cases hgap : isGap c = true
  · have hne : current ≠ [] := by
      intro hnil
      have := (hstart hnil).1 c rfl
      rw [hgap] at this
      cases this
    cases mode with
    | text =>
        rw [Mode.keep]
        split_ifs
        · exact hne
        · cases current with
          | nil => exact absurd rfl hne
          | cons last before =>
              rw [Piece.joinLine]
              split_ifs <;> exact List.cons_ne_nil _ _
        · exact hne
        · exact List.cons_ne_nil _ _
    | _ => exact List.cons_ne_nil _ _
  · rw [Mode.keep_of_not_gap (by simpa using hgap)]
    exact List.cons_ne_nil _ _

/-- A front of a text ends in front of a mark in it, or earlier, or goes on behind the mark. -/
lemma append_eq_append_cons {α : Type} {a b c d : List α} {x : α} (h : a ++ b = c ++ x :: d) :
    (a = c ∧ b = x :: d) ∨ (∃ y more, c = a ++ y :: more ∧ b = y :: (more ++ x :: d)) ∨
      ∃ more, a = c ++ x :: more := by
  rcases List.append_eq_append_iff.1 h with ⟨more, hc, hb⟩ | ⟨more, ha, hd⟩
  · cases more with
    | nil => exact Or.inl ⟨by simpa using hc.symm, hb⟩
    | cons y more => exact Or.inr (Or.inl ⟨y, more, hc, hb⟩)
  · cases more with
    | nil => exact Or.inl ⟨by simpa using ha, hd.symm⟩
    | cons y more =>
        obtain ⟨rfl, -⟩ := List.cons.inj hd
        exact Or.inr (Or.inr ⟨more, ha⟩)

/-- A literal that begins in a line is closed in front of its end. -/
lemma exists_of_stringBody_line {quote : Char} (hquote : quote = '"' ∨ quote = '\'')
    {cs rest text back : List Char} {stop : Char} (hstop : stop = ';' ∨ stop = '{')
    (h : stringBody quote (cs ++ stop :: '\n' :: rest) = .closed text back) :
    ∃ more, cs = text ++ quote :: more ∧ back = more ++ stop :: '\n' :: rest := by
  have hne : quote ≠ stop := by
    rcases hstop with rfl | rfl <;> rcases hquote with rfl | rfl <;> decide
  have hline : quote ≠ '\n' := by rcases hquote with rfl | rfl <;> decide
  have hesc : stop ≠ '\\' := by rcases hstop with rfl | rfl <;> decide
  have hle := length_le_of_stringBody hline h hesc rfl
  obtain ⟨-, hback⟩ | ⟨d, more, hcs, hback⟩ | ⟨more, htext⟩ :=
    append_eq_append_cons (stringBody_source h)
  · exact absurd (List.cons.inj hback).1 hne
  · obtain ⟨rfl, rfl⟩ := List.cons.inj hback
    exact ⟨more, hcs, rfl⟩
  · rw [htext, List.length_append, List.length_cons] at hle
    omega

/-- A literal is reached through as a whole. -/
lemma Reached.literal {quote : Char} (hquote : quote = '"' ∨ quote = '\'')
    {current cs text rest more : List Char} (hbody : stringBody quote cs = .closed text rest)
    {stop : Char} (h : Reached (quote :: (text.reverse ++ quote :: current)) more stop) :
    Reached current (quote :: (text ++ quote :: more)) stop := by
  have hesc : quote ≠ '\\' := by rcases hquote with rfl | rfl <;> decide
  have hgap : isGap quote = false := by rcases hquote with rfl | rfl <;> decide
  have hstep : ∀ fresh next, Mode.text.step fresh quote next = some (.literal quote) := by
    intro fresh next
    rcases hquote with rfl | rfl <;> simp [Mode.step]
  have hfront : quote :: (text ++ quote :: more) = (quote :: (text ++ [quote])) ++ more := by simp
  rw [hfront]
  refine Reached.append _ (fun more' next _ => ?_) h
  rw [show (quote :: (text ++ [quote])) ++ more' = quote :: (text ++ quote :: more') by simp,
    walk_cons (hstep _ _), Mode.keep_of_not_gap hgap, walk_of_stringBody hesc hbody]

/-- An escaped character is reached through with its backslash. -/
lemma Reached.escaped {current cs : List Char} {d stop : Char}
    (h : Reached (d :: '\\' :: current) cs stop) : Reached current ('\\' :: d :: cs) stop := by
  refine Reached.append ['\\', d] (fun more next _ => ?_) h
  show walk .text current ('\\' :: d :: more) next = _
  have hslash : ∀ fresh next, Mode.text.step fresh '\\' next = some .escape := fun _ _ => rfl
  have hskip : ∀ fresh next, Mode.escape.step fresh d next = some .text := fun _ _ => rfl
  rw [walk_cons (hslash _ _), walk_cons (hskip _ _), Mode.keep_backslash]
  rfl

/-- Any other character is reached through if it stays in plain text. -/
lemma Reached.kept {current cs : List Char} {c stop : Char}
    (hstep : Mode.text.step current.isEmpty c (cs.head?.or (some stop)) = some .text)
    (h : Reached (Mode.text.keep current c (cs.head?.or (some stop))) cs stop) :
    Reached current (c :: cs) stop := by
  refine Reached.append [c] (fun more next hhead => ?_) h
  rw [← hhead] at hstep ⊢
  exact walk_cons hstep

/-- A comment has weight and tells nothing, so a text that tells as much as it weighs has none. -/
lemma Owes.not_comment {current rest : List Char} {c : Char} {tokens : List Token}
    (h : Owes current (c :: rest) tokens) : ¬ (c = '/' && rest.head? == some '*') = true := by
  intro hcomment
  have hesc : c ≠ '\\' := by
    rintro rfl
    cases hcomment
  have hnext : Piece.next current.isEmpty c rest
      = (.comment (commentBody rest.tail).1 (commentBody rest.tail).2.1,
        (commentBody rest.tail).2.2) := by
    rw [Piece.next, if_neg hesc, if_pos hcomment]
  exact (h.inv hnext).2.2.1 _ _ rfl

/-- A literal in a line of a text that tells as much as it weighs is closed in the line, and is
collected with its quotes. -/
lemma Owes.of_literal {current cs rest : List Char} {quote stop : Char} {tokens : List Token}
    (hquote : quote = '"' ∨ quote = '\'') (hstop : stop = ';' ∨ stop = '{')
    (h : Owes current (quote :: (cs ++ stop :: '\n' :: rest)) tokens) :
    ∃ text more, cs = text ++ quote :: more ∧
      stringBody quote (cs ++ stop :: '\n' :: rest) = .closed text (more ++ stop :: '\n' :: rest) ∧
      Owes (quote :: (text.reverse ++ quote :: current)) (more ++ stop :: '\n' :: rest) tokens := by
  have hnext : Piece.next current.isEmpty quote (cs ++ stop :: '\n' :: rest)
      = (Piece.quoted quote (stringBody quote (cs ++ stop :: '\n' :: rest)),
        (stringBody quote (cs ++ stop :: '\n' :: rest)).rest) := by
    rcases hquote with rfl | rfl <;> simp [Piece.next]
  cases hbody : stringBody quote (cs ++ stop :: '\n' :: rest) with
  | cutOff text =>
      rw [hbody] at hnext
      exact absurd rfl ((h.inv hnext).2.1 _)
  | closed text back =>
      rw [hbody] at hnext
      obtain ⟨more, rfl, rfl⟩ := exists_of_stringBody_line hquote hstop hbody
      have howes := h.of_collected hnext trivial
      have hkept : (Piece.verbatim (quote :: (text ++ [quote]))).kept current
          = quote :: (text.reverse ++ quote :: current) := by simp [Piece.kept]
      rw [Piece.quoted, hkept] at howes
      exact ⟨text, more, rfl, rfl, howes⟩

/-- No custom property begins behind a text, nor at the beginning of a line that does not begin with
its mark. -/
lemma not_custom_of_begins {current cs : List Char} {c stop : Char}
    (hstop : stop = ';' ∨ stop = '{') (hstart : current = [] → Begins (c :: cs)) (rest : List Char) :
    ¬ (c = '-' && (cs ++ stop :: '\n' :: rest).head? == some '-' && current.isEmpty) = true := by
  simp only [Bool.and_eq_true, decide_eq_true_eq, beq_iff_eq, List.isEmpty_iff]
  rintro ⟨⟨rfl, hdash⟩, hnil⟩
  cases cs with
  | nil => rcases hstop with rfl | rfl <;> simp at hdash
  | cons d cs =>
      obtain rfl : d = '-' := by simpa using hdash
      exact (hstart hnil).2 (by simp)

/-- In front of the end of a line, a text that tells as much as it weighs is collected to its end, or
to an earlier end of the node, or else its end is hidden. -/
lemma reached_of_owes (cs : List Char) {current rest : List Char} {stop : Char}
    {tokens : List Token} (hstop : stop = ';' ∨ stop = '{')
    (hstart : current = [] → Begins cs)
    (h : Owes current (cs ++ stop :: '\n' :: rest) tokens) : Reached current cs stop := by
  -- A literal and an escaped character are gone over at once, so the induction is on the length.
  induction hn : cs.length using Nat.strong_induction_on generalizing cs current with
  | _ n ih =>
      cases cs with
      | nil => exact .whole rfl
      | cons c cs =>
          have hlater : ∀ cs' : List Char, ∀ {current' : List Char}, current' ≠ [] →
              current' = [] → Begins cs' := fun _ _ hne hnil => absurd hnil hne
          by_cases hesc : c = '\\'
          · subst hesc
            cases cs with
            | nil => exact @Reached.hidden _ _ _ [] _ rfl rfl
            | cons d cs =>
                have howes := h.of_collected (p := .verbatim ['\\', d]) rfl trivial
                have hshorter : cs.length < n := by simp only [← hn, List.length_cons]; omega
                exact .escaped
                  (ih cs.length hshorter cs (hlater cs (List.cons_ne_nil _ _)) howes rfl)
          rw [List.cons_append] at h
          have hcomment := h.not_comment
          by_cases hquote : (c = '"' || c = '\'') = true
          · have hmark : c = '"' ∨ c = '\'' := by simpa using hquote
            obtain ⟨text, more, rfl, hbody, howes⟩ := h.of_literal hmark hstop
            have hshorter : more.length < n := by
              simp only [← hn, List.length_cons, List.length_append]
              omega
            exact .literal hmark hbody
              (ih more.length hshorter more (hlater more (List.cons_ne_nil _ _)) howes rfl)
          by_cases hend : (c = ';' || c = '{' || c = '}') = true
          · exact @Reached.cut _ _ _ [] _ _ _ rfl (by simpa [or_assoc] using hend) rfl
          have hcustom := not_custom_of_begins hstop hstart rest
          have hstep : Mode.text.step current.isEmpty c (cs ++ stop :: '\n' :: rest).head?
              = some .text := by
            rw [Mode.step, if_neg hesc, if_neg hcomment, if_neg hquote, if_neg hcustom, if_neg hend]
          obtain ⟨p, hnext, hp, hkept⟩ := next_of_step hesc hstep
          have howes := h.of_collected hnext hp
          rw [hkept] at howes
          have hrest := ih cs.length (by simp [← hn]) cs
            (hlater cs (keep_ne_nil hstart .text _)) howes rfl
          rw [List.head?_append] at hstep hrest
          exact .kept hstep hrest

/-! ## What a walk keeps -/

namespace Mode

/-- No ink is lost or added, for only blanks are changed. -/
lemma ink_keep (mode : Mode) (current : List Char) (c : Char) (next : Option Char) :
    Text.ink (mode.keep current c next) = Text.ink current + Text.ink [c] := by
  by_cases hgap : isGap c = true
  · have hc : Text.ink [c] = 0 := by simp [Text.ink_cons, isBlank_of_isGap hgap]
    have hcons : Text.ink (c :: current) = Text.ink current := by
      rw [Text.ink_cons, isBlank_of_isGap hgap, if_pos rfl, Nat.add_zero]
    cases mode with
    | text =>
        rw [keep, hc]
        split_ifs
        · rfl
        · cases current with
          | nil => rfl
          | cons last before =>
              rw [Piece.joinLine]
              split_ifs
              · rfl
              · exact Text.ink_cons ' ' _
        · rfl
        · exact hcons
    | _ => exact hcons.trans (by rw [hc, Nat.add_zero])
  · rw [keep_of_not_gap (by simpa using hgap), Text.ink_cons, Text.ink_cons, Text.ink_nil,
      Nat.zero_add]

/-- A step adds one character at most. -/
lemma length_keep_le (mode : Mode) (current : List Char) (c : Char) (next : Option Char) :
    (mode.keep current c next).length ≤ current.length + 1 := by
  cases mode with
  | text =>
      rw [keep]
      split_ifs
      · omega
      · cases current with
        | nil => exact Nat.zero_le _
        | cons last before =>
            rw [Piece.joinLine]
            split_ifs <;> simp
      · omega
      · simp
  | _ => simp [keep]

/-- Nothing new comes in but the space that a blank becomes. -/
lemma mem_keep {mode : Mode} {current : List Char} {c x : Char} {next : Option Char}
    (h : x ∈ mode.keep current c next) : x ∈ current ∨ x = c ∨ x = ' ' := by
  have hcons : x ∈ c :: current → x ∈ current ∨ x = c ∨ x = ' ' := by
    intro hx
    rcases List.mem_cons.1 hx with hx | hx
    · exact Or.inr (Or.inl hx)
    · exact Or.inl hx
  cases mode with
  | text =>
      rw [keep] at h
      split_ifs at h
      · exact Or.inl h
      · cases current with
        | nil => cases h
        | cons last before =>
            rw [Piece.joinLine] at h
            split_ifs at h
            · exact Or.inl h
            · rcases List.mem_cons.1 h with h | h
              · exact Or.inr (Or.inr h)
              · exact Or.inl h
      · exact Or.inl h
      · exact hcons h
  | _ => exact hcons h

/-- What stands further back plays no part. -/
lemma keep_append {front : List Char} (hfront : front ≠ []) (mode : Mode) (back : List Char)
    (c : Char) (next : Option Char) :
    mode.keep (front ++ back) c next = mode.keep front c next ++ back := by
  obtain ⟨last, before, rfl⟩ := List.exists_cons_of_ne_nil hfront
  cases mode with
  | text =>
      simp only [keep, Piece.joinLine, List.cons_append, List.isEmpty_cons, Bool.false_and]
      split_ifs <;> rfl
  | _ => rfl

end Mode

section
variable {mode mode' : Mode} {current current' cs : List Char} {next : Option Char}

/-- A walk keeps every character that is not blank. -/
lemma ink_of_walk (h : walk mode current cs next = some (mode', current')) :
    Text.ink current' = Text.ink current + Text.ink cs := by
  induction cs generalizing mode current with
  | nil =>
      obtain ⟨-, rfl⟩ := Prod.mk.inj (Option.some.inj h)
      rfl
  | cons c cs ih =>
      obtain ⟨mode₁, -, hwalk⟩ := walk_cons_eq_some h
      have hcons : Text.ink (c :: cs) = Text.ink [c] + Text.ink cs := Text.ink_append [c] cs
      rw [ih hwalk, Mode.ink_keep, hcons]
      omega

/-- A walk makes a text no longer. -/
lemma length_of_walk (h : walk mode current cs next = some (mode', current')) :
    current'.length ≤ current.length + cs.length := by
  induction cs generalizing mode current with
  | nil =>
      obtain ⟨-, rfl⟩ := Prod.mk.inj (Option.some.inj h)
      exact Nat.le_add_right _ _
  | cons c cs ih =>
      obtain ⟨mode₁, -, hwalk⟩ := walk_cons_eq_some h
      have hkeep := mode.length_keep_le current c (cs.head?.or next)
      have hrest := ih hwalk
      rw [List.length_cons]
      omega

/-- Over a whole walk nothing new comes in but spaces. -/
lemma mem_of_walk (h : walk mode current cs next = some (mode', current')) {x : Char}
    (hx : x ∈ current') : x ∈ current ∨ x ∈ cs ∨ x = ' ' := by
  induction cs generalizing mode current with
  | nil =>
      obtain ⟨-, rfl⟩ := Prod.mk.inj (Option.some.inj h)
      exact Or.inl hx
  | cons c cs ih =>
      obtain ⟨mode₁, -, hwalk⟩ := walk_cons_eq_some h
      rcases ih hwalk with hmem | hmem | hmem
      · rcases Mode.mem_keep hmem with hmem | rfl | hmem
        · exact Or.inl hmem
        · exact Or.inr (Or.inl (by simp))
        · exact Or.inr (Or.inr hmem)
      · exact Or.inr (Or.inl (by simp [hmem]))
      · exact Or.inr (Or.inr hmem)

end

/-- A walk leads from modes that remember quotes to such modes. -/
lemma quoted_of_walk {mode mode' : Mode} (hmode : mode.Quoted) {current current' cs : List Char}
    {next : Option Char} (h : walk mode current cs next = some (mode', current')) : mode'.Quoted := by
  induction cs generalizing mode current with
  | nil =>
      obtain ⟨rfl, -⟩ := Prod.mk.inj (Option.some.inj h)
      exact hmode
  | cons c cs ih =>
      obtain ⟨mode₁, hstep, hwalk⟩ := walk_cons_eq_some h
      exact ih (hmode.step hstep) hwalk

/-- A walk goes on in the same way behind more text. -/
lemma walk_frame {front : List Char} (hfront : front ≠ []) (mode : Mode) (back cs : List Char)
    (next : Option Char) : walk mode (front ++ back) cs next
      = (walk mode front cs next).map fun s => (s.1, s.2 ++ back) := by
  induction cs generalizing mode front with
  | nil => rfl
  | cons c cs ih =>
      have hempty : (front ++ back).isEmpty = front.isEmpty := by
        cases front with
        | nil => exact absurd rfl hfront
        | cons => rfl
      have hkeep : mode.keep front c (cs.head?.or next) ≠ [] :=
        @keep_ne_nil _ _ [] (fun hnil => absurd hnil hfront) mode _
      rw [walk, walk, hempty, Mode.keep_append hfront, Option.map_bind]
      exact Option.bind_congr fun mode' _ => ih hkeep mode'

/-- A text that begins with no blank is walked over alike behind any two texts. -/
lemma walk_behind {cs : List Char} (hcs : ∀ c, cs.head? = some c → isGap c = false)
    {mode mode' : Mode} {current current' : List Char} (hcurrent : current ≠ []) {next : Option Char}
    (h : walk mode current cs next = some (mode', current')) :
    ∃ kept, current' = kept ++ current ∧ ∀ other, other ≠ [] →
      walk mode other cs next = some (mode', kept ++ other) := by
  cases cs with
  | nil =>
      obtain ⟨rfl, rfl⟩ := Prod.mk.inj (Option.some.inj h)
      exact ⟨[], rfl, fun other _ => rfl⟩
  | cons c cs =>
      have hempty : ∀ other : List Char, other ≠ [] → other.isEmpty = false := by
        intro other hother
        cases other with
        | nil => exact absurd rfl hother
        | cons => rfl
      obtain ⟨mode₁, hstep, hwalk⟩ := walk_cons_eq_some h
      rw [Mode.keep_of_not_gap (hcs c rfl), ← List.singleton_append,
        walk_frame (List.cons_ne_nil _ _), Option.map_eq_some_iff] at hwalk
      obtain ⟨⟨mode₂, kept⟩, hlocal, heq⟩ := hwalk
      obtain ⟨rfl, rfl⟩ := Prod.mk.inj heq
      refine ⟨kept, rfl, fun other hother => ?_⟩
      rw [hempty current hcurrent, ← hempty other hother] at hstep
      rw [walk_cons hstep, Mode.keep_of_not_gap (hcs c rfl), ← List.singleton_append,
        walk_frame (List.cons_ne_nil _ _), hlocal]
      rfl

/-- Behind a text that ends with no blank it makes no difference which of two characters follows, if
neither could end a comment mark, a property or a line. -/
lemma walk_next_congr {cs : List Char} (hcs : ∀ c, cs.getLast? = some c → isGap c = false)
    (mode : Mode) (current : List Char) {a b : Char} (ha : a ∉ ['*', '-', '\n'])
    (hb : b ∉ ['*', '-', '\n']) : walk mode current cs (some a) = walk mode current cs (some b) := by
  induction cs generalizing mode current with
  | nil => rfl
  | cons c cs ih =>
      cases cs with
      | nil =>
          have hc := hcs c rfl
          simp only [List.mem_cons, List.not_mem_nil, or_false, not_or] at ha hb
          have hstep : mode.step current.isEmpty c (some a) = mode.step current.isEmpty c (some b) := by
            cases mode <;> simp [Mode.step, ha, hb]
          simp only [walk, List.head?_nil, Option.none_or, hstep, Mode.keep_of_not_gap hc]
      | cons d cs =>
          rw [walk, walk]
          exact Option.bind_congr fun mode' _ => ih (fun x hx => hcs x (by simpa using hx)) _ _

/-! ## Backslashes and the mark -/

/-- Whether a text ends in an odd number of backslashes, the last of which hides what follows. -/
def Text.endsHiding (cs : List Char) : Bool :=
  (cs.reverse.takeWhile (· == '\\')).length % 2 == 1

/-- Two backslashes at the end hide each other. -/
lemma endsHiding_concat (cs : List Char) (c : Char) :
    Text.endsHiding (cs ++ [c]) = (c == '\\' && !Text.endsHiding cs) := by
  rw [Text.endsHiding, Text.endsHiding, List.reverse_append, List.reverse_singleton,
    List.singleton_append]
  by_cases hc : c = '\\'
  · rw [List.takeWhile_cons_of_pos (by simp [hc]), List.length_cons, hc]
    generalize (cs.reverse.takeWhile (· == '\\')).length = n
    rcases Nat.mod_two_eq_zero_or_one n with hn | hn
    · simp [hn, show (n + 1) % 2 = 1 by omega]
    · simp [hn, show (n + 1) % 2 = 0 by omega]
  · rw [List.takeWhile_cons_of_neg (by simpa using hc)]
    simp [hc]

/-- A walk ends in front of a hidden character exactly if the text ends so. -/
lemma hides_of_walk {mode : Mode} {current cs : List Char} {next : Option Char}
    (h : walk .text [] cs next = some (mode, current)) : mode.hides = Text.endsHiding cs := by
  induction cs using List.reverseRecOn generalizing mode current next with
  | nil =>
      obtain ⟨rfl, -⟩ := Prod.mk.inj (Option.some.inj h)
      rfl
  | append_singleton cs c ih =>
      obtain ⟨mode₁, current₁, hfront, hback⟩ := walk_append_eq_some h
      obtain ⟨mode₂, hstep, hwalk⟩ := walk_cons_eq_some hback
      obtain ⟨rfl, -⟩ := Prod.mk.inj (Option.some.inj hwalk)
      rw [Mode.hides_of_step hstep, ih hfront, endsHiding_concat]

/-- The mark of importance is kept as it stands, also behind a backslash. -/
lemma walk_importantMark {mode : Mode} (hmode : mode = .text ∨ mode = .escape)
    (current : List Char) (next : Option Char) :
    walk mode current importantMark next = some (.text, importantMark.reverse ++ current) := by
  have hmark : importantMark = ['!', 'i', 'm', 'p', 'o', 'r', 't', 'a', 'n', 't'] := by decide
  rw [hmark]
  rcases hmode with rfl | rfl <;> simp [walk, Mode.step, Mode.keep, isGap]

end UtilityCss
