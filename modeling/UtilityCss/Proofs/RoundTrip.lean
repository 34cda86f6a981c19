import Mathlib.Data.List.Chain
import UtilityCss.Proofs.Outline
import UtilityCss.Stylesheet.Printer

/-!
# Printed stylesheets are read back

`readStylesheet_printStylesheet`: a forest of licence comments and tidy nodes is what the reader
makes of its printed text, in either style and up to spans.

**Texts.**  A *clean* text is made of atoms (plain characters, escapes, closed literals) that are
read as they stand: `leads_settled`.  Where the printer puts clean texts, colons, spaces and the
mark `!important` next to each other, the result is again made of atoms (`Settled.append`), except
that the two spaces around an empty important value are read as one.

**Nodes.**  Every node the printer writes leads from an outline to the outline with the node
attached: by `leads_pretty` in front of anything, and by `leads_minified` either behind a
semicolon or up to the brace that closes the block, since the last semicolon of a block is not
printed.
-/

namespace UtilityCss

/-! ## Clean texts -/

/-- A part of a text that is read as it stands. -/
inductive Atom where
  | plain (c : Char)
  | escaped (c : Char)
  | literal (quote : Char) (text : List Char)
  deriving DecidableEq

namespace Atom

/-- How an atom is written. -/
def text : Atom → List Char
  | .plain c => [c]
  | .escaped c => ['\\', c]
  | .literal quote text => quote :: (text ++ [quote])

/-- A literal holds no backslash, newline or quote of its own kind. -/
def Ok : Atom → Prop
  | .plain c => c ∉ Piece.special
  | .escaped c => Text.isBlank c = false
  | .literal quote text =>
    (quote = '"' ∨ quote = '\'') ∧ '\\' ∉ text ∧ '\n' ∉ text ∧ quote ∉ text

instance : DecidablePred Ok
  | .plain c => inferInstanceAs (Decidable (c ∉ Piece.special))
  | .escaped c => inferInstanceAs (Decidable (Text.isBlank c = false))
  | .literal quote text => inferInstanceAs (Decidable
      ((quote = '"' ∨ quote = '\'') ∧ '\\' ∉ text ∧ '\n' ∉ text ∧ quote ∉ text))

/-- What may stand directly behind an atom: plain characters neither open a comment nor make a run
of spaces. -/
def Before (a b : Atom) : Prop :=
  ¬ (a = .plain '/' ∧ b = .plain '*') ∧ ¬ (a = .plain ' ' ∧ b = .plain ' ')

instance : DecidableRel Before :=
  fun a b => inferInstanceAs (Decidable (¬ (a = .plain '/' ∧ b = .plain '*') ∧
    ¬ (a = .plain ' ' ∧ b = .plain ' ')))

lemma text_ne_nil (a : Atom) : a.text ≠ [] := by
  cases a <;> simp [text]

/-- Only a plain character begins with anything else than a backslash or a quote. -/
lemma eq_plain_of_head {a : Atom} (ha : a.Ok) {c : Char} (hc : a.text.head? = some c)
    (hplain : c ∉ ['\\', '"', '\'']) : a = .plain c := by
  simp only [List.mem_cons, List.not_mem_nil, or_false, not_or] at hplain
  cases a with
  | plain d => simpa [text] using hc
  | escaped d => exact absurd (Option.some.inj hc).symm hplain.1
  | literal quote text =>
      have hquote : quote = c := Option.some.inj hc
      rcases ha.1 with rfl | rfl
      · exact absurd hquote.symm hplain.2.1
      · exact absurd hquote.symm hplain.2.2

/-- A text of atoms begins as its first atom does. -/
lemma head?_flatMap_cons (a : Atom) (atoms : List Atom) (rest : List Char) :
    ((a :: atoms).flatMap text ++ rest).head? = a.text.head? := by
  cases a <;> simp [text]

end Atom

/-- A text made of atoms. -/
def Settled (text : List Char) : Prop :=
  ∃ atoms : List Atom, (∀ a ∈ atoms, a.Ok) ∧ atoms.IsChain Atom.Before ∧
    text = atoms.flatMap Atom.text

/-- A trimmed text made of atoms. -/
def Clean (text : String) : Prop :=
  Text.trimmed text = text ∧ Settled text.toList

/-- A clean text has no blanks around it. -/
lemma Clean.trim {text : String} (h : Clean text) : Text.trim text.toList = text.toList := by
  have := congrArg String.toList h.1
  rwa [Text.trimmed, String.toList_ofList] at this

lemma Settled.nil : Settled [] := ⟨[], by simp⟩

/-- Plain characters are atoms, one by one. -/
lemma Settled.of_plain {cs : List Char} (hplain : cs.all (· ∉ Piece.special) = true)
    (hchain : cs.IsChain fun c d => ¬ (c = '/' ∧ d = '*') ∧ ¬ (c = ' ' ∧ d = ' ')) :
    Settled cs := by
  refine ⟨cs.map .plain, by simpa [Atom.Ok] using hplain, ?_, ?_⟩
  · rw [List.isChain_map]
    exact hchain.imp fun c d h => by simpa [Atom.Before] using h
  · rw [List.flatMap_map]
    exact (List.flatMap_singleton' cs).symm

/-- Texts made of atoms can be joined where no comment and no run of spaces arises. -/
lemma Settled.append {a b : List Char} (ha : Settled a) (hb : Settled b)
    (hcomment : a.getLast? = some '/' → b.head? ≠ some '*')
    (hspace : a.getLast? = some ' ' → b.head? ≠ some ' ') : Settled (a ++ b) := by
  obtain ⟨atoms, hok, hchain, rfl⟩ := ha
  obtain ⟨atoms', hok', hchain', rfl⟩ := hb
  refine ⟨atoms ++ atoms', ?_, hchain.append hchain' ?_, List.flatMap_append.symm⟩
  · intro x hx
    exact (List.mem_append.1 hx).elim (hok x) (hok' x)
  · intro x hx y hy
    obtain ⟨front, rfl⟩ := List.getLast?_eq_some_iff.1 hx
    obtain ⟨back, rfl⟩ := List.head?_eq_some_iff.1 hy
    constructor
    · rintro ⟨rfl, rfl⟩
      exact hcomment (by simp [Atom.text]) (by simp [Atom.text])
    · rintro ⟨rfl, rfl⟩
      exact hspace (by simp [Atom.text]) (by simp [Atom.text])

/-! ## Reading clean texts -/

/-- Every atom joins the text as a whole. -/
lemma leads_atom {o : Outline} {a : Atom} (ha : a.Ok) {rest : List Char}
    (hplain : ∀ c, a = .plain c → Piece.Calm o.current.isEmpty c rest ∧
      (o.current = [] → isGap c = false)) :
    Leads o (a.text ++ rest) (o.typed a.text) rest := by
  cases a with
  | plain c => exact leads_plain ha (hplain c rfl).1 (hplain c rfl).2
  | escaped c => exact leads_escaped o c rest
  | literal quote text =>
      obtain ⟨hq, hslash, hline, hquote⟩ := ha
      simpa [Atom.text] using leads_literal o hq hslash hline hquote rest

/-- A plain character of a text made of atoms is read as itself, since the atom behind it is one
that may stand there. -/
lemma Atom.calm_of_chain {c : Char} {atoms : List Atom} (hok : ∀ a ∈ atoms, a.Ok)
    (hc : c ∉ Piece.special) (hchain : (Atom.plain c :: atoms).IsChain Atom.Before)
    {rest : List Char} (hrest : atoms = [] → Piece.Calm true c rest) {fresh : Bool}
    (hfresh : fresh = true → ¬ ['-', '-'] <+: c :: atoms.flatMap Atom.text) :
    Piece.Calm fresh c (atoms.flatMap Atom.text ++ rest) := by
  have hspace : isGap c = true → c = ' ' := by
    simp only [Piece.special, List.mem_cons, not_or] at hc
    rw [isGap_iff]
    tauto
  cases atoms with
  | nil =>
      have hcalm := hrest rfl
      exact ⟨hcalm.comment, hcalm.gap, fun hdash _ => hcalm.custom hdash rfl⟩
  | cons b atoms =>
      have hb := hok b (List.mem_cons_self ..)
      have hbefore := (List.isChain_cons_cons.1 hchain).1
      have hhead := Atom.head?_flatMap_cons b atoms rest
      constructor
      · rintro rfl hstar
        rw [hhead] at hstar
        exact hbefore.1 ⟨rfl, Atom.eq_plain_of_head hb hstar (by decide)⟩
      · intro hgap
        obtain rfl := hspace hgap
        rw [hhead, Option.any_eq_false]
        intro d hd
        by_contra hdgap
        have hd' := isGap_iff.1 (by simpa using hdgap)
        have hplain : b = .plain d :=
          Atom.eq_plain_of_head hb hd (by rcases hd' with rfl | rfl | rfl <;> decide)
        subst hplain
        rcases hd' with rfl | rfl | rfl
        · exact hbefore.2 ⟨rfl, rfl⟩
        · exact hb (by decide)
        · exact hb (by decide)
      · rintro rfl hf hdash
        rw [hhead] at hdash
        have hplain := Atom.eq_plain_of_head hb hdash (by decide)
        subst hplain
        exact hfresh hf (by simp [Atom.text])

/-- Where a text begins a node: it begins neither with a blank nor like a custom property. -/
def Begins (text : List Char) : Prop :=
  (∀ c, text.head? = some c → isGap c = false) ∧ ¬ ['-', '-'] <+: text

/-- A text made of atoms is read as it stands, in front of anything that leaves its last character
alone. -/
lemma leads_settled {o : Outline} {text rest : List Char} (htext : Settled text)
    (hstart : o.current = [] → Begins text)
    (hrest : ∀ c, text.getLast? = some c → Piece.Calm true c rest) :
    Leads o (text ++ rest) (o.typed text) rest := by
  obtain ⟨atoms, hok, hchain, rfl⟩ := htext
  induction atoms generalizing o with
  | nil => exact Leads.refl o rest
  | cons a atoms ih =>
      rw [List.forall_mem_cons] at hok
      have hfirst : Leads o (a.text ++ (atoms.flatMap Atom.text ++ rest)) (o.typed a.text)
          (atoms.flatMap Atom.text ++ rest) := by
        refine leads_atom hok.1 ?_
        rintro c rfl
        refine ⟨Atom.calm_of_chain hok.2 hok.1 hchain ?_ fun hf => ?_, fun ho => ?_⟩
        · rintro rfl
          exact hrest c rfl
        · exact (hstart (by simpa using hf)).2
        · exact (hstart ho).1 c rfl
      have hstart' : (o.typed a.text).current = [] → Begins (atoms.flatMap Atom.text) := by
        intro hnil
        simp [Outline.typed, a.text_ne_nil] at hnil
      have hrest' : ∀ c, (atoms.flatMap Atom.text).getLast? = some c → Piece.Calm true c rest := by
        intro c hc
        exact hrest c (by simp [hc])
      have hmore := ih (o := o.typed a.text) hok.2 hchain.tail hstart' hrest'
      rw [Outline.typed_typed] at hmore
      rw [List.flatMap_cons, List.append_assoc]
      exact hfirst.trans hmore

/-- In front of a semicolon or a brace every character is read as itself. -/
lemma calm_of_stop {stop : Char} (hstop : stop = ';' ∨ stop = '{' ∨ stop = '}') (c : Char)
    (rest : List Char) : Piece.Calm true c (stop :: rest) := by
  rcases hstop with rfl | rfl | rfl <;> constructor <;> simp [isGap]

/-! ## Tidy nodes -/

/-- The nodes whose printed text is read back: rules with clean selectors and declarations with
clean properties and values, none of them mistaken for a custom property, an at-rule or a mark. -/
inductive Tidy : Node → Prop
  | block {selector : String} {nodes : List Node} {span : Option Span} (hclean : Clean selector)
      (hcustom : ¬ ['-', '-'] <+: selector.toList) (hnodes : ∀ node ∈ nodes, Tidy node) :
      Tidy (.rule selector nodes true span)
  | statement {selector : String} {span : Option Span} (hclean : Clean selector)
      (hat : selector.toList.head? = some '@') : Tidy (.rule selector [] false span)
  | declaration {property value : String} {important : Bool} {span : Option Span}
      (hproperty : Clean property) (hcolon : ':' ∉ property.toList)
      (hat : property.toList.head? ≠ some '@') (hcustom : ¬ ['-', '-'] <+: property.toList)
      (hvalue : Clean value) (hmark : ¬ importantMark <:+: value.toList) :
      Tidy (.declaration property value important span)

/-- A comment that is kept: it begins with `!`, and nothing in it hides or anticipates its end. -/
inductive Licence : Node → Prop
  | comment {text : String} {span : Option Span} (hhead : text.toList.head? = some '!')
      (hslash : '\\' ∉ text.toList) (hend : ¬ ['*', '/'] <:+: text.toList) :
      Licence (.comment text span)

/-! ## The texts of nodes -/

/-- A trimmed text begins a node. -/
lemma begins_of_trim {text : List Char} (htrim : Text.trim text = text)
    (hcustom : ¬ ['-', '-'] <+: text) : Begins text := by
  refine ⟨fun c hc => ?_, hcustom⟩
  by_contra hgap
  have hblank := isBlank_of_isGap (by simpa using hgap)
  rw [Text.not_isBlank_head htrim hc] at hblank
  exact Bool.false_ne_true hblank

lemma Clean.begins {text : String} (h : Clean text) (hcustom : ¬ ['-', '-'] <+: text.toList) :
    Begins text.toList :=
  begins_of_trim h.trim hcustom

/-- A text goes on beginning a node when no hyphen follows it, nor a blank if it is empty. -/
lemma Begins.append_cons {text : List Char} (h : Begins text) {c : Char}
    (hgap : text = [] → isGap c = false) (hc : c ≠ '-') (rest : List Char) :
    Begins (text ++ c :: rest) := by
  constructor
  · intro d hd
    cases text with
    | nil =>
        obtain rfl : c = d := by simpa using hd
        exact hgap rfl
    | cons e text => exact h.1 d (by simpa using hd)
  · intro hpre
    match text, h, hpre with
    | [], _, hpre => exact hc (List.cons_prefix_cons.1 hpre).1.symm
    | [d], _, hpre =>
        obtain ⟨-, hpre⟩ := List.cons_prefix_cons.1 hpre
        exact hc (List.cons_prefix_cons.1 hpre).1.symm
    | d :: e :: text, h, hpre =>
        simp only [List.cons_append, List.cons_prefix_cons] at hpre
        exact h.2 (by simp [← hpre.1, ← hpre.2.1])

/-- What the printer writes between two texts: nothing, or one space. -/
def IsPad (pad : List Char) : Prop :=
  pad = [] ∨ pad = [' ']

lemma isPad_nil : IsPad [] := .inl rfl

lemma isPad_space : IsPad [' '] := .inr rfl

lemma IsPad.isBlank {pad : List Char} (h : IsPad pad) : ∀ c ∈ pad, Text.isBlank c = true := by
  rcases h with rfl | rfl
  · simp
  · simp only [List.mem_singleton, forall_eq]
    decide

/-- The mark of an important declaration, with the blank in front of it. -/
def markText (important : Bool) (pad : List Char) : List Char :=
  if important then pad ++ importantMark else []

/-- Padding does not complete an occurrence of a text that neither begins nor ends with a space. -/
lemma not_infix_padded {mark : List Char} {c d : Char} (hhead : mark.head? = some c)
    (hlast : mark.getLast? = some d) (hc : c ≠ ' ') (hd : d ≠ ' ') {value before after : List Char}
    (hbefore : IsPad before) (hafter : IsPad after) (h : ¬ mark <:+: value) :
    ¬ mark <:+: before ++ (value ++ after) := by
  have hvalue : ¬ mark <:+: value ++ after := by
    rcases hafter with rfl | rfl
    · rwa [List.append_nil]
    · rw [List.infix_concat_iff, not_or]
      refine ⟨?_, h⟩
      rintro ⟨front, hfront⟩
      have hend := congrArg List.getLast? hfront
      rw [List.getLast?_append, hlast, List.getLast?_concat] at hend
      exact hd (Option.some.inj hend)
  rcases hbefore with rfl | rfl
  · exact hvalue
  · rw [List.singleton_append, List.infix_cons_iff, not_or]
    refine ⟨?_, hvalue⟩
    rintro ⟨back, hback⟩
    have hbegin := congrArg List.head? hback
    rw [List.head?_append, hhead, List.head?_cons] at hbegin
    exact hc (Option.some.inj hbegin)

/-- Padding makes no mark. -/
lemma not_mark_infix_padded {value before after : List Char} (hbefore : IsPad before)
    (hafter : IsPad after) (h : ¬ importantMark <:+: value) :
    ¬ importantMark <:+: before ++ (value ++ after) :=
  not_infix_padded (c := '!') (d := 't') (by decide) (by decide) (by decide) (by decide) hbefore
    hafter h

/-- The text of a declaration makes the declaration, however it is padded. -/
lemma spells_declaration {property value : String}
    (hproperty : Text.trim property.toList = property.toList) (hcolon : ':' ∉ property.toList)
    (hat : property.toList.head? ≠ some '@') (hvalue : Text.trim value.toList = value.toList)
    (hmark : ¬ importantMark <:+: value.toList) (important : Bool) {before after : List Char}
    (hbefore : IsPad before) (hafter : IsPad after) :
    Spells (property.toList ++ ':' :: (before ++ (value.toList ++ markText important after)))
      (.declaration property value important none) := by
  refine .declaration ?_ (Text.trim_ne_nil (c := ':') (by simp) (by decide)) fun span => ?_
  · cases hp : property.toList with
    | nil => simp
    | cons c cs => simpa [hp] using hat
  · have htrim : String.ofList (Text.trim property.toList) = property := by
      rw [hproperty, String.ofList_toList]
    rw [plainDeclaration, splitAtChar?_append hcolon, declarationOf]
    cases important with
    | false =>
        have hnone := Text.splitFirst?_eq_none_iff.2
          (not_mark_infix_padded hbefore isPad_nil hmark)
        have hpadded := Text.trim_blanks hvalue hbefore.isBlank isPad_nil.isBlank
        simp only [markText, Bool.false_eq_true, if_false, hnone, hpadded, htrim,
          String.ofList_toList, Node.clearSpans]
    | true =>
        have hsome := splitFirst?_importantMark (not_mark_infix_padded hbefore hafter hmark)
        have hpadded := Text.trim_blanks hvalue hbefore.isBlank hafter.isBlank
        simp only [List.append_assoc] at hsome
        simp only [markText, if_true, hsome, hpadded, htrim, String.ofList_toList,
          Node.clearSpans]

/-- A clean head of an at-rule spells a statement. -/
lemma spells_statement {selector : String} (hclean : Clean selector)
    (hat : selector.toList.head? = some '@') :
    Spells selector.toList (.rule selector [] false none) := by
  have := Spells.statement hat hclean.trim
  rwa [String.ofList_toList] at this

/-! ## The printed text of a declaration -/

/-- One more plain character, unless it makes a comment or a run of blanks with the next. -/
lemma Settled.cons_plain {c : Char} (hc : c ∉ Piece.special) {text : List Char}
    (htext : Settled text) (hcomment : c = '/' → text.head? ≠ some '*')
    (hspace : c = ' ' → text.head? ≠ some ' ') : Settled (c :: text) :=
  have hsingle : Settled [c] := .of_plain (by simpa using hc) (List.isChain_singleton c)
  hsingle.append htext (by simpa using hcomment) (by simpa using hspace)

/-- The mark as it is printed. -/
lemma settled_markText (important : Bool) {pad : List Char} (hpad : IsPad pad) :
    Settled (markText important pad) := by
  cases important with
  | false => exact Settled.nil
  | true =>
      rcases hpad with rfl | rfl
      · exact Settled.of_plain (by decide) (by decide)
      · exact Settled.of_plain (by decide) (by decide)

lemma Clean.head?_ne_space {text : String} (h : Clean text) : text.toList.head? ≠ some ' ' := by
  intro hhead
  have := Text.not_isBlank_head h.trim hhead
  exact absurd this (by decide)

lemma Clean.getLast?_ne_space {text : String} (h : Clean text) :
    text.toList.getLast? ≠ some ' ' := by
  intro hlast
  have := Text.not_isBlank_getLast h.trim hlast
  exact absurd this (by decide)

/-- The text of a declaration is made of atoms, unless two spaces meet around an empty value. -/
lemma settled_declaration {property value : String} (hproperty : Clean property)
    (hvalue : Clean value) (important : Bool) {before after : List Char} (hbefore : IsPad before)
    (hafter : IsPad after)
    (hempty : before = [' '] → value.toList = [] → (markText important after).head? ≠ some ' ') :
    Settled (property.toList ++ ':' :: (before ++ (value.toList ++ markText important after))) := by
  have hvalueMark : Settled (value.toList ++ markText important after) := by
    refine hvalue.2.append (settled_markText important hafter) ?_ ?_
    · rintro -
      cases important with
      | false => simp [markText]
      | true => rcases hafter with rfl | rfl <;> decide
    · exact fun hlast => absurd hlast hvalue.getLast?_ne_space
  have hpadded : Settled (before ++ (value.toList ++ markText important after)) := by
    rcases hbefore with rfl | rfl
    · exact hvalueMark
    · refine hvalueMark.cons_plain (by decide) (by simp) fun _ hhead => ?_
      rw [List.head?_append] at hhead
      cases hv : value.toList with
      | nil =>
          rw [hv] at hhead
          exact hempty rfl hv hhead
      | cons c cs =>
          have := hvalue.head?_ne_space
          simp_all
  refine hproperty.2.append (hpadded.cons_plain (by decide) (by simp) (by simp)) ?_ ?_
  · simp
  · simp

/-- Two spaces that meet around an empty value are read as one. -/
lemma leads_empty_value (o : Outline) {property : String} (hproperty : Clean property)
    (hbegins : Begins (property.toList ++ [':'])) {stop : Char}
    (hstop : stop = ';' ∨ stop = '{' ∨ stop = '}') (rest : List Char) :
    Leads o (property.toList ++ ':' :: ' ' :: (markText true [' '] ++ stop :: rest))
      (o.typed (property.toList ++ ':' :: markText true [' '])) (stop :: rest) := by
  have hcolon : Settled [':'] := .of_plain (by decide) (by simp)
  have hhead : Leads o (property.toList ++ [':'] ++ ' ' :: ' ' :: (importantMark ++ stop :: rest))
      (o.typed (property.toList ++ [':'])) (' ' :: ' ' :: (importantMark ++ stop :: rest)) := by
    refine leads_settled (hproperty.2.append hcolon (by simp) (by simp)) (fun _ => hbegins)
      fun c hc => ?_
    obtain rfl : ':' = c := by simpa using hc
    constructor <;> simp [isGap]
  have hspace := leads_double_space (o.typed (property.toList ++ [':']))
    (importantMark ++ stop :: rest)
  have htail : Leads (o.typed (property.toList ++ [':'])) (markText true [' '] ++ stop :: rest)
      ((o.typed (property.toList ++ [':'])).typed (markText true [' '])) (stop :: rest) :=
    leads_settled (settled_markText true isPad_space) (by simp [Outline.typed])
      fun c _ => calm_of_stop hstop c rest
  have hall := (hhead.trans hspace).trans htail
  simpa [markText] using hall

/-- However a declaration is padded, its text up to the end of the node is held as a text that makes
the declaration. -/
lemma leads_declaration (o : Outline) {property value : String} {important : Bool}
    {span : Option Span} (h : Tidy (.declaration property value important span))
    {before after : List Char} (hbefore : IsPad before) (hafter : IsPad after) {stop : Char}
    (hstop : stop = ';' ∨ stop = '{' ∨ stop = '}') (rest : List Char) :
    ∃ text, Spells text (.declaration property value important none) ∧
      Leads o (property.toList ++ ':' :: (before ++ (value.toList ++
        (markText important after ++ stop :: rest)))) (o.typed text) (stop :: rest) := by
  cases h with
  | declaration hproperty hcolon hat hcustom hvalue hmark =>
      have hbegins : ∀ more, Begins (property.toList ++ ':' :: more) :=
        (hproperty.begins hcustom).append_cons (fun _ => rfl) (by decide)
      by_cases hmeet : before = [' '] ∧ value.toList = [] ∧
          (markText important after).head? = some ' '
      · -- Two spaces meet around the empty value: the first is dropped.
        obtain ⟨rfl, hv, hm⟩ := hmeet
        obtain rfl : important = true := by
          cases important <;> simp_all [markText]
        obtain rfl : after = [' '] := by
          rcases hafter with rfl | rfl
          · exact absurd hm (by decide)
          · rfl
        refine ⟨_, spells_declaration hproperty.trim hcolon hat hvalue.trim hmark true isPad_space
          isPad_nil, ?_⟩
        have hall := leads_empty_value o hproperty (hbegins []) hstop rest
        simpa [hv, markText] using hall
      · have hsettled := settled_declaration hproperty hvalue important hbefore hafter
          fun hb hv hm => hmeet ⟨hb, hv, hm⟩
        refine ⟨_, spells_declaration hproperty.trim hcolon hat hvalue.trim hmark important hbefore
          hafter, ?_⟩
        have hall := leads_settled (o := o) hsettled (fun _ => hbegins _)
          (fun c _ => calm_of_stop hstop c rest)
        simpa using hall

/-! ## The printed text of a rule's head -/

/-- A clean selector opens its rule. -/
lemma leads_selector {o : Outline} (ho : o.current = []) {selector : String}
    (hclean : Clean selector) (hcustom : ¬ ['-', '-'] <+: selector.toList) {pad : List Char}
    (hpad : IsPad pad) (rest : List Char) :
    Leads o (selector.toList ++ (pad ++ '{' :: rest)) (o.enter selector) rest := by
  have htrim : String.ofList (Text.trim (selector.toList ++ pad)) = selector := by
    have := Text.trim_blanks hclean.trim isPad_nil.isBlank hpad.isBlank
    rw [List.nil_append] at this
    rw [this, String.ofList_toList]
  by_cases hlead : selector.toList = [] ∧ pad = [' ']
  · -- An empty selector: the space in front of the brace is a leading blank.
    obtain ⟨hs, rfl⟩ := hlead
    have hopen := leads_opening ho [] rest
    rw [hs] at htrim
    rw [show Text.trim [] = Text.trim ([] ++ [' ']) from rfl, htrim] at hopen
    rw [hs]
    exact (leads_blank ho (by decide) _).trans hopen
  · have hsettled : Settled (selector.toList ++ pad) := by
      refine hclean.2.append ?_ ?_ ?_
      · rcases hpad with rfl | rfl
        · exact Settled.nil
        · exact .of_plain (by decide) (by simp)
      · rintro -
        rcases hpad with rfl | rfl <;> simp
      · exact fun hlast => absurd hlast hclean.getLast?_ne_space
    have hbegins : Begins (selector.toList ++ pad) := by
      rcases hpad with rfl | rfl
      · rw [List.append_nil]
        exact hclean.begins hcustom
      · exact (hclean.begins hcustom).append_cons (fun hs => absurd ⟨hs, rfl⟩ hlead) (by decide) []
    have htyped := leads_settled (o := o) hsettled (fun _ => hbegins)
      (fun c _ => calm_of_stop (.inr (.inl rfl)) c rest)
    have hopen := leads_opening ho (selector.toList ++ pad) rest
    rw [htrim] at hopen
    rw [← List.append_assoc]
    exact htyped.trans hopen

/-- A clean statement is typed, and what ends it is left. -/
lemma leads_statement (o : Outline) {selector : String} (hclean : Clean selector)
    (hat : selector.toList.head? = some '@') {stop : Char}
    (hstop : stop = ';' ∨ stop = '{' ∨ stop = '}') (rest : List Char) :
    Leads o (selector.toList ++ stop :: rest) (o.typed selector.toList) (stop :: rest) := by
  refine leads_settled hclean.2 (fun _ => ?_) fun c _ => calm_of_stop hstop c rest
  refine hclean.begins ?_
  rintro ⟨back, hback⟩
  rw [← hback] at hat
  simp at hat

/-! ## Nodes, one to a line -/

lemma indentation_isGap (depth : Nat) : ∀ c ∈ Node.indentation depth, isGap c = true := by
  intro c hc
  rw [List.eq_of_mem_replicate hc]
  rfl

/-- A forest is read back if each of its trees is. -/
lemma leads_prettyAll {nodes : List Node}
    (h : ∀ node ∈ nodes, ∀ (depth : Nat) (o : Outline) (rest : List Char), o.current = [] →
      Leads o (node.pretty depth rest) (o.attach node.clearSpans) rest)
    (depth : Nat) {o : Outline} (ho : o.current = []) (rest : List Char) :
    Leads o (Node.prettyAll depth nodes rest) (o.attachAll (Node.clearSpansAll nodes)) rest := by
  induction nodes generalizing o with
  | nil => exact Leads.refl o rest
  | cons node nodes ih =>
      rw [List.forall_mem_cons] at h
      rw [Node.prettyAll, Node.clearSpansAll, Outline.attachAll_cons]
      exact (h.1 depth o _ ho).trans (ih h.2 (by simpa using ho))

/-- A newline in front of a node is dropped. -/
lemma leads_newline {o : Outline} (ho : o.current = []) (rest : List Char) :
    Leads o ('\n' :: rest) o rest :=
  leads_blank ho (by decide) rest

/-- A tidy node on lines of its own is read back. -/
lemma leads_pretty {node : Node} (h : Tidy node) (depth : Nat) (o : Outline) (rest : List Char)
    (ho : o.current = []) : Leads o (node.pretty depth rest) (o.attach node.clearSpans) rest := by
  induction h generalizing depth o rest with
  | @block selector nodes span hclean hcustom hnodes ih =>
      let inner := o.enter selector
      have hindent := leads_blanks ho (indentation_isGap depth)
      have hselector := leads_selector ho hclean hcustom isPad_space
        ('\n' :: Node.prettyAll (depth + 1) nodes (Node.indentation depth ++ '}' :: '\n' :: rest))
      have hchildren := leads_prettyAll (o := inner) (fun node hnode => ih node hnode)
        (depth + 1) ho (Node.indentation depth ++ '}' :: '\n' :: rest)
      have hfilled : (inner.attachAll (Node.clearSpansAll nodes)).current = [] := by
        rw [Outline.attachAll_current, Outline.enter_current, ho]
      have hopen : (inner.attachAll (Node.clearSpansAll nodes)).opened ≠ [] := by
        rw [Outline.attachAll_of_opened (o := inner) rfl]
        simp
      have hindent' := leads_blanks hfilled (indentation_isGap depth) ('}' :: '\n' :: rest)
      have hclosing := leads_closing hfilled hopen ('\n' :: rest)
      rw [Outline.leave_attachAll_enter] at hclosing
      have hafter : (o.attach (.rule selector (Node.clearSpansAll nodes) true none)).current = [] :=
        by simpa using ho
      have hinner := (leads_newline (o := inner) ho _).trans (hchildren.trans hindent')
      exact (hindent _).trans
        (hselector.trans (hinner.trans (hclosing.trans (leads_newline hafter rest))))
  | @statement selector span hclean hat =>
      have htext := leads_statement o hclean hat (.inl rfl) ('\n' :: rest)
      have hend := leads_semicolon ho (spells_statement hclean hat) ('\n' :: rest)
      have hnewline := leads_newline (o := o.attach (.rule selector [] false none))
        (by simpa using ho) rest
      exact (leads_blanks ho (indentation_isGap depth) _).trans
        (htext.trans (hend.trans hnewline))
  | @declaration property value important span hproperty hcolon hat hcustom hvalue hmark =>
      have htidy : Tidy (.declaration property value important span) :=
        .declaration hproperty hcolon hat hcustom hvalue hmark
      obtain ⟨text, hspells, htext⟩ :=
        leads_declaration o htidy isPad_space isPad_space (.inl rfl) ('\n' :: rest)
      have hend := leads_semicolon ho hspells ('\n' :: rest)
      have hnewline := leads_newline (o := o.attach (.declaration property value important none))
        (by simpa using ho) rest
      exact (leads_blanks ho (indentation_isGap depth) _).trans
        (htext.trans (hend.trans hnewline))

/-! ## Nodes without optional blanks -/

/-- A node is read back in both places it can be printed: in front of another node, and as the last
of a block, where the brace takes the place of its semicolon. -/
structure ReadBack (node : Node) : Prop where
  between : ∀ (o : Outline) (rest : List Char), o.current = [] →
    Leads o (node.minified false rest) (o.attach node.clearSpans) rest
  last : ∀ (o : Outline) (rest : List Char), o.current = [] → o.opened ≠ [] →
    Leads o (node.minified true ('}' :: rest)) (o.attach node.clearSpans).leave rest

/-- A node written as a text with an end is read back if the text makes the node. -/
lemma readBack_of_spells {node : Node} (write : List Char → List Char)
    (hwrite : ∀ closing rest, node.minified closing rest =
      write (Node.semicolonUnless closing rest))
    (htext : ∀ (o : Outline) (stop : Char) (rest : List Char), o.current = [] →
      stop = ';' ∨ stop = '}' → ∃ text, Spells text node.clearSpans ∧
        Leads o (write (stop :: rest)) (o.typed text) (stop :: rest)) : ReadBack node := by
  constructor
  · intro o rest ho
    obtain ⟨text, hspells, hleads⟩ := htext o ';' rest ho (.inl rfl)
    rw [hwrite]
    exact hleads.trans (leads_semicolon ho hspells rest)
  · intro o rest ho hopen
    obtain ⟨text, hspells, hleads⟩ := htext o '}' rest ho (.inr rfl)
    rw [hwrite]
    exact hleads.trans (leads_closing_text ho hopen hspells rest)

/-- A forest of nodes that are read back is read back. -/
lemma leads_minifiedAll {nodes : List Node} (h : ∀ node ∈ nodes, ReadBack node) {o : Outline}
    (ho : o.current = []) (rest : List Char) :
    Leads o (Node.minifiedAll false nodes rest) (o.attachAll (Node.clearSpansAll nodes)) rest := by
  induction nodes generalizing o with
  | nil => exact Leads.refl o rest
  | cons node nodes ih =>
      rw [List.forall_mem_cons] at h
      exact (h.1.between o _ ho).trans (ih h.2 (by simpa using ho))

/-- In a block the last of them has no semicolon; the closing brace ends it. -/
lemma leads_minifiedAll_block {nodes : List Node} (h : ∀ node ∈ nodes, ReadBack node)
    {o : Outline} (ho : o.current = []) (hopen : o.opened ≠ []) (rest : List Char) :
    Leads o (Node.minifiedAll true nodes ('}' :: rest))
      (o.attachAll (Node.clearSpansAll nodes)).leave rest := by
  induction nodes generalizing o with
  | nil => exact leads_closing ho hopen rest
  | cons node nodes ih =>
      rw [List.forall_mem_cons] at h
      cases nodes with
      | nil => exact h.1.last o rest ho hopen
      | cons next nodes =>
          exact (h.1.between o _ ho).trans
            (ih h.2 (by simpa using ho) (Outline.attach_opened_ne_nil hopen _))

/-- A block is read back if its selector is and every node in it. -/
lemma readBack_block {selector : String} {nodes : List Node} (span : Option Span)
    (hselector : ∀ (o : Outline) (rest : List Char), o.current = [] →
      Leads o (selector.toList ++ '{' :: rest) (o.enter selector) rest)
    (hnodes : ∀ node ∈ nodes, ReadBack node) : ReadBack (.rule selector nodes true span) := by
  have hblock : ∀ (closing : Bool) (o : Outline) (rest : List Char), o.current = [] →
      Leads o ((Node.rule selector nodes true span).minified closing rest)
        (o.attach (.rule selector (Node.clearSpansAll nodes) true none)) rest := by
    intro closing o rest ho
    have hentered : (o.enter selector).opened ≠ [] := by simp [Outline.enter]
    have hchildren := leads_minifiedAll_block hnodes (o := o.enter selector) ho hentered rest
    rw [Outline.leave_attachAll_enter] at hchildren
    exact (hselector o _ ho).trans hchildren
  refine ⟨hblock false, fun o rest ho hopen => ?_⟩
  exact (hblock true o _ ho).trans
    (leads_closing (by simpa using ho) (Outline.attach_opened_ne_nil hopen _) rest)

/-- A tidy node without optional blanks is read back. -/
lemma readBack_of_tidy {node : Node} (h : Tidy node) : ReadBack node := by
  induction h with
  | @block selector nodes span hclean hcustom hnodes ih =>
      exact readBack_block span (fun o rest ho => leads_selector ho hclean hcustom isPad_nil rest) ih
  | @statement selector span hclean hat =>
      refine readBack_of_spells (selector.toList ++ ·) (fun _ _ => rfl) fun o stop rest _ hstop => ?_
      exact ⟨_, spells_statement hclean hat,
        leads_statement o hclean hat (hstop.imp_right .inr) rest⟩
  | @declaration property value important span hproperty hcolon hat hcustom hvalue hmark =>
      have htidy : Tidy (.declaration property value important span) :=
        .declaration hproperty hcolon hat hcustom hvalue hmark
      refine readBack_of_spells (fun rest => property.toList ++ ':' :: ([] ++ (value.toList ++
        (markText important [] ++ rest)))) (fun _ _ => rfl) fun o stop rest _ hstop => ?_
      exact leads_declaration o htidy isPad_nil isPad_nil (hstop.imp_right .inr) rest

/-! ## Licence comments and the whole text -/

/-- Licence comments in front of everything else are noted, however they are laid out. -/
lemma leads_licences (write : List Node → List Char) {notices : List Node}
    (hwrite : ∀ notice ∈ notices, ∀ (nodes : List Node) (o : Outline), o.current = [] →
      Leads o (write (notice :: nodes)) { o with licences := notice.clearSpans :: o.licences }
        (write nodes)) {o : Outline} (ho : o.current = []) (nodes : List Node) :
    Leads o (write (notices ++ nodes))
      { o with licences := (Node.clearSpansAll notices).reverse ++ o.licences } (write nodes) := by
  induction notices generalizing o with
  | nil => exact Leads.refl o _
  | cons notice notices ih =>
      rw [List.forall_mem_cons] at hwrite
      have hfirst := hwrite.1 (notices ++ nodes) o ho
      have hmore := ih hwrite.2 (o := { o with licences := notice.clearSpans :: o.licences }) ho
      simpa [Node.clearSpansAll] using hfirst.trans hmore

/-- A licence comment is read back to the front. -/
lemma leads_licence_pretty {notice : Node} (h : Licence notice) (nodes : List Node) (o : Outline)
    (ho : o.current = []) :
    Leads o (Node.prettyAll 0 (notice :: nodes) [])
      { o with licences := notice.clearSpans :: o.licences } (Node.prettyAll 0 nodes []) := by
  obtain ⟨hhead, hslash, hend⟩ := h
  have hcomment := leads_licence o hhead hslash hend ('\n' :: Node.prettyAll 0 nodes [])
  rw [String.ofList_toList] at hcomment
  refine hcomment.trans (leads_newline ?_ _)
  exact ho

lemma leads_licence_minified {notice : Node} (h : Licence notice) (nodes : List Node)
    (o : Outline) :
    Leads o (Node.minifiedAll false (notice :: nodes) [])
      { o with licences := notice.clearSpans :: o.licences } (Node.minifiedAll false nodes []) := by
  obtain ⟨hhead, hslash, hend⟩ := h
  have hcomment := leads_licence o hhead hslash hend (Node.minifiedAll false nodes [])
  rwa [String.ofList_toList] at hcomment

def Outline.empty : Outline := ⟨[], [], [], []⟩

/-- A text that leads to finished nodes and no open rule is read as these nodes. -/
lemma readStylesheet_of_leads {text : List Char} {finished licences : List Node}
    {current : List Char} (h : Leads .empty text ⟨finished, licences, [], current⟩ [])
    (file : Nat) :
    (readStylesheet file (String.ofList text)).map Node.clearSpansAll =
      .ok (licences.reverse ++ finished.reverse) := by
  obtain ⟨r, hr, hrun⟩ := h { file } rfl
  rw [readStylesheet, String.toList_ofList, hrun, Reading.run]
  obtain ⟨rfl, rfl, hopened, -⟩ := Outline.mk.inj hr
  rw [List.map_eq_nil_iff] at hopened
  simp [Reading.finish, hopened, Except.map, Node.clearSpansAll_eq_map]

/-- Reading undoes printing: licence comments in front of tidy nodes are what the reader makes of
their printed text, in either style and up to spans. -/
theorem readStylesheet_printStylesheet (style : Style) (file : Nat) {notices nodes : List Node}
    (hnotices : ∀ notice ∈ notices, Licence notice) (hnodes : ∀ node ∈ nodes, Tidy node) :
    (readStylesheet file (printStylesheet style (notices ++ nodes))).map Node.clearSpansAll =
      .ok (Node.clearSpansAll (notices ++ nodes)) := by
  let noted : Outline := ⟨[], (Node.clearSpansAll notices).reverse, [], []⟩
  have hresult : noted.attachAll (Node.clearSpansAll nodes) =
      ⟨(Node.clearSpansAll nodes).reverse, (Node.clearSpansAll notices).reverse, [], []⟩ := by
    rw [Outline.attachAll_of_not_opened rfl]
    simp [noted]
  have hleads : ∀ text, Leads .empty text (noted.attachAll (Node.clearSpansAll nodes)) [] →
      (readStylesheet file (String.ofList text)).map Node.clearSpansAll =
        .ok (Node.clearSpansAll (notices ++ nodes)) := by
    intro text htext
    rw [hresult] at htext
    rw [readStylesheet_of_leads htext]
    simp [Node.clearSpansAll_eq_map]
  cases style with
  | pretty =>
      have hfront := leads_licences (Node.prettyAll 0 · []) (o := .empty)
        (fun notice hnotice => leads_licence_pretty (hnotices notice hnotice)) rfl nodes
      have hback := leads_prettyAll (fun node hnode => leads_pretty (hnodes node hnode)) 0
        (o := noted) rfl []
      refine hleads _ (Leads.trans ?_ hback)
      simpa [noted, Outline.empty] using hfront
  | minified =>
      have hfront := leads_licences (Node.minifiedAll false · []) (o := .empty)
        (fun notice hnotice nodes o _ => leads_licence_minified (hnotices notice hnotice) nodes o)
        rfl nodes
      have hback := leads_minifiedAll (fun node hnode => readBack_of_tidy (hnodes node hnode))
        (o := noted) rfl []
      refine hleads _ (Leads.trans ?_ hback)
      simpa [noted, Outline.empty] using hfront

namespace Sample

/-- A statement and nested blocks, with an escape, literals, an empty important value and a block
that ends with a declaration. -/
def sheet : List Node :=
  [.rule "@import 'a;b'" [] false none,
    .rule "@media print"
      [.rule ".w-1\\/2 > b"
        [.declaration "width" "calc(1px / 2)" true none,
          .declaration "content" "\"\x7d\"" false none,
          .declaration "x" "" true none] true none] true none]

/-- A trimmed text without marks is clean. -/
lemma clean_of_plain {text : String} (htrim : Text.trimmed text = text)
    (hplain : text.toList.all (· ∉ Piece.special) = true)
    (hchain : text.toList.IsChain fun c d => ¬ (c = '/' ∧ d = '*') ∧ ¬ (c = ' ' ∧ d = ' ')) :
    Clean text :=
  ⟨htrim, .of_plain hplain hchain⟩

lemma tidy_sheet : ∀ node ∈ sheet, Tidy node := by
  have himport : Clean "@import 'a;b'" :=
    ⟨by decide, "@import ".toList.map .plain ++ [.literal '\'' ['a', ';', 'b']], by decide,
      by decide, by decide⟩
  have hselector : Clean ".w-1\\/2 > b" :=
    ⟨by decide, ".w-1".toList.map .plain ++ .escaped '/' :: "2 > b".toList.map .plain, by decide,
      by decide, by decide⟩
  have hcontent : Clean "\"\x7d\"" :=
    ⟨by decide, [.literal '"' ['}']], by decide, by decide, by decide⟩
  have hdeclarations : ∀ node ∈ [Node.declaration "width" "calc(1px / 2)" true none,
      .declaration "content" "\"\x7d\"" false none, .declaration "x" "" true none], Tidy node := by
    simp only [List.forall_mem_cons]
    refine ⟨.declaration ?_ (by decide) (by decide) (by decide) ?_
        (Text.splitFirst?_eq_none_iff.1 (by decide)),
      .declaration ?_ (by decide) (by decide) (by decide) hcontent
        (Text.splitFirst?_eq_none_iff.1 (by decide)),
      .declaration ?_ (by decide) (by decide) (by decide) ?_
        (Text.splitFirst?_eq_none_iff.1 (by decide)), by simp⟩
    all_goals exact clean_of_plain (by decide) (by decide) (by decide)
  have hmedia : Clean "@media print" := clean_of_plain (by decide) (by decide) (by decide)
  simp only [sheet, List.forall_mem_cons]
  refine ⟨.statement himport (by decide), .block hmedia (by decide) ?_, by simp⟩
  simp only [List.forall_mem_singleton]
  exact .block hselector (by decide) hdeclarations

end Sample

theorem readStylesheet_printStylesheet_sample :
    (∀ notice ∈ [Node.comment "! keep *" none], Licence notice) ∧
      (∀ node ∈ Sample.sheet, Tidy node) ∧
      (readStylesheet 3 (printStylesheet .minified
        ([.comment "! keep *" none] ++ Sample.sheet))).map Node.clearSpansAll =
        .ok (Node.clearSpansAll ([.comment "! keep *" none] ++ Sample.sheet)) := by
  have hnotice : ∀ notice ∈ [Node.comment "! keep *" none], Licence notice := by
    rw [List.forall_mem_singleton]
    exact .comment (by decide) (by decide) (Text.splitFirst?_eq_none_iff.1 (by decide))
  exact ⟨hnotice, Sample.tidy_sheet,
    readStylesheet_printStylesheet .minified 3 hnotice Sample.tidy_sheet⟩

end UtilityCss
