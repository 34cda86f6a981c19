import Mathlib.Algebra.GroupWithZero.Nat
import UtilityCss.Proofs.Layout
import UtilityCss.Proofs.RoundTrip

/-!
# A stylesheet as a sequence of tokens

A reader that goes over a text learns one thing after the other: a block opens, a declaration is
made, a statement, a block closes.

* **Tokens** — `Node.tokens` of a tree, and `Outline.tokens` of a reading, which only grow at the end.
* **Pieces** — what a piece tells depends on nothing but the text collected in front of it:
  `Piece.told` and `Piece.kept`.  `Tells current cs tokens` is a whole text, piece by piece, and
  `tells_of_run` finds it in every run of the reader.
* **Weight** — blanks, colons and semicolons come and go in printed text, all other characters have
  weight.  What a text tells is never heavier than the text (`Tells.weight_le`).  So if a text tells as
  much as it weighs, nothing of weight is lost on the way: `Owes`, and `Owes.inv` for its first piece.
-/

namespace UtilityCss

/-- Something that is learnt when a stylesheet is read. -/
inductive Token where
  | opens (selector : String)
  | closes
  | states (selector : String)
  | declares (property value : String) (important : Bool)
  deriving DecidableEq

namespace Node

mutual

/-- What a tree tells, comments apart. -/
def tokens : Node → List Token
  | .rule selector nodes true _ => .opens selector :: (tokensAll nodes ++ [.closes])
  | .rule selector _ false _ => [.states selector]
  | .declaration property value important _ => [.declares property value important]
  | .comment .. => []

/-- What a forest tells. -/
def tokensAll : List Node → List Token
  | [] => []
  | node :: rest => tokens node ++ tokensAll rest

end

/-- The tokens of two forests follow each other. -/
@[simp]
lemma tokensAll_append (a b : List Node) : tokensAll (a ++ b) = tokensAll a ++ tokensAll b := by
  induction a with
  | nil => rfl
  | cons node a ih => rw [List.cons_append, tokensAll, ih, tokensAll, List.append_assoc]

/-- A token of a forest is one of a tree. -/
lemma mem_tokensAll {nodes : List Node} {token : Token} :
    token ∈ tokensAll nodes ↔ ∃ node ∈ nodes, token ∈ node.tokens := by
  induction nodes with
  | nil => simp [tokensAll]
  | cons node rest ih => simp [tokensAll, ih]

@[simp]
lemma tokensAll_singleton (node : Node) : tokensAll [node] = node.tokens :=
  List.append_nil _

end Node

/-! ## Tokens of text -/

namespace Token

/-- The declaration whose text has these parts around its colon. -/
def ofParts (text : List Char) : Option (List Char × List Char) → Token
  | none => .declares (String.ofList (Text.trim text)) (String.ofList []) false
  | some (property, value) =>
    match Text.splitFirst? importantMark value with
    | some (value, _) =>
      .declares (String.ofList (Text.trim property)) (String.ofList (Text.trim value)) true
    | none => .declares (String.ofList (Text.trim property)) (String.ofList (Text.trim value)) false

/-- The statement or declaration that a text makes. -/
def ofText (text : List Char) : Token :=
  if text.head? == some '@' then .states (String.ofList (Text.trim text))
  else ofParts text (splitAtChar? ':' text)

/-- The declaration that the text of a custom property makes. -/
def ofCustom (text : List Char) : Token :=
  ofParts text ((splitAtColon? false text).or (splitAtChar? ':' text))

end Token

/-- A declaration is one token, however it was cut. -/
lemma tokens_declarationOf (text : List Char) (parts : Option (List Char × List Char))
    (span : Span) : (declarationOf text parts span).clearSpans.tokens = [.ofParts text parts] := by
  cases parts with
  | none => rfl
  | some parts =>
      obtain ⟨property, value⟩ := parts
      simp only [declarationOf, Token.ofParts]
      cases Text.splitFirst? importantMark value <;> rfl

namespace Outline

/-- What was told so far. -/
def tokens (o : Outline) : List Token :=
  Node.tokensAll o.finished.reverse ++
    o.opened.reverse.flatMap fun rule => .opens rule.1 :: Node.tokensAll rule.2.reverse

/-- A node adds its tokens. -/
lemma tokens_attach (o : Outline) (node : Node) :
    (o.attach node).tokens = o.tokens ++ node.tokens := by
  unfold attach
  cases hopened : o.opened with
  | nil => simp [tokens, hopened]
  | cons rule outer => simp [tokens, hopened, List.flatMap_append]

/-- An open block adds its head. -/
lemma tokens_enter (o : Outline) (selector : String) :
    (o.enter selector).tokens = o.tokens ++ [.opens selector] := by
  simp [tokens, enter, List.flatMap_append, Node.tokensAll]

/-- A closed block adds its brace. -/
lemma tokens_leave {o : Outline} (h : o.opened ≠ []) : o.leave.tokens = o.tokens ++ [.closes] := by
  unfold leave
  cases hopened : o.opened with
  | nil => exact absurd hopened h
  | cons rule outer =>
      rw [tokens_attach]
      simp [tokens, hopened, Node.tokens, List.flatMap_append]

end Outline

/-! ## Tokens of pieces -/

namespace Piece

/-- What a piece tells behind a text, given back to front. -/
def told (current : List Char) : Piece → List Token
  | .custom text _ => [.ofCustom text]
  | .semicolon =>
    if (Text.trim current.reverse).isEmpty then [] else [.ofText current.reverse]
  | .opening => [.opens (String.ofList (Text.trim current.reverse))]
  | .closing => (if current.isEmpty then [] else [.ofText current.reverse]) ++ [.closes]
  | _ => []

/-- A text, back to front, that a newline was joined to. -/
def joinLine : List Char → List Char
  | [] => []
  | last :: before => if isGap last then last :: before else ' ' :: last :: before

/-- The text collected behind a piece, back to front. -/
def kept (current : List Char) : Piece → List Char
  | .verbatim text => text.reverse ++ current
  | .newline => joinLine current
  | .plain c => if current.isEmpty && isGap c then current else c :: current
  | .semicolon => []
  | .opening => []
  | .closing => []
  | _ => current

end Piece

namespace Reading

lemma trimEnd_eq_trim {text : List Char} (h : text.head? = some '@') :
    Text.trimEnd text = Text.trim text := by
  obtain ⟨rest, rfl⟩ := List.head?_eq_some_iff.1 h
  have hat : Text.isBlank '@' = false := by decide
  rw [Text.trim, Text.trimStart, List.dropWhile_cons_of_neg (by simp [hat])]

/-- A semicolon tells of the text in front, if there is any. -/
lemma tokens_pushSemicolon (r : Reading) : r.pushSemicolon.outline.tokens =
    r.outline.tokens ++ Piece.semicolon.told r.current := by
  have hclear : r.clear.outline.tokens = r.outline.tokens := rfl
  rw [pushSemicolon, readsAtRule, Piece.told]
  change _ = _ ++ if (Text.trim r.text).isEmpty then [] else [Token.ofText r.text]
  split_ifs with hat hblank hblank
  · exfalso
    obtain ⟨rest, hrest⟩ := List.head?_eq_some_iff.1 (beq_iff_eq.1 hat)
    exact Text.trim_ne_nil (show '@' ∈ r.text by simp [hrest]) (by decide)
      (List.isEmpty_iff.1 hblank)
  · rw [outline_attach, Outline.tokens_attach, hclear, Token.ofText, if_pos hat,
      trimEnd_eq_trim (beq_iff_eq.1 hat)]
    rfl
  · rw [hclear, List.append_nil]
  · rw [outline_attach, Outline.tokens_attach, hclear, plainDeclaration, tokens_declarationOf,
      Token.ofText, if_neg hat]

/-- A closing brace does the same. -/
lemma tokens_finishText (r : Reading) : r.finishText.outline.tokens =
    r.outline.tokens ++ if r.current.isEmpty then [] else [.ofText r.text] := by
  have hclear : r.clear.outline.tokens = r.outline.tokens := rfl
  rw [finishText, readsAtRule]
  split_ifs with hempty hat
  · rw [List.append_nil]
  · rw [outline_attach, Outline.tokens_attach, hclear, Token.ofText, if_pos hat]
    rfl
  · rw [outline_attach, Outline.tokens_attach, hclear, plainDeclaration, tokens_declarationOf,
      Token.ofText, if_neg hat]

/-- A newline tells nothing. -/
lemma pushNewline_told (r : Reading) : r.pushNewline.current = Piece.joinLine r.current ∧
    r.pushNewline.outline.tokens = r.outline.tokens ++ [] := by
  rw [pushNewline]
  cases hcurrent : r.current with
  | nil => exact ⟨hcurrent, (List.append_nil _).symm⟩
  | cons last before =>
      rw [Piece.joinLine]
      dsimp only
      split_ifs
      · exact ⟨hcurrent, (List.append_nil _).symm⟩
      · exact ⟨rfl, (List.append_nil _).symm⟩

lemma outline_close {r : Reading} {rule : OpenRule} {outer : List OpenRule}
    (h : r.finishText.opened = rule :: outer) :
    ({ r.finishText with opened := outer }.attach (r.closed rule)).outline
      = r.finishText.outline.leave := by
  rw [outline_attach, Outline.leave]
  simp [outline, h, closed, OpenRule.outline, Node.clearSpans, Node.clearSpansAll_eq_map]

/-- The step: a piece adds what it tells, and leaves the text that it keeps. -/
lemma push_told {r r' : Reading} {p : Piece} (h : r.push p = .ok r') :
    r'.current = p.kept r.current ∧ r'.outline.tokens = r.outline.tokens ++ p.told r.current := by
  cases p with
  | verbatim text =>
      obtain rfl := Except.ok.inj h
      exact ⟨rfl, (List.append_nil _).symm⟩
  | comment text closed =>
      obtain rfl := Except.ok.inj h
      rw [pushComment]
      split_ifs
      · exact ⟨rfl, (List.append_nil _).symm⟩
      · exact ⟨rfl, (List.append_nil _).symm⟩
  | brokenString text => cases h
  | gap c =>
      obtain rfl := Except.ok.inj h
      exact ⟨rfl, (List.append_nil _).symm⟩
  | newline =>
      obtain rfl := Except.ok.inj h
      exact r.pushNewline_told
  | custom text ended =>
      obtain rfl := Except.ok.inj h
      refine ⟨attach_current _ _, ?_⟩
      rw [outline_advance, outline_attach, Outline.tokens_attach, customDeclaration,
        tokens_declarationOf]
      rfl
  | semicolon =>
      obtain rfl := Except.ok.inj h
      refine ⟨?_, r.tokens_pushSemicolon⟩
      show r.pushSemicolon.current = []
      rw [pushSemicolon]
      split_ifs
      · exact attach_current _ _
      · rfl
      · exact attach_current _ _
  | opening =>
      obtain rfl := Except.ok.inj h
      refine ⟨rfl, ?_⟩
      have henter : r.pushOpening.outline
          = r.clear.outline.enter (String.ofList (Text.trim r.text)) := rfl
      rw [outline_advance, henter, Outline.tokens_enter]
      rfl
  | closing =>
      obtain ⟨rule, outer, hopened, rfl⟩ := push_closing_iff.1 h
      constructor
      · show (Reading.attach _ _).current = []
        rw [attach_current]
        exact finishText_current r
      · have hopen : r.finishText.outline.opened ≠ [] := by simp [outline, hopened]
        rw [outline_advance, outline_close hopened, Outline.tokens_leave hopen,
          tokens_finishText, List.append_assoc]
        rfl
  | plain c =>
      obtain rfl := Except.ok.inj h
      rw [pushPlain, Piece.kept]
      split_ifs
      · exact ⟨rfl, (List.append_nil _).symm⟩
      · exact ⟨rfl, (List.append_nil _).symm⟩

end Reading

/-- What a text tells, read behind a text that was collected. -/
inductive Tells : (current cs : List Char) → List Token → Prop
  | nil {current : List Char} : Tells current [] []
  | piece {current rest rest' : List Char} {c : Char} {p : Piece} {tokens : List Token}
      (hnext : Piece.next current.isEmpty c rest = (p, rest'))
      (hbroken : ∀ text, p ≠ .brokenString text) (hrest : Tells (p.kept current) rest' tokens) :
      Tells current (c :: rest) (p.told current ++ tokens)

/-- The run: whatever a reader is told is told by the text. -/
lemma tells_of_run {r r' : Reading} {cs : List Char} (h : r.run cs = .ok r') :
    ∃ tokens, Tells r.current cs tokens ∧ r'.outline.tokens = r.outline.tokens ++ tokens := by
  fun_induction Reading.run r cs with
  | case1 r =>
      obtain rfl := Except.ok.inj h
      exact ⟨[], .nil, (List.append_nil _).symm⟩
  | case2 r c rest step e herror => cases h
  | case3 r c rest step next hok ih =>
      obtain ⟨hcurrent, htokens⟩ := Reading.push_told hok
      obtain ⟨tokens, htells, hrun⟩ := ih h
      rw [hcurrent] at htells
      refine ⟨step.1.told r.current ++ tokens, ?_, by rw [hrun, htokens, List.append_assoc]⟩
      exact .piece rfl (Reading.ne_brokenString_of_push hok) htells

namespace Tells
variable {current cs : List Char} {tokens : List Token}

lemma inv {c : Char} {rest rest' : List Char} {p : Piece} (h : Tells current (c :: rest) tokens)
    (hnext : Piece.next current.isEmpty c rest = (p, rest')) :
    (∀ text, p ≠ .brokenString text) ∧
      ∃ later, tokens = p.told current ++ later ∧ Tells (p.kept current) rest' later := by
  cases h with
  | piece hnext' hbroken hrest =>
      obtain ⟨rfl, rfl⟩ := Prod.mk.inj (hnext'.symm.trans hnext)
      exact ⟨hbroken, _, rfl, hrest⟩

end Tells

/-! ## Weight -/

namespace Text

/-- The number of characters that are not blank. -/
def ink (cs : List Char) : Nat :=
  cs.countP fun c => !isBlank c

/-- Printing may add blanks, colons and semicolons, and leave them out; other characters have
weight. -/
def weighs (c : Char) : Bool :=
  !(isBlank c || c == ':' || c == ';')

/-- The number of characters with weight. -/
def weight (cs : List Char) : Nat :=
  cs.countP weighs

@[simp]
lemma ink_nil : ink [] = 0 := rfl

@[simp]
lemma ink_append (a b : List Char) : ink (a ++ b) = ink a + ink b :=
  List.countP_append

@[simp]
lemma ink_reverse (cs : List Char) : ink cs.reverse = ink cs :=
  List.countP_reverse

@[simp]
lemma weight_nil : weight [] = 0 := rfl

@[simp]
lemma weight_append (a b : List Char) : weight (a ++ b) = weight a + weight b :=
  List.countP_append

@[simp]
lemma weight_reverse (cs : List Char) : weight cs.reverse = weight cs :=
  List.countP_reverse

lemma weight_cons (c : Char) (cs : List Char) :
    weight (c :: cs) = weight cs + if weighs c then 1 else 0 :=
  List.countP_cons

lemma ink_cons (c : Char) (cs : List Char) :
    ink (c :: cs) = ink cs + if isBlank c then 0 else 1 := by
  rw [ink, List.countP_cons]
  cases isBlank c <;> rfl

/-- Blanks weigh nothing. -/
lemma weighs_of_isBlank {c : Char} (h : isBlank c = true) : weighs c = false := by
  simp [weighs, h]

/-- Trimming takes off nothing but blanks. -/
lemma exists_trim (cs : List Char) : ∃ before after, cs = before ++ (trim cs ++ after) ∧
    (∀ c ∈ before, isBlank c = true) ∧ ∀ c ∈ after, isBlank c = true := by
  have hfront : cs.takeWhile isBlank ++ trimStart cs = cs := List.takeWhile_append_dropWhile
  have hback : trim cs ++ (trimStart cs).rtakeWhile isBlank = trimStart cs := by
    rw [trim, trimEnd, List.rtakeWhile, ← List.reverse_append, List.takeWhile_append_dropWhile,
      List.reverse_reverse]
  refine ⟨cs.takeWhile isBlank, (trimStart cs).rtakeWhile isBlank, ?_, ?_, ?_⟩
  · rw [hback, hfront]
  · exact fun c hc => List.mem_takeWhile_imp hc
  · intro c hc
    rw [List.rtakeWhile, List.mem_reverse] at hc
    exact List.mem_takeWhile_imp hc

/-- What counts no blanks counts the same in a trimmed text. -/
lemma countP_trim {f : Char → Bool} (hf : ∀ c, isBlank c = true → f c = false) (cs : List Char) :
    (trim cs).countP f = cs.countP f := by
  obtain ⟨before, after, hcs, hbefore, hafter⟩ := exists_trim cs
  have hzero : ∀ bs : List Char, (∀ c ∈ bs, isBlank c = true) → bs.countP f = 0 := by
    intro bs hbs
    rw [List.countP_eq_zero]
    intro c hc
    simp [hf c (hbs c hc)]
  conv_rhs => rw [hcs, List.countP_append, List.countP_append, hzero before hbefore,
    hzero after hafter]
  omega

@[simp]
lemma weight_trim (cs : List Char) : weight (trim cs) = weight cs :=
  countP_trim (fun _ => weighs_of_isBlank) cs

@[simp]
lemma ink_trim (cs : List Char) : ink (trim cs) = ink cs :=
  countP_trim (fun c hc => by simp [hc]) cs

lemma length_trim_le (cs : List Char) : (trim cs).length ≤ cs.length := by
  obtain ⟨before, after, hcs, -, -⟩ := exists_trim cs
  conv_rhs => rw [hcs]
  simp only [List.length_append]
  omega

/-- Blanks at the end are trimmed away. -/
lemma trim_append_of_blank (cs : List Char) {bs : List Char} (h : ∀ c ∈ bs, isBlank c = true) :
    trim (cs ++ bs) = trim cs := by
  rw [trim, trim, trimStart, List.dropWhile_append]
  split_ifs with hempty
  · have hfront : trimStart cs = [] := List.isEmpty_iff.1 hempty
    have hback : List.dropWhile isBlank bs = [] := by simpa [List.dropWhile_eq_nil_iff] using h
    rw [hback, hfront]
  · exact trimEnd_append_of_blank _ h

lemma trim_append_of_blank_left (cs : List Char) {bs : List Char} (h : ∀ c ∈ bs, isBlank c = true) :
    trim (bs ++ cs) = trim cs := by
  rw [trim, trimStart_append_of_blank cs h]
  rfl

/-- What is trimmed stays as it is. -/
lemma trim_trim (cs : List Char) : trim (trim cs) = trim cs := by
  obtain ⟨before, after, hcs, hbefore, hafter⟩ := exists_trim cs
  have hstart : trimStart (trim cs) = trim cs := by
    have hpre := trimEnd_isPrefix (trimStart cs)
    rw [← trim] at hpre
    cases htrim : trim cs with
    | nil => rfl
    | cons c middle =>
        have hc : (trimStart cs).head? = some c := by
          obtain ⟨back, hback⟩ := hpre
          rw [← hback, htrim]
          rfl
        have hblank := List.head?_dropWhile_not isBlank cs
        rw [show (cs.dropWhile isBlank).head? = some c from hc] at hblank
        exact List.dropWhile_cons_of_neg (by simpa using hblank)
  have hend : trimEnd (trim cs) = trim cs := by
    rw [trim, trimEnd, trimEnd, List.reverse_reverse, List.dropWhile_idempotent]
  exact trim_eq_self_iff.2 ⟨hstart, hend⟩

/-- What begins a trimmed part at the front of a text is the first of the text that is no blank. -/
lemma head?_trimStart_of_trim {part : List Char} {c : Char} (h : (trim part).head? = some c)
    (rest : List Char) : (trimStart (part ++ rest)).head? = some c := by
  have hstart : (trimStart part).head? = some c := by
    obtain ⟨middle, hmiddle⟩ := List.head?_eq_some_iff.1 h
    have hpre := trimEnd_isPrefix (trimStart part)
    rw [show trimEnd (trimStart part) = c :: middle from hmiddle] at hpre
    obtain ⟨back, hback⟩ := hpre
    rw [← hback]
    rfl
  have hc : isBlank c = false := by
    have := List.head?_dropWhile_not isBlank part
    rw [show (part.dropWhile isBlank).head? = some c from hstart] at this
    simpa using this
  obtain ⟨back, hback⟩ := List.head?_eq_some_iff.1 hstart
  have hfront : part.takeWhile isBlank ++ trimStart part = part := List.takeWhile_append_dropWhile
  rw [← hfront, hback, List.append_assoc,
    trimStart_append_of_blank _ fun d hd => List.mem_takeWhile_imp hd]
  simp [trimStart, hc]

end Text

namespace Token

/-- The weight of what is told, the mark of importance and the braces included. -/
def weight : Token → Nat
  | .opens selector => Text.weight selector.toList + 1
  | .closes => 1
  | .states selector => Text.weight selector.toList
  | .declares property value important =>
    Text.weight property.toList + Text.weight value.toList + if important then 10 else 0

/-- The weight of all tokens. -/
def weightAll (tokens : List Token) : Nat :=
  (tokens.map weight).sum

@[simp]
lemma weightAll_nil : weightAll [] = 0 := rfl

@[simp]
lemma weightAll_cons (e : Token) (tokens : List Token) :
    weightAll (e :: tokens) = e.weight + weightAll tokens := rfl

@[simp]
lemma weightAll_append (a b : List Token) : weightAll (a ++ b) = weightAll a + weightAll b := by
  simp [weightAll]

end Token

/-! ## The parts of a declaration -/

/-- A text makes a declaration: without a colon all of it is the property, and behind the mark
everything is dropped. -/
inductive Parsed (text : List Char) : (property value : List Char) → (important : Bool) → Prop
  | bare : Parsed text (Text.trim text) [] false
  | plain {before after : List Char} (htext : before ++ ':' :: after = text)
      (hmark : ¬ importantMark <:+: after) :
      Parsed text (Text.trim before) (Text.trim after) false
  | marked {before after dropped : List Char}
      (htext : before ++ ':' :: (after ++ (importantMark ++ dropped)) = text)
      (hmark : ¬ importantMark <:+: after) : Parsed text (Text.trim before) (Text.trim after) true

namespace Parsed
variable {text property value : List Char} {important : Bool}

/-- A declaration cut at a colon is parsed from its text. -/
lemma of_ofParts {property value : String} {parts : Option (List Char × List Char)}
    (hparts : ∀ before after, parts = some (before, after) → before ++ ':' :: after = text)
    (h : Token.ofParts text parts = .declares property value important) :
    Parsed text property.toList value.toList important := by
  cases parts with
  | none =>
      obtain ⟨rfl, rfl, rfl⟩ := Token.declares.inj h
      rw [String.toList_ofList, String.toList_ofList]
      exact .bare
  | some parts =>
      obtain ⟨before, after⟩ := parts
      have htext := hparts before after rfl
      rw [Token.ofParts] at h
      split at h
      next value' dropped hsplit =>
        obtain ⟨rfl, rfl, rfl⟩ := Token.declares.inj h
        rw [String.toList_ofList, String.toList_ofList]
        have hmark := Text.not_infix_of_splitFirst? (by decide) hsplit
        exact .marked (by rw [Text.splitFirst?_eq_some hsplit, htext]) hmark
      next hsplit =>
        obtain ⟨rfl, rfl, rfl⟩ := Token.declares.inj h
        rw [String.toList_ofList, String.toList_ofList]
        exact .plain htext (Text.splitFirst?_eq_none_iff.1 hsplit)

/-- A custom property is parsed from its text, even without a colon. -/
lemma of_ofCustom {property value : String}
    (h : Token.ofCustom text = .declares property value important) :
    Parsed text property.toList value.toList important := by
  refine of_ofParts (fun before after hparts => ?_) h
  rcases Option.or_eq_some_iff.1 hparts with hcolon | ⟨-, hchar⟩
  · exact splitAtColon?_eq_some hcolon
  · exact (splitAtChar?_eq_some hchar).1

/-- A text parsed as a declaration is no at-rule, and the name has no colon. -/
lemma of_ofText {property value : String}
    (h : Token.ofText text = .declares property value important) :
    text.head? ≠ some '@' ∧ Parsed text property.toList value.toList important ∧
      ':' ∉ property.toList := by
  rw [Token.ofText] at h
  split_ifs at h with hat
  refine ⟨by simpa using hat, of_ofParts (fun _ _ hparts => (splitAtChar?_eq_some hparts).1) h, ?_⟩
  have hmem : ∀ part : List Char, ':' ∉ part → ':' ∉ Text.trim part := by
    intro part hpart hcolon
    obtain ⟨before, after, hsplit, -, -⟩ := Text.exists_trim part
    rw [hsplit] at hpart
    simp [hcolon] at hpart
  cases hparts : splitAtChar? ':' text with
  | none =>
      rw [hparts] at h
      obtain ⟨rfl, -, -⟩ := Token.declares.inj h
      rw [String.toList_ofList]
      exact hmem text (splitAtChar?_eq_none hparts)
  | some parts =>
      obtain ⟨before, after⟩ := parts
      have hbefore : property = String.ofList (Text.trim before) := by
        rw [hparts, Token.ofParts] at h
        split at h <;> exact (Token.declares.inj h).1.symm
      rw [hbefore, String.toList_ofList]
      exact hmem before (splitAtChar?_eq_some hparts).2

/-- Name and value are trimmed. -/
lemma trimmed (h : Parsed text property value important) :
    Text.trim property = property ∧ Text.trim value = value := by
  cases h with
  | bare => exact ⟨Text.trim_trim _, rfl⟩
  | plain => exact ⟨Text.trim_trim _, Text.trim_trim _⟩
  | marked => exact ⟨Text.trim_trim _, Text.trim_trim _⟩

/-- They weigh no more than the text they were parsed from, the mark included. -/
lemma weight_le (h : Parsed text property value important) :
    Text.weight property + Text.weight value + (if important then 10 else 0) ≤ Text.weight text := by
  cases h with
  | bare => simp
  | plain htext _ =>
      rw [← htext, Text.weight_append, Text.weight_cons, Text.weight_trim, Text.weight_trim]
      simp
  | marked htext _ =>
      have hmark : Text.weight importantMark = 10 := by decide
      rw [← htext, Text.weight_append, Text.weight_cons, Text.weight_append, Text.weight_append,
        hmark, Text.weight_trim, Text.weight_trim, if_pos rfl]
      omega

/-- Nothing but a colon is lost of a text without the mark. -/
lemma ink_le (h : Parsed text property value false) :
    Text.ink text ≤ Text.ink property + 1 + Text.ink value := by
  cases h with
  | bare =>
      rw [Text.ink_trim]
      omega
  | plain htext _ =>
      have hcolon : Text.isBlank ':' = false := by decide
      rw [← htext, Text.ink_append, Text.ink_cons, Text.ink_trim, Text.ink_trim, hcolon,
        if_neg Bool.false_ne_true]
      omega

/-- Without a colon the text is the property, and otherwise it has at least the ink of what is
declared. -/
lemma le_ink (h : Parsed text property value important) :
    (value = [] ∧ important = false ∧ property.length ≤ text.length) ∨
      Text.ink property + 1 + Text.ink value + (if important then 10 else 0) ≤ Text.ink text := by
  have hcolon : Text.isBlank ':' = false := by decide
  cases h with
  | bare => exact Or.inl ⟨rfl, rfl, Text.length_trim_le text⟩
  | plain htext _ =>
      right
      rw [← htext, Text.ink_append, Text.ink_cons, Text.ink_trim, Text.ink_trim, hcolon]
      simp only [Bool.false_eq_true, if_false]
      omega
  | marked htext _ =>
      have hmark : Text.ink importantMark = 10 := by decide
      right
      rw [← htext, Text.ink_append, Text.ink_cons, Text.ink_append, Text.ink_append, hmark,
        Text.ink_trim, Text.ink_trim, hcolon, if_pos rfl]
      simp only [Bool.false_eq_true, if_false]
      omega

/-- The value does not hold the mark. -/
lemma not_mark (h : Parsed text property value important) : ¬ importantMark <:+: value := by
  have htrim : ∀ part : List Char, ¬ importantMark <:+: part → ¬ importantMark <:+: Text.trim part :=
    fun part hpart hin => hpart
      (hin.trans ((Text.trimEnd_isPrefix _).isInfix.trans (Text.trimStart_suffix part).isInfix))
  cases h with
  | bare => decide
  | plain _ hmark => exact htrim _ hmark
  | marked _ hmark => exact htrim _ hmark

end Parsed

namespace Token

/-- However a text is cut, it declares something. -/
lemma exists_ofParts (text : List Char) (parts : Option (List Char × List Char)) :
    ∃ property value important, ofParts text parts = .declares property value important := by
  cases parts with
  | none => exact ⟨_, _, _, rfl⟩
  | some parts =>
      obtain ⟨before, after⟩ := parts
      rw [ofParts]
      split <;> exact ⟨_, _, _, rfl⟩

lemma weight_ofCustom_le (text : List Char) : (ofCustom text).weight ≤ Text.weight text := by
  obtain ⟨property, value, important, h⟩ :=
    exists_ofParts text ((splitAtColon? false text).or (splitAtChar? ':' text))
  have hparsed := Parsed.of_ofCustom h
  rw [ofCustom, h]
  exact hparsed.weight_le

/-- No token weighs more than its text. -/
lemma weight_ofText_le (text : List Char) : (ofText text).weight ≤ Text.weight text := by
  cases hat : text.head? == some '@' with
  | true =>
      rw [ofText, if_pos hat, weight, String.toList_ofList, Text.weight_trim]
  | false =>
      have hof : ofText text = ofParts text (splitAtChar? ':' text) :=
        if_neg (by rw [hat]; exact Bool.false_ne_true)
      obtain ⟨property, value, important, h⟩ := exists_ofParts text (splitAtChar? ':' text)
      rw [hof, h]
      exact (Parsed.of_ofText (hof.trans h)).2.1.weight_le

end Token

/-! ## Nothing is gained -/

lemma Text.weight_joinLine (current : List Char) :
    Text.weight (Piece.joinLine current) = Text.weight current := by
  cases current with
  | nil => rfl
  | cons last before =>
      rw [Piece.joinLine]
      split_ifs
      · rfl
      · rw [weight_cons, weighs_of_isBlank (by decide)]
        rfl

namespace Piece

/-- The step: what a piece tells and what is kept weigh no more than what was there. -/
lemma weight_told_le (current : List Char) (p : Piece) :
    Token.weightAll (p.told current) + Text.weight (p.kept current)
      ≤ Text.weight current + Text.weight p.source := by
  have htext := Token.weight_ofText_le current.reverse
  rw [Text.weight_reverse] at htext
  cases p with
  | verbatim text =>
      simp only [told, kept, source, Token.weightAll_nil, Text.weight_append, Text.weight_reverse]
      omega
  | comment text closed => simp [told, kept]
  | brokenString text => simp [told, kept]
  | gap c => simp [told, kept]
  | newline => simp [told, kept, Text.weight_joinLine]
  | custom text ended =>
      have hcustom := Token.weight_ofCustom_le text
      simp only [told, kept, source, Token.weightAll_cons, Token.weightAll_nil, Text.weight_append]
      omega
  | semicolon =>
      simp only [told, kept, Text.weight_nil]
      split_ifs
      · simp
      · simp only [Token.weightAll_cons, Token.weightAll_nil]
        omega
  | opening =>
      have hbrace : Text.weight opening.source = 1 := by decide
      simp [told, kept, Token.weight, hbrace]
  | closing =>
      have hbrace : Text.weight closing.source = 1 := by decide
      have hcloses : Token.closes.weight = 1 := rfl
      simp only [told, kept, Text.weight_nil, Token.weightAll_append, Token.weightAll_cons,
        Token.weightAll_nil, hbrace, hcloses]
      split_ifs
      · simp
      · simp only [Token.weightAll_cons, Token.weightAll_nil]
        omega
  | plain c =>
      simp only [told, kept, source, Token.weightAll_nil]
      split_ifs
      · omega
      · rw [Text.weight_cons, Text.weight_cons, Text.weight_nil]
        omega

/-- A comment weighs at least as much as its two opening characters. -/
lemma two_le_weight_comment (text : List Char) (closed : Bool) :
    2 ≤ Text.weight (comment text closed).source := by
  have hopen : Text.weight ['/', '*'] = 2 := by decide
  have hsource : (comment text closed).source
      = ['/', '*'] ++ (text ++ if closed then ['*', '/'] else []) := rfl
  rw [hsource, Text.weight_append, hopen]
  omega

end Piece

/-- The run: a text tells nothing of weight that is not in it. -/
lemma Tells.weight_le {current cs : List Char} {tokens : List Token} (h : Tells current cs tokens) :
    Token.weightAll tokens ≤ Text.weight current + Text.weight cs := by
  induction h with
  | nil => exact Nat.zero_le _
  | @piece current rest rest' c p tokens hnext hbroken hrest ih =>
      have hpiece := p.weight_told_le current
      have hsource : p.source ++ rest' = c :: rest := by
        have := Piece.next_source current.isEmpty c rest (by rw [hnext]; exact hbroken)
        rwa [hnext] at this
      rw [← hsource, Text.weight_append, Token.weightAll_append]
      omega

/-- The text tells exactly this, and as much as it weighs. -/
structure Owes (current cs : List Char) (tokens : List Token) : Prop where
  tells : Tells current cs tokens
  weight_le : Text.weight current + Text.weight cs ≤ Token.weightAll tokens

/-- The first piece is no comment and loses nothing of weight, and neither does the rest. -/
lemma Owes.inv {current rest rest' : List Char} {c : Char} {p : Piece} {tokens : List Token}
    (h : Owes current (c :: rest) tokens)
    (hnext : Piece.next current.isEmpty c rest = (p, rest')) :
    p.source ++ rest' = c :: rest ∧ (∀ text, p ≠ .brokenString text) ∧
      (∀ text closed, p ≠ .comment text closed) ∧
      Text.weight current + Text.weight p.source
        ≤ Token.weightAll (p.told current) + Text.weight (p.kept current) ∧
      ∃ later, tokens = p.told current ++ later ∧ Owes (p.kept current) rest' later := by
  obtain ⟨hbroken, later, rfl, hlater⟩ := h.tells.inv hnext
  have hsource : p.source ++ rest' = c :: rest := by
    have := Piece.next_source current.isEmpty c rest (by rw [hnext]; exact hbroken)
    rwa [hnext] at this
  have htotal := h.weight_le
  have hpiece := p.weight_told_le current
  have hrest := hlater.weight_le
  rw [← hsource, Text.weight_append, Token.weightAll_append] at htotal
  refine ⟨hsource, hbroken, ?_, by omega, later, rfl, hlater, by omega⟩
  rintro text closed rfl
  have hcomment := Piece.two_le_weight_comment text closed
  have hnone : Token.weightAll ((Piece.comment text closed).told current) = 0 := rfl
  have hkept : (Piece.comment text closed).kept current = current := rfl
  rw [hkept] at hrest
  omega

/-- A blank in front of a node is taken and tells nothing. -/
lemma Piece.next_of_isGap {c : Char} (hc : isGap c = true) (fresh : Bool) (rest : List Char) :
    ∃ p, Piece.next fresh c rest = (p, rest) ∧ p.told [] = [] ∧ p.kept [] = [] := by
  obtain ⟨p, hnext, hp⟩ := Piece.next_blank hc fresh rest
  refine ⟨p, hnext, ?_⟩
  rcases hp with rfl | rfl | rfl
  · exact ⟨rfl, rfl⟩
  · exact ⟨rfl, rfl⟩
  · exact ⟨rfl, by simp [kept, hc]⟩

/-- In front of a node blanks tell nothing. -/
lemma Owes.of_blanks {blanks cs : List Char} {tokens : List Token}
    (hblanks : ∀ c ∈ blanks, isGap c = true) (h : Owes [] (blanks ++ cs) tokens) :
    Owes [] cs tokens := by
  induction blanks with
  | nil => exact h
  | cons c blanks ih =>
      rw [List.forall_mem_cons] at hblanks
      obtain ⟨p, hnext, htold, hkept⟩ := Piece.next_of_isGap hblanks.1 true (blanks ++ cs)
      obtain ⟨-, -, -, -, later, htokens, hlater⟩ := h.inv hnext
      rw [htold, List.nil_append] at htokens
      rw [hkept] at hlater
      exact ih hblanks.2 (htokens ▸ hlater)

/-! ## Text that was collected is told -/

lemma Piece.told_semicolon {current : List Char} (h : 0 < Text.ink current) :
    semicolon.told current = [.ofText current.reverse] := by
  rw [told, if_neg]
  rw [List.isEmpty_iff]
  intro hnil
  have hink := Text.ink_trim current.reverse
  rw [hnil, Text.ink_reverse, Text.ink_nil] at hink
  omega

/-- What is told next behind a text with ink is a block, a statement or a declaration that has at
least this text. -/
lemma Tells.grows {current cs : List Char} {tokens : List Token} (h : Tells current cs tokens)
    (hink : 0 < Text.ink current) {e : Token} {later : List Token} (htokens : tokens = e :: later) :
    ∃ text, Text.ink current ≤ Text.ink text ∧
      (e = .opens (String.ofList (Text.trim text)) ∨ e = .ofText text) := by
  induction h with
  | nil => cases htokens
  | @piece current rest rest' c p tokens hnext hbroken hrest ih =>
      have hne : current ≠ [] := by
        rintro rfl
        exact Nat.lt_irrefl 0 hink
      -- Pieces that only add to the text hand over to the pieces behind them.
      have hmore : p.told current = [] → Text.ink current ≤ Text.ink (p.kept current) →
          ∃ text, Text.ink current ≤ Text.ink text ∧
            (e = .opens (String.ofList (Text.trim text)) ∨ e = .ofText text) := by
        intro htold hle
        rw [htold, List.nil_append] at htokens
        obtain ⟨text, htext, he⟩ := ih (by omega) htokens
        exact ⟨text, by omega, he⟩
      cases p with
      | verbatim text => exact hmore rfl (by simp [Piece.kept])
      | comment text closed => exact hmore rfl (Nat.le_refl _)
      | brokenString text => exact absurd rfl (hbroken text)
      | gap c => exact hmore rfl (Nat.le_refl _)
      | newline =>
          refine hmore rfl ?_
          cases current with
          | nil => exact absurd rfl hne
          | cons last before =>
              rw [Piece.kept, Piece.joinLine]
              split_ifs
              · exact Nat.le_refl _
              · rw [Text.ink_cons ' ']
                omega
      | custom text ended =>
          have hfresh := Piece.fresh_of_next_custom (congrArg Prod.fst hnext)
          exact absurd (List.isEmpty_iff.1 hfresh) hne
      | semicolon =>
          rw [Piece.told_semicolon hink] at htokens
          refine ⟨current.reverse, by simp, Or.inr ?_⟩
          exact (List.cons.inj htokens).1.symm
      | opening =>
          refine ⟨current.reverse, by simp, Or.inl ?_⟩
          exact (List.cons.inj htokens).1.symm
      | closing =>
          have hempty : current.isEmpty = false := by simpa using hne
          rw [Piece.told, hempty] at htokens
          refine ⟨current.reverse, by simp, Or.inr ?_⟩
          exact (List.cons.inj htokens).1.symm
      | plain d =>
          refine hmore rfl ?_
          have hempty : current.isEmpty = false := by simpa using hne
          rw [Piece.kept, hempty, Bool.false_and, if_neg Bool.false_ne_true, Text.ink_cons]
          omega

/-! ## How selectors and properties begin -/

namespace Token

/-- The selector or the property. -/
def name : Token → List Char
  | .opens selector => selector.toList
  | .closes => []
  | .states selector => selector.toList
  | .declares property _ _ => property.toList

/-- Told by a reader: no name begins with a semicolon, texts are trimmed, and a statement begins as an
at-rule. -/
structure Proper (e : Token) : Prop where
  name : e.name.head? ≠ some ';'
  trimmed : Text.trim e.name = e.name
  value : ∀ property value important, e = .declares property value important →
    Text.trim value.toList = value.toList
  states : ∀ selector, e = .states selector → selector.toList.head? = some '@'

/-- A name begins as its text does. -/
lemma head?_name_ofParts {text : List Char} {parts : Option (List Char × List Char)}
    (hparts : ∀ before after, parts = some (before, after) → before ++ ':' :: after = text)
    {c : Char} (h : (ofParts text parts).name.head? = some c) :
    (Text.trimStart text).head? = some c := by
  cases parts with
  | none =>
      rw [ofParts, name, String.toList_ofList] at h
      simpa using Text.head?_trimStart_of_trim h []
  | some parts =>
      obtain ⟨before, after⟩ := parts
      have hname : (ofParts text (some (before, after))).name = Text.trim before := by
        rw [ofParts]
        split <;> rw [name, String.toList_ofList]
      rw [hname] at h
      rw [← hparts before after rfl]
      exact Text.head?_trimStart_of_trim h _

/-- A text that does not begin with a semicolon makes a proper token. -/
lemma proper_ofParts {text : List Char} {parts : Option (List Char × List Char)}
    (hparts : ∀ before after, parts = some (before, after) → before ++ ':' :: after = text)
    (htext : (Text.trimStart text).head? ≠ some ';') : (ofParts text parts).Proper := by
  obtain ⟨property, value, important, hdeclares⟩ := exists_ofParts text parts
  have hparsed := Parsed.of_ofParts hparts hdeclares
  refine ⟨fun h => htext (head?_name_ofParts hparts h), ?_, ?_, ?_⟩
  · rw [hdeclares]
    exact hparsed.trimmed.1
  · intro property' value' important' h
    rw [hdeclares] at h
    obtain ⟨-, rfl, -⟩ := Token.declares.inj h
    exact hparsed.trimmed.2
  · intro selector h
    rw [hdeclares] at h
    cases h

lemma proper_ofCustom {text : List Char} (htext : (Text.trimStart text).head? ≠ some ';') :
    (ofCustom text).Proper := by
  refine proper_ofParts (fun before after hparts => ?_) htext
  rcases Option.or_eq_some_iff.1 hparts with hcolon | ⟨-, hchar⟩
  · exact splitAtColon?_eq_some hcolon
  · exact (splitAtChar?_eq_some hchar).1

/-- A text that does not begin with a semicolon makes a proper token, statement or declaration. -/
lemma proper_ofText {text : List Char} (htext : (Text.trimStart text).head? ≠ some ';') :
    (ofText text).Proper := by
  rw [ofText]
  split_ifs with hat
  · obtain ⟨rest, rfl⟩ := List.head?_eq_some_iff.1 (beq_iff_eq.1 hat)
    have hname : (Text.trim ('@' :: rest)).head? = some '@' := by
      have hpre := Text.trimEnd_isPrefix ('@' :: rest)
      rw [Reading.trimEnd_eq_trim rfl] at hpre
      have hne := Text.trim_ne_nil (show '@' ∈ '@' :: rest by simp) (by decide)
      cases htrim : Text.trim ('@' :: rest) with
      | nil => exact absurd htrim hne
      | cons c middle =>
          rw [htrim, List.cons_prefix_cons] at hpre
          rw [hpre.1]
          rfl
    refine ⟨?_, ?_, nofun, fun selector h => ?_⟩
    · rw [name, String.toList_ofList, hname]
      decide
    · rw [name, String.toList_ofList, Text.trim_trim]
    · obtain rfl := Token.states.inj h
      rwa [String.toList_ofList]
  · exact proper_ofParts (fun _ _ hparts => (splitAtChar?_eq_some hparts).1) htext

end Token

namespace Piece

/-- Text that is kept as it stands begins with a backslash or a quote. -/
lemma head?_of_next_verbatim {fresh : Bool} {c : Char} {rest rest' text : List Char}
    (h : next fresh c rest = (.verbatim text, rest')) :
    ∃ d, text.head? = some d ∧ (d = '\\' ∨ d = '"' ∨ d = '\'') := by
  revert h
  fun_cases next fresh c rest with
  | case1 hesc =>
      cases rest with
      | nil =>
          intro h
          obtain rfl := Piece.verbatim.inj (Prod.mk.inj h).1
          exact ⟨'\\', rfl, Or.inl rfl⟩
      | cons d rest =>
          intro h
          obtain rfl := Piece.verbatim.inj (Prod.mk.inj h).1
          exact ⟨'\\', rfl, Or.inl rfl⟩
  | case3 _ _ hquote body =>
      intro h
      have hpiece := (Prod.mk.inj h).1
      cases hbody : stringBody c rest with
      | cutOff part => simp [body, hbody, quoted] at hpiece
      | closed part back =>
          simp only [body, hbody, quoted, Piece.verbatim.injEq] at hpiece
          rw [← hpiece]
          exact ⟨c, rfl, Or.inr (by simpa using hquote)⟩
  | _ => rintro ⟨⟩

lemma eq_cons_of_next_custom {fresh : Bool} {c : Char} {rest rest' text : List Char} {ended : Bool}
    (h : next fresh c rest = (.custom text ended, rest')) :
    ∃ back, text = '-' :: back := by
  revert h
  fun_cases next fresh c rest with
  | case1 hesc => cases rest <;> rintro ⟨⟩
  | case3 _ _ hquote body => cases hbody : stringBody c rest <;> simp [body, hbody, quoted]
  | case6 => exact fun h => ⟨_, (Piece.custom.inj (Prod.mk.inj h).1).1.symm⟩
  | _ => rintro ⟨⟩

lemma ne_semicolon_of_next_plain {fresh : Bool} {c d : Char} {rest rest' : List Char}
    (h : next fresh c rest = (.plain d, rest')) : d ≠ ';' := by
  rintro rfl
  revert h
  fun_cases next fresh c rest with
  | case1 hesc => cases rest <;> rintro ⟨⟩
  | case3 _ _ hquote body => cases hbody : stringBody c rest <;> simp [body, hbody, quoted]
  | case10 _ _ _ _ _ _ hsemi =>
      rintro ⟨⟩
      exact hsemi rfl
  | _ => rintro ⟨⟩

end Piece

/-- Behind a text that begins otherwise, no text begins with a semicolon. -/
lemma head?_trimStart_append {front back : List Char}
    (hfront : (Text.trimStart front).head? ≠ some ';')
    (hback : (Text.trimStart back).head? ≠ some ';') :
    (Text.trimStart (front ++ back)).head? ≠ some ';' := by
  rw [Text.trimStart, List.dropWhile_append]
  split_ifs with hempty
  · exact hback
  · cases hstart : front.dropWhile Text.isBlank with
    | nil => simp [hstart] at hempty
    | cons c start =>
        rw [Text.trimStart, hstart] at hfront
        exact hfront

namespace Piece

/-- Behind a text that does not begin with a semicolon a piece tells only what a printed text has. -/
lemma proper_of_told {current rest rest' : List Char} {c : Char} {p : Piece}
    (hnext : next current.isEmpty c rest = (p, rest'))
    (hlead : (Text.trimStart current.reverse).head? ≠ some ';') : ∀ e ∈ p.told current, e.Proper := by
  intro e he
  cases p with
  | custom text ended =>
      obtain rfl := List.mem_singleton.1 he
      obtain ⟨back, rfl⟩ := eq_cons_of_next_custom hnext
      exact Token.proper_ofCustom (by simp [Text.trimStart, Text.isBlank])
  | semicolon =>
      rw [told] at he
      split_ifs at he
      · cases he
      · obtain rfl := List.mem_singleton.1 he
        exact Token.proper_ofText hlead
  | opening =>
      obtain rfl := List.mem_singleton.1 he
      refine ⟨fun h => hlead ?_, ?_, by simp, by simp⟩
      · rw [Token.name, String.toList_ofList] at h
        simpa using Text.head?_trimStart_of_trim h []
      · rw [Token.name, String.toList_ofList, Text.trim_trim]
  | closing =>
      rw [told] at he
      rcases List.mem_append.1 he with he | he
      · split_ifs at he
        · cases he
        · obtain rfl := List.mem_singleton.1 he
          exact Token.proper_ofText hlead
      · obtain rfl := List.mem_singleton.1 he
        exact ⟨by simp [Token.name], rfl, by simp, by simp⟩
  | _ => cases he

/-- No piece puts a semicolon at the beginning of the text that is collected. -/
lemma head?_trimStart_kept {current rest rest' : List Char} {c : Char} {p : Piece}
    (hnext : next current.isEmpty c rest = (p, rest'))
    (hlead : (Text.trimStart current.reverse).head? ≠ some ';') :
    (Text.trimStart (p.kept current).reverse).head? ≠ some ';' := by
  have hnone : (Text.trimStart ([] : List Char).reverse).head? ≠ some ';' := by decide
  cases p with
  | verbatim text =>
      obtain ⟨d, hd, hmark⟩ := head?_of_next_verbatim hnext
      obtain ⟨back, rfl⟩ := List.head?_eq_some_iff.1 hd
      rw [kept, List.reverse_append, List.reverse_reverse]
      refine head?_trimStart_append hlead ?_
      rcases hmark with rfl | rfl | rfl <;> simp [Text.trimStart, Text.isBlank]
  | newline =>
      rw [kept]
      cases current with
      | nil => exact hlead
      | cons last before =>
          rw [joinLine]
          split_ifs
          · exact hlead
          · rw [List.reverse_cons]
            exact head?_trimStart_append hlead (by decide)
  | plain d =>
      rw [kept]
      split_ifs
      · exact hlead
      · rw [List.reverse_cons]
        refine head?_trimStart_append hlead ?_
        have hd := ne_semicolon_of_next_plain hnext
        cases hblank : Text.isBlank d <;> simp [Text.trimStart, hblank, hd]
  | semicolon => exact hnone
  | opening => exact hnone
  | closing => exact hnone
  | _ => exact hlead

end Piece

/-- All that is told of a text is proper, if what is collected does not begin with a semicolon. -/
lemma Tells.proper {current cs : List Char} {tokens : List Token} (h : Tells current cs tokens)
    (hlead : (Text.trimStart current.reverse).head? ≠ some ';') : ∀ e ∈ tokens, e.Proper := by
  induction h with
  | nil => exact List.forall_mem_nil _
  | piece hnext hbroken hrest ih =>
      intro e he
      rcases List.mem_append.1 he with he | he
      · exact Piece.proper_of_told hnext hlead e he
      · exact ih (Piece.head?_trimStart_kept hnext hlead) e he

end UtilityCss
