import UtilityCss.Proofs.BareTexts
import UtilityCss.Proofs.Verbatim

/-!
# The last semicolon of a block

A block may end with or without a semicolon behind its last declaration.  The two are read alike, with
one exception: `readUpToSpans_last_semicolon`.

* **Finishing a node** — a semicolon and a closing brace make the same node of the text in front of them
  (`nodeOf`), but the semicolon drops blank text where the brace only drops no text at all:
  `outline_pushSemicolon`, `outline_finishText_eq`.
* **Blank text** — spaces, newlines and tabs in front of a node are not collected, other blanks are.
  `Collected` relates the text that the reader holds to the part of the body behind its last semicolon,
  and `EndsBlank` says of the body when that text is blank.
* **The body** — `BodyRead`: with either ending behind it, the reader comes to its end with the same text
  collected, or a custom property is ended there, or one with an open bracket takes the ending in.
-/

namespace UtilityCss

/-- A text without backslashes, quotes and braces in which no comment begins. -/
structure Unbraced (cs : List Char) : Prop where
  escape : '\\' ∉ cs
  double : '"' ∉ cs
  single : '\'' ∉ cs
  opening : '{' ∉ cs
  closing : '}' ∉ cs
  comment : ¬ ['/', '*'] <:+: cs

instance : DecidablePred Unbraced := fun cs =>
  decidable_of_iff ('\\' ∉ cs ∧ '"' ∉ cs ∧ '\'' ∉ cs ∧ '{' ∉ cs ∧ '}' ∉ cs ∧ ¬ ['/', '*'] <:+: cs)
    ⟨fun h => ⟨h.1, h.2.1, h.2.2.1, h.2.2.2.1, h.2.2.2.2.1, h.2.2.2.2.2⟩,
      fun h => ⟨h.escape, h.double, h.single, h.opening, h.closing, h.comment⟩⟩

/-- Behind the last semicolon there are only blanks, and not only spaces, newlines and tabs. -/
def EndsBlank (cs : List Char) : Prop :=
  (∀ c ∈ lastPart cs, Text.isBlank c = true) ∧ ∃ c ∈ lastPart cs, isGap c = false

instance : DecidablePred EndsBlank := fun cs =>
  decidable_of_iff ((lastPart cs).all Text.isBlank = true ∧
    (lastPart cs).any (fun c => !isGap c) = true) (by simp [EndsBlank])

namespace Unbraced

lemma of_append {a b : List Char} (h : Unbraced (a ++ b)) : Unbraced b where
  escape hmem := h.escape (List.mem_append_right a hmem)
  double hmem := h.double (List.mem_append_right a hmem)
  single hmem := h.single (List.mem_append_right a hmem)
  opening hmem := h.opening (List.mem_append_right a hmem)
  closing hmem := h.closing (List.mem_append_right a hmem)
  comment hpair := h.comment (hpair.trans (List.suffix_append a b).isInfix)

variable {c : Char} {cs : List Char} (h : Unbraced (c :: cs))
include h

/-- A character of such a text is none of these. -/
lemma head : c ∉ ['\\', '"', '\'', '{', '}'] := by
  simp only [List.mem_cons, List.not_mem_nil, or_false, not_or]
  refine ⟨?_, ?_, ?_, ?_, ?_⟩
  · rintro rfl; exact h.escape List.mem_cons_self
  · rintro rfl; exact h.double List.mem_cons_self
  · rintro rfl; exact h.single List.mem_cons_self
  · rintro rfl; exact h.opening List.mem_cons_self
  · rintro rfl; exact h.closing List.mem_cons_self

/-- No comment begins at the first character, if what stands behind the text does not join it. -/
lemma head_append {tail : List Char} (htail : tail.head? ≠ some '*') :
    c = '/' → (cs ++ tail).head? ≠ some '*' := by
  rintro rfl hstar
  cases cs with
  | nil => exact htail hstar
  | cons d cs =>
      obtain rfl := Option.some.inj hstar
      exact h.comment ⟨[], cs, rfl⟩

end Unbraced

/-! ## Finishing a node -/

/-- What a text makes that a semicolon or a closing brace finishes, up to its span. -/
def nodeOf (text : List Char) : Node :=
  if text.head? == some '@' then .rule (String.ofList (Text.trim text)) [] false none
  else (plainDeclaration text .nowhere).clearSpans

lemma nodeOf_of_blank {text : List Char} (h : ∀ c ∈ text, Text.isBlank c = true) :
    nodeOf text = .declaration "" "" false none := by
  have hnot : ∀ {c : Char}, Text.isBlank c = false → c ∉ text := by
    intro c hc hmem
    rw [h c hmem] at hc
    cases hc
  have hat : ¬ (text.head? == some '@') = true := fun hhead =>
    hnot (by decide) (List.mem_of_head? (beq_iff_eq.1 hhead))
  have hcolon : splitAtChar? ':' text = none := by
    cases hsplit : splitAtChar? ':' text with
    | none => rfl
    | some parts =>
        obtain ⟨before, after⟩ := parts
        exact absurd (by simp [← (splitAtChar?_eq_some hsplit).1]) (hnot (c := ':') (by decide))
  rw [nodeOf, if_neg hat, plainDeclaration, hcolon, declarationOf]
  dsimp only
  rw [Text.trim_of_blank h]
  rfl

namespace Reading

/-- A semicolon drops blank text. -/
lemma outline_pushSemicolon (r : Reading) : r.pushSemicolon.outline =
    if (Text.trim r.text).isEmpty then r.clear.outline else r.clear.outline.attach (nodeOf r.text) := by
  rw [pushSemicolon, readsAtRule, nodeOf]
  by_cases hat : (r.text.head? == some '@') = true
  · have hblank : ¬ (Text.trim r.text).isEmpty = true := fun hempty =>
      Text.trim_ne_nil (List.mem_of_head? (beq_iff_eq.1 hat)) (by decide) (List.isEmpty_iff.1 hempty)
    rw [if_pos hat, if_neg hblank, if_pos hat, outline_attach, trimEnd_eq_trim (beq_iff_eq.1 hat)]
    rfl
  · rw [if_neg hat, if_neg hat]
    split_ifs
    · rfl
    · rw [outline_attach]
      exact congrArg _ (clearSpans_declarationOf_congr _ _ _ _)

/-- A closing brace drops only text that is empty. -/
lemma outline_finishText_eq (r : Reading) : r.finishText.outline =
    if r.current.isEmpty then r.outline else r.clear.outline.attach (nodeOf r.text) := by
  rw [finishText, readsAtRule, nodeOf]
  split_ifs
  · rfl
  · rw [outline_attach]
    rfl
  · rw [outline_attach]
    exact congrArg _ (clearSpans_declarationOf_congr _ _ _ _)

end Reading

/-- The outline inside of the block of `.a`. -/
def inBlock (nodes : List Node) (current : List Char) : Outline :=
  ⟨[], [], [(".a", nodes)], current⟩

/-- A semicolon finishes the text that is collected, unless that is blank. -/
lemma leads_inBlock_semicolon (nodes : List Node) (current rest : List Char) :
    Leads (inBlock nodes current) (';' :: rest)
      (inBlock (if (Text.trim current.reverse).isEmpty then nodes
        else nodeOf current.reverse :: nodes) []) rest := by
  refine Leads.of_push (p := .semicolon) (by simp [Piece.next, isGap]) fun r hr => ⟨_, rfl, ?_⟩
  have htext : r.text = current.reverse := by rw [Reading.text, ← Reading.outline_current, hr]; rfl
  rw [Reading.outline_advance, Reading.outline_pushSemicolon, htext, Reading.outline_clear, hr]
  split_ifs <;> rfl

/-- A closing brace finishes it unless it is empty. -/
lemma leads_inBlock_closing (nodes : List Node) (current rest : List Char) :
    Leads (inBlock nodes current) ('\x7d' :: rest)
      ⟨[.rule ".a" (nodes.reverse ++ if current.isEmpty then [] else [nodeOf current.reverse]) true none],
        [], [], []⟩ rest := by
  have hfinish : ∀ r : Reading, r.outline = inBlock nodes current → r.finishText.outline
      = inBlock (if current.isEmpty then nodes else nodeOf current.reverse :: nodes) [] := by
    intro r hr
    have hcurrent : r.current = current := by rw [← Reading.outline_current, hr]; rfl
    rw [Reading.outline_finishText_eq, Reading.text, hcurrent, Reading.outline_clear, hr]
    cases current <;> rfl
  have hleads := leads_of_finishText (List.cons_ne_nil _ _) hfinish rest
  cases current with
  | nil => simpa [inBlock, Outline.leave, Outline.attach] using hleads
  | cons c current => simpa [inBlock, Outline.leave, Outline.attach] using hleads

/-! ## Text that is collected -/

/-- The text held, back to front, behind the part of a body that was read since the last semicolon. -/
structure Collected (part current : List Char) : Prop where
  kept : ∀ c ∈ part, isGap c = false → c ∈ current
  only : ∀ c ∈ current, isGap c = true ∨ c ∈ part
  begun : current ≠ [] → ∃ c ∈ current, isGap c = false

namespace Collected

lemma nil : Collected [] [] :=
  ⟨nofun, nofun, fun h => absurd rfl h⟩

/-- Behind a semicolon nothing is collected yet. -/
lemma behind_semicolon (seen : List Char) : Collected (lastPart (seen ++ [';'])) [] := by
  rw [lastPart_concat_of_mem (by simp)]
  exact nil

/-- The text is blank, and there is some, exactly if the part has only blanks that are not all
dropped. -/
lemma blank_iff {part current : List Char} (h : Collected part current) :
    (current ≠ [] ∧ ∀ c ∈ current, Text.isBlank c = true) ↔
      (∀ c ∈ part, Text.isBlank c = true) ∧ ∃ c ∈ part, isGap c = false := by
  constructor
  · rintro ⟨hne, hblank⟩
    refine ⟨fun c hc => ?_, ?_⟩
    · cases hgap : isGap c with
      | true => exact isBlank_of_isGap hgap
      | false => exact hblank c (h.kept c hc hgap)
    · obtain ⟨c, hc, hgap⟩ := h.begun hne
      refine ⟨c, (h.only c hc).resolve_left ?_, hgap⟩
      simp [hgap]
  · rintro ⟨hblank, c, hc, hgap⟩
    refine ⟨List.ne_nil_of_mem (h.kept c hc hgap), fun d hd => ?_⟩
    rcases h.only d hd with hd | hd
    · exact isBlank_of_isGap hd
    · exact hblank d hd

/-- The step: a character joins the text or is a blank that is dropped. -/
lemma push {part current : List Char} (h : Collected part current) {c : Char} (next : Option Char)
    (hc : c ∉ ['{', '}', ';']) :
    Collected (part ++ [c]) ((Piece.ofChar c next).kept current) := by
  have hdropped : isGap c = true → Collected (part ++ [c]) current := by
    intro hgap
    refine ⟨fun d hd hink => ?_, fun d hd => (h.only d hd).imp_right (List.mem_append_left _), h.begun⟩
    rcases List.mem_append.1 hd with hd | hd
    · exact h.kept d hd hink
    · rw [List.mem_singleton.1 hd, hgap] at hink
      cases hink
  simp only [List.mem_cons, List.not_mem_nil, or_false, not_or] at hc
  rw [Piece.ofChar]
  split_ifs with hgap hline
  · exact hdropped (Bool.and_eq_true_iff.1 hgap).1
  · -- A newline joins the text as a space.
    have hjoined := hdropped (by rw [hline]; rfl)
    rw [Piece.kept]
    cases current with
    | nil => exact hjoined
    | cons last before =>
        rw [Piece.joinLine]
        split_ifs
        · exact hjoined
        · refine ⟨fun d hd hink => List.mem_cons_of_mem _ (hjoined.kept d hd hink), fun d hd => ?_,
            fun _ => ?_⟩
          · rcases List.mem_cons.1 hd with rfl | hd
            · exact Or.inl rfl
            · exact hjoined.only d hd
          · obtain ⟨d, hd, hink⟩ := h.begun (List.cons_ne_nil _ _)
            exact ⟨d, List.mem_cons_of_mem _ hd, hink⟩
  · exact absurd ‹_› hc.2.2
  · exact absurd ‹_› hc.1
  · exact absurd ‹_› hc.2.1
  · rw [Piece.kept]
    split_ifs with hfront
    · exact hdropped (Bool.and_eq_true_iff.1 hfront).2
    · refine ⟨fun d hd hink => ?_, fun d hd => ?_, fun _ => ?_⟩
      · rcases List.mem_append.1 hd with hd | hd
        · exact List.mem_cons_of_mem _ (h.kept d hd hink)
        · exact List.mem_cons.2 (Or.inl (List.mem_singleton.1 hd))
      · rcases List.mem_cons.1 hd with rfl | hd
        · exact Or.inr (by simp)
        · exact (h.only d hd).imp_right (List.mem_append_left _)
      · cases hcurrent : current with
        | nil =>
            rw [hcurrent] at hfront
            exact ⟨c, List.mem_cons_self, by simpa using hfront⟩
        | cons last before =>
            obtain ⟨d, hd, hink⟩ := h.begun (by simp [hcurrent])
            rw [hcurrent] at hd
            exact ⟨d, List.mem_cons_of_mem _ hd, hink⟩

end Collected

lemma Piece.ofChar_congr (c : Char) {next next' : Option Char} (h : next.any isGap = next'.any isGap) :
    ofChar c next = ofChar c next' := by
  rw [ofChar, ofChar, h]

/-- A character that begins nothing longer and is no brace leads to the text that it keeps. -/
lemma leads_ofChar {c : Char} {rest current : List Char} (hc : c ∉ ['{', '}', ';'])
    (hnext : Piece.next current.isEmpty c rest = (.ofChar c rest.head?, rest)) (nodes : List Node) :
    Leads (inBlock nodes current) (c :: rest)
      (inBlock nodes ((Piece.ofChar c rest.head?).kept current)) rest := by
  simp only [List.mem_cons, List.not_mem_nil, or_false, not_or] at hc
  refine Leads.of_push hnext fun r hr => ?_
  have hcurrent : r.current = current := by rw [← Reading.outline_current, hr]; rfl
  have hquiet : ∀ text, ({ r with current := text } : Reading).outline = inBlock nodes text := by
    intro text
    show ({ r.outline with current := text } : Outline) = _
    rw [hr]
    rfl
  rw [Piece.ofChar]
  split_ifs with hgap hline
  · exact ⟨_, rfl, hr⟩
  · refine ⟨_, rfl, ?_⟩
    rw [Reading.outline_advance, Reading.pushNewline, hcurrent, Piece.kept]
    cases current with
    | nil => exact hr
    | cons last before =>
        dsimp only
        rw [Piece.joinLine]
        split_ifs
        · exact hr
        · exact hquiet _
  · exact absurd ‹_› hc.2.2
  · exact absurd ‹_› hc.1
  · exact absurd ‹_› hc.2.1
  · refine ⟨_, rfl, ?_⟩
    rw [Reading.outline_advance, Reading.pushPlain, hcurrent, Piece.kept]
    split_ifs
    · exact hr
    · rw [Reading.outline_append, hr]
      rfl

/-! ## Custom properties -/

/-- A semicolon closes no bracket. -/
lemma semicolon_not_mem {brackets : List Char} (hbrackets : ∀ x ∈ brackets, x ∈ [')', ']', '}']) :
    ';' ∉ brackets :=
  fun hmem => absurd (hbrackets ';' hmem) (by decide)

/-- Where no bracket is open behind a character of a custom property, something other than a blank
stands behind the last semicolon: it stood there before, or the character closed the last bracket. -/
lemma ink_of_bracketsAfter_eq_nil {brackets seen : List Char} {c : Char}
    (hbrackets : ∀ x ∈ brackets, x ∈ [')', ']', '}'])
    (hseen : brackets = [] → ∃ d ∈ lastPart seen, Text.isBlank d = false)
    (hbrace : c ≠ '{' ∧ c ≠ '}') (hend : ¬ (brackets = [] ∧ (c = ';' ∨ c = '}')))
    (hnil : bracketsAfter brackets c = []) :
    ∃ d ∈ lastPart (seen ++ [c]), Text.isBlank d = false := by
  have hne : c ≠ ';' := by
    rintro rfl
    rw [bracketsAfter_of_not_mem (by decide) (semicolon_not_mem hbrackets)] at hnil
    exact hend ⟨hnil, Or.inl rfl⟩
  rw [lastPart_concat_of_not_mem (by simp [hne, hbrace])]
  cases brackets with
  | nil =>
      obtain ⟨d, hd, hink⟩ := hseen rfl
      exact ⟨d, List.mem_append_left _ hd, hink⟩
  | cons close brackets =>
      refine ⟨c, by simp, ?_⟩
      rw [bracketsAfter] at hnil
      split at hnil
      · cases hnil
      · split_ifs at hnil with hclose
        obtain rfl : close = c := by simpa using hclose
        have hmem := hbrackets close List.mem_cons_self
        simp only [List.mem_cons, List.not_mem_nil, or_false] at hmem
        rcases hmem with rfl | rfl | rfl <;> decide

/-- A custom property ends at a semicolon of the text, or goes on behind it with these brackets open.  If
none is open there, something other than a blank stands behind the last semicolon. -/
lemma customBody_unbraced {cs : List Char} (h : Unbraced cs) {brackets seen : List Char}
    (hbrackets : ∀ x ∈ brackets, x ∈ [')', ']', '}'])
    (hseen : brackets = [] → ∃ c ∈ lastPart seen, Text.isBlank c = false) :
    (∃ text rest, cs = text ++ ';' :: rest ∧ ∀ tail : List Char, tail.head? ≠ some '*' →
        customBody false brackets (cs ++ tail) = (text, true, rest ++ tail)) ∨
      ∃ brackets', ';' ∉ brackets' ∧
        (brackets' = [] → ∃ c ∈ lastPart (seen ++ cs), Text.isBlank c = false) ∧
        ∀ tail : List Char, tail.head? ≠ some '*' → customBody false brackets (cs ++ tail)
          = (cs ++ (customBody false brackets' tail).1, (customBody false brackets' tail).2) := by
  induction cs generalizing brackets seen with
  | nil => exact Or.inr ⟨brackets, semicolon_not_mem hbrackets, by simpa using hseen, fun tail _ => rfl⟩
  | cons c cs ih =>
      have hc := h.head
      simp only [List.mem_cons, List.not_mem_nil, or_false, not_or] at hc
      cases hnest : nest brackets c with
      | none =>
          left
          rw [nest] at hnest
          split_ifs at hnest with hstop
          obtain ⟨rfl, rfl | rfl⟩ := hstop
          · exact ⟨[], cs, rfl, fun tail _ => by simp [customBody]⟩
          · exact absurd rfl hc.2.2.2.2
      | some brackets' =>
          have hstop := hnest
          rw [nest] at hnest
          split_ifs at hnest with hend
          obtain rfl := Option.some.inj hnest
          have hbehind := ink_of_bracketsAfter_eq_nil hbrackets hseen
            ⟨hc.2.2.2.1, hc.2.2.2.2⟩ hend
          have hmore : ∀ x ∈ bracketsAfter brackets c, x ∈ [')', ']', '}'] := fun x hx =>
            (mem_of_mem_bracketsAfter hx).elim (hbrackets x) id
          have hstep : ∀ tail : List Char, tail.head? ≠ some '*' →
              customBody false brackets (c :: (cs ++ tail))
                = (c :: (customBody false (bracketsAfter brackets c) (cs ++ tail)).1,
                  (customBody false (bracketsAfter brackets c) (cs ++ tail)).2) := fun tail htail =>
            customBody_bare (turn_bare hc.1 (h.head_append htail)) hstop
          rcases ih (h.of_append (a := [c])) hmore hbehind with
            ⟨text, rest, rfl, hbody⟩ | ⟨brackets', hopen, hpart, hbody⟩
          · refine Or.inl ⟨c :: text, rest, rfl, fun tail htail => ?_⟩
            rw [List.cons_append, hstep tail htail, hbody tail htail]
          · refine Or.inr ⟨brackets', hopen, ?_, fun tail htail => ?_⟩
            · rwa [List.append_assoc, List.singleton_append] at hpart
            · rw [List.cons_append, hstep tail htail, hbody tail htail]
              rfl

/-- A custom property becomes a child of the block. -/
lemma leads_custom_node (nodes : List Node) {cs text rest : List Char} {ended : Bool}
    (hbody : customBody false [] cs = (text, ended, rest)) :
    Leads (inBlock nodes []) ('-' :: '-' :: cs)
      (inBlock ((customDeclaration ('-' :: '-' :: text) .nowhere).clearSpans :: nodes) []) rest := by
  obtain ⟨property, value, important, h⟩ := Token.exists_ofParts ('-' :: '-' :: text)
    ((splitAtColon? false ('-' :: '-' :: text)).or (splitAtChar? ':' ('-' :: '-' :: text)))
  have hleads := leads_custom (o := inBlock nodes []) rfl hbody h
  rwa [← clearSpans_declarationOf h .nowhere] at hleads

/-! ## The body -/

/-- How a body is read behind the first nodes of its block, in front of either ending. -/
inductive BodyRead (nodes : List Node) (current cs part : List Char) : Prop
  /-- The reader is in front of the ending, with the text of the last part. -/
  | collected (nodes' : List Node) (current' : List Char) (hpart : Collected part current')
      (hbrace : Leads (inBlock nodes current) (cs ++ ['\x7d']) (inBlock nodes' current') ['\x7d'])
      (hsemicolon : Leads (inBlock nodes current) (cs ++ [';', '\x7d']) (inBlock nodes' current')
        [';', '\x7d'])
  /-- The ending ends a custom property. -/
  | declared (nodes' : List Node) (hpart : ∃ c ∈ part, Text.isBlank c = false)
      (hbrace : Leads (inBlock nodes current) (cs ++ ['\x7d']) (inBlock nodes' []) ['\x7d'])
      (hsemicolon : Leads (inBlock nodes current) (cs ++ [';', '\x7d']) (inBlock nodes' []) ['\x7d'])
  /-- The ending belongs to a custom property. -/
  | swallowed (nodes₁ nodes₂ : List Node)
      (hbrace : Leads (inBlock nodes current) (cs ++ ['\x7d']) (inBlock nodes₁ []) [])
      (hsemicolon : Leads (inBlock nodes current) (cs ++ [';', '\x7d']) (inBlock nodes₂ []) [])

namespace BodyRead

/-- A body of which the beginning was read in front of both endings. -/
lemma of_leads {nodes nodes' : List Node} {current current' front cs part : List Char}
    (h : BodyRead nodes' current' cs part)
    (hleads : ∀ tail : List Char, tail.head? = some ';' ∨ tail.head? = some '\x7d' →
      Leads (inBlock nodes current) (front ++ cs ++ tail) (inBlock nodes' current') (cs ++ tail)) :
    BodyRead nodes current (front ++ cs) part := by
  have hbrace := hleads ['\x7d'] (Or.inr rfl)
  have hsemicolon := hleads [';', '\x7d'] (Or.inl rfl)
  cases h with
  | collected nodes'' current'' hpart h₁ h₂ =>
      exact .collected nodes'' current'' hpart (hbrace.trans h₁) (hsemicolon.trans h₂)
  | declared nodes'' hpart h₁ h₂ => exact .declared nodes'' hpart (hbrace.trans h₁) (hsemicolon.trans h₂)
  | swallowed nodes₁ nodes₂ h₁ h₂ =>
      exact .swallowed nodes₁ nodes₂ (hbrace.trans h₁) (hsemicolon.trans h₂)

/-- A custom property that is not ended in the body. -/
lemma custom {cs brackets part : List Char} (nodes : List Node) (hopen : ';' ∉ brackets)
    (hpart : brackets = [] → ∃ c ∈ part, Text.isBlank c = false)
    (hbody : ∀ tail : List Char, tail.head? ≠ some '*' → customBody false [] (cs ++ tail)
      = (cs ++ (customBody false brackets tail).1, (customBody false brackets tail).2)) :
    BodyRead nodes [] ('-' :: '-' :: cs) part := by
  have hbrace := hbody ['\x7d'] (by simp)
  have hsemicolon := hbody [';', '\x7d'] (by simp)
  cases brackets with
  | nil => exact .declared _ (hpart rfl) (leads_custom_node nodes hbrace) (leads_custom_node nodes hsemicolon)
  | cons close brackets =>
      have hlast : customBody false (close :: brackets) ['\x7d'] = (['\x7d'], false, []) := by
        simp [customBody]
      have hboth : customBody false (close :: brackets) [';', '\x7d'] = ([';', '\x7d'], false, []) := by
        have hkept := bracketsAfter_of_not_mem (by decide) hopen
        simp [customBody, hkept]
      rw [hlast] at hbrace
      rw [hboth] at hsemicolon
      exact .swallowed _ _ (leads_custom_node nodes hbrace) (leads_custom_node nodes hsemicolon)

end BodyRead

/-- The step inside of a node: its next character joins the text or is dropped. -/
lemma leads_collected {c : Char} {cs current tail : List Char} (h : Unbraced (c :: cs))
    (hc : c ∉ ['{', '}', ';']) (hcustom : ¬ (c = '-' ∧ current = [] ∧ cs.head? = some '-'))
    (htail : tail.head? = some ';' ∨ tail.head? = some '\x7d') (nodes : List Node) :
    Leads (inBlock nodes current) (c :: (cs ++ tail))
      (inBlock nodes ((Piece.ofChar c cs.head?).kept current)) (cs ++ tail) := by
  obtain ⟨hstar, hhyphen, hgap⟩ : tail.head? ≠ some '*' ∧ tail.head? ≠ some '-' ∧
      tail.head?.any isGap = false := by
    rcases htail with htail | htail <;> simp [htail, isGap]
  have hbare : c ∉ ['\\', '"', '\''] := fun hmem =>
    h.head (List.mem_append_left ['{', '\x7d'] hmem)
  have hnext : Piece.next current.isEmpty c (cs ++ tail) = (.ofChar c (cs ++ tail).head?, cs ++ tail) := by
    refine Piece.next_eq_ofChar hbare (h.head_append hstar) fun hdash hfresh => ?_
    cases cs with
    | nil => exact hhyphen
    | cons d cs => exact fun hd => hcustom ⟨hdash, List.isEmpty_iff.1 hfresh, hd⟩
  have hsame : (cs ++ tail).head?.any isGap = cs.head?.any isGap := by
    cases cs with
    | nil => exact hgap
    | cons d cs => rfl
  have hleads := leads_ofChar hc hnext nodes
  rwa [Piece.ofChar_congr c hsame] at hleads

/-- The run: every body is read so. -/
lemma bodyRead {cs : List Char} (h : Unbraced cs) (nodes : List Node) {current seen : List Char}
    (hseen : Collected (lastPart seen) current) :
    BodyRead nodes current cs (lastPart (seen ++ cs)) := by
  -- A custom property takes many characters at once, so the induction is on the length.
  induction hn : cs.length using Nat.strong_induction_on generalizing cs nodes current seen with
  | _ n ih =>
      cases cs with
      | nil => exact .collected nodes current (by simpa using hseen) (.refl _ _) (.refl _ _)
      | cons c cs =>
          have hc := h.head
          simp only [List.mem_cons, List.not_mem_nil, or_false, not_or] at hc
          have hshort : cs.length < n := by simp [← hn]
          by_cases hsemi : c = ';'
          · -- A node is finished, and nothing is collected.
            subst hsemi
            rw [← List.singleton_append, ← List.append_assoc]
            have hrest := ih cs.length hshort (h.of_append (a := [';']))
              (if (Text.trim current.reverse).isEmpty then nodes else nodeOf current.reverse :: nodes)
              (.behind_semicolon seen) rfl
            exact hrest.of_leads fun tail _ => leads_inBlock_semicolon nodes current (cs ++ tail)
          by_cases hcustom : c = '-' ∧ current = [] ∧ cs.head? = some '-'
          · obtain ⟨rfl, rfl, hhyphen⟩ := hcustom
            obtain ⟨cs, rfl⟩ := List.head?_eq_some_iff.1 hhyphen
            have hink : ([] : List Char) = [] →
                ∃ d ∈ lastPart (seen ++ ['-', '-']), Text.isBlank d = false := fun _ => by
              refine ⟨'-', ?_, by decide⟩
              rw [← List.singleton_append, ← List.append_assoc,
                lastPart_concat_of_not_mem (by decide)]
              simp
            rcases customBody_unbraced (h.of_append (a := ['-', '-'])) (List.forall_mem_nil _) hink
              with ⟨text, rest, rfl, hbody⟩ | ⟨brackets, hopen, hpart, hbody⟩
            · -- It is ended in the body, and reading goes on behind it.
              have hrest := ih rest.length
                (by simp only [← hn, List.length_cons, List.length_append]; omega)
                (Unbraced.of_append (a := '-' :: '-' :: text ++ [';']) (by simpa using h))
                ((customDeclaration ('-' :: '-' :: text) .nowhere).clearSpans :: nodes)
                (.behind_semicolon (seen ++ '-' :: '-' :: text)) rfl
              have hleads : ∀ tail : List Char, tail.head? = some ';' ∨ tail.head? = some '\x7d' →
                  Leads (inBlock nodes []) ('-' :: '-' :: text ++ [';'] ++ rest ++ tail)
                    (inBlock ((customDeclaration ('-' :: '-' :: text) .nowhere).clearSpans :: nodes)
                      []) (rest ++ tail) := by
                intro tail htail
                have hended := hbody tail (by rcases htail with htail | htail <;> simp [htail])
                simpa using leads_custom_node nodes hended
              simpa using hrest.of_leads hleads
            · rw [List.append_assoc] at hpart
              exact .custom nodes hopen hpart hbody
          · -- The character joins the text or is dropped.
            rw [← List.singleton_append, ← List.append_assoc]
            have hplain : c ∉ ['{', '}', ';'] := by simp [hc, hsemi]
            have hjoined : Collected (lastPart (seen ++ [c]))
                ((Piece.ofChar c cs.head?).kept current) := by
              rw [lastPart_concat_of_not_mem hplain]
              exact hseen.push cs.head? hplain
            have hrest := ih cs.length hshort (h.of_append (a := [c])) nodes hjoined rfl
            exact hrest.of_leads fun tail htail => leads_collected h hplain hcustom htail nodes

/-! ## The last semicolon -/

/-- What a text leads to is what is read. -/
lemma readUpToSpans_of_leads (file : Nat) {text : String} {o : Outline}
    (h : Leads .empty text.toList o []) : readUpToSpans file text = o.finish := by
  obtain ⟨r, hr, hrun⟩ := h { file } rfl
  rw [readUpToSpans_of_run file text hrun, Reading.run, Except.bind, finish_upToSpans, hr]

/-- **The last semicolon.**  A block without backslashes, quotes, braces and comments is read alike with
and without a semicolon in front of its closing brace, unless behind its last semicolon there are only
blanks that are not all spaces, newlines and tabs.  Then the brace makes a declaration without property
and value of them, which the semicolon does not. -/
theorem readUpToSpans_last_semicolon (file : Nat) {body : String} (h : Unbraced body.toList) :
    (¬ EndsBlank body.toList →
      readUpToSpans file (".a\x7b" ++ body ++ "\x7d") = readUpToSpans file (".a\x7b" ++ body ++ ";\x7d")) ∧
    (EndsBlank body.toList →
      (∃ e, readUpToSpans file (".a\x7b" ++ body ++ "\x7d") = .error e ∧
        readUpToSpans file (".a\x7b" ++ body ++ ";\x7d") = .error e) ∨
      ∃ nodes, readUpToSpans file (".a\x7b" ++ body ++ ";\x7d") = .ok [.rule ".a" nodes true none] ∧
        readUpToSpans file (".a\x7b" ++ body ++ "\x7d")
          = .ok [.rule ".a" (nodes ++ [.declaration "" "" false none]) true none]) := by
  have hread : ∀ (ending : String) {o : Outline},
      Leads (inBlock [] []) (body.toList ++ ending.toList) o [] →
        readUpToSpans file (".a\x7b" ++ body ++ ending) = o.finish := fun ending _ hleads =>
    readUpToSpans_of_leads file (by simpa using (leads_head _).trans hleads)
  have hseen : Collected (lastPart []) [] := .nil
  cases bodyRead h [] hseen with
  | collected nodes current hpart hbrace hsemicolon =>
      have hfirst := hread "\x7d" (hbrace.trans (leads_inBlock_closing nodes current []))
      have hsecond := hread ";\x7d" (hsemicolon.trans
        ((leads_inBlock_semicolon nodes current ['\x7d']).trans (leads_inBlock_closing _ _ [])))
      rw [hfirst, hsecond]
      have hends : EndsBlank body.toList ↔ current ≠ [] ∧ (Text.trim current.reverse).isEmpty = true := by
        rw [Text.trim_isEmpty_iff]
        simpa [EndsBlank] using hpart.blank_iff.symm
      by_cases hblank : (Text.trim current.reverse).isEmpty = true
      · rw [if_pos hblank]
        cases hcurrent : current with
        | nil => exact ⟨fun _ => rfl, fun hbody => absurd hcurrent (hends.1 hbody).1⟩
        | cons c before =>
            refine ⟨fun hbody => absurd (hends.2 ⟨by simp [hcurrent], hblank⟩) hbody, fun _ => ?_⟩
            refine Or.inr ⟨nodes.reverse ++ [], rfl, ?_⟩
            rw [← hcurrent, nodeOf_of_blank (Text.trim_isEmpty_iff.1 hblank), List.append_nil, hcurrent]
            rfl
      · refine ⟨fun _ => ?_, fun hbody => absurd (hends.1 hbody).2 hblank⟩
        have hne : ¬ current.isEmpty = true := by
          intro hempty
          rw [List.isEmpty_iff.1 hempty] at hblank
          exact hblank rfl
        rw [if_neg hblank, if_neg hne, List.reverse_cons]
        simp only [List.isEmpty_nil, if_true, List.append_nil]
  | declared nodes hpart hbrace hsemicolon =>
      have hfirst := hread "\x7d" (hbrace.trans (leads_inBlock_closing nodes [] []))
      have hsecond := hread ";\x7d" (hsemicolon.trans (leads_inBlock_closing nodes [] []))
      refine ⟨fun _ => hfirst.trans hsecond.symm, fun hblank => ?_⟩
      obtain ⟨c, hc, hink⟩ := hpart
      rw [hblank.1 c hc] at hink
      cases hink
  | swallowed nodes₁ nodes₂ hbrace hsemicolon =>
      have hfirst := hread "\x7d" hbrace
      have hsecond := hread ";\x7d" hsemicolon
      exact ⟨fun _ => hfirst.trans hsecond.symm, fun _ => Or.inl ⟨_, hfirst, hsecond⟩⟩

/-- A custom property with a semicolon in brackets, and a newline behind the last declaration. -/
theorem readUpToSpans_last_semicolon_newline :
    Unbraced "--x:[;];c:d\n".toList ∧ ¬ EndsBlank "--x:[;];c:d\n".toList ∧
      readUpToSpans 0 (".a\x7b" ++ "--x:[;];c:d\n" ++ "\x7d")
        = .ok [.rule ".a" [.declaration "--x" "[;]" false none, .declaration "c" "d" false none]
            true none] ∧
      readUpToSpans 0 (".a\x7b" ++ "--x:[;];c:d\n" ++ ";\x7d")
        = .ok [.rule ".a" [.declaration "--x" "[;]" false none, .declaration "c" "d" false none]
            true none] := by
  have hbody : Unbraced "--x:[;];c:d\n".toList := by decide
  have hend : ¬ EndsBlank "--x:[;];c:d\n".toList := by decide
  have hread : readStylesheet 0 (".a\x7b" ++ "--x:[;];c:d\n" ++ "\x7d")
      = .ok [.rule ".a" [.declaration "--x" "[;]" false (some ⟨0, 3, 11⟩),
          .declaration "c" "d" false (some ⟨0, 11, 15⟩)] true (some ⟨0, 0, 16⟩)] := by
    with_unfolding_all rfl
  have hfirst : readUpToSpans 0 (".a\x7b" ++ "--x:[;];c:d\n" ++ "\x7d")
      = .ok [.rule ".a" [.declaration "--x" "[;]" false none, .declaration "c" "d" false none]
          true none] := by
    rw [readUpToSpans, hread]
    rfl
  exact ⟨hbody, hend, hfirst, ((readUpToSpans_last_semicolon 0 hbody).1 hend).symm.trans hfirst⟩

/-- A form feed in front of the closing brace is a declaration, in front of a semicolon it is not. -/
theorem readUpToSpans_form_feed :
    Unbraced "\x0c".toList ∧ EndsBlank "\x0c".toList ∧
      readUpToSpans 0 (".a\x7b" ++ "\x0c" ++ "\x7d")
        = .ok [.rule ".a" [.declaration "" "" false none] true none] ∧
      readUpToSpans 0 (".a\x7b" ++ "\x0c" ++ ";\x7d") = .ok [.rule ".a" [] true none] := by
  have hbrace : readStylesheet 0 (".a\x7b" ++ "\x0c" ++ "\x7d")
      = .ok [.rule ".a" [.declaration "" "" false (some ⟨0, 3, 4⟩)] true (some ⟨0, 0, 5⟩)] := by
    with_unfolding_all rfl
  have hsemicolon : readStylesheet 0 (".a\x7b" ++ "\x0c" ++ ";\x7d")
      = .ok [.rule ".a" [] true (some ⟨0, 0, 6⟩)] := by
    with_unfolding_all rfl
  refine ⟨by decide, by decide, ?_, ?_⟩
  · rw [readUpToSpans, hbrace]
    rfl
  · rw [readUpToSpans, hsemicolon]
    rfl

end UtilityCss
