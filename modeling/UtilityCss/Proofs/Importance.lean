import UtilityCss.Proofs.Verbatim

/-!
# The mark of importance

A value that ends with `!important`, outside of literals, is meant to be important: `Atom.meaning`.
The reader has forgotten where literals begin and end when it looks for the mark, and takes the
first one it finds: `cutAtMark`.  The two differ exactly where the mark occurs in the text that is
meant as the value, inside of a literal or in front of other text: `cutAtMark_eq_meaning_iff`.
-/

namespace UtilityCss

/-! ## What a value means -/

namespace Atom

/-- The atoms of the mark. -/
def mark : List Atom :=
  importantMark.map .plain

/-- The atoms in front of a mark at the end, or all of them if there is none. -/
def unmarked (atoms : List Atom) : List Atom :=
  if mark <:+ atoms then atoms.take (atoms.length - mark.length) else atoms

/-- The value that atoms spell, and whether it is important: the mark counts at the end and outside
of literals only. -/
def meaning (atoms : List Atom) : List Char × Bool :=
  if mark <:+ atoms then (Text.trim ((unmarked atoms).flatMap text), true)
  else (atoms.flatMap text, false)

lemma flatMap_text_mark : mark.flatMap text = importantMark := by
  rw [mark, List.flatMap_map]
  exact List.flatMap_singleton' importantMark

lemma unmarked_append (front : List Atom) : unmarked (front ++ mark) = front := by
  rw [unmarked, if_pos (List.suffix_append front mark), List.length_append, Nat.add_sub_cancel,
    List.take_left]

end Atom

/-- What the reader makes of a value: the text in front of the first mark in it, wherever that
stands, or all of it. -/
def cutAtMark (value : List Char) : List Char × Bool :=
  match Text.splitFirst? importantMark value with
  | some (before, _) => (Text.trim before, true)
  | none => (Text.trim value, false)

/-- Without the mark the value is kept, but for blanks around it. -/
lemma cutAtMark_unmarked {value : List Char} (h : ¬ importantMark <:+: value) :
    cutAtMark value = (Text.trim value, false) := by
  rw [cutAtMark, Text.splitFirst?_eq_none_iff.2 h]

/-- The mark is found wherever it stands. -/
lemma cutAtMark_marked {value : List Char} (h : importantMark <:+: value) :
    (cutAtMark value).2 = true := by
  rw [cutAtMark]
  cases hsplit : Text.splitFirst? importantMark value with
  | none => exact absurd h (Text.splitFirst?_eq_none_iff.1 hsplit)
  | some parts => rfl

/-- In front of a mark at the end, an earlier one shows: less of the text is left. -/
lemma cutAtMark_append_mark_iff (front : List Char) :
    cutAtMark (front ++ importantMark) = (Text.trim front, true) ↔ ¬ importantMark <:+: front := by
  constructor
  · intro h
    rw [cutAtMark] at h
    split at h
    next before after hsplit =>
      have hink : Text.ink before = Text.ink front := by
        rw [← Text.ink_trim before, (Prod.mk.inj h).1, Text.ink_trim]
      have hsource := Text.splitFirst?_eq_some hsplit
      have hnone : Text.ink after = 0 := by
        have htotal := congrArg Text.ink hsource
        simp only [Text.ink_append] at htotal
        omega
      -- The whole ends with a letter, so nothing but the mark stands behind `before`.
      have hafter : after = [] := by
        by_contra hne
        have hlast : after.getLast? = some 't' := by
          have := congrArg List.getLast? hsource
          rw [← List.append_assoc, List.getLast?_append_of_ne_nil _ hne, List.getLast?_append] at this
          exact this
        have hpos := Text.ink_pos_of_mem (List.mem_of_getLast? hlast) (by decide)
        omega
      rw [hafter, List.append_nil] at hsource
      rw [← List.append_cancel_right hsource]
      exact Text.not_infix_of_splitFirst? (by decide) hsplit
    next => exact absurd (Prod.mk.inj h).2 (by decide)
  · intro h
    rw [cutAtMark, splitFirst?_importantMark h]

/-- The reader takes a value as it is meant exactly if the mark does not occur in it. -/
lemma cutAtMark_eq_meaning_iff {atoms : List Atom}
    (htrim : Text.trim (atoms.flatMap Atom.text) = atoms.flatMap Atom.text) :
    cutAtMark (atoms.flatMap Atom.text) = Atom.meaning atoms ↔
      ¬ importantMark <:+: (Atom.unmarked atoms).flatMap Atom.text := by
  by_cases hmarked : Atom.mark <:+ atoms
  · obtain ⟨front, rfl⟩ := hmarked
    rw [Atom.meaning, if_pos (List.suffix_append front Atom.mark), Atom.unmarked_append,
      List.flatMap_append, Atom.flatMap_text_mark]
    exact cutAtMark_append_mark_iff _
  · rw [Atom.meaning, if_neg hmarked, Atom.unmarked, if_neg hmarked]
    constructor
    · intro h hmark
      have := cutAtMark_marked hmark
      rw [h] at this
      cases this
    · intro h
      rw [cutAtMark_unmarked h, htrim]

/-! ## The declaration -/

/-- Whether a character may stand in the name of a property, as letters and hyphens do. -/
def IsPropertyChar (c : Char) : Prop :=
  IsNameChar c ∧ c ∉ ['"', '\'', '@']

lemma isPropertyChar_of_isAlpha {c : Char} (h : c.isAlpha = true ∨ c = '-') : IsPropertyChar c := by
  constructor
  · refine isNameChar_of_isAlphanum (h.imp (fun halpha => ?_) Or.inl)
    rw [Char.isAlphanum, halpha, Bool.true_or]
  · rintro hmem
    simp only [List.mem_cons, List.not_mem_nil, or_false] at hmem
    rcases hmem with rfl | rfl | rfl <;> exact absurd h (by decide)

/-- Names of properties are clean. -/
lemma clean_property {property : String} (h : ∀ c ∈ property.toList, IsPropertyChar c) :
    Clean property := by
  have hplain : ∀ c ∈ property.toList, c ∉ Piece.special ∧ c ≠ '/' ∧ c ≠ ' ' := by
    intro c hc
    obtain ⟨⟨hblank, hname⟩, hquote⟩ := h c hc
    simp only [List.mem_cons, List.not_mem_nil, or_false, not_or] at hname hquote
    have hgap : c ≠ '\n' ∧ c ≠ '\t' ∧ c ≠ ' ' := by
      refine ⟨?_, ?_, ?_⟩ <;> rintro rfl <;> exact absurd hblank (by decide)
    simp [Piece.special, hname, hquote, hgap]
  refine ⟨?_, .of_plain ?_ ?_⟩
  · rw [Text.trimmed, trim_name fun c hc => (h c hc).1, String.ofList_toList]
  · simpa using fun c hc => (hplain c hc).1
  · refine (List.isChain_isInfix property.toList).imp fun c d hpair => ?_
    have hc := hplain c (hpair.subset List.mem_cons_self)
    exact ⟨fun hslash => hc.2.1 hslash.1, fun hspace => hc.2.2 hspace.1⟩

/-- Behind a property and a colon, a value is cut at its first mark. -/
lemma spells_cutAtMark {property : List Char} (htrim : Text.trim property = property)
    (hcolon : ':' ∉ property) (hat : property.head? ≠ some '@') (value : List Char) :
    Spells (property ++ ':' :: value) (.declaration (String.ofList property)
      (String.ofList (cutAtMark value).1) (cutAtMark value).2 none) := by
  refine .declaration ?_ (Text.trim_ne_nil (c := ':') (by simp) (by decide)) fun span => ?_
  · cases property with
    | nil => simp
    | cons c property => exact hat
  · rw [plainDeclaration, splitAtChar?_append hcolon, declarationOf, cutAtMark]
    cases hsplit : Text.splitFirst? importantMark value with
    | none => simp only [htrim, Node.clearSpans]
    | some parts => simp only [htrim, Node.clearSpans]

/-- In the block of a rule, a declaration with a semicolon behind it is the only child. -/
lemma leads_only_declaration {text : List Char} {node : Node} (hsettled : Settled text)
    (hbegins : Begins text) (hspells : Spells text node) :
    Leads .empty ('.' :: 'a' :: '\x7b' :: (text ++ [';', '\x7d']))
      ⟨[.rule ".a" [node] true none], [], [], []⟩ [] := by
  let inner := Outline.empty.enter ".a"
  have htyped : Leads inner (text ++ [';', '\x7d']) (inner.typed text) [';', '\x7d'] :=
    leads_settled hsettled (fun _ => hbegins) fun c _ => calm_of_stop (.inl rfl) c _
  have hended : Leads (inner.typed text) [';', '\x7d'] (inner.attach node) ['\x7d'] :=
    leads_semicolon rfl hspells ['\x7d']
  have hclosed : Leads (inner.attach node) ['\x7d'] (inner.attach node).leave [] :=
    leads_closing rfl (by simp [inner, Outline.attach, Outline.enter]) []
  exact (leads_head _).trans (htyped.trans (hended.trans hclosed))

/-- **The mark of importance.**  A declaration with a property of letters and hyphens and a trimmed
value of plain characters, escapes and closed literals is read as one declaration, with the value cut
at its first mark.  That is what is meant exactly if no mark occurs in the text meant as the value. -/
theorem readUpToSpans_important (file : Nat) {property : String} {atoms : List Atom}
    (hproperty : ∀ c ∈ property.toList, IsPropertyChar c)
    (hcustom : ¬ ['-', '-'] <+: property.toList) (hok : ∀ a ∈ atoms, a.Ok)
    (hchain : atoms.IsChain Atom.Before)
    (htrim : Text.trim (atoms.flatMap Atom.text) = atoms.flatMap Atom.text) :
    readUpToSpans file
        (".a\x7b" ++ property ++ ":" ++ String.ofList (atoms.flatMap Atom.text) ++ ";\x7d")
      = .ok [.rule ".a" [.declaration property
          (String.ofList (cutAtMark (atoms.flatMap Atom.text)).1)
          (cutAtMark (atoms.flatMap Atom.text)).2 none] true none] ∧
    (cutAtMark (atoms.flatMap Atom.text) = Atom.meaning atoms ↔
      ¬ importantMark <:+: (Atom.unmarked atoms).flatMap Atom.text) := by
  refine ⟨?_, cutAtMark_eq_meaning_iff htrim⟩
  have hclean := clean_property hproperty
  have hvalue : Clean (String.ofList (atoms.flatMap Atom.text)) := by
    rw [Clean, Text.trimmed, String.toList_ofList, htrim]
    exact ⟨rfl, atoms, hok, hchain, rfl⟩
  have hsettled : Settled (property.toList ++ ':' :: atoms.flatMap Atom.text) := by
    have := settled_declaration hclean hvalue false isPad_nil isPad_nil (by simp)
    simpa [markText] using this
  have hbegins : Begins (property.toList ++ ':' :: atoms.flatMap Atom.text) :=
    (hclean.begins hcustom).append_cons (fun _ => rfl) (by decide) _
  have hcolon : ':' ∉ property.toList := fun hmem => (hproperty ':' hmem).1.2 (by decide)
  have hat : property.toList.head? ≠ some '@' := fun hhead =>
    (hproperty '@' (List.mem_of_mem_head? hhead)).2 (by decide)
  have hspells := spells_cutAtMark hclean.trim hcolon hat (atoms.flatMap Atom.text)
  rw [String.ofList_toList] at hspells
  have hread := readStylesheet_of_leads (leads_only_declaration hsettled hbegins hspells) file
  have htext : String.ofList ('.' :: 'a' :: '\x7b' ::
      (property.toList ++ ':' :: atoms.flatMap Atom.text ++ [';', '\x7d']))
      = ".a\x7b" ++ property ++ ":" ++ String.ofList (atoms.flatMap Atom.text) ++ ";\x7d" := by
    rw [← String.toList_inj]
    simp
  rw [htext] at hread
  rw [readUpToSpans, hread]
  rfl

/-- A literal that holds a brace, and a mark behind it. -/
theorem readUpToSpans_important_literal :
    (∀ c ∈ "content".toList, IsPropertyChar c) ∧
      readUpToSpans 0 ".a\x7bcontent:\"\x7d!\" !important;\x7d"
        = .ok [.rule ".a" [.declaration "content" "\"\x7d!\"" true none] true none] ∧
      Atom.meaning (.literal '"' ['\x7d', '!'] :: (" ".toList.map .plain ++ Atom.mark))
        = ("\"\x7d!\"".toList, true) := by
  have hproperty : ∀ c ∈ "content".toList, IsPropertyChar c := by
    have hletters : "content".toList.all Char.isAlpha = true := by decide
    exact fun c hc => isPropertyChar_of_isAlpha (.inl (List.all_eq_true.1 hletters c hc))
  have hread := (@readUpToSpans_important 0 _
    (.literal '"' ['\x7d', '!'] :: (" ".toList.map .plain ++ Atom.mark)) hproperty
    (by decide) (by decide) (by decide) (by decide)).1
  exact ⟨hproperty, hread, by decide⟩

/-- The mark counts inside of a literal, which is cut off there, and in front of other text, which is
dropped. -/
theorem readUpToSpans_important_cut :
    readUpToSpans 0 ".a\x7bcontent:\"!important\";\x7d"
        = .ok [.rule ".a" [.declaration "content" "\"" true none] true none] ∧
      Atom.meaning [.literal '"' importantMark] = ("\"!important\"".toList, false) ∧
    readUpToSpans 0 ".a\x7bx:a !important b;\x7d"
        = .ok [.rule ".a" [.declaration "x" "a" true none] true none] ∧
      Atom.meaning ("a !important b".toList.map .plain) = ("a !important b".toList, false) := by
  have hliteral : readStylesheet 0 ".a\x7bcontent:\"!important\";\x7d"
      = .ok [.rule ".a" [.declaration "content" "\"" true (some ⟨0, 3, 24⟩)] true
          (some ⟨0, 0, 25⟩)] := by
    with_unfolding_all rfl
  have hbefore : readStylesheet 0 ".a\x7bx:a !important b;\x7d"
      = .ok [.rule ".a" [.declaration "x" "a" true (some ⟨0, 3, 20⟩)] true (some ⟨0, 0, 21⟩)] := by
    with_unfolding_all rfl
  refine ⟨?_, by decide, ?_, by decide⟩
  · rw [readUpToSpans, hliteral]
    rfl
  · rw [readUpToSpans, hbefore]
    rfl

end UtilityCss
