import UtilityCss.Proofs.Collecting

/-!
# Printed texts that are read back

If a text on lines of its own tells as much as it weighs, the reader comes to the end of each printed
line.  This module says so line by line.

* **Ends of lines** — `ends_line`: a statement or a declaration is collected up to its semicolon.  It
  cannot end earlier, for then it would be too short (`Owes.told_of_cut`), and if the semicolon were
  hidden it would have too much ink (`Owes.told_of_hidden`).
* **Statements and selectors** — `walk_statement`, `walk_selector`: the text is collected as it stands.
  A selector that ends in an odd number of backslashes is left out: they would hide the brace.
* **Declarations** — `walk_declaration`: without the blanks that were printed between its parts the
  text is collected as it stands as well, first its property (`walk_property`), then its value and mark
  (`walk_value`).
-/

namespace UtilityCss

/-- A text that trimming does not shorten was trimmed. -/
lemma eq_of_length_trim {cs text : List Char} (h : Text.trim cs = text)
    (hle : cs.length ≤ text.length) : cs = text := by
  obtain ⟨before, after, hcs, -, -⟩ := Text.exists_trim cs
  have hlength := congrArg List.length hcs
  rw [List.length_append, List.length_append, h] at hlength
  have hbefore : before = [] := List.length_eq_zero_iff.1 (by omega)
  have hafter : after = [] := List.length_eq_zero_iff.1 (by omega)
  rw [hcs, h, hbefore, hafter, List.nil_append, List.append_nil]

lemma Text.ink_pos_of_mem {cs : List Char} {c : Char} (hc : c ∈ cs) (hblank : isBlank c = false) :
    0 < ink cs :=
  List.countP_pos_iff.2 ⟨c, hc, by simp [hblank]⟩

/-- Where a text begins with no blank, every nonempty front of it has ink. -/
lemma Text.ink_pos_of_front {text front back : List Char}
    (hhead : ∀ c, text.head? = some c → isBlank c = false) (hsplit : text = front ++ back)
    (hne : front ≠ []) : 0 < ink front := by
  obtain ⟨c, front, rfl⟩ := List.exists_cons_of_ne_nil hne
  exact ink_pos_of_mem List.mem_cons_self (hhead c (by rw [hsplit]; rfl))

/-- A character that is no blank is none of the reader's blanks. -/
lemma isGap_eq_false {c : Char} (h : Text.isBlank c = false) : isGap c = false := by
  by_contra hgap
  rw [isBlank_of_isGap (by simpa using hgap)] at h
  cases h

lemma not_isGap_head {cs : List Char} (htrim : Text.trim cs = cs) :
    ∀ c, cs.head? = some c → isGap c = false :=
  fun _ hc => isGap_eq_false (Text.not_isBlank_head htrim hc)

lemma not_isGap_getLast {cs : List Char} (htrim : Text.trim cs = cs) :
    ∀ c, cs.getLast? = some c → isGap c = false :=
  fun _ hc => isGap_eq_false (Text.not_isBlank_getLast htrim hc)

/-- A newline between nodes is passed over. -/
lemma Owes.of_newline {cs : List Char} {tokens : List Token} (h : Owes [] ('\n' :: cs) tokens) :
    Owes [] cs tokens :=
  Owes.of_blanks (List.forall_mem_singleton.2 rfl : ∀ c ∈ ['\n'], isGap c = true) h

namespace Piece

/-- A semicolon is a piece of its own, whatever is collected. -/
lemma next_semicolon (fresh : Bool) (rest : List Char) : next fresh ';' rest = (.semicolon, rest) := by
  simp [next, isGap]

lemma next_opening (fresh : Bool) (rest : List Char) : next fresh '{' rest = (.opening, rest) := by
  simp [next, isGap]

lemma next_closing (fresh : Bool) (rest : List Char) : next fresh '}' rest = (.closing, rest) := by
  simp [next, isGap]

lemma next_custom (rest : List Char) : next true '-' ('-' :: rest) =
    (.custom ('-' :: '-' :: (customBody false [] rest).1) (customBody false [] rest).2.1,
      (customBody false [] rest).2.2) := by
  simp [next, isGap]

end Piece

namespace Mode
variable {mode mode' : Mode} {fresh : Bool} {next : Option Char}

/-- A colon leads on in the same way whatever follows it. -/
lemma step_colon (h : mode.step fresh ':' next = some mode') :
    mode'.hides = false ∧ ∀ next', mode.step fresh ':' next' = some mode' := by
  refine ⟨by rw [hides_of_step h]; rfl, fun next' => ?_⟩
  rw [← h]
  cases mode <;> simp [Mode.step]

/-- A space changes no mode but that behind a backslash. -/
lemma step_space (hquoted : mode.Quoted) (hhides : mode.hides = false)
    (h : mode.step fresh ' ' next = some mode') : mode' = mode := by
  cases mode with
  | text => simpa [Mode.step] using h.symm
  | escape => cases hhides
  | hidden quote => cases hhides
  | literal quote => rcases hquoted with rfl | rfl <;> simpa [Mode.step] using h.symm

/-- A space is kept, or merged with one that is there. -/
lemma keep_space {current : List Char} (hne : current ≠ []) (mode : Mode) (next : Option Char) :
    ∃ blank, IsPad blank ∧ mode.keep current ' ' next = blank ++ current := by
  obtain ⟨last, before, rfl⟩ := List.exists_cons_of_ne_nil hne
  cases mode with
  | text =>
      rw [keep]
      split_ifs with hgap hline hempty
      · exact ⟨[], isPad_nil, rfl⟩
      · exact absurd hline (by decide)
      · cases hempty
      · exact ⟨[' '], isPad_space, rfl⟩
  | _ => exact ⟨[' '], isPad_space, rfl⟩

end Mode

/-! ## Ends of lines -/

/-- What the end of a node tells first, behind a text with ink. -/
lemma Owes.first_of_end {current rest : List Char} {c : Char} (hc : c = ';' ∨ c = '{' ∨ c = '}')
    (hink : 0 < Text.ink current) {token : Token} {tokens : List Token}
    (h : Owes current (c :: rest) (token :: tokens)) :
    c ≠ '{' ∧ token = .ofText current.reverse ∨
      c = '{' ∧ token = .opens (String.ofList (Text.trim current.reverse)) := by
  rcases hc with rfl | rfl | rfl
  · obtain ⟨-, -, -, -, later, htokens, -⟩ := h.inv (Piece.next_semicolon _ rest)
    rw [Piece.told_semicolon hink] at htokens
    exact Or.inl ⟨by decide, (List.cons.inj htokens).1⟩
  · obtain ⟨-, -, -, -, later, htokens, -⟩ := h.inv (Piece.next_opening _ rest)
    exact Or.inr ⟨rfl, (List.cons.inj htokens).1⟩
  · obtain ⟨-, -, -, -, later, htokens, -⟩ := h.inv (Piece.next_closing _ rest)
    have hempty : current.isEmpty = false := by
      cases current with
      | nil => exact absurd hink (Nat.lt_irrefl 0)
      | cons => rfl
    rw [Piece.told, hempty] at htokens
    exact Or.inl ⟨by decide, (List.cons.inj htokens).1⟩

/-- A brace in front of any text is no statement and no declaration. -/
lemma Owes.told_of_brace {rest : List Char} {c : Char} (hc : c = '{' ∨ c = '}') {token : Token}
    {tokens : List Token} (h : Owes [] (c :: rest) (token :: tokens)) :
    token = .opens "" ∨ token = .closes := by
  rcases hc with rfl | rfl
  · obtain ⟨-, -, -, -, later, htokens, -⟩ := h.inv (Piece.next_opening _ _)
    exact Or.inl (List.cons.inj htokens).1
  · obtain ⟨-, -, -, -, later, htokens, -⟩ := h.inv (Piece.next_closing _ _)
    exact Or.inr (List.cons.inj htokens).1

/-- Where the end of a node cuts a line, the part in front of it is told. -/
lemma Owes.told_of_cut {front more current : List Char} {c : Char} (hc : c = ';' ∨ c = '{' ∨ c = '}')
    (hwalk : walk .text [] front (some c) = some (.text, current)) (hink : 0 < Text.ink front)
    {token : Token} {tokens : List Token} (h : Owes [] (front ++ c :: more) (token :: tokens)) :
    ∃ part, part.length ≤ front.length ∧ Text.ink part = Text.ink front ∧
      (c ≠ '{' ∧ token = .ofText part ∨
        c = '{' ∧ token = .opens (String.ofList (Text.trim part))) := by
  have hcurrent := ink_of_walk hwalk
  have hlength := length_of_walk hwalk
  rw [Text.ink_nil, Nat.zero_add] at hcurrent
  rw [List.length_nil, Nat.zero_add] at hlength
  have howes := (collects_of_walk front (c :: more) hwalk).owes h
  exact ⟨current.reverse, by rwa [List.length_reverse], by rw [Text.ink_reverse, hcurrent],
    howes.first_of_end hc (by rwa [hcurrent])⟩

/-- Where a backslash hides the end of a line, more than the line is told. -/
lemma Owes.told_of_hidden {front more current : List Char}
    (hwalk : walk .text [] front (some '\\') = some (.text, current))
    {token : Token} {tokens : List Token}
    (h : Owes [] (front ++ '\\' :: ';' :: more) (token :: tokens)) :
    ∃ part, Text.ink (front ++ ['\\']) < Text.ink part ∧
      (token = .opens (String.ofList (Text.trim part)) ∨ token = .ofText part) := by
  have howes := (collects_of_walk front ('\\' :: ';' :: more) hwalk).owes h
  have hmore : Owes (';' :: '\\' :: current) more (token :: tokens) :=
    howes.of_collected (p := .verbatim ['\\', ';']) rfl trivial
  have hcurrent := ink_of_walk hwalk
  have hkept : Text.ink (';' :: '\\' :: current) = Text.ink [';', '\\'] + Text.ink current :=
    Text.ink_append [';', '\\'] current
  have hslash : Text.ink ['\\'] = 1 := by decide
  have hboth : Text.ink [';', '\\'] = 2 := by decide
  rw [Text.ink_nil] at hcurrent
  obtain ⟨part, hpart, htoken⟩ := hmore.tells.grows (by omega) rfl
  refine ⟨part, ?_, htoken⟩
  rw [Text.ink_append]
  omega

/-- A statement or a declaration on a line of its own is collected up to its semicolon. -/
lemma ends_line {text rest : List Char} {token : Token} {tokens : List Token}
    (hstart : Begins text) (hink : 0 < Text.ink text)
    (hfirst : ∀ front c back, text = front ++ c :: back → c = ';' ∨ c = '{' ∨ c = '}' →
      0 < Text.ink front)
    (hopens : ∀ selector, token ≠ .opens selector)
    (hshort : ∀ part front c back, text = front ++ c :: back → c = ';' ∨ c = '}' →
      part.length ≤ front.length → Text.ink part = Text.ink front → token ≠ .ofText part)
    (hlong : ∀ part front, text = front ++ ['\\'] → Text.ink text < Text.ink part →
      token ≠ .ofText part)
    (h : Owes [] (text ++ ';' :: '\n' :: rest) (token :: tokens)) :
    ∃ current, walk .text [] text (some ';') = some (.text, current) ∧
      token = .ofText current.reverse ∧ Owes [] rest tokens := by
  rcases reached_of_owes text (Or.inl rfl) (fun _ => hstart) h with
    @⟨current, hwalk⟩ | @⟨front, back, current, c, htext, hc, hwalk⟩ | @⟨front, current, htext, hwalk⟩
  · have howes := (collects_of_walk text (';' :: '\n' :: rest) hwalk).owes h
    have hcurrent : 0 < Text.ink current := by
      have := ink_of_walk hwalk
      rw [Text.ink_nil] at this
      omega
    obtain ⟨-, htoken⟩ | ⟨habsurd, -⟩ := howes.first_of_end (Or.inl rfl) hcurrent
    · refine ⟨current, hwalk, htoken, ?_⟩
      obtain ⟨-, -, -, -, later, htokens, hlater⟩ := howes.inv (Piece.next_semicolon _ _)
      rw [Piece.told_semicolon hcurrent] at htokens
      obtain ⟨-, rfl⟩ := List.cons.inj htokens
      exact hlater.of_newline
    · exact absurd habsurd (by decide)
  · -- The text would end too early.
    exfalso
    have hcut : text ++ ';' :: '\n' :: rest = front ++ c :: (back ++ ';' :: '\n' :: rest) := by
      rw [htext, List.append_assoc]
      rfl
    rw [hcut] at h
    obtain ⟨part, hlength, hpart, ⟨hne, htoken⟩ | ⟨-, htoken⟩⟩ :=
      h.told_of_cut hc hwalk (hfirst front c back htext hc)
    · have hend : c = ';' ∨ c = '}' := by
        rcases hc with rfl | rfl | rfl
        · exact Or.inl rfl
        · exact absurd rfl hne
        · exact Or.inr rfl
      exact hshort part front c back htext hend hlength hpart htoken
    · exact hopens _ htoken
  · -- The semicolon would belong to the text.
    exfalso
    have hcut : text ++ ';' :: '\n' :: rest = front ++ '\\' :: (';' :: '\n' :: rest) := by
      rw [htext, List.append_assoc]
      rfl
    rw [hcut] at h
    obtain ⟨part, hlt, htoken | htoken⟩ := h.told_of_hidden hwalk
    · exact hopens _ htoken
    · exact hlong part front htext (by rwa [htext]) htoken

/-! ## Statements and selectors -/

/-- A statement is its text, trimmed. -/
lemma ofText_eq_states {text : List Char} {selector : String}
    (h : Token.ofText text = .states selector) : selector.toList = Text.trim text := by
  rw [Token.ofText] at h
  split_ifs at h
  · obtain rfl := Token.states.inj h
    rw [String.toList_ofList]
  · obtain ⟨property, value, important, hparts⟩ := Token.exists_ofParts text (splitAtChar? ':' text)
    rw [hparts] at h
    cases h

/-- The statement on the line is collected as it stands, and reading goes on in the next line. -/
lemma walk_statement {selector : String} {rest : List Char} {tokens : List Token}
    (h : Owes [] (selector.toList ++ ';' :: '\n' :: rest) (.states selector :: tokens)) :
    Spells selector.toList (.rule selector [] false none) ∧
      (∀ stop, stop = ';' ∨ stop = '}' →
        walk .text [] selector.toList (some stop) = some (.text, selector.toList.reverse)) ∧
      Owes [] rest tokens := by
  have hproper := h.tells.proper (by decide) _ List.mem_cons_self
  have htrimmed : Text.trim selector.toList = selector.toList := hproper.trimmed
  have hat := hproper.states selector rfl
  obtain ⟨back, hback⟩ := List.head?_eq_some_iff.1 hat
  have hstart : Begins selector.toList := by
    rw [hback]
    refine ⟨fun c hc => ?_, by simp⟩
    obtain rfl := Option.some.inj hc
    decide
  have hlead : ∀ front more : List Char, selector.toList = front ++ more → front ≠ [] →
      0 < Text.ink front :=
    fun front more => Text.ink_pos_of_front (fun c => Text.not_isBlank_head htrimmed)
  obtain ⟨current, hwalk, htoken, howes⟩ := ends_line hstart
    (hlead _ [] (by simp) (by simp [hback]))
    (fun front c more hmore hc => hlead front _ hmore (by
      rintro rfl
      rw [hback] at hmore
      obtain ⟨rfl, -⟩ := List.cons.inj hmore
      revert hc
      decide))
    (fun _ habsurd => by cases habsurd)
    (fun part front c more hmore _ hle _ htoken => by
      have htrim := ofText_eq_states htoken.symm
      have := Text.length_trim_le part
      have := congrArg List.length hmore
      rw [htrim, List.length_append, List.length_cons] at this
      omega)
    (fun part front _ hlt htoken => by
      rw [ofText_eq_states htoken.symm, Text.ink_trim] at hlt
      exact Nat.lt_irrefl _ hlt)
    h
  have htrim := ofText_eq_states htoken.symm
  have hcurrent : current.reverse = selector.toList := by
    refine eq_of_length_trim htrim.symm ?_
    have := length_of_walk hwalk
    rw [List.length_reverse]
    simpa using this
  refine ⟨?_, fun stop hstop => ?_, howes⟩
  · have hspells := Spells.statement hat htrimmed
    rwa [String.ofList_toList] at hspells
  · have hnext := walk_next_congr (a := stop) (b := ';') (not_isGap_getLast htrimmed) .text []
      (by rcases hstop with rfl | rfl <;> decide) (by decide)
    rw [hnext, hwalk, ← hcurrent, List.reverse_reverse]

/-- A text without a brace opens nothing. -/
lemma ofText_ne_opens (text : List Char) (selector : String) :
    Token.ofText text ≠ .opens selector := by
  intro h
  rw [Token.ofText] at h
  split_ifs at h
  obtain ⟨property, value, important, hparts⟩ := Token.exists_ofParts text (splitAtChar? ':' text)
  rw [hparts] at h
  cases h

/-- A selector that owes its rule begins a node. -/
lemma begins_of_opens {selector : String} {rest : List Char} {tokens : List Token}
    (hne : selector.toList ≠ [])
    (h : Owes [] (selector.toList ++ ' ' :: '{' :: '\n' :: rest) (.opens selector :: tokens)) :
    Begins (selector.toList ++ [' ']) := by
  have hproper := h.tells.proper (by decide) _ List.mem_cons_self
  obtain ⟨c, back, hback⟩ := List.exists_cons_of_ne_nil hne
  constructor
  · intro d hd
    have hhead : selector.toList.head? = some d := by
      rw [hback] at hd ⊢
      exact hd
    exact not_isGap_head hproper.trimmed d hhead
  · -- A custom property would be told instead of a block.
    rintro ⟨more, hmore⟩
    have hcustom : selector.toList ++ ' ' :: '{' :: '\n' :: rest
        = '-' :: '-' :: (more ++ '{' :: '\n' :: rest) := by
      rw [List.append_cons, ← hmore]
      rfl
    rw [hcustom] at h
    obtain ⟨-, -, -, -, later, htokens, -⟩ := h.inv (Piece.next_custom _)
    rw [Piece.told, List.singleton_append, List.cons.injEq] at htokens
    obtain ⟨property, value, important, hparts⟩ := Token.exists_ofParts _ _
    rw [Token.ofCustom, hparts] at htokens
    cases htokens.1

/-- A selector of which nothing but outer blanks is lost with the blank behind it is collected as it
stands. -/
lemma walk_of_trim_eq {selector current : List Char} (htrimmed : Text.trim selector = selector)
    (hclosed : Text.endsHiding selector = false)
    (hwalk : walk .text [] (selector ++ [' ']) (some '{') = some (.text, current))
    (htrim : Text.trim current.reverse = selector) :
    walk .text [] selector (some '{') = some (.text, selector.reverse) := by
  obtain ⟨mode, kept, hselector, hblank⟩ := walk_append_eq_some hwalk
  obtain ⟨mode', hstep, hlast⟩ := walk_cons_eq_some hblank
  obtain ⟨rfl, rfl⟩ := Prod.mk.inj (Option.some.inj hlast)
  have hquoted := quoted_of_walk (show Mode.text.Quoted from trivial) hselector
  obtain rfl := Mode.step_space hquoted ((hides_of_walk hselector).trans hclosed) hstep
  have hkept : Text.trim kept.reverse = selector := by
    rw [← htrim]
    cases kept with
    | nil => rfl
    | cons last before =>
        have hkeep : (Mode.text.keep (last :: before) ' ' (some '{')).reverse
            = (last :: before).reverse ++ [' '] := List.reverse_cons
        exact (congrArg Text.trim hkeep).trans
          (Text.trim_append_of_blank _ (List.forall_mem_singleton.2 rfl)) |>.symm
  have hlength : kept.reverse.length ≤ selector.length := by
    simpa using length_of_walk hselector
  have hsame : kept = selector.reverse := by
    rw [← eq_of_length_trim hkept hlength, List.reverse_reverse]
  rw [walk_next_congr (not_isGap_getLast htrimmed) .text [] (a := '{') (b := ' ') (by decide)
    (by decide), ← hsame]
  exact hselector

/-- A selector is not told by what stands in front of an earlier end of a node. -/
lemma not_owes_of_cut {selector : String} (hne : selector.toList ≠ [])
    {front back more current : List Char} {c : Char} {tokens : List Token}
    (hsplit : selector.toList ++ [' '] = front ++ c :: back) (hc : c = ';' ∨ c = '{' ∨ c = '}')
    (hwalk : walk .text [] front (some c) = some (.text, current)) :
    ¬ Owes [] (front ++ c :: more) (.opens selector :: tokens) := by
  intro h
  have hproper := h.tells.proper (by decide) _ List.mem_cons_self
  have hhead : ∀ d, (front ++ c :: back).head? = some d → selector.toList.head? = some d := by
    intro d hd
    rwa [← hsplit, List.head?_append_of_ne_nil _ hne] at hd
  by_cases hfront : front = []
  · -- No selector begins with the end of a node.
    subst hfront
    rcases hc with rfl | hbrace
    · exact hproper.name (hhead _ rfl)
    · rcases h.told_of_brace hbrace with htoken | htoken
      · exact hne (congrArg String.toList (Token.opens.inj htoken))
      · cases htoken
  · have hink : 0 < Text.ink front :=
      Text.ink_pos_of_front
        (fun d hd => Text.not_isBlank_head hproper.trimmed (hhead d hd)) rfl hfront
    obtain ⟨part, hlength, -, ⟨-, htoken⟩ | ⟨rfl, htoken⟩⟩ := h.told_of_cut hc hwalk hink
    · exact ofText_ne_opens _ _ htoken.symm
    · -- The brace would be the last character, but that is the blank.
      have htrim : selector.toList = Text.trim part := by
        rw [Token.opens.inj htoken, String.toList_ofList]
      have hle := Text.length_trim_le part
      have htotal := congrArg List.length hsplit
      rw [← htrim] at hle
      simp only [List.length_append, List.length_cons, List.length_nil] at htotal
      have hback : back = [] := List.length_eq_zero_iff.1 (by omega)
      rw [hback] at hsplit
      simpa using congrArg List.getLast? hsplit

/-- The selector on the line is collected as it stands, and reading goes on in the next line. -/
lemma walk_selector {selector : String} {rest : List Char} {tokens : List Token}
    (hclosed : Text.endsHiding selector.toList = false)
    (h : Owes [] (selector.toList ++ ' ' :: '{' :: '\n' :: rest) (.opens selector :: tokens)) :
    Text.trim selector.toList = selector.toList ∧
      walk .text [] selector.toList (some '{') = some (.text, selector.toList.reverse) ∧
      Owes [] rest tokens := by
  have hproper := h.tells.proper (by decide) _ List.mem_cons_self
  refine ⟨hproper.trimmed, ?_⟩
  by_cases hne : selector.toList = []
  · rw [hne] at h ⊢
    have hopen := Owes.of_blanks (List.forall_mem_singleton.2 rfl : ∀ c ∈ [' '], isGap c = true) h
    obtain ⟨-, -, -, -, later, htokens, hlater⟩ := hopen.inv (Piece.next_opening _ _)
    obtain ⟨-, rfl⟩ := List.cons.inj htokens
    exact ⟨rfl, hlater.of_newline⟩
  have hstart := begins_of_opens hne h
  rw [List.append_cons] at h
  rcases reached_of_owes _ (Or.inr rfl) (fun _ => hstart) h with
    @⟨current, hwalk⟩ | @⟨front, back, current, c, hsplit, hc, hwalk⟩ | @⟨front, current, hsplit, -⟩
  · have howes := (collects_of_walk _ ('{' :: '\n' :: rest) hwalk).owes h
    obtain ⟨-, -, -, -, later, htokens, hlater⟩ := howes.inv (Piece.next_opening _ _)
    obtain ⟨htoken, rfl⟩ := List.cons.inj htokens
    have htrim : Text.trim current.reverse = selector.toList := by
      rw [Token.opens.inj htoken, String.toList_ofList]
    exact ⟨walk_of_trim_eq hproper.trimmed hclosed hwalk htrim, hlater.of_newline⟩
  · have hcut : (selector.toList ++ [' ']) ++ '{' :: '\n' :: rest
        = front ++ c :: (back ++ '{' :: '\n' :: rest) := by
      rw [hsplit, List.append_assoc]
      rfl
    rw [hcut] at h
    exact absurd h (not_owes_of_cut hne hsplit hc hwalk)
  · -- The last character is the blank and no backslash.
    have hlast := congrArg List.getLast? hsplit
    simp at hlast

/-! ## Declarations -/

lemma ink_markText (important : Bool) :
    Text.ink (markText important [' ']) = if important then 10 else 0 := by
  cases important <;> rfl

/-- A part of a printed declaration in front of the end of a node is too short to be the
declaration. -/
lemma Parsed.not_of_cut {property value front back part : List Char} {important : Bool} {c : Char}
    (htext : property ++ ':' :: ' ' :: (value ++ markText important [' ']) = front ++ c :: back)
    (hc : c = ';' ∨ c = '}') (hlength : part.length ≤ front.length)
    (hink : Text.ink part = Text.ink front) : ¬ Parsed part property value important := by
  intro h
  rcases h.le_ink with ⟨rfl, rfl, hle⟩ | hle
  · rcases List.append_eq_append_iff.1 htext with ⟨more, -, hmore⟩ | ⟨more, hmore, hback⟩
    · have hmem : c ∈ [':', ' '] := by
        rw [show [':', ' '] = more ++ c :: back from hmore]
        exact List.mem_append_right more List.mem_cons_self
      rcases hc with rfl | rfl <;> revert hmem <;> decide
    · have htotal := congrArg List.length hmore
      rw [List.length_append] at htotal
      obtain rfl : more = [] := List.length_eq_zero_iff.1 (by omega)
      obtain ⟨rfl, -⟩ := List.cons.inj hback
      revert hc
      decide
  · have htotal := congrArg Text.ink htext
    have hend : Text.isBlank c = false := by rcases hc with rfl | rfl <;> decide
    have hcolon : Text.isBlank ':' = false := by decide
    have hspace : Text.isBlank ' ' = true := by decide
    simp only [Text.ink_append, Text.ink_cons, hend, hcolon, hspace, ink_markText, if_true,
      Bool.false_eq_true, if_false] at htotal
    omega

/-- A printed declaration that ends in a backslash is all of the declaration. -/
lemma Parsed.not_of_hidden {property value front part : List Char} {important : Bool}
    (htext : property ++ ':' :: ' ' :: (value ++ markText important [' ']) = front ++ ['\\'])
    (hlt : Text.ink (property ++ ':' :: ' ' :: (value ++ markText important [' ']))
      < Text.ink part) : ¬ Parsed part property value important := by
  intro h
  cases important with
  | true =>
      have hmark : markText true [' '] = " !importan".toList ++ ['t'] := by decide
      rw [hmark, ← List.append_assoc, ← List.cons_append, ← List.cons_append, ← List.append_assoc]
        at htext
      have hlast := congrArg List.getLast? htext
      rw [List.getLast?_concat, List.getLast?_concat] at hlast
      exact absurd (Option.some.inj hlast) (by decide)
  | false =>
      have hle := h.ink_le
      have hcolon : Text.isBlank ':' = false := by decide
      have hspace : Text.isBlank ' ' = true := by decide
      simp only [Text.ink_append, Text.ink_cons, hcolon, hspace, ink_markText, if_true,
        Bool.false_eq_true, if_false] at hlt
      omega

/-- In a literal the mark does not end the literal. -/
lemma walk_literal_importantMark {quote : Char} (hquote : quote = '"' ∨ quote = '\'')
    (current : List Char) (next : Option Char) : walk (.literal quote) current importantMark next
      = some (.literal quote, importantMark.reverse ++ current) := by
  rcases hquote with rfl | rfl <;> rfl

/-- Where the blank and the mark end the text of a node, no literal is open. -/
lemma walk_space_importantMark {mode : Mode} (hquoted : mode.Quoted) {current current' : List Char}
    (hne : current ≠ []) {next : Option Char}
    (h : walk mode current (' ' :: importantMark) next = some (.text, current')) :
    (mode = .text ∨ mode = .escape) ∧ current' = importantMark.reverse ++ ' ' :: current := by
  obtain ⟨last, before, rfl⟩ := List.exists_cons_of_ne_nil hne
  obtain ⟨mode', hstep, hwalk⟩ := walk_cons_eq_some h
  have hhead : importantMark.head?.or next = some '!' := by
    rw [show importantMark.head? = some '!' by decide]
    rfl
  rw [hhead] at hstep hwalk
  have hliteral : ∀ quote, (quote = '"' ∨ quote = '\'') → mode' ≠ .literal quote := by
    rintro quote hquote rfl
    rw [walk_literal_importantMark hquote] at hwalk
    cases hwalk
  cases mode with
  | text =>
      obtain rfl : mode' = .text := by simpa [Mode.step] using hstep.symm
      rw [walk_importantMark (Or.inl rfl), Option.some.injEq, Prod.mk.injEq] at hwalk
      exact ⟨Or.inl rfl, hwalk.2.symm⟩
  | escape =>
      obtain rfl : mode' = .text := by simpa [Mode.step] using hstep.symm
      rw [walk_importantMark (Or.inl rfl), Option.some.injEq, Prod.mk.injEq] at hwalk
      exact ⟨Or.inr rfl, hwalk.2.symm⟩
  | literal quote =>
      refine absurd ?_ (hliteral quote hquoted)
      exact Mode.step_space hquoted rfl hstep
  | hidden quote => exact absurd (Option.some.inj hstep).symm (hliteral quote hquoted)

/-- What is kept of a property and its colon does not depend on the value behind them.  Of the blank
between them it is at most the blank. -/
lemma walk_property {property more : List Char} {next : Option Char} {s : Mode × List Char}
    (h : walk .text [] (property ++ ':' :: ' ' :: more) next = some s) :
    ∃ mode before blank, mode.Quoted ∧ IsPad blank ∧ before.length ≤ property.length ∧
      (':' ∉ property → ':' ∉ before) ∧ walk mode (blank ++ ':' :: before) more next = some s ∧
      ∀ more' next', walk .text [] (property ++ ':' :: more') next'
        = walk mode (':' :: before) more' next' := by
  obtain ⟨mode₁, before, hproperty, h⟩ := walk_append_eq_some h
  obtain ⟨mode₂, hstep, h⟩ := walk_cons_eq_some h
  obtain ⟨hhides, hcolon⟩ := Mode.step_colon hstep
  have hquoted := (quoted_of_walk (show Mode.text.Quoted from trivial) hproperty).step hstep
  rw [Mode.keep_of_not_gap (by decide)] at h
  obtain ⟨mode₃, hspace, h⟩ := walk_cons_eq_some h
  obtain rfl := Mode.step_space hquoted hhides hspace
  obtain ⟨blank, hblank, hkeep⟩ := Mode.keep_space (List.cons_ne_nil ':' before) mode₃
    (more.head?.or next)
  rw [hkeep] at h
  refine ⟨mode₃, before, blank, hquoted, hblank, by simpa using length_of_walk hproperty, ?_, h, ?_⟩
  · intro hnot hin
    rcases mem_of_walk hproperty hin with habsurd | habsurd | habsurd
    · cases habsurd
    · exact hnot habsurd
    · revert habsurd
      decide
  · intro more' next'
    have hproperty' : walk .text [] property ((':' :: more').head?.or next') = some (mode₁, before) :=
      hproperty
    rw [walk_append_of_eq_some hproperty', walk_cons (hcolon _), Mode.keep_of_not_gap (by decide)]

/-- What is kept of a value and its mark, and that without the optional blank of the mark they are
walked over in the same way, whatever stands in front. -/
lemma walk_value {value front current : List Char} {important : Bool}
    (htrim : Text.trim value = value) {mode : Mode} (hquoted : mode.Quoted) (hne : front ≠ [])
    (h : walk mode front (value ++ markText important [' ']) (some ';') = some (.text, current)) :
    ∃ kept, kept.length ≤ value.length ∧ Text.ink kept = Text.ink value ∧
      current.reverse = front.reverse ++ (kept ++ markText important [' ']) ∧
      ∀ other, other ≠ [] → ∀ stop, stop = ';' ∨ stop = '}' →
        walk mode other (value ++ markText important []) (some stop)
          = some (.text, (kept ++ markText important []).reverse ++ other) := by
  obtain ⟨mode', front', hvalue, h⟩ := walk_append_eq_some h
  have hnext : ∀ (other : List Char) (a b : Char), a ∉ ['*', '-', '\n'] → b ∉ ['*', '-', '\n'] →
      walk mode other value (some a) = walk mode other value (some b) :=
    fun other a b ha hb => walk_next_congr (not_isGap_getLast htrim) mode other ha hb
  -- The value begins with no blank, so what stands in front of it makes no difference.
  obtain ⟨kept, rfl, hbehind⟩ := walk_behind (not_isGap_head htrim) hne hvalue
  have hlength := length_of_walk hvalue
  have hink := ink_of_walk hvalue
  rw [List.length_append] at hlength
  rw [Text.ink_append] at hink
  refine ⟨kept.reverse, by rw [List.length_reverse]; omega, by rw [Text.ink_reverse]; omega, ?_⟩
  cases important with
  | false =>
      obtain ⟨rfl, rfl⟩ := Prod.mk.inj (Option.some.inj h)
      refine ⟨by simp [markText], fun other hother stop hstop => ?_⟩
      have hstop' : stop ∉ ['*', '-', '\n'] := by rcases hstop with rfl | rfl <;> decide
      have hother' := (hnext other stop ';' hstop' (by decide)).trans (hbehind other hother)
      simpa [markText] using hother'
  | true =>
      have hne' : kept ++ front ≠ [] := by simp [hne]
      obtain ⟨hmode, rfl⟩ := walk_space_importantMark (quoted_of_walk hquoted hvalue) hne' h
      refine ⟨by simp [markText], fun other hother stop _ => ?_⟩
      have hother' : walk mode other value ((markText true []).head?.or (some stop))
          = some (mode', kept ++ other) :=
        (hnext other '!' ' ' (by decide) (by decide)).trans (hbehind other hother)
      rw [walk_append_of_eq_some hother']
      have hmark := walk_importantMark hmode (kept ++ other) (some stop)
      simpa [markText] using hmark

/-- What is kept of a printed declaration, part by part, and that the text without its optional blanks
is walked over in the same way. -/
lemma walk_printed {property value current : List Char} {important : Bool}
    (htrim : Text.trim value = value)
    (h : walk .text [] (property ++ ':' :: ' ' :: (value ++ markText important [' ']))
      (some ';') = some (.text, current)) :
    ∃ before kept blank, IsPad blank ∧
      current.reverse = before ++ ':' :: (blank ++ (kept ++ markText important [' '])) ∧
      before.length ≤ property.length ∧ (':' ∉ property → ':' ∉ before) ∧
      kept.length ≤ value.length ∧ Text.ink kept = Text.ink value ∧
      ∀ stop, stop = ';' ∨ stop = '}' →
        walk .text [] (property ++ ':' :: (value ++ markText important [])) (some stop)
          = some (.text, (before ++ ':' :: (kept ++ markText important [])).reverse) := by
  obtain ⟨mode, before, blank, hquoted, hblank, hlength, hcolon, hrest, hproperty⟩ := walk_property h
  obtain ⟨kept, hlength', hink, hcurrent, hvalue⟩ := walk_value htrim hquoted (by simp) hrest
  have hreverse : blank.reverse = blank := by rcases hblank with rfl | rfl <;> rfl
  refine ⟨before.reverse, kept, blank, hblank, ?_, by simpa using hlength, by simpa using hcolon,
    hlength', hink, fun stop hstop => ?_⟩
  · simpa [hreverse] using hcurrent
  · rw [hproperty, hvalue _ (List.cons_ne_nil _ _) stop hstop]
    simp

/-- A mark that is found behind as much ink as the printed mark is the printed mark. -/
lemma eq_of_marked {blank kept part dropped : List Char} (hblank : IsPad blank)
    (hink : Text.ink part = Text.ink kept)
    (h : part ++ (importantMark ++ dropped) = blank ++ (kept ++ markText true [' '])) :
    part = blank ++ (kept ++ [' ']) := by
  have hsplit : blank ++ (kept ++ markText true [' '])
      = (blank ++ (kept ++ [' '])) ++ importantMark := by simp [markText]
  rw [hsplit, ← List.append_assoc] at h
  have hdropped : dropped = [] := by
    rcases List.eq_nil_or_concat dropped with hnil | ⟨front, last, hconcat⟩
    · exact hnil
    · have hlast := congrArg List.getLast? h
      have hmark : importantMark.getLast? = some 't' := by decide
      rw [hconcat, List.concat_eq_append, ← List.append_assoc, List.getLast?_concat,
        List.getLast?_append, hmark] at hlast
      obtain rfl : last = 't' := Option.some.inj hlast
      have htotal := congrArg Text.ink h
      have hpos : 0 < Text.ink dropped := Text.ink_pos_of_mem (c := 't') (by simp [hconcat]) (by decide)
      have hpad : Text.ink blank = 0 := by rcases hblank with rfl | rfl <;> decide
      simp only [Text.ink_append, hpad, show Text.ink [' '] = 0 by decide] at htotal
      omega
  rw [hdropped, List.append_nil] at h
  exact List.append_cancel_right h

/-- A text as long as what is declared, with its colon and its blanks, is what is declared. -/
lemma parts_of_declares {before kept blank : List Char} {property value : String}
    {important : Bool} (hblank : IsPad blank) (hcolon : ':' ∉ before)
    (hbefore : before.length ≤ property.toList.length)
    (hkept : kept.length ≤ value.toList.length) (hink : Text.ink kept = Text.ink value.toList)
    (h : Token.ofText (before ++ ':' :: (blank ++ (kept ++ markText important [' '])))
      = .declares property value important) :
    before = property.toList ∧ kept = value.toList := by
  rw [Token.ofText] at h
  split_ifs at h
  rw [splitAtChar?_append hcolon, Token.ofParts] at h
  cases important with
  | false =>
      split at h
      · cases h
      obtain ⟨rfl, rfl, -⟩ := Token.declares.inj h
      rw [String.toList_ofList] at hbefore hkept ⊢
      rw [String.toList_ofList]
      have hvalue : Text.trim (blank ++ (kept ++ markText false [' '])) = Text.trim kept := by
        rw [Text.trim_append_of_blank_left _ hblank.isBlank, markText, if_neg Bool.false_ne_true,
          List.append_nil]
      rw [hvalue] at hkept ⊢
      exact ⟨eq_of_length_trim rfl hbefore, eq_of_length_trim rfl hkept⟩
  | true =>
      split at h
      next part dropped hfound =>
        obtain ⟨rfl, rfl, -⟩ := Token.declares.inj h
        rw [String.toList_ofList] at hbefore hkept hink ⊢
        rw [String.toList_ofList]
        have hpart := eq_of_marked hblank (by simpa using hink.symm) (Text.splitFirst?_eq_some hfound)
        have hvalue : Text.trim part = Text.trim kept := by
          rw [hpart, Text.trim_append_of_blank_left _ hblank.isBlank,
            Text.trim_append_of_blank _ (List.forall_mem_singleton.2 rfl)]
        rw [hvalue] at hkept ⊢
        exact ⟨eq_of_length_trim rfl hbefore, eq_of_length_trim rfl hkept⟩
      next => cases h

/-- What a declaration on a line of its own begins with has ink. -/
lemma ink_pos_of_declares {property value : String} {important : Bool} {more : List Char}
    {rest : List Char} {tokens : List Token}
    (h : Owes [] (property.toList ++ ':' :: more ++ rest)
      (.declares property value important :: tokens)) {front back : List Char} {c : Char}
    (hsplit : property.toList ++ ':' :: more = front ++ c :: back)
    (hc : c = ';' ∨ c = '{' ∨ c = '}') : 0 < Text.ink front := by
  have hproper := h.tells.proper (by decide) _ List.mem_cons_self
  -- The line begins as the property does, or else with the colon.
  have hhead : ∀ d, (property.toList ++ ':' :: more).head? = some d →
      property.toList.head? = some d ∨ d = ':' := by
    intro d hd
    cases hproperty : property.toList with
    | nil =>
        rw [hproperty] at hd
        exact Or.inr (Option.some.inj hd).symm
    | cons e after =>
        rw [hproperty] at hd
        exact Or.inl hd
  refine Text.ink_pos_of_front (fun d hd => ?_) hsplit ?_
  · rcases hhead d hd with hfirst | rfl
    · exact Text.not_isBlank_head hproper.trimmed hfirst
    · decide
  · -- No declaration begins with the end of a node.
    rintro rfl
    rcases hc with rfl | hbrace
    · rcases hhead ';' (by rw [hsplit]; rfl) with hfirst | habsurd
      · exact hproper.name hfirst
      · revert habsurd
        decide
    · rw [hsplit] at h
      rcases h.told_of_brace hbrace with htoken | htoken <;> cases htoken

/-- The declaration on the line, without its optional blanks, is collected as it stands and makes the
declaration; and reading goes on in the next line. -/
lemma walk_declaration {property value : String} {important : Bool} {rest : List Char}
    {tokens : List Token} (hcustom : ¬ ['-', '-'] <+: property.toList)
    (h : Owes [] (property.toList ++ ':' :: ' ' :: (value.toList ++ markText important [' '])
      ++ ';' :: '\n' :: rest) (.declares property value important :: tokens)) :
    Spells (property.toList ++ ':' :: (value.toList ++ markText important []))
        (.declaration property value important none) ∧
      (∀ stop, stop = ';' ∨ stop = '}' →
        walk .text [] (property.toList ++ ':' :: (value.toList ++ markText important [])) (some stop)
          = some (.text,
            (property.toList ++ ':' :: (value.toList ++ markText important [])).reverse)) ∧
      Owes [] rest tokens := by
  have hproper := h.tells.proper (by decide) _ List.mem_cons_self
  have hproperty : Text.trim property.toList = property.toList := hproper.trimmed
  have hvalue := hproper.value _ _ _ rfl
  have hbegins := (begins_of_trim hproperty hcustom).append_cons (c := ':') (fun _ => rfl)
    (by decide) (' ' :: (value.toList ++ markText important [' ']))
  have hpos : 0 < Text.ink (property.toList ++ ':' :: ' ' ::
      (value.toList ++ markText important [' '])) :=
    Text.ink_pos_of_mem (c := ':') (by simp) (by decide)
  obtain ⟨current, hwalk, htoken, howes⟩ := ends_line hbegins hpos
    (fun front c back hsplit hc => ink_pos_of_declares h hsplit hc)
    (fun _ habsurd => by cases habsurd)
    (fun part front c back hsplit hc hlength hink htoken =>
      Parsed.not_of_cut hsplit hc hlength hink (Parsed.of_ofText htoken.symm).2.1)
    (fun part front hsplit hlt htoken =>
      Parsed.not_of_hidden hsplit hlt (Parsed.of_ofText htoken.symm).2.1)
    h
  obtain ⟨hat, hparsed, hcolon⟩ := Parsed.of_ofText htoken.symm
  obtain ⟨before, kept, blank, hblank, hcurrent, hbefore, hmem, hkept, hink, hminified⟩ :=
    walk_printed hvalue hwalk
  rw [hcurrent] at htoken hat
  obtain ⟨rfl, rfl⟩ := parts_of_declares hblank (hmem hcolon) hbefore hkept hink htoken.symm
  have hhead : property.toList.head? ≠ some '@' := by
    intro habsurd
    rw [List.head?_append, habsurd] at hat
    exact hat rfl
  exact ⟨spells_declaration hproperty hcolon hhead hvalue hparsed.not_mark important isPad_nil
    isPad_nil, hminified, howes⟩

end UtilityCss
