import UtilityCss.Proofs.Lockstep
import UtilityCss.Proofs.Minified

/-!
# Custom properties are read verbatim

A custom property at the start of a block is one child more for its rule, and nothing else of what is
read changes.

* **Values** — `Balanced`: brackets match and no semicolon stands outside of them.  Together with
  `EndsBare` this makes a value that ends at the semicolon behind it (`survey_of_balanced`).
* **The property** — `leads_verbatim`: name and value are what was written.
* **The other child** — `Sprouted`: two readings that differ by a first child of the first rule.  All
  that is done to an outline keeps them so (`Sprouted.lockstep`), hence every text does (`Sprouted.run`).
-/

namespace UtilityCss

/-! ## Values -/

/-- A value with these brackets to be closed, in which everything else matches: escaped characters and
closed comments are skipped, a closing bracket closes the innermost one, and a semicolon stands inside of
brackets.  A backslash at the end and a comment that is not closed are characters like others. -/
inductive Balanced : (brackets : List Char) → List Char → Prop
  | nil : Balanced [] []
  | escape {brackets rest : List Char} {c : Char} (h : Balanced brackets rest) :
      Balanced brackets ('\\' :: c :: rest)
  | comment {brackets rest text rest' : List Char} (hclosed : commentBody rest = (text, true, rest'))
      (h : Balanced brackets rest') : Balanced brackets ('/' :: '*' :: rest)
  | opening {brackets rest : List Char} {c close : Char} (hc : closer? c = some close)
      (h : Balanced (close :: brackets) rest) : Balanced brackets (c :: rest)
  | closing {brackets rest : List Char} {c : Char} (hc : c ∈ [')', ']', '}'])
      (h : Balanced brackets rest) : Balanced (c :: brackets) (c :: rest)
  | other {brackets rest : List Char} {c : Char} (hc : c ∉ ['(', '[', '{', ')', ']', '}'])
      (hsemicolon : c = ';' → brackets ≠ []) (hescape : c = '\\' → rest = [])
      (hcomment : ∀ rest', c = '/' → rest = '*' :: rest' → (commentBody rest').2.1 = false)
      (h : Balanced brackets rest) : Balanced brackets (c :: rest)

/-- The value neither leaves a comment open nor ends in a backslash that hides what follows. -/
def EndsBare (text : List Char) : Prop :=
  survey (fun _ _ => some ()) .bare () text none = some (.bare, ())

instance (text : List Char) : Decidable (EndsBare text) :=
  inferInstanceAs (Decidable (survey _ _ _ _ _ = _))

section comments
variable {σ : Type} (see : σ → Char → Option σ) (s : σ)

/-- A comment is passed over if it is closed, and otherwise runs to the end. -/
lemma survey_comment (cs : List Char) (next : Option Char) :
    (commentBody cs).2.1 = true ∧
        survey see .comment s cs next = survey see .bare s (commentBody cs).2.2 next ∨
      (commentBody cs).2.1 = false ∧ ∃ cover, cover ≠ .bare ∧
        survey see .comment s cs next = some (cover, s) := by
  fun_induction commentBody cs with
  | case1 => exact Or.inr ⟨rfl, .comment, by decide, rfl⟩
  | case2 rest => exact Or.inl ⟨rfl, rfl⟩
  | case3 c rest text closed rest' hbody ih =>
      rw [hbody] at ih
      exact ih
  | case4 c rest hend hesc text closed rest' hbody ih =>
      rcases Cover.turn_inside c (rest.head?.or next) true with hturn | ⟨skip, hturn⟩
      · rw [hbody] at ih
        rw [survey_hidden (Or.inl (by decide))]
        rw [show Cover.inside true = .comment from rfl] at hturn
        rw [hturn]
        exact ih
      · -- A backslash or star in front of nothing.
        have hnil : rest = [] := by
          cases rest with
          | nil => rfl
          | cons d rest =>
              rcases Cover.turn_eq_skipped hturn with ⟨rfl, -⟩ | ⟨habsurd, -⟩ | ⟨-, rfl, hslash, -⟩
              · exact absurd rfl (hesc d rest rfl)
              · cases habsurd
              · exact absurd (by rw [Option.some.inj hslash]) (hend rest rfl)
        subst hnil
        obtain ⟨-, rfl, -⟩ : [] = text ∧ false = closed ∧ [] = rest' := by
          simpa [commentBody] using hbody
        refine Or.inr ⟨rfl, .skipped skip, by simp, ?_⟩
        rw [survey_hidden (Or.inl (by decide))]
        exact congrArg (fun cover => some (cover, s)) hturn

end comments

/-- In the open only a backslash and the beginning of a comment turn. -/
lemma turn_bare {c : Char} {next : Option Char} (hesc : c ≠ '\\') (hmark : c = '/' → next ≠ some '*') :
    Cover.bare.turn c next = .bare := by
  rw [Cover.turn, if_neg hesc, if_neg (by simpa using hmark)]

lemma mem_closers_of_closer? {c close : Char} (h : closer? c = some close) :
    close ∈ [')', ']', '}'] := by
  unfold closer? at h
  split at h
  · simp [← Option.some.inj h]
  · simp [← Option.some.inj h]
  · simp [← Option.some.inj h]
  · cases h

/-- One character of a value that is neither skipped nor begins something that is. -/
lemma EndsBare.survey_cons {c : Char} {rest brackets brackets' : List Char} (h : EndsBare (c :: rest))
    (hesc : c ≠ '\\') (hmark : c = '/' → rest.head? ≠ some '*')
    (hnest : nest brackets c = some brackets') :
    EndsBare rest ∧ survey nest .bare brackets (c :: rest) (some ';')
      = survey nest .bare brackets' rest (some ';') := by
  have hturn : ∀ next, next ≠ some '*' → Cover.bare.turn c (rest.head?.or next) = .bare := by
    intro next hnext
    refine turn_bare hesc fun hc => ?_
    cases rest with
    | nil => exact hnext
    | cons d rest => exact hmark hc
  constructor
  · rw [EndsBare, survey_bare (hturn none (by simp))] at h
    exact h
  · rw [survey_bare (hturn _ (by simp)), hnest]
    rfl

/-- A value whose comments are closed does not begin with one that is open. -/
lemma EndsBare.not_comment {c : Char} {rest : List Char} (h : EndsBare (c :: rest))
    (hcomment : ∀ rest', c = '/' → rest = '*' :: rest' → (commentBody rest').2.1 = false) :
    c = '/' → rest.head? ≠ some '*' := by
  rintro rfl hstar
  obtain ⟨rest', rfl⟩ := List.head?_eq_some_iff.1 hstar
  rcases survey_comment (fun (_ : Unit) _ => some ()) () rest' none with
    ⟨hclosed, -⟩ | ⟨-, cover, hcover, hsurvey⟩
  · rw [hcomment rest' rfl rfl] at hclosed
    cases hclosed
  · exact hcover (Prod.mk.inj (Option.some.inj (hsurvey.symm.trans h))).1

/-- A character that is no bracket, and no semicolon outside of brackets, leaves them as they are. -/
lemma nest_of_other {brackets : List Char} (hbrackets : ∀ x ∈ brackets, x ∈ [')', ']', '}'])
    {c : Char} (hc : c ∉ ['(', '[', '{', ')', ']', '}']) (hsemicolon : c = ';' → brackets ≠ []) :
    nest brackets c = some brackets := by
  simp only [List.mem_cons, List.not_mem_nil, or_false, not_or] at hc
  rw [nest, if_neg, bracketsAfter_of_not_mem (by simp [hc])]
  · intro hmem
    have := hbrackets c hmem
    simp [hc] at this
  · rintro ⟨hnil, rfl | rfl⟩
    · exact hsemicolon rfl hnil
    · simp at hc

/-- A value in which everything matches belongs to its property, up to the semicolon behind it. -/
lemma survey_of_balanced {brackets text : List Char} (h : Balanced brackets text)
    (hbrackets : ∀ x ∈ brackets, x ∈ [')', ']', '}']) (hend : EndsBare text) :
    survey nest .bare brackets text (some ';') = some (.bare, []) := by
  induction h with
  | nil => rfl
  | escape h ih => exact ih hbrackets hend
  | @comment brackets rest text rest' hclosed h ih =>
      have hpast : ∀ {σ : Type} (see : σ → Char → Option σ) (s : σ) (next : Option Char),
          survey see .bare s ('/' :: '*' :: rest) next = survey see .bare s rest' next := by
        intro σ see s next
        rcases survey_comment see s rest next with ⟨-, hsurvey⟩ | ⟨hopen, -⟩
        · rw [hclosed] at hsurvey
          exact hsurvey
        · rw [hclosed] at hopen
          cases hopen
      rw [EndsBare, hpast] at hend
      rw [hpast]
      exact ih hbrackets hend
  | @opening brackets rest c close hc h ih =>
      have hnest : nest brackets c = some (close :: brackets) := by
        have hne : ¬ (brackets = [] ∧ (c = ';' ∨ c = '}')) := by
          rintro ⟨-, rfl | rfl⟩ <;> cases hc
        rw [nest, if_neg hne, bracketsAfter, hc]
      obtain ⟨hrest, hstep⟩ :=
        hend.survey_cons (by rintro rfl; cases hc) (by rintro rfl; cases hc) hnest
      rw [hstep]
      exact ih (List.forall_mem_cons.2 ⟨mem_closers_of_closer? hc, hbrackets⟩) hrest
  | @closing brackets rest c hc h ih =>
      have hnest : nest (c :: brackets) c = some brackets := by
        simp only [List.mem_cons, List.not_mem_nil, or_false] at hc
        rcases hc with rfl | rfl | rfl <;> rfl
      obtain ⟨hrest, hstep⟩ := hend.survey_cons (by rintro rfl; simp at hc)
        (by rintro rfl; simp at hc) hnest
      rw [hstep]
      exact ih (List.forall_mem_cons.1 hbrackets).2 hrest
  | @other brackets rest c hc hsemicolon hescape hcomment h ih =>
      have hesc : c ≠ '\\' := by
        rintro rfl
        rw [hescape rfl] at hend
        cases hend
      obtain ⟨hrest, hstep⟩ := hend.survey_cons hesc (hend.not_comment hcomment)
        (nest_of_other hbrackets hc hsemicolon)
      rw [hstep]
      exact ih hbrackets hrest

/-! ## The property -/

/-- Whether a character may stand in the name of a custom property, as letters, digits, hyphens and
underscores do. -/
def IsNameChar (c : Char) : Prop :=
  Text.isBlank c = false ∧ c ∉ ['\\', '/', ':', ';', '(', ')', '[', ']', '{', '}']

instance : DecidablePred IsNameChar :=
  fun c => inferInstanceAs (Decidable (Text.isBlank c = false ∧ c ∉ _))

lemma isNameChar_of_isAlphanum {c : Char} (h : c.isAlphanum = true ∨ c = '-' ∨ c = '_') :
    IsNameChar c := by
  rcases h with h | rfl | rfl
  · constructor
    · change (decide (c.val ≥ 65 ∧ c.val ≤ 90) || (c.val ≥ 97 && c.val ≤ 122) ||
        (c.val ≥ 48 && c.val ≤ 57)) = true at h
      simp only [Bool.or_eq_true, Bool.and_eq_true, decide_eq_true_eq, UInt32.le_iff_toNat_le,
        ge_iff_le] at h
      change ((65 ≤ c.toNat ∧ c.toNat ≤ 90) ∨ 97 ≤ c.toNat ∧ c.toNat ≤ 122) ∨
        48 ≤ c.toNat ∧ c.toNat ≤ 57 at h
      simp only [Text.isBlank, Bool.or_eq_false_iff, Bool.and_eq_false_iff, decide_eq_false_iff_not,
        beq_eq_false_iff_ne]
      omega
    · intro hmem
      simp only [List.mem_cons, List.not_mem_nil, or_false] at hmem
      rcases hmem with rfl | rfl | rfl | rfl | rfl | rfl | rfl | rfl | rfl | rfl <;>
        exact absurd h (by decide)
  · decide
  · decide

/-- A name ends at its colon. -/
lemma splitAtColon?_name {name : List Char} (hname : ∀ c ∈ name, IsNameChar c) (value : List Char) :
    splitAtColon? false (name ++ ':' :: value) = some (name, value) := by
  induction name with
  | nil => rfl
  | cons c name ih =>
      obtain ⟨⟨-, hc⟩, hrest⟩ := List.forall_mem_cons.1 hname
      simp only [List.mem_cons, List.not_mem_nil, or_false, not_or] at hc
      rw [List.cons_append, splitAtColon?.eq_5, if_neg (by simp [hc]), ih hrest]
      · rfl
      · exact fun _ _ hesc _ => hc.1 hesc
      · exact fun _ _ hslash _ => hc.2.1 hslash
      · exact fun _ habsurd _ _ => Bool.false_ne_true habsurd

/-- A name opens and closes nothing. -/
lemma survey_name {name : List Char} (hname : ∀ c ∈ name, IsNameChar c) (value : List Char)
    (next : Option Char) :
    survey nest .bare [] (name ++ ':' :: value) next = survey nest .bare [] value next := by
  induction name with
  | nil => rfl
  | cons c name ih =>
      obtain ⟨⟨-, hc⟩, hrest⟩ := List.forall_mem_cons.1 hname
      simp only [List.mem_cons, List.not_mem_nil, or_false, not_or] at hc
      have hnest : nest [] c = some [] := by
        rw [nest, if_neg (by simp [hc]), bracketsAfter_of_not_mem (by simp [hc]) (by simp)]
      rw [List.cons_append, survey_bare (turn_bare hc.1 fun hslash => absurd hslash hc.2.1), hnest]
      exact ih hrest

lemma trim_name {name : List Char} (hname : ∀ c ∈ name, IsNameChar c) : Text.trim name = name := by
  have hkept : ∀ cs ⊆ name, Text.trimStart cs = cs := by
    intro cs hcs
    cases cs with
    | nil => rfl
    | cons c cs => exact List.dropWhile_cons_of_neg (by simp [(hname c (hcs List.mem_cons_self)).1])
  refine Text.trim_eq_self_iff.2 ⟨hkept name (List.Subset.refl _), ?_⟩
  have hreverse := hkept name.reverse (by simp)
  rw [Text.trimStart] at hreverse
  rw [Text.trimEnd, hreverse, List.reverse_reverse]

/-- A custom property with a name and a value that matches is the declaration that was written. -/
lemma leads_verbatim {o : Outline} (ho : o.current = []) {name value : List Char}
    (hname : ∀ c ∈ name, IsNameChar c) (hvalue : Balanced [] value) (hend : EndsBare value)
    (hmark : ¬ importantMark <:+: value) (rest : List Char) :
    Leads o ('-' :: '-' :: (name ++ ':' :: value ++ ';' :: rest))
      (o.attach (.declaration (String.ofList ('-' :: '-' :: name)) (String.ofList (Text.trim value))
        false none)) rest := by
  have hyphens : ∀ c ∈ '-' :: '-' :: name, IsNameChar c := by
    rw [List.forall_mem_cons, List.forall_mem_cons]
    exact ⟨by decide, by decide, hname⟩
  have hbody : customBody false [] (name ++ ':' :: value ++ ';' :: rest)
      = (name ++ ':' :: value, true, rest) := by
    have hsurvey := survey_of_balanced hvalue (by simp) hend
    rw [← survey_name hname] at hsurvey
    rw [@customBody_of_survey _ (';' :: rest) false false [] [] hsurvey]
    simp [customBody]
  refine leads_custom ho hbody ?_
  have hparts := splitAtColon?_name hyphens value
  rw [List.cons_append, List.cons_append] at hparts
  rw [Token.ofCustom, hparts, Option.some_or, Token.ofParts, Text.splitFirst?_eq_none_iff.2 hmark,
    trim_name hyphens]

/-! ## The other child -/

/-- Two outlines that differ by one child, which the second has in front of all others in the first rule
of the document.  That rule is the outermost one that is open, or the first one that was closed. -/
inductive Sprouted (selector : String) (child : Node) : Outline → Outline → Prop
  | opened (licences nodes : List Node) (inner : List (String × List Node)) (current : List Char) :
      Sprouted selector child ⟨[], licences, inner ++ [(selector, nodes)], current⟩
        ⟨[], licences, inner ++ [(selector, nodes ++ [child])], current⟩
  | closed (later licences nodes : List Node) (opened : List (String × List Node))
      (current : List Char) :
      Sprouted selector child ⟨later ++ [.rule selector nodes true none], licences, opened, current⟩
        ⟨later ++ [.rule selector (child :: nodes) true none], licences, opened, current⟩

namespace Sprouted
variable {selector : String} {child : Node} {o o' : Outline}

lemma current (h : Sprouted selector child o o') : o'.current = o.current := by
  cases h <;> rfl

lemma licences (h : Sprouted selector child o o') : o'.licences = o.licences := by
  cases h <;> rfl

/-- The open rules have the same selectors. -/
lemma selectors (h : Sprouted selector child o o') :
    o'.opened.map Prod.fst = o.opened.map Prod.fst := by
  cases h <;> simp

lemma withCurrent (h : Sprouted selector child o o') (current : List Char) :
    Sprouted selector child { o with current } { o' with current } := by
  cases h with
  | opened licences nodes inner => exact .opened licences nodes inner _
  | closed later licences nodes opened => exact .closed later licences nodes opened _

lemma withLicence (h : Sprouted selector child o o') (node : Node) :
    Sprouted selector child { o with licences := node :: o.licences }
      { o' with licences := node :: o'.licences } := by
  cases h with
  | opened licences nodes inner current => exact .opened _ nodes inner current
  | closed later licences nodes opened current => exact .closed later _ nodes opened current

/-- A node that is attached goes to the same rule on both sides. -/
lemma attach (h : Sprouted selector child o o') (node : Node) :
    Sprouted selector child (o.attach node) (o'.attach node) := by
  cases h with
  | opened licences nodes inner current =>
      cases inner with
      | nil => exact .opened licences (node :: nodes) [] current
      | cons rule inner => exact .opened licences nodes ((rule.1, node :: rule.2) :: inner) current
  | closed later licences nodes opened current =>
      cases opened with
      | nil => exact .closed (node :: later) licences nodes [] current
      | cons rule outer => exact .closed later licences nodes ((rule.1, node :: rule.2) :: outer) current

/-- A rule that is opened has the sprout outside. -/
lemma enter (h : Sprouted selector child o o') (name : String) :
    Sprouted selector child (o.enter name) (o'.enter name) := by
  cases h with
  | opened licences nodes inner current => exact .opened licences nodes ((name, []) :: inner) current
  | closed later licences nodes opened current =>
      exact .closed later licences nodes ((name, []) :: opened) current

/-- The first rule is closed, or another. -/
lemma leave (h : Sprouted selector child o o') : Sprouted selector child o.leave o'.leave := by
  cases h with
  | opened licences nodes inner current =>
      cases inner with
      | nil => simpa [Outline.leave, Outline.attach] using closed [] licences nodes.reverse [] current
      | cons rule inner =>
          exact (opened licences nodes inner current).attach (.rule rule.1 rule.2.reverse true none)
  | closed later licences nodes opened current =>
      cases opened with
      | nil => exact .closed later licences nodes [] current
      | cons rule outer =>
          exact (closed later licences nodes outer current).attach
            (.rule rule.1 rule.2.reverse true none)

/-- Every text keeps the difference. -/
lemma lockstep (selector : String) (child : Node) : Outline.Lockstep (Sprouted selector child) :=
  ⟨current, selectors, withCurrent, withLicence, attach, enter, leave⟩

/-- The two readings end alike. -/
lemma run {r r' : Reading} (h : Sprouted selector child r.outline r'.outline) (cs : List Char) :
    Agree (Sprouted selector child) (r.run cs) (r'.run cs) :=
  (lockstep selector child).run h cs

end Sprouted

/-! ## Reading on -/

/-- The end: an open rule is an error for both, and otherwise both have the first rule in their forest,
behind the licences. -/
lemma Sprouted.finish {selector : String} {child : Node} {r r' : Reading}
    (h : Sprouted selector child r.outline r'.outline) :
    (∃ e e', r.finish = .error e ∧ r'.finish = .error e' ∧ e'.clearSpan = e.clearSpan) ∨
      ∃ nodes later,
        r.finish.map Node.clearSpansAll = .ok (r.outline.licences.reverse ++
          .rule selector nodes true none :: later) ∧
        r'.finish.map Node.clearSpansAll = .ok (r.outline.licences.reverse ++
          .rule selector (child :: nodes) true none :: later) := by
  rcases (lockstep selector child).opened_cases h with
    ⟨hnone, hnone'⟩ | ⟨rule, outer, rule', outer', hopened, hopened', hsame⟩
  · right
    have hok : ∀ s : Reading, s.opened = [] → s.finish.map Node.clearSpansAll
        = .ok (s.outline.licences.reverse ++ s.outline.finished.reverse) := by
      intro s hs
      simp [Reading.finish, hs, Except.map, Node.clearSpansAll_eq_map, Reading.outline]
    rw [hok r hnone, hok r' hnone', h.licences]
    have hclosed : r.outline.opened = [] := by simp [Reading.outline, hnone]
    generalize r.outline = o, r'.outline = o' at h hclosed ⊢
    cases h with
    | opened => simp at hclosed
    | closed later licences nodes => exact ⟨nodes, later.reverse, by simp, by simp⟩
  · left
    refine ⟨_, _, by rw [Reading.finish, hopened], by rw [Reading.finish, hopened'], ?_⟩
    rw [ReadError.clearSpan, ReadError.clearSpan, hsame]

/-- The rule opens, and its block is empty. -/
lemma leads_head (rest : List Char) :
    Leads .empty ('.' :: 'a' :: '\x7b' :: rest) (Outline.empty.enter ".a") rest := by
  have hdot : Leads .empty ('.' :: 'a' :: '\x7b' :: rest) (Outline.empty.typed ['.'])
      ('a' :: '\x7b' :: rest) :=
    leads_plain (by decide) ⟨by simp, by simp [isGap], by simp⟩ (by decide)
  have hletter : Leads (Outline.empty.typed ['.']) ('a' :: '\x7b' :: rest)
      (Outline.empty.typed ['.', 'a']) ('\x7b' :: rest) :=
    leads_plain (by decide) ⟨by simp, by simp [isGap], by simp⟩ (by decide)
  exact hdot.trans (hletter.trans (leads_opening rfl ['.', 'a'] rest))

/-- **Custom properties are read verbatim.**  Take a name of letters, digits, hyphens and underscores,
and a value without the mark of importance in which everything matches, which leaves no comment open and
does not end in a backslash that hides what follows.  At the start of a block, in front of any text, they
are one child more, with the trimmed value, and the rest is read as if they were not there. -/
theorem readUpToSpans_verbatim (file : Nat) {name value : String}
    (hname : ∀ c ∈ name.toList, IsNameChar c) (hvalue : Balanced [] value.toList)
    (hend : EndsBare value.toList) (hmark : ¬ importantMark <:+: value.toList) (rest : String) :
    (∃ e, readUpToSpans file (".a\x7b" ++ rest) = .error e ∧
      readUpToSpans file (".a\x7b--" ++ name ++ ":" ++ value ++ ";" ++ rest) = .error e) ∨
    ∃ notices nodes later, (∀ notice ∈ notices, ∃ text, notice = .comment text none) ∧
      readUpToSpans file (".a\x7b" ++ rest)
        = .ok (notices ++ .rule ".a" nodes true none :: later) ∧
      readUpToSpans file (".a\x7b--" ++ name ++ ":" ++ value ++ ";" ++ rest)
        = .ok (notices ++ .rule ".a" (.declaration ("--" ++ name) (Text.trimmed value) false none
            :: nodes) true none :: later) := by
  obtain ⟨r, hr, hrun⟩ := leads_head rest.toList { file } rfl
  obtain ⟨r', hr', hrun'⟩ := ((leads_head _).trans
    (leads_verbatim rfl hname hvalue hend hmark rest.toList)) { file } rfl
  have hsecond := readUpToSpans_of_run file (".a\x7b" ++ rest) (by simpa using hrun)
  have hfirst := readUpToSpans_of_run file (".a\x7b--" ++ name ++ ":" ++ value ++ ";" ++ rest)
    (by simpa using hrun')
  rw [hsecond, hfirst]
  have hproperty : String.ofList ('-' :: '-' :: name.toList) = "--" ++ name := by
    rw [← String.toList_inj]
    simp
  have hsprouted : Sprouted ".a" (.declaration ("--" ++ name) (Text.trimmed value) false none)
      r.outline r'.outline := by
    rw [hr, hr', hproperty]
    exact .opened [] [] [] []
  have hlicences : ∀ s, r.run rest.toList = .ok s → ∀ node ∈ s.outline.licences, Noticed node := by
    intro s hs
    obtain ⟨newer, hnewer, hnoticed⟩ := licences_of_run hs
    rw [hr, show (Outline.empty.enter ".a").licences = [] from rfl, List.append_nil] at hnewer
    rwa [hnewer]
  have hsame := hsprouted.run rest.toList
  generalize r.run rest.toList = result, r'.run rest.toList = result' at hsame hlicences ⊢
  cases hsame with
  | @error e e' he => exact Or.inl ⟨e.clearSpan, rfl, congrArg Except.error he⟩
  | @ok s s' hs =>
      rcases hs.finish with ⟨e, e', hfinish, hfinish', he⟩ | ⟨nodes, later, hfinish, hfinish'⟩
      · refine Or.inl ⟨e.clearSpan, ?_, ?_⟩
        · rw [Except.bind, hfinish]
          rfl
        · rw [Except.bind, hfinish', ← he]
          rfl
      · refine Or.inr ⟨s.outline.licences.reverse, nodes, later, fun notice hnotice => ?_, ?_, ?_⟩
        · obtain ⟨text, htext, -⟩ := hlicences s rfl notice (List.mem_reverse.1 hnotice)
          exact ⟨text, htext⟩
        · rw [Except.bind, hfinish]
          rfl
        · rw [Except.bind, hfinish']
          rfl

/-- A value with a semicolon in brackets, in a comment and behind a backslash. -/
lemma toList_semicolons :
    " [;]/*;*/\\;".toList = [' ', '[', ';', ']', '/', '*', ';', '*', '/', '\\', ';'] := by
  decide

lemma balanced_semicolons : Balanced [] " [;]/*;*/\\;".toList := by
  have hopening : closer? '[' = some ']' := rfl
  have hcomment : commentBody [';', '*', '/', '\\', ';'] = ([';'], true, ['\\', ';']) := rfl
  rw [toList_semicolons]
  refine .other (by decide) (by decide) (by decide) (by simp) (.opening hopening ?_)
  refine .other (by decide) (by decide) (by decide) (by simp) (.closing (by decide) ?_)
  exact .comment hcomment (.escape .nil)

theorem readUpToSpans_verbatim_semicolons :
    (∀ c ∈ "x-1".toList, IsNameChar c) ∧ Balanced [] " [;]/*;*/\\;".toList ∧
      EndsBare " [;]/*;*/\\;".toList ∧ ¬ importantMark <:+: " [;]/*;*/\\;".toList ∧
      readUpToSpans 0 ".a\x7bd:e\x7d" = .ok [.rule ".a" [.declaration "d" "e" false none] true none] ∧
      readUpToSpans 0 ".a\x7b--x-1: [;]/*;*/\\;;d:e\x7d"
        = .ok [.rule ".a" [.declaration "--x-1" "[;]/*;*/\\;" false none,
            .declaration "d" "e" false none] true none] := by
  have hname : ∀ c ∈ "x-1".toList, IsNameChar c := by
    have htext : "x-1".toList = ['x', '-', '1'] := by decide
    rw [htext]
    intro c hc
    rcases List.mem_cons.1 hc with rfl | hc
    · exact isNameChar_of_isAlphanum (.inl rfl)
    · rcases List.mem_pair.1 hc with rfl | rfl
      · exact isNameChar_of_isAlphanum (.inr (.inl rfl))
      · exact isNameChar_of_isAlphanum (.inl rfl)
  have hend : EndsBare " [;]/*;*/\\;".toList := by
    rw [EndsBare, toList_semicolons]
    rfl
  have hmark : ¬ importantMark <:+: " [;]/*;*/\\;".toList := Text.splitFirst?_eq_none_iff.1 (by decide)
  have hread : readStylesheet 0 ".a\x7bd:e\x7d"
      = .ok [.rule ".a" [.declaration "d" "e" false (some ⟨0, 3, 6⟩)] true (some ⟨0, 0, 7⟩)] := by
    with_unfolding_all rfl
  have hother : readUpToSpans 0 ".a\x7bd:e\x7d"
      = .ok [.rule ".a" [.declaration "d" "e" false none] true none] := by
    rw [readUpToSpans, hread]
    rfl
  have hverbatim := readUpToSpans_verbatim 0 hname balanced_semicolons hend hmark "d:e\x7d"
  have htext : ".a\x7b" ++ "d:e\x7d" = ".a\x7bd:e\x7d" := by decide
  have htext' : ".a\x7b--" ++ "x-1" ++ ":" ++ " [;]/*;*/\\;" ++ ";" ++ "d:e\x7d"
      = ".a\x7b--x-1: [;]/*;*/\\;;d:e\x7d" := by decide
  have hproperty : "--" ++ "x-1" = "--x-1" := by decide
  have htrimmed : Text.trimmed " [;]/*;*/\\;" = "[;]/*;*/\\;" := by decide
  rw [htext, htext', hproperty, htrimmed, hother] at hverbatim
  refine ⟨hname, balanced_semicolons, hend, hmark, hother, ?_⟩
  rcases hverbatim with ⟨e, he, -⟩ | ⟨notices, nodes, later, hnotices, hsecond, hfirst⟩
  · cases he
  · rw [Except.ok.injEq] at hsecond
    cases notices with
    | nil =>
        obtain ⟨hrule, rfl⟩ := List.cons.inj hsecond
        obtain ⟨-, rfl, -⟩ := Node.rule.inj hrule
        exact hfirst
    | cons notice notices =>
        obtain ⟨text, rfl⟩ := hnotices notice List.mem_cons_self
        cases (List.cons.inj hsecond).1

/-- A comment that is left open takes all that follows into the value, and a backslash at the end takes
the semicolon. -/
theorem readUpToSpans_not_verbatim :
    Balanced [] "/*".toList ∧ ¬ importantMark <:+: "/*".toList ∧
      Balanced [] "\\".toList ∧ ¬ importantMark <:+: "\\".toList ∧
      readUpToSpans 0 ".a\x7b\x7d" = .ok [.rule ".a" [] true none] ∧
      readUpToSpans 0 ".a\x7b--x:/*;\x7d" = .error (.missingClosingBrace ".a" .nowhere) ∧
      readUpToSpans 0 ".a\x7b--x:\\;\x7d"
        = .ok [.rule ".a" [.declaration "--x" "\\;" false none] true none] := by
  have hcomment : "/*".toList = ['/', '*'] := by decide
  have hescape : "\\".toList = ['\\'] := by decide
  have hempty : readStylesheet 0 ".a\x7b\x7d" = .ok [.rule ".a" [] true (some ⟨0, 0, 4⟩)] := by
    with_unfolding_all rfl
  have hopen : readStylesheet 0 ".a\x7b--x:/*;\x7d" = .error (.missingClosingBrace ".a" ⟨0, 0, 3⟩) := by
    with_unfolding_all rfl
  have hhidden : readStylesheet 0 ".a\x7b--x:\\;\x7d"
      = .ok [.rule ".a" [.declaration "--x" "\\;" false (some ⟨0, 3, 9⟩)] true (some ⟨0, 0, 10⟩)] := by
    with_unfolding_all rfl
  refine ⟨?_, Text.splitFirst?_eq_none_iff.1 (by decide), ?_,
    Text.splitFirst?_eq_none_iff.1 (by decide), ?_, ?_, ?_⟩
  · rw [hcomment]
    refine .other (by decide) (by decide) (by decide) (by simp [commentBody]) ?_
    exact .other (by decide) (by decide) (by decide) (by simp) .nil
  · rw [hescape]
    exact .other (by decide) (by decide) (by decide) (by simp) .nil
  · rw [readUpToSpans, hempty]
    rfl
  · rw [readUpToSpans, hopen]
    rfl
  · rw [readUpToSpans, hhidden]
    rfl

end UtilityCss
