import UtilityCss.Proofs.Locality
import UtilityCss.Proofs.PrintedTexts

/-!
# Custom properties that are read back

The text of a custom property is kept as it stands, so to leave out a blank that was printed in it one
has to know that no bracket, comment or backslash of the value reaches beyond its end.

* **Covers** — `survey` goes over such a text and keeps track of what each character stands in: `Cover`.
  What a bare character does is up to a function, so that one survey serves brackets and colons.
* **Ends and colons** — `customBody_of_survey` and `survey_customBody` compare the survey for brackets
  with the reader, `splitAtColon?_eq_none_iff` the one for colons.
* **Optional blanks** — `survey_printed`: the blanks of a printed declaration make no difference.
* **Lines** — `lineRead_of_owes`: on a line of its own a property that tells as much as it weighs is read
  up to its semicolon, or has swallowed it and is the last of everything.
-/

namespace UtilityCss

/-! ## What a character stands in -/

/-- What a character of a custom property stands in. -/
inductive Cover where
  | bare
  | comment
  /-- Behind a backslash, or behind the first character of a mark that opens or closes a comment. -/
  | skipped (inComment : Bool)
  deriving DecidableEq

namespace Cover

/-- Inside a comment or outside all comments. -/
def inside (inComment : Bool) : Cover :=
  if inComment then .comment else .bare

/-- What the next character stands in. -/
def turn (c : Char) (next : Option Char) : Cover → Cover
  | .bare =>
    if c = '\\' then .skipped false
    else if c = '/' && next == some '*' then .skipped true
    else .bare
  | .comment =>
    if c = '\\' then .skipped true
    else if c = '*' && next == some '/' then .skipped false
    else .comment
  | .skipped inComment => .inside inComment

/-- What is inside a comment is covered in another way than what is not. -/
lemma inside_injective {a b : Bool} (h : inside a = inside b) : a = b := by
  cases a <;> cases b <;> first | rfl | cases h

lemma inside_ne_skipped (a b : Bool) : inside a ≠ .skipped b := by
  cases a <;> exact nofun

/-- Only a mark or a backslash makes a difference. -/
lemma turn_inside (c : Char) (next : Option Char) (inComment : Bool) :
    (inside inComment).turn c next = .inside inComment ∨
      ∃ inComment', (inside inComment).turn c next = .skipped inComment' := by
  cases inComment with
  | false =>
      simp only [inside, turn, Bool.false_eq_true, if_false]
      split_ifs
      · exact Or.inr ⟨_, rfl⟩
      · exact Or.inr ⟨_, rfl⟩
      · exact Or.inl rfl
  | true =>
      simp only [inside, turn, if_true]
      split_ifs
      · exact Or.inr ⟨_, rfl⟩
      · exact Or.inr ⟨_, rfl⟩
      · exact Or.inl rfl

/-- What is skipped stands behind a backslash or completes a mark. -/
lemma turn_eq_skipped {c : Char} {next : Option Char} {inComment skip : Bool}
    (h : (inside inComment).turn c next = .skipped skip) :
    c = '\\' ∧ skip = inComment ∨
      inComment = false ∧ c = '/' ∧ next = some '*' ∧ skip = true ∨
      inComment = true ∧ c = '*' ∧ next = some '/' ∧ skip = false := by
  cases inComment with
  | false =>
      simp only [inside, turn, Bool.false_eq_true, if_false] at h
      split_ifs at h with hesc hmark
      · exact Or.inl ⟨hesc, (skipped.inj h).symm⟩
      · obtain ⟨hslash, hstar⟩ : c = '/' ∧ next = some '*' := by simpa using hmark
        exact Or.inr (Or.inl ⟨rfl, hslash, hstar, (skipped.inj h).symm⟩)
  | true =>
      simp only [inside, turn, if_true] at h
      split_ifs at h with hesc hmark
      · exact Or.inl ⟨hesc, (skipped.inj h).symm⟩
      · obtain ⟨hstar, hslash⟩ : c = '*' ∧ next = some '/' := by simpa using hmark
        exact Or.inr (Or.inr ⟨rfl, hstar, hslash, (skipped.inj h).symm⟩)

end Cover

/-- Goes over the text of a custom property, given the character that follows it.  `see` tells what a
character does that is neither hidden nor in a comment; where it gives up, so does the survey. -/
def survey {σ : Type} (see : σ → Char → Option σ) (cover : Cover) (s : σ) :
    List Char → Option Char → Option (Cover × σ)
  | [], _ => some (cover, s)
  | c :: cs, next =>
    (if cover = .bare ∧ cover.turn c (cs.head?.or next) = .bare then see s c else some s).bind
      fun s' => survey see (cover.turn c (cs.head?.or next)) s' cs next

section
variable {σ : Type} {see : σ → Char → Option σ} {cover cover' : Cover} {s s' : σ}
  {c : Char} {cs a b : List Char} {next : Option Char}

/-- What is covered is not seen. -/
lemma survey_hidden (h : cover ≠ .bare ∨ cover.turn c (cs.head?.or next) ≠ .bare) :
    survey see cover s (c :: cs) next = survey see (cover.turn c (cs.head?.or next)) s cs next := by
  rw [survey, if_neg (by tauto)]
  rfl

/-- A character in the open is seen. -/
lemma survey_bare (h : Cover.bare.turn c (cs.head?.or next) = .bare) :
    survey see .bare s (c :: cs) next = (see s c).bind fun s' => survey see .bare s' cs next := by
  rw [survey, if_pos ⟨rfl, h⟩, h]

lemma survey_skipped {inComment : Bool} : survey see (.skipped inComment) s (c :: cs) next
    = survey see (.inside inComment) s cs next :=
  rfl

/-- A text can be surveyed a part at a time, given what follows the first part. -/
lemma survey_append : survey see cover s (a ++ b) next
    = (survey see cover s a (b.head?.or next)).bind fun t => survey see t.1 t.2 b next := by
  induction a generalizing cover s with
  | nil => rfl
  | cons c a ih =>
      rw [List.cons_append, survey, survey, List.head?_append, Option.or_assoc, Option.bind_assoc]
      exact Option.bind_congr fun s' _ => ih

lemma survey_append_of_eq_some (h : survey see cover s a (b.head?.or next) = some (cover', s')) :
    survey see cover s (a ++ b) next = survey see cover' s' b next := by
  rw [survey_append, h]
  rfl

/-- A survey of two parts is one of each. -/
lemma survey_append_eq_some {t : Cover × σ} (h : survey see cover s (a ++ b) next = some t) :
    ∃ cover' s', survey see cover s a (b.head?.or next) = some (cover', s') ∧
      survey see cover' s' b next = some t := by
  rw [survey_append] at h
  obtain ⟨⟨cover', s'⟩, hfront, hback⟩ := Option.bind_eq_some_iff.1 h
  exact ⟨cover', s', hfront, hback⟩

end

/-! ## The end of a custom property -/

/-- Brackets are opened and closed, up to the end of the property. -/
def nest (brackets : List Char) (c : Char) : Option (List Char) :=
  if brackets = [] ∧ (c = ';' ∨ c = '}') then none else some (bracketsAfter brackets c)

/-- A mark or a backslash is read together with the character behind it. -/
lemma customBody_skipped {inComment inComment' : Bool} {c d : Char}
    (h : (Cover.inside inComment).turn c (some d) = .skipped inComment') (brackets rest : List Char) :
    customBody inComment brackets (c :: d :: rest) =
      (c :: d :: (customBody inComment' brackets rest).1,
        (customBody inComment' brackets rest).2) := by
  rcases Cover.turn_eq_skipped h with ⟨rfl, rfl⟩ | ⟨rfl, rfl, hd, rfl⟩ | ⟨rfl, rfl, hd, rfl⟩
  · rw [customBody]
  · obtain rfl := Option.some.inj hd
    rw [customBody]
  · obtain rfl := Option.some.inj hd
    rw [customBody]

/-- In a comment a property takes every character. -/
lemma customBody_comment {c : Char} {rest : List Char}
    (h : Cover.comment.turn c rest.head? = .comment) (brackets : List Char) :
    customBody true brackets (c :: rest) =
      (c :: (customBody true brackets rest).1, (customBody true brackets rest).2) := by
  rw [Cover.turn] at h
  split_ifs at h with hesc hmark
  rw [customBody.eq_5]
  · exact fun _ _ hc _ => hesc hc
  · rintro _ rfl rfl
    exact hmark rfl

/-- In the open it takes those that keep its brackets. -/
lemma customBody_bare {c : Char} {rest : List Char} (h : Cover.bare.turn c rest.head? = .bare)
    {brackets brackets' : List Char} (hnest : nest brackets c = some brackets') :
    customBody false brackets (c :: rest) =
      (c :: (customBody false brackets' rest).1, (customBody false brackets' rest).2) := by
  rw [Cover.turn] at h
  split_ifs at h with hesc hmark
  rw [nest] at hnest
  split_ifs at hnest with hend
  obtain rfl := Option.some.inj hnest
  have hsemi : ¬ (brackets.isEmpty && c == ';') = true := by
    simp only [Bool.and_eq_true, List.isEmpty_iff, beq_iff_eq]
    tauto
  have hbrace : ¬ (brackets.isEmpty && c == '}') = true := by
    simp only [Bool.and_eq_true, List.isEmpty_iff, beq_iff_eq]
    tauto
  rw [customBody.eq_6, if_neg hsemi, if_neg hbrace]
  · exact fun _ _ hc _ => hesc hc
  · rintro _ rfl rfl
    exact hmark rfl

/-- Where the survey comes through, the text belongs to the property. -/
lemma customBody_of_survey (cs tail : List Char) {inComment inComment' : Bool}
    {brackets brackets' : List Char}
    (h : survey nest (.inside inComment) brackets cs tail.head?
      = some (.inside inComment', brackets')) :
    customBody inComment brackets (cs ++ tail) =
      (cs ++ (customBody inComment' brackets' tail).1,
        (customBody inComment' brackets' tail).2) := by
  induction hn : cs.length using Nat.strong_induction_on generalizing cs inComment brackets with
  | _ n ih =>
      cases cs with
      | nil =>
          obtain ⟨hcover, rfl⟩ := Prod.mk.inj (Option.some.inj h)
          obtain rfl := Cover.inside_injective hcover
          rfl
      | cons c cs =>
          have hhead : cs.head?.or tail.head? = (cs ++ tail).head? := List.head?_append.symm
          rcases Cover.turn_inside c (cs ++ tail).head? inComment with hturn | ⟨skip, hturn⟩
          · cases inComment with
            | true =>
                rw [survey_hidden (Or.inl (by decide)), hhead, hturn] at h
                rw [List.cons_append, customBody_comment hturn,
                  ih cs.length (by simp [← hn]) cs h rfl]
                rfl
            | false =>
                have hbare : Cover.bare.turn c (cs.head?.or tail.head?) = .bare := by
                  rw [hhead]
                  exact hturn
                rw [show Cover.inside false = .bare from rfl, survey_bare hbare] at h
                obtain ⟨brackets'', hnest, h⟩ := Option.bind_eq_some_iff.1 h
                have hrest := @ih cs.length (by simp [← hn]) cs false _ h rfl
                rw [List.cons_append, customBody_bare hturn hnest, hrest]
                rfl
          · rw [survey_hidden (Or.inr (by rw [hhead, hturn]; exact Cover.noConfusion)), hhead, hturn]
              at h
            cases cs with
            | nil =>
                have := (Prod.mk.inj (Option.some.inj h)).1
                exact absurd this.symm (Cover.inside_ne_skipped _ _)
            | cons d cs =>
                rw [survey_skipped] at h
                rw [List.cons_append, List.cons_append, customBody_skipped hturn,
                  ih cs.length (by simp only [← hn, List.length_cons]; omega) cs h rfl]
                rfl

/-- The text of a property is surveyed to its end, or up to the end of everything. -/
lemma survey_customBody (cs : List Char) (inComment : Bool) (brackets : List Char) :
    ∃ cover brackets', survey nest (.inside inComment) brackets
        (customBody inComment brackets cs).1
        ((if (customBody inComment brackets cs).2.1 then [';'] else []) ++
          (customBody inComment brackets cs).2.2).head? = some (cover, brackets') ∧
      ((customBody inComment brackets cs).2 = (false, []) ∨
        cover = .bare ∧ brackets' = [] ∧ ((customBody inComment brackets cs).2.1 = true ∨
          (customBody inComment brackets cs).2.1 = false ∧
            (customBody inComment brackets cs).2.2.head? = some '}')) := by
  induction hn : cs.length using Nat.strong_induction_on generalizing cs inComment brackets with
  | _ n ih =>
      cases cs with
      | nil => cases inComment <;> exact ⟨_, _, rfl, Or.inl rfl⟩
      | cons c cs =>
          have hhead : ∀ inComment brackets, (customBody inComment brackets cs).1.head?.or
              ((if (customBody inComment brackets cs).2.1 then [';'] else []) ++
                (customBody inComment brackets cs).2.2).head? = cs.head? := by
            intro inComment brackets
            rw [← List.head?_append, customBody_source]
          rcases Cover.turn_inside c cs.head? inComment with hturn | ⟨skip, hturn⟩
          · cases inComment with
            | true =>
                obtain ⟨cover, brackets', hsurvey, hend⟩ :=
                  ih cs.length (by simp [← hn]) cs true brackets rfl
                rw [customBody_comment hturn]
                refine ⟨cover, brackets', ?_, hend⟩
                rw [survey_hidden (Or.inl (by decide)), hhead, hturn]
                exact hsurvey
            | false =>
                cases hnest : nest brackets c with
                | some brackets'' =>
                    obtain ⟨cover, brackets', hsurvey, hend⟩ :=
                      ih cs.length (by simp [← hn]) cs false brackets'' rfl
                    rw [customBody_bare hturn hnest]
                    refine ⟨cover, brackets', ?_, hend⟩
                    rw [show Cover.inside false = .bare from rfl,
                      survey_bare (by rw [hhead]; exact hturn), hnest]
                    exact hsurvey
                | none =>
                    rw [nest] at hnest
                    split_ifs at hnest with hstop
                    obtain ⟨rfl, rfl | rfl⟩ := hstop
                    · exact ⟨.bare, [], rfl, Or.inr ⟨rfl, rfl, Or.inl rfl⟩⟩
                    · exact ⟨.bare, [], rfl, Or.inr ⟨rfl, rfl, Or.inr ⟨rfl, rfl⟩⟩⟩
          · cases cs with
            | nil =>
                -- Nothing stands behind the backslash.
                obtain ⟨rfl, -⟩ | ⟨-, -, hnone, -⟩ | ⟨-, -, hnone, -⟩ := Cover.turn_eq_skipped hturn
                · have hlast : customBody inComment brackets ['\\'] = (['\\'], false, []) := by
                    cases inComment <;> simp [customBody]
                  rw [hlast]
                  cases inComment <;> exact ⟨_, _, rfl, Or.inl rfl⟩
                · cases hnone
                · cases hnone
            | cons d cs =>
                obtain ⟨cover, brackets', hsurvey, hend⟩ :=
                  ih cs.length (by simp only [← hn, List.length_cons]; omega) cs skip brackets rfl
                rw [customBody_skipped hturn]
                refine ⟨cover, brackets', ?_, hend⟩
                have hskip : (Cover.inside inComment).turn c (some d) ≠ .bare := by
                  rw [show (Cover.inside inComment).turn c (some d) = _ from hturn]
                  exact Cover.noConfusion
                rw [survey_hidden (Or.inr hskip)]
                exact (congrArg (fun cover => survey nest cover _ _ _) hturn).trans hsurvey

/-! ## The colon of a custom property -/

/-- Gives up at a colon. -/
def passColon (_ : Unit) (c : Char) : Option Unit :=
  if c = ':' then none else some ()

/-- No colon is found exactly if all of them are hidden or in comments. -/
lemma splitAtColon?_eq_none_iff (inComment : Bool) (cs : List Char) :
    splitAtColon? inComment cs = none ↔
      (survey passColon (.inside inComment) () cs none).isSome := by
  fun_induction splitAtColon? inComment cs with
  | case1 => exact ⟨fun _ => rfl, fun _ => rfl⟩
  | case2 inComment c rest ih =>
      rw [Option.map_eq_none_iff, ih]
      cases inComment <;> rfl
  | case3 rest ih =>
      rw [Option.map_eq_none_iff, ih]
      rfl
  | case4 rest ih =>
      rw [Option.map_eq_none_iff, ih]
      rfl
  | case5 inComment c rest hesc hopen hclose hcolon =>
      obtain ⟨rfl, rfl⟩ : inComment = false ∧ c = ':' := by simpa using hcolon
      constructor
      · intro h
        cases h
      · intro h
        cases h
  | case6 inComment c rest hesc hopen hclose hcolon ih =>
      rw [Option.map_eq_none_iff, ih]
      rcases Cover.turn_inside c (rest.head?.or none) inComment with hturn | ⟨skip, hturn⟩
      · cases inComment with
        | true => rw [survey_hidden (Or.inl (by decide)), hturn]
        | false =>
            have hpass : passColon () c = some () := if_neg (by simpa using hcolon)
            rw [show Cover.inside false = .bare from rfl, survey_bare hturn, hpass, Option.bind_some]
      · -- Nothing stands behind the backslash.
        rw [Option.or_none] at hturn
        obtain ⟨rfl, -⟩ | ⟨hout, hslash, hstar, -⟩ | ⟨hin, hstar, hslash, -⟩ :=
          Cover.turn_eq_skipped hturn
        · cases rest with
          | nil => cases inComment <;> exact Iff.rfl
          | cons d rest => exact absurd rfl (hesc d rest rfl)
        · exact absurd (List.eq_cons_of_mem_head? hstar) (hopen _ hout hslash)
        · exact absurd (List.eq_cons_of_mem_head? hslash) (hclose _ hin hstar)

/-- A colon that was found is found in front of anything. -/
lemma splitAtColon?_append {inComment : Bool} {cs before after : List Char}
    (h : splitAtColon? inComment cs = some (before, after)) (other : List Char) :
    splitAtColon? inComment (before ++ ':' :: other) = some (before, other) := by
  fun_induction splitAtColon? inComment cs generalizing before with
  | case1 => cases h
  | case2 inComment c rest ih =>
      obtain ⟨⟨front, back⟩, hsplit, hparts⟩ := Option.map_eq_some_iff.1 h
      obtain ⟨rfl, rfl⟩ := Prod.mk.inj hparts
      rw [List.cons_append, List.cons_append, splitAtColon?, ih hsplit]
      rfl
  | case3 rest ih =>
      obtain ⟨⟨front, back⟩, hsplit, hparts⟩ := Option.map_eq_some_iff.1 h
      obtain ⟨rfl, rfl⟩ := Prod.mk.inj hparts
      rw [List.cons_append, List.cons_append, splitAtColon?, ih hsplit]
      rfl
  | case4 rest ih =>
      obtain ⟨⟨front, back⟩, hsplit, hparts⟩ := Option.map_eq_some_iff.1 h
      obtain ⟨rfl, rfl⟩ := Prod.mk.inj hparts
      rw [List.cons_append, List.cons_append, splitAtColon?, ih hsplit]
      rfl
  | case5 inComment c rest hesc hopen hclose hcolon =>
      obtain ⟨rfl, rfl⟩ := Prod.mk.inj (Option.some.inj h)
      obtain ⟨rfl, rfl⟩ : inComment = false ∧ c = ':' := by simpa using hcolon
      rfl
  | case6 inComment c rest hesc hopen hclose hcolon ih =>
      obtain ⟨⟨front, back⟩, hsplit, hparts⟩ := Option.map_eq_some_iff.1 h
      obtain ⟨rfl, rfl⟩ := Prod.mk.inj hparts
      have hhead : (front ++ ':' :: other).head? = rest.head? := by
        rw [← splitAtColon?_eq_some hsplit]
        cases front <;> rfl
      rw [List.cons_append, splitAtColon?.eq_5, if_neg hcolon, ih hsplit]
      · rfl
      · exact fun _ _ hc hrest => hesc _ _ hc (eq_cons_of_head?_eq hhead hrest)
      · exact fun _ hout hc hrest => hopen _ hout hc (eq_cons_of_head?_eq hhead hrest)
      · exact fun _ hin hc hrest => hclose _ hin hc (eq_cons_of_head?_eq hhead hrest)

/-! ## Optional blanks -/

/-- Blanks and the mark of importance change nothing in these states. -/
structure Steady {σ : Type} (see : σ → Char → Option σ) (good : σ → Prop) : Prop where
  step : ∀ {s c s'}, good s → see s c = some s' → good s'
  blank : ∀ {s}, good s → see s ' ' = some s
  bang : ∀ {s}, good s → see s '!' = some s

lemma steady_passColon : Steady passColon fun _ => True :=
  ⟨fun _ _ => trivial, fun _ => rfl, fun _ => rfl⟩

/-- The brackets awaited are closing ones. -/
lemma steady_nest : Steady nest fun brackets => ∀ x ∈ brackets, x ∈ [')', ']', '}'] where
  step := by
    intro brackets c brackets' h hnest
    rw [nest] at hnest
    split_ifs at hnest
    obtain rfl := Option.some.inj hnest
    exact fun x hx => (mem_of_mem_bracketsAfter hx).elim (h x) id
  blank := by
    intro brackets h
    rw [nest, if_neg (by simp),
      bracketsAfter_of_not_mem (by decide) fun hmem => absurd (h _ hmem) (by decide)]
  bang := by
    intro brackets h
    rw [nest, if_neg (by simp),
      bracketsAfter_of_not_mem (by decide) fun hmem => absurd (h _ hmem) (by decide)]

/-- The character does not end a mark that opens or closes a comment. -/
def Blunt (next : Option Char) : Prop :=
  next ≠ some '*' ∧ next ≠ some '/'

/-- Of what follows only the two characters that open and close comments are looked at. -/
lemma Blunt.turn {a b : Option Char} (ha : Blunt a) (hb : Blunt b) (c : Char) (cover : Cover) :
    cover.turn c a = cover.turn c b := by
  cases cover <;> simp [Cover.turn, ha.1, ha.2, hb.1, hb.2]

section
variable {σ : Type} {see : σ → Char → Option σ} {good : σ → Prop} {cover cover' : Cover} {s s' : σ}
  {cs : List Char} {next : Option Char}

/-- What every step keeps, a survey keeps. -/
lemma good_of_survey (h : Steady see good) (hs : good s)
    (hsurvey : survey see cover s cs next = some (cover', s')) : good s' := by
  induction cs generalizing cover s with
  | nil =>
      obtain ⟨-, rfl⟩ := Prod.mk.inj (Option.some.inj hsurvey)
      exact hs
  | cons c cs ih =>
      obtain ⟨s₁, hsee, hrest⟩ := Option.bind_eq_some_iff.1 hsurvey
      refine ih ?_ hrest
      split_ifs at hsee
      · exact h.step hs hsee
      · obtain rfl := Option.some.inj hsee
        exact hs

/-- Two followers that open or close no comment are the same to it. -/
lemma survey_next_congr {a b : Option Char} (ha : Blunt a) (hb : Blunt b) :
    survey see cover s cs a = survey see cover s cs b := by
  induction cs generalizing cover s with
  | nil => rfl
  | cons c cs ih =>
      cases cs with
      | nil =>
          rw [survey, survey, List.head?_nil, Option.none_or, Option.none_or, ha.turn hb]
          rfl
      | cons d cs =>
          rw [survey, survey]
          exact Option.bind_congr fun s' _ => ih

/-- What a colon does to the state does not depend on what follows. -/
lemma survey_colon (see : σ → Char → Option σ) (cover : Cover) (s : σ) :
    ∃ inComment s?, ∀ cs next, survey see cover s (':' :: cs) next
      = (s? : Option σ).bind fun s' => survey see (.inside inComment) s' cs next := by
  cases cover with
  | bare => exact ⟨false, see s ':', fun _ _ => rfl⟩
  | comment => exact ⟨true, some s, fun _ _ => rfl⟩
  | skipped inComment => exact ⟨inComment, some s, fun _ _ => rfl⟩

/-- A blank in front of anything may be left out where it is not hidden. -/
lemma survey_space (h : Steady see good) (hs : good s) (inComment : Bool) :
    survey see (.inside inComment) s (' ' :: cs) next = survey see (.inside inComment) s cs next := by
  cases inComment with
  | true => rfl
  | false =>
      rw [show Cover.inside false = .bare from rfl, survey_bare (by simp [Cover.turn]), h.blank hs]
      rfl

/-- In front of the mark of importance it may be left out even if it is hidden. -/
lemma survey_space_importantMark (h : Steady see good) (hs : good s) :
    survey see cover s (' ' :: importantMark) next = survey see cover s importantMark next := by
  have hmark : importantMark = '!' :: "important".toList := by decide
  cases cover with
  | bare => exact survey_space h hs false
  | comment => exact survey_space h hs true
  | skipped inComment =>
      rw [hmark, survey_skipped, survey_skipped]
      cases inComment with
      | true => rfl
      | false =>
          rw [show Cover.inside false = .bare from rfl, survey_bare (by simp [Cover.turn]), h.bang hs]
          rfl

/-- The optional blanks of a printed declaration may be left out. -/
lemma survey_printed (h : Steady see good) (hs : good s) {property value : List Char}
    {important : Bool} {a b : Option Char} (ha : Blunt a) (hb : Blunt b)
    (hsurvey : survey see cover s
      (property ++ ':' :: ' ' :: (value ++ markText important [' '])) a = some (cover', s')) :
    survey see cover s (property ++ ':' :: (value ++ markText important [])) b
      = some (cover', s') := by
  obtain ⟨cover₁, s₁, hproperty, hsurvey⟩ := survey_append_eq_some hsurvey
  have hproperty' : survey see cover s property
      ((':' :: (value ++ markText important [])).head?.or b) = some (cover₁, s₁) := hproperty
  have hs₁ := good_of_survey h hs hproperty
  obtain ⟨inComment, s?, hcolon⟩ := survey_colon see cover₁ s₁
  rw [hcolon] at hsurvey
  obtain ⟨s₂, hs₂, hsurvey⟩ := Option.bind_eq_some_iff.1 hsurvey
  have hone : survey see cover₁ s₁ [':'] none = some (.inside inComment, s₂) := by
    rw [hcolon, hs₂]
    rfl
  have hgood := good_of_survey h hs₁ hone
  rw [survey_space h hgood] at hsurvey
  obtain ⟨cover₃, s₃, hvalue, hsurvey⟩ := survey_append_eq_some hsurvey
  have hs₃ := good_of_survey h hgood hvalue
  have hspace : Blunt (some ' ') := by constructor <;> decide
  have hbang : Blunt (some '!') := by constructor <;> decide
  rw [survey_append_of_eq_some hproperty', hcolon, hs₂, Option.bind_some]
  cases important with
  | false =>
      have hvalue' : survey see (.inside inComment) s₂ value ((markText false []).head?.or b)
          = some (cover₃, s₃) := (survey_next_congr hb ha).trans hvalue
      rw [survey_append_of_eq_some hvalue']
      exact hsurvey
  | true =>
      have hvalue' : survey see (.inside inComment) s₂ value ((markText true []).head?.or b)
          = some (cover₃, s₃) := (survey_next_congr hbang hspace).trans hvalue
      rw [survey_append_of_eq_some hvalue']
      exact ((survey_space_importantMark h hs₃).trans (survey_next_congr ha hb)).symm.trans hsurvey

end

/-! ## The parts of a printed custom property -/

/-- A property in front of a colon and a printed property in front of its colon are the same. -/
lemma eq_of_trim_of_colon {property before after rest : List Char}
    (hhead : property.head? = some '-') (htrim : Text.trim before = property)
    (hsplit : before ++ ':' :: after = property ++ ':' :: rest) : before = property ∧ after = rest := by
  obtain ⟨front, back, hbefore, hfront, hback⟩ := Text.exists_trim before
  rw [htrim] at hbefore
  cases front with
  | cons c front =>
      exfalso
      have hfirst := congrArg List.head? hsplit
      have hright : (property ++ ':' :: rest).head? = some '-' := by rw [List.head?_append, hhead]; rfl
      rw [hbefore, hright] at hfirst
      obtain rfl : c = '-' := Option.some.inj hfirst
      exact absurd (hfront '-' List.mem_cons_self) (by decide)
  | nil =>
      rw [hbefore, List.nil_append, List.append_assoc, List.append_cancel_left_eq] at hsplit
      cases back with
      | nil => exact ⟨by rw [hbefore, List.nil_append, List.append_nil], (List.cons.inj hsplit).2⟩
      | cons c back =>
          obtain ⟨rfl, -⟩ := List.cons.inj hsplit
          exact absurd (hback ':' List.mem_cons_self) (by decide)

lemma property_of_ofParts {text before after : List Char} {property value : String}
    {important : Bool} (h : Token.ofParts text (some (before, after))
      = .declares property value important) : Text.trim before = property.toList := by
  rw [Token.ofParts] at h
  split at h <;> rw [← (Token.declares.inj h).1, String.toList_ofList]

/-- If no colon is found in a printed property, none is found without its optional blanks. -/
lemma splitAtColon?_printed_eq_none {property value more more' : List Char} {important : Bool}
    (hmore : Blunt more.head?) (hmore' : more' = [] ∨ important = true ∧ more' = [';'])
    (h : splitAtColon? false (property ++ ':' :: ' ' :: (value ++ markText important [' ']) ++ more)
      = none) :
    splitAtColon? false (property ++ ':' :: (value ++ markText important []) ++ more') = none := by
  rw [splitAtColon?_eq_none_iff] at h ⊢
  obtain ⟨t, ht⟩ := Option.isSome_iff_exists.1 h
  obtain ⟨cover, _, hsurvey, -⟩ := survey_append_eq_some ht
  rw [Option.or_none] at hsurvey
  have hblunt : Blunt (more'.head?.or none) := by
    rcases hmore' with rfl | ⟨-, rfl⟩ <;> constructor <;> decide
  rw [survey_append_of_eq_some (survey_printed steady_passColon trivial hmore hblunt hsurvey)]
  rcases hmore' with rfl | ⟨-, rfl⟩
  · rfl
  · cases cover <;> rfl

/-- Without its optional blanks a printed property is split at the same colon. -/
lemma split_printed {property value : String} {important : Bool} {more more' : List Char}
    (hhead : property.toList.head? = some '-') (hmore : Blunt more.head?)
    (hmore' : more' = [] ∨ important = true ∧ more' = [';'])
    (h : Token.ofCustom (property.toList ++
      ':' :: ' ' :: (value.toList ++ markText important [' ']) ++ more)
        = .declares property value important) :
    (splitAtColon? false (property.toList ++
        ':' :: (value.toList ++ markText important []) ++ more')).or
      (splitAtChar? ':' (property.toList ++ ':' :: (value.toList ++ markText important []) ++ more'))
        = some (property.toList, value.toList ++ markText important [] ++ more') := by
  have htext : ∀ a b : List Char, property.toList ++ ':' :: a ++ b
      = property.toList ++ ':' :: (a ++ b) := fun a b => List.append_assoc _ _ _
  rw [Token.ofCustom] at h
  cases hfound : splitAtColon? false (property.toList ++
      ':' :: ' ' :: (value.toList ++ markText important [' ']) ++ more) with
  | some parts =>
      obtain ⟨before, after⟩ := parts
      rw [hfound, Option.some_or] at h
      obtain ⟨rfl, -⟩ := eq_of_trim_of_colon hhead (property_of_ofParts h)
        ((splitAtColon?_eq_some hfound).trans (htext _ _))
      rw [htext, splitAtColon?_append hfound, Option.some_or]
  | none =>
      rw [hfound, Option.none_or] at h
      rw [splitAtColon?_printed_eq_none hmore hmore' hfound, Option.none_or]
      cases hchar : splitAtChar? ':' (property.toList ++
          ':' :: ' ' :: (value.toList ++ markText important [' ']) ++ more) with
      | none => exact absurd (by simp) (splitAtChar?_eq_none hchar)
      | some parts =>
          obtain ⟨before, after⟩ := parts
          rw [hchar] at h
          obtain ⟨hsource, hcolon⟩ := splitAtChar?_eq_some hchar
          obtain ⟨rfl, -⟩ := eq_of_trim_of_colon hhead (property_of_ofParts h)
            (hsource.trans (htext _ _))
          rw [htext, splitAtChar?_append hcolon]

/-- The text of a custom property declares the same without its optional blanks. -/
lemma ofCustom_printed {property value : String} {important : Bool} {more more' : List Char}
    (hhead : property.toList.head? = some '-') (hmore : Blunt more.head?)
    (hmore' : more' = [] ∨ important = true ∧ more' = [';'])
    (h : Token.ofCustom (property.toList ++
      ':' :: ' ' :: (value.toList ++ markText important [' ']) ++ more)
        = .declares property value important) :
    Token.ofCustom (property.toList ++ ':' :: (value.toList ++ markText important []) ++ more')
      = .declares property value important := by
  have hparsed := Parsed.of_ofCustom h
  obtain ⟨hproperty, hvalue⟩ := hparsed.trimmed
  have hmark := hparsed.not_mark
  rw [Token.ofCustom, split_printed hhead hmore hmore' h, Token.ofParts]
  cases important with
  | false =>
      obtain rfl : more' = [] := by simpa using hmore'
      have hnone := Text.splitFirst?_eq_none_iff.2 hmark
      simp only [markText, Bool.false_eq_true, if_false, List.append_nil, hnone, hproperty, hvalue,
        String.ofList_toList]
  | true =>
      have hsome := Text.splitFirst?_append (by decide : '!' ∉ "important".toList) hmark more'
      have hfind : Text.splitFirst? importantMark (value.toList ++ markText true [] ++ more')
          = some (value.toList, more') := by
        rw [List.append_assoc]
        exact hsome
      simp only [hfind, hproperty, hvalue, String.ofList_toList]

/-! ## Custom properties on lines of their own -/

/-- The node is the one that the parts say, but for its span. -/
lemma clearSpans_declarationOf {text : List Char} {parts : Option (List Char × List Char)}
    {property value : String} {important : Bool}
    (h : Token.ofParts text parts = .declares property value important) (span : Span) :
    (declarationOf text parts span).clearSpans = .declaration property value important none := by
  cases parts with
  | none =>
      obtain ⟨rfl, rfl, rfl⟩ := Token.declares.inj h
      rfl
  | some parts =>
      obtain ⟨before, after⟩ := parts
      cases hmark : Text.splitFirst? importantMark after with
      | none =>
          simp only [Token.ofParts, hmark] at h
          obtain ⟨rfl, rfl, rfl⟩ := Token.declares.inj h
          simp only [declarationOf, hmark, Node.clearSpans]
      | some found =>
          simp only [Token.ofParts, hmark] at h
          obtain ⟨rfl, rfl, rfl⟩ := Token.declares.inj h
          simp only [declarationOf, hmark, Node.clearSpans]

/-- A custom property is one piece, and leads to its declaration. -/
lemma leads_custom {o : Outline} (ho : o.current = []) {cs text rest : List Char} {ended : Bool}
    {property value : String} {important : Bool}
    (hbody : customBody false [] cs = (text, ended, rest))
    (h : Token.ofCustom ('-' :: '-' :: text) = .declares property value important) :
    Leads o ('-' :: '-' :: cs) (o.attach (.declaration property value important none)) rest := by
  have hnext := Piece.next_custom cs
  rw [hbody] at hnext
  refine Leads.of_push (p := .custom ('-' :: '-' :: text) ended) (by rw [ho]; exact hnext)
    fun r hr => ⟨_, rfl, ?_⟩
  rw [Reading.outline_advance, Reading.outline_attach, customDeclaration, hr,
    clearSpans_declarationOf h]

/-- Two hyphens are no brackets. -/
lemma survey_hyphens (cs : List Char) (next : Option Char) :
    survey nest .bare [] ('-' :: '-' :: cs) next = survey nest .bare [] cs next :=
  rfl

/-- Where no semicolon ends the property, nothing without weight changes the state. -/
lemma survey_of_weight_eq_zero {inComment : Bool} {brackets : List Char}
    (hbrackets : ∀ x ∈ brackets, x ∈ [')', ']', '}'])
    (hopen : inComment = true ∨ brackets ≠ []) (cs : List Char) (hcs : Text.weight cs = 0)
    (next : Option Char) : survey nest (.inside inComment) brackets cs next
      = some (.inside inComment, brackets) := by
  induction cs with
  | nil => rfl
  | cons c cs ih =>
      rw [Text.weight_cons] at hcs
      have hc : Text.weighs c = false := by
        by_contra hweighs
        rw [Bool.not_eq_false] at hweighs
        rw [if_pos hweighs] at hcs
        omega
      have hne : ∀ d, Text.weighs d = true → c ≠ d := by
        rintro d hd rfl
        rw [hc] at hd
        cases hd
      have hesc := hne '\\' (by decide)
      have hslash := hne '/' (by decide)
      have hstar := hne '*' (by decide)
      have hrest := ih (by omega)
      cases inComment with
      | true =>
          have hturn : ∀ next, Cover.comment.turn c next = .comment := by
            simp [Cover.turn, hesc, hstar]
          rw [show Cover.inside true = .comment from rfl] at hrest ⊢
          rw [survey_hidden (Or.inl (by decide)), hturn, hrest]
      | false =>
          have hturn : ∀ next, Cover.bare.turn c next = .bare := by
            simp [Cover.turn, hesc, hslash]
          have hclose : c ∉ brackets := by
            intro hmem
            have := hbrackets c hmem
            simp only [List.mem_cons, List.not_mem_nil, or_false] at this
            rcases this with rfl | rfl | rfl <;> revert hc <;> decide
          have hstart : c ∉ ['(', '[', '{'] := by
            simp only [List.mem_cons, List.not_mem_nil, or_false]
            rintro (rfl | rfl | rfl) <;> revert hc <;> decide
          have hnest : nest brackets c = some brackets := by
            rw [nest, if_neg fun hstop => hopen.elim Bool.false_ne_true fun hne => hne hstop.1,
              bracketsAfter_of_not_mem hstart hclose]
          rw [show Cover.inside false = .bare from rfl] at hrest ⊢
          rw [survey_bare (hturn _), hnest, Option.bind_some, hrest]

/-- Behind the mark nothing is skipped. -/
lemma exists_inside_of_survey {σ : Type} {see : σ → Char → Option σ} {cover cover' : Cover}
    {s s' : σ} {cs : List Char} {next : Option Char}
    (h : survey see cover s (cs ++ markText true [' ']) next = some (cover', s')) :
    ∃ inComment, cover' = .inside inComment := by
  have hmark : cs ++ markText true [' '] = (cs ++ " !importan".toList) ++ ['t'] := by
    rw [List.append_assoc]
    rfl
  rw [hmark] at h
  obtain ⟨cover₁, s₁, -, h⟩ := survey_append_eq_some h
  obtain ⟨s₂, -, hlast⟩ := Option.bind_eq_some_iff.1 h
  obtain ⟨rfl, -⟩ := Prod.mk.inj (Option.some.inj hlast)
  cases cover₁ with
  | bare => exact ⟨false, by simp [Cover.turn, Cover.inside]⟩
  | comment => exact ⟨true, by simp [Cover.turn, Cover.inside]⟩
  | skipped inComment => exact ⟨inComment, rfl⟩

/-- How far the text of a custom property on a line of its own was read: to its semicolon, or, if it is
important and an open bracket or comment hides the semicolon, to the end of everything. -/
inductive LineRead (property value : List Char) (important : Bool) (rest : List Char) :
    (text : List Char) → (ended : Bool) → (rest' : List Char) → Prop
  | whole (hsurvey : survey nest .bare []
        (property ++ ':' :: ' ' :: (value ++ markText important [' '])) (some ';')
          = some (.bare, [])) :
      LineRead property value important rest
        (property ++ ':' :: ' ' :: (value ++ markText important [' '])) true ('\n' :: rest)
  | swallowed {inComment : Bool} {brackets more : List Char} (himportant : important = true)
      (hsurvey : survey nest .bare []
        (property ++ ':' :: ' ' :: (value ++ markText important [' '])) (some ';')
          = some (.inside inComment, brackets)) (hopen : inComment = true ∨ brackets ≠ []) :
      LineRead property value important rest
        (property ++ ':' :: ' ' :: (value ++ markText important [' ']) ++ ';' :: more) false []

/-- A text that goes on behind the printed property without weight has swallowed its semicolon. -/
lemma open_of_swallowed {property value more : List Char} {cover : Cover}
    {brackets : List Char} {next : Option Char} (hmore : Text.weight more = 0)
    (h : survey nest .bare [] (property ++ ':' :: ' ' :: (value ++ markText true [' ']) ++ ';' :: more)
      next = some (cover, brackets)) :
    ∃ inComment, cover = .inside inComment ∧ (inComment = true ∨ brackets ≠ []) ∧
      survey nest .bare [] (property ++ ':' :: ' ' :: (value ++ markText true [' '])) (some ';')
        = some (cover, brackets) := by
  obtain ⟨cover₁, brackets₁, hfront, hback⟩ := survey_append_eq_some h
  have hmark : property ++ ':' :: ' ' :: (value ++ markText true [' '])
      = (property ++ ':' :: ' ' :: value) ++ markText true [' '] := by simp
  obtain ⟨inComment, rfl⟩ := exists_inside_of_survey (hmark ▸ hfront)
  have hbrackets := good_of_survey steady_nest (by simp) hfront
  have hopen : inComment = true ∨ brackets₁ ≠ [] := by
    by_contra hclosed
    obtain ⟨hout, rfl⟩ : inComment = false ∧ brackets₁ = [] := by simpa using hclosed
    rw [hout] at hback
    cases hback
  have hweight : Text.weight (';' :: more) = 0 := by
    rw [Text.weight_cons, hmore]
    rfl
  rw [survey_of_weight_eq_zero hbrackets hopen _ hweight, Option.some.injEq, Prod.mk.injEq] at hback
  obtain ⟨rfl, rfl⟩ := hback
  exact ⟨inComment, rfl, hopen, hfront⟩

/-- What stands behind the text of a property is its semicolon or a brace, and nothing is open there. -/
lemma closed_of_tail {cover : Cover} {brackets rest more : List Char} {ended : Bool} {c : Char}
    (hend : (ended, rest) = (false, []) ∨ cover = .bare ∧ brackets = [] ∧
      (ended = true ∨ ended = false ∧ rest.head? = some '}'))
    (htail : (if ended then [';'] else []) ++ rest = c :: more) :
    cover = .bare ∧ brackets = [] ∧ (c = ';' ∧ ended = true ∧ rest = more ∨ c = '}') := by
  rcases hend with hnone | ⟨hcover, hbrackets, rfl | ⟨rfl, hbrace⟩⟩
  · obtain ⟨rfl, rfl⟩ := Prod.mk.inj hnone
    cases htail
  · obtain ⟨rfl, rfl⟩ := List.cons.inj htail
    exact ⟨hcover, hbrackets, Or.inl ⟨rfl, rfl, rfl⟩⟩
  · rw [if_neg Bool.false_ne_true, List.nil_append] at htail
    rw [htail] at hbrace
    exact ⟨hcover, hbrackets, Or.inr (Option.some.inj hbrace)⟩

/-- Only of an important declaration more can have been read than is printed. -/
lemma Parsed.important_of_longer {property value more : List Char} {important : Bool}
    (h : Parsed (property ++ ':' :: ' ' :: (value ++ markText important [' ']) ++ ';' :: more)
      property value important) : important = true := by
  cases important with
  | true => rfl
  | false =>
      have hle := h.ink_le
      have hcolon : Text.isBlank ':' = false := by decide
      have hsemi : Text.isBlank ';' = false := by decide
      have hspace : Text.isBlank ' ' = true := by decide
      simp only [Text.ink_append, Text.ink_cons, hcolon, hsemi, hspace, ink_markText, if_true,
        Bool.false_eq_true, if_false] at hle
      omega

/-- What was read behind a printed important declaration has no weight. -/
lemma weight_eq_zero_of_swallowed (property value : List Char) {more : List Char}
    (h : Text.weight (property ++ ':' :: ' ' :: (value ++ markText true [' ']) ++ ';' :: more)
      ≤ Text.weight property + Text.weight value + 10) : Text.weight more = 0 := by
  have hcolon : Text.weighs ':' = false := by decide
  have hspace : Text.weighs ' ' = false := by decide
  have hsemi : Text.weighs ';' = false := by decide
  have hmark : Text.weight (markText true [' ']) = 10 := by decide
  simp only [Text.weight_append, Text.weight_cons, hcolon, hspace, hsemi, hmark,
    Bool.false_eq_true, if_false] at h
  omega

/-- A printed line that owes a declaration is read as it. -/
lemma lineRead_of_owes {property value : String} {important : Bool} {cs rest : List Char}
    {tokens : List Token}
    (hline : property.toList ++ ':' :: ' ' :: (value.toList ++ markText important [' '])
      ++ ';' :: '\n' :: rest = '-' :: '-' :: cs)
    (h : Owes [] ('-' :: '-' :: cs) (.declares property value important :: tokens)) :
    Token.ofCustom ('-' :: '-' :: (customBody false [] cs).1)
        = .declares property value important ∧
      LineRead property.toList value.toList important rest
        ('-' :: '-' :: (customBody false [] cs).1) (customBody false [] cs).2.1
        (customBody false [] cs).2.2 ∧
      Owes [] (customBody false [] cs).2.2 tokens := by
  obtain ⟨-, -, -, hthrift, later, htokens, howes⟩ := h.inv (Piece.next_custom cs)
  obtain ⟨htoken, rfl⟩ := List.cons.inj htokens
  refine ⟨htoken.symm, ?_, howes⟩
  have hparsed := Parsed.of_ofCustom htoken.symm
  simp only [Piece.source, Piece.told, Piece.kept, ← htoken, Token.weightAll_cons,
    Token.weightAll_nil, Token.weight, Text.weight_append, Text.weight_nil] at hthrift
  have hsource := customBody_source false [] cs
  obtain ⟨cover, brackets, hsurvey, hend⟩ := survey_customBody cs false []
  generalize customBody false [] cs = body at *
  obtain ⟨text, ended, rest'⟩ := body
  dsimp only at *
  replace hsurvey : survey nest .bare [] ('-' :: '-' :: text)
      ((if ended then [';'] else []) ++ rest').head? = some (cover, brackets) := hsurvey
  have htext : ('-' :: '-' :: text) ++ ((if ended then [';'] else []) ++ rest')
      = property.toList ++ ':' :: ' ' :: (value.toList ++ markText important [' '])
        ++ ';' :: '\n' :: rest := by
    rw [hline, List.cons_append, List.cons_append, hsource]
  -- The text read ends where the line does, or in front of that, or behind it.
  obtain ⟨hsame, htail⟩ | ⟨c, more, hmore, htail⟩ | ⟨more, hmore⟩ := append_eq_append_cons htext
  · obtain ⟨rfl, rfl, ⟨-, rfl, rfl⟩ | habsurd⟩ := closed_of_tail hend htail
    · rw [hsame] at hsurvey ⊢
      exact .whole hsurvey
    · exact absurd habsurd (by decide)
  · obtain ⟨-, -, hc⟩ := closed_of_tail hend htail
    exact absurd hparsed (Parsed.not_of_cut hmore (hc.imp And.left id) (Nat.le_refl _) rfl)
  · rw [hmore] at hparsed hthrift hsurvey ⊢
    obtain rfl := hparsed.important_of_longer
    rw [if_pos (rfl : true = true)] at hthrift
    have hweight : Text.weight more = 0 :=
      weight_eq_zero_of_swallowed property.toList value.toList (by omega)
    obtain ⟨inComment, rfl, hopen, hfront⟩ := open_of_swallowed hweight hsurvey
    rcases hend with hnone | ⟨hcover, rfl, -⟩
    · obtain ⟨rfl, rfl⟩ := Prod.mk.inj hnone
      exact .swallowed rfl hfront hopen
    · obtain rfl : inComment = false := Cover.inside_injective hcover
      simp at hopen

lemma minified_declaration (property value : String) (important : Bool) (span : Option Span)
    (closing : Bool) (rest : List Char) :
    (Node.declaration property value important span).minified closing rest =
      (property.toList ++ ':' :: (value.toList ++ markText important []))
        ++ Node.semicolonUnless closing rest := by
  rw [List.append_assoc, List.cons_append, List.append_assoc]
  rfl

section
variable {property value : String} {important : Bool} {text : List Char}
  (hwrite : property.toList ++ ':' :: (value.toList ++ markText important []) = '-' :: '-' :: text)
include hwrite

/-- A custom property is written with its whole text. -/
lemma minified_custom (span : Option Span) (closing : Bool) (rest : List Char) :
    (Node.declaration property value important span).minified closing rest
      = '-' :: '-' :: (text ++ Node.semicolonUnless closing rest) := by
  rw [minified_declaration, hwrite]
  rfl

/-- The property ends at a semicolon as well as at the brace of its block. -/
lemma readBack_of_survey
    (hdeclares : Token.ofCustom ('-' :: '-' :: text) = .declares property value important)
    (hsurvey : ∀ stop, Blunt (some stop) →
      survey nest (.inside false) [] text (some stop) = some (.inside false, []))
    (span : Option Span) : ReadBack (.declaration property value important span) := by
  constructor
  · intro o rest ho
    have hbody := customBody_of_survey text (';' :: rest)
      (hsurvey ';' (by constructor <;> decide))
    have hend : customBody false [] (';' :: rest) = ([], true, rest) := rfl
    rw [hend, List.append_nil] at hbody
    rw [minified_custom hwrite]
    exact leads_custom ho hbody hdeclares
  · intro o rest ho hopen
    have hbody := customBody_of_survey text ('}' :: rest)
      (hsurvey '}' (by constructor <;> decide))
    have hend : customBody false [] ('}' :: rest) = ([], false, '}' :: rest) := rfl
    rw [hend, List.append_nil] at hbody
    rw [minified_custom hwrite]
    exact (leads_custom ho hbody hdeclares).trans
      (leads_closing (by simpa using ho) (Outline.attach_opened_ne_nil hopen _) rest)

/-- The property goes on to the end of everything. -/
lemma leads_of_survey {inComment : Bool} {brackets : List Char}
    (hdeclares : Token.ofCustom ('-' :: '-' :: (text ++ [';'])) = .declares property value important)
    (hsurvey : survey nest (.inside false) [] (text ++ [';']) none
      = some (.inside inComment, brackets)) (span : Option Span) {o : Outline} (ho : o.current = []) :
    Leads o ((Node.declaration property value important span).minified false [])
      (o.attach (.declaration property value important none)) [] := by
  have hbody := customBody_of_survey (text ++ [';']) [] hsurvey
  have hend : customBody inComment brackets [] = ([], false, []) := by cases inComment <;> rfl
  rw [hend] at hbody
  simp only [List.append_nil] at hbody
  rw [minified_custom hwrite]
  exact leads_custom ho hbody hdeclares

end

/-- The custom property on the line is read back in both places it can be printed without its optional
blanks, and reading goes on in the next line; or it is the last of everything, and read back there. -/
lemma readBack_custom {property value : String} {important : Bool} {rest : List Char}
    {tokens : List Token} (hcustom : ['-', '-'] <+: property.toList)
    (h : Owes [] (property.toList ++ ':' :: ' ' :: (value.toList ++ markText important [' '])
      ++ ';' :: '\n' :: rest) (.declares property value important :: tokens)) (span : Option Span) :
    ReadBack (.declaration property value important span) ∧ Owes [] rest tokens ∨
      tokens = [] ∧ ∀ o : Outline, o.current = [] →
        Leads o ((Node.declaration property value important span).minified false [])
          (o.attach (.declaration property value important none)) [] := by
  obtain ⟨back, hback⟩ := hcustom
  have hhead : property.toList.head? = some '-' := by
    rw [← hback]
    rfl
  let cs := back ++ ':' :: ' ' :: (value.toList ++ markText important [' ']) ++ ';' :: '\n' :: rest
  have hline : property.toList ++ ':' :: ' ' :: (value.toList ++ markText important [' '])
      ++ ';' :: '\n' :: rest = '-' :: '-' :: cs := by
    rw [← hback]
    rfl
  let text := back ++ ':' :: (value.toList ++ markText important [])
  have hwrite : property.toList ++ ':' :: (value.toList ++ markText important [])
      = '-' :: '-' :: text := by
    rw [← hback]
    rfl
  rw [hline] at h
  obtain ⟨htoken, hread, howes⟩ := lineRead_of_owes hline h
  have hsemi : Blunt (some ';') := by constructor <;> decide
  generalize '-' :: '-' :: (customBody false [] cs).1 = read at *
  generalize (customBody false [] cs).2.1 = ended at *
  generalize (customBody false [] cs).2.2 = rest' at *
  cases hread with
  | whole hsurvey =>
      have hdeclares := @ofCustom_printed _ _ _ [] [] hhead (by constructor <;> decide) (Or.inl rfl)
        (by rwa [List.append_nil])
      rw [List.append_nil, hwrite] at hdeclares
      refine Or.inl ⟨readBack_of_survey hwrite hdeclares (fun stop hstop => ?_) span,
        howes.of_newline⟩
      have hsame := survey_printed steady_nest (by simp) hsemi hstop hsurvey
      rwa [hwrite, survey_hyphens] at hsame
  | @swallowed inComment brackets more himportant hsurvey hopen =>
      have hdeclares := @ofCustom_printed _ _ _ (';' :: more) [';'] hhead hsemi
        (Or.inr ⟨himportant, rfl⟩) htoken
      rw [hwrite] at hdeclares
      have hnone : tokens = [] := by
        cases howes.tells
        rfl
      have hsame := survey_printed steady_nest (by simp) hsemi hsemi hsurvey
      rw [hwrite, survey_hyphens] at hsame
      have hend : survey nest (.inside false) [] (text ++ [';']) none
          = some (.inside inComment, brackets) := by
        have hbrackets := good_of_survey steady_nest (by simp) hsurvey
        have hlast := survey_of_weight_eq_zero hbrackets hopen [';'] (by decide) none
        rwa [survey_append_of_eq_some hsame]
      exact Or.inr ⟨hnone, fun o ho => leads_of_survey hwrite hdeclares hend span ho⟩

end UtilityCss