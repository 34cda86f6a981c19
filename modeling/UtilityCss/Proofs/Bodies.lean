import UtilityCss.Proofs.Comments
import UtilityCss.Proofs.Resolution
import UtilityCss.Proofs.Semicolons

/-!
# Bodies of settings

A body is read between the braces of a rule, and the children of the first rule are taken.  A body that
can be read by itself is taken whole.  Of one that closes the rule early, what stands behind its brace
is dropped: `readBody_whole_or_cut`.

* **Inside of a block** — `Reading.under` puts all that was read into the block of an outer rule.  A
  piece that can be read outside of it does the same in it (`push_under`).
* **In front of a brace** — what stands in front of a closing brace is read as it is at the end of the
  text, or takes the brace in: `BeforeBrace`.
* **The body** — `BodyUnder`: the rule is closed by the brace behind the body, or by one in it, or the
  text cannot be read.
-/

namespace UtilityCss

/-! ## Inside of a block -/

namespace Reading

/-- The reading inside of a block, which has what was finished as its children. -/
def under (rule : OpenRule) (r : Reading) : Reading :=
  { r with finished := [], opened := r.opened ++ [{ rule with nodes := r.finished }] }

variable (rule : OpenRule)

lemma under_opened_ne_nil (r : Reading) : (r.under rule).opened ≠ [] := by
  simp [under]

@[simp]
lemma under_current (r : Reading) : (r.under rule).current = r.current := rfl

@[simp]
lemma under_text (r : Reading) : (r.under rule).text = r.text := rfl

@[simp]
lemma under_readsAtRule (r : Reading) : (r.under rule).readsAtRule = r.readsAtRule := rfl

@[simp]
lemma under_clear (r : Reading) : (r.under rule).clear = r.clear.under rule := rfl

/-- What a rule around the text changes is where finished nodes end up, at every step the same. -/
@[simp]
lemma attach_under (r : Reading) (node : Node) :
    (r.under rule).attach node = (r.attach node).under rule := by
  rw [attach, attach, under]
  cases r.opened <;> rfl

lemma pushSemicolon_under (r : Reading) :
    (r.under rule).pushSemicolon = r.pushSemicolon.under rule := by
  rw [pushSemicolon, pushSemicolon, under_readsAtRule, under_text, under_clear]
  split_ifs
  · exact attach_under rule _ _
  · rfl
  · exact attach_under rule _ _

lemma finishText_under (r : Reading) : (r.under rule).finishText = r.finishText.under rule := by
  rw [finishText, finishText, under_readsAtRule, under_text, under_clear, under_current]
  split_ifs
  · rfl
  · exact attach_under rule _ _
  · exact attach_under rule _ _

lemma pushNewline_under (r : Reading) : (r.under rule).pushNewline = r.pushNewline.under rule := by
  rw [pushNewline, pushNewline, under_current]
  split
  · rfl
  · split_ifs <;> rfl

lemma pushPlain_under (r : Reading) (c : Char) :
    (r.under rule).pushPlain c = (r.pushPlain c).under rule := by
  rw [pushPlain, pushPlain, under_current]
  split_ifs <;> rfl

lemma pushComment_under (r : Reading) (text : List Char) (width : Nat) :
    (r.under rule).pushComment text width = (r.pushComment text width).under rule := by
  rw [pushComment, pushComment]
  split_ifs <;> rfl

/-- The step: a piece that can be read outside of the block does the same in it. -/
lemma push_under {r r' : Reading} {p : Piece} (h : r.push p = .ok r') :
    (r.under rule).push p = .ok (r'.under rule) := by
  cases p with
  | brokenString text => cases h
  | closing =>
      obtain ⟨inner, outer, hopened, rfl⟩ := push_closing_iff.1 h
      refine push_closing_iff.2 ⟨inner, outer ++ [{ rule with nodes := r.finishText.finished }], ?_, ?_⟩
      · rw [finishText_under, under, hopened, List.cons_append]
      · rw [finishText_under]
        exact congrArg (·.advance 1) (attach_under rule { r.finishText with opened := outer } _).symm
  | comment text closed =>
      obtain rfl := Except.ok.inj h
      show Except.ok (((r.under rule).pushComment text _).advance _) = _
      rw [pushComment_under]
      rfl
  | newline =>
      obtain rfl := Except.ok.inj h
      show Except.ok ((r.under rule).pushNewline.advance _) = _
      rw [pushNewline_under]
      rfl
  | custom text ended =>
      obtain rfl := Except.ok.inj h
      show Except.ok (((r.under rule).attach _).advance _) = _
      rw [attach_under]
      rfl
  | semicolon =>
      obtain rfl := Except.ok.inj h
      show Except.ok ((r.under rule).pushSemicolon.advance _) = _
      rw [pushSemicolon_under]
      rfl
  | plain c =>
      obtain rfl := Except.ok.inj h
      show Except.ok (((r.under rule).pushPlain c).advance _) = _
      rw [pushPlain_under]
      rfl
  | _ =>
      obtain rfl := Except.ok.inj h
      rfl

/-- A piece that no reader can read is a literal that is cut off, or a brace that closes nothing. -/
lemma push_cases (r : Reading) (p : Piece) :
    (∃ r', r.push p = .ok r') ∨ (∃ text, p = .brokenString text) ∨
      p = .closing ∧ r.finishText.opened = [] := by
  cases p with
  | brokenString text => exact Or.inr (Or.inl ⟨text, rfl⟩)
  | closing =>
      cases hopened : r.finishText.opened with
      | nil => exact Or.inr (Or.inr ⟨rfl, rfl⟩)
      | cons inner outer => exact Or.inl ⟨_, push_closing_iff.2 ⟨inner, outer, hopened, rfl⟩⟩
  | _ => exact Or.inl ⟨_, rfl⟩

end Reading

/-! ## In front of a brace -/

section
variable {c : Char} {rest : List Char}

/-- A backslash that hides nothing stands at the end. -/
lemma eq_nil_of_not_hiding (h : ∀ d rest', c = '\\' → rest = d :: rest' → False) (hc : c = '\\') :
    rest = [] := by
  cases rest with
  | nil => rfl
  | cons d rest => exact (h d rest hc rfl).elim

/-- Two characters that do not stand at the beginning do not stand there in front of a brace either. -/
lemma not_pair_append_brace {a b : Char} (hb : b ≠ '\x7d')
    (h : ∀ rest', c = a → rest = b :: rest' → False) :
    ∀ rest', c = a → rest ++ ['\x7d'] = b :: rest' → False := by
  intro rest' hc hrest
  cases rest with
  | nil => exact hb (List.cons.inj hrest).1.symm
  | cons d rest => exact h rest hc (by rw [(List.cons.inj hrest).1])

end

/-- A brace added at the end is left over, or the comment takes it in and nothing is left. -/
lemma commentBody_brace (cs : List Char) :
    commentBody (cs ++ ['\x7d']) =
        ((commentBody cs).1, (commentBody cs).2.1, (commentBody cs).2.2 ++ ['\x7d']) ∨
      (commentBody (cs ++ ['\x7d'])).2.2 = [] := by
  fun_induction commentBody cs with
  | case1 => exact Or.inr rfl
  | case2 rest => exact Or.inl rfl
  | case3 c rest text closed rest' hbody ih =>
      rw [hbody] at ih
      rw [List.cons_append, List.cons_append, commentBody]
      exact ih.imp (fun ih => by rw [ih]) id
  | case4 c rest hend hesc text closed rest' hbody ih =>
      rw [hbody] at ih
      by_cases hslash : c = '\\'
      · obtain rfl := eq_nil_of_not_hiding hesc hslash
        exact Or.inr (by rw [hslash]; rfl)
      · rw [List.cons_append, commentBody.eq_4 c _ (not_pair_append_brace (by decide) hend)
          (fun _ _ hc _ => hslash hc)]
        exact ih.imp (fun ih => by rw [ih]) id

/-- A brace added at the end follows the literal, unless that is cut off. -/
lemma stringBody_brace {quote : Char} (hslash : quote ≠ '\\') (hbrace : quote ≠ '\x7d') (cs : List Char) :
    (∃ text rest, stringBody quote cs = .closed text rest ∧
        stringBody quote (cs ++ ['\x7d']) = .closed text (rest ++ ['\x7d'])) ∨
      ∃ text, stringBody quote (cs ++ ['\x7d']) = .cutOff text := by
  fun_induction stringBody quote cs with
  | case1 => exact Or.inr ⟨['\x7d'], by simp [stringBody, hbrace.symm, StringEnd.cons]⟩
  | case2 c cs ih =>
      rw [List.cons_append, List.cons_append, stringBody]
      rcases ih with ⟨text, rest, hclosed, hbehind⟩ | ⟨text, hcut⟩
      · exact Or.inl ⟨_, rest, by rw [hclosed]; rfl, by rw [hbehind]; rfl⟩
      · exact Or.inr ⟨_, by rw [hcut]; rfl⟩
  | case3 cs hesc =>
      refine Or.inl ⟨[], cs, rfl, ?_⟩
      rw [List.cons_append, stringBody.eq_3 _ _ _ (fun _ _ hc _ => hslash hc), if_pos rfl]
  | case4 c cs hesc hne hcut =>
      obtain ⟨rfl, hline⟩ : c = ';' ∧ cs.head? = some '\n' := by simpa using hcut
      refine Or.inr ⟨[';'], ?_⟩
      rw [List.cons_append, stringBody.eq_3 _ _ _ (fun _ _ hc _ => absurd hc (by decide)), if_neg hne,
        if_pos (by simp [hline])]
  | case5 cs hesc hne hcut =>
      refine Or.inr ⟨[], ?_⟩
      rw [List.cons_append, stringBody.eq_3 _ _ _ (fun _ _ hc _ => absurd hc (by decide)), if_neg hne,
        if_neg (by simp), if_pos rfl]
  | case6 c cs hesc hne hcut hline ih =>
      by_cases hend : c = '\\'
      · obtain rfl := eq_nil_of_not_hiding hesc hend
        exact Or.inr ⟨['\\', '\x7d'], by rw [hend]; rfl⟩
      · have hcut' : ¬ (decide (c = ';') && (cs ++ ['\x7d']).head? == some '\n') = true := by
          cases cs with
          | nil => simp
          | cons d cs => exact hcut
        rw [List.cons_append, stringBody.eq_3 _ _ _ (fun _ _ hc _ => hend hc), if_neg hne,
          if_neg hcut', if_neg hline]
        rcases ih with ⟨text, rest, hclosed, hbehind⟩ | ⟨text, hcutOff⟩
        · exact Or.inl ⟨_, rest, by rw [hclosed]; rfl, by rw [hbehind]; rfl⟩
        · exact Or.inr ⟨_, by rw [hcutOff]; rfl⟩

/-- A brace added at the end is left over, or the property takes it in and nothing is left. -/
lemma customBody_brace (inComment : Bool) (brackets cs : List Char) :
    customBody inComment brackets (cs ++ ['\x7d']) =
        ((customBody inComment brackets cs).1, (customBody inComment brackets cs).2.1,
          (customBody inComment brackets cs).2.2 ++ ['\x7d']) ∨
      (customBody inComment brackets (cs ++ ['\x7d'])).2.2 = [] := by
  fun_induction customBody inComment brackets cs with
  | case1 inComment brackets =>
      cases inComment with
      | true => exact Or.inr rfl
      | false =>
          cases brackets with
          | nil => exact Or.inl rfl
          | cons close brackets => exact Or.inr (by simp [customBody])
  | case2 inComment brackets c rest text ended rest' hbody ih =>
      rw [hbody] at ih
      rw [List.cons_append, List.cons_append, customBody]
      exact ih.imp (fun ih => by rw [ih]) id
  | case3 brackets rest text ended rest' hbody ih =>
      rw [hbody] at ih
      rw [List.cons_append, List.cons_append, customBody]
      exact ih.imp (fun ih => by rw [ih]) id
  | case4 brackets rest text ended rest' hbody ih =>
      rw [hbody] at ih
      rw [List.cons_append, List.cons_append, customBody]
      exact ih.imp (fun ih => by rw [ih]) id
  | case5 brackets c rest hesc hend text ended rest' hbody ih =>
      rw [hbody] at ih
      by_cases hslash : c = '\\'
      · obtain rfl := eq_nil_of_not_hiding hesc hslash
        exact Or.inr (by rw [hslash]; rfl)
      · rw [List.cons_append, customBody.eq_5 brackets c _ (fun _ _ hc _ => hslash hc)
          (not_pair_append_brace (by decide) hend)]
        exact ih.imp (fun ih => by rw [ih]) id
  | case6 brackets c rest hesc hcomment hsemi =>
      obtain ⟨-, rfl⟩ : brackets = [] ∧ c = ';' := by simpa using hsemi
      rw [List.cons_append, customBody.eq_6 _ _ _ (fun _ _ hc _ => absurd hc (by decide))
        (fun _ hc _ => absurd hc (by decide)), if_pos hsemi]
      exact Or.inl rfl
  | case7 brackets c rest hesc hcomment hsemi hbrace =>
      obtain ⟨-, rfl⟩ : brackets = [] ∧ c = '\x7d' := by simpa using hbrace
      rw [List.cons_append, customBody.eq_6 _ _ _ (fun _ _ hc _ => absurd hc (by decide))
        (fun _ hc _ => absurd hc (by decide)), if_neg hsemi, if_pos hbrace]
      exact Or.inl rfl
  | case8 brackets c rest hesc hcomment hsemi hbrace text ended rest' hbody ih =>
      rw [hbody] at ih
      by_cases hslash : c = '\\'
      · obtain rfl := eq_nil_of_not_hiding hesc hslash
        exact Or.inr (by rw [hslash]; rfl)
      · rw [List.cons_append, customBody.eq_6 brackets c _ (fun _ _ hc _ => hslash hc)
          (not_pair_append_brace (by decide) hcomment), if_neg hsemi, if_neg hbrace]
        exact ih.imp (fun ih => by rw [ih]) id

namespace Piece

/-- How the next piece is read if a closing brace stands behind the text. -/
inductive BeforeBrace (fresh : Bool) (c : Char) (rest : List Char) : Prop
  /-- It is the same piece. -/
  | kept (h : next fresh c (rest ++ ['\x7d']) = ((next fresh c rest).1, (next fresh c rest).2 ++ ['\x7d']))
  /-- It takes the brace in. -/
  | taken (hne : (next fresh c (rest ++ ['\x7d'])).1 ≠ .closing)
      (h : (next fresh c (rest ++ ['\x7d'])).2 = [])
  | broken (text : List Char) (h : (next fresh c (rest ++ ['\x7d'])).1 = .brokenString text)

/-- Every piece of a text in front of a brace is of one of these kinds. -/
lemma beforeBrace (fresh : Bool) (c : Char) (rest : List Char) : BeforeBrace fresh c rest := by
  -- What the next piece is told by is the same in front of the brace.
  have hhead : ∀ {d : Char}, d ≠ '\x7d' →
      ((rest ++ ['\x7d']).head? == some d) = (rest.head? == some d) := by
    intro d hd
    cases rest with
    | nil => simp [hd.symm]
    | cons e rest => rfl
  have hstar := hhead (d := '*') (by decide)
  have hhyphen := hhead (d := '-') (by decide)
  have hgaps : (rest ++ ['\x7d']).head?.any isGap = rest.head?.any isGap := by
    cases rest <;> rfl
  have htail : ∀ {d : Char}, (rest.head? == some d) = true →
      (rest ++ ['\x7d']).tail = rest.tail ++ ['\x7d'] := by
    intro d hd
    obtain ⟨behind, rfl⟩ := List.head?_eq_some_iff.1 (beq_iff_eq.1 hd)
    rfl
  fun_cases next fresh c rest with
  | case1 hesc =>
      have hnext : next fresh c (rest ++ ['\x7d']) = escaped (rest ++ ['\x7d']) := by
        rw [next, if_pos hesc]
      cases rest with
      | nil => exact .taken (by rw [hnext]; simp [escaped]) (by rw [hnext]; rfl)
      | cons d rest => exact .kept (by rw [hnext, next, if_pos hesc]; rfl)
  | case2 hesc hcomment body =>
      have hnext : next fresh c (rest ++ ['\x7d'])
          = (.comment (commentBody (rest.tail ++ ['\x7d'])).1 (commentBody (rest.tail ++ ['\x7d'])).2.1,
            (commentBody (rest.tail ++ ['\x7d'])).2.2) := by
        rw [next, if_neg hesc, hstar, if_pos hcomment, htail (Bool.and_eq_true_iff.1 hcomment).2]
      rcases commentBody_brace rest.tail with hbody | hbody
      · exact .kept (by rw [hnext, next, if_neg hesc, if_pos hcomment, hbody])
      · exact .taken (by simp [hnext]) (by rw [hnext]; exact hbody)
  | case3 hesc hcomment hquote body =>
      have hbrace : c ≠ '\x7d' := by
        rintro rfl
        simp at hquote
      have hnext : next fresh c (rest ++ ['\x7d']) = (quoted c (stringBody c (rest ++ ['\x7d'])),
          (stringBody c (rest ++ ['\x7d'])).rest) := by
        rw [next, if_neg hesc, hstar, if_neg hcomment, if_pos hquote]
      rcases stringBody_brace hesc hbrace rest with ⟨text, behind, hclosed, hbody⟩ | ⟨text, hcut⟩
      · refine .kept ?_
        rw [hnext, next, if_neg hesc, if_neg hcomment, if_pos hquote, hbody]
        simp only [hclosed]
        rfl
      · exact .broken _ (by rw [hnext, hcut]; rfl)
  | case6 hesc hcomment hquote hgap hline hcustom body =>
      have hnext : next fresh c (rest ++ ['\x7d'])
          = (.custom ('-' :: '-' :: (customBody false [] (rest.tail ++ ['\x7d'])).1)
              (customBody false [] (rest.tail ++ ['\x7d'])).2.1,
            (customBody false [] (rest.tail ++ ['\x7d'])).2.2) := by
        have hhead' := (Bool.and_eq_true_iff.1 (Bool.and_eq_true_iff.1 hcustom).1).2
        rw [next, if_neg hesc, hstar, if_neg hcomment, if_neg hquote, hgaps, if_neg hgap, if_neg hline,
          hhyphen, if_pos hcustom, htail hhead']
      rcases customBody_brace false [] rest.tail with hbody | hbody
      · refine .kept ?_
        rw [hnext, next, if_neg hesc, if_neg hcomment, if_neg hquote, if_neg hgap, if_neg hline,
          if_pos hcustom, hbody]
      · exact .taken (by simp [hnext]) (by rw [hnext]; exact hbody)
  -- Every other piece is one character.
  | _ =>
      refine .kept ?_
      rw [next, hstar, hgaps, hhyphen, next]
      split_ifs
      rfl

end Piece

/-! ## The body -/

namespace Reading

/-- Behind the last piece there is nothing but the brace to read. -/
lemma run_brace (r : Reading) (tail : List Char) :
    r.run ('\x7d' :: tail) = (r.push .closing).bind fun s => s.run tail := by
  have hnext : Piece.next r.current.isEmpty '\x7d' tail = (.closing, tail) := by simp [Piece.next, isGap]
  rw [run, hnext]
  cases r.push .closing <;> rfl

/-- How a text is read inside of a block, with the closing brace of the block behind it. -/
inductive BodyUnder (rule : OpenRule) (r : Reading) (cs : List Char) : Prop
  /-- It can be read outside of the block, and the brace behind it is left to be read. -/
  | whole (s : Reading) (hrun : r.run cs = .ok s)
      (hunder : (r.under rule).run (cs ++ ['\x7d']) = (s.under rule).run ['\x7d'])
  /-- A brace in it, which closes nothing outside of the block, closes the block. -/
  | cut (front rest : List Char) (hcs : cs = front ++ '\x7d' :: rest) (s : Reading)
      (hopened : s.finishText.opened = [])
      (hrun : ∃ span, r.run cs = .error (.missingOpeningBrace span))
      (hunder : ∀ tail, (r.under rule).run (front ++ '\x7d' :: tail)
        = (s.under rule).run ('\x7d' :: tail))
  /-- The block is not closed. -/
  | refused (h : ∀ s, (r.under rule).run (cs ++ ['\x7d']) = .ok s → s.opened ≠ [])

/-- The step: a piece in front of a text of which this is known. -/
lemma BodyUnder.cons {rule : OpenRule} {r s : Reading} {c : Char} {rest rest' : List Char} {p : Piece}
    (hnext : Piece.next r.current.isEmpty c rest = (p, rest'))
    (hbehind : Piece.next r.current.isEmpty c (rest ++ ['\x7d']) = (p, rest' ++ ['\x7d']))
    (hpush : r.push p = .ok s) (h : BodyUnder rule s rest') : BodyUnder rule r (c :: rest) := by
  have hunder := push_under rule hpush
  have hfirst : r.run (c :: rest) = s.run rest' := by
    rw [run, hnext]
    simp only [hpush]
  have hboth : (r.under rule).run (c :: rest ++ ['\x7d']) = (s.under rule).run (rest' ++ ['\x7d']) := by
    rw [List.cons_append, run, under_current, hbehind]
    simp only [hunder]
  cases h with
  | whole s' hrun hbrace => exact .whole s' (hfirst.trans hrun) (hboth.trans hbrace)
  | cut front behind hcs s' hopened hrun hbrace =>
      have hsource : p.source ++ rest' = c :: rest := (taken_of_push hnext hpush).source
      refine .cut (p.source ++ front) behind ?_ s' hopened (by rwa [hfirst]) fun tail => ?_
      · rw [List.append_assoc, ← hcs, hsource]
      · rw [List.append_assoc, ← hbrace tail]
        refine run_append (r := r.under rule) hnext hunder ?_
        rw [hcs]
        exact head?_append_congr front rfl
  | refused hrefused => exact .refused fun s' hs' => hrefused s' (hboth ▸ hs')

/-- The run: every text is read so. -/
lemma bodyUnder (rule : OpenRule) (r : Reading) (cs : List Char) : BodyUnder rule r cs := by
  induction hn : cs.length using Nat.strong_induction_on generalizing r cs with
  | _ n ih =>
      cases cs with
      | nil => exact .whole r (by rw [run]) rfl
      | cons c rest =>
          have hstep : ∀ {p : Piece} {behind : List Char},
              Piece.next r.current.isEmpty c (rest ++ ['\x7d']) = (p, behind) →
              (r.under rule).run (c :: rest ++ ['\x7d'])
                = ((r.under rule).push p).bind fun s => s.run behind := by
            intro p behind hnext
            rw [List.cons_append, run, under_current, hnext]
            cases (r.under rule).push p <;> rfl
          have hbrace := Piece.beforeBrace r.current.isEmpty c rest
          obtain ⟨p, rest', hnext⟩ : ∃ p rest', Piece.next r.current.isEmpty c rest = (p, rest') :=
            ⟨_, _, rfl⟩
          obtain ⟨q, behind, hbehind⟩ : ∃ q behind,
              Piece.next r.current.isEmpty c (rest ++ ['\x7d']) = (q, behind) := ⟨_, _, rfl⟩
          have hlength : rest'.length ≤ rest.length := by
            simpa [hnext] using Piece.next_length r.current.isEmpty c rest
          cases hbrace with
          | kept hkept =>
              rw [hnext] at hkept
              rcases push_cases r p with ⟨s, hpush⟩ | ⟨text, rfl⟩ | ⟨rfl, hopened⟩
              · exact .cons hnext hkept hpush
                  (ih _ (by simp only [← hn, List.length_cons]; omega) s rest' rfl)
              · refine .refused fun s hs => ?_
                rw [hstep hkept] at hs
                cases hs
              · have hsource : '\x7d' :: rest' = c :: rest := by
                  have hsource := Piece.next_source r.current.isEmpty c rest (by simp [hnext])
                  rwa [hnext] at hsource
                obtain ⟨rfl, rfl⟩ := List.cons.inj hsource
                refine .cut [] rest' rfl r hopened ⟨r.span r.pos (r.pos + 1), ?_⟩ fun tail => rfl
                rw [run_brace, push_closing_of_finishText hopened]
                rfl
          | taken hne htaken =>
              rw [hbehind] at hne htaken
              obtain rfl : behind = [] := htaken
              refine .refused fun s hs => ?_
              rw [hstep hbehind] at hs
              rcases push_cases r q with ⟨s', hpush⟩ | ⟨text, rfl⟩ | ⟨rfl, -⟩
              · rw [push_under rule hpush, Except.bind, run] at hs
                rw [← Except.ok.inj hs]
                exact under_opened_ne_nil rule s'
              · cases hs
              · exact absurd rfl hne
          | broken text hbroken =>
              rw [hbehind] at hbroken
              obtain rfl : q = .brokenString text := hbroken
              refine .refused fun s hs => ?_
              rw [hstep hbehind] at hs
              cases hs

lemma outline_finishText_current (r : Reading) : r.finishText.outline.current = [] := by
  rw [outline_finishText_eq]
  split_ifs with hcurrent
  · exact List.isEmpty_iff.1 hcurrent
  · rw [Outline.attach_current]
    rfl

/-- A brace that closes nothing outside of the block closes the block. -/
lemma push_closing_under (rule : OpenRule) {r : Reading} (hopened : r.finishText.opened = []) :
    ∃ s, (r.under rule).push .closing = .ok s ∧ s.outline =
      ⟨[.rule rule.selector r.finishText.outline.finished.reverse true none],
        r.finishText.outline.licences, [], []⟩ := by
  have hunder : (r.under rule).finishText.opened
      = [{ rule with nodes := r.finishText.finished }] := by
    rw [finishText_under, under, hopened, List.nil_append]
  refine ⟨_, push_closing_iff.2 ⟨_, _, hunder, rfl⟩, ?_⟩
  rw [outline_advance, outline_close hunder, finishText_under]
  have hcurrent : r.finishText.current = [] := outline_finishText_current r
  simp [Outline.leave, Outline.attach, outline, under, hopened, OpenRule.outline, hcurrent]

/-- A brace that closes a rule inside of the block leaves the block open. -/
lemma opened_of_run_brace (rule : OpenRule) {r s : Reading} (hopened : r.finishText.opened ≠ [])
    (hrun : (r.under rule).run ['\x7d'] = .ok s) : s.opened ≠ [] := by
  obtain ⟨inner, outer, hinner⟩ := List.exists_cons_of_ne_nil hopened
  rw [run_brace, push_under rule (push_closing_iff.2 ⟨inner, outer, hinner, rfl⟩), Except.bind, run]
    at hrun
  rw [← Except.ok.inj hrun]
  exact under_opened_ne_nil rule _

end Reading

/-! ## Behind the block -/

namespace Outline

/-- An outline with nodes that were finished before all others, newest first. -/
def behind (older : List Node) (o : Outline) : Outline :=
  { o with finished := o.finished ++ older }

/-- Nodes that are there already do not change how others are attached behind them. -/
lemma attach_behind (older : List Node) (o : Outline) (node : Node) :
    (o.behind older).attach node = (o.attach node).behind older := by
  unfold attach behind
  cases o.opened <;> rfl

lemma leave_behind (older : List Node) (o : Outline) :
    (o.behind older).leave = o.leave.behind older := by
  unfold leave
  cases hopened : o.opened with
  | nil => simp [behind, hopened]
  | cons rule outer =>
      simp only [behind, hopened]
      exact attach_behind older { o with opened := outer } _

/-- A text is read behind finished nodes as it is without them. -/
lemma lockstep_behind (older : List Node) : Lockstep fun o o' => o' = o.behind older where
  current := by rintro o _ rfl; rfl
  selectors := by rintro o _ rfl; rfl
  withCurrent := by rintro o _ rfl current; rfl
  withLicence := by rintro o _ rfl node; rfl
  attach := by rintro o _ rfl node; exact attach_behind older o node
  enter := by rintro o _ rfl selector; rfl
  leave := by rintro o _ rfl; exact leave_behind older o

end Outline

namespace Reading

/-- Reading on keeps the nodes that were finished. -/
lemma finished_of_run {r s : Reading} {cs : List Char} (hrun : r.run cs = .ok s) :
    ∃ newer, s.outline.finished = newer ++ r.outline.finished := by
  have hbehind : r.outline = ({ r with finished := [] } : Reading).outline.behind r.outline.finished := by
    simp [outline, Outline.behind]
  have hagree := (Outline.lockstep_behind r.outline.finished).run hbehind cs
  rw [hrun] at hagree
  generalize ({ r with finished := [] } : Reading).run cs = result at hagree
  cases hagree with
  | @ok s' _ hs => exact ⟨s'.outline.finished, by rw [hs]; rfl⟩

/-- What a reader reads on to, up to spans. -/
def readOn (r : Reading) (cs : List Char) : Except ReadError (List Node) :=
  (((r.run cs).bind finish).map Node.clearSpansAll).mapError ReadError.clearSpan

/-- How a reading goes on can be seen from its outline. -/
lemma readOn_congr {r r' : Reading} (h : r'.outline = r.outline) (cs : List Char) :
    r'.readOn cs = r.readOn cs := by
  have hsame := read_noticing (h.trans (Outline.noticing_nil r.outline).symm) cs
  rw [readOn, hsame]
  show (r.readOn cs).map _ = _
  cases r.readOn cs <;> rfl

lemma readOn_of_run {r s : Reading} {cs : List Char} (h : r.run cs = .ok s) :
    r.readOn cs = s.outline.finish := by
  rw [readOn, h, Except.bind, finish_upToSpans]

/-- A forest was read only if all blocks were closed. -/
lemma exists_of_readOn_ok {r : Reading} {cs : List Char} {forest : List Node}
    (h : r.readOn cs = .ok forest) :
    ∃ s, r.run cs = .ok s ∧ s.opened = [] ∧
      forest = s.outline.licences.reverse ++ s.outline.finished.reverse := by
  cases hrun : r.run cs with
  | error e =>
      rw [readOn, hrun] at h
      cases h
  | ok s =>
      rw [readOn_of_run hrun, Outline.finish] at h
      cases hopened : s.opened with
      | nil =>
          simp only [outline, hopened, List.map_nil, Except.ok.injEq] at h
          exact ⟨s, rfl, hopened, h.symm⟩
      | cons rule outer => simp [outline, hopened] at h

end Reading

/-! ## Bodies -/

/-- The rule that a body is put into. -/
def bodyRule : OpenRule := ⟨"&", 0, 0, []⟩

/-- A body between braces is read under the rule that these belong to. -/
lemma readUpToSpans_wrapped (file : Nat) (text : String) :
    readUpToSpans file ("& \x7b" ++ text)
      = (({ file } : Reading).under bodyRule).readOn text.toList := by
  have hleads : Leads .empty ("& \x7b" ++ text).toList (Outline.empty.enter "&") text.toList := by
    have hmark : Leads .empty ('&' :: ' ' :: '\x7b' :: text.toList) (Outline.empty.typed ['&'])
        (' ' :: '\x7b' :: text.toList) :=
      leads_plain (by decide) ⟨by simp, by simp [isGap], by simp⟩ (by decide)
    have hspace : Leads (Outline.empty.typed ['&']) (' ' :: '\x7b' :: text.toList)
        (Outline.empty.typed ['&', ' ']) ('\x7b' :: text.toList) :=
      leads_plain (by decide) ⟨by simp, by simp [isGap], by simp⟩ (by decide)
    have hopening := leads_opening (o := .empty) rfl ['&', ' '] text.toList
    rw [show String.ofList (Text.trim ['&', ' ']) = "&" by decide] at hopening
    simpa using hmark.trans (hspace.trans hopening)
  obtain ⟨r, hr, hrun⟩ := hleads { file } rfl
  rw [readUpToSpans_of_run file _ hrun]
  exact Reading.readOn_congr hr text.toList

namespace Reading

/-- Outside of all rules, finishing the text that was collected finishes one node at most. -/
lemma finished_finishText {r : Reading} (hopened : r.finishText.opened = []) :
    r.outline.opened = [] ∧ r.finishText.outline.licences = r.outline.licences ∧
      ∃ last, last.length ≤ 1 ∧ r.finishText.outline.finished = last ++ r.outline.finished := by
  have hnone : r.finishText.outline.opened = [] := by simp [outline, hopened]
  rw [outline_finishText_eq] at hnone ⊢
  split_ifs at hnone ⊢
  · exact ⟨hnone, rfl, [], by simp, rfl⟩
  · have houtside : r.outline.opened = [] := by
      by_contra hinside
      exact Outline.attach_opened_ne_nil (o := r.clear.outline) hinside (nodeOf r.text) hnone
    have hattach : r.clear.outline.attach (nodeOf r.text)
        = { r.clear.outline with finished := nodeOf r.text :: r.outline.finished } := by
      rw [outline_clear, Outline.attach]
      simp [houtside]
    rw [hattach]
    exact ⟨houtside, rfl, [nodeOf r.text], by simp, rfl⟩

/-- A body that is accepted is read as the nodes that it has by itself, or up to a brace that closes its
rule. -/
lemma readOn_body {file : Nat} {cs : List Char} {forest : List Node}
    (h : (({ file } : Reading).under bodyRule).readOn (cs ++ ['\x7d']) = .ok forest) :
    ∃ nodes notices later, (∀ notice ∈ notices, Noticed notice) ∧
      forest = notices ++ .rule "&" nodes true none :: later ∧
      ((∃ read last, ({ file } : Reading).readOn cs = .ok (notices ++ read) ∧ nodes = read ++ last ∧
          last.length ≤ 1 ∧ later = []) ∨
        ∃ front rest notices', cs = front ++ '\x7d' :: rest ∧
          ({ file } : Reading).readOn cs = .error (.missingOpeningBrace .nowhere) ∧
          notices' <+: notices ∧ (({ file } : Reading).under bodyRule).readOn (front ++ ['\x7d'])
            = .ok (notices' ++ [.rule "&" nodes true none])) := by
  obtain ⟨s, hrun, hclosed, rfl⟩ := exists_of_readOn_ok h
  have hnoticed : ∀ notice ∈ s.outline.licences.reverse, Noticed notice := by
    obtain ⟨newer, hnewer, hnoticed⟩ := licences_of_run hrun
    intro notice hnotice
    rw [hnewer] at hnotice
    exact hnoticed notice (by simpa [under, outline] using hnotice)
  cases bodyUnder bodyRule { file } cs with
  | whole s' hread hunder =>
      rw [hunder] at hrun
      have hopened : s'.finishText.opened = [] := by
        by_contra hinside
        exact opened_of_run_brace bodyRule hinside hrun hclosed
      obtain ⟨t, hpush, ht⟩ := push_closing_under bodyRule hopened
      obtain ⟨houtside, hlicences, last, hlast, hfinished⟩ := finished_finishText hopened
      rw [run_brace, hpush, Except.bind, run] at hrun
      obtain rfl := Except.ok.inj hrun
      refine ⟨s'.finishText.outline.finished.reverse, _, [], hnoticed, by rw [ht]; rfl, Or.inl
        ⟨s'.outline.finished.reverse, last.reverse, ?_, ?_, by rwa [List.length_reverse], rfl⟩⟩
      · rw [readOn_of_run hread, Outline.finish, houtside, ht, hlicences]
      · rw [hfinished, List.reverse_append]
  | cut front rest hcs s' hopened hread hunder =>
      obtain ⟨t, hpush, ht⟩ := push_closing_under bodyRule hopened
      have hclose : ∀ tail, (({ file } : Reading).under bodyRule).run (front ++ '\x7d' :: tail)
          = t.run tail := by
        intro tail
        rw [hunder, run_brace, hpush]
        rfl
      rw [hcs, List.append_assoc, List.cons_append, hclose] at hrun
      obtain ⟨newer, hnewer⟩ := finished_of_run hrun
      obtain ⟨notices, hnotices, -⟩ := licences_of_run hrun
      obtain ⟨span, hread⟩ := hread
      refine ⟨s'.finishText.outline.finished.reverse, _, newer.reverse, hnoticed, ?_, Or.inr
        ⟨front, rest, t.outline.licences.reverse, hcs, ?_, ?_, ?_⟩⟩
      · rw [hnewer, ht]
        simp [bodyRule]
      · rw [readOn, hread]
        rfl
      · rw [hnotices, List.reverse_append]
        exact List.prefix_append _ _
      · have hshort := hclose []
        rw [run] at hshort
        rw [readOn_of_run hshort, ht]
        rfl
  | refused hrefused => exact absurd hclosed (hrefused s hrun)

end Reading

namespace RuleBook

/-- Which rule is the first does not depend on spans. -/
lemma firstRuleNodes_clearSpansAll (nodes : List Node) :
    firstRuleNodes (Node.clearSpansAll nodes) = Node.clearSpansAll (firstRuleNodes nodes) := by
  induction nodes with
  | nil => rfl
  | cons node nodes ih =>
      cases node with
      | rule => rfl
      | declaration => exact ih
      | comment => exact ih

/-- The nodes of a body are the children of the first rule that is read, and what cannot be read is an
error. -/
lemma readBody_iff {table key body : String} {nodes : List Node} :
    readBody table key body = .ok nodes ↔
      ∃ forest, readUpToSpans Span.noFile (wrapBody body) = .ok forest ∧
        firstRuleNodes forest = nodes := by
  rw [readBody, readUpToSpans]
  cases readStylesheet Span.noFile (wrapBody body) with
  | error e => simp [Except.map, Except.mapError]
  | ok forest => simp [Except.map, Except.mapError, firstRuleNodes_clearSpansAll]

/-- Comments in front of the first rule do not matter. -/
lemma firstRuleNodes_of_comments {notices : List Node}
    (h : ∀ notice ∈ notices, ∃ text, notice = .comment text none) (selector : String)
    (nodes later : List Node) :
    firstRuleNodes (notices ++ .rule selector nodes true none :: later) = nodes := by
  induction notices with
  | nil => rfl
  | cons notice notices ih =>
      rw [List.forall_mem_cons] at h
      obtain ⟨⟨text, rfl⟩, hrest⟩ := h
      exact ih hrest

/-- The bodies of the settings, table by table. -/
def bodiesOf (s : Settings) : List (String × Table String) :=
  [("base", s.base), ("components", s.components), ("utilities", s.utilities)]

/-- Every body of settings that have a rule book can be read. -/
lemma exists_readBody {s : Settings} {book : RuleBook} (hbook : ofSettings s = .ok book)
    {table : String} {bodies : Table String} (htable : (table, bodies) ∈ bodiesOf s) {key body : String}
    (hbody : (key, body) ∈ bodies.entries) : ∃ nodes, readBody table key body = .ok nodes := by
  have h := ofSettings_spec hbook
  obtain ⟨entries, hentries⟩ : ∃ entries, readBodies table bodies = .ok entries := by
    simp only [bodiesOf, List.mem_cons, Prod.mk.injEq, List.not_mem_nil, or_false] at htable
    rcases htable with ⟨rfl, rfl⟩ | ⟨rfl, rfl⟩ | ⟨rfl, rfl⟩
    · obtain ⟨base, hbase, -⟩ := h.always
      exact ⟨base, hbase⟩
    · exact ⟨_, h.components⟩
    · exact ⟨_, h.utilities⟩
  obtain ⟨hlength, hread⟩ := List.forall₂_iff_get.1 (readBodies_spec hentries)
  obtain ⟨i, hi⟩ := List.mem_iff_get.1 hbody
  have hnodes := (hread i i.2 (by rw [← hlength]; exact i.2)).2
  rw [hi] at hnodes
  exact ⟨_, hnodes⟩

/-- A brace between the blanks around a body stands in the body. -/
lemma split_blanks {body front rest : List Char} (h : ' ' :: body ++ [' '] = front ++ '\x7d' :: rest) :
    ∃ before after, front = ' ' :: before ∧ rest = after ++ [' '] ∧
      body = before ++ '\x7d' :: after := by
  cases front with
  | nil => exact absurd (List.cons.inj h).1 (by decide)
  | cons c before =>
      obtain ⟨rfl, hbody⟩ := List.cons.inj h
      rcases List.eq_nil_or_concat' rest with rfl | ⟨after, d, rfl⟩
      · exact absurd (List.append_inj' hbody rfl).2 (by decide)
      · have hsame : body ++ [' '] = (before ++ '\x7d' :: after) ++ [d] := by simpa using hbody
        obtain ⟨hfront, hlast⟩ := List.append_inj' hsame rfl
        exact ⟨before, after, rfl, by rw [hlast], hfront⟩

/-- **Bodies are taken whole, or cut at a brace.**  Take settings that have a rule book, and one of their
bodies.  Between the braces of its rule it is read to comments and the rule, whose children are the nodes
of the body, and perhaps to more behind them.  If the body can be read by itself then there is no more,
and the nodes are those that it has by itself, up to a last declaration without its semicolon.  Otherwise
it has a closing brace too many, and the nodes are those of the body in front of such a brace: what
stands behind it is dropped. -/
theorem readBody_whole_or_cut {s : Settings} {book : RuleBook} (hbook : ofSettings s = .ok book)
    {table : String} {bodies : Table String} (htable : (table, bodies) ∈ bodiesOf s) {key body : String}
    (hbody : (key, body) ∈ bodies.entries) :
    ∃ nodes notices later, readBody table key body = .ok nodes ∧
      (∀ notice ∈ notices, ∃ text, notice = .comment text none) ∧
      readUpToSpans Span.noFile (wrapBody body)
        = .ok (notices ++ .rule "&" nodes true none :: later) ∧
      ((∃ read last, readUpToSpans Span.noFile (" " ++ body ++ " ") = .ok (notices ++ read) ∧
          nodes = read ++ last ∧ last.length ≤ 1 ∧ later = []) ∨
        ∃ before after notices', body = before ++ "\x7d" ++ after ∧
          readUpToSpans Span.noFile (" " ++ body ++ " ") = .error (.missingOpeningBrace .nowhere) ∧
          notices' <+: notices ∧ readUpToSpans Span.noFile ("& \x7b " ++ before ++ "\x7d")
            = .ok (notices' ++ [.rule "&" nodes true none])) := by
  obtain ⟨nodes, hnodes⟩ := exists_readBody hbook htable hbody
  obtain ⟨forest, hforest, hfirst⟩ := readBody_iff.1 hnodes
  have hwrapped : ∀ text : String, readUpToSpans Span.noFile ("& \x7b " ++ text ++ "\x7d")
      = (({ file := Span.noFile } : Reading).under bodyRule).readOn (' ' :: text.toList ++ ['\x7d']) := by
    intro text
    have htext : "& \x7b " ++ text ++ "\x7d" = "& \x7b" ++ (" " ++ text ++ "\x7d") := by
      rw [← String.toList_inj]
      simp
    rw [htext, readUpToSpans_wrapped]
    simp
  have halone : readUpToSpans Span.noFile (" " ++ body ++ " ")
      = ({ file := Span.noFile } : Reading).readOn (' ' :: body.toList ++ [' ']) := by
    rw [readUpToSpans_of_run Span.noFile _ rfl]
    simp [Reading.readOn]
  have hread := hforest
  rw [show wrapBody body = "& \x7b " ++ (body ++ " ") ++ "\x7d" by
    rw [wrapBody, ← String.toList_inj]; simp, hwrapped, String.toList_append] at hread
  obtain ⟨children, notices, later, hnoticed, rfl, hwhole⟩ := Reading.readOn_body hread
  have hcomments : ∀ notice ∈ notices, ∃ text, notice = .comment text none := fun notice hnotice => by
    obtain ⟨text, htext, -⟩ := hnoticed notice hnotice
    exact ⟨text, htext⟩
  obtain rfl : children = nodes := by
    rw [← hfirst, firstRuleNodes_of_comments hcomments]
  refine ⟨children, notices, later, hnodes, hcomments, hforest, ?_⟩
  rw [halone]
  refine hwhole.imp id ?_
  rintro ⟨front, rest, notices', hcs, herror, hprefix, hcut⟩
  obtain ⟨before, after, rfl, rfl, hbody⟩ := split_blanks hcs
  refine ⟨String.ofList before, String.ofList after, notices', ?_, herror, hprefix, ?_⟩
  · rw [← String.toList_inj, hbody]
    simp
  · rw [hwrapped, String.toList_ofList]
    exact hcut

open Stacked in
/-- A body with a rule in it, and a declaration that ends at the brace of its rule. -/
theorem readBody_whole_or_cut_nested :
    ofSettings settings = .ok book ∧ ("utilities", settings.utilities) ∈ bodiesOf settings ∧
      ("p", "a:b;&:x\x7bc:d\x7d") ∈ settings.utilities.entries ∧
      readBody "utilities" "p" "a:b;&:x\x7bc:d\x7d" = .ok nodes ∧
      ∃ notices, readUpToSpans Span.noFile (wrapBody "a:b;&:x\x7bc:d\x7d")
        = .ok (notices ++ [.rule "&" nodes true none]) := by
  have htable : ("utilities", settings.utilities) ∈ bodiesOf settings := by simp [bodiesOf]
  have hbody : ("p", "a:b;&:x\x7bc:d\x7d") ∈ settings.utilities.entries := List.mem_cons_self
  have halone : readStylesheet 4294967295 " a:b;&:x\x7bc:d\x7d "
      = .ok [.declaration "a" "b" false (some ⟨4294967295, 1, 5⟩),
          .rule "&:x" [.declaration "c" "d" false (some ⟨4294967295, 9, 12⟩)] true
            (some ⟨4294967295, 5, 13⟩)] := by
    with_unfolding_all rfl
  obtain ⟨read, notices, later, hread, -, hforest, hwhole⟩ :=
    readBody_whole_or_cut ofSettings_eq htable hbody
  obtain rfl := Except.ok.inj (readBody_eq.symm.trans hread)
  refine ⟨ofSettings_eq, htable, hbody, hread, notices, ?_⟩
  rcases hwhole with ⟨_, _, _, _, _, rfl⟩ | ⟨_, _, _, _, herror, _⟩
  · exact hforest
  · rw [show " " ++ "a:b;&:x\x7bc:d\x7d" ++ " " = " a:b;&:x\x7bc:d\x7d " by decide, readUpToSpans,
      Span.noFile, halone] at herror
    cases herror

namespace Severed

def settings : Settings :=
  { utilities := ⟨[("x", "a:b \x7d c \x7b d:e")]⟩ }

lemma readUpToSpans_eq : readUpToSpans Span.noFile (wrapBody "a:b \x7d c \x7b d:e")
    = .ok [.rule "&" [.declaration "a" "b" false none] true none,
        .rule "c" [.declaration "d" "e" false none] true none] := by
  have hread : readStylesheet 4294967295 "& \x7b a:b \x7d c \x7b d:e \x7d"
      = .ok [.rule "&" [.declaration "a" "b" false (some ⟨4294967295, 4, 8⟩)] true
          (some ⟨4294967295, 0, 9⟩),
        .rule "c" [.declaration "d" "e" false (some ⟨4294967295, 14, 18⟩)] true
          (some ⟨4294967295, 10, 19⟩)] := by
    with_unfolding_all rfl
  rw [show wrapBody "a:b \x7d c \x7b d:e" = "& \x7b a:b \x7d c \x7b d:e \x7d" by decide,
    readUpToSpans, Span.noFile, hread]
  rfl

end Severed

open Severed in
/-- A body that closes its rule and opens another is accepted, and the second rule is dropped. -/
theorem readBody_severed :
    (∃ book, ofSettings settings = .ok book) ∧
      readBody "utilities" "x" "a:b \x7d c \x7b d:e" = .ok [.declaration "a" "b" false none] ∧
      readUpToSpans Span.noFile (wrapBody "a:b \x7d c \x7b d:e")
        = .ok [.rule "&" [.declaration "a" "b" false none] true none,
          .rule "c" [.declaration "d" "e" false none] true none] := by
  have hbody : readBody "utilities" "x" "a:b \x7d c \x7b d:e" = .ok [.declaration "a" "b" false none] :=
    readBody_iff.2 ⟨_, readUpToSpans_eq, rfl⟩
  have hutilities : readBodies "utilities" settings.utilities
      = .ok [("x", [.declaration "a" "b" false none])] := by
    rw [readBodies, show settings.utilities.entries = [("x", "a:b \x7d c \x7b d:e")] from rfl]
    simp [hbody, pure, bind, Except.pure, Except.bind]
  refine ⟨?_, hbody, readUpToSpans_eq⟩
  rw [ofSettings, hutilities]
  exact ⟨_, rfl⟩

end RuleBook

end UtilityCss
