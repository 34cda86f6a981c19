import UtilityCss.Proofs.BareTexts
import UtilityCss.Proofs.Lockstep

/-!
# Comments do not influence the tree

A comment behind a bare text may be any other comment, wherever it stands in a selector, a value or
between two hyphens, and a licence comment there adds itself in front of the forest and nothing else:
`readUpToSpans_comments`.

* **One comment** — `leads_comment`: it leaves the outline as it was, up to the licence it may be.
* **Two readers** — one has noted older licences that the other has not (`Outline.noticing`), and this
  is all they ever differ by.
-/

namespace UtilityCss

/-- What can stand in a comment that is no licence: no backslash, no closing mark, no `!` in front. -/
structure IsRemark (text : List Char) : Prop where
  escape : '\\' ∉ text
  closing : ¬ ['*', '/'] <:+: text
  plain : text.head? ≠ some '!'

instance : DecidablePred IsRemark := fun text =>
  decidable_of_iff ('\\' ∉ text ∧ ¬ ['*', '/'] <:+: text ∧ text.head? ≠ some '!')
    ⟨fun h => ⟨h.1, h.2.1, h.2.2⟩, fun h => ⟨h.escape, h.closing, h.plain⟩⟩

/-! ## Older licences -/

namespace Outline

/-- An outline with licences that were noted before all others, newest first. -/
def noticing (notices : List Node) (o : Outline) : Outline :=
  { o with licences := o.licences ++ notices }

lemma noticing_nil (o : Outline) : o.noticing [] = o := by
  rw [noticing, List.append_nil]

/-- Licence comments do not get in the way of other nodes. -/
lemma attach_noticing (notices : List Node) (o : Outline) (node : Node) :
    (o.noticing notices).attach node = (o.attach node).noticing notices := by
  unfold attach noticing
  cases o.opened <;> rfl

lemma leave_noticing (notices : List Node) (o : Outline) :
    (o.noticing notices).leave = o.leave.noticing notices := by
  unfold leave
  cases hopened : o.opened with
  | nil => simp [noticing, hopened]
  | cons rule outer =>
      simp only [noticing, hopened]
      exact attach_noticing notices { o with opened := outer } _

/-- A text is read with licence comments at hand as it is without them. -/
lemma lockstep_noticing (notices : List Node) :
    Lockstep fun o o' => o' = o.noticing notices where
  current := by rintro o _ rfl; rfl
  selectors := by rintro o _ rfl; rfl
  withCurrent := by rintro o _ rfl current; rfl
  withLicence := by rintro o _ rfl node; rfl
  attach := by rintro o _ rfl node; exact attach_noticing notices o node
  enter := by rintro o _ rfl selector; rfl
  leave := by rintro o _ rfl; exact leave_noticing notices o

/-- In the end they stand in front. -/
lemma finish_noticing (notices : List Node) (o : Outline) :
    (o.noticing notices).finish = o.finish.map (notices.reverse ++ ·) := by
  unfold finish noticing
  cases o.opened with
  | nil => simp [Except.map]
  | cons rule outer => rfl

end Outline

/-- Two readers that differ by older licences go on to forests that differ by them. -/
lemma read_noticing {notices : List Node} {r r' : Reading} (h : r'.outline = r.outline.noticing notices)
    (cs : List Char) :
    (((r'.run cs).bind Reading.finish).map Node.clearSpansAll).mapError ReadError.clearSpan
      = ((((r.run cs).bind Reading.finish).map Node.clearSpansAll).mapError ReadError.clearSpan).map
          (notices.reverse ++ ·) := by
  have hagree := (Outline.lockstep_noticing notices).run h cs
  generalize r.run cs = result, r'.run cs = result' at hagree ⊢
  cases hagree with
  | error he => exact congrArg Except.error he
  | @ok s s' hs =>
      show (s'.finish.map _).mapError _ = ((s.finish.map _).mapError _).map _
      rw [finish_upToSpans, finish_upToSpans, hs, Outline.finish_noticing]

/-! ## One comment -/

/-- The licence that a comment is, if it is one. -/
def noticesOf (text : List Char) : List Node :=
  if text.head? = some '!' then [.comment (String.ofList text) none] else []

/-- A comment is noted if it is a licence, and otherwise leaves everything as it was. -/
lemma leads_comment {o : Outline} (ho : o.licences = []) {text : List Char} (hslash : '\\' ∉ text)
    (hend : ¬ ['*', '/'] <:+: text) (rest : List Char) :
    Leads o ('/' :: '*' :: (text ++ '*' :: '/' :: rest)) (o.noticing (noticesOf text)) rest := by
  have hbody := Piece.commentBody_closed hslash hend rest
  rw [noticesOf]
  split_ifs with hhead
  · rw [Outline.noticing, ho, List.nil_append]
    have hleads := leads_notice o hhead hbody
    rwa [ho] at hleads
  · rw [Outline.noticing_nil]
    refine Leads.of_push (p := .comment text true) (by simp [Piece.next, hbody]) fun r hr => ?_
    refine ⟨_, rfl, ?_⟩
    rw [Reading.outline_advance, Reading.pushComment, if_neg (by simpa using hhead), hr]

/-- A comment behind a bare text, against the empty comment. -/
lemma readUpToSpans_comment (file : Nat) {a : String} (ha : Bare a.toList) {text : String}
    (hslash : '\\' ∉ text.toList) (hend : ¬ ['*', '/'] <:+: text.toList) (b : String) :
    readUpToSpans file (a ++ "/*" ++ text ++ "*/" ++ b)
      = (readUpToSpans file (a ++ "/**/" ++ b)).map ((noticesOf text.toList).reverse ++ ·) := by
  have hrun : ∀ rest, ({ file : Reading }).run (a.toList ++ '/' :: rest)
      = (({ file : Reading }).feed (some '/') a.toList).bind (·.run ('/' :: rest)) := fun rest =>
    Reading.run_append_of_bare ha (by simp) (by simp) _
  have htext : (a ++ "/*" ++ text ++ "*/" ++ b).toList
      = a.toList ++ '/' :: '*' :: (text.toList ++ '*' :: '/' :: b.toList) := by simp
  have hempty : (a ++ "/**/" ++ b).toList
      = a.toList ++ '/' :: '*' :: ([] ++ '*' :: '/' :: b.toList) := by simp
  cases hfeed : ({ file : Reading }).feed (some '/') a.toList with
  | error e =>
      rw [readUpToSpans, readUpToSpans, readStylesheet, readStylesheet, htext, hempty, hrun, hrun,
        hfeed]
      rfl
  | ok r =>
      have hlicences : r.outline.licences = [] := by
        simp [Reading.outline, Reading.licences_of_feed hfeed]
      obtain ⟨s, hs, hsrun⟩ := leads_comment hlicences List.not_mem_nil (by simp) b.toList r rfl
      obtain ⟨s', hs', hsrun'⟩ := leads_comment hlicences hslash hend b.toList r rfl
      have hplain : ({ file : Reading }).run (a ++ "/**/" ++ b).toList = s.run b.toList := by
        rw [hempty, hrun, hfeed, ← hsrun]
        rfl
      have hcomment : ({ file : Reading }).run (a ++ "/*" ++ text ++ "*/" ++ b).toList
          = s'.run b.toList := by
        rw [htext, hrun, hfeed, ← hsrun']
        rfl
      rw [readUpToSpans_of_run file _ hplain, readUpToSpans_of_run file _ hcomment]
      refine read_noticing ?_ b.toList
      rw [hs', hs, show noticesOf [] = [] from rfl, Outline.noticing_nil]

/-- **Comments never influence the tree.**  Behind a bare text and in front of any text, a comment may
be any other one that is no licence: reading gives the same error or the same forest, up to spans.  If it
is made a licence by a `!` in front, the forest has it in front and is the same otherwise. -/
theorem readUpToSpans_comments (file : Nat) {a x y : String} (ha : Bare a.toList)
    (hx : IsRemark x.toList) (hy : IsRemark y.toList) (b : String) :
    readUpToSpans file (a ++ "/*" ++ x ++ "*/" ++ b)
        = readUpToSpans file (a ++ "/*" ++ y ++ "*/" ++ b) ∧
      readUpToSpans file (a ++ "/*!" ++ x ++ "*/" ++ b)
        = (readUpToSpans file (a ++ "/*" ++ x ++ "*/" ++ b)).map (.comment ("!" ++ x) none :: ·) := by
  have hremark : ∀ {text : String}, IsRemark text.toList →
      readUpToSpans file (a ++ "/*" ++ text ++ "*/" ++ b) = readUpToSpans file (a ++ "/**/" ++ b) := by
    intro text htext
    rw [readUpToSpans_comment file ha htext.escape htext.closing b, noticesOf, if_neg htext.plain]
    cases readUpToSpans file (a ++ "/**/" ++ b) <;> rfl
  refine ⟨(hremark hx).trans (hremark hy).symm, ?_⟩
  have hlicence : a ++ "/*!" ++ x ++ "*/" ++ b = a ++ "/*" ++ ("!" ++ x) ++ "*/" ++ b := by
    rw [← String.toList_inj]
    simp
  have htoList : ("!" ++ x).toList = '!' :: x.toList := by simp
  have hslash : '\\' ∉ ("!" ++ x).toList := by simpa using hx.escape
  have hend : ¬ ['*', '/'] <:+: ("!" ++ x).toList := by
    rw [htoList, List.infix_cons_iff]
    simpa using hx.closing
  rw [hlicence, readUpToSpans_comment file ha hslash hend b, hremark hx, noticesOf,
    if_pos (by rw [htoList]; rfl), String.ofList_toList]
  rfl

/-- Between two hyphens of a value, with a brace, a quote and a semicolon in the comment. -/
theorem readUpToSpans_comments_hyphens :
    Bare ".a\x7bb:c -".toList ∧ IsRemark "\x7d\";".toList ∧ IsRemark "*".toList ∧
      readUpToSpans 1 (".a\x7bb:c -" ++ "/*" ++ "\x7d\";" ++ "*/" ++ "-d\x7d")
        = .ok [.rule ".a" [.declaration "b" "c --d" false none] true none] ∧
      readUpToSpans 1 (".a\x7bb:c -" ++ "/*!" ++ "\x7d\";" ++ "*/" ++ "-d\x7d")
        = .ok [.comment "!\x7d\";" none,
          .rule ".a" [.declaration "b" "c --d" false none] true none] := by
  have ha : Bare ".a\x7bb:c -".toList := by
    rw [show ".a\x7bb:c -".toList = ['.', 'a', '{', 'b', ':', 'c', ' ', '-'] by decide]
    decide
  have hx : IsRemark "\x7d\";".toList := by
    rw [show "\x7d\";".toList = ['}', '"', ';'] by decide]
    decide
  have hy : IsRemark "*".toList := by
    rw [show "*".toList = ['*'] by decide]
    decide
  have hstar : readStylesheet 1 ".a\x7bb:c -/***/-d\x7d" = .ok [.rule ".a"
      [.declaration "b" "c --d" false (some ⟨1, 3, 15⟩)] true (some ⟨1, 0, 16⟩)] := by
    with_unfolding_all rfl
  have hplain : readUpToSpans 1 (".a\x7bb:c -" ++ "/*" ++ "*" ++ "*/" ++ "-d\x7d")
      = .ok [.rule ".a" [.declaration "b" "c --d" false none] true none] := by
    rw [show ".a\x7bb:c -" ++ "/*" ++ "*" ++ "*/" ++ "-d\x7d" = ".a\x7bb:c -/***/-d\x7d" by decide,
      readUpToSpans, hstar]
    rfl
  obtain ⟨hsame, hlicence⟩ := readUpToSpans_comments 1 ha hx hy "-d\x7d"
  refine ⟨ha, hx, hy, hsame.trans hplain, ?_⟩
  rw [hlicence, hsame, hplain]
  rfl

end UtilityCss
