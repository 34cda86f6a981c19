import UtilityCss.Proofs.Heads
import UtilityCss.Proofs.KeyedWarnings
import UtilityCss.Proofs.Rendering

/-!
# What the fix of an old block replaces

The warning about an old block without parameters carries a fix.  What it replaces begins with the head of
the block and is as long as `@` and the name of the block.  The head can be longer: it may have comments in
it, and in front a blank that the reader does not drop.

* **Replacements** — `Replacement.make?` makes one in a text.
* **Old heads** — `OldHead`: where the head of an old block is written.  `OldHead.Plain` says that it is
  written as it is read, `slice_iff` and `make_iff` that the fix is right for those heads only.
* **The review** — `exists_oldHead` finds the head in the source, with what `Text.Gathered.spread`
  tells of a name without blanks.
-/

namespace UtilityCss

/-! ## Replacements -/

namespace Text

/-- Two ways to cut a text at an offset are the same. -/
lemma append_inj_of_byteLength {a b c d : List Char} (h : a ++ b = c ++ d)
    (hlength : byteLength a = byteLength c) : a = c ∧ b = d := by
  obtain ⟨back, rfl⟩ := exists_append_of_byteLength_le h hlength.le
  have hback : back = [] := by
    by_contra hne
    have hpos := byteLength_pos hne
    rw [byteLength_append] at hlength
    omega
  subst hback
  rw [List.append_nil, List.append_cancel_left_eq] at h
  exact ⟨(List.append_nil a).symm, h⟩

end Text

/-- The text with the replacement made, if there is anything that the span covers. -/
def Replacement.make? (r : Replacement) (text : List Char) : Option (List Char) :=
  if r.span.start ≤ r.span.stop then do
    let (front, after) ← Text.splitAtByte? r.span.stop text
    let (before, _) ← Text.splitAtByte? r.span.start front
    return before ++ (r.newText.toList ++ after)
  else none

namespace Replacement
variable {r : Replacement} {text result : List Char}

/-- A replacement that can be made has a text in front of its span, one under it and one behind. -/
lemma exists_of_make?_eq_some (h : r.make? text = some result) :
    ∃ before middle after, before ++ (middle ++ after) = text ∧
      Text.byteLength before = r.span.start ∧
      Text.byteLength before + Text.byteLength middle = r.span.stop ∧
      result = before ++ (r.newText.toList ++ after) := by
  rw [make?] at h
  split_ifs at h
  obtain ⟨⟨front, after⟩, hstop, h⟩ := Option.bind_eq_some_iff.1 h
  obtain ⟨⟨before, middle⟩, hstart, h⟩ := Option.bind_eq_some_iff.1 h
  obtain ⟨htext, hbefore, hmiddle⟩ := Text.splitAtByte?_splitAtByte? hstop hstart
  exact ⟨before, middle, after, htext, hbefore, hmiddle, (Option.some.inj h).symm⟩

/-- A replacement can be made where its span lies between characters. -/
lemma make?_append {before middle after : List Char} (hstart : r.span.start = Text.byteLength before)
    (hstop : r.span.stop = Text.byteLength before + Text.byteLength middle) :
    r.make? (before ++ (middle ++ after)) = some (before ++ (r.newText.toList ++ after)) := by
  have hwhole := splitAtByte?_append (before ++ middle) after
  have hfront := splitAtByte?_append before middle
  rw [byteLength_append, List.append_assoc] at hwhole
  rw [make?, hstart, hstop, if_pos (Nat.le_add_right _ _), hwhole]
  simp [hfront]

end Replacement

/-! ## Old heads -/

/-- The head of an old block, as it is written in a text: `@` and the name of the block, with comments in
between and with blanks and comments in front. -/
structure OldHead (text : List Char) (name : String) where
  before : List Char
  filler : List Char
  written : List Char
  after : List Char
  text_eq : before ++ (filler ++ (written ++ after)) = text
  filled : Text.Filler Text.isBlank filler
  strewn : Text.Strewn written ('@' :: name.toList)

namespace OldHead
variable {text : List Char} {name : String} (h : OldHead text name)

/-- The head is written as it is read. -/
def Plain : Prop :=
  h.filler = [] ∧ h.written = '@' :: name.toList

/-- What the fix replaces, and with what. -/
def replacement (file : Nat) : Replacement :=
  ⟨⟨file, Text.byteLength h.before,
    Text.byteLength h.before + Text.byteLength ('@' :: name.toList)⟩, "@layer utilities"⟩

/-- The text with another head, and the rest as it was. -/
def rewritten : List Char :=
  h.before ++ (h.filler ++ ("@layer utilities".toList ++ h.after))

lemma stop_le :
    Text.byteLength h.before + Text.byteLength ('@' :: name.toList) ≤ Text.byteLength text := by
  have hwritten := h.strewn.byteLength_le
  conv_rhs => rw [← h.text_eq]
  rw [byteLength_append, byteLength_append, byteLength_append]
  omega

/-- The head is plain if it stands in the text as it is spelled. -/
lemma text_eq_of_plain (hplain : h.Plain) :
    h.before ++ ('@' :: name.toList ++ h.after) = text := by
  obtain ⟨hfiller, hwritten⟩ := hplain
  have htext := h.text_eq
  rwa [hfiller, hwritten, List.nil_append] at htext

/-- Where the head begins at once, nothing is filled in. -/
lemma eq_nil_of_filler {filler rest : List Char} (hfilled : Text.Filler Text.isBlank filler)
    (hhead : (filler ++ rest).head? = some '@') : filler = [] := by
  cases hfilled with
  | nil => rfl
  | char hc hfilled =>
      obtain rfl := Option.some.inj hhead
      cases hc
  | comment hclosed hfilled => cases hhead

/-- The fix covers the name exactly if the head is plain. -/
lemma slice_iff (hslash : '/' ∉ '@' :: name.toList) (file : Nat) :
    Text.slice? (h.replacement file).span.start (h.replacement file).span.stop text
        = some ('@' :: name.toList) ↔ h.Plain := by
  constructor
  · intro hslice
    obtain ⟨before, after, htext, hbefore, -⟩ := Text.exists_of_slice?_eq_some hslice
    obtain ⟨rfl, hrest⟩ := Text.append_inj_of_byteLength (htext.trans h.text_eq.symm) hbefore
    have hfiller : h.filler = [] := eq_nil_of_filler h.filled (by rw [← hrest]; rfl)
    rw [hfiller, List.nil_append] at hrest
    exact ⟨hfiller, h.strewn.eq_of_prefix hslash ⟨after, hrest⟩⟩
  · intro hplain
    have hslice := slice?_append h.before ('@' :: name.toList) h.after
    rwa [h.text_eq_of_plain hplain] at hslice

/-- The fix exchanges the head and nothing else exactly if the head is plain. -/
lemma make_iff (file : Nat) :
    (h.replacement file).make? text = some h.rewritten ↔ h.Plain := by
  constructor
  · intro hmake
    obtain ⟨before, middle, after, htext, hbefore, hmiddle, hresult⟩ :=
      Replacement.exists_of_make?_eq_some hmake
    obtain ⟨rfl, hrest⟩ := Text.append_inj_of_byteLength (htext.trans h.text_eq.symm) hbefore
    rw [rewritten, List.append_cancel_left_eq] at hresult
    have hfiller : h.filler = [] := eq_nil_of_filler h.filled (by rw [hresult]; simp [replacement])
    rw [hfiller, List.nil_append, replacement, List.append_cancel_left_eq] at hresult
    rw [hfiller, List.nil_append, hresult, List.append_cancel_right_eq] at hrest
    subst hrest
    exact ⟨hfiller, h.strewn.eq_of_byteLength_eq (Nat.add_left_cancel hmiddle)⟩
  · intro hplain
    have hmake : (h.replacement file).make? (h.before ++ ('@' :: name.toList ++ h.after)) = _ :=
      Replacement.make?_append rfl rfl
    rw [h.text_eq_of_plain hplain] at hmake
    rw [rewritten, hplain.1]
    exact hmake

end OldHead

/-! ## The review -/

/-- Only blanks are trimmed to nothing. -/
lemma Text.blank_of_trim_eq_nil {cs : List Char} (h : trim cs = []) :
    ∀ c ∈ cs, isBlank c = true := by
  obtain ⟨before, after, hparts, hbefore, hafter⟩ := exists_trim cs
  rw [h, List.nil_append] at hparts
  rw [hparts, List.forall_mem_append]
  exact ⟨hbefore, hafter⟩

/-- An at-rule without parameters has `@` and its name for a selector. -/
lemma Node.eq_of_splitAtRule?_bare {cs : List Char} {name : String}
    (h : splitAtRule? (Text.trim cs) = some (name, "")) : Text.trim cs = '@' :: name.toList := by
  cases htrim : Text.trim cs with
  | nil =>
      rw [htrim] at h
      cases h
  | cons c rest =>
      obtain rfl : c = '@' := by
        by_contra hne
        rw [htrim, splitAtRule?] at h
        · cases h
        · exact fun rest h => hne (List.cons.inj h).1
      rw [htrim, splitAtRule?, Option.some.injEq, Prod.mk.injEq] at h
      obtain ⟨rfl, hparams⟩ := h
      have hrest : rest.takeWhile (fun c => !endsAtRuleName c) ++
          rest.dropWhile (fun c => !endsAtRuleName c) = rest := List.takeWhile_append_dropWhile
      generalize rest.takeWhile (fun c => !endsAtRuleName c) = name at hrest
      generalize rest.dropWhile (fun c => !endsAtRuleName c) = params at hrest hparams
      -- The blanks behind the name would have been trimmed.
      have hblank := Text.blank_of_trim_eq_nil (String.ofList_eq_empty_iff.1 hparams)
      have hshort : Text.trim cs = Text.trim ('@' :: name) := by
        rw [← Text.trim_trim, htrim, ← hrest, ← List.cons_append, Text.trim_append_of_blank _ hblank]
      have hle := Text.length_trim_le ('@' :: name)
      rw [← hshort, htrim, ← hrest, List.length_cons, List.length_cons, List.length_append] at hle
      obtain rfl : params = [] := List.eq_nil_of_length_eq_zero (by omega)
      rw [← hrest, List.append_nil, String.toList_ofList]

namespace Directive
variable {rule : AtRule}

/-- A warning carries a fix exactly if it is about a place in a source and the block has no parameters. -/
lemma isSome_deprecation_fix :
    (deprecation rule).fix.isSome = true ↔ rule.params = "" ∧ rule.place.file ≠ Span.noFile := by
  have hbare : (rule.params.isEmpty && !rule.place.isNowhere) = true ↔
      rule.params = "" ∧ rule.place.file ≠ Span.noFile := by
    simp [Span.isNowhere, String.isEmpty_iff]
  rw [← hbare, deprecation]
  split_ifs with h
  · exact iff_of_true rfl h
  · exact iff_of_false Bool.false_ne_true h

/-- There is one fix, and it covers as many bytes as the name has, from the start of the rule. -/
lemma eq_of_deprecation_fix {fix : Fix} (h : (deprecation rule).fix = some fix) :
    fix = ⟨"replace with `@layer utilities`",
      [⟨.ofRange rule.place.file rule.place.start (rule.place.start + 1 + rule.name.utf8ByteSize),
        "@layer utilities"⟩]⟩ := by
  rw [deprecation] at h
  split_ifs at h
  · exact (Option.some.inj h).symm
  · cases h

end Directive

/-- Small offsets are kept as they are. -/
lemma Span.ofRange_of_le {file start stop : Nat} (hle : start ≤ stop) (hstop : stop < offsetBound) :
    ofRange file start stop = ⟨file, start, stop⟩ := by
  rw [ofRange, Nat.mod_eq_of_lt hstop, Nat.mod_eq_of_lt (Nat.lt_of_le_of_lt hle hstop)]

/-- A name without blanks and quotes is written behind the place that its rule begins at. -/
lemma Text.HeadAt.oldHead {text : List Char} {start : Nat} {name selector : String}
    (h : HeadAt text start selector) (hbare : Node.splitAtRule? selector.toList = some (name, ""))
    (hname : ∀ c ∈ '@' :: name.toList, isBlank c = false ∧ c ≠ '\\' ∧ c ≠ '"' ∧ c ≠ '\'') :
    ∃ head : OldHead text name, byteLength head.before = start := by
  obtain ⟨before, written, after, owed, current, htext, hbefore, hgathered, rfl⟩ := h
  rw [String.toList_ofList] at hbare
  obtain ⟨lead, trail, hcurrent, hlead, htrail⟩ := exists_trim current.reverse
  rw [Node.eq_of_splitAtRule?_bare hbare] at hcurrent
  obtain ⟨front, middle, back, rfl, hfront, hmiddle, -, -⟩ :=
    hgathered.spread ⟨hcurrent, hlead, hname, htrail⟩
  refine ⟨⟨before, front, middle, back ++ after, ?_, hfront, hmiddle⟩, hbefore⟩
  rw [← htext, List.append_assoc, List.append_assoc]

section
variable {file : Nat} {text : String} (hsize : text.utf8ByteSize < Span.offsetBound)
  {nodes : List Node} (hread : readStylesheet file text = .ok nodes)
include hsize hread

/-- An at-rule of the source is a rule that begins where its head is written. -/
lemma exists_visit_of_mem_atRules {rule : Directive.AtRule} (hrule : rule ∈ Directive.atRules nodes) :
    ∃ depth selector children hasBlock,
      (depth, Node.rule selector children hasBlock (some rule.place)) ∈ Node.visitsAll 0 nodes ∧
      Node.splitAtRule? selector.toList = some (rule.name, rule.params) ∧
      rule.place.file = file ∧ Text.HeadAt text.toList rule.place.start selector := by
  obtain ⟨⟨depth, node⟩, hvisit, hfound⟩ := List.mem_filterMap.1 hrule
  obtain ⟨⟨name, params⟩, hat, rfl⟩ := Option.map_eq_some_iff.1 hfound
  cases node with
  | declaration property value important span => cases hat
  | comment text span => cases hat
  | rule selector children hasBlock span =>
      obtain ⟨s, rfl, hpointed⟩ := pointed_of_visit hsize hread hvisit
      obtain ⟨s', hs, hhead⟩ := headAt_of_visit hsize hread hvisit
      obtain rfl := Option.some.inj hs
      exact ⟨depth, selector, children, hasBlock, hvisit, hat, hpointed.file, hhead⟩

omit hread in
/-- The fix is where the head is written, and as long as the name. -/
lemma exists_oldHead {rule : Directive.AtRule} (hname : rule.name ∈ ["responsive", "variants"])
    (hfile : rule.place.file = file) {selector : String}
    (hat : Node.splitAtRule? selector.toList = some (rule.name, rule.params))
    (hhead : Text.HeadAt text.toList rule.place.start selector) {fix : Fix}
    (hfix : (Directive.deprecation rule).fix = some fix) :
    ∃ head : OldHead text.toList rule.name, Text.byteLength head.before = rule.place.start ∧
      fix = ⟨"replace with `@layer utilities`", [head.replacement file]⟩ := by
  have hbare := (Directive.isSome_deprecation_fix.1 (Option.isSome_of_eq_some hfix)).1
  have hplain : ∀ c ∈ '@' :: rule.name.toList,
      Text.isBlank c = false ∧ c ≠ '\\' ∧ c ≠ '"' ∧ c ≠ '\'' := by
    rcases List.mem_pair.1 hname with hrule | hrule <;> rw [hrule] <;>
      exact List.forall_iff_forall_mem.1 (by decide +kernel)
  rw [hbare] at hat
  obtain ⟨head, hbefore⟩ := hhead.oldHead hat hplain
  refine ⟨head, hbefore, ?_⟩
  have hstop := Nat.lt_of_le_of_lt head.stop_le ((byteLength_toList text).trans_lt hsize)
  have hlength : Text.byteLength ('@' :: rule.name.toList) = 1 + rule.name.utf8ByteSize := by
    rw [Text.byteLength, byteLength_toList]
    rfl
  rw [Directive.eq_of_deprecation_fix hfix, OldHead.replacement, Nat.add_assoc, ← hlength, ← hbefore,
    Span.ofRange_of_le (Nat.le_add_right _ _) hstop, hfile]

/-- **Where a fix is right.**  The review warns about old blocks of the source, and suggests a fix exactly for
those without parameters.  The fix replaces as many bytes as the name has, from where the head of the block
is written.  These bytes are the name exactly if the head is plain, and exactly then making the replacement
exchanges the head for `@layer utilities` and leaves the rest as it was. -/
theorem normalize_fix_iff_plain (sink : Sink) :
    sink.Gains (fun d => ∃ name ∈ ["responsive", "variants"], d.deprecates name = true ∧
      ∃ depth selector children hasBlock params,
        (depth, Node.rule selector children hasBlock (some d.span)) ∈ Node.visitsAll 0 nodes ∧
        Node.splitAtRule? selector.toList = some (name, params) ∧
        (d.fix.isSome = true ↔ params = "" ∧ file ≠ Span.noFile) ∧
        ∀ fix, d.fix = some fix → ∃ head : OldHead text.toList name,
          Text.byteLength head.before = d.span.start ∧
          fix = ⟨"replace with `@layer utilities`", [head.replacement file]⟩ ∧
          (Text.slice? (head.replacement file).span.start (head.replacement file).span.stop
            text.toList = some ('@' :: name.toList) ↔ head.Plain) ∧
          ((head.replacement file).make? text.toList = some head.rewritten ↔ head.Plain))
      (Directive.normalize nodes sink).2 := by
  refine Directive.gains_normalize (fun rule hrule hlegacy => ?_) sink
  have hname : rule.name ∈ ["responsive", "variants"] := by
    simpa [Directive.AtRule.isLegacy] using hlegacy
  have habout := ((Request.Issued.deprecation hlegacy).deprecates_iff rule.name).2 rfl
  obtain ⟨depth, selector, children, hasBlock, hvisit, hat, hfile, hhead⟩ :=
    exists_visit_of_mem_atRules hsize hread hrule
  have hsome := @Directive.isSome_deprecation_fix rule
  rw [hfile] at hsome
  refine ⟨rule.name, hname, habout, depth, selector, children, hasBlock, rule.params, ?_, hat, hsome,
    fun fix hfix => ?_⟩
  · rwa [Directive.deprecation_span]
  · obtain ⟨head, hbefore, hreplaced⟩ := exists_oldHead hsize hname hfile hat hhead hfix
    have hslash : '/' ∉ '@' :: rule.name.toList := by
      rcases List.mem_pair.1 hname with hrule | hrule <;> rw [hrule] <;> decide +kernel
    refine ⟨head, ?_, hreplaced, head.slice_iff hslash file, head.make_iff file⟩
    rw [Directive.deprecation_span, hbefore]

end

namespace SuggestedFixes

/-- What the fixes for an old name cover that the review suggests, each with the source that it makes. -/
def suggested (name text : String) : List (Option String × Option String) :=
  match readStylesheet 0 text with
  | .error _ => []
  | .ok nodes => ((Directive.normalize nodes .empty).2.held.filter (·.deprecates name)).flatMap fun d =>
      (d.fix.map Fix.replacements).toList.flatten.map fun r =>
        ((Text.slice? r.span.start r.span.stop text.toList).map String.ofList,
          (r.make? text.toList).map String.ofList)

/-- A plain head. -/
def plain : String := "@tailwind utilities;@variants\x7b\x7d"

def plainNodes : List Node :=
  [.rule "@tailwind utilities" [] false (some ⟨0, 0, 20⟩),
    .rule "@variants" [] true (some ⟨0, 20, 31⟩)]

end SuggestedFixes

open SuggestedFixes in
/-- The fix of a plain head. -/
theorem normalize_fix_iff_plain_block :
    plain.utf8ByteSize < Span.offsetBound ∧ readStylesheet 0 plain = .ok plainNodes ∧
      suggested "variants" plain
        = [(some "@variants", some "@tailwind utilities;@layer utilities\x7b\x7d")] ∧
      ∃ head : OldHead plain.toList "variants", head.Plain ∧
        (Directive.normalize plainNodes .empty).2.held.map Diagnostic.fix
          = [some ⟨"replace with `@layer utilities`", [head.replacement 0]⟩] := by
  have hsize : plain.utf8ByteSize < Span.offsetBound := by decide
  have hread : readStylesheet 0 plain = .ok plainNodes := by
    with_unfolding_all rfl
  refine ⟨hsize, hread, by decide +kernel, ?_⟩
  have hheld : (Directive.normalize plainNodes .empty).2.held
      = [Directive.deprecation ⟨"variants", "", some ⟨0, 20, 31⟩⟩] := by decide +kernel
  obtain ⟨new, hnew, hall⟩ := normalize_fix_iff_plain hsize hread .empty
  rw [hheld] at hnew ⊢
  obtain rfl : _ = new := hnew
  obtain ⟨name, hname, habout, depth, selector, children, hasBlock, params, -, -, -, hfixed⟩ :=
    hall _ List.mem_cons_self
  obtain ⟨head, -, hfix, hslice, -⟩ := hfixed _ rfl
  rcases List.mem_pair.1 hname with rfl | rfl
  · exact absurd habout (by decide +kernel)
  · refine ⟨head, hslice.1 ?_, congrArg (fun fix => [some fix]) hfix⟩
    have hspan : [Span.mk 0 20 29] = [(head.replacement 0).span] :=
      congrArg (fun fix : Fix => fix.replacements.map Replacement.span) hfix
    rw [← List.head_eq_of_cons_eq hspan]
    decide +kernel

open SuggestedFixes in
/-- A comment in the name, and a blank in front of the head that the reader does not drop.  The fix of the one
leaves a part of the name behind, and so does the fix of the other. -/
theorem normalize_fix_misplaced :
    suggested "variants" "@tailwind utilities;@vari/**/ants\x7b\x7d"
        = [(some "@vari/**/", some "@tailwind utilities;@layer utilitiesants\x7b\x7d")] ∧
      suggested "variants" "@tailwind utilities;\x0c@variants\x7b\x7d"
        = [(some "\x0c@variant", some "@tailwind utilities;@layer utilitiess\x7b\x7d")] :=
  ⟨by decide +kernel, by decide +kernel⟩

end UtilityCss
