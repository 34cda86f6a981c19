import Mathlib.Data.List.Infix
import UtilityCss.Proofs.Slices
import UtilityCss.Proofs.Tokens

/-!
# Texts without escapes, literals, comments and custom properties

In a *bare* text every character is a piece of its own, told by the character and the one behind it:
`Piece.ofChar`.

* **Reading** — `Reading.feed` goes over a text character by character, and `run_append_of_bare` says
  that the reader does so in a bare text, whatever stands behind it.
* **Collecting** — the text in front of a brace is what stands behind the last brace or semicolon,
  with every run of blanks as one: `squeeze` and `lastPart`.  `kept_ofChar` is the step that keeps the
  text being collected so.
-/

namespace UtilityCss

/-- A text without backslashes and quotes in which neither a comment nor a custom property begins. -/
structure Bare (cs : List Char) : Prop where
  escape : '\\' ∉ cs
  double : '"' ∉ cs
  single : '\'' ∉ cs
  comment : ¬ ['/', '*'] <:+: cs
  custom : ¬ ['-', '-'] <:+: cs

instance : DecidablePred Bare := fun cs =>
  decidable_of_iff ('\\' ∉ cs ∧ '"' ∉ cs ∧ '\'' ∉ cs ∧ ¬ ['/', '*'] <:+: cs ∧ ¬ ['-', '-'] <:+: cs)
    ⟨fun h => ⟨h.1, h.2.1, h.2.2.1, h.2.2.2.1, h.2.2.2.2⟩,
      fun h => ⟨h.escape, h.double, h.single, h.comment, h.custom⟩⟩

namespace Piece

/-- The piece that a character is in front of another, unless it begins a longer one. -/
def ofChar (c : Char) (next : Option Char) : Piece :=
  if isGap c && next.any isGap then .gap c
  else if c = '\n' then .newline
  else if c = ';' then .semicolon
  else if c = '{' then .opening
  else if c = '}' then .closing
  else .plain c

/-- In a bare text every character is a piece of its own. -/
lemma next_eq_ofChar {fresh : Bool} {c : Char} {rest : List Char} (hc : c ∉ ['\\', '"', '\''])
    (hcomment : c = '/' → rest.head? ≠ some '*')
    (hcustom : c = '-' → fresh = true → rest.head? ≠ some '-') :
    next fresh c rest = (ofChar c rest.head?, rest) := by
  simp only [List.mem_cons, List.not_mem_nil, or_false, not_or] at hc
  have hnocomment : ¬ (c = '/' && rest.head? == some '*') = true := by simpa using hcomment
  have hnoquote : ¬ (c = '"' || c = '\'') = true := by simp [hc]
  have hnocustom : ¬ (c = '-' && rest.head? == some '-' && fresh) = true := by
    intro h
    simp only [Bool.and_eq_true, decide_eq_true_eq, beq_iff_eq] at h
    exact hcustom h.1.1 h.2 h.1.2
  rw [next, if_neg hc.1, if_neg hnocomment, if_neg hnoquote, ofChar]
  by_cases hgap : (isGap c && rest.head?.any isGap) = true
  · rw [if_pos hgap, if_pos hgap]
  · rw [if_neg hgap, if_neg hgap, if_neg hnocustom]
    split_ifs <;> rfl

lemma source_ofChar (c : Char) (next : Option Char) : (ofChar c next).source = [c] := by
  unfold ofChar
  split_ifs with hgap hline hsemicolon hopening hclosing
  · rfl
  · rw [hline]; rfl
  · rw [hsemicolon]; rfl
  · rw [hopening]; rfl
  · rw [hclosing]; rfl
  · rfl

lemma width_ofChar (c : Char) (next : Option Char) : (ofChar c next).width = c.utf8Size := by
  rw [width, source_ofChar]
  exact Nat.add_zero _

/-- The piece of a character tells which character it was. -/
lemma eq_of_ofChar {c d : Char} {next : Option Char} {p : Piece} (h : ofChar c next = p)
    (hp : p.source = [d]) : c = d := by
  rw [← h, source_ofChar] at hp
  exact List.singleton_inj.1 hp

lemma ofChar_ne_comment (c : Char) (next : Option Char) :
    ∀ text closed, ofChar c next ≠ .comment text closed := by
  intro text closed
  unfold ofChar
  split_ifs <;> nofun

lemma ofChar_ne_custom (c : Char) (next : Option Char) :
    ∀ text ended, ofChar c next ≠ .custom text ended := by
  intro text ended
  unfold ofChar
  split_ifs <;> nofun

end Piece

/-! ## Character by character -/

namespace Bare
variable {c : Char} {cs : List Char} (h : Bare (c :: cs))
include h

lemma tail : Bare cs where
  escape hmem := h.escape (List.mem_cons_of_mem c hmem)
  double hmem := h.double (List.mem_cons_of_mem c hmem)
  single hmem := h.single (List.mem_cons_of_mem c hmem)
  comment hpair := h.comment (hpair.trans (List.suffix_cons c cs).isInfix)
  custom hpair := h.custom (hpair.trans (List.suffix_cons c cs).isInfix)

/-- The first character is a piece of its own, if what stands behind the text does not join it. -/
lemma next_append (fresh : Bool) {rest : List Char}
    (hcomment : cs = [] → c = '/' → rest.head? ≠ some '*')
    (hcustom : cs = [] → c = '-' → rest.head? ≠ some '-') :
    Piece.next fresh c (cs ++ rest) = (.ofChar c (cs.head?.or rest.head?), cs ++ rest) := by
  have hc : c ∉ ['\\', '"', '\''] := by
    simp only [List.mem_cons, List.not_mem_nil, or_false, not_or]
    refine ⟨?_, ?_, ?_⟩
    · rintro rfl; exact h.escape List.mem_cons_self
    · rintro rfl; exact h.double List.mem_cons_self
    · rintro rfl; exact h.single List.mem_cons_self
  rw [← List.head?_append]
  cases cs with
  | nil => exact Piece.next_eq_ofChar hc (hcomment rfl) fun hhyphen _ => hcustom rfl hhyphen
  | cons d cs =>
      refine Piece.next_eq_ofChar hc ?_ ?_
      · rintro rfl hstar
        obtain rfl := Option.some.inj hstar
        exact h.comment ⟨[], cs, rfl⟩
      · rintro rfl - hhyphen
        obtain rfl := Option.some.inj hhyphen
        exact h.custom ⟨[], cs, rfl⟩

end Bare

namespace Reading

/-- Reads a text character by character, in front of `next`. -/
def feed (next : Option Char) (r : Reading) : List Char → Except ReadError Reading
  | [] => .ok r
  | c :: cs =>
    match r.push (.ofChar c (cs.head?.or next)) with
    | .error e => .error e
    | .ok r' => r'.feed next cs

/-- Bare text makes no licence comment. -/
lemma licences_of_feed {next : Option Char} {r r' : Reading} {cs : List Char}
    (h : r.feed next cs = .ok r') : r'.licences = r.licences := by
  induction cs generalizing r with
  | nil =>
      obtain rfl := Except.ok.inj h
      rfl
  | cons c cs ih =>
      rw [feed] at h
      cases hpush : r.push (.ofChar c (cs.head?.or next)) with
      | error e => simp [hpush] at h
      | ok s =>
          rw [hpush] at h
          rw [ih h, licences_of_push_ne_comment hpush (Piece.ofChar_ne_comment _ _)]

/-- A bare text is read character by character, and then what stands behind it. -/
lemma run_append_of_bare {cs rest : List Char} (h : Bare cs)
    (hcomment : cs.getLast? = some '/' → rest.head? ≠ some '*')
    (hcustom : cs.getLast? = some '-' → rest.head? ≠ some '-') (r : Reading) :
    r.run (cs ++ rest) = (r.feed rest.head? cs).bind (·.run rest) := by
  induction cs generalizing r with
  | nil => rfl
  | cons c cs ih =>
      have hnext := h.next_append r.current.isEmpty (by rintro rfl rfl; exact hcomment rfl)
        (by rintro rfl rfl; exact hcustom rfl)
      have hlast : ∀ d, cs.getLast? = some d → (c :: cs).getLast? = some d := by
        intro d hd
        rw [List.getLast?_cons, hd]
        rfl
      rw [List.cons_append, Reading.run, hnext, feed]
      dsimp only
      cases r.push (.ofChar c (cs.head?.or rest.head?)) with
      | error e => rfl
      | ok r' => exact ih h.tail (fun hd => hcomment (hlast _ hd)) (fun hd => hcustom (hlast _ hd)) r'

/-- A bare text that nothing stands behind is read character by character. -/
lemma run_of_bare {cs : List Char} (h : Bare cs) (r : Reading) : r.run cs = r.feed none cs := by
  have hrun : r.run (cs ++ []) = (r.feed none cs).bind (·.run []) :=
    run_append_of_bare h (by simp) (by simp) r
  rw [List.append_nil] at hrun
  rw [hrun]
  cases r.feed none cs with
  | error e => rfl
  | ok r' =>
      show r'.run [] = .ok r'
      rw [run]

end Reading

/-! ## The text being collected -/

/-- A text in front of `next` in which every run of blanks is its last one, with a newline as a
space. -/
def squeeze (next : Option Char) : List Char → List Char
  | [] => []
  | c :: cs =>
    if isGap c && (cs.head?.or next).any isGap then squeeze next cs
    else (if c = '\n' then ' ' else c) :: squeeze next cs

/-- What stands behind the last brace or semicolon of a text. -/
def lastPart (cs : List Char) : List Char :=
  (cs.reverse.takeWhile (· ∉ ['{', '}', ';'])).reverse

/-- A text can be squeezed a part at a time, given what follows the first part. -/
lemma squeeze_append (next : Option Char) (a b : List Char) :
    squeeze next (a ++ b) = squeeze (b.head?.or next) a ++ squeeze next b := by
  induction a with
  | nil => rfl
  | cons c a ih =>
      rw [List.cons_append, squeeze, squeeze, List.head?_append, Option.or_assoc, ih]
      split_ifs <;> rfl

/-- Of what follows a text it only matters whether it is a blank. -/
lemma squeeze_congr (next next' : Option Char) (h : next.any isGap = next'.any isGap)
    (cs : List Char) : squeeze next cs = squeeze next' cs := by
  induction cs with
  | nil => rfl
  | cons c cs ih =>
      have hany : (cs.head?.or next).any isGap = (cs.head?.or next').any isGap := by
        cases cs with
        | nil => exact h
        | cons d cs => rfl
      rw [squeeze, squeeze, hany, ih]

/-- In front of a blank no blank is left at the end. -/
lemma not_isGap_of_getLast?_squeeze {next : Option Char} (hnext : next.any isGap = true)
    {cs : List Char} {d : Char} (hd : (squeeze next cs).getLast? = some d) : isGap d = false := by
  induction cs with
  | nil => cases hd
  | cons c cs ih =>
      rw [squeeze] at hd
      by_cases hgap : (isGap c && (cs.head?.or next).any isGap) = true
      · rw [if_pos hgap] at hd
        exact ih hd
      · rw [if_neg hgap] at hd
        cases hsqueeze : squeeze next cs with
        | cons e rest =>
            rw [hsqueeze, List.getLast?_cons_cons] at hd
            exact ih (hsqueeze ▸ hd)
        | nil =>
            -- All behind it was dropped, so a blank stands there.
            have hbehind : (cs.head?.or next).any isGap = true := by
              cases cs with
              | nil => exact hnext
              | cons e rest =>
                  rw [squeeze] at hsqueeze
                  split_ifs at hsqueeze with he
                  exact (Bool.and_eq_true_iff.1 he).1
            have hc : isGap c = false := by simpa [hbehind] using hgap
            have hline : c ≠ '\n' := by rintro rfl; cases hc
            rw [hsqueeze, if_neg hline] at hd
            rwa [← Option.some.inj hd]

/-- A brace or a semicolon begins a new part. -/
lemma lastPart_concat_of_mem {c : Char} (hc : c ∈ ['{', '}', ';']) (cs : List Char) :
    lastPart (cs ++ [c]) = [] := by
  rw [lastPart, List.reverse_append, List.reverse_singleton, List.singleton_append,
    List.takeWhile_cons_of_neg (by simp only [hc, not_true, decide_false, Bool.false_eq_true,
      not_false_eq_true])]
  rfl

lemma lastPart_concat_of_not_mem {c : Char} (hc : c ∉ ['{', '}', ';']) (cs : List Char) :
    lastPart (cs ++ [c]) = lastPart cs ++ [c] := by
  rw [lastPart, List.reverse_append, List.reverse_singleton, List.singleton_append,
    List.takeWhile_cons_of_pos (by simpa using hc), List.reverse_cons]
  rfl

/-- The text that is collected in front of `next`, behind the text `seen`. -/
def collected (next : Option Char) (seen : List Char) : List Char :=
  (squeeze next (lastPart seen)).dropWhile isGap

/-- The step: the text that was collected stays the one of the text seen. -/
lemma kept_ofChar (c : Char) (next : Option Char) (seen : List Char) :
    (Piece.ofChar c next).kept (collected (some c) seen).reverse
      = (collected next (seen ++ [c])).reverse := by
  by_cases hstop : c ∈ ['{', '}', ';']
  · rw [collected, collected, lastPart_concat_of_mem hstop]
    simp only [List.mem_cons, List.not_mem_nil, or_false] at hstop
    rcases hstop with rfl | rfl | rfl <;> rfl
  · have hpart : collected next (seen ++ [c]) = if (collected (some c) seen).isEmpty
        then (squeeze next [c]).dropWhile isGap
        else collected (some c) seen ++ squeeze next [c] := by
      rw [collected, lastPart_concat_of_not_mem hstop, squeeze_append, List.dropWhile_append]
      rfl
    have hlast : c = '\n' → ∀ d, (collected (some c) seen).getLast? = some d → isGap d = false := by
      rintro rfl d hd
      obtain ⟨front, hfront⟩ := List.dropWhile_suffix (l := squeeze (some '\n') (lastPart seen)) isGap
      have hend : (List.dropWhile isGap (squeeze (some '\n') (lastPart seen))).getLast? = some d := hd
      have hwhole : (squeeze (some '\n') (lastPart seen)).getLast? = some d := by
        rw [← hfront, List.getLast?_append, hend]
        rfl
      exact not_isGap_of_getLast?_squeeze rfl hwhole
    have hsingle : squeeze next [c] = if isGap c && next.any isGap then []
        else [if c = '\n' then ' ' else c] := rfl
    rw [hpart, hsingle]
    generalize collected (some c) seen = text at hlast
    simp only [List.mem_cons, List.not_mem_nil, or_false, not_or] at hstop
    rw [Piece.ofChar]
    by_cases hgap : (isGap c && next.any isGap) = true
    · rw [if_pos hgap, if_pos hgap]
      cases text with
      | nil => rfl
      | cons d text => simp [Piece.kept]
    · rw [if_neg hgap, if_neg hgap]
      by_cases hline : c = '\n'
      · rw [if_pos hline, if_pos hline]
        rcases List.eq_nil_or_concat' text with rfl | ⟨front, d, rfl⟩
        · rfl
        · have hd := hlast hline d (by simp)
          simp [Piece.kept, Piece.joinLine, hd]
      · rw [if_neg hline, if_neg hline, if_neg hstop.2.2, if_neg hstop.1, if_neg hstop.2.1]
        cases text with
        | nil => by_cases hblank : isGap c = true <;> simp [Piece.kept, hblank]
        | cons d text => simp [Piece.kept]

end UtilityCss
