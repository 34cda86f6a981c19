import UtilityCss.Diagnostic.Render
import UtilityCss.Proofs.FailedBuilds
import UtilityCss.Proofs.Lineage
import UtilityCss.Proofs.LineLookup
import UtilityCss.Proofs.Visible

/-!
# Every diagnostic of a build can be shown

A diagnostic is shown with a line of its source, or without one if it has no place in a known source.

* **Showing** — `Shown` says how it looks in both cases; `Underlined` is what makes the arithmetic of an
  underlined line sound: the ends of the span are in order, its columns can be counted, and the carets
  stay under the line.  A span that begins at a visible place is enough for all of it
  (`Shown.of_pointed`), since then something of the line is left to put a caret under.
* **Emitting** — `Sink.Gains`: a sink only grows, by diagnostics with some property.
* **Stages** — the reader, the review of directives and the merge only speak of rules and errors of the
  source, or of no place at all (`Aimed`).
* **Builds** — `compile_diagnostics_shown`.
-/

namespace UtilityCss

open Text (byteLength LineAt VisibleAt)

/-! ## Showing -/

/-- The column of an offset can be counted: the line found for it does not start behind it, and the column
is a 32-bit word. -/
def SourceText.HasColumn (source : SourceText) (offset : Nat) : Prop :=
  source.lineStarts.getD ((source.lineCol offset).1 - 1) 0 ≤ offset ∧ offset + 1 < Span.offsetBound

namespace Diagnostic

/-- What is said under the source line. -/
def caption (d : Diagnostic) : String :=
  match d.labels.head? with
  | some label => " " ++ label.message
  | none => ""

/-- How many bytes of a line are underlined. -/
def carets (d : Diagnostic) {content : List Char} (line : LineAt content d.span.start) : Nat :=
  max 1 (min (d.span.stop - d.span.start) (byteLength line.right))

/-- The place of a diagnostic and its source line, underlined. -/
def frame (coloured : Bool) (d : Diagnostic) (path : String) {content : List Char}
    (line : LineAt content d.span.start) : String :=
  let number := toString line.number
  let margin := repeated ' ' number.length
  "  --> " ++ (path ++ ":" ++ number ++ ":" ++ toString line.column) ++ "\n" ++
    margin ++ " |\n" ++
    number ++ " | " ++ String.ofList line.body ++ "\n" ++
    margin ++ " | " ++ repeated ' ' (byteLength line.left) ++
    paint coloured d.severity (repeated '^' (d.carets line)) ++ d.caption ++ "\n"

/-- The diagnostic is shown with the line of a source that its span begins in. -/
structure Underlined (coloured : Bool) (lib : Library) (d : Diagnostic) (source : SourceText)
    (line : LineAt source.content.toList d.span.start) : Prop where
  known : lib.get? d.span.file = some source
  inOrder : d.span.start ≤ d.span.stop
  first : source.HasColumn d.span.start
  last : source.HasColumn (max (d.span.stop - 1) d.span.start)
  carets_pos : 1 ≤ d.carets line
  carets_le : byteLength line.left + d.carets line ≤ byteLength line.body
  rendered : d.render? coloured lib
    = some (d.header coloured ++ d.frame coloured source.path line ++ d.remarks)

/-- How a diagnostic is shown: without a place if its source is not known, and otherwise with a line. -/
inductive Shown (coloured : Bool) (lib : Library) (d : Diagnostic) : Prop
  | bare (hunknown : lib.get? d.span.file = none)
      (hrendered : d.render? coloured lib = some (d.header coloured ++ d.remarks))
  | underlined {source : SourceText} (line : LineAt source.content.toList d.span.start)
      (h : d.Underlined coloured lib source line)

/-! ## Spans that begin at a visible place -/

/-- Of a line something is left at a visible place. -/
lemma right_ne_nil {content : List Char} {offset : Nat} (h : VisibleAt content offset)
    (line : LineAt content offset) : line.right ≠ [] := by
  obtain ⟨before, c, after, htext, hlength, hc⟩ := h
  have hsplit := splitAtByte?_append before (c :: after)
  have hline := splitAtByte?_append (line.above ++ line.left) (line.right ++ line.below)
  rw [htext, hlength] at hsplit
  rw [line.parts, line.length, hsplit] at hline
  have hrest := (Prod.mk.inj (Option.some.inj hline)).2
  intro hnil
  rw [hnil, List.nil_append] at hrest
  have hnewline := line.below_head c (by rw [← hrest]; rfl)
  rw [hnewline] at hc
  exact absurd hc (by decide)

section
variable {lib : Library} {file : Nat} {path text : String}

/-- The excerpt of a diagnostic whose span lies in a known source. -/
lemma excerpt?_eq (coloured : Bool) {d : Diagnostic}
    (hknown : lib.get? d.span.file = some (.make path text)) (hle : d.span.start ≤ d.span.stop)
    (hstop : d.span.stop < Span.offsetBound)
    (line : LineAt (SourceText.make path text).content.toList d.span.start)
    (hright : 0 < byteLength line.right) (hstart : d.span.start + 1 < Span.offsetBound) :
    excerpt? coloured lib d = some (d.frame coloured path line) := by
  have hcol := SourceText.lineCol_eq line hstart
  have hplace : lib.place? d.span = some ⟨path, (line.number, line.column),
      (SourceText.make path text).lineCol (max (d.span.stop - 1) d.span.start)⟩ := by
    rw [Library.place?, hknown, ← hcol]
    rfl
  have hlength : d.span.length = d.span.stop - d.span.start := by
    rw [Span.length, Nat.add_comm, Nat.add_sub_assoc hle, Nat.add_mod_left,
      Nat.mod_eq_of_lt (Nat.lt_of_le_of_lt (Nat.sub_le _ _) hstop)]
  have hcarets : caretCount (String.ofList line.body).utf8ByteSize line.column d.span.length
      = d.carets line := by
    rw [caretCount, carets, ← byteLength_toList, String.toList_ofList, line.length_body, hlength,
      LineAt.column, Nat.add_sub_cancel, Nat.add_sub_cancel_left, Nat.max_eq_left hright]
  rw [excerpt?, hknown, hplace]
  simp only [hcol, SourceText.lineText?_eq line, hcarets, Option.bind_eq_bind, Option.bind_some,
    Option.pure_def]
  rfl

/-- What is known of a span that begins at a visible place is all that showing it takes. -/
lemma underlined_of_pointed (hsource : lib.get? file = some (.make path text))
    (hsize : text.utf8ByteSize < Span.offsetBound) {d : Diagnostic}
    (h : d.span.Pointed file (SourceText.make path text).content.toList) (coloured : Bool)
    (line : LineAt (SourceText.make path text).content.toList d.span.start) :
    d.Underlined coloured lib (.make path text) line := by
  have hknown : lib.get? d.span.file = some (.make path text) := by rw [h.file, hsource]
  obtain ⟨hle, -, hstop⟩ := Text.slice?_isSome_iff.1 h.slice
  have hright := byteLength_pos (right_ne_nil h.visible line)
  -- Where the span ends and where its line ends, in bytes.
  have hstop_lt : d.span.stop < Span.offsetBound := by
    have hcontent := SourceText.content_size_le path text
    have := hstop.le
    rw [byteLength_toList] at this
    omega
  have hstart_lt : d.span.start + byteLength line.right < Span.offsetBound := by
    have hcontent := SourceText.content_size_le path text
    have hparts := congrArg byteLength line.parts
    rw [byteLength_append, line.length, byteLength_append, byteLength_toList] at hparts
    omega
  refine ⟨hknown, hle, ⟨SourceText.lineStart_le _ _ _, by omega⟩,
    ⟨SourceText.lineStart_le _ _ _, by omega⟩, Nat.le_max_left _ _, ?_, ?_⟩
  · rw [line.length_body, carets]
    omega
  · rw [render?, excerpt?_eq coloured hknown hle hstop_lt line hright (by omega)]
    rfl

/-- A span that begins at a visible place of a source can be shown. -/
theorem Shown.of_pointed (hsource : lib.get? file = some (.make path text))
    (hsize : text.utf8ByteSize < Span.offsetBound) {d : Diagnostic}
    (h : d.span.Pointed file (SourceText.make path text).content.toList) (coloured : Bool) :
    d.Shown coloured lib := by
  obtain ⟨line⟩ := (Text.slice?_isSome_iff.1 h.slice).2.1.exists_line
  exact .underlined line (underlined_of_pointed hsource hsize h coloured line)

/-- Without a source there is nothing to underline. -/
lemma Shown.of_unknown {d : Diagnostic} (h : lib.get? d.span.file = none) (coloured : Bool) :
    d.Shown coloured lib := by
  refine .bare h ?_
  rw [render?, excerpt?, h]
  simp

end

end Diagnostic

/-! ## Emitting -/

namespace Sink

/-- A sink holds what it held, and behind it new diagnostics, all with the property. -/
def Gains (P : Diagnostic → Prop) (s s' : Sink) : Prop :=
  ∃ new, s'.held = s.held ++ new ∧ ∀ d ∈ new, P d

namespace Gains
variable {P : Diagnostic → Prop}

lemma refl (s : Sink) : Gains P s s :=
  ⟨[], (List.append_nil _).symm, nofun⟩

/-- What is gained in two steps is gained. -/
lemma trans {a b c : Sink} (hab : Gains P a b) (hbc : Gains P b c) : Gains P a c := by
  obtain ⟨new, hnew, hall⟩ := hab
  obtain ⟨more, hmore, hall'⟩ := hbc
  refine ⟨new ++ more, by rw [hmore, hnew, List.append_assoc], fun d hd => ?_⟩
  exact (List.mem_append.1 hd).elim (hall d) (hall' d)

/-- What is gained is also gained in a wider sense. -/
lemma mono {Q : Diagnostic → Prop} (himp : ∀ d, P d → Q d) {s s' : Sink} (h : Gains P s s') :
    Gains Q s s' := by
  obtain ⟨new, hnew, hall⟩ := h
  exact ⟨new, hnew, fun d hd => himp d (hall d hd)⟩

/-- One diagnostic is gained, or none. -/
lemma emitOnce {d : Diagnostic} (h : P d) (s : Sink) (key : String) : Gains P s (s.emitOnce key d) := by
  rw [Sink.emitOnce]
  split_ifs
  · exact .refl s
  · exact ⟨[d], rfl, fun d' hd => List.mem_singleton.1 hd ▸ h⟩

end Gains

end Sink

/-! ## Stages -/

/-- The diagnostic is about a visible place of the text, or about no place. -/
def Diagnostic.Aimed (file : Nat) (text : List Char) (d : Diagnostic) : Prop :=
  d.span = .nowhere ∨ d.span.Pointed file text

namespace Directive

/-! ### The review -/

section
variable {P : Diagnostic → Prop} {nodes : List Node}

/-- The review warns about old blocks of the document only. -/
lemma gains_normalize
    (hrules : ∀ rule ∈ atRules nodes, rule.isLegacy = true → P (deprecation rule)) (sink : Sink) :
    sink.Gains P (normalize nodes sink).2 := by
  have hfold : ∀ rules : List AtRule, (∀ rule ∈ rules, rule ∈ atRules nodes) → ∀ sink : Sink,
      sink.Gains P (rules.foldl warn sink) := by
    intro rules hmem
    induction rules with
    | nil => exact fun sink => .refl sink
    | cons rule rest ih =>
        rw [List.forall_mem_cons] at hmem
        intro sink
        have hwarn : sink.Gains P (warn sink rule) := by
          rw [warn]
          split_ifs with hlegacy
          · exact .emitOnce (hrules rule hmem.1 hlegacy) sink _
          · exact .refl sink
        exact hwarn.trans (ih hmem.2 (warn sink rule))
  exact hfold _ (fun rule hrule => hrule) sink

/-- An error of the review is about an at-rule of the document. -/
lemma of_normalize_eq_error (hrules : ∀ rule ∈ atRules nodes,
    ∀ d : Diagnostic, d.span = rule.place → P d) {sink : Sink} {e : DirectiveError}
    (h : (normalize nodes sink).1 = .error e) : P e.diagnostic := by
  simp only [normalize, review] at h
  cases hfirst : firstError? (registryOf (atRules nodes)) (atRules nodes) with
  | none =>
      rw [hfirst] at h
      cases h
  | some e' =>
      rw [hfirst] at h
      obtain rfl := Except.error.inj h
      rw [firstError?] at hfirst
      split_ifs at hfirst
      obtain ⟨rule, hrule, herror⟩ := List.exists_of_findSome?_eq_some hfirst
      refine hrules rule hrule _ ?_
      rw [blockError?] at herror
      split_ifs at herror <;> obtain rfl := Option.some.inj herror <;> rfl

end

/-! ### The merge -/

section
variable {P : Diagnostic → Prop} {document : List Node} (hdirectives : ∀ e ∈ directives document,
  ∀ d : Diagnostic, d.span = e.2.getD .nowhere → P d)
include hdirectives

/-- The merge warns about directives of the document only. -/
lemma gains_warnIfEmpty (sheet : Sheet) (sink : Sink) :
    sink.Gains P (warnIfEmpty document sheet sink) := by
  rw [warnIfEmpty]
  split_ifs
  · exact .refl sink
  · cases hsite : (Sites.find (withoutBlocks document)).get? .utilities with
    | none =>
        simp only [hsite]
        exact .refl sink
    | some site =>
        simp only [hsite]
        split_ifs
        · exact .emitOnce (hdirectives _ (mem_directives_of_get? hsite) _ (noUtilities_span _)) sink _
        · exact .refl sink

end

end Directive

section
variable {file : Nat} {text : String} (hsize : text.utf8ByteSize < Span.offsetBound)
  {nodes : List Node} (hread : readStylesheet file text = .ok nodes)
include hsize hread

/-- At-rules point at the source. -/
lemma aimed_of_mem_atRules {rule : Directive.AtRule} (hrule : rule ∈ Directive.atRules nodes)
    {d : Diagnostic} (hd : d.span = rule.place) : d.Aimed file text.toList := by
  obtain ⟨⟨depth, node⟩, hvisit, hfound⟩ := List.mem_filterMap.1 hrule
  obtain ⟨⟨name, params⟩, hat, rfl⟩ := Option.map_eq_some_iff.1 hfound
  cases node with
  | rule selector children hasBlock span =>
      obtain ⟨s, rfl, hpointed⟩ := pointed_of_visit hsize hread hvisit
      exact Or.inr (hd ▸ hpointed)
  | declaration property value important span => cases hat
  | comment text span => cases hat

/-- Respelled or not, directives point at the source. -/
lemma aimed_of_mem_directives {e : Layer × Option Span}
    (he : e ∈ Directive.directives (Directive.modernizeAll nodes)) {d : Diagnostic}
    (hd : d.span = e.2.getD .nowhere) : d.Aimed file text.toList := by
  rw [Directive.directives_modernizeAll] at he
  obtain ⟨⟨depth, node⟩, hvisit, hdirective⟩ := List.mem_filterMap.1 he
  cases node with
  | rule selector children hasBlock span =>
      rw [Directive.span_of_directive? hdirective] at hd
      obtain ⟨s, rfl, hpointed⟩ := pointed_of_visit hsize hread hvisit
      exact Or.inr (hd ▸ hpointed)
  | declaration property value important span => cases hdirective
  | comment text span => cases hdirective

end

/-- An expansion emits nothing but what points at a directive. -/
lemma gains_expand {P : Diagnostic → Prop} {document : List Node}
    (hdirectives : ∀ e ∈ Directive.directives document,
      ∀ d : Diagnostic, d.span = e.2.getD .nowhere → P d)
    (ws : Workspace) (p : Pipeline) (state : BuildState) :
    state.sink.Gains P (expand ws p document state).2.sink := by
  rw [expand]
  split_ifs
  · exact .refl _
  · cases hcollect : state.session.collect ws p with
    | mk result session =>
        cases result with
        | error e => exact .refl _
        | ok found => exact Directive.gains_warnIfEmpty hdirectives _ state.sink

/-! ## Builds -/

section
variable {lib : Library} {file : Nat} {source : SourceText}

/-- All that a build has to say is about the source it builds, or about no place. -/
lemma aimed_of_compile (ws : Workspace) (hsource : lib.get? file = some source)
    (hsize : source.content.utf8ByteSize < Span.offsetBound) (p : Pipeline) (state : BuildState) :
    state.sink.Gains (Diagnostic.Aimed file source.content.toList) (compile ws lib p file state).2.sink ∧
      ∀ e, (compile ws lib p file state).1 = .error e →
        e.diagnostic.Aimed file source.content.toList := by
  cases hread : readStylesheet file source.content with
  | error e =>
      have hcompile : compile ws lib p file state = (.error (.read e), state) := by
        simp only [compile, hsource, hread]
      rw [hcompile]
      refine ⟨.refl _, fun e' he => ?_⟩
      obtain rfl := Except.error.inj he
      exact Or.inr (pointed_of_error hsize hread)
  | ok nodes =>
      have hreview := Directive.gains_normalize
        (fun rule hrule _ => aimed_of_mem_atRules hsize hread hrule (Directive.deprecation_span rule))
        state.sink
      rw [compile_of_read hsource hread]
      cases hnormalize : (Directive.normalize nodes state.sink).1 with
      | error e =>
          refine ⟨hreview, fun e' he => ?_⟩
          obtain rfl := Except.error.inj he
          exact Directive.of_normalize_eq_error
            (fun rule hrule d => aimed_of_mem_atRules hsize hread hrule) hnormalize
      | ok found =>
          obtain ⟨registry, document⟩ := found
          obtain ⟨-, -, rfl⟩ := Directive.of_normalize_eq_ok hnormalize
          refine ⟨hreview.trans (gains_expand
            (fun e he d => aimed_of_mem_directives hsize hread he) ws p _), fun e he => ?_⟩
          -- What fails behind the review is the scan, which has no place in the source.
          left
          cases hexpand : (expand ws p (Directive.modernizeAll nodes)
              { state with sink := (Directive.normalize nodes state.sink).2 }).1 with
          | ok result => simp only [hexpand, Except.mapError, reduceCtorEq] at he
          | error e' =>
              simp only [hexpand, Except.mapError, Except.error.injEq] at he
              rw [← he]
              rfl

/-- What is about the source, or about no place, can be shown. -/
lemma Diagnostic.Aimed.shown {path text : String} {d : Diagnostic}
    (h : d.Aimed file (SourceText.make path text).content.toList)
    (hnowhere : lib.get? Span.noFile = none) (hsource : lib.get? file = some (.make path text))
    (hsize : text.utf8ByteSize < Span.offsetBound) (coloured : Bool) : d.Shown coloured lib := by
  rcases h with hspan | hpointed
  · exact .of_unknown (by rw [hspan]; exact hnowhere) coloured
  · exact .of_pointed hsource hsize hpointed coloured

/-- **Every diagnostic of a build can be shown.**  Whatever the content and the rules are, what a build of a
source shorter than `Span.offsetBound` emits, and what it fails with, is shown without a place or with a
line of the source: the line that the span begins in, underlined by at least one caret and not past its
end.  The library has not issued `Span.noFile`, the number that stands for no source. -/
theorem compile_diagnostics_shown (ws : Workspace) (hnowhere : lib.get? Span.noFile = none)
    {path text : String} (hsource : lib.get? file = some (.make path text))
    (hsize : text.utf8ByteSize < Span.offsetBound) (p : Pipeline) (state : BuildState)
    (coloured : Bool) :
    state.sink.Gains (Diagnostic.Shown coloured lib) (compile ws lib p file state).2.sink ∧
      ∀ e, (compile ws lib p file state).1 = .error e → e.diagnostic.Shown coloured lib := by
  have hcontent := Nat.lt_of_le_of_lt (SourceText.content_size_le path text) hsize
  obtain ⟨hgains, herror⟩ := aimed_of_compile ws hsource hcontent p state
  exact ⟨hgains.mono fun d hd => hd.shown hnowhere hsource hsize coloured,
    fun e he => (herror e he).shown hnowhere hsource hsize coloured⟩

end

/-! ### Two lines of a document -/

namespace ShownLines

/-- An old block behind a character of two bytes, and a block over two lines whose layer is not
declared. -/
def source : String :=
  "@tailwind utilities;/*é*/@variants\x7b\x7d\r\n  @layer components\x7b\n\x7d"

def lib : Library := (Library.empty.add "app.css" source).1

def built : Except BuildError (List Node) × BuildState :=
  compile ⟨[], []⟩ lib (.bare fun _ => []) 0 ⟨.default, .empty⟩

def warned : String :=
  "warning[D401]: The `@variants` directive has been deprecated.\n" ++
  "  --> app.css:1:27\n" ++
  "  |\n" ++
  "1 | @tailwind utilities;/*é*/@variants\x7b\x7d\n" ++
  "  |                           ^^^^^^^^^^^ deprecated at-rule\n" ++
  "   = help: Use `@layer utilities` or `@layer components` instead.\n" ++
  "   = fix: replace with `@layer utilities`\n"

def failed : String :=
  "error[E201]: `@layer components` is used but no matching `@tailwind components` directive is present.\n" ++
  "  --> app.css:2:3\n" ++
  "  |\n" ++
  "2 |   @layer components\x7b\n" ++
  "  |   ^^^^^^^^^^^^^^^^^^ layer used here\n" ++
  "   = help: add `@tailwind components;` to the stylesheet\n"

end ShownLines

open ShownLines in
/-- Columns count bytes, and the second span is underlined to the end of its first line. -/
theorem compile_diagnostics_shown_lines :
    lib.get? Span.noFile = none ∧ lib.get? 0 = some (.make "app.css" source) ∧
      source.utf8ByteSize < Span.offsetBound ∧
      built.2.sink.held.map (Diagnostic.render? false lib) = [some warned] ∧
      (∃ e, built.1 = .error e ∧ e.diagnostic.render? false lib = some failed) ∧
      Sink.empty.Gains (Diagnostic.Shown false lib) built.2.sink ∧
      ∀ e, built.1 = .error e → e.diagnostic.Shown false lib := by
  have hsize : source.utf8ByteSize < Span.offsetBound := by decide +kernel
  have hnowhere : lib.get? Span.noFile = none := rfl
  have hsource : lib.get? 0 = some (.make "app.css" source) := rfl
  have hshown := compile_diagnostics_shown ⟨[], []⟩ hnowhere hsource hsize (.bare fun _ => [])
    ⟨.default, .empty⟩ false
  have hfailed : (match built.1 with
      | .error e => e.diagnostic.render? false lib
      | .ok _ => none) = some failed := by decide +kernel
  refine ⟨hnowhere, hsource, hsize, by decide +kernel, ?_, hshown⟩
  cases hbuilt : built.1 with
  | error e =>
      rw [hbuilt] at hfailed
      exact ⟨e, rfl, hfailed⟩
  | ok nodes =>
      rw [hbuilt] at hfailed
      cases hfailed

end UtilityCss
