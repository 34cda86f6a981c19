import UtilityCss.Proofs.Lineage
import UtilityCss.Settings.Load

/-!
# The rule of a candidate

A rule book of settings answers a candidate with the rule that the settings describe:
`resolve_of_settings`.

* **Templates** — `fill` is a template with a text in place of every `&`, said by the parts between
  them.  Templates that passed the check of the settings keep the text they are filled with
  (`infix_foldr_fill`).
* **Importance** — `IsBody`: the nodes of a body as they are, or with every declaration important and
  nothing else changed.
* **The book** — what a rule book holds under a key comes from what the settings have under it:
  `get?_readBodies`, `lookup_ofSettings`, `variant_ofSettings`.
-/

namespace UtilityCss

/-! ## Templates -/

/-- A template with a text in place of every `&`. -/
def fill (template : String) (inner : List Char) : List Char :=
  inner.intercalate (template.toList.splitOn '&')

/-- What is put in front of the first part stands in front of the whole. -/
lemma intercalate_modifyHead (inner front : List Char) {parts : List (List Char)} (h : parts ≠ []) :
    inner.intercalate (parts.modifyHead (front ++ ·)) = front ++ inner.intercalate parts := by
  obtain ⟨part, rest, rfl⟩ := List.exists_cons_of_ne_nil h
  cases rest with
  | nil => simp
  | cons next rest => simp [List.intercalate_cons_cons]

/-- What is put in is not searched again. -/
lemma replaceChar_eq_fill (inner : List Char) (template : String) :
    Text.replaceChar '&' inner template.toList = fill template inner := by
  rw [fill]
  induction template.toList with
  | nil => simp [Text.replaceChar]
  | cons c cs ih =>
      have hparts : cs.splitOn '&' ≠ [] := List.splitOn_ne_nil '&' cs
      rw [Text.replaceChar, List.flatMap_cons, ← Text.replaceChar, ih, List.splitOn_cons_eq_if_modifyHead]
      by_cases hc : c = '&'
      · rw [if_pos hc, if_pos (by simp [hc]), List.intercalate_cons_of_ne_nil hparts, List.nil_append]
      · rw [if_neg hc, if_neg (by simp [hc])]
        exact (intercalate_modifyHead inner [c] hparts).symm

/-- What is filled into a template with a place for it stands in the result. -/
lemma infix_fill {template : String} (h : '&' ∈ template.toList) (inner : List Char) :
    inner <:+: fill template inner := by
  rw [← replaceChar_eq_fill]
  obtain ⟨before, after, hparts⟩ := List.append_of_mem h
  refine ⟨Text.replaceChar '&' inner before, Text.replaceChar '&' inner after, ?_⟩
  simp [hparts, Text.replaceChar]

/-- The selectors among templates. -/
def selectorsOf (templates : List String) : List String :=
  templates.filter fun template => !Node.isAtRuleSelector template

/-- The heads of at-rules among templates. -/
def headsOf (templates : List String) : List String :=
  templates.filter Node.isAtRuleSelector

/-- A selector filled into templates, into the last one first. -/
def filledInto (templates : List String) (selector : List Char) : List Char :=
  templates.foldr fill selector

/-- A rule inside of at-rules, the first one outermost. -/
def inAtRules (heads : List String) (rule : Node) : Node :=
  heads.foldr (fun head node => .block head [node]) rule

/-- A template is filled with the selector, unless it is an at-rule. -/
lemma onSelector_ofTemplate (text : String) (inner : List Char) :
    (Variant.ofTemplate text).onSelector inner =
      if Node.isAtRuleSelector (Text.trimmed text) then inner else fill (Text.trimmed text) inner := by
  rw [Variant.ofTemplate]
  split_ifs
  · rfl
  · exact replaceChar_eq_fill inner _

/-- An at-rule is put around the rule. -/
lemma onNode_ofTemplate (text : String) (node : Node) :
    (Variant.ofTemplate text).onNode node =
      if Node.isAtRuleSelector (Text.trimmed text) then .block (Text.trimmed text) [node]
      else node := by
  rw [Variant.ofTemplate]
  split_ifs <;> rfl

/-- The first variant is filled last, so it is outermost. -/
lemma foldr_onSelector (texts : List String) (selector : List Char) :
    (texts.map Variant.ofTemplate).foldr Variant.onSelector selector
      = filledInto (selectorsOf (texts.map Text.trimmed)) selector := by
  induction texts with
  | nil => rfl
  | cons text texts ih =>
      rw [List.map_cons, List.foldr_cons, ih, onSelector_ofTemplate, selectorsOf, selectorsOf,
        List.map_cons, List.filter_cons]
      cases Node.isAtRuleSelector (Text.trimmed text) with
      | true => rw [if_pos rfl, if_neg (by decide)]
      | false => rw [if_neg (by decide), if_pos (by decide), filledInto, filledInto, List.foldr_cons]

/-- The at-rule of the first variant is outermost, too. -/
lemma foldr_onNode (texts : List String) (rule : Node) :
    (texts.map Variant.ofTemplate).foldr Variant.onNode rule
      = inAtRules (headsOf (texts.map Text.trimmed)) rule := by
  induction texts with
  | nil => rfl
  | cons text texts ih =>
      rw [List.map_cons, List.foldr_cons, ih, onNode_ofTemplate, headsOf, headsOf, List.map_cons,
        List.filter_cons]
      split_ifs
      · rw [inAtRules, inAtRules, List.foldr_cons]
      · rfl

/-- Selectors that have an `&` keep the text that they are filled with. -/
lemma infix_filledInto {templates : List String} (h : ∀ template ∈ templates, '&' ∈ template.toList)
    (selector : List Char) : selector <:+: filledInto templates selector := by
  induction templates with
  | nil => exact List.infix_rfl
  | cons template templates ih =>
      rw [List.forall_mem_cons] at h
      exact (ih h.2).trans (infix_fill h.1 _)

/-- In settings that were handed out every selector among the templates has an `&`. -/
lemma mem_template_of_ofText {text : String} {s : Settings} (h : Settings.ofText text = .ok s) :
    ∀ entry ∈ s.variants.entries, Node.isAtRuleSelector (Text.trimmed entry.2) = false →
      '&' ∈ (Text.trimmed entry.2).toList := by
  have hchecked : firstUntargeted s.variants.entries = none := by
    rw [Settings.ofText] at h
    split at h
    · rw [Settings.ofEntries] at h
      split at h
      · next loaded _ =>
          rw [Settings.check] at h
          split at h
          · cases h
          · next hfault =>
              obtain rfl := Except.ok.inj h
              rw [Settings.fault?] at hfault
              split_ifs at hfault
              exact hfault
      · cases h
    · cases h
  generalize s.variants.entries = entries at hchecked
  induction entries with
  | nil => exact nofun
  | cons entry entries ih =>
      rw [firstUntargeted] at hchecked
      split_ifs at hchecked with htargeted
      refine List.forall_mem_cons.2 ⟨fun hhead => ?_, ih hchecked⟩
      rw [Node.isAtRuleSelector] at hhead
      rw [isTargeted, hhead, Bool.or_false] at htargeted
      exact List.contains_iff_mem.1 htargeted

/-! ## Importance -/

namespace Node

mutual

/-- The tree with no declaration important. -/
def unmark : Node → Node
  | .rule selector nodes hasBlock span => .rule selector (unmarkAll nodes) hasBlock span
  | .declaration property value _ span => .declaration property value false span
  | .comment text span => .comment text span

/-- Applies `unmark` to every tree of a forest. -/
def unmarkAll : List Node → List Node
  | [] => []
  | node :: rest => unmark node :: unmarkAll rest

end

mutual

lemma unmark_markImportant (node : Node) : node.markImportant.unmark = node.unmark := by
  cases node with
  | rule selector nodes hasBlock span =>
      rw [markImportant, unmark, unmark, unmarkAll_markImportantAll nodes]
  | declaration property value important span => rfl
  | comment text span => rfl

/-- Marking changes nothing but marks. -/
lemma unmarkAll_markImportantAll (nodes : List Node) :
    unmarkAll (markImportantAll nodes) = unmarkAll nodes := by
  cases nodes with
  | nil => rfl
  | cons node rest =>
      rw [markImportantAll, unmarkAll, unmarkAll, unmark_markImportant node,
        unmarkAll_markImportantAll rest]

end

/-- The node is important, if it is a declaration. -/
def IsImportant : Node → Prop
  | .declaration _ _ important _ => important = true
  | .rule .. => True
  | .comment .. => True

mutual

lemma isImportant_of_visits {depth : Nat} {node : Node} {visit : Nat × Node}
    (h : visit ∈ visits depth node.markImportant) : visit.2.IsImportant := by
  cases node with
  | rule selector nodes hasBlock span =>
      rw [markImportant, visits] at h
      rcases List.mem_cons.1 h with rfl | h
      · exact trivial
      · exact isImportant_of_visitsAll h
  | declaration property value important span =>
      rw [markImportant, visits] at h
      rw [List.mem_singleton.1 h]
      exact (rfl : true = true)
  | comment text span =>
      rw [markImportant, visits] at h
      rw [List.mem_singleton.1 h]
      exact trivial

/-- Marking marks every declaration. -/
lemma isImportant_of_visitsAll {depth : Nat} {nodes : List Node} {visit : Nat × Node}
    (h : visit ∈ visitsAll depth (markImportantAll nodes)) : visit.2.IsImportant := by
  cases nodes with
  | nil => cases h
  | cons node rest =>
      rw [markImportantAll, visitsAll] at h
      rcases List.mem_append.1 h with h | h
      · exact isImportant_of_visits h
      · exact isImportant_of_visitsAll h

end

end Node

/-- The children of a rule made from a body: the nodes of the body, or nodes that differ from them in
importance only, with every declaration at any depth important. -/
def IsBody (important : Prop) (nodes children : List Node) : Prop :=
  (¬ important → children = nodes) ∧
    (important → Node.unmarkAll children = Node.unmarkAll nodes ∧
      ∀ node ∈ Node.everyNode children, node.IsImportant)

lemma isBody_ite (important : Bool) (nodes : List Node) :
    IsBody (important = true) nodes (if important then Node.markImportantAll nodes else nodes) := by
  cases important with
  | false => exact ⟨fun _ => rfl, fun h => by cases h⟩
  | true =>
      refine ⟨fun h => absurd rfl h, fun _ => ⟨Node.unmarkAll_markImportantAll nodes, ?_⟩⟩
      intro node hnode
      obtain ⟨visit, hvisit, rfl⟩ := List.mem_map.1 hnode
      exact Node.isImportant_of_visitsAll hvisit

/-! ## The book -/

/-- A base is a name, or an exclamation mark and a name. -/
inductive Calls : (base name : String) → (bang : Bool) → Prop
  | plain {base : String} (h : base.toList.head? ≠ some '!') : Calls base base false
  | banged (name : String) : Calls ("!" ++ name) name true

/-- The body under a name, and its layer: a utility, or else a component. -/
inductive Settings.Declares (s : Settings) (name : String) : Layer → (body : String) → Prop
  | utility {body : String} (h : s.utilities.get? name = some body) : Declares s name .utilities body
  | component {body : String} (hno : s.utilities.get? name = none)
      (h : s.components.get? name = some body) : Declares s name .components body

/-- The template of a variant, without the blanks around it. -/
def Settings.template? (s : Settings) (variant : String) : Option String :=
  (s.variants.get? variant).map Text.trimmed

namespace RuleBook

/-- Splitting off the mark says how the base calls its rule. -/
lemma calls_splitBang (base : String) : Calls base (splitBang base).1 (splitBang base).2 := by
  rw [splitBang]
  split
  · next rest hbase =>
      have hbanged := Calls.banged (String.ofList rest)
      rwa [show "!" ++ String.ofList rest = base by rw [← String.toList_inj]; simp [hbase]] at hbanged
  · next hbase =>
      refine .plain fun hhead => ?_
      obtain ⟨rest, hrest⟩ := List.head?_eq_some_iff.1 hhead
      exact hbase rest hrest

/-- A rule can be called in one way only. -/
lemma splitBang_of_calls {base name : String} {bang : Bool} (h : Calls base name bang) :
    splitBang base = (name, bang) := by
  cases h with
  | plain hhead =>
      rw [splitBang]
      split
      · next rest hbase => exact absurd (by rw [hbase]; rfl) hhead
      · rfl
  | banged name =>
      have htext : ("!" ++ name).toList = '!' :: name.toList := by simp
      rw [splitBang, htext]
      simp

/-- A key has nodes in a table that was read if it has a body, and those of the body. -/
lemma lookup_of_readBodies {table : String} {bodies : Table String}
    {entries : List (String × List Node)} (h : readBodies table bodies = .ok entries) (key : String) :
    bodies.get? key = none ∧ entries.lookup key = none ∨
      ∃ body nodes, bodies.get? key = some body ∧ readBody table key body = .ok nodes ∧
        entries.lookup key = some nodes := by
  have hentries := readBodies_spec h
  rw [Table.get?]
  generalize bodies.entries = given at hentries
  clear h
  induction hentries with
  | nil => exact Or.inl ⟨rfl, rfl⟩
  | @cons given entry _ _ hread _ ih =>
      obtain ⟨hkeys, hbody⟩ := hread
      rw [List.lookup_cons, List.lookup_cons, ← hkeys]
      by_cases hkey : key = given.1
      · subst hkey
        exact Or.inr ⟨given.2, entry.2, by simp, hbody, by simp⟩
      · rw [beq_false_of_ne hkey]
        exact ih

namespace OfSettings
variable {s : Settings} {book : RuleBook} (h : OfSettings s book)
include h

/-- A name is looked up where the settings declare it. -/
lemma lookup (name : String) :
    s.utilities.get? name = none ∧ s.components.get? name = none ∧ book.lookup name = none ∨
      ∃ layer body nodes, s.Declares name layer body ∧ readBody layer.name name body = .ok nodes ∧
        book.lookup name = some (nodes, layer) := by
  rw [RuleBook.lookup]
  rcases lookup_of_readBodies h.utilities name with ⟨hno, hnone⟩ | ⟨body, nodes, hbody, hread, hsome⟩
  · rw [show book.utilities.get? name = none from hnone]
    rcases lookup_of_readBodies h.components name with
      ⟨hno', hnone⟩ | ⟨body, nodes, hbody, hread, hsome⟩
    · rw [show book.components.get? name = none from hnone]
      exact Or.inl ⟨hno, hno', rfl⟩
    · rw [show book.components.get? name = some nodes from hsome]
      exact Or.inr ⟨.components, body, nodes, .component hno hbody, hread, rfl⟩
  · rw [show book.utilities.get? name = some nodes from hsome]
    exact Or.inr ⟨.utilities, body, nodes, .utility hbody, hread, rfl⟩

/-- A variant is known exactly if the settings have a template for it. -/
lemma variant (name : String) :
    book.variants.get? name = (s.variants.get? name).map Variant.ofTemplate := by
  rw [Table.get?, Table.get?, h.variants]
  induction s.variants.entries with
  | nil => rfl
  | cons entry entries ih =>
      rw [List.map_cons, List.lookup_cons, List.lookup_cons, ih]
      cases name == entry.1 <;> rfl

/-- The variants are found if the settings have a template for each of them. -/
lemma variants_found (names : List String) :
    (∃ name ∈ names, s.variants.get? name = none) ∧ names.mapM book.variants.get? = none ∨
      ∃ texts : List String, names.map s.variants.get? = texts.map some ∧
        names.mapM book.variants.get? = some (texts.map Variant.ofTemplate) := by
  induction names with
  | nil => exact Or.inr ⟨[], rfl, rfl⟩
  | cons name names ih =>
      rw [List.mapM_cons, h.variant]
      cases htext : s.variants.get? name with
      | none => exact Or.inl ⟨⟨name, by simp, htext⟩, rfl⟩
      | some text =>
          rcases ih with ⟨⟨missing, hmem, hmissing⟩, hnone⟩ | ⟨texts, htexts, hsome⟩
          · exact Or.inl ⟨⟨missing, by simp [hmem], hmissing⟩, by rw [hnone]; rfl⟩
          · exact Or.inr ⟨text :: texts, by rw [List.map_cons, htexts, htext]; rfl, by rw [hsome]; rfl⟩

end OfSettings

/-- The rule of a candidate: the at-rules around one rule whose selector is filled in. -/
lemma build_eq (candidate : String) (texts : List String) (nodes : List Node) :
    build candidate (texts.map Variant.ofTemplate) nodes
      = inAtRules (headsOf (texts.map Text.trimmed))
        (.block (String.ofList (filledInto (selectorsOf (texts.map Text.trimmed))
          ('.' :: (Candidate.escapeClassName candidate).toList))) nodes) := by
  rw [build, foldr_onSelector, foldr_onNode]

/-- Every selector among the templates of variants has an `&`. -/
lemma mem_selectorsOf {text : String} {s : Settings} (hs : Settings.ofText text = .ok s)
    {names texts : List String} (h : names.map s.variants.get? = texts.map some) :
    ∀ template ∈ selectorsOf (texts.map Text.trimmed), '&' ∈ template.toList := by
  intro template htemplate
  obtain ⟨hmem, hhead⟩ := List.mem_filter.1 htemplate
  obtain ⟨given, hgiven, rfl⟩ := List.mem_map.1 hmem
  have hsome : some given ∈ names.map s.variants.get? := by
    rw [h]
    exact List.mem_map_of_mem hgiven
  obtain ⟨name, -, hname⟩ := List.mem_map.1 hsome
  exact mem_template_of_ofText hs (name, given) (Directive.mem_of_lookup hname) (by simpa using hhead)

/-- **The rule of a candidate.**  Let settings have a rule book, and take any candidate but the one that
belongs to every build.  It has no rule if its name is neither a utility nor a component, or if one of
its variants has no template.  Otherwise it has one: around it the at-rules among the templates, the
first outermost; as its selector the escaped candidate filled into the selectors among them, the last
one first; in it the nodes of the body under the name, important if the base has the mark or if
utilities are and the name is one. -/
theorem resolve_of_settings {text : String} {s : Settings} (hs : Settings.ofText text = .ok s)
    {book : RuleBook} (hbook : ofSettings s = .ok book) {candidate : String}
    (hcandidate : candidate ≠ Candidate.always) {names : List String} {base : String}
    (hsplit : Candidate.split s.options.separator candidate = (names, base)) :
    ∃ name bang, Calls base name bang ∧
      ((s.utilities.get? name = none ∧ s.components.get? name = none ∨
            ∃ variant ∈ names, s.variants.get? variant = none) ∧
          book.resolve candidate = [] ∨
        ∃ layer body nodes templates selector children,
          s.Declares name layer body ∧ readBody layer.name name body = .ok nodes ∧
          names.map s.template? = templates.map some ∧
          selector.toList = filledInto (selectorsOf templates)
            ('.' :: (Candidate.escapeClassName candidate).toList) ∧
          '.' :: (Candidate.escapeClassName candidate).toList <:+: selector.toList ∧
          IsBody (bang = true ∨ s.options.important = true ∧ layer = .utilities) nodes children ∧
          book.resolve candidate = [{
            node := inAtRules (headsOf templates) (.block selector children)
            layer := if names = [] then layer else .variants
            origin := if names = [] then none else some layer }]) := by
  have h := ofSettings_spec hbook
  refine ⟨(splitBang base).1, (splitBang base).2, calls_splitBang base, ?_⟩
  rw [resolve, if_neg hcandidate, h.separator, hsplit]
  dsimp only
  rcases h.lookup (splitBang base).1 with ⟨hno, hno', hnone⟩ | ⟨layer, body, nodes, hbody, hread, hsome⟩
  · exact Or.inl ⟨Or.inl ⟨hno, hno'⟩, by rw [hnone]⟩
  rcases h.variants_found names with ⟨hmissing, hnone⟩ | ⟨texts, htexts, hvariants⟩
  · exact Or.inl ⟨Or.inr hmissing, by rw [hsome, hnone]⟩
  have htemplates : names.map s.template? = (texts.map Text.trimmed).map some := by
    have hmap := congrArg (List.map (Option.map Text.trimmed)) htexts
    rw [List.map_map, List.map_map] at hmap
    rw [List.map_map]
    exact hmap
  have hinfix := infix_filledInto (mem_selectorsOf hs htexts)
    ('.' :: (Candidate.escapeClassName candidate).toList)
  have hmarked := isBody_ite ((splitBang base).2 || (book.important && layer == .utilities)) nodes
  have himportant : ((splitBang base).2 || (book.important && layer == .utilities)) = true ↔
      (splitBang base).2 = true ∨ s.options.important = true ∧ layer = .utilities := by
    rw [h.important]
    simp
  have hempty : (texts.map Variant.ofTemplate).isEmpty = true ↔ names = [] := by
    have hlength := congrArg List.length htexts
    rw [List.length_map, List.length_map] at hlength
    rw [List.isEmpty_iff, List.map_eq_nil_iff, ← List.length_eq_zero_iff, ← hlength,
      List.length_eq_zero_iff]
  rw [← String.toList_ofList (l := filledInto _ _)] at hinfix
  refine Or.inr ⟨layer, body, nodes, texts.map Text.trimmed, _, _, hbody, hread, htemplates,
    String.toList_ofList, hinfix, by rwa [IsBody, ← himportant], ?_⟩
  rw [hsome, hvariants]
  dsimp only
  rw [build_eq]
  by_cases hnames : names = []
  · rw [if_pos (hempty.2 hnames), if_pos hnames, if_pos hnames]
  · rw [if_neg (mt hempty.1 hnames), if_neg hnames, if_neg hnames]

/-! ### A stack of variants -/

namespace Stacked

def text : String :=
  "[utilities]\np='a:b;&:x\x7bc:d\x7d'\n[variants]\non='&:on,& b'\nsm=' @media x '\n"

def settings : Settings :=
  { utilities := ⟨[("p", "a:b;&:x\x7bc:d\x7d")]⟩
    variants := ⟨[("on", "&:on,& b"), ("sm", " @media x ")]⟩ }

def nodes : List Node :=
  [.declaration "a" "b" false none, .block "&:x" [.declaration "c" "d" false none]]

def book : RuleBook :=
  { separator := ":"
    important := false
    always := []
    components := ⟨[]⟩
    utilities := ⟨[("p", nodes)]⟩
    variants := ⟨[("on", .selector "&:on,& b"), ("sm", .atRule "@media x")]⟩ }

lemma readBody_eq : readBody "utilities" "p" "a:b;&:x\x7bc:d\x7d" = .ok nodes := by
  have hwrapped : wrapBody "a:b;&:x\x7bc:d\x7d" = "& \x7b a:b;&:x\x7bc:d\x7d \x7d" := by decide
  have hread : readStylesheet 4294967295 "& \x7b a:b;&:x\x7bc:d\x7d \x7d"
      = .ok [.rule "&" [.declaration "a" "b" false (some ⟨4294967295, 4, 8⟩),
          .rule "&:x" [.declaration "c" "d" false (some ⟨4294967295, 12, 15⟩)] true
            (some ⟨4294967295, 8, 16⟩)] true (some ⟨4294967295, 0, 18⟩)] := by
    with_unfolding_all rfl
  rw [readBody, hwrapped, Span.noFile, hread]
  rfl

lemma ofSettings_eq : ofSettings settings = .ok book := by
  have hutilities : readBodies "utilities" settings.utilities = .ok [("p", nodes)] := by
    rw [readBodies, show settings.utilities.entries = [("p", "a:b;&:x\x7bc:d\x7d")] from rfl]
    simp [readBody_eq, pure, bind, Except.pure, Except.bind]
  have hvariants : settings.variants.entries.map (fun entry => (entry.1, Variant.ofTemplate entry.2))
      = book.variants.entries := by
    decide
  rw [ofSettings, hutilities]
  exact congrArg (fun variants => Except.ok { book with variants := ⟨variants⟩ }) hvariants

end Stacked

open Stacked in
/-- An at-rule outside of a selector with two places for the candidate, and the mark of importance. -/
theorem resolve_of_settings_stacked :
    Settings.ofText text = .ok settings ∧ ofSettings settings = .ok book ∧
      "sm:on:!p" ≠ Candidate.always ∧
      Candidate.split settings.options.separator "sm:on:!p" = (["sm", "on"], "!p") ∧
      ∃ children, IsBody True nodes children ∧ book.resolve "sm:on:!p" = [{
        node := .block "@media x" [.block ".sm\\:on\\:\\!p:on,.sm\\:on\\:\\!p b" children]
        layer := .variants
        origin := some .utilities }] := by
  have hs : Settings.ofText text = .ok settings := by with_unfolding_all rfl
  have hbook : ofSettings settings = .ok book := ofSettings_eq
  have hcandidate : "sm:on:!p" ≠ Candidate.always := by decide
  have hsplit : Candidate.split settings.options.separator "sm:on:!p" = (["sm", "on"], "!p") := by
    with_unfolding_all rfl
  refine ⟨hs, hbook, hcandidate, hsplit, ?_⟩
  obtain ⟨name, bang, hcalls, hresolve⟩ := resolve_of_settings hs hbook hcandidate hsplit
  obtain ⟨rfl, rfl⟩ : "p" = name ∧ true = bang := by
    simpa [splitBang] using splitBang_of_calls hcalls
  rcases hresolve with ⟨hno, -⟩ | ⟨layer, body, read, templates, selector, children, hbody, hread,
    htemplates, hselector, -, hchildren, hresolve⟩
  · exact absurd hno (by decide)
  · obtain ⟨rfl, rfl⟩ : .utilities = layer ∧ "a:b;&:x\x7bc:d\x7d" = body := by
      cases hbody with
      | utility h => exact ⟨rfl, Option.some.inj h⟩
      | component hno => cases hno
    obtain rfl := Except.ok.inj (readBody_eq.symm.trans hread)
    obtain rfl : ["@media x", "&:on,& b"] = templates := by
      have hsome : [some "@media x", some "&:on,& b"] = ["sm", "on"].map settings.template? := by decide
      exact (List.map_injective_iff.2 (Option.some_injective _)) (hsome.trans htemplates)
    obtain rfl : ".sm\\:on\\:\\!p:on,.sm\\:on\\:\\!p b" = selector := by
      rw [← String.toList_inj, hselector]
      decide
    exact ⟨children, by simpa [IsBody] using hchildren, hresolve⟩

end RuleBook

end UtilityCss
