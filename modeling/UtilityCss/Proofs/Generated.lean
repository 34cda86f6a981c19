import UtilityCss.Proofs.Boundaries
import UtilityCss.Proofs.FailedBuilds
import UtilityCss.Proofs.MergeShape

/-!
# Generated rules carry no span

Rules that are generated from settings point at no source until they are put into a document, and a
session that keeps them hands them out as they were made.

* **Rule books** — `resolve_unplaced`: whatever a rule book of settings answers has no span at any
  depth, and what variants make comes from a component or a utility.  Bodies are read like
  stylesheets and lose their spans then (`spannedAll_clearSpansAll`); marking declarations and
  wrapping rules gives none back.
* **Caches** — `RuleCache.Holds`: all that a cache holds was answered by a resolver.  One call of
  `generate` keeps this, and so does every build (`holds_compile`), whatever a session is used for
  (`holds_performAll`).
-/

namespace UtilityCss

/-- A fragment without spans.  If variants made it, it was made from a component or a utility. -/
structure Fragment.Unplaced (f : Fragment) : Prop where
  spans : f.node.Spanned (· = none)
  origin : f.layer = .variants → f.origin = some .components ∨ f.origin = some .utilities

namespace Node

mutual

/-- Spans that are forgotten are gone. -/
lemma spanned_clearSpans (node : Node) : node.clearSpans.Spanned (· = none) := by
  cases node with
  | rule selector nodes hasBlock span => exact ⟨rfl, spannedAll_clearSpansAll nodes⟩
  | declaration property value important span => exact (rfl : (none : Option Span) = none)
  | comment text span => exact (rfl : (none : Option Span) = none)

lemma spannedAll_clearSpansAll (nodes : List Node) :
    SpannedAll (· = none) (clearSpansAll nodes) := by
  cases nodes with
  | nil => exact trivial
  | cons node rest => exact ⟨spanned_clearSpans node, spannedAll_clearSpansAll rest⟩

end

mutual

/-- To be important has nothing to do with spans. -/
lemma Spanned.markImportant {P : Option Span → Prop} {node : Node} (h : node.Spanned P) :
    node.markImportant.Spanned P := by
  cases node with
  | rule selector nodes hasBlock span => exact ⟨h.1, SpannedAll.markImportantAll h.2⟩
  | declaration property value important span => exact h
  | comment text span => exact h

lemma SpannedAll.markImportantAll {P : Option Span → Prop} {nodes : List Node}
    (h : SpannedAll P nodes) : SpannedAll P (Node.markImportantAll nodes) := by
  cases nodes with
  | nil => exact trivial
  | cons node rest => exact ⟨h.1.markImportant, SpannedAll.markImportantAll h.2⟩

end

mutual

/-- A tree without spans gets the span it is given at every node. -/
lemma Spanned.backfill {node : Node} (h : node.Spanned (· = none)) (s : Span) :
    (node.backfill s).Spanned (· = some s) := by
  cases node with
  | rule selector nodes hasBlock span =>
      obtain ⟨hself, hnodes⟩ := h
      exact ⟨by rw [hself]; rfl, SpannedAll.backfillAll hnodes s⟩
  | declaration property value important span =>
      have hself : span = none := h
      rw [hself]
      exact (rfl : some s = some s)
  | comment text span =>
      have hself : span = none := h
      rw [hself]
      exact (rfl : some s = some s)

/-- Where no node has a span, every node gets the one that is filled in. -/
lemma SpannedAll.backfillAll {nodes : List Node} (h : SpannedAll (· = none) nodes) (s : Span) :
    SpannedAll (· = some s) (Node.backfillAll s nodes) := by
  cases nodes with
  | nil => exact trivial
  | cons node rest => exact ⟨h.1.backfill s, SpannedAll.backfillAll h.2 s⟩

end

end Node

/-! ## Rule books -/

namespace RuleBook

/-- Bodies of the settings point at no source. -/
lemma spannedAll_readBody {table key body : String} {nodes : List Node}
    (h : readBody table key body = .ok nodes) : Node.SpannedAll (· = none) nodes := by
  unfold readBody at h
  split at h
  · rw [← Except.ok.inj h]
    exact Node.spannedAll_clearSpansAll _
  · cases h

/-- A list of computations answers a list of answers, one for each. -/
lemma forall₂_of_mapM_ok {α β ε : Type} {f : α → Except ε β} {xs : List α} {ys : List β}
    (h : xs.mapM f = .ok ys) : List.Forall₂ (fun x y => f x = .ok y) xs ys := by
  induction xs generalizing ys with
  | nil =>
      obtain rfl : [] = ys := Except.ok.inj h
      exact .nil
  | cons x xs ih =>
      rw [List.mapM_cons] at h
      cases hx : f x with
      | error e => simp [hx, bind, Except.bind] at h
      | ok y =>
          cases hrest : xs.mapM f with
          | error e => simp [hx, hrest, bind, Except.bind] at h
          | ok rest =>
              obtain rfl : y :: rest = ys := by
                simpa [hx, hrest, bind, Except.bind, pure, Except.pure] using h
              exact .cons hx (ih hrest)

/-- The entries of a table that was read have the same keys, each with the nodes of its body. -/
lemma readBodies_spec {table : String} {bodies : Table String} {entries : List (String × List Node)}
    (h : readBodies table bodies = .ok entries) :
    List.Forall₂ (fun given entry => given.1 = entry.1 ∧ readBody table given.1 given.2 = .ok entry.2)
      bodies.entries entries := by
  refine (forall₂_of_mapM_ok h).imp fun given entry hread => ?_
  cases hbody : readBody table given.1 given.2 with
  | error e => simp [hbody, bind, Except.bind] at hread
  | ok nodes =>
      obtain rfl : (given.1, nodes) = entry := by
        simpa [hbody, bind, Except.bind, pure, Except.pure] using hread
      exact ⟨rfl, rfl⟩

/-- No body of a table keeps a span. -/
lemma spannedAll_readBodies {table : String} {bodies : Table String}
    {entries : List (String × List Node)} (h : readBodies table bodies = .ok entries) :
    ∀ entry ∈ entries, Node.SpannedAll (· = none) entry.2 := by
  intro entry hentry
  obtain ⟨hlength, hread⟩ := List.forall₂_iff_get.1 (readBodies_spec h)
  obtain ⟨i, rfl⟩ := List.mem_iff_get.1 hentry
  exact spannedAll_readBody (hread i (by rw [hlength]; exact i.2) i.2).2

lemma unplaced_defaultsFragments (defaults : Table String) :
    ∀ f ∈ defaultsFragments defaults, f.Unplaced := by
  unfold defaultsFragments
  split_ifs
  · exact nofun
  · intro f hf
    obtain rfl := List.mem_singleton.1 hf
    refine ⟨⟨rfl, Node.spannedAll_iff.2 fun node hnode => ?_⟩, nofun⟩
    obtain ⟨entry, -, rfl⟩ := List.mem_map.1 hnode
    exact (rfl : (none : Option Span) = none)

/-- What a rule book holds has no span. -/
structure Unplaced (book : RuleBook) : Prop where
  always : ∀ f ∈ book.always, f.Unplaced
  components : ∀ entry ∈ book.components.entries, Node.SpannedAll (· = none) entry.2
  utilities : ∀ entry ∈ book.utilities.entries, Node.SpannedAll (· = none) entry.2

/-- What a rule book takes over from settings. -/
structure OfSettings (s : Settings) (book : RuleBook) : Prop where
  separator : book.separator = s.options.separator
  important : book.important = s.options.important
  always : ∃ base, readBodies "base" s.base = .ok base ∧ book.always = defaultsFragments s.defaults ++
    base.map fun entry => { node := .block entry.1 entry.2, layer := .base }
  components : readBodies "components" s.components = .ok book.components.entries
  utilities : readBodies "utilities" s.utilities = .ok book.utilities.entries
  variants : book.variants.entries
    = s.variants.entries.map fun entry => (entry.1, Variant.ofTemplate entry.2)

/-- What the rules of the settings are made of. -/
lemma ofSettings_spec {s : Settings} {book : RuleBook} (h : ofSettings s = .ok book) :
    OfSettings s book := by
  unfold ofSettings at h
  cases hbase : readBodies "base" s.base with
  | error e => simp [hbase, bind, Except.bind] at h
  | ok base =>
      cases hcomponents : readBodies "components" s.components with
      | error e => simp [hbase, hcomponents, bind, Except.bind] at h
      | ok components =>
          cases hutilities : readBodies "utilities" s.utilities with
          | error e => simp [hbase, hcomponents, hutilities, bind, Except.bind] at h
          | ok utilities =>
              simp only [hbase, hcomponents, hutilities, bind, Except.bind, pure, Except.pure,
                Except.ok.injEq] at h
              subst h
              exact ⟨rfl, rfl, ⟨base, hbase, rfl⟩, hcomponents, hutilities, rfl⟩

/-- No rule of the settings has a span. -/
lemma unplaced_ofSettings {s : Settings} {book : RuleBook} (h : ofSettings s = .ok book) :
    book.Unplaced := by
  have hbook := ofSettings_spec h
  refine ⟨?_, spannedAll_readBodies hbook.components, spannedAll_readBodies hbook.utilities⟩
  obtain ⟨base, hbase, halways⟩ := hbook.always
  intro f hf
  rw [halways] at hf
  rcases List.mem_append.1 hf with hf | hf
  · exact unplaced_defaultsFragments s.defaults f hf
  · obtain ⟨entry, hentry, rfl⟩ := List.mem_map.1 hf
    exact ⟨⟨rfl, spannedAll_readBodies hbase entry hentry⟩, nofun⟩

/-- Found are components and utilities only. -/
lemma Unplaced.lookup {book : RuleBook} (h : book.Unplaced) {name : String} {nodes : List Node}
    {layer : Layer} (hlookup : book.lookup name = some (nodes, layer)) :
    Node.SpannedAll (· = none) nodes ∧ (layer = .components ∨ layer = .utilities) := by
  unfold RuleBook.lookup at hlookup
  split at hlookup
  next found hfound =>
    obtain ⟨rfl, rfl⟩ := Prod.mk.inj (Option.some.inj hlookup)
    exact ⟨h.utilities _ (Directive.mem_of_lookup hfound), Or.inr rfl⟩
  next =>
    obtain ⟨found, hfound, hparts⟩ := Option.map_eq_some_iff.1 hlookup
    obtain ⟨rfl, rfl⟩ := Prod.mk.inj hparts
    exact ⟨h.components _ (Directive.mem_of_lookup hfound), Or.inl rfl⟩

/-- Variants wrap a rule, and give it no span. -/
lemma spanned_build (candidate : String) (variants : List Variant) {nodes : List Node}
    (h : Node.SpannedAll (· = none) nodes) : (build candidate variants nodes).Spanned (· = none) := by
  rw [build]
  generalize String.ofList _ = selector
  induction variants with
  | nil => exact ⟨rfl, h⟩
  | cons variant rest ih =>
      cases variant with
      | selector template => exact ih
      | atRule head => exact ⟨rfl, ih, trivial⟩

/-- No answer of a rule book has a span. -/
theorem resolve_unplaced {s : Settings} {book : RuleBook} (h : ofSettings s = .ok book)
    (candidate : String) : ∀ f ∈ book.resolve candidate, f.Unplaced := by
  have hbook := unplaced_ofSettings h
  unfold resolve
  split_ifs
  · exact hbook.always
  · dsimp only
    split
    next nodes layer variants hlookup hvariants =>
      obtain ⟨hnodes, hlayer⟩ := hbook.lookup hlookup
      have hmarked : ∀ important : Bool, Node.SpannedAll (· = none)
          (if important then Node.markImportantAll nodes else nodes) := by
        intro important
        cases important with
        | true => exact hnodes.markImportantAll
        | false => exact hnodes
      have hnode := fun important => spanned_build candidate variants (hmarked important)
      by_cases hnone : variants.isEmpty = true
      · rw [if_pos hnone]
        intro f hf
        obtain rfl := List.mem_singleton.1 hf
        refine ⟨hnode _, fun hvariants => ?_⟩
        rcases hlayer with rfl | rfl <;> cases hvariants
      · rw [if_neg hnone]
        intro f hf
        obtain rfl := List.mem_singleton.1 hf
        exact ⟨hnode _, fun _ => hlayer.imp (congrArg some) (congrArg some)⟩
    next => exact nofun

end RuleBook

/-! ## Caches -/

namespace RuleCache

/-- Every fragment that a cache holds was made by someone who makes such fragments. -/
structure Holds (made : Fragment → Prop) (cache : RuleCache) : Prop where
  classified : ∀ entry ∈ cache.classified.entries, ∀ f ∈ entry.2, made f
  snapshot : ∀ sheet, cache.snapshot = some sheet → ∀ f ∈ sheet.fragments, made f

variable {made : Fragment → Prop} {cache : RuleCache} {resolve : Resolver}

lemma holds_empty (made : Fragment → Prop) : Holds made empty :=
  ⟨nofun, nofun⟩

/-- An entry of the table was there, or is the one put in. -/
lemma mem_insertEntry {α : Type} {key : String} {value : α} {entries : List (String × α)}
    {entry : String × α} (h : entry ∈ Table.insertEntry key value entries) :
    entry = (key, value) ∨ entry ∈ entries := by
  induction entries with
  | nil => exact Or.inl (List.mem_singleton.1 h)
  | cons first rest ih =>
      rw [Table.insertEntry] at h
      split_ifs at h
      · exact List.mem_cons.1 h
      · rcases List.mem_cons.1 h with rfl | h
        · exact Or.inr (by simp)
        · exact (ih h).imp_right (List.mem_cons_of_mem _)
      · exact (List.mem_cons.1 h).imp_right (List.mem_cons_of_mem _)

/-- What is new in the cache was answered by the resolver. -/
lemma Holds.classify (h : cache.Holds made) (hresolve : ∀ c, ∀ f ∈ resolve c, made f)
    (candidates : List String) : (cache.classify resolve candidates).Holds made := by
  refine ⟨?_, h.snapshot⟩
  have hfold : ∀ (pending : List String) (known : Table (List Fragment)),
      (∀ entry ∈ known.entries, ∀ f ∈ entry.2, made f) →
      ∀ entry ∈ (pending.foldl (fun known c => known.insert c (resolve c)) known).entries,
        ∀ f ∈ entry.2, made f := by
    intro pending
    induction pending with
    | nil => exact fun known hknown => hknown
    | cons c rest ih =>
        intro known hknown
        refine ih _ fun entry hentry => ?_
        rcases mem_insertEntry hentry with rfl | hentry
        · exact hresolve c
        · exact hknown entry hentry
  exact hfold _ _ h.classified

/-- The sheet has nothing but what the cache holds. -/
lemma Holds.partition (h : cache.Holds made) : ∀ f ∈ cache.partition.fragments, made f := by
  intro f hf
  obtain ⟨entry, hentry, hf⟩ := List.mem_flatMap.1 hf
  exact h.classified entry hentry f hf

/-- The step: what `generate` answers and what it keeps was made by the resolver or before. -/
lemma Holds.generate (h : cache.Holds made) (hresolve : ∀ c, ∀ f ∈ resolve c, made f)
    (candidates : List String) :
    (∀ f ∈ (cache.generate resolve candidates).1.fragments, made f) ∧
      (cache.generate resolve candidates).2.Holds made := by
  have hnext := h.classify hresolve candidates
  rw [RuleCache.generate]
  cases hcurrent : (cache.classify resolve candidates).current? with
  | some sheet =>
      refine ⟨hnext.snapshot sheet ?_, hnext⟩
      rw [current?] at hcurrent
      split_ifs at hcurrent
      exact hcurrent
  | none =>
      refine ⟨hnext.partition, hnext.classified, fun sheet hsheet => ?_⟩
      rw [← Option.some.inj hsheet]
      exact hnext.partition

end RuleCache

/-! ## Sessions -/

/-- A scan makes no rules. -/
lemma collect_rules (s : Session) (files : Workspace) (p : Pipeline) :
    (s.collect files p).2.rules = s.rules := by
  cases hscan : scan files p.handlers p.batchSize p.content s.scanner with
  | mk result scanner => cases result <;> simp [Session.collect, hscan]

section
variable {made : Fragment → Prop} {p : Pipeline} (hp : ∀ c, ∀ f ∈ p.resolve c, made f)
include hp

/-- Expanding a document merges it with a sheet that resolvers made, as are the rules kept. -/
lemma holds_expand {s : Session} (h : s.rules.Holds made) (sink : Sink) (files : Workspace)
    (nodes : List Node) : (expand files p nodes ⟨s, sink⟩).2.session.rules.Holds made ∧
      ∀ result, (expand files p nodes ⟨s, sink⟩).1 = .ok result →
        ∃ sheet : Sheet, (∀ f ∈ sheet.fragments, made f) ∧ result = Directive.merge nodes sheet := by
  rw [expand]
  split_ifs with hnone
  · refine ⟨h, fun result hresult => ⟨⟨[]⟩, List.forall_mem_nil _, ?_⟩⟩
    rw [Directive.merge, if_pos hnone]
    exact (Except.ok.inj hresult).symm
  · have hrules := collect_rules s files p
    cases hcollect : s.collect files p with
    | mk verdict session =>
        rw [hcollect] at hrules
        have hsession : session.rules.Holds made := by
          rw [show session.rules = s.rules from hrules]
          exact h
        cases verdict with
        | error e => exact ⟨hsession, fun result hresult => by cases hresult⟩
        | ok _ =>
            obtain ⟨hsheet, hnext⟩ := hsession.generate hp session.candidates
            refine ⟨hnext, fun result hresult => ⟨_, hsheet, ?_⟩⟩
            exact (Except.ok.inj hresult).symm

/-- What a build answers is the document, read and respelled, merged with such a sheet. -/
lemma eq_merge_of_compile {s : Session} (h : s.rules.Holds made) {sink : Sink}
    {files : Workspace} {lib : Library} {file : Nat} {source : SourceText}
    (hsource : lib.get? file = some source) {result : List Node}
    (hbuilt : (compile files lib p file ⟨s, sink⟩).1 = .ok result) :
    ∃ nodes, readStylesheet file source.content = .ok nodes ∧ ∃ sheet : Sheet,
      (∀ f ∈ sheet.fragments, made f) ∧
        result = Directive.merge (Directive.modernizeAll nodes) sheet := by
  cases hread : readStylesheet file source.content with
  | error e => simp [compile, hsource, hread] at hbuilt
  | ok nodes =>
      rw [compile_of_read hsource hread] at hbuilt
      cases hnormal : (Directive.normalize nodes sink).1 with
      | error e => simp [hnormal] at hbuilt
      | ok found =>
          obtain ⟨registry, document⟩ := found
          obtain ⟨-, -, rfl⟩ := Directive.of_normalize_eq_ok hnormal
          have hexpand := (holds_expand hp h (Directive.normalize nodes sink).2 files
            (Directive.modernizeAll nodes)).2
          simp only [hnormal] at hbuilt
          cases hanswer : (expand files p (Directive.modernizeAll nodes)
              ⟨s, (Directive.normalize nodes sink).2⟩).1 with
          | error e => simp [hanswer, Except.mapError] at hbuilt
          | ok forest =>
              obtain rfl : forest = result := by simpa [hanswer, Except.mapError] using hbuilt
              exact ⟨nodes, rfl, hexpand forest hanswer⟩

/-- The step of a session: a build keeps what its resolver makes, and nothing else. -/
lemma holds_compile {state : BuildState} (h : state.session.rules.Holds made) (files : Workspace)
    (lib : Library) (file : Nat) : (compile files lib p file state).2.session.rules.Holds made := by
  cases hsource : lib.get? file with
  | none => simpa only [compile, hsource] using h
  | some source =>
      cases hread : readStylesheet file source.content with
      | error e => simpa only [compile, hsource, hread] using h
      | ok nodes =>
          rw [compile_of_read hsource hread]
          cases (Directive.normalize nodes state.sink).1 with
          | error e => exact h
          | ok found => exact (holds_expand hp h _ files found.2).1

end

/-- The run of a session: whatever it is used for, it holds what the resolvers made. -/
lemma holds_performAll {made : Fragment → Prop} (files : Workspace) {state : BuildState}
    (h : state.session.rules.Holds made) (actions : List Action)
    (hactions : ∀ p ∈ actions.filterMap Action.pipeline?, ∀ c, ∀ f ∈ p.resolve c, made f) :
    (Action.performAll files state actions).2.session.rules.Holds made := by
  induction actions generalizing files state with
  | nil => exact h
  | cons action rest ih =>
      rw [Action.performAll]
      cases action with
      | edit files' => exact ih files' h hactions
      | report change => exact ih files h hactions
      | forget now later => exact ih files h hactions
      | build lib p file =>
          rw [List.filterMap_cons, Action.pipeline?, List.forall_mem_cons] at hactions
          exact ih files (holds_compile hactions.1 h files lib file) hactions.2

end UtilityCss
