import Mathlib.Data.List.Induction
import UtilityCss.Proofs.FailedBuilds
import UtilityCss.Proofs.Verdicts

/-!
# Warnings that are said once

One sink may serve many builds, of any documents and with any sessions, and be drained between them.
A warning with a key is said by the first build that asks for it; neither a drain nor a failed build lets
it be said again.

* **Requests** — `compile_sink`: what a build does to a sink is to ask for some warnings, and which these
  are does not depend on the sink.  A build that fails behind the review has asked for its deprecations.
* **The first of each key** — `Request.firsts` goes through all requests and keeps those whose key is new.
* **Runs** — `Watched` follows a sink and what was taken out of it.  `Watched.Tells` is the invariant: taken
  out or held are the first requests, the sink remembers the keys of all, and no error was counted.
* **Kinds** — `Request.Issued` lists the warnings there are.  A key belongs to one kind of warning, so one
  request for each key is one warning of each kind.
-/

namespace UtilityCss

/-! ## Requests -/

/-- A warning that is to be said once under a key. -/
structure Request where
  key : String
  diagnostic : Diagnostic

/-- The warnings there are. -/
inductive Request.Issued : Request → Prop
  | deprecation {rule : Directive.AtRule} (hlegacy : rule.isLegacy = true) :
      Issued ⟨rule.name ++ "-at-rule-deprecated", Directive.deprecation rule⟩
  | noUtilities (span : Span) : Issued ⟨"content-problems", Directive.noUtilities span⟩

/-- Asks a sink for a warning. -/
def Sink.ask (sink : Sink) (r : Request) : Sink :=
  sink.emitOnce r.key r.diagnostic

namespace Directive

/-- What is asked for at an at-rule. -/
def AtRule.request? (rule : AtRule) : Option Request :=
  if rule.isLegacy then some ⟨rule.name ++ "-at-rule-deprecated", deprecation rule⟩ else none

/-- What is asked for if a document gets the rules of a sheet. -/
def request? (document : List Node) (sheet : Sheet) : Option Request :=
  if (Sites.find document).isEmpty then none
  else
    let sites := Sites.find (withoutBlocks document)
    (sites.get? .utilities).bind fun site =>
      if (sheet.bucket .utilities).isEmpty &&
          !(variantFragments sheet sites).any (fun f => f.origin == some .utilities) then
        some ⟨"content-problems", noUtilities (site.span.getD .nowhere)⟩
      else none

/-- The review asks for a warning at every old block, the sink decides. -/
lemma foldl_warn (rules : List AtRule) (sink : Sink) :
    rules.foldl warn sink = (rules.filterMap AtRule.request?).foldl Sink.ask sink := by
  induction rules generalizing sink with
  | nil => rfl
  | cons rule rest ih =>
      rw [List.foldl_cons, ih, List.filterMap_cons, warn, AtRule.request?]
      split_ifs <;> rfl

/-- The warning about an empty layer is asked for, and the sink decides. -/
lemma warnIfEmpty_eq (document : List Node) (sheet : Sheet) (sink : Sink) :
    warnIfEmpty document sheet sink = (request? document sheet).toList.foldl Sink.ask sink := by
  rw [warnIfEmpty, request?]
  split_ifs
  · rfl
  · cases hsite : (Sites.find (withoutBlocks document)).get? .utilities with
    | none => simp only [hsite, Option.bind_none, Option.toList_none, List.foldl_nil]
    | some site =>
        simp only [hsite, Option.bind_some]
        split_ifs <;> rfl

end Directive

/-- What an expansion asks for. -/
def expandRequest? (ws : Workspace) (p : Pipeline) (document : List Node) (session : Session) :
    Option Request :=
  match session.collect ws p with
  | (.error _, _) => none
  | (.ok _, session) => Directive.request? document (session.generate p.resolve).1

/-- What a build asks for: first the deprecations of the whole document, then, if the document is
accepted, the warning about an empty layer. -/
def requests (ws : Workspace) (lib : Library) (p : Pipeline) (file : Nat) (session : Session) :
    List Request :=
  match lib.get? file with
  | none => []
  | some source =>
    match readStylesheet file source.content with
    | .error _ => []
    | .ok nodes =>
      let rules := Directive.atRules nodes
      rules.filterMap Directive.AtRule.request? ++
        match Directive.firstError? (Directive.registryOf rules) rules with
        | some _ => []
        | none => (expandRequest? ws p (Directive.modernizeAll nodes) session).toList

/-- An expansion asks for one warning at most, and whether it does is not up to the sink. -/
lemma expand_sink (ws : Workspace) (p : Pipeline) (document : List Node) (state : BuildState) :
    (expand ws p document state).2.sink
      = (expandRequest? ws p document state.session).toList.foldl Sink.ask state.sink := by
  rw [expand, expandRequest?]
  cases hcollect : state.session.collect ws p with
  | mk result session =>
      cases result with
      | error e => split_ifs <;> rfl
      | ok found =>
          split_ifs with hempty
          · simp only [Directive.request?, if_pos hempty]
            rfl
          · exact Directive.warnIfEmpty_eq document _ state.sink

/-- **A build asks a sink for warnings**, and does nothing else to it. -/
lemma compile_sink (ws : Workspace) (lib : Library) (p : Pipeline) (file : Nat) (state : BuildState) :
    (compile ws lib p file state).2.sink
      = (requests ws lib p file state.session).foldl Sink.ask state.sink := by
  cases hsource : lib.get? file with
  | none => simp only [compile, requests, hsource, List.foldl_nil]
  | some source =>
      cases hread : readStylesheet file source.content with
      | error e => simp only [compile, requests, hsource, hread, List.foldl_nil]
      | ok nodes =>
          have hreview : (Directive.normalize nodes state.sink).2
              = ((Directive.atRules nodes).filterMap Directive.AtRule.request?).foldl Sink.ask
                  state.sink :=
            Directive.foldl_warn (Directive.atRules nodes) state.sink
          simp only [compile_of_read hsource hread, requests, hsource, hread]
          rw [List.foldl_append, ← hreview]
          cases hfirst : Directive.firstError? (Directive.registryOf (Directive.atRules nodes))
              (Directive.atRules nodes) with
          | some e =>
              have hverdict : (Directive.normalize nodes state.sink).1 = .error e := by
                simp only [Directive.normalize, Directive.review, hfirst, Except.map]
              rw [hverdict]
              rfl
          | none =>
              have hverdict : (Directive.normalize nodes state.sink).1
                  = .ok (Directive.registryOf (Directive.atRules nodes),
                      Directive.modernizeAll nodes) := by
                simp only [Directive.normalize, Directive.review, hfirst, Except.map]
              rw [hverdict]
              exact expand_sink ws p _ _

/-! ### Kinds of warnings -/

lemma Directive.issued_of_mem {rules : List AtRule} {r : Request}
    (h : r ∈ rules.filterMap AtRule.request?) : r.Issued := by
  obtain ⟨rule, -, hrequest⟩ := List.mem_filterMap.1 h
  rw [AtRule.request?] at hrequest
  split_ifs at hrequest with hlegacy
  obtain rfl := Option.some.inj hrequest
  exact .deprecation hlegacy

/-- An expansion asks for the warning about the empty layer only. -/
lemma issued_of_expandRequest? {ws : Workspace} {p : Pipeline} {document : List Node}
    {session : Session} {r : Request} (h : expandRequest? ws p document session = some r) :
    r.Issued ∧ r.key = "content-problems" := by
  rw [expandRequest?] at h
  split at h
  · cases h
  · rw [Directive.request?] at h
    split_ifs at h
    obtain ⟨site, -, hsite⟩ := Option.bind_eq_some_iff.1 h
    split_ifs at hsite
    obtain rfl := Option.some.inj hsite
    exact ⟨.noUtilities _, rfl⟩

lemma issued_of_mem_requests {ws : Workspace} {lib : Library} {p : Pipeline} {file : Nat}
    {session : Session} {r : Request} (h : r ∈ requests ws lib p file session) : r.Issued := by
  rw [requests] at h
  split at h
  · cases h
  · split at h
    · cases h
    · rcases List.mem_append.1 h with hrule | hlayer
      · exact Directive.issued_of_mem hrule
      · split at hlayer
        · cases hlayer
        · exact (issued_of_expandRequest? (Option.mem_toList.1 hlayer)).1

/-- Whether a diagnostic is the deprecation of an at-rule with a name. -/
def Diagnostic.deprecates (name : String) (d : Diagnostic) : Bool :=
  d.code = .deprecatedAtRule ∧ d.message = "The `@" ++ name ++ "` directive has been deprecated."

/-- Whether a diagnostic is the warning about an empty layer. -/
def Diagnostic.reportsNoUtilities (d : Diagnostic) : Bool :=
  d.code = .noUtilities

namespace Request

/-- The two kinds of warning have different keys. -/
lemma key_ne (name : String) : name ++ "-at-rule-deprecated" ≠ "content-problems" := by
  intro h
  have hlast := congrArg (fun s : String => s.toList.getLast?) h
  simp [List.getLast?_append] at hlast

/-- The message tells the name. -/
lemma message_inj {name name' : String}
    (h : "The `@" ++ name ++ "` directive has been deprecated."
      = "The `@" ++ name' ++ "` directive has been deprecated.") : name = name' := by
  have hchars := congrArg String.toList h
  simp only [String.toList_append, List.append_cancel_right_eq, List.append_cancel_left_eq,
    String.toList_inj] at hchars
  exact hchars

namespace Issued
variable {r : Request}

/-- Warnings are all that is asked for. -/
lemma severity (h : r.Issued) : r.diagnostic.severity = .warning := by
  cases h with
  | deprecation hlegacy => exact Directive.deprecation_severity _
  | noUtilities span => exact Directive.noUtilities_severity span

/-- A deprecation is asked for under the name that it is about. -/
lemma deprecates_iff (h : r.Issued) (name : String) :
    r.diagnostic.deprecates name = true ↔ r.key = name ++ "-at-rule-deprecated" := by
  cases h with
  | @deprecation rule hlegacy =>
      simp only [Diagnostic.deprecates, Directive.deprecation_code, Directive.deprecation_message,
        true_and, decide_eq_true_eq]
      refine ⟨fun hsame => by rw [message_inj hsame], fun hsame => ?_⟩
      rw [String.append_left_inj] at hsame
      rw [hsame]
  | noUtilities span =>
      have hne : Code.noUtilities ≠ Code.deprecatedAtRule := by decide
      simp only [Diagnostic.deprecates, Directive.noUtilities_code, hne, false_and, decide_false,
        Bool.false_eq_true, false_iff]
      exact (key_ne name).symm

/-- The key tells the kind. -/
lemma reportsNoUtilities_iff (h : r.Issued) :
    r.diagnostic.reportsNoUtilities = true ↔ r.key = "content-problems" := by
  cases h with
  | @deprecation rule hlegacy =>
      have hne : Code.deprecatedAtRule ≠ Code.noUtilities := by decide
      simp only [Diagnostic.reportsNoUtilities, Directive.deprecation_code, hne, decide_false,
        Bool.false_eq_true, false_iff]
      exact key_ne rule.name
  | noUtilities span =>
      simp only [Diagnostic.reportsNoUtilities, Directive.noUtilities_code, decide_true]

/-- Equal warnings are asked for under equal keys. -/
lemma key_eq {r' : Request} (h : r.Issued) (h' : r'.Issued) (heq : r.diagnostic = r'.diagnostic) :
    r.key = r'.key := by
  cases h' with
  | @deprecation rule hlegacy =>
      rw [← h.deprecates_iff rule.name, heq]
      exact ((Issued.deprecation hlegacy).deprecates_iff rule.name).2 rfl
  | noUtilities span =>
      rw [← h.reportsNoUtilities_iff, heq]
      exact (Issued.noUtilities span).reportsNoUtilities_iff.2 rfl

end Issued

end Request

/-- The deprecation of an old name is asked for if some at-rule has the name. -/
lemma Directive.mem_keys_iff {nodes : List Node} {name : String}
    (hname : name ∈ ["responsive", "variants"]) :
    name ++ "-at-rule-deprecated" ∈ ((atRules nodes).filterMap AtRule.request?).map Request.key ↔
      ∃ path node params, Node.follow? nodes path = some node ∧
        node.atRule? = some (name, params) := by
  constructor
  · intro h
    obtain ⟨r, hr, hkey⟩ := List.mem_map.1 h
    obtain ⟨rule, hmem, hrequest⟩ := List.mem_filterMap.1 hr
    rw [AtRule.request?] at hrequest
    split_ifs at hrequest
    obtain rfl := Option.some.inj hrequest
    obtain ⟨path, node, hnode, hrule⟩ := mem_atRules.1 hmem
    obtain ⟨⟨name', params⟩, hat, rfl⟩ := Option.map_eq_some_iff.1 hrule
    obtain rfl : name' = name := (String.append_left_inj _).1 hkey
    exact ⟨path, node, params, hnode, hat⟩
  · rintro ⟨path, node, params, hnode, hat⟩
    have hmem : (⟨name, params, node.span⟩ : AtRule) ∈ atRules nodes :=
      mem_atRules.2 ⟨path, node, hnode, by rw [atRuleOf?, hat]; rfl⟩
    have hlegacy : (⟨name, params, node.span⟩ : AtRule).isLegacy = true := by
      simpa [AtRule.isLegacy] using hname
    exact List.mem_map.2 ⟨_, List.mem_filterMap.2 ⟨_, hmem, if_pos hlegacy⟩, rfl⟩

/-- Deprecations are asked for by the review, however the build ends. -/
lemma mem_keys_requests_iff {ws : Workspace} {lib : Library} {p : Pipeline} {file : Nat}
    {session : Session} {name : String} :
    name ++ "-at-rule-deprecated" ∈ (requests ws lib p file session).map Request.key ↔
      ∃ source nodes, lib.get? file = some source ∧
        readStylesheet file source.content = .ok nodes ∧
        name ++ "-at-rule-deprecated"
          ∈ ((Directive.atRules nodes).filterMap Directive.AtRule.request?).map Request.key := by
  cases hsource : lib.get? file with
  | none => simp [requests, hsource]
  | some source =>
      cases hread : readStylesheet file source.content with
      | error e => simp [requests, hsource, hread]
      | ok nodes =>
          simp only [requests, hsource, hread, List.map_append, List.mem_append]
          constructor
          · rintro (h | h)
            · exact ⟨source, nodes, rfl, hread, h⟩
            · split at h
              · cases h
              · obtain ⟨r, hr, hkey⟩ := List.mem_map.1 h
                have hlayer := (issued_of_expandRequest? (Option.mem_toList.1 hr)).2
                exact absurd (hkey.symm.trans hlayer) (Request.key_ne name)
          · rintro ⟨source, nodes', ⟨⟩, hread', h⟩
            obtain rfl := Except.ok.inj (hread.symm.trans hread')
            exact Or.inl h

namespace Request

/-! ## The first of each key -/

/-- The requests whose key was not used before. -/
def firsts (used : List String) : List Request → List Request
  | [] => []
  | r :: rest => if r.key ∈ used then firsts used rest else r :: firsts (r.key :: used) rest

/-- One more request is kept if its key is new. -/
lemma firsts_concat (used : List String) (asked : List Request) (r : Request) :
    firsts used (asked ++ [r])
      = firsts used asked ++ if r.key ∈ used ∨ r.key ∈ asked.map key then [] else [r] := by
  induction asked generalizing used with
  | nil =>
      simp only [List.nil_append, firsts, List.map_nil, List.not_mem_nil, or_false]
  | cons first rest ih =>
      rw [List.cons_append, firsts, firsts]
      split_ifs with hused hknown hknown
      · rw [ih, if_pos]
        rcases hknown with h | h
        · exact Or.inl h
        · rcases List.mem_cons.1 h with h | h
          · exact Or.inl (h ▸ hused)
          · exact Or.inr h
      · rw [ih, if_neg]
        rintro (h | h)
        · exact hknown (Or.inl h)
        · exact hknown (Or.inr (List.mem_cons_of_mem _ h))
      · rw [ih, if_pos, List.cons_append]
        simpa [or_left_comm, or_assoc] using hknown
      · rw [ih, if_neg, List.cons_append]
        simpa [or_left_comm, or_assoc] using hknown

/-- Nothing is said that was not asked for, nor in another order. -/
lemma firsts_sublist (used : List String) (asked : List Request) :
    (firsts used asked).Sublist asked := by
  induction asked generalizing used with
  | nil => exact List.Sublist.refl _
  | cons first rest ih =>
      rw [firsts]
      split_ifs
      · exact (ih used).cons first
      · exact (ih _).cons_cons first

/-- Every key that was asked for is among the first. -/
lemma mem_keys_firsts (asked : List Request) (key : String) :
    key ∈ (firsts [] asked).map Request.key ↔ key ∈ asked.map Request.key := by
  induction asked using List.reverseRecOn with
  | nil => rfl
  | append_singleton asked r ih =>
      rw [firsts_concat, List.map_append, List.map_append, List.mem_append, List.mem_append, ih]
      split_ifs with hknown
      · have hmem : r.key ∈ asked.map Request.key := by simpa using hknown
        refine ⟨fun h => Or.inl (h.resolve_right List.not_mem_nil), fun h => Or.inl ?_⟩
        rcases h with h | h
        · exact h
        · obtain rfl : key = r.key := by simpa using h
          exact hmem
      · rfl

/-- No key is among the first twice. -/
lemma nodup_keys_firsts (asked : List Request) : ((firsts [] asked).map Request.key).Nodup := by
  induction asked using List.reverseRecOn with
  | nil => exact List.nodup_nil
  | append_singleton asked r ih =>
      rw [firsts_concat, List.map_append]
      split_ifs with hknown
      · rwa [List.map_nil, List.append_nil]
      · have hnew : r.key ∉ (firsts [] asked).map Request.key := by
          rw [mem_keys_firsts]
          simpa using hknown
        rw [List.map_singleton, ← List.concat_eq_append]
        exact List.Nodup.concat hnew ih

section
variable {asked : List Request} (hissued : ∀ r ∈ asked, r.Issued)
include hissued

/-- A kind of warning that belongs to one key is kept once. -/
lemma countP_firsts_le {kind : Diagnostic → Bool} {key : String}
    (hkind : ∀ r : Request, r.Issued → (kind r.diagnostic = true ↔ r.key = key)) :
    ((firsts [] asked).map diagnostic).countP kind ≤ 1 := by
  have hkeys := List.nodup_iff_count_le_one.1 (nodup_keys_firsts asked) key
  rw [List.count, List.countP_map] at hkeys
  rw [List.countP_map]
  refine le_of_eq_of_le (List.countP_congr fun r hr => ?_) hkeys
  rw [Function.comp_apply, Function.comp_apply, beq_iff_eq]
  exact hkind r (hissued r ((firsts_sublist [] asked).subset hr))

/-- A kind of warning that belongs to one key is kept if it was asked for. -/
lemma exists_kind_iff {kind : Diagnostic → Bool} {key : String}
    (hkind : ∀ r : Request, r.Issued → (kind r.diagnostic = true ↔ r.key = key)) :
    (∃ d ∈ (firsts [] asked).map diagnostic, kind d = true) ↔ key ∈ asked.map Request.key := by
  have hkept : ∀ r ∈ firsts [] asked, (kind r.diagnostic = true ↔ r.key = key) := fun r hr =>
    hkind r (hissued r ((firsts_sublist [] asked).subset hr))
  rw [← mem_keys_firsts, List.mem_map]
  constructor
  · rintro ⟨d, hd, hkind⟩
    obtain ⟨r, hr, rfl⟩ := List.mem_map.1 hd
    exact ⟨r, hr, (hkept r hr).1 hkind⟩
  · rintro ⟨r, hr, hkey⟩
    exact ⟨r.diagnostic, List.mem_map_of_mem hr, (hkept r hr).2 hkey⟩

/-- Different keys are different diagnostics. -/
lemma nodup_firsts : ((firsts [] asked).map diagnostic).Nodup := by
  have hkeys := List.pairwise_map.1 (nodup_keys_firsts asked)
  refine List.pairwise_map.2 (hkeys.imp_of_mem fun hr hr' hne heq => hne ?_)
  exact (hissued _ ((firsts_sublist [] asked).subset hr)).key_eq
    (hissued _ ((firsts_sublist [] asked).subset hr')) heq

end

end Request

/-! ## Runs -/

/-- A use of a sink: a build that warns into it, or taking out what it holds. -/
inductive SinkUse where
  | build (ws : Workspace) (lib : Library) (p : Pipeline) (file : Nat) (session : Session)
  | drain

namespace SinkUse

/-- What is asked for. -/
def asked : SinkUse → List Request
  | .build ws lib p file session => requests ws lib p file session
  | .drain => []

/-- Whether the use is a build. -/
def isBuild : SinkUse → Bool
  | .build .. => true
  | .drain => false

/-- The use is a build that reviews a document in which an at-rule has the name, at any depth.  How the
build ends is left open. -/
inductive Reviews (name : String) : SinkUse → Prop
  | build {ws : Workspace} {lib : Library} {p : Pipeline} {file : Nat} {session : Session}
      {source : SourceText} {nodes : List Node} {path : List Nat} {node : Node} {params : String}
      (hsource : lib.get? file = some source)
      (hread : readStylesheet file source.content = .ok nodes)
      (hnode : Node.follow? nodes path = some node) (hrule : node.atRule? = some (name, params)) :
      Reviews name (.build ws lib p file session)

end SinkUse

/-- A sink, and what was taken out of it. -/
structure Watched where
  sink : Sink
  delivered : List Diagnostic

namespace Watched

/-- A new sink. -/
def start : Watched := ⟨.empty, []⟩

/-- Uses the sink. -/
def step (w : Watched) : SinkUse → Watched
  | .build ws lib p file session =>
    { w with sink := (compile ws lib p file ⟨session, w.sink⟩).2.sink }
  | .drain => { sink := w.sink.drain.2, delivered := w.delivered ++ w.sink.drain.1 }

/-- A new sink after some uses. -/
def after (uses : List SinkUse) : Watched :=
  uses.foldl step start

/-- What was taken out, and behind it what is held. -/
def told (w : Watched) : List Diagnostic :=
  w.delivered ++ w.sink.held

/-- What is known of a sink that was asked for warnings. -/
structure Tells (asked : List Request) (w : Watched) : Prop where
  told_eq : w.told = (Request.firsts [] asked).map Request.diagnostic
  mem_keys : ∀ key, key ∈ w.sink.keys ↔ key ∈ asked.map Request.key
  errors_eq : w.sink.errors = 0

namespace Tells
variable {asked : List Request} {w : Watched}

lemma start : Tells [] start :=
  ⟨rfl, fun _ => Iff.rfl, rfl⟩

/-- One request is answered by the keys that the sink remembers, not by what it holds. -/
lemma ask (h : w.Tells asked) {r : Request} (hissued : r.Issued) :
    Tells (asked ++ [r]) { w with sink := w.sink.ask r } := by
  have hkeys : ∀ key, key ∈ (asked ++ [r]).map Request.key ↔ key ∈ w.sink.keys ∨ key = r.key := by
    intro key
    rw [List.map_append, List.mem_append, h.mem_keys]
    exact or_congr_right List.mem_singleton
  by_cases hknown : r.key ∈ w.sink.keys
  · have hsink : w.sink.ask r = w.sink := by
      rw [Sink.ask, Sink.emitOnce, Sink.hasKey, if_pos (List.contains_iff_mem.2 hknown)]
    refine ⟨?_, fun key => ?_, by rw [hsink]; exact h.errors_eq⟩
    · rw [Request.firsts_concat, if_pos (Or.inr ((h.mem_keys _).1 hknown)), List.append_nil, hsink]
      exact h.told_eq
    · rw [hsink, hkeys]
      exact ⟨Or.inl, fun hkey => hkey.elim id fun hkey => hkey ▸ hknown⟩
  · have hnew : ¬ (r.key ∈ ([] : List String) ∨ r.key ∈ asked.map Request.key) := by
      rw [← h.mem_keys]
      exact fun hkey => hkey.elim List.not_mem_nil hknown
    have hsink : w.sink.ask r = { w.sink with keys := r.key :: w.sink.keys }.emit r.diagnostic := by
      rw [Sink.ask, Sink.emitOnce, Sink.hasKey, if_neg (mt List.contains_iff_mem.1 hknown)]
    refine ⟨?_, fun key => ?_, ?_⟩
    · rw [Request.firsts_concat, if_neg hnew, List.map_append, ← h.told_eq, hsink]
      exact (List.append_assoc _ _ _).symm
    · rw [hsink, hkeys]
      exact List.mem_cons.trans or_comm
    · have hwarning : r.diagnostic.severity ≠ .error := by
        rw [hissued.severity]
        decide
      rw [hsink]
      exact (if_neg hwarning).trans h.errors_eq

/-- Requests are answered one after the other. -/
lemma askAll (h : w.Tells asked) {rs : List Request} (hissued : ∀ r ∈ rs, r.Issued) :
    Tells (asked ++ rs) { w with sink := rs.foldl Sink.ask w.sink } := by
  induction rs generalizing asked w with
  | nil => rwa [List.append_nil]
  | cons r rest ih =>
      rw [List.forall_mem_cons] at hissued
      have hrest := ih (h.ask hissued.1) hissued.2
      rwa [List.append_assoc] at hrest

/-- **Step.**  A build asks for its warnings, and a drain moves what is held behind what was taken out. -/
lemma step (h : w.Tells asked) (use : SinkUse) : Tells (asked ++ use.asked) (w.step use) := by
  cases use with
  | build ws lib p file session =>
      rw [Watched.step, compile_sink]
      exact h.askAll fun r hr => issued_of_mem_requests hr
  | drain =>
      rw [SinkUse.asked, List.append_nil]
      exact ⟨(List.append_nil _).trans h.told_eq, h.mem_keys, h.errors_eq⟩

/-- **Run.** -/
lemma run (h : w.Tells asked) (uses : List SinkUse) :
    Tells (asked ++ uses.flatMap SinkUse.asked) (uses.foldl Watched.step w) := by
  induction uses generalizing asked w with
  | nil => rwa [List.flatMap_nil, List.append_nil]
  | cons use rest ih =>
      rw [List.flatMap_cons, ← List.append_assoc]
      exact ih (h.step use)

end Tells

lemma tells_after (uses : List SinkUse) : (after uses).Tells (uses.flatMap SinkUse.asked) :=
  Tells.start.run uses

/-- Nothing is taken out without a drain. -/
lemma delivered_of_builds {uses : List SinkUse} (h : ∀ use ∈ uses, use.isBuild = true) :
    (after uses).delivered = [] := by
  have hrun : ∀ w : Watched, (uses.foldl step w).delivered = w.delivered := by
    induction uses with
    | nil => exact fun w => rfl
    | cons use rest ih =>
        rw [List.forall_mem_cons] at h
        intro w
        rw [List.foldl_cons, ih h.2]
        cases use with
        | build ws lib p file session => rfl
        | drain => exact absurd h.1 Bool.false_ne_true
  exact hrun start

end Watched

namespace SinkUse

/-- Drains ask for nothing. -/
lemma flatMap_asked_builds (uses : List SinkUse) :
    (uses.filter isBuild).flatMap asked = uses.flatMap asked := by
  induction uses with
  | nil => rfl
  | cons use rest ih =>
      cases use with
      | build ws lib p file session =>
          rw [List.filter_cons_of_pos rfl, List.flatMap_cons, List.flatMap_cons, ih]
      | drain =>
          rw [List.filter_cons_of_neg Bool.false_ne_true, ih]
          rfl

/-- Whatever a use asks for is one of the warnings there are. -/
lemma issued_of_mem_asked {use : SinkUse} {r : Request} (h : r ∈ use.asked) : r.Issued := by
  cases use with
  | build ws lib p file session => exact issued_of_mem_requests h
  | drain => cases h

/-- The deprecation of a name is asked for by the builds that review a document with it. -/
lemma mem_asked_iff {name : String} (hname : name ∈ ["responsive", "variants"]) (use : SinkUse) :
    name ++ "-at-rule-deprecated" ∈ use.asked.map Request.key ↔ use.Reviews name := by
  cases use with
  | drain => exact ⟨nofun, nofun⟩
  | build ws lib p file session =>
      refine mem_keys_requests_iff.trans ⟨?_, ?_⟩
      · rintro ⟨source, nodes, hsource, hread, hasked⟩
        obtain ⟨path, node, params, hnode, hrule⟩ := (Directive.mem_keys_iff hname).1 hasked
        exact .build hsource hread hnode hrule
      · rintro ⟨hsource, hread, hnode, hrule⟩
        exact ⟨_, _, hsource, hread, (Directive.mem_keys_iff hname).2 ⟨_, _, _, hnode, hrule⟩⟩

end SinkUse

/-- **What one sink tells.**  Whatever builds and drains one sink serves, what was taken out of it and what it
holds are together the first requests of the builds, in order, and the same as without the drains.  A
deprecation is among them at most once for each name, and is there for an old name exactly if a build
reviewed a document with it; the warning about an empty layer is there at most once, and errors never. -/
theorem told_once (uses : List SinkUse) :
    (∀ name, (Watched.after uses).told.countP (Diagnostic.deprecates name) ≤ 1) ∧
      (Watched.after uses).told.countP Diagnostic.reportsNoUtilities ≤ 1 ∧
      (∀ d ∈ (Watched.after uses).told, d.severity ≠ .error) ∧
      (Watched.after uses).sink.hasErrors = false ∧
      (∀ name ∈ ["responsive", "variants"],
        (∃ d ∈ (Watched.after uses).told, d.deprecates name = true) ↔
          ∃ use ∈ uses, use.Reviews name) ∧
      (Watched.after uses).told.Nodup ∧
      (Watched.after uses).told
        = (Request.firsts [] (uses.flatMap SinkUse.asked)).map Request.diagnostic ∧
      (Watched.after uses).told = (Watched.after (uses.filter SinkUse.isBuild)).sink.held := by
  have htells := Watched.tells_after uses
  have hissued : ∀ r ∈ uses.flatMap SinkUse.asked, r.Issued := by
    intro r hr
    obtain ⟨use, -, hr⟩ := List.mem_flatMap.1 hr
    exact SinkUse.issued_of_mem_asked hr
  have hbuilds := Watched.tells_after (uses.filter SinkUse.isBuild)
  have hundrained : (Watched.after (uses.filter SinkUse.isBuild)).delivered = [] :=
    Watched.delivered_of_builds fun use huse => (List.mem_filter.1 huse).2
  rw [SinkUse.flatMap_asked_builds] at hbuilds
  refine ⟨fun name => ?_, ?_, fun d hd => ?_, ?_, fun name hname => ?_, ?_, htells.told_eq, ?_⟩
  · rw [htells.told_eq]
    exact Request.countP_firsts_le hissued fun r hr => hr.deprecates_iff name
  · rw [htells.told_eq]
    exact Request.countP_firsts_le hissued fun r hr => hr.reportsNoUtilities_iff
  · rw [htells.told_eq] at hd
    obtain ⟨r, hr, rfl⟩ := List.mem_map.1 hd
    rw [(hissued r ((Request.firsts_sublist [] _).subset hr)).severity]
    decide
  · rw [Sink.hasErrors, htells.errors_eq]
    rfl
  · rw [htells.told_eq, Request.exists_kind_iff hissued fun r hr => hr.deprecates_iff name,
      List.map_flatMap, List.mem_flatMap]
    exact exists_congr fun use => and_congr_right fun _ => SinkUse.mem_asked_iff hname use
  · rw [htells.told_eq]
    exact Request.nodup_firsts hissued
  · rw [htells.told_eq, ← hbuilds.told_eq, Watched.told, hundrained, List.nil_append]

/-- Two builds of one document with two blocks in old spelling, and a drain between them: the warning is
said by the first, which fails behind the review. -/
example :
    let lib := (Library.empty.add "input.css" "@variants(hover)\x7b\x7d@variants\tfocus\x7b\x7d").1
    let use : SinkUse := .build ⟨[], []⟩ lib (.bare fun _ => []) 0 (.start 1)
    (Watched.after [use, .drain, use]).delivered.map (Diagnostic.deprecates "variants") = [true] ∧
      (Watched.after [use, .drain, use]).sink.held = [] := by
  decide +kernel

end UtilityCss
