import UtilityCss.Proofs.Incremental
import UtilityCss.Proofs.Recall

/-!
# A build that fails leaves no trace

A build can fail in its stylesheet, in its directives or in any batch of its content files, the last
with part of the content already looked at.  What was learnt about lines by then is kept, and the
warnings stay emitted; nothing else is.

* **Owners** — `Action`: whoever owns a session edits files, takes care of the diagnostics and
  builds stylesheets, each time with a pipeline of their choice; in between, lines may be forgotten.
  `answers` lists what the owner gets to see, and `deeds` what the owner does.
* **Alike sessions** — `Session.Alike`: two sessions that differ in the lines they remember, if at
  all.  One build keeps them alike and answers alike (`Alike.compile`), so a whole course of actions
  answers what its deeds do (`Alike.answers_deeds`), whatever is forgotten on the way.
* **Failure** — `Alike.of_compile_error`: a session is alike before and after a build that fails.

Handlers with the same key share what is remembered about lines, so they have to extract the same:
`KeysTell`.
-/

namespace UtilityCss

/-! ## Owners of a session -/

/-- Something done by the owner of a session, or that happens to it. -/
inductive Action where
  | edit (files : Workspace)
  /-- The diagnostics are taken out, or another sink is used from now on. -/
  | report (change : Sink → Sink)
  /-- Lines are forgotten, and from now on they are forgotten in another way. -/
  | forget (now later : Forgetting)
  | build (lib : Library) (p : Pipeline) (file : Nat)

namespace Action

/-- What an action builds with, if it is a build. -/
def pipeline? : Action → Option Pipeline
  | .build _ p _ => some p
  | .edit _ => none
  | .report _ => none
  | .forget .. => none

/-- Whether the owner does it; lines are forgotten without anyone's doing. -/
def isDeed : Action → Bool
  | .forget .. => false
  | _ => true

/-- What the owner does in a course of actions. -/
def deeds (actions : List Action) : List Action :=
  actions.filter isDeed

lemma deeds_cons {action : Action} (h : action.isDeed = true) (rest : List Action) :
    deeds (action :: rest) = action :: deeds rest :=
  List.filter_cons_of_pos h

/-- All builds are deeds. -/
lemma pipelines_deeds (actions : List Action) :
    (deeds actions).filterMap pipeline? = actions.filterMap pipeline? := by
  rw [deeds, List.filterMap_filter]
  congr 1
  funext action
  cases action <;> rfl

/-- Files and session behind an action. -/
def perform (files : Workspace) (state : BuildState) : Action → Workspace × BuildState
  | .edit files => (files, state)
  | .report change => (files, { state with sink := change state.sink })
  | .forget now later => (files, { state with session := state.session.forget now later })
  | .build lib p file => (files, (compile files lib p file state).2)

/-- Files and session behind a course of actions. -/
def performAll : Workspace → BuildState → List Action → Workspace × BuildState
  | files, state, [] => (files, state)
  | files, state, action :: rest =>
    performAll (action.perform files state).1 (action.perform files state).2 rest

/-- What an action answers, if it is a build. -/
def answer? (files : Workspace) (state : BuildState) :
    Action → Option (Except BuildError (List Node))
  | .build lib p file => some (compile files lib p file state).1
  | .edit _ => none
  | .report _ => none
  | .forget .. => none

/-- The forests and errors that a course of actions answers. -/
def answers : Workspace → BuildState → List Action → List (Except BuildError (List Node))
  | _, _, [] => []
  | files, state, action :: rest =>
    (action.answer? files state).toList ++
      answers (action.perform files state).1 (action.perform files state).2 rest

end Action

/-- Handlers of these pipelines with the same key extract the same. -/
def KeysTell (pipelines : List Pipeline) : Prop :=
  ∀ p ∈ pipelines, ∀ q ∈ pipelines, ∀ e f,
    (p.handlers.get e).key = (q.handlers.get f).key →
      (p.handlers.get e).extract = (q.handlers.get f).extract

/-- A key that tells an extractor can be asked for it. -/
lemma KeysTell.exists_extractor {pipelines : List Pipeline} (h : KeysTell pipelines) :
    ∃ extractor, ∀ p ∈ pipelines, p.handlers.Follow extractor := by
  let handler (e : { p // p ∈ pipelines } × String) : Handler := e.1.1.handlers.get e.2
  have hfactors : Function.FactorsThrough (fun e => (handler e).extract) fun e => (handler e).key :=
    fun e f => h _ e.1.2 _ f.1.2 e.2 f.2
  obtain ⟨extractor, heq⟩ := (Function.factorsThrough_iff _).1 hfactors
  exact ⟨extractor, fun p hp e => congrFun heq ⟨⟨p, hp⟩, e⟩⟩

/-! ## Alike sessions -/

/-- Two sessions that differ in the lines they remember, if at all. -/
structure Session.Alike (extractor : String → String → List String) (s t : Session) : Prop where
  left : s.scanner.lines.Sound extractor
  right : t.scanner.lines.Sound extractor
  tracker : s.scanner.tracker = t.scanner.tracker
  rules : s.rules = t.rules
  candidates : s.candidates = t.candidates

variable {extractor : String → String → List String} {s t : Session}

/-- A session that can be trusted is alike itself. -/
lemma Session.alike_self (h : s.scanner.lines.Sound extractor) : s.Alike extractor s :=
  ⟨h, h, rfl, rfl, rfl⟩

/-- A session stays alike what it was when it forgets lines. -/
lemma Session.Alike.forget (h : s.Alike extractor t) (now later : Forgetting) :
    (s.forget now later).Alike extractor t :=
  ⟨h.left.forget now later, h.right, h.tracker, h.rules, h.candidates⟩

/-- Scanning finds the same and fails alike, and the sessions stay alike. -/
lemma Session.Alike.collect (h : s.Alike extractor t) {p : Pipeline}
    (hp : p.handlers.Follow extractor) (files : Workspace) :
    (s.collect files p).1 = (t.collect files p).1 ∧
      (s.collect files p).2.Alike extractor (t.collect files p).2 := by
  obtain ⟨hresult, htracker, hleft, hright⟩ :=
    Scan.scan_alike hp files p.batchSize p.content h.left h.right h.tracker
  rw [Session.collect, Session.collect]
  simp only [← hresult]
  cases (scan files p.handlers p.batchSize p.content s.scanner).1 with
  | error e => exact ⟨rfl, hleft, hright, htracker, h.rules, h.candidates⟩
  | ok found => exact ⟨rfl, hleft, hright, htracker, h.rules, by simp only [h.candidates]⟩

/-- Alike sessions make the same sheet. -/
lemma Session.Alike.generate (h : s.Alike extractor t) (resolve : Resolver) :
    (s.generate resolve).1 = (t.generate resolve).1 ∧
      (s.generate resolve).2.Alike extractor (t.generate resolve).2 := by
  rw [Session.generate, Session.generate, h.rules, h.candidates]
  exact ⟨rfl, h.left, h.right, h.tracker, rfl, rfl⟩

/-- Expanding a document: the sinks play no part. -/
lemma Session.Alike.expand (h : s.Alike extractor t) {p : Pipeline}
    (hp : p.handlers.Follow extractor) (files : Workspace) (nodes : List Node) (a b : Sink) :
    (expand files p nodes ⟨s, a⟩).1 = (expand files p nodes ⟨t, b⟩).1 ∧
      (expand files p nodes ⟨s, a⟩).2.session.Alike extractor
        (expand files p nodes ⟨t, b⟩).2.session := by
  rw [UtilityCss.expand, UtilityCss.expand]
  split_ifs
  · exact ⟨rfl, h⟩
  · obtain ⟨hresult, hnext⟩ := h.collect hp files
    cases hs : s.collect files p with
    | mk result next =>
        cases ht : t.collect files p with
        | mk result' next' =>
            rw [hs, ht] at hresult hnext
            obtain rfl : result = result' := hresult
            cases result with
            | error e => exact ⟨rfl, hnext⟩
            | ok _ =>
                obtain ⟨hsheet, hlast⟩ := hnext.generate p.resolve
                exact ⟨by simp only [hsheet], hlast⟩

/-- What is left of a build once its stylesheet is read: the verdict on the directives, and the
    document expanded. -/
lemma compile_of_read {lib : Library} {file : Nat} {source : SourceText}
    (hsource : lib.get? file = some source) {nodes : List Node}
    (hread : readStylesheet file source.content = .ok nodes) (files : Workspace) (p : Pipeline)
    (state : BuildState) :
    compile files lib p file state
      = match (Directive.normalize nodes state.sink).1 with
        | .error e =>
          (.error (.directive e), { state with sink := (Directive.normalize nodes state.sink).2 })
        | .ok (_, forest) =>
          let expanded := expand files p forest
            { state with sink := (Directive.normalize nodes state.sink).2 }
          (expanded.1.mapError .scan, expanded.2) := by
  cases hn : Directive.normalize nodes state.sink with
  | mk verdict sink =>
      cases verdict with
      | error e => simp only [compile, hsource, hread, hn]
      | ok found => simp only [compile, hsource, hread, hn]

/-- **One build keeps sessions alike** and answers the same in both. -/
theorem Session.Alike.compile (h : s.Alike extractor t) {p : Pipeline}
    (hp : p.handlers.Follow extractor) (files : Workspace) (lib : Library) (file : Nat)
    (a b : Sink) :
    (compile files lib p file ⟨s, a⟩).1 = (compile files lib p file ⟨t, b⟩).1 ∧
      (compile files lib p file ⟨s, a⟩).2.session.Alike extractor
        (compile files lib p file ⟨t, b⟩).2.session := by
  cases hsource : lib.get? file with
  | none =>
      simpa only [UtilityCss.compile, hsource, true_and] using h
  | some source =>
      cases hread : readStylesheet file source.content with
      | error e =>
          simpa only [UtilityCss.compile, hsource, hread, true_and] using h
      | ok nodes =>
          rw [compile_of_read hsource hread, compile_of_read hsource hread]
          simp only [Directive.normalize_fst nodes a, Directive.normalize_fst nodes b]
          cases (Directive.normalize nodes .empty).1 with
          | error e => exact ⟨rfl, h⟩
          | ok found =>
              obtain ⟨hresult, hnext⟩ := h.expand hp files found.2
                (Directive.normalize nodes a).2 (Directive.normalize nodes b).2
              exact ⟨by simp only [hresult], hnext⟩

/-- Whatever follows, alike sessions answer the same; what is forgotten on the way cannot be seen. -/
theorem Session.Alike.answers_deeds (h : s.Alike extractor t) (files : Workspace) (a b : Sink)
    (actions : List Action)
    (hactions : ∀ p ∈ actions.filterMap Action.pipeline?, p.handlers.Follow extractor) :
    Action.answers files ⟨s, a⟩ actions = Action.answers files ⟨t, b⟩ (Action.deeds actions) := by
  induction actions generalizing s t files a b with
  | nil => rfl
  | cons action rest ih =>
      rw [Action.answers]
      cases action with
      -- one session forgets, the other goes on as it is
      | forget now later => exact ih (h.forget now later) files a b hactions
      | edit files' =>
          rw [Action.deeds_cons rfl, Action.answers]
          exact ih h files' a b hactions
      | report change =>
          rw [Action.deeds_cons rfl, Action.answers]
          exact ih h files (change a) (change b) hactions
      | build lib p file =>
          rw [List.filterMap_cons, Action.pipeline?, List.forall_mem_cons] at hactions
          obtain ⟨hanswer, hnext⟩ := h.compile hactions.1 files lib file a b
          rw [Action.deeds_cons rfl, Action.answers, Action.answer?, Action.answer?, hanswer]
          exact congrArg _ (ih hnext files _ _ hactions.2)

/-- The same for two courses of actions in which other lines are forgotten. -/
theorem Session.Alike.answers (h : s.Alike extractor t) (files : Workspace) (a b : Sink)
    {actions actions' : List Action} (hdeeds : Action.deeds actions = Action.deeds actions')
    (hactions : ∀ p ∈ actions.filterMap Action.pipeline?, p.handlers.Follow extractor) :
    Action.answers files ⟨s, a⟩ actions = Action.answers files ⟨t, b⟩ actions' := by
  have hactions' : ∀ p ∈ actions'.filterMap Action.pipeline?, p.handlers.Follow extractor := by
    rwa [← Action.pipelines_deeds, ← hdeeds, Action.pipelines_deeds]
  have hself : t.Alike extractor t := Session.alike_self h.right
  calc Action.answers files ⟨s, a⟩ actions
      = Action.answers files ⟨t, b⟩ (Action.deeds actions) := h.answers_deeds files a b actions hactions
    _ = Action.answers files ⟨t, b⟩ (Action.deeds actions') := by rw [hdeeds]
    _ = Action.answers files ⟨t, b⟩ actions' := (hself.answers_deeds files b b actions' hactions').symm

/-- The memory of a session that is only used with such pipelines can be trusted. -/
lemma sound_performAll (files : Workspace) (state : BuildState)
    (h : state.session.scanner.lines.Sound extractor) (actions : List Action)
    (hactions : ∀ p ∈ actions.filterMap Action.pipeline?, p.handlers.Follow extractor) :
    (Action.performAll files state actions).2.session.scanner.lines.Sound extractor := by
  induction actions generalizing files state with
  | nil => exact h
  | cons action rest ih =>
      rw [Action.performAll]
      cases action with
      | edit files' => exact ih files' state h hactions
      | report change => exact ih files _ h hactions
      | forget now later => exact ih files _ (h.forget now later) hactions
      | build lib p file =>
          rw [List.filterMap_cons, Action.pipeline?, List.forall_mem_cons] at hactions
          have hself := (Session.alike_self h).compile hactions.1 files lib file
            state.sink state.sink
          exact ih files _ hself.2.left hactions.2

/-! ## Failure -/

/-- A scan that fails leaves everything but the remembered lines as it was. -/
lemma Session.collect_of_error {files : Workspace} {p : Pipeline} {e : ScanError}
    (h : (s.collect files p).1 = .error e) :
    (s.collect files p).2.scanner.tracker = s.scanner.tracker ∧
      (s.collect files p).2.rules = s.rules ∧ (s.collect files p).2.candidates = s.candidates := by
  rw [Session.collect] at h ⊢
  cases hresult : (scan files p.handlers p.batchSize p.content s.scanner).1 with
  | error e' =>
      simp only [hresult, and_true]
      exact Scan.tracker_of_scan_error hresult
  | ok found => simp [hresult] at h

/-- An expansion fails only with its scan, and has touched nothing else. -/
lemma expand_of_error {files : Workspace} {p : Pipeline} {nodes : List Node} {state : BuildState}
    {e : ScanError} (h : (expand files p nodes state).1 = .error e) :
    (state.session.collect files p).1 = .error e ∧
      (expand files p nodes state).2.session = (state.session.collect files p).2 := by
  rw [expand] at h ⊢
  split_ifs at h ⊢
  cases hcollect : state.session.collect files p with
  | mk result next =>
      rw [hcollect] at h
      cases result with
      | error e' => exact ⟨by simpa using h, rfl⟩
      | ok _ => cases h

/-- A build that fails leaves everything but the lines it remembers as it was. -/
lemma compile_of_error {p : Pipeline} {files : Workspace} {lib : Library} {file : Nat}
    {state : BuildState} {e : BuildError} (h : (compile files lib p file state).1 = .error e) :
    (compile files lib p file state).2.session.scanner.tracker = state.session.scanner.tracker ∧
      (compile files lib p file state).2.session.rules = state.session.rules ∧
      (compile files lib p file state).2.session.candidates = state.session.candidates := by
  cases hsource : lib.get? file with
  | none => simp only [compile, hsource, and_self]
  | some source =>
      cases hread : readStylesheet file source.content with
      | error e => simp only [compile, hsource, hread, and_self]
      | ok nodes =>
          rw [compile_of_read hsource hread] at h ⊢
          cases hverdict : (Directive.normalize nodes state.sink).1 with
          | error e => simp only [and_self]
          | ok found =>
              simp only [hverdict] at h ⊢
              cases hexpand : (expand files p found.2
                { state with sink := (Directive.normalize nodes state.sink).2 }).1 with
              | ok forest => simp [hexpand, Except.mapError] at h
              | error e =>
                  obtain ⟨hcollect, hsession⟩ := expand_of_error hexpand
                  rw [hsession]
                  exact Session.collect_of_error hcollect

/-- A document that declares no layer is answered as it was read, and the session is not
    touched. -/
lemma compile_of_no_directive {lib : Library} {file : Nat} {source : SourceText}
    (hsource : lib.get? file = some source) {nodes : List Node}
    (hread : readStylesheet file source.content = .ok nodes) {state : BuildState}
    {registry : Registry} {forest : List Node}
    (hnormal : (Directive.normalize nodes state.sink).1 = .ok (registry, forest))
    (hnone : ∀ visit ∈ Node.visitsAll 0 nodes, ∀ params ∈ Directive.layerNames,
      visit.2.atRule? ≠ some ("tailwind", params)) (files : Workspace) (p : Pipeline) :
    compile files lib p file state
      = (.ok forest, { state with sink := (Directive.normalize nodes state.sink).2 }) := by
  have hempty : (Directive.Sites.find forest).isEmpty = true := by
    obtain ⟨-, -, rfl⟩ := Directive.of_normalize_eq_ok hnormal
    rw [Directive.find_isEmpty_iff, Directive.directives_modernizeAll,
      Directive.directives_eq_nil hnone]
  simp only [compile_of_read hsource hread, hnormal, expand, hempty, if_true, Except.mapError]

/-- **A build that fails leaves no trace.**  After any course of actions a build that fails changes
    nothing in the session but the lines it remembers, and whatever is done later is answered as if
    it had never been made, also if other lines are forgotten then.  A document that declares no layer
    changes nothing at all. -/
theorem compile_error_leaves_no_trace {retain : List KnownLine → List KnownLine}
    (hretain : ∀ known, retain known ⊆ known) (files : Workspace) (start : Sink)
    (before : List Action) (lib : Library) (p : Pipeline) (file : Nat) (sink : Sink)
    (later : List Action)
    (hkeys : KeysTell (before.filterMap Action.pipeline? ++ p :: later.filterMap Action.pipeline?)) :
    let now := Action.performAll files ⟨.fresh retain, start⟩ before
    let session := now.2.session
    let built := compile now.1 lib p file ⟨session, sink⟩
    (∀ e, built.1 = .error e →
      built.2.session.candidates = session.candidates ∧
      built.2.session.rules = session.rules ∧
      built.2.session.scanner.tracker = session.scanner.tracker ∧
      ∀ later', Action.deeds later' = Action.deeds later →
        ∀ a b, Action.answers now.1 ⟨built.2.session, a⟩ later
          = Action.answers now.1 ⟨session, b⟩ later') ∧
    (∀ source nodes registry forest, lib.get? file = some source →
      readStylesheet file source.content = .ok nodes →
      (Directive.normalize nodes sink).1 = .ok (registry, forest) →
      (∀ visit ∈ Node.visitsAll 0 nodes, ∀ params ∈ Directive.layerNames,
        visit.2.atRule? ≠ some ("tailwind", params)) →
      built.1 = .ok forest ∧ built.2.session = session) := by
  intro now session built
  obtain ⟨extractor, hfollow⟩ := hkeys.exists_extractor
  have hp : p.handlers.Follow extractor := hfollow p (by simp)
  have hsound : session.scanner.lines.Sound extractor := by
    refine sound_performAll files _ ⟨?_, hretain⟩ before fun q hq => hfollow q (by simp [hq])
    intro entry hentry
    cases hentry
  constructor
  · intro e herror
    obtain ⟨htracker, hrules, hcandidates⟩ := compile_of_error herror
    refine ⟨hcandidates, hrules, htracker, fun later' hdeeds a b => ?_⟩
    have hself := (Session.alike_self hsound).compile hp now.1 lib file sink sink
    have halike : built.2.session.Alike extractor session :=
      ⟨hself.2.left, hsound, htracker, hrules, hcandidates⟩
    exact halike.answers now.1 a b hdeeds.symm fun q hq => hfollow q (by simp [hq])
  · intro source nodes registry forest hsource hread hnormal hnone
    have hstate : (Directive.normalize nodes (BuildState.mk session sink).sink).1 =
        .ok (registry, forest) := hnormal
    have hbuilt : built = _ := compile_of_no_directive hsource hread hstate hnone now.1 p
    exact ⟨by rw [hbuilt], by rw [hbuilt]⟩

/-! ### A file that is missing at first -/

namespace Repaired

def lib : Library :=
  ((Library.empty.add "input.css" "@tailwind utilities;").1.add "plain.css" ".a\x7bx:y\x7d").1

/-- One content file is there, the other is listed only. -/
def missing : Workspace := ⟨[(["a.html"], .file "p-4".toUTF8)], []⟩

def whole : Workspace :=
  ⟨[(["a.html"], .file "p-4".toUTF8), (["b.html"], .file "m-2".toUTF8)], []⟩

def pipeline : Pipeline :=
  { resolve := fun c => [{ node := .block c [], layer := .utilities }]
    handlers := .builtin
    content := [.inline "w-8" "html", .file "a.html", .file "b.html"]
    batchSize := 1 }

/-- The repair, and the build after it. -/
def later : List Action := [.edit whole, .build lib pipeline 0]

/-- The same with all lines lost in between. -/
def forgetful : List Action :=
  [.edit whole, .forget ⟨fun _ => [], List.nil_subset⟩ ⟨id, List.Subset.refl⟩, .build lib pipeline 0]

lemma keysTell : KeysTell [pipeline, pipeline] := by
  intro p hp q hq e f _
  simp only [List.mem_cons, List.not_mem_nil, or_false, or_self] at hp hq
  subst hp hq
  have hreads := Handlers.builtIn_builtin.readWith
  exact (hreads e).trans (hreads f).symm

/-- A document without directives. -/
def plain : List Node :=
  [.rule ".a" [.declaration "x" "y" false (some ⟨1, 3, 6⟩)] true (some ⟨1, 0, 7⟩)]

end Repaired

open Repaired in
/-- The second file is missing when the content in front of it was already looked at; once it is
    there, the build answers as if it were the first and all lines were lost.  The plain stylesheet
    needs no content. -/
theorem compile_error_leaves_no_trace_repaired :
    KeysTell [pipeline, pipeline] ∧
      (∃ e, (compile missing lib pipeline 0 ⟨.start 1, .empty⟩).1 = .error e) ∧
      Action.answers missing
          ⟨(compile missing lib pipeline 0 ⟨.start 1, .empty⟩).2.session, .empty⟩ later
        = Action.answers missing ⟨.start 1, .empty⟩ forgetful ∧
      (compile missing lib pipeline 1 ⟨.start 1, .empty⟩).1 = .ok plain ∧
      (compile missing lib pipeline 1 ⟨.start 1, .empty⟩).2.session = .start 1 := by
  have hroom := LineMemory.keepNewest_subset 1
  have hfailed := compile_error_leaves_no_trace hroom missing .empty [] lib pipeline 0 .empty later
    keysTell
  have hplain := compile_error_leaves_no_trace hroom missing .empty [] lib pipeline 1 .empty later
    keysTell
  have herror : ∃ e, (compile missing lib pipeline 0 ⟨.start 1, .empty⟩).1 = .error e := by
    have hnone : (compile missing lib pipeline 0 ⟨.start 1, .empty⟩).1.toOption.isNone = true := by
      decide +kernel
    cases hbuilt : (compile missing lib pipeline 0 ⟨.start 1, .empty⟩).1 with
    | error e => exact ⟨e, rfl⟩
    | ok forest => simp [hbuilt, Except.toOption] at hnone
  obtain ⟨e, he⟩ := herror
  refine ⟨keysTell, ⟨e, he⟩, (hfailed.1 e he).2.2.2 forgetful rfl .empty .empty, ?_⟩
  refine hplain.2 (.make "plain.css" ".a\x7bx:y\x7d") plain ⟨[], []⟩ plain rfl ?_ ?_ ?_
  · with_unfolding_all rfl
  · with_unfolding_all rfl
  · decide +kernel

end UtilityCss
