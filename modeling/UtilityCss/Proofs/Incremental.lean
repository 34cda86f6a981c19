import UtilityCss.Build.Session
import UtilityCss.Proofs.ContentScan
import UtilityCss.Proofs.Directives
import UtilityCss.Proofs.RuleCache

/-!
# A session builds as if it remembered nothing

A session skips files whose digest it knows, answers lines from memory, asks the resolver once per
candidate and hands out the same sheet until a candidate is added.  None of this can be seen in what
it builds.  Beside the session stands a build without any memory, `freshBuild`, which is told every
candidate found so far; the two are compared after an arbitrary course of events.

* **Events** — `Event`: files are edited, content is listed anew, stylesheets are built, and lines
  are forgotten, of which any number may be lost at any time.
* **Without memory** — `document?`, `atScans` and `freshBuild` read documents and content in full
  and know of no session.
* **The invariant** — `Session.Remembers`: what a session keeps, stated through what was gathered
  and read so far.  `Remembers.compile` is its step and `Remembers.run` the induction over events.
* **The result** — `build_eq_freshBuild`.

Two things are assumed of the files read in the course of the events.  Digests stand for texts, so no
two texts read for one path may have the same digest (`DigestsTell`).  And a digest says nothing about
the extension a file is listed with, so one text read for one path has to be read by one handler
(`HandlersTell`); that is the case where the extension is always that of the path
(`handlersTell_of_extension`), and it cannot be dropped, as the example at the end shows.
-/

namespace UtilityCss

/-! ## Events -/

/-- Forgets lines; nothing else in a session is ever lost. -/
def Session.forget (session : Session) (now later : Forgetting) : Session :=
  { session with
    scanner := { session.scanner with lines := session.scanner.lines.forget now later } }

/-- What a build depends on besides its session and its stylesheet. -/
structure Surroundings where
  files : Workspace
  content : List ContentItem
  /-- How many files are read at a time. -/
  batchSize : Nat

/-- Something that happens while a session is in use. -/
inductive Event where
  /-- Files are written, removed or moved; these are the files afterwards. -/
  | edit (files : Workspace)
  | relist (content : List ContentItem) (batchSize : Nat)
  /-- Lines are forgotten, and from now on they are forgotten in another way.  A scan asks for a line
  once, so a line that is lost in the middle of a scan might as well be lost before it or after. -/
  | forget (now later : Forgetting)
  | build (lib : Library) (file : Nat)

namespace Surroundings

/-- The surroundings behind an event. -/
def after (s : Surroundings) : Event → Surroundings
  | .edit files => { s with files }
  | .relist content batchSize => { s with content, batchSize }
  | .forget .. => s
  | .build .. => s

/-- The surroundings behind a course of events. -/
def afterAll (s : Surroundings) (events : List Event) : Surroundings :=
  events.foldl after s

/-- What a build with these surroundings is configured with. -/
def pipeline (s : Surroundings) (resolve : Resolver) (hs : Handlers) : Pipeline :=
  { resolve, handlers := hs, content := s.content, batchSize := s.batchSize }

/-- Builds a stylesheet with what is kept from earlier builds. -/
def build (s : Surroundings) (resolve : Resolver) (hs : Handlers) (lib : Library) (file : Nat)
    (state : BuildState) : Except BuildError (List Node) × BuildState :=
  compile s.files lib (s.pipeline resolve hs) file state

/-- What is kept behind an event. -/
def keep (s : Surroundings) (resolve : Resolver) (hs : Handlers) (state : BuildState) :
    Event → BuildState
  | .build lib file => (s.build resolve hs lib file state).2
  | .forget now later => { state with session := state.session.forget now later }
  | .edit .. => state
  | .relist .. => state

/-- What is kept behind a course of events. -/
def run (resolve : Resolver) (hs : Handlers) : Surroundings → BuildState → List Event → BuildState
  | _, state, [] => state
  | s, state, event :: rest => run resolve hs (s.after event) (s.keep resolve hs state event) rest

end Surroundings

/-- A session that nothing was built in, whose memory forgets lines as `retain` says. -/
def Session.fresh (retain : List KnownLine → List KnownLine) : Session :=
  ⟨⟨⟨[], retain⟩, .empty⟩, .empty, []⟩

/-! ## Without memory -/

/-- The layers a stylesheet declares and its tree in modern spelling, if it can be read and its
    blocks belong to declared layers. -/
def document? (lib : Library) (file : Nat) : Option (Registry × List Node) := do
  let source ← lib.get? file
  let nodes ← (readStylesheet file source.content).toOption
  (Directive.normalize nodes .empty).1.toOption

namespace Surroundings

/-- Whether a build scans its content and the scan succeeds. -/
def scans (s : Surroundings) (lib : Library) (file : Nat) : Bool :=
  match document? lib file with
  | some (registry, _) => registry.declaresLayer && ContentItem.readable s.files s.content
  | none => false

/-- The candidates of everything that is listed, extracted in full. -/
def candidates (s : Surroundings) (hs : Handlers) : List String :=
  s.content.flatMap (·.candidates s.files hs)

/-- The listed files with their extensions and texts, as they stand. -/
def reads (s : Surroundings) : List ContentFile :=
  (ContentItem.listings s.content).filterMap fun (path, extension) =>
    (s.files.contentText? path).map fun text => ⟨path, extension, text⟩

/-- Something about the surroundings, if the event is a build whose scan succeeds. -/
def atScan {α : Type} (look : Surroundings → List α) (s : Surroundings) : Event → List α
  | .build lib file => if s.scans lib file then look s else []
  | .edit .. => []
  | .relist .. => []
  | .forget .. => []

/-- The same along a course of events. -/
def atScans {α : Type} (look : Surroundings → List α) : Surroundings → List Event → List α
  | _, [] => []
  | s, event :: rest => atScan look s event ++ atScans look (s.after event) rest

/-- A build without memory, told the candidates to make rules for. -/
def freshBuild (s : Surroundings) (resolve : Resolver) (lib : Library) (file : Nat)
    (gathered : List String) : Option (List Node) := do
  let (registry, nodes) ← document? lib file
  if registry.declaresLayer then
    if ContentItem.readable s.files s.content then
      let all := Names.sorted (Candidate.always :: gathered)
      return Directive.merge nodes (Sheet.ofCandidates resolve all)
    else none
  else return nodes

end Surroundings

/-- No two texts read for one path have the same digest. -/
def DigestsTell (reads : List ContentFile) : Prop :=
  ∀ a ∈ reads, ∀ b ∈ reads, Path.parts a.path = Path.parts b.path →
    Digest.ofText a.text = Digest.ofText b.text → a.text = b.text

/-- Whenever one text was read for one path, one handler read it. -/
def HandlersTell (hs : Handlers) (reads : List ContentFile) : Prop :=
  ∀ a ∈ reads, ∀ b ∈ reads, Path.parts a.path = Path.parts b.path → a.text = b.text →
    hs.get a.extension = hs.get b.extension

/-- The handlers tell if every file is read by the extension of its path, however that is spelled. -/
lemma handlersTell_of_extension (hs : Handlers) {reads : List ContentFile}
    (h : ∀ read ∈ reads, read.extension = Path.extension read.path) : HandlersTell hs reads := by
  intro a ha b hb hparts _
  rw [h a ha, h b hb, Path.extension, Path.extension, Path.fileName?, Path.fileName?, hparts]

/-- All that is recorded about a file, its path and its digest, tells how it was read. -/
structure ReadsTell (hs : Handlers) (reads : List ContentFile) : Prop where
  digests : DigestsTell reads
  handlers : HandlersTell hs reads

/-- Fewer texts are told apart more easily. -/
lemma ReadsTell.mono {hs : Handlers} {reads more : List ContentFile} (h : ReadsTell hs more)
    (hsub : reads ⊆ more) : ReadsTell hs reads :=
  ⟨fun a ha b hb => h.digests a (hsub ha) b (hsub hb),
    fun a ha b hb => h.handlers a (hsub ha) b (hsub hb)⟩

/-! ## The invariant -/

/-- What a session keeps, stated through the candidates gathered and the files read so far. -/
structure Session.Remembers (resolve : Resolver) (hs : Handlers) (gathered : List String)
    (reads : List ContentFile) (session : Session) : Prop where
  memory : session.scanner.lines.Sound fun _ => Candidate.extract
  ascending : Names.Ascending session.candidates
  sound : ∀ c ∈ session.candidates, c = Candidate.always ∨ c ∈ gathered
  complete : ∀ c ∈ gathered, c ∈ session.candidates
  /-- A digest that is recorded is that of a text all of whose candidates were gathered. -/
  tracked : ∀ key digest, session.scanner.tracker.digests.lookup key = some digest →
    ∃ read ∈ reads, Path.parts read.path = key ∧ digest = Digest.ofText read.text ∧
      ∀ c ∈ Scan.textCandidates (hs.get read.extension) read.text, c ∈ gathered
  rules : ∃ known, known ⊆ session.candidates ∧ session.rules.Answers resolve known

variable {resolve : Resolver} {hs : Handlers} {gathered : List String}
  {reads : List ContentFile} {session : Session}

/-- A fresh session has nothing to remember. -/
lemma Session.remembers_fresh {retain : List KnownLine → List KnownLine}
    (hretain : ∀ known, retain known ⊆ known) :
    (Session.fresh retain).Remembers resolve hs [] [] where
  memory := ⟨(by intro entry h; cases h), hretain⟩
  ascending := Names.ascending_nil
  sound := by intro c h; cases h
  complete := by intro c h; cases h
  tracked := by intro key digest h; cases h
  rules := ⟨[], List.nil_subset _, RuleCache.answers_empty resolve⟩

namespace Surroundings

variable {s : Surroundings}

/-- A candidate stands in some listed item. -/
lemma mem_candidates {c : String} :
    c ∈ s.candidates hs ↔ ∃ item ∈ s.content, c ∈ item.candidates s.files hs := by
  rw [candidates, List.mem_flatMap]

/-- What a scan may read is what is listed. -/
lemma mem_reads {file : ContentFile} :
    file ∈ s.reads ↔ Scan.IsListed s.files (ContentItem.listings s.content) file := by
  simp only [reads, List.mem_filterMap, Option.map_eq_some_iff]
  constructor
  · rintro ⟨listed, hlisted, text, htext, rfl⟩
    exact ⟨hlisted, htext⟩
  · rintro ⟨hlisted, htext⟩
    exact ⟨_, hlisted, file.text, htext, rfl⟩

end Surroundings

namespace Session.Remembers

/-- A file that is passed over has nothing new: its digest is recorded, hence its text is one that
    was read before by the same handler, and all candidates of that were gathered. -/
lemma mem_of_not_isNew (h : session.Remembers resolve hs gathered reads) {s : Surroundings}
    (hreads : ReadsTell hs (reads ++ s.reads)) {file : ContentFile} {c : String}
    (hfile : file ∈ s.reads)
    (hsame : session.scanner.tracker.change? file.path file.text = none)
    (hc : c ∈ Scan.textCandidates (hs.get file.extension) file.text) : c ∈ gathered := by
  obtain ⟨read, hread, hkey, hdigest, hall⟩ :=
    h.tracked _ _ (Tracker.change?_eq_none_iff.mp hsame)
  have hbefore : read ∈ reads ++ s.reads := List.mem_append_left _ hread
  have hnow : file ∈ reads ++ s.reads := List.mem_append_right _ hfile
  have htext : read.text = file.text :=
    hreads.digests read hbefore file hnow hkey hdigest.symm
  have hhandler : hs.get read.extension = hs.get file.extension :=
    hreads.handlers read hbefore file hnow hkey htext
  refine hall c ?_
  rwa [htext, hhandler]

/-- A scan that succeeds finds exactly what the session lacks of the listed content. -/
lemma mem_found_or_gathered (h : session.Remembers resolve hs gathered reads)
    {s : Surroundings} (hreads : ReadsTell hs (reads ++ s.reads)) {found : List String}
    (hfound : ∀ c, c ∈ found ↔ ∃ item ∈ s.content,
      item.IsNew s.files session.scanner.tracker ∧ c ∈ item.candidates s.files hs) (c : String) :
    c ∈ found ∨ c ∈ gathered ↔ c ∈ gathered ++ s.candidates hs := by
  rw [List.mem_append, Surroundings.mem_candidates]
  constructor
  · rintro (hc | hc)
    · obtain ⟨item, hitem, -, hc⟩ := (hfound c).mp hc
      exact Or.inr ⟨item, hitem, hc⟩
    · exact Or.inl hc
  · rintro (hc | ⟨item, hitem, hc⟩)
    · exact Or.inr hc
    · by_cases hnew : item.IsNew s.files session.scanner.tracker
      · exact Or.inl ((hfound c).mpr ⟨item, hitem, hnew, hc⟩)
      · cases item with
        | inline text extension => exact absurd trivial hnew
        | stored path extension =>
            simp only [ContentItem.IsNew, not_forall, not_not] at hnew
            obtain ⟨text, htext, hsame⟩ := hnew
            have hfile : (⟨path, extension, text⟩ : ContentFile) ∈ s.reads :=
              Surroundings.mem_reads.mpr ⟨ContentItem.mem_listings.mpr hitem, htext⟩
            rw [ContentItem.candidates, ContentItem.text?, htext] at hc
            exact Or.inr (h.mem_of_not_isNew hreads hfile hsame hc)

/-- Scanning content that can be read: everything listed is gathered, whatever was skipped. -/
lemma collect_ok (h : session.Remembers resolve hs gathered reads) (hbuiltIn : hs.BuiltIn)
    {s : Surroundings} (hreads : ReadsTell hs (reads ++ s.reads))
    (hr : ContentItem.readable s.files s.content = true) :
    ∃ next, session.collect s.files (s.pipeline resolve hs) = (.ok (), next) ∧
      next.Remembers resolve hs (gathered ++ s.candidates hs) (reads ++ s.reads) ∧
      Candidate.always ∈ next.candidates := by
  obtain ⟨found, hok, -, hfound, htracker, hmemory⟩ :=
    Scan.scan_ok hbuiltIn.readWith s.batchSize h.memory hr
  have hall := h.mem_found_or_gathered hreads hfound
  refine ⟨{ session with
    scanner := (scan s.files hs s.batchSize s.content session.scanner).2
    candidates := Names.insert Candidate.always (Names.insertAll found session.candidates) },
    ?_, ?_, Names.mem_insert.mpr (Or.inl rfl)⟩
  · simp only [collect, Surroundings.pipeline, hok]
  · refine ⟨hmemory, (h.ascending.insertAll found).insert _, ?_, ?_, ?_, ?_⟩
    · intro c hc
      simp only [Names.mem_insert, Names.mem_insertAll] at hc
      rcases hc with hc | hc | hc
      · exact Or.inl hc
      · exact Or.inr ((hall c).mp (Or.inl hc))
      · exact (h.sound c hc).imp id fun hc => (hall c).mp (Or.inr hc)
    · intro c hc
      simp only [Names.mem_insert, Names.mem_insertAll]
      exact Or.inr (((hall c).mpr hc).imp id fun hc => h.complete c hc)
    · intro key digest hlookup
      -- A digest recorded just now is that of a listed file; an older one was accounted for before.
      rcases htracker key digest hlookup with ⟨file, hfile, hkey, hdigest⟩ | hold
      · refine ⟨file, List.mem_append_right _ (Surroundings.mem_reads.mpr hfile), hkey, hdigest, ?_⟩
        intro c hc
        have hitem : .stored file.path file.extension ∈ s.content :=
          ContentItem.mem_listings.mp hfile.listed
        refine List.mem_append_right _ (Surroundings.mem_candidates.mpr ⟨_, hitem, ?_⟩)
        rw [ContentItem.candidates, ContentItem.text?, hfile.read]
        exact hc
      · obtain ⟨read, hread, hkey, hdigest, hc⟩ := h.tracked key digest hold
        exact ⟨read, List.mem_append_left _ hread, hkey, hdigest,
          fun c hmem => List.mem_append_left _ (hc c hmem)⟩
    · obtain ⟨known, hknown, hanswers⟩ := h.rules
      refine ⟨known, fun c hc => ?_, hanswers⟩
      simp only [Names.mem_insert, Names.mem_insertAll]
      exact Or.inr (Or.inr (hknown hc))

/-- Scanning content that cannot be read leaves everything but the line memory as it was. -/
lemma collect_error (h : session.Remembers resolve hs gathered reads) (hbuiltIn : hs.BuiltIn)
    {s : Surroundings} (hr : ContentItem.readable s.files s.content = false) :
    ∃ e next, session.collect s.files (s.pipeline resolve hs) = (.error e, next) ∧
      next.Remembers resolve hs gathered reads := by
  obtain ⟨e, herror, htracker, hmemory⟩ :=
    Scan.scan_error hbuiltIn.readWith s.batchSize h.memory hr
  refine ⟨e, { session with
    scanner := (scan s.files hs s.batchSize s.content session.scanner).2 }, ?_, ?_⟩
  · simp only [collect, Surroundings.pipeline, herror]
  · refine ⟨hmemory, h.ascending, h.sound, h.complete, ?_, h.rules⟩
    intro key digest hlookup
    rw [htracker] at hlookup
    exact h.tracked key digest hlookup

/-- Forgetting lines changes nothing that the invariant says of a session. -/
lemma forget (h : session.Remembers resolve hs gathered reads) (now later : Forgetting) :
    (session.forget now later).Remembers resolve hs gathered reads :=
  ⟨h.memory.forget now later, h.ascending, h.sound, h.complete, h.tracked, h.rules⟩

/-- The sheet is that of everything gathered, whatever part of it is made anew. -/
lemma generate (h : session.Remembers resolve hs gathered reads)
    (halways : Candidate.always ∈ session.candidates) :
    (session.generate resolve).1
        = Sheet.ofCandidates resolve (Names.sorted (Candidate.always :: gathered)) ∧
      (session.generate resolve).2.Remembers resolve hs gathered reads := by
  obtain ⟨known, hknown, hanswers⟩ := h.rules
  have hall : Names.insertAll session.candidates known = session.candidates := by
    refine (hanswers.ascending.insertAll _).ext h.ascending fun c => ?_
    rw [Names.mem_insertAll]
    exact ⟨fun hc => hc.elim id fun hc => hknown hc, Or.inl⟩
  have hsorted : session.candidates = Names.sorted (Candidate.always :: gathered) := by
    refine Names.sorted_eq_of_mem_iff h.ascending fun c => ?_
    rw [List.mem_cons]
    constructor
    · exact h.sound c
    · rintro (rfl | hc)
      · exact halways
      · exact h.complete c hc
  obtain ⟨hsheet, hnext⟩ := hanswers.generate session.candidates
  rw [hall] at hsheet hnext
  refine ⟨hsheet.trans (by rw [← hsorted]), ?_⟩
  exact ⟨h.memory, h.ascending, h.sound, h.complete, h.tracked,
    session.candidates, List.Subset.refl _, hnext⟩

end Session.Remembers

/-! ## One build -/

namespace Directive

/-- The verdict on a document does not depend on what was warned about before. -/
lemma normalize_fst (nodes : List Node) (sink : Sink) :
    (normalize nodes sink).1 = (normalize nodes .empty).1 :=
  rfl

/-- A document that is accepted has something to expand exactly if it declares a layer. -/
lemma find_isEmpty_of_normalize {nodes nodes' : List Node} {sink : Sink} {registry : Registry}
    (h : (normalize nodes sink).1 = .ok (registry, nodes')) :
    (Sites.find nodes').isEmpty = !registry.declaresLayer := by
  obtain ⟨-, rfl, rfl⟩ := of_normalize_eq_ok h
  have hfind := find_isEmpty_iff (modernizeAll nodes)
  have hdeclares := declaresLayer_iff nodes
  rw [directives_modernizeAll] at hfind
  rw [Bool.eq_iff_iff, hfind, Bool.not_eq_true', ← Bool.not_eq_true, hdeclares, not_not]

end Directive

/-- A stylesheet that is no document is an error that leaves the session alone. -/
lemma compile_of_document?_none {lib : Library} {file : Nat} (hd : document? lib file = none)
    (ws : Workspace) (p : Pipeline) (state : BuildState) :
    (compile ws lib p file state).1.toOption = none ∧
      (compile ws lib p file state).2.session = state.session := by
  rw [compile]
  rw [document?] at hd
  cases hs : lib.get? file with
  | none => exact ⟨rfl, rfl⟩
  | some source =>
      cases hr : readStylesheet file source.content with
      | error e => exact ⟨by simp only [hr]; rfl, by simp only [hr]⟩
      | ok nodes =>
          have hsink := Directive.normalize_fst nodes state.sink
          have hnone : (Directive.normalize nodes .empty).1.toOption = none := by
            simpa [hs, hr, Except.toOption] using hd
          cases hn : Directive.normalize nodes state.sink with
          | mk verdict sink =>
              rw [← hsink, hn] at hnone
              cases verdict with
              | error e => simp [hr, hn, Except.toOption]
              | ok found => cases hnone

/-- A build of an accepted document is its expansion, which looks at nothing but the directives and the
content. -/
lemma compile_of_document? {lib : Library} {file : Nat} {registry : Registry} {nodes : List Node}
    (hd : document? lib file = some (registry, nodes)) (ws : Workspace) (p : Pipeline)
    (state : BuildState) :
    (Directive.Sites.find nodes).isEmpty = !registry.declaresLayer ∧
      ∃ sink, compile ws lib p file state
        = ((expand ws p nodes { state with sink }).1.mapError .scan,
          (expand ws p nodes { state with sink }).2) := by
  rw [document?] at hd
  cases hs : lib.get? file with
  | none => simp [hs] at hd
  | some source =>
      cases hr : readStylesheet file source.content with
      | error e => simp [hs, hr, Except.toOption] at hd
      | ok nodes' =>
          have hsome : (Directive.normalize nodes' .empty).1.toOption = some (registry, nodes) := by
            simpa [hs, hr, Except.toOption] using hd
          have hsink := Directive.normalize_fst nodes' state.sink
          cases hn : Directive.normalize nodes' state.sink with
          | mk verdict sink =>
              rw [← hsink, hn] at hsome
              cases verdict with
              | error e => cases hsome
              | ok found =>
                  simp only [Except.toOption, Option.some.injEq] at hsome
                  subst hsome
                  refine ⟨Directive.find_isEmpty_of_normalize (by rw [hn]), sink, ?_⟩
                  rw [compile]
                  simp only [hs, hr, hn]

/-- **One build keeps the invariant** and answers what a build without memory does. -/
theorem Session.Remembers.compile {state : BuildState} {lib : Library} {file : Nat}
    (h : state.session.Remembers resolve hs gathered reads) (hbuiltIn : hs.BuiltIn)
    {s : Surroundings}
    (hreads : ReadsTell hs (reads ++ s.atScan Surroundings.reads (.build lib file))) :
    (s.build resolve hs lib file state).1.toOption
        = s.freshBuild resolve lib file
          (gathered ++ s.atScan (·.candidates hs) (.build lib file)) ∧
      (s.build resolve hs lib file state).2.session.Remembers resolve hs
        (gathered ++ s.atScan (·.candidates hs) (.build lib file))
        (reads ++ s.atScan Surroundings.reads (.build lib file)) := by
  cases hd : document? lib file with
  | none =>
      obtain ⟨hanswer, hsession⟩ :=
        compile_of_document?_none hd s.files (s.pipeline resolve hs) state
      have hscans : s.scans lib file = false := by rw [Surroundings.scans, hd]
      rw [Surroundings.build, hanswer, hsession]
      simpa [Surroundings.freshBuild, Surroundings.atScan, hscans, hd] using h
  | some found =>
      obtain ⟨registry, nodes⟩ := found
      obtain ⟨hempty, sink, hcompile⟩ :=
        compile_of_document? hd s.files (s.pipeline resolve hs) state
      have hscans : s.scans lib file
          = (registry.declaresLayer && ContentItem.readable s.files s.content) := by
        rw [Surroundings.scans, hd]
      simp only [Surroundings.atScan, hscans] at hreads ⊢
      rw [Surroundings.build, Surroundings.freshBuild, hcompile, expand, hempty, hd]
      cases hdeclares : registry.declaresLayer with
      -- Without a directive nothing is scanned, and the session is not touched.
      | false => simpa [hdeclares, Except.mapError, Except.toOption] using h
      | true =>
          cases hr : ContentItem.readable s.files s.content with
          | false =>
              obtain ⟨e, next, hcollect, hnext⟩ := h.collect_error hbuiltIn hr
              simpa [hdeclares, hcollect, Except.mapError, Except.toOption] using hnext
          | true =>
              simp only [hdeclares, hr, Bool.and_self, if_true] at hreads
              obtain ⟨next, hcollect, hnext, halways⟩ := h.collect_ok hbuiltIn hreads hr
              obtain ⟨hsheet, hlast⟩ := hnext.generate halways
              simp only [hcollect]
              refine ⟨?_, by simpa [Surroundings.pipeline] using hlast⟩
              simp [Surroundings.pipeline, hdeclares, hsheet, Except.mapError, Except.toOption]

/-! ## Every build -/

/-- What the scans of two courses saw is what those of the first saw, and then those of the second. -/
lemma Surroundings.atScans_append {α : Type} (look : Surroundings → List α) (s : Surroundings)
    (a b : List Event) :
    atScans look s (a ++ b) = atScans look s a ++ atScans look (s.afterAll a) b := by
  induction a generalizing s with
  | nil => rfl
  | cons event rest ih =>
      rw [List.cons_append, atScans, atScans, ih, List.append_assoc]
      rfl

/-- The invariant along every course of events. -/
theorem Session.Remembers.run (state : BuildState) (events : List Event) (s : Surroundings)
    (h : state.session.Remembers resolve hs gathered reads) (hbuiltIn : hs.BuiltIn)
    (hreads : ReadsTell hs (reads ++ s.atScans Surroundings.reads events)) :
    (s.run resolve hs state events).session.Remembers resolve hs
      (gathered ++ s.atScans (·.candidates hs) events)
      (reads ++ s.atScans Surroundings.reads events) := by
  induction events generalizing s state gathered reads with
  | nil => simpa [Surroundings.atScans, Surroundings.run] using h
  | cons event rest ih =>
      rw [Surroundings.run]
      simp only [Surroundings.atScans, ← List.append_assoc] at hreads ⊢
      refine ih _ _ ?_ hreads
      cases event with
      | edit files => simpa [Surroundings.keep, Surroundings.atScan] using h
      | relist content batchSize => simpa [Surroundings.keep, Surroundings.atScan] using h
      | forget now later =>
          simpa [Surroundings.keep, Surroundings.atScan] using h.forget now later
      | build lib file =>
          exact (h.compile hbuiltIn (hreads.mono (List.subset_append_left _ _))).2

/-- **A session builds as if it remembered nothing.**  After any course of edits, relistings, builds,
    some of which may have failed, and losses of remembered lines, building a stylesheet succeeds
    exactly if a build without memory does, and answers the same forest: the one made with the rules
    of `*` and of every candidate that stood in the listed content at a build whose scan succeeded,
    this one included. -/
theorem build_eq_freshBuild (resolve : Resolver) {hs : Handlers} (hbuiltIn : hs.BuiltIn)
    {retain : List KnownLine → List KnownLine} (hretain : ∀ known, retain known ⊆ known)
    (s : Surroundings) (sink : Sink) (events : List Event) (lib : Library) (file : Nat)
    (hdigests : DigestsTell (s.atScans Surroundings.reads (events ++ [.build lib file])))
    (hhandlers : HandlersTell hs (s.atScans Surroundings.reads (events ++ [.build lib file]))) :
    ((s.afterAll events).build resolve hs lib file
        (s.run resolve hs ⟨.fresh retain, sink⟩ events)).1.toOption
      = (s.afterAll events).freshBuild resolve lib file
        (s.atScans (·.candidates hs) (events ++ [.build lib file])) := by
  have hreads : ReadsTell hs (s.atScans Surroundings.reads (events ++ [.build lib file])) :=
    ⟨hdigests, hhandlers⟩
  rw [Surroundings.atScans_append, Surroundings.atScans, Surroundings.atScans, List.append_nil]
    at hreads ⊢
  have hstart : (Session.fresh retain).Remembers resolve hs [] [] :=
    Session.remembers_fresh hretain
  have hrun := Session.Remembers.run ⟨.fresh retain, sink⟩ events s hstart hbuiltIn
    (hreads.mono (List.subset_append_left _ _))
  exact (hrun.compile hbuiltIn hreads).1

/-! ### A file that is edited and put back -/

instance (reads : List ContentFile) : Decidable (DigestsTell reads) :=
  inferInstanceAs (Decidable (∀ a ∈ reads, ∀ b ∈ reads, _ → _ → _))

namespace Reverted

def files (text : String) : Workspace := ⟨[(["a.html"], .file text.toUTF8)], []⟩

def lib : Library := (Library.empty.add "input.css" "@tailwind utilities;").1

def surroundings : Surroundings := ⟨files "p-4", [.file "a.html", .inline "m-2" "html"], 1⟩

/-- All lines are lost, and as many as ever stay from then on. -/
def forgetful : Event := .forget ⟨fun _ => [], List.nil_subset⟩ ⟨id, List.Subset.refl⟩

def events : List Event :=
  [.build lib 0, .edit (files "w-8"), .build lib 0, forgetful, .build lib 7, .edit (files "p-4")]

/-- Rules for one candidate only. -/
def rules (candidate : String) : List Fragment :=
  if candidate = "p-4" then [{ node := .block ".p-4" [], layer := .utilities }] else []

end Reverted

open Reverted in
/-- The session knows the digest of the first text no more, skips nothing, and has room for one
    line only until it forgets that too; what it builds is still what a build without memory does. -/
theorem build_eq_freshBuild_reverted :
    DigestsTell (surroundings.atScans Surroundings.reads (events ++ [.build lib 0])) ∧
      HandlersTell .builtin (surroundings.atScans Surroundings.reads (events ++ [.build lib 0])) ∧
      ((surroundings.afterAll events).build rules .builtin lib 0
          (surroundings.run rules .builtin ⟨.start 1, .empty⟩ events)).1.toOption
        = (surroundings.afterAll events).freshBuild rules lib 0
          (surroundings.atScans (·.candidates .builtin) (events ++ [.build lib 0])) := by
  have hdigests :
      DigestsTell (surroundings.atScans Surroundings.reads (events ++ [.build lib 0])) := by
    decide +kernel
  have hhandlers : HandlersTell .builtin
      (surroundings.atScans Surroundings.reads (events ++ [.build lib 0])) :=
    handlersTell_of_extension .builtin (by decide +kernel)
  exact ⟨hdigests, hhandlers, build_eq_freshBuild rules Handlers.builtIn_builtin
    (LineMemory.keepNewest_subset 1) surroundings .empty events lib 0 hdigests hhandlers⟩

namespace Relisted

/-- One file, listed by the extension of its path at first. -/
def surroundings : Surroundings := ⟨Reverted.files "class:p-4", [.file "a.html"], 1⟩

/-- After a build the file is listed with another extension. -/
def events : List Event := [.build Reverted.lib 0, .relist [.stored "a.html" "svelte"] 1]

end Relisted

open Relisted Reverted in
/-- The text is the same, so the file is passed over, and what the other handler would find in it is
missed: the condition on the handlers is needed. -/
example :
    ((Relisted.surroundings.afterAll Relisted.events).build rules .builtin lib 0
        (Relisted.surroundings.run rules .builtin ⟨.start 1, .empty⟩ Relisted.events)).1.toOption.map
          List.length = some 0 ∧
      ((Relisted.surroundings.afterAll Relisted.events).freshBuild rules lib 0
        (Relisted.surroundings.atScans (·.candidates .builtin)
          (Relisted.events ++ [.build lib 0]))).map List.length = some 1 := by
  decide +kernel

end UtilityCss
