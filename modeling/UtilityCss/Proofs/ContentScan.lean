import UtilityCss.Content.Scan
import UtilityCss.Proofs.Ascending

/-!
# What a scan finds

A scan passes over lines it has seen, lines it remembers and files that did not change.  This file
says what it finds all the same, for handlers that share one extractor, as the built-in ones do.

* **Memory** — `LineMemory.Sound`: what is remembered about a line is what its extractor says.
  Forgetting is harmless, so nothing is asked of `retain`, or of a `Forgetting` at any other moment,
  but that it invents no line.
* **Lines** — `Progress.Covers`: the progress after some lines has exactly their candidates.  One
  line, one text and a list of items given in place are each a step of this.
* **Files** — batches are read like one long list (`addBatches_eq`); what is looked at are the files
  whose digest is new to the tracker.
* **The scan** — `scan_error` and `scan_ok`: a scan fails exactly if a listed file cannot be read,
  and otherwise finds the candidates of all items but the files recorded as they are.
-/

namespace UtilityCss

/-! ## Handlers and items -/

/-- Only the two handlers there are without settings, under whatever extensions. -/
def Handlers.BuiltIn (hs : Handlers) : Prop :=
  (hs.fallback = .plain ∨ hs.fallback = .svelte) ∧
    ∀ entry ∈ hs.byExtension.entries, entry.2 = .plain ∨ entry.2 = .svelte

/-- All handlers find candidates with the same extractor. -/
def Handlers.ReadWith (extract : String → List String) (hs : Handlers) : Prop :=
  ∀ extension, (hs.get extension).extract = extract

lemma Handlers.BuiltIn.get {hs : Handlers} (h : hs.BuiltIn) (extension : String) :
    hs.get extension = .plain ∨ hs.get extension = .svelte := by
  rw [Handlers.get, Table.get?]
  cases hl : hs.byExtension.entries.lookup extension with
  | none => exact h.1
  | some handler =>
      obtain ⟨before, after, hsplit, -⟩ := List.lookup_eq_some_iff.mp hl
      exact h.2 (extension, handler) (by rw [hsplit]; simp)

/-- Both extract the same candidates of a line; they differ in the text they read. -/
lemma Handlers.BuiltIn.readWith {hs : Handlers} (h : hs.BuiltIn) :
    hs.ReadWith Candidate.extract := by
  intro extension
  rcases h.get extension with h | h <;> rw [h] <;> rfl

lemma Handlers.builtIn_builtin : Handlers.builtin.BuiltIn := by
  refine ⟨Or.inl rfl, ?_⟩
  intro entry hentry
  rw [List.mem_singleton.mp hentry]
  exact Or.inr rfl

namespace Scan

/-- Everything a handler extracts from a text, line by line, without any memory. -/
def textCandidates (handler : Handler) (text : String) : List String :=
  ((trimmedLines handler text).flatMap handler.extract).filter (· != Candidate.keepGoing)

/-- A candidate of a text stands on one of its trimmed lines. -/
lemma mem_textCandidates {handler : Handler} {text c : String} :
    c ∈ textCandidates handler text
      ↔ ∃ line ∈ trimmedLines handler text, c ∈ handler.extract line ∧ c ≠ Candidate.keepGoing := by
  simp only [textCandidates, List.mem_filter, List.mem_flatMap, bne_iff_ne]
  constructor
  · rintro ⟨⟨line, hline, hc⟩, hne⟩
    exact ⟨line, hline, hc, hne⟩
  · rintro ⟨line, hline, hc, hne⟩
    exact ⟨⟨line, hline, hc⟩, hne⟩

/-- The word that stands for nothing is left out. -/
@[simp]
lemma mem_lineCandidates {handler : Handler} {line c : String} :
    c ∈ lineCandidates handler line ↔ c ∈ handler.extract line ∧ c ≠ Candidate.keepGoing := by
  simp [lineCandidates]

end Scan

/-- The whole text of a content file, if it can be read. -/
def Workspace.contentText? (ws : Workspace) (path : String) : Option String :=
  match ws.read path with
  | .ok bytes => some (Text.decodeLossy bytes)
  | .error _ => none

/-- The whole text of an item, if it can be read. -/
def ContentItem.text? (ws : Workspace) : ContentItem → Option String
  | .inline text _ => some text
  | .stored path _ => ws.contentText? path

/-- The candidates of an item, extracted from its whole text. -/
def ContentItem.candidates (ws : Workspace) (hs : Handlers) (item : ContentItem) : List String :=
  match item.text? ws with
  | some text => Scan.textCandidates (hs.get item.extension) text
  | none => []

/-- A candidate of an item stands on a line of its text, as its handler reads it. -/
lemma ContentItem.mem_candidates_iff {extract : String → List String} {hs : Handlers}
    (hh : hs.ReadWith extract) {ws : Workspace} {item : ContentItem} {c : String} :
    c ∈ item.candidates ws hs
      ↔ ∃ text, item.text? ws = some text ∧ ∃ line ∈ Scan.trimmedLines (hs.get item.extension) text,
        c ∈ extract line ∧ c ≠ Candidate.keepGoing := by
  rw [candidates]
  cases item.text? ws with
  | none => simp
  | some text => simp [Scan.mem_textCandidates, hh item.extension]

/-- The files among the items, each with the extension it is listed with. -/
def ContentItem.listings (items : List ContentItem) : List (String × String) :=
  items.filterMap fun
    | .stored path extension => some (path, extension)
    | .inline .. => none

/-- Listed are the files with their extensions. -/
lemma ContentItem.mem_listings {items : List ContentItem} {listed : String × String} :
    listed ∈ listings items ↔ .stored listed.1 listed.2 ∈ items := by
  simp only [listings, List.mem_filterMap]
  constructor
  · rintro ⟨item, hitem, h⟩
    cases item with
    | inline text extension => cases h
    | stored path extension =>
        obtain rfl := Option.some.inj h
        exact hitem
  · intro h
    exact ⟨_, h, rfl⟩

/-! ## Memory -/

/-- A way to forget lines: some of them stay, and none is invented. -/
structure Forgetting where
  keep : List KnownLine → List KnownLine
  subset : ∀ known, keep known ⊆ known

namespace LineMemory

/-- Forgets lines now, and from now on forgets in another way whenever a line is added. -/
def forget (m : LineMemory) (now later : Forgetting) : LineMemory :=
  ⟨now.keep m.known, later.keep⟩

/-- What is remembered is what the extractors say, and forgetting adds nothing. -/
structure Sound (extractor : String → String → List String) (m : LineMemory) : Prop where
  /-- The candidates of a line are the extractor's, but for the word that is none. -/
  known : ∀ entry ∈ m.known, ∀ c,
    c ∈ entry.found ↔ c ∈ extractor entry.key entry.line ∧ c ≠ Candidate.keepGoing
  retain : ∀ known, m.retain known ⊆ known

variable {extractor : String → String → List String} {m : LineMemory}

/-- What is remembered of a line is what the extractor finds in it. -/
lemma Sound.lookup? (h : m.Sound extractor) {key line : String} {found : List String}
    (hl : m.lookup? key line = some found) (c : String) :
    c ∈ found ↔ c ∈ extractor key line ∧ c ≠ Candidate.keepGoing := by
  rw [LineMemory.lookup?, Option.map_eq_some_iff] at hl
  obtain ⟨entry, hfind, rfl⟩ := hl
  have hmatch := List.find?_some hfind
  rw [decide_eq_true_eq] at hmatch
  rw [h.known entry (List.mem_of_find?_eq_some hfind), hmatch.1, hmatch.2]

/-- A memory stays sound when another line is remembered. -/
lemma Sound.remember (h : m.Sound extractor) {handler : Handler}
    (hh : handler.extract = extractor handler.key) (line : String) :
    (m.remember handler.key line (Scan.lineCandidates handler line)).Sound extractor := by
  refine ⟨?_, h.retain⟩
  intro entry hentry c
  rcases List.mem_cons.mp (h.retain _ hentry) with rfl | hold
  · rw [← hh]
    exact Scan.mem_lineCandidates
  · exact h.known entry hold c

/-- What is left of a memory can be trusted like the whole. -/
lemma Sound.forget (h : m.Sound extractor) (now later : Forgetting) :
    (m.forget now later).Sound extractor :=
  ⟨fun entry hentry => h.known entry (now.subset _ hentry), later.subset⟩

lemma keepFirst_subset (key : String) (n : Nat) (known : List KnownLine) :
    keepFirst key n known ⊆ known := by
  fun_induction keepFirst key n known with
  | case1 => exact List.Subset.refl _
  | case2 entry rest hkey ih => exact List.subset_cons_of_subset _ ih
  | case3 entry rest hkey n ih => exact List.cons_subset_cons _ ih
  | case4 n entry rest hkey ih => exact List.cons_subset_cons _ ih

/-- The memory of a session with limited room never invents a line. -/
lemma keepNewest_subset (capacity : Nat) (known : List KnownLine) :
    keepNewest capacity known ⊆ known := by
  unfold keepNewest
  split_ifs with h
  · exact List.Subset.refl _
  · cases known with
    | nil => exact List.Subset.refl _
    | cons entry rest => exact keepFirst_subset _ _ _

end LineMemory

namespace Scan

/-! ## Lines -/

variable {extract : String → List String}

/-- The progress of a scan that has looked at exactly these lines. -/
structure Progress.Covers (extract : String → List String) (lines : List String)
    (p : Progress) : Prop where
  memory : p.lines.Sound fun _ => extract
  seen : ∀ line, line ∈ p.seen ↔ line ∈ lines
  ascending : Names.Ascending p.found
  found : ∀ c, c ∈ p.found ↔ ∃ line ∈ lines, c ∈ extract line ∧ c ≠ Candidate.keepGoing

/-- A scan that has looked at nothing has found nothing. -/
lemma covers_start {m : LineMemory} (h : m.Sound fun _ => extract) :
    Progress.Covers extract [] { lines := m } :=
  ⟨h, by simp, Names.ascending_nil, by simp⟩

variable {lines : List String} {p : Progress}

lemma Progress.Covers.snoc (h : p.Covers extract lines) {line : String} {m : LineMemory}
    {found : List String} (hm : m.Sound fun _ => extract)
    (hfound : ∀ c, c ∈ found ↔ c ∈ extract line ∧ c ≠ Candidate.keepGoing) :
    Progress.Covers extract (lines ++ [line])
      { lines := m, seen := line :: p.seen, found := Names.insertAll found p.found } := by
  refine ⟨hm, ?_, h.ascending.insertAll found, ?_⟩
  · intro l
    simp only [List.mem_cons, List.mem_append, h.seen, List.not_mem_nil]
    tauto
  · intro c
    rw [Names.mem_insertAll, hfound, h.found]
    constructor
    · rintro (hc | ⟨l, hl, hc⟩)
      · exact ⟨line, by simp, hc⟩
      · exact ⟨l, by simp [hl], hc⟩
    · rintro ⟨l, hl, hc⟩
      rcases List.mem_append.mp hl with hl | hl
      · exact Or.inr ⟨l, hl, hc⟩
      · rw [List.mem_singleton.mp hl] at hc
        exact Or.inl hc

/-- One line, whether it was seen, is remembered or has to be read. -/
lemma Progress.Covers.addLine (h : p.Covers extract lines) {handler : Handler}
    (hh : handler.extract = extract) (line : String) :
    (p.addLine handler line).Covers extract (lines ++ [line]) := by
  rw [Progress.addLine]
  split_ifs with hseen
  · -- a line seen before adds nothing, since its candidates were all found then
    rw [List.contains_iff_mem, h.seen] at hseen
    refine ⟨h.memory, ?_, h.ascending, ?_⟩
    · intro l
      rw [h.seen, List.mem_append, List.mem_singleton]
      exact ⟨Or.inl, fun hl => hl.elim id fun heq => heq ▸ hseen⟩
    · intro c
      rw [h.found]
      constructor
      · rintro ⟨l, hl, hc⟩
        exact ⟨l, List.mem_append_left _ hl, hc⟩
      · rintro ⟨l, hl, hc⟩
        rcases List.mem_append.mp hl with hl | hl
        · exact ⟨l, hl, hc⟩
        · exact ⟨line, hseen, List.mem_singleton.mp hl ▸ hc⟩
  · cases hl : p.lines.lookup? handler.key line with
    | some found => exact h.snoc h.memory (h.memory.lookup? hl)
    | none =>
        refine h.snoc (h.memory.remember hh line) fun c => ?_
        rw [mem_lineCandidates, hh]

/-- A text adds the candidates of its lines. -/
lemma Progress.Covers.addText (h : p.Covers extract lines) {handler : Handler}
    (hh : handler.extract = extract) (text : String) :
    (p.addText handler text).Covers extract (lines ++ trimmedLines handler text) := by
  rw [Progress.addText]
  generalize trimmedLines handler text = more
  induction more generalizing lines p with
  | nil => simpa using h
  | cons line rest ih =>
      rw [List.foldl_cons, List.append_cons]
      exact ih (h.addLine hh line)

/-- The lines of the items given in place. -/
def inlineLines (hs : Handlers) : ContentItem → List String
  | .inline text extension => trimmedLines (hs.get extension) text
  | .stored .. => []

/-- The items given in place add theirs. -/
lemma Progress.Covers.addInlines {hs : Handlers} (hh : hs.ReadWith extract)
    (h : p.Covers extract lines) (items : List ContentItem) :
    (items.foldl (Progress.addInline hs) p).Covers extract
      (lines ++ items.flatMap (inlineLines hs)) := by
  induction items generalizing lines p with
  | nil => simpa using h
  | cons item rest ih =>
      rw [List.foldl_cons, List.flatMap_cons, ← List.append_assoc]
      refine ih ?_
      cases item with
      | inline text extension => exact h.addText (hh extension) text
      | stored path extension => simpa [inlineLines, Progress.addInline] using h

/-! ## Files -/

/-- The files whose text is not the one recorded, with their digests. -/
def changedFiles (tracker : Tracker) (files : List ContentFile) : List (ContentFile × Digest) :=
  files.filterMap fun file => (tracker.change? file.path file.text).map (file, ·)

/-- The lines of a file, as the handler of its extension reads it. -/
def fileLines (hs : Handlers) (file : ContentFile) : List String :=
  trimmedLines (hs.get file.extension) file.text

/-- A file is changed if the tracker has another digest for its path, or none. -/
lemma mem_changedFiles {tracker : Tracker} {files : List ContentFile}
    {change : ContentFile × Digest} :
    change ∈ changedFiles tracker files
      ↔ change.1 ∈ files ∧ tracker.change? change.1.path change.1.text = some change.2 := by
  obtain ⟨file, digest⟩ := change
  simp only [changedFiles, List.mem_filterMap, Option.map_eq_some_iff, Prod.mk.injEq]
  constructor
  · rintro ⟨file', hfile', digest', hdigest', rfl, rfl⟩
    exact ⟨hfile', hdigest'⟩
  · rintro ⟨hfile, hdigest⟩
    exact ⟨file, hfile, digest, hdigest, rfl, rfl⟩

/-- The files of a batch: those that changed are looked at and noted, the others passed over. -/
lemma FileProgress.addFiles {hs : Handlers} (hh : hs.ReadWith extract) (tracker : Tracker)
    {q : FileProgress} (h : q.progress.Covers extract lines) (files : List ContentFile) :
    (files.foldl (addFile hs tracker) q).progress.Covers extract
        (lines ++ (changedFiles tracker files).flatMap fun change => fileLines hs change.1) ∧
      (files.foldl (addFile hs tracker) q).changed
        = q.changed ++ (changedFiles tracker files).map fun change => (change.1.path, change.2) := by
  induction files generalizing lines q with
  | nil => simpa [changedFiles] using h
  | cons file rest ih =>
      rw [List.foldl_cons, changedFiles, List.filterMap_cons, ← changedFiles]
      cases hc : tracker.change? file.path file.text with
      | none =>
          have hadd : addFile hs tracker q file = q := by rw [addFile, hc]
          rw [hadd]
          exact ih h
      | some digest =>
          have hadd : addFile hs tracker q file
              = ⟨q.progress.addText (hs.get file.extension) file.text,
                q.changed ++ [(file.path, digest)]⟩ := by rw [addFile, hc]
          obtain ⟨hcovers, hchanged⟩ := ih (q := addFile hs tracker q file)
            (by rw [hadd]; exact h.addText (hh file.extension) file.text)
          rw [Option.map_some, List.flatMap_cons, List.map_cons, ← List.append_assoc]
          refine ⟨hcovers, hchanged.trans ?_⟩
          rw [hadd, List.append_assoc, List.singleton_append]

/-- Batches divide the files, whatever their size. -/
lemma flatten_batches {α : Type} (n : Nat) (items : List α) :
    (batches n items).flatten = items := by
  fun_induction batches n items with
  | case1 => rfl
  | case2 a rest ih => rw [List.flatten_cons, ih, List.cons_append, List.take_append_drop]

/-- Batches are read like one long list, up to the first file that cannot be read. -/
lemma FileProgress.addBatches_eq (ws : Workspace) (hs : Handlers) (tracker : Tracker)
    (pieces : List (List (String × String))) (q : FileProgress) :
    match pieces.flatten.mapM (readContent ws) with
    | .ok files => addBatches ws hs tracker pieces q = (files.foldl (addFile hs tracker) q, none)
    | .error e => (addBatches ws hs tracker pieces q).2 = some e := by
  induction pieces generalizing q with
  | nil => rfl
  | cons batch rest ih =>
      rw [List.flatten_cons, List.mapM_append, addBatches]
      cases hb : batch.mapM (readContent ws) with
      | error e => rfl
      | ok files =>
          have hrest := ih (files.foldl (addFile hs tracker) q)
          cases hr : rest.flatten.mapM (readContent ws) with
          | error e =>
              rw [hr] at hrest
              exact hrest
          | ok more =>
              rw [hr] at hrest
              simpa [bind, Except.bind, pure, Except.pure, List.foldl_append] using hrest

/-- Whatever a scan meets, its memory can be trusted afterwards. -/
lemma FileProgress.addBatches_covers {hs : Handlers} (hh : hs.ReadWith extract) (ws : Workspace)
    (tracker : Tracker) (pieces : List (List (String × String))) {q : FileProgress}
    (h : q.progress.Covers extract lines) :
    ∃ more, (addBatches ws hs tracker pieces q).1.progress.Covers extract more := by
  induction pieces generalizing lines q with
  | nil => exact ⟨lines, h⟩
  | cons batch rest ih =>
      rw [addBatches]
      cases batch.mapM (readContent ws) with
      | error e => exact ⟨lines, h⟩
      | ok files => exact ih (addFiles hh tracker h files).1

/-! ## Reading -/

/-- A file that has a text is read. -/
lemma readContent_of_contentText? {ws : Workspace} {listed : String × String} {text : String}
    (h : ws.contentText? listed.1 = some text) :
    readContent ws listed = .ok ⟨listed.1, listed.2, text⟩ := by
  rw [Workspace.contentText?] at h
  rw [readContent]
  cases hr : ws.read listed.1 with
  | ok bytes =>
      rw [hr, Option.some.injEq] at h
      rw [← h]
  | error cause =>
      rw [hr] at h
      cases h

/-- A file that has none fails the scan. -/
lemma readContent_of_contentText?_none {ws : Workspace} {listed : String × String}
    (h : ws.contentText? listed.1 = none) : ∃ e, readContent ws listed = .error e := by
  rw [Workspace.contentText?] at h
  rw [readContent]
  cases hr : ws.read listed.1 with
  | ok bytes =>
      rw [hr] at h
      cases h
  | error cause => exact ⟨_, rfl⟩

/-- A file as it stands: it is listed like this, and its text is what can be read of it. -/
structure IsListed (ws : Workspace) (listings : List (String × String)) (file : ContentFile) :
    Prop where
  listed : (file.path, file.extension) ∈ listings
  read : ws.contentText? file.path = some file.text

/-- Files that can all be read are read in order. -/
lemma mapM_readContent_ok {ws : Workspace} {listings : List (String × String)}
    (h : ∀ listed ∈ listings, (ws.contentText? listed.1).isSome) :
    ∃ files, listings.mapM (readContent ws) = .ok files ∧
      ∀ file, file ∈ files ↔ IsListed ws listings file := by
  induction listings with
  | nil => exact ⟨[], rfl, fun file => ⟨nofun, fun h => nomatch h.listed⟩⟩
  | cons listed rest ih =>
      obtain ⟨text, htext⟩ := Option.isSome_iff_exists.mp (h listed (by simp))
      obtain ⟨files, hfiles, hmem⟩ := ih fun other hother => h other (by simp [hother])
      refine ⟨⟨listed.1, listed.2, text⟩ :: files, ?_, fun file => ?_⟩
      · rw [List.mapM_cons, readContent_of_contentText? htext, hfiles]
        rfl
      · rw [List.mem_cons, hmem]
        constructor
        · rintro (rfl | ⟨hlisted, hread⟩)
          · exact ⟨List.mem_cons_self, htext⟩
          · exact ⟨List.mem_cons_of_mem _ hlisted, hread⟩
        · rintro ⟨hlisted, hread⟩
          rcases List.mem_cons.mp hlisted with rfl | hrest
          · left
            rw [hread, Option.some.injEq] at htext
            rw [← htext]
          · exact Or.inr ⟨hrest, hread⟩

/-- One file that cannot be read is enough to fail. -/
lemma mapM_readContent_error {ws : Workspace} {listings : List (String × String)}
    {listed : String × String} (hlisted : listed ∈ listings)
    (h : ws.contentText? listed.1 = none) :
    ∃ e, listings.mapM (readContent ws) = .error e := by
  induction listings with
  | nil => cases hlisted
  | cons first rest ih =>
      rw [List.mapM_cons]
      cases hf : readContent ws first with
      | error e => exact ⟨e, rfl⟩
      | ok file =>
          rcases List.mem_cons.mp hlisted with rfl | hrest
          · obtain ⟨e, he⟩ := readContent_of_contentText?_none h
            rw [he] at hf
            cases hf
          · obtain ⟨e, he⟩ := ih hrest
            exact ⟨e, by rw [he]; rfl⟩

end Scan

/-! ## Digests -/

namespace Tracker

lemma lookup_filter_ne {key other : List String} (hne : key ≠ other)
    (digests : List (List String × Digest)) :
    (digests.filter fun e => e.1 != other).lookup key = digests.lookup key := by
  induction digests with
  | nil => rfl
  | cons entry rest ih =>
      obtain ⟨k, digest⟩ := entry
      by_cases hk : k = other
      · have hkey : (key == k) = false := by rw [beq_eq_false_iff_ne, hk]; exact hne
        rw [List.filter_cons_of_neg (by simp [hk]), ih, List.lookup_cons, hkey]
      · rw [List.filter_cons_of_pos (by simp [hk]), List.lookup_cons, List.lookup_cons, ih]

/-- Recording a file changes what is known about that file only. -/
lemma lookup_record (t : Tracker) (path : String) (digest : Digest) (key : List String) :
    (t.record path digest).digests.lookup key
      = if key = Path.parts path then some digest else t.digests.lookup key := by
  rw [record, List.lookup_cons]
  split_ifs with h
  · simp [h]
  · have hkey : (key == Path.parts path) = false := by rw [beq_eq_false_iff_ne]; exact h
    rw [hkey]
    exact lookup_filter_ne h t.digests

/-- A digest that is known after recording some files was among them or known before. -/
lemma lookup_recordAll {changes : List (String × Digest)} {t : Tracker} {key : List String}
    {digest : Digest}
    (h : (changes.foldl (fun t (path, digest) => t.record path digest) t).digests.lookup key
      = some digest) :
    (∃ change ∈ changes, Path.parts change.1 = key ∧ change.2 = digest) ∨
      t.digests.lookup key = some digest := by
  induction changes generalizing t with
  | nil => exact Or.inr h
  | cons change rest ih =>
      rw [List.foldl_cons] at h
      rcases ih h with ⟨other, hother, hkey⟩ | hold
      · exact Or.inl ⟨other, List.mem_cons_of_mem _ hother, hkey⟩
      · rw [lookup_record] at hold
        split_ifs at hold with heq
        · rw [Option.some.injEq] at hold
          exact Or.inl ⟨change, by simp, heq.symm, hold⟩
        · exact Or.inr hold

/-- A file is passed over exactly if the digest of its text is the one recorded. -/
lemma change?_eq_none_iff {t : Tracker} {path text : String} :
    t.change? path text = none
      ↔ t.digests.lookup (Path.parts path) = some (Digest.ofText text) := by
  simp [change?]

lemma digest_of_change? {t : Tracker} {path text : String} {digest : Digest}
    (h : t.change? path text = some digest) : digest = Digest.ofText text := by
  simp only [change?] at h
  split_ifs at h
  exact (Option.some.inj h).symm

end Tracker

/-! ## The scan -/

/-- Whether every file among the items can be read. -/
def ContentItem.readable (ws : Workspace) (items : List ContentItem) : Bool :=
  items.all fun item => (item.text? ws).isSome

/-- Whether an item is looked at: it is given in place, or a file whose text is not recorded. -/
def ContentItem.IsNew (ws : Workspace) (tracker : Tracker) : ContentItem → Prop
  | .inline .. => True
  | .stored path _ => ∀ text, ws.contentText? path = some text → tracker.change? path text ≠ none

namespace Scan

variable {extract : String → List String}

/-- The scan once its files were read, as a case distinction on the outcome of reading. -/
lemma scan_eq (ws : Workspace) (hs : Handlers) (batchSize : Nat) (items : List ContentItem)
    (state : ScanState) :
    scan ws hs batchSize items state
      = let q : FileProgress :=
          { progress := items.foldl (Progress.addInline hs) { lines := state.lines } }
        let r := FileProgress.addBatches ws hs state.tracker
          (batches batchSize (ContentItem.listings items)) q
        match r.2 with
        | some e => (.error e, { state with lines := r.1.progress.lines })
        | none =>
          (.ok r.1.progress.found,
            { lines := r.1.progress.lines
              tracker := r.1.changed.foldl (fun t (path, digest) => t.record path digest)
                state.tracker }) := rfl

/-- **A scan fails if a listed file cannot be read**, and then leaves the digests alone. -/
theorem scan_error {hs : Handlers} (hh : hs.ReadWith extract) {ws : Workspace}
    {items : List ContentItem} {state : ScanState} (batchSize : Nat)
    (hm : state.lines.Sound fun _ => extract) (hr : ContentItem.readable ws items = false) :
    ∃ e, (scan ws hs batchSize items state).1 = .error e ∧
      (scan ws hs batchSize items state).2.tracker = state.tracker ∧
      (scan ws hs batchSize items state).2.lines.Sound fun _ => extract := by
  have hstart := (covers_start hm).addInlines hh items
  obtain ⟨listed, hlisted, htext⟩ : ∃ listed : String × String,
      .stored listed.1 listed.2 ∈ items ∧ ws.contentText? listed.1 = none := by
    rw [ContentItem.readable, List.all_eq_false] at hr
    obtain ⟨item, hitem, htext⟩ := hr
    cases item with
    | inline text extension => simp [ContentItem.text?] at htext
    | stored path extension =>
        exact ⟨(path, extension), hitem, by simpa [ContentItem.text?] using htext⟩
  obtain ⟨e, he⟩ := mapM_readContent_error (ContentItem.mem_listings.mpr hlisted) htext
  rw [← flatten_batches batchSize (ContentItem.listings items)] at he
  have hfail := FileProgress.addBatches_eq ws hs state.tracker
    (batches batchSize (ContentItem.listings items))
    { progress := items.foldl (Progress.addInline hs) { lines := state.lines } }
  rw [he] at hfail
  obtain ⟨more, hcovers⟩ := FileProgress.addBatches_covers hh ws state.tracker
    (batches batchSize (ContentItem.listings items))
    (q := { progress := items.foldl (Progress.addInline hs) { lines := state.lines } }) hstart
  refine ⟨e, ?_⟩
  simp only [scan_eq, hfail, true_and]
  exact hcovers.memory

/-- The lines that a scan looks at are those of the new items. -/
lemma mem_scanned_iff {hs : Handlers} (hh : hs.ReadWith extract) {ws : Workspace}
    {items : List ContentItem} {tracker : Tracker} {files : List ContentFile}
    (hfiles : ∀ file, file ∈ files ↔ IsListed ws (ContentItem.listings items) file) (c : String) :
    (∃ line ∈ items.flatMap (inlineLines hs) ++
        (changedFiles tracker files).flatMap (fun change => fileLines hs change.1),
        c ∈ extract line ∧ c ≠ Candidate.keepGoing)
      ↔ ∃ item ∈ items, item.IsNew ws tracker ∧ c ∈ item.candidates ws hs := by
  constructor
  · rintro ⟨line, hline, hc⟩
    rcases List.mem_append.mp hline with hline | hline
    · obtain ⟨item, hitem, hline⟩ := List.mem_flatMap.mp hline
      cases item with
      | inline text extension =>
          exact ⟨_, hitem, trivial,
            (ContentItem.mem_candidates_iff hh).mpr ⟨text, rfl, line, hline, hc⟩⟩
      | stored path extension => cases hline
    · obtain ⟨change, hchange, hline⟩ := List.mem_flatMap.mp hline
      obtain ⟨hfile, hchanged⟩ := mem_changedFiles.mp hchange
      obtain ⟨hlisted, hread⟩ := (hfiles change.1).mp hfile
      have hnew : (ContentItem.stored change.1.path change.1.extension).IsNew ws tracker := by
        intro text ht
        rw [hread, Option.some.injEq] at ht
        rw [← ht, hchanged]
        simp
      exact ⟨_, ContentItem.mem_listings.mp hlisted, hnew,
        (ContentItem.mem_candidates_iff hh).mpr ⟨_, hread, line, hline, hc⟩⟩
  · rintro ⟨item, hitem, hnew, hcandidate⟩
    obtain ⟨text, htext, line, hline, hc⟩ := (ContentItem.mem_candidates_iff hh).mp hcandidate
    cases item with
    | inline text' extension =>
        obtain rfl := Option.some.inj htext
        exact ⟨line, List.mem_append_left _ (List.mem_flatMap.mpr ⟨_, hitem, hline⟩), hc⟩
    | stored path extension =>
        obtain ⟨digest, hdigest⟩ := Option.ne_none_iff_exists'.mp (hnew text htext)
        have hchange : (⟨path, extension, text⟩, digest) ∈ changedFiles tracker files :=
          mem_changedFiles.mpr
            ⟨(hfiles _).mpr ⟨ContentItem.mem_listings.mpr hitem, htext⟩, hdigest⟩
        exact ⟨line, List.mem_append_right _ (List.mem_flatMap.mpr ⟨_, hchange, hline⟩), hc⟩

/-- What a scan comes to if its files can be read: it goes over the lines of what is new, and records the
    new digests. -/
lemma scan_of_readable {hs : Handlers} (hh : hs.ReadWith extract) {ws : Workspace}
    {items : List ContentItem} {state : ScanState} (batchSize : Nat)
    (hm : state.lines.Sound fun _ => extract) (hr : ContentItem.readable ws items = true) :
    ∃ (files : List ContentFile) (progress : Progress),
      (∀ file, file ∈ files ↔ IsListed ws (ContentItem.listings items) file) ∧
      progress.Covers extract (items.flatMap (inlineLines hs) ++
        (changedFiles state.tracker files).flatMap fun change => fileLines hs change.1) ∧
      scan ws hs batchSize items state
        = (.ok progress.found,
          { lines := progress.lines
            tracker :=
              ((changedFiles state.tracker files).map fun change => (change.1.path, change.2)).foldl
                (fun t (path, digest) => t.record path digest) state.tracker }) := by
  obtain ⟨files, hread, hfiles⟩ := @mapM_readContent_ok ws (ContentItem.listings items)
    fun listed hlisted => List.all_eq_true.mp hr _ (ContentItem.mem_listings.mp hlisted)
  obtain ⟨hcovers, hchanged⟩ := FileProgress.addFiles hh state.tracker
    (q := { progress := items.foldl (Progress.addInline hs) { lines := state.lines } })
    ((covers_start hm).addInlines hh items) files
  have hdone := FileProgress.addBatches_eq ws hs state.tracker
    (batches batchSize (ContentItem.listings items))
    { progress := items.foldl (Progress.addInline hs) { lines := state.lines } }
  rw [flatten_batches, hread] at hdone
  refine ⟨files, _, hfiles, hcovers, ?_⟩
  simp only [scan_eq, hdone]
  rw [hchanged, List.nil_append]

/-- **A scan whose files can be read finds the candidates of all new items.**  Every digest known
    afterwards is that of a file as it was just read, or was known before. -/
theorem scan_ok {hs : Handlers} (hh : hs.ReadWith extract) {ws : Workspace}
    {items : List ContentItem} {state : ScanState} (batchSize : Nat)
    (hm : state.lines.Sound fun _ => extract) (hr : ContentItem.readable ws items = true) :
    ∃ found, (scan ws hs batchSize items state).1 = .ok found ∧ Names.Ascending found ∧
      (∀ c, c ∈ found
        ↔ ∃ item ∈ items, item.IsNew ws state.tracker ∧ c ∈ item.candidates ws hs) ∧
      (∀ key digest, (scan ws hs batchSize items state).2.tracker.digests.lookup key = some digest →
        (∃ file, IsListed ws (ContentItem.listings items) file ∧ Path.parts file.path = key ∧
          digest = Digest.ofText file.text) ∨
        state.tracker.digests.lookup key = some digest) ∧
      (scan ws hs batchSize items state).2.lines.Sound fun _ => extract := by
  obtain ⟨files, progress, hfiles, hcovers, hscan⟩ := scan_of_readable hh batchSize hm hr
  rw [hscan]
  refine ⟨_, rfl, hcovers.ascending, ?_, ?_, hcovers.memory⟩
  · intro c
    rw [hcovers.found]
    exact mem_scanned_iff hh hfiles c
  · intro key digest hlookup
    rcases Tracker.lookup_recordAll hlookup with ⟨change, hchange, hkey, hdigest⟩ | hold
    · left
      obtain ⟨file, hfile, rfl⟩ := List.mem_map.mp hchange
      obtain ⟨hmem, hnew⟩ := mem_changedFiles.mp hfile
      exact ⟨_, (hfiles _).mp hmem, hkey, hdigest ▸ Tracker.digest_of_change? hnew⟩
    · exact Or.inr hold

end Scan

end UtilityCss
