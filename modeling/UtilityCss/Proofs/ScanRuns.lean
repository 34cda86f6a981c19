import UtilityCss.Proofs.ScanOrder

/-!
# Scans after other scans

What a scan finds depends on its items and on the digests that are recorded, and on nothing else that
earlier scans have left behind, failed ones included.

* **States** — `ScanState.Reached`: what scans with the built-in handlers lead to, whatever is forgotten
  about lines on the way.  `Reached.sound` is the invariant.
* **Paths** — `read_of_parts`: two spellings of a path that can be read lead to the same file, so one
  digest for both is enough.
* **Digests** — `scan_records`: which digests a scan records, and `lookup_recordAll_of_mem` with
  `lookup_recordAll_of_ne`, what is known after that.
* **The scan** — `scan_of_reached` has it all, for every size of a batch and every order of the items.
-/

namespace UtilityCss

/-! ## States -/

/-- A state that scans with the built-in handlers lead to.  At any time lines may be forgotten and the
way to forget may change.  Since a scan asks for a line once, it does not matter at what moment of a scan
a line is lost: before its question, it is as if it were lost before the scan. -/
inductive ScanState.Reached : ScanState → Prop
  | fresh {state : ScanState} (h : state.Fresh) : Reached state
  | scan {state : ScanState} (h : Reached state) {hs : Handlers} (hh : hs.BuiltIn) (ws : Workspace)
      (batchSize : Nat) (items : List ContentItem) :
      Reached (UtilityCss.scan ws hs batchSize items state).2
  | forget {state : ScanState} (h : Reached state) {lines : LineMemory}
      (hknown : lines.known ⊆ state.lines.known) (hretain : ∀ known, lines.retain known ⊆ known) :
      Reached { state with lines }

/-- What is remembered about a line is what its candidates are. -/
lemma ScanState.Reached.sound {state : ScanState} (h : state.Reached) :
    state.lines.Sound fun _ => Candidate.extract := by
  induction h with
  | fresh h => exact ⟨by rw [h.lines]; exact nofun, h.retain⟩
  | @scan state _ hs hh ws batchSize items ih =>
      cases hread : ContentItem.readable ws items with
      | true =>
          obtain ⟨-, -, -, -, -, hsound⟩ := Scan.scan_ok hh.readWith batchSize ih hread
          exact hsound
      | false =>
          obtain ⟨-, -, -, hsound⟩ := Scan.scan_error hh.readWith batchSize ih hread
          exact hsound
  | forget _ hknown hretain ih => exact ⟨fun entry hentry => ih.known entry (hknown hentry), hretain⟩

/-- The word that stands for nothing has neither a letter nor a bracket. -/
lemma Candidate.keepGoing_not_mem_extract (line : String) : keepGoing ∉ extract line := by
  intro h
  obtain ⟨word, hword, heq⟩ := List.mem_map.1 h
  have hplausible := (List.mem_filter.1 hword).2
  obtain rfl : word = keepGoing.toList := by rw [← heq, String.toList_ofList]
  revert hplausible
  decide

/-! ## Paths -/

/-- Pieces between marks hold no mark. -/
lemma not_mem_of_mem_splitOn {a : Char} {text piece : List Char} (h : piece ∈ text.splitOn a) :
    a ∉ piece := by
  induction text generalizing piece with
  | nil =>
      rw [List.splitOn_nil, List.mem_singleton] at h
      simp [h]
  | cons c rest ih =>
      rw [List.splitOn_cons_eq_if_modifyHead] at h
      split_ifs at h with hc
      · rcases List.mem_cons.1 h with rfl | hrest
        · simp
        · exact ih hrest
      · cases hsplit : rest.splitOn a with
        | nil => exact absurd hsplit (List.splitOn_ne_nil a rest)
        | cons first others =>
            rw [hsplit] at h ih
            rcases List.mem_cons.1 h with rfl | hother
            · have hne : a ≠ c := by
                rintro rfl
                simp at hc
              rw [List.mem_cons, not_or]
              exact ⟨hne, ih List.mem_cons_self⟩
            · exact ih (List.mem_cons_of_mem _ hother)

namespace Path

/-- The pieces of a path that lead somewhere. -/
def steps (path : String) : List String := (named path).filter (· != ".")

/-- The parts of a path are its steps, with where it starts. -/
lemma parts_eq (path : String) :
    parts path = if isAbsolute path then "/" :: steps path
      else if (pieces path).head? == some "." then "." :: steps path else steps path := rfl

lemma not_mem_steps (path : String) : "/" ∉ steps path ∧ "." ∉ steps path := by
  constructor
  · intro h
    obtain ⟨cs, hcs, heq⟩ := List.mem_map.1 (List.mem_filter.1 (List.mem_filter.1 h).1).1
    refine not_mem_of_mem_splitOn hcs ?_
    rw [← String.toList_ofList (l := cs), heq]
    decide
  · intro h
    simpa using (List.mem_filter.1 h).2

/-- Two spellings of a path start at the same place and lead the same way. -/
lemma steps_of_parts {p q : String} (h : parts p = parts q) :
    isAbsolute p = isAbsolute q ∧ steps p = steps q := by
  have hp := not_mem_steps p
  have hq := not_mem_steps q
  rw [parts_eq, parts_eq] at h
  split_ifs at h <;> grind

end Path

namespace Workspace

/-- Pieces that lead nowhere are passed over. -/
lemma walk_steps {ws : Workspace} {place last : Files.Place} {pieces : List String}
    (h : ws.walk place pieces = .ok last) :
    ws.walk place ((pieces.filter (· != "")).filter (· != ".")) = .ok last := by
  fun_induction walk ws place pieces with
  | case1 place => exact h
  | case2 place piece rest hplace => cases h
  | case3 place piece rest hplace hidle ih =>
      rw [Bool.or_eq_true, beq_iff_eq, beq_iff_eq] at hidle
      rcases hidle with rfl | rfl <;> simpa using ih h
  | case4 place piece rest hplace hidle hup ih =>
      rw [beq_iff_eq] at hup
      subst hup
      simpa [walk, hplace] using ih h
  | case5 => cases h
  | case6 place piece rest hplace hidle hup hlimit hentry ih =>
      obtain ⟨hempty, hdot⟩ : piece ≠ "" ∧ piece ≠ "." := by simpa using hidle
      have hstep := ih h
      simp_all [walk]
  | case7 => cases h

/-- A path that can be read leads to a file, and so do its steps. -/
lemma entry?_of_read {ws : Workspace} {path : String} {bytes : ByteArray}
    (h : ws.read path = .ok bytes) :
    ∃ place, ws.walk (ws.startOf path) (Path.steps path) = .ok place ∧
      ws.entry? place = some (.file bytes) := by
  rw [read] at h
  cases hlocate : ws.locate path with
  | error e =>
      rw [hlocate] at h
      cases h
  | ok place =>
      rw [hlocate] at h
      refine ⟨place, ?_, ?_⟩
      · rw [locate] at hlocate
        cases hcheck : checkPath path with
        | error e =>
            rw [hcheck] at hlocate
            cases hlocate
        | ok _ =>
            rw [hcheck] at hlocate
            exact walk_steps hlocate
      · simp only [bind, Except.bind] at h
        split at h
        · next found hentry => rw [hentry, Except.ok.inj h]
        · cases h
        · cases h

/-- Two spellings of a path that can be read lead to the same bytes. -/
lemma read_of_parts {ws : Workspace} {p q : String} {a b : ByteArray}
    (h : Path.parts p = Path.parts q) (hp : ws.read p = .ok a) (hq : ws.read q = .ok b) : a = b := by
  obtain ⟨hstart, hsteps⟩ := Path.steps_of_parts h
  obtain ⟨place, hplace, hfile⟩ := entry?_of_read hp
  obtain ⟨place', hplace', hfile'⟩ := entry?_of_read hq
  rw [startOf, ← hstart, ← startOf, ← hsteps, hplace, Except.ok.injEq] at hplace'
  rw [← hplace', hfile] at hfile'
  cases hfile'
  rfl

end Workspace

/-- Two spellings of a path that can be read lead to the same text. -/
lemma Workspace.contentText?_of_parts {ws : Workspace} {p q a b : String}
    (h : Path.parts p = Path.parts q) (hp : ws.contentText? p = some a)
    (hq : ws.contentText? q = some b) : a = b := by
  rw [contentText?] at hp hq
  cases hreadp : ws.read p with
  | error e =>
      rw [hreadp] at hp
      cases hp
  | ok bytes =>
      cases hreadq : ws.read q with
      | error e =>
          rw [hreadq] at hq
          cases hq
      | ok bytes' =>
          rw [hreadp] at hp
          rw [hreadq, ← read_of_parts h hreadp hreadq] at hq
          exact Option.some.inj (hp.symm.trans hq)

/-! ## Digests -/

namespace Tracker

/-- Files that are not recorded keep what is known about them. -/
lemma lookup_recordAll_of_ne {changes : List (String × Digest)} {t : Tracker} {key : List String}
    (h : ∀ change ∈ changes, Path.parts change.1 ≠ key) :
    (changes.foldl (fun t (path, digest) => t.record path digest) t).digests.lookup key
      = t.digests.lookup key := by
  induction changes generalizing t with
  | nil => rfl
  | cons change rest ih =>
      obtain ⟨hne, hrest⟩ := List.forall_mem_cons.1 h
      rw [List.foldl_cons, ih hrest, lookup_record, if_neg (Ne.symm hne)]

/-- A file that is recorded, if several times then always with the same digest. -/
lemma lookup_recordAll_of_mem {changes : List (String × Digest)} {t : Tracker} {key : List String}
    {digest : Digest} (hmem : ∃ change ∈ changes, Path.parts change.1 = key)
    (h : ∀ change ∈ changes, Path.parts change.1 = key → change.2 = digest) :
    (changes.foldl (fun t (path, digest) => t.record path digest) t).digests.lookup key
      = some digest := by
  induction changes generalizing t with
  | nil => simp at hmem
  | cons first rest ih =>
      rw [List.foldl_cons]
      obtain ⟨hfirst, hrest⟩ := List.forall_mem_cons.1 h
      by_cases hlater : ∃ change ∈ rest, Path.parts change.1 = key
      · exact ih hlater hrest
      · have hkey : Path.parts first.1 = key := by
          obtain ⟨change, hchange, hparts⟩ := hmem
          rcases List.mem_cons.1 hchange with rfl | hchange
          · exact hparts
          · exact absurd ⟨change, hchange, hparts⟩ hlater
        rw [lookup_recordAll_of_ne fun change hchange hparts => hlater ⟨change, hchange, hparts⟩,
          lookup_record, if_pos hkey.symm, hfirst hkey]

end Tracker

/-- Whether a text of an item is to be looked at: the item is given in place, or another digest than
that of the text is recorded for it, or none. -/
def ContentItem.Unrecorded (tracker : Tracker) (text : String) : ContentItem → Prop
  | .inline .. => True
  | .stored path _ => tracker.digests.lookup (Path.parts path) ≠ some (Digest.ofText text)

/-- The file at a path has this text, and a scan of the items looks at it. -/
structure ContentItem.Changed (ws : Workspace) (tracker : Tracker) (items : List ContentItem)
    (path text : String) : Prop where
  listed : ∃ extension, .stored path extension ∈ items
  read : ws.contentText? path = some text
  unrecorded : tracker.digests.lookup (Path.parts path) ≠ some (Digest.ofText text)

namespace Scan

variable {extract : String → List String}

/-- What a scan records: the digests of the files it looked at. -/
lemma scan_records {hs : Handlers} (hh : hs.ReadWith extract) {ws : Workspace}
    {items : List ContentItem} {state : ScanState} (batchSize : Nat)
    (hm : state.lines.Sound fun _ => extract) (hr : ContentItem.readable ws items = true) :
    ∃ changes : List (String × Digest),
      (scan ws hs batchSize items state).2.tracker
        = changes.foldl (fun t (path, digest) => t.record path digest) state.tracker ∧
      ∀ change, change ∈ changes ↔ ∃ text,
        ContentItem.Changed ws state.tracker items change.1 text ∧ change.2 = Digest.ofText text := by
  obtain ⟨files, progress, hfiles, -, hscan⟩ := scan_of_readable hh batchSize hm hr
  rw [hscan]
  refine ⟨_, rfl, fun change => ?_⟩
  rw [List.mem_map]
  constructor
  · rintro ⟨⟨file, digest⟩, hfile, rfl⟩
    obtain ⟨hmem, hnew⟩ := mem_changedFiles.1 hfile
    obtain ⟨hlisted, hread⟩ := (hfiles _).1 hmem
    refine ⟨file.text, ⟨⟨_, ContentItem.mem_listings.1 hlisted⟩, hread, ?_⟩,
      Tracker.digest_of_change? hnew⟩
    intro hsame
    rw [Tracker.change?_eq_none_iff.2 hsame] at hnew
    cases hnew
  · rintro ⟨text, ⟨⟨extension, hlisted⟩, hread, hnew⟩, hdigest⟩
    refine ⟨(⟨change.1, extension, text⟩, change.2), mem_changedFiles.2 ⟨?_, ?_⟩, rfl⟩
    · exact (hfiles _).2 ⟨ContentItem.mem_listings.2 hlisted, hread⟩
    · rw [Tracker.change?, if_neg hnew, hdigest]

/-- After a scan the digests of the files it looked at are known, and the others are as before. -/
lemma lookup_scan {hs : Handlers} (hh : hs.ReadWith extract) {ws : Workspace}
    {items : List ContentItem} {state : ScanState} (batchSize : Nat)
    (hm : state.lines.Sound fun _ => extract) (hr : ContentItem.readable ws items = true) :
    (∀ path text, ContentItem.Changed ws state.tracker items path text →
      (scan ws hs batchSize items state).2.tracker.digests.lookup (Path.parts path)
        = some (Digest.ofText text)) ∧
    ∀ key, (∀ path text, ContentItem.Changed ws state.tracker items path text →
        Path.parts path ≠ key) →
      (scan ws hs batchSize items state).2.tracker.digests.lookup key
        = state.tracker.digests.lookup key := by
  obtain ⟨changes, hrecorded, hchanges⟩ := scan_records hh batchSize hm hr
  rw [hrecorded]
  constructor
  · intro path text hchanged
    refine Tracker.lookup_recordAll_of_mem
      ⟨(path, Digest.ofText text), (hchanges _).2 ⟨text, hchanged, rfl⟩, rfl⟩ ?_
    intro change hchange hparts
    obtain ⟨text', hchanged', hdigest⟩ := (hchanges change).1 hchange
    rw [hdigest, Workspace.contentText?_of_parts hparts hchanged'.read hchanged.read]
  · intro key hnone
    refine Tracker.lookup_recordAll_of_ne fun change hchange => ?_
    obtain ⟨text, hchanged, -⟩ := (hchanges change).1 hchange
    exact hnone change.1 text hchanged

/-- A scan can read everything if every listed file has some bytes. -/
lemma readable_iff {ws : Workspace} {items : List ContentItem} :
    ContentItem.readable ws items = true ↔
      ∀ path extension, .stored path extension ∈ items → ∃ bytes, ws.read path = .ok bytes := by
  rw [ContentItem.readable, List.all_eq_true]
  constructor
  · intro h path extension hlisted
    have htext := h _ hlisted
    rw [ContentItem.text?, Workspace.contentText?] at htext
    cases hread : ws.read path with
    | ok bytes => exact ⟨bytes, rfl⟩
    | error cause =>
        rw [hread] at htext
        cases htext
  · intro h item hitem
    cases item with
    | inline text extension => rfl
    | stored path extension =>
        obtain ⟨bytes, hread⟩ := h path extension hitem
        rw [ContentItem.text?, Workspace.contentText?, hread]
        rfl

/-- What a new item adds to a scan, line by line. -/
lemma isNew_and_mem_candidates_iff {hs : Handlers} (hh : hs.BuiltIn) {ws : Workspace}
    {tracker : Tracker} {item : ContentItem} {c : String} :
    item.IsNew ws tracker ∧ c ∈ item.candidates ws hs ↔
      ∃ text, item.text? ws = some text ∧ item.Unrecorded tracker text ∧
        ∃ line ∈ trimmedLines (hs.get item.extension) text, c ∈ Candidate.extract line := by
  rw [ContentItem.mem_candidates_iff hh.readWith]
  have hnew : ∀ text, item.text? ws = some text →
      (item.IsNew ws tracker ↔ item.Unrecorded tracker text) := by
    intro text htext
    cases item with
    | inline => exact Iff.rfl
    | stored path extension =>
        simp only [ContentItem.IsNew, ContentItem.Unrecorded, ne_eq, Tracker.change?_eq_none_iff]
        exact ⟨fun h => h text htext,
          fun h other hother => Option.some.inj (htext.symm.trans hother) ▸ h⟩
  constructor
  · rintro ⟨h, text, htext, line, hline, hc, -⟩
    exact ⟨text, htext, (hnew text htext).1 h, line, hline, hc⟩
  · rintro ⟨text, htext, h, line, hline, hc⟩
    refine ⟨(hnew text htext).2 h, text, htext, line, hline, hc, ?_⟩
    rintro rfl
    exact Candidate.keepGoing_not_mem_extract line hc

end Scan

/-! ## The scan -/

section reached
variable {state : ScanState} (hstate : state.Reached) {hs : Handlers} (hh : hs.BuiltIn)
  {ws : Workspace} {items : List ContentItem} (hread : ContentItem.readable ws items = true)
include hstate hh hread

lemma scan_found (batchSize : Nat) :
    ∃ found, (scan ws hs batchSize items state).1 = .ok found ∧ Names.Ascending found ∧
      ∀ c, c ∈ found ↔ ∃ item ∈ items, ∃ text, item.text? ws = some text ∧
        item.Unrecorded state.tracker text ∧
        ∃ line ∈ Scan.trimmedLines (hs.get item.extension) text, c ∈ Candidate.extract line := by
  obtain ⟨found, hscan, hascending, hfound, -⟩ :=
    Scan.scan_ok hh.readWith batchSize hstate.sound hread
  simp only [Scan.isNew_and_mem_candidates_iff hh] at hfound
  exact ⟨found, hscan, hascending, hfound⟩

/-- Neither the size of a batch nor the order of the items plays a part. -/
lemma scan_of_perm (batchSize batchSize' : Nat) {items' : List ContentItem}
    (hperm : items'.Perm items) :
    (scan ws hs batchSize' items' state).1 = (scan ws hs batchSize items state).1 ∧
      ∀ key, (scan ws hs batchSize' items' state).2.tracker.digests.lookup key
        = (scan ws hs batchSize items state).2.tracker.digests.lookup key := by
  have hread' : ContentItem.readable ws items' = true := by
    rw [← hread, ContentItem.readable, ContentItem.readable]
    exact hperm.all_eq
  constructor
  · obtain ⟨found, hscan, hascending, hfound⟩ := scan_found hstate hh hread batchSize
    obtain ⟨found', hscan', hascending', hfound'⟩ := scan_found hstate hh hread' batchSize'
    rw [hscan, hscan']
    congr 1
    refine hascending'.ext hascending fun c => ?_
    rw [hfound', hfound]
    simp only [hperm.mem_iff]
  · intro key
    obtain ⟨hnew, hold⟩ := Scan.lookup_scan hh.readWith batchSize hstate.sound hread
    obtain ⟨hnew', hold'⟩ := Scan.lookup_scan hh.readWith batchSize' hstate.sound hread'
    have hchanged : ∀ {path text}, ContentItem.Changed ws state.tracker items path text →
        ContentItem.Changed ws state.tracker items' path text :=
      fun h => ⟨h.listed.imp fun _ => hperm.mem_iff.2, h.read, h.unrecorded⟩
    have hchanged' : ∀ {path text}, ContentItem.Changed ws state.tracker items' path text →
        ContentItem.Changed ws state.tracker items path text :=
      fun h => ⟨h.listed.imp fun _ => hperm.mem_iff.1, h.read, h.unrecorded⟩
    by_cases hsome : ∃ path text, ContentItem.Changed ws state.tracker items path text ∧
        Path.parts path = key
    · obtain ⟨path, text, hpath, rfl⟩ := hsome
      rw [hnew path text hpath, hnew' path text (hchanged hpath)]
    · have hnone : ∀ path text, ContentItem.Changed ws state.tracker items path text →
          Path.parts path ≠ key :=
        fun path text hpath hkey => hsome ⟨path, text, hpath, hkey⟩
      rw [hold key hnone, hold' key fun path text hpath => hnone path text (hchanged' hpath)]

end reached

/-- **Memory and batches cannot be seen in a scan.**  In every state that scans with the built-in
handlers lead to, a scan fails exactly if a listed file cannot be read, and then records nothing.
Otherwise it finds the candidates of all lines of the items given in place and of the files whose text is
not the one recorded, for every size of a batch and every order of the items.  Afterwards it knows the
digests of these files, and of other files what it knew before. -/
theorem scan_of_reached {state : ScanState} (hstate : state.Reached) {hs : Handlers}
    (hh : hs.BuiltIn) (ws : Workspace) (batchSize : Nat) (items : List ContentItem) :
    ((∃ e, (scan ws hs batchSize items state).1 = .error e) ↔
      ∃ path extension, .stored path extension ∈ items ∧ ∃ cause, ws.read path = .error cause) ∧
    ((∃ e, (scan ws hs batchSize items state).1 = .error e) →
      (scan ws hs batchSize items state).2.tracker = state.tracker) ∧
    ((∀ path extension, .stored path extension ∈ items → ∃ bytes, ws.read path = .ok bytes) →
      ∃ found, (scan ws hs batchSize items state).1 = .ok found ∧ Names.Ascending found ∧
        (∀ c, c ∈ found ↔ ∃ item ∈ items, ∃ text, item.text? ws = some text ∧
          item.Unrecorded state.tracker text ∧
          ∃ line ∈ Scan.trimmedLines (hs.get item.extension) text, c ∈ Candidate.extract line) ∧
        (∀ path text, ContentItem.Changed ws state.tracker items path text →
          (scan ws hs batchSize items state).2.tracker.digests.lookup (Path.parts path)
            = some (Digest.ofText text)) ∧
        (∀ key, (∀ path text, ContentItem.Changed ws state.tracker items path text →
            Path.parts path ≠ key) →
          (scan ws hs batchSize items state).2.tracker.digests.lookup key
            = state.tracker.digests.lookup key) ∧
        ∀ items' batchSize', items'.Perm items →
          (scan ws hs batchSize' items' state).1 = .ok found ∧
          ∀ key, (scan ws hs batchSize' items' state).2.tracker.digests.lookup key
            = (scan ws hs batchSize items state).2.tracker.digests.lookup key) := by
  have hfails : (∃ e, (scan ws hs batchSize items state).1 = .error e) ↔
      ContentItem.readable ws items = false := by
    cases hread : ContentItem.readable ws items with
    | true =>
        obtain ⟨found, hscan, -⟩ := scan_found hstate hh hread batchSize
        simp [hscan]
    | false =>
        obtain ⟨e, hscan, -⟩ := Scan.scan_error hh.readWith batchSize hstate.sound hread
        simp [hscan]
  refine ⟨?_, ?_, ?_⟩
  · rw [hfails, ← Bool.not_eq_true, Scan.readable_iff]
    constructor
    · intro h
      by_contra hnone
      refine h fun path extension hlisted => ?_
      cases hread : ws.read path with
      | ok bytes => exact ⟨bytes, rfl⟩
      | error cause => exact absurd ⟨path, extension, hlisted, cause, hread⟩ hnone
    · rintro ⟨path, extension, hlisted, cause, hcause⟩ h
      obtain ⟨bytes, hread⟩ := h path extension hlisted
      rw [hcause] at hread
      cases hread
  · rw [hfails]
    intro hread
    obtain ⟨-, -, htracker, -⟩ := Scan.scan_error hh.readWith batchSize hstate.sound hread
    exact htracker
  · intro hall
    have hread := Scan.readable_iff.2 hall
    obtain ⟨found, hscan, hascending, hfound⟩ := scan_found hstate hh hread batchSize
    obtain ⟨hnew, hold⟩ := Scan.lookup_scan hh.readWith batchSize hstate.sound hread
    refine ⟨found, hscan, hascending, hfound, hnew, hold, fun items' batchSize' hperm => ?_⟩
    rw [← hscan]
    exact scan_of_perm hstate hh hread batchSize batchSize' hperm

namespace Rescanned

def files : Workspace :=
  ⟨[(["a.html"], .file "p-4".toUTF8), (["b.svelte"], .file "class:m-2\np-4".toUTF8)], []⟩

/-- The state after a scan of one file and a scan that failed, with all lines forgotten. -/
def state : ScanState :=
  let first := (scan files .builtin 1 [.file "a.html"] (.start 4)).2
  let second := (scan files .builtin 0 [.inline "w-8" "html", .file "b.html"] first).2
  { second with lines := .bounded 1 }

lemma reached : state.Reached :=
  .forget (.scan (.scan (.fresh (ScanState.fresh_start 4)) Handlers.builtIn_builtin _ _ _)
    Handlers.builtIn_builtin _ _ _) (List.nil_subset _) (LineMemory.keepNewest_subset 1)

def items : List ContentItem := [.file "a.html", .stored "b.svelte" "svelte", .inline "m-2" "html"]

end Rescanned

open Rescanned in
/-- One file is recorded as it is, so its only line is found in the other. -/
theorem scan_of_reached_rescanned :
    state.Reached ∧ Handlers.builtin.BuiltIn ∧
      (scan files .builtin 0 items state).1 = .ok ["m-2", "p-4"] ∧
      (scan files .builtin 7 items.reverse state).1 = .ok ["m-2", "p-4"] ∧
      (scan files .builtin 0 items state).2.tracker.digests.lookup ["b.svelte"]
        = some (Digest.ofText "class:m-2\np-4") := by
  have hfound : (scan files .builtin 0 items state).1 = .ok ["m-2", "p-4"] := by decide +kernel
  have hread : ContentItem.readable files items = true := by decide +kernel
  have hchanged : ContentItem.Changed files state.tracker items "b.svelte" "class:m-2\np-4" :=
    ⟨⟨"svelte", by decide⟩, by decide +kernel, by decide +kernel⟩
  obtain ⟨-, -, hscan⟩ := scan_of_reached reached Handlers.builtIn_builtin files 0 items
  obtain ⟨found, hok, -, -, hnew, -, horder⟩ := hscan (Scan.readable_iff.1 hread)
  rw [hfound, Except.ok.injEq] at hok
  subst hok
  exact ⟨reached, Handlers.builtIn_builtin, hfound, (horder _ 7 items.reverse_perm).1,
    hnew _ _ hchanged⟩

end UtilityCss
