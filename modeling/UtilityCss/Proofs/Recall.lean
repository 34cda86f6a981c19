import UtilityCss.Proofs.ContentScan

/-!
# What is remembered about lines cannot be seen

A scan answers a line from memory where it can.  If all that is remembered is what the extractors
say, then two scans with the same digests find the same candidates, fail with the same error and
record the same digests, however their memories differ.

Handlers may have different extractors here, as long as the key of a handler tells its extractor
(`Handlers.Follow`).  A line is looked at once per scan, by the first handler that meets it, so what
is found depends on the order of the items; it does not depend on the memory.

`Alike` is the relation between the two scans, and every stage of a scan keeps it: `Alike.addLine`,
`Alike.addText`, `Alike.addInlines`, `Alike.addFile`, `alike_addBatches` and at last `scan_alike`.
-/

namespace UtilityCss

/-- The key of every handler tells its extractor. -/
def Handlers.Follow (extractor : String → String → List String) (hs : Handlers) : Prop :=
  ∀ extension, (hs.get extension).extract = extractor (hs.get extension).key

namespace Scan

/-- Two scans between two lines that differ in what they remember, if at all. -/
structure Progress.Alike (extractor : String → String → List String) (p q : Progress) : Prop where
  left : p.lines.Sound extractor
  right : q.lines.Sound extractor
  ascending : Names.Ascending p.found
  seen : p.seen = q.seen
  found : p.found = q.found

variable {extractor : String → String → List String} {p q : Progress}

/-- A line that was not seen adds what its extractor says, remembered or not. -/
lemma addLine_of_not_seen (hp : p.lines.Sound extractor) (hasc : Names.Ascending p.found)
    {handler : Handler} (hh : handler.extract = extractor handler.key) {line : String}
    (hseen : p.seen.contains line = false) :
    (p.addLine handler line).lines.Sound extractor ∧
      (p.addLine handler line).seen = line :: p.seen ∧
      (p.addLine handler line).found
        = Names.insertAll (lineCandidates handler line) p.found := by
  rw [Progress.addLine, if_neg (by rw [hseen]; exact Bool.false_ne_true)]
  cases hl : p.lines.lookup? handler.key line with
  | none => exact ⟨hp.remember hh line, rfl, rfl⟩
  | some found =>
      refine ⟨hp, rfl, Names.insertAll_congr hasc fun c => ?_⟩
      rw [hp.lookup? hl, mem_lineCandidates, hh]

/-- A line is read, remembered or skipped, and the candidates come out the same. -/
lemma Progress.Alike.addLine (h : p.Alike extractor q) {handler : Handler}
    (hh : handler.extract = extractor handler.key) (line : String) :
    (p.addLine handler line).Alike extractor (q.addLine handler line) := by
  cases hseen : p.seen.contains line with
  | true =>
      have hq : q.seen.contains line = true := by rw [← h.seen, hseen]
      rw [Progress.addLine, Progress.addLine, if_pos hseen, if_pos hq]
      exact h
  | false =>
      have hq : q.seen.contains line = false := by rw [← h.seen, hseen]
      obtain ⟨hleft, hpseen, hpfound⟩ := addLine_of_not_seen h.left h.ascending hh hseen
      obtain ⟨hright, hqseen, hqfound⟩ :=
        addLine_of_not_seen h.right (h.found ▸ h.ascending) hh hq
      refine ⟨hleft, hright, ?_, ?_, ?_⟩
      · rw [hpfound]
        exact h.ascending.insertAll _
      · rw [hpseen, hqseen, h.seen]
      · rw [hpfound, hqfound, h.found]

/-- Two alike scans stay so over all lines of a text. -/
lemma Progress.Alike.addText (h : p.Alike extractor q) {handler : Handler}
    (hh : handler.extract = extractor handler.key) (text : String) :
    (p.addText handler text).Alike extractor (q.addText handler text) :=
  List.foldl_rel h fun line _ _ _ hpq => hpq.addLine hh line

variable {hs : Handlers}

/-- Two alike scans stay so over all items given in place. -/
lemma Progress.Alike.addInlines (h : p.Alike extractor q) (hh : hs.Follow extractor)
    (items : List ContentItem) :
    (items.foldl (Progress.addInline hs) p).Alike extractor
      (items.foldl (Progress.addInline hs) q) := by
  refine List.foldl_rel h fun item _ p q hpq => ?_
  cases item with
  | inline text extension => exact hpq.addText (hh extension) text
  | stored path extension => exact hpq

/-- The same for scans between two files: they have noted the same digests. -/
structure FileProgress.Alike (extractor : String → String → List String)
    (p q : FileProgress) : Prop where
  progress : p.progress.Alike extractor q.progress
  changed : p.changed = q.changed

/-- A file is passed over on both sides or on neither. -/
lemma FileProgress.Alike.addFile {p q : FileProgress} (h : p.Alike extractor q)
    (hh : hs.Follow extractor) (tracker : Tracker) (file : ContentFile) :
    (p.addFile hs tracker file).Alike extractor (q.addFile hs tracker file) := by
  rw [FileProgress.addFile, FileProgress.addFile]
  cases tracker.change? file.path file.text with
  | none => exact h
  | some digest => exact ⟨h.progress.addText (hh _) file.text, by rw [h.changed]⟩

/-- Two alike scans stay so over all batches, and end at the same file if one cannot be read. -/
lemma FileProgress.Alike.addBatches {p q : FileProgress} (h : p.Alike extractor q)
    (hh : hs.Follow extractor) (ws : Workspace) (tracker : Tracker)
    (pieces : List (List (String × String))) :
    (addBatches ws hs tracker pieces p).1.Alike extractor (addBatches ws hs tracker pieces q).1 ∧
      (addBatches ws hs tracker pieces p).2 = (addBatches ws hs tracker pieces q).2 := by
  induction pieces generalizing p q with
  | nil => exact ⟨h, rfl⟩
  | cons batch rest ih =>
      rw [FileProgress.addBatches, FileProgress.addBatches]
      cases batch.mapM (readContent ws) with
      | error e => exact ⟨h, rfl⟩
      | ok files => exact ih (List.foldl_rel h fun file _ p q hpq => hpq.addFile hh tracker file)

/-- **What is remembered about lines cannot be seen** in what a scan answers, nor in the digests
    it records. -/
theorem scan_alike (hh : hs.Follow extractor) (ws : Workspace) (batchSize : Nat)
    (items : List ContentItem) {s t : ScanState} (hs' : s.lines.Sound extractor)
    (ht : t.lines.Sound extractor) (htracker : s.tracker = t.tracker) :
    (scan ws hs batchSize items s).1 = (scan ws hs batchSize items t).1 ∧
      (scan ws hs batchSize items s).2.tracker = (scan ws hs batchSize items t).2.tracker ∧
      (scan ws hs batchSize items s).2.lines.Sound extractor ∧
      (scan ws hs batchSize items t).2.lines.Sound extractor := by
  have hstart : Progress.Alike extractor { lines := s.lines } { lines := t.lines } :=
    ⟨hs', ht, Names.ascending_nil, rfl, rfl⟩
  have hinline : FileProgress.Alike extractor
      { progress := items.foldl (Progress.addInline hs) { lines := s.lines } }
      { progress := items.foldl (Progress.addInline hs) { lines := t.lines } } :=
    ⟨hstart.addInlines hh items, rfl⟩
  obtain ⟨halike, hfailure⟩ := hinline.addBatches hh ws s.tracker
    (batches batchSize (ContentItem.listings items))
  rw [scan_eq, scan_eq, ← htracker]
  simp only [← hfailure]
  cases (FileProgress.addBatches ws hs s.tracker (batches batchSize (ContentItem.listings items))
      { progress := items.foldl (Progress.addInline hs) { lines := s.lines } }).2 with
  | some e => exact ⟨rfl, rfl, halike.progress.left, halike.progress.right⟩
  | none =>
      refine ⟨?_, ?_, halike.progress.left, halike.progress.right⟩
      · rw [halike.progress.found]
      · rw [halike.changed]

/-- A scan that fails records no digest. -/
lemma tracker_of_scan_error {ws : Workspace} {batchSize : Nat} {items : List ContentItem}
    {s : ScanState} {e : ScanError} (h : (scan ws hs batchSize items s).1 = .error e) :
    (scan ws hs batchSize items s).2.tracker = s.tracker := by
  rw [scan_eq] at h ⊢
  simp only at h ⊢
  split at h
  · rfl
  · cases h

end Scan

end UtilityCss
