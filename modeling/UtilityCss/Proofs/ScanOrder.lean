import UtilityCss.Proofs.Recall

/-!
# The order of content items

A scan looks at a trimmed line once, whichever item it stands in, so of several handlers that meet
the line only the first one extracts from it.  Where all of them would find the same candidates, the
order of the items cannot be seen, and the scan finds what its items hold.  Where they would not, the
order decides what is found: `scan_depends_on_order`.

* **Looks** — a line together with the handler an item shows it to.  `Look.first?` is the handler that
  meets a line first.
* **Lines** — `Progress.Heard`: the progress of a scan whose lines were each read by the first handler
  that met them.  One line, one text, the items given in place and the files are each a step of this.
* **The scan** — `scan_of_fresh`, and from it `scan_first_look`: what a first scan finds, and that for
  items that agree about the lines they share it finds all candidates, in whatever order they come.
-/

namespace UtilityCss

/-- Handlers with the same key extract the same. -/
def Handlers.KeysTell (hs : Handlers) : Prop :=
  ∀ e f, (hs.get e).key = (hs.get f).key → (hs.get e).extract = (hs.get f).extract

/-- Where a key tells its extractor, all lines of the key are read by that one. -/
lemma Handlers.KeysTell.exists_follow {hs : Handlers} (h : hs.KeysTell) :
    ∃ extractor, hs.Follow extractor := by
  have hfactors : Function.FactorsThrough (fun e => (hs.get e).extract) fun e => (hs.get e).key :=
    fun e f => h e f
  obtain ⟨extractor, heq⟩ := (Function.factorsThrough_iff _).1 hfactors
  exact ⟨extractor, congrFun heq⟩

/-! ## Looks -/

/-- A trimmed line and the handler it is shown to. -/
structure Look where
  handler : Handler
  line : String

/-- The handler that meets a line first. -/
def Look.first? (looks : List Look) (line : String) : Option Handler :=
  (looks.find? fun look => look.line == line).map Look.handler

/-- The first look at a line is in the first part, or else in the second. -/
lemma Look.first?_append (a b : List Look) (line : String) :
    first? (a ++ b) line = (first? a line).or (first? b line) := by
  rw [first?, List.find?_append, Option.map_or]
  rfl

lemma Look.first?_eq_none_iff {looks : List Look} {line : String} :
    first? looks line = none ↔ ∀ look ∈ looks, look.line ≠ line := by
  simp [first?]

/-- One look more is the first only if the line was not looked at. -/
lemma Look.first?_concat (looks : List Look) (handler : Handler) (line l : String) :
    first? (looks ++ [⟨handler, line⟩]) l =
      (first? looks l).or (if line = l then some handler else none) := by
  rw [first?_append]
  by_cases hl : line = l <;> simp [first?, hl]

lemma Look.exists_concat {looks : List Look} {handler : Handler} {line l : String} :
    (∃ look ∈ looks ++ [⟨handler, line⟩], look.line = l) ↔
      l = line ∨ ∃ look ∈ looks, look.line = l := by
  simp only [List.mem_append, List.mem_singleton, or_and_right, exists_or, exists_eq_left]
  rw [or_comm, eq_comm]

lemma Look.mem_of_first? {looks : List Look} {line : String} {handler : Handler}
    (h : first? looks line = some handler) : ⟨handler, line⟩ ∈ looks := by
  obtain ⟨look, hfind, rfl⟩ := Option.map_eq_some_iff.1 h
  have hline := List.find?_some hfind
  rw [beq_iff_eq] at hline
  rw [← hline]
  exact List.mem_of_find?_eq_some hfind

namespace ContentItem

/-- The lines of an item, each shown to the handler of its extension. -/
def looks (ws : Workspace) (hs : Handlers) (item : ContentItem) : List Look :=
  match item.text? ws with
  | some text =>
    (Scan.trimmedLines (hs.get item.extension) text).map fun line => ⟨hs.get item.extension, line⟩
  | none => []

/-- A candidate of an item is seen at one of its looks. -/
lemma mem_candidates {ws : Workspace} {hs : Handlers} {item : ContentItem} {c : String} :
    c ∈ item.candidates ws hs ↔
      ∃ look ∈ item.looks ws hs, c ∈ Scan.lineCandidates look.handler look.line := by
  rw [candidates, looks]
  cases item.text? ws with
  | none => simp
  | some text => simp [Scan.mem_textCandidates]

def isInline : ContentItem → Bool
  | .inline .. => true
  | .stored .. => false

/-- The looks of a scan, in its order: items given in place come first. -/
def allLooks (ws : Workspace) (hs : Handlers) (items : List ContentItem) : List Look :=
  (items.filter isInline).flatMap (looks ws hs) ++
    (items.filter fun item => !item.isInline).flatMap (looks ws hs)

lemma mem_allLooks {ws : Workspace} {hs : Handlers} {items : List ContentItem} {look : Look} :
    look ∈ allLooks ws hs items ↔ ∃ item ∈ items, look ∈ item.looks ws hs := by
  simp only [allLooks, List.mem_append, List.mem_flatMap, List.mem_filter]
  constructor
  · rintro (⟨item, ⟨hitem, -⟩, hlook⟩ | ⟨item, ⟨hitem, -⟩, hlook⟩) <;> exact ⟨item, hitem, hlook⟩
  · rintro ⟨item, hitem, hlook⟩
    cases hinline : item.isInline with
    | true => exact Or.inl ⟨item, ⟨hitem, hinline⟩, hlook⟩
    | false => exact Or.inr ⟨item, ⟨hitem, by simp [hinline]⟩, hlook⟩

/-- Items that show the same line to two handlers show it to handlers that find the same in it. -/
def Agree (ws : Workspace) (hs : Handlers) (items : List ContentItem) : Prop :=
  ∀ look ∈ allLooks ws hs items, ∀ other ∈ allLooks ws hs items, look.line = other.line →
    Scan.lineCandidates look.handler look.line = Scan.lineCandidates other.handler other.line

end ContentItem

namespace Scan

/-! ## Lines -/

/-- The progress of a scan in which every line was read by the first handler that met it. -/
structure Progress.Heard (extractor : String → String → List String) (looks : List Look)
    (p : Progress) : Prop where
  memory : p.lines.Sound extractor
  seen : ∀ line, line ∈ p.seen ↔ ∃ look ∈ looks, look.line = line
  ascending : Names.Ascending p.found
  found : ∀ c, c ∈ p.found ↔
    ∃ line handler, Look.first? looks line = some handler ∧ c ∈ lineCandidates handler line

variable {extractor : String → String → List String} {looks : List Look} {p : Progress}

lemma heard_start {m : LineMemory} (h : m.Sound extractor) :
    Progress.Heard extractor [] { lines := m } :=
  ⟨h, by simp, Names.ascending_nil, by simp [Look.first?]⟩

/-- A further look at a line that was met before is none. -/
lemma Progress.Heard.again (h : p.Heard extractor looks) {line : String} (hseen : line ∈ p.seen)
    (handler : Handler) : p.Heard extractor (looks ++ [⟨handler, line⟩]) := by
  have hmet := (h.seen line).1 hseen
  have hsame : ∀ l, Look.first? (looks ++ [⟨handler, line⟩]) l = Look.first? looks l := by
    intro l
    rw [Look.first?_concat]
    split_ifs with hl
    · subst hl
      cases hfirst : Look.first? looks line with
      | none =>
          obtain ⟨look, hlook, hline⟩ := hmet
          exact absurd hline (Look.first?_eq_none_iff.1 hfirst look hlook)
      | some first => rw [Option.some_or]
    · rw [Option.or_none]
  refine ⟨h.memory, fun l => ?_, h.ascending, fun c => ?_⟩
  · rw [h.seen, Look.exists_concat]
    constructor
    · exact Or.inr
    · rintro (rfl | hl)
      · exact hmet
      · exact hl
  · simp only [h.found, hsame]

/-- The step: a line that was met before changes nothing, another is read. -/
lemma Progress.Heard.addLine (h : p.Heard extractor looks) {handler : Handler}
    (hh : handler.extract = extractor handler.key) (line : String) :
    (p.addLine handler line).Heard extractor (looks ++ [⟨handler, line⟩]) := by
  cases hseen : p.seen.contains line with
  | true =>
      rw [Progress.addLine, if_pos hseen]
      exact h.again (List.contains_iff_mem.1 hseen) handler
  | false =>
      obtain ⟨hmemory, hnext, hfound⟩ := addLine_of_not_seen h.memory h.ascending hh hseen
      have hnew : Look.first? looks line = none := by
        refine Look.first?_eq_none_iff.2 fun look hlook hline => ?_
        have hmem : line ∈ p.seen := (h.seen line).2 ⟨look, hlook, hline⟩
        simp [hmem] at hseen
      refine ⟨hmemory, fun l => ?_, ?_, fun c => ?_⟩
      · rw [hnext, List.mem_cons, h.seen, Look.exists_concat]
      · rw [hfound]
        exact h.ascending.insertAll _
      · rw [hfound, Names.mem_insertAll, h.found]
        simp only [Look.first?_concat]
        constructor
        · rintro (hc | ⟨l, first, hfirst, hc⟩)
          · exact ⟨line, handler, by rw [hnew, Option.none_or, if_pos rfl], hc⟩
          · exact ⟨l, first, by rw [hfirst, Option.some_or], hc⟩
        · rintro ⟨l, first, hfirst, hc⟩
          split_ifs at hfirst with hl
          · subst hl
            rw [hnew, Option.none_or, Option.some.injEq] at hfirst
            exact Or.inl (hfirst ▸ hc)
          · rw [Option.or_none] at hfirst
            exact Or.inr ⟨l, first, hfirst, hc⟩

/-- A text adds a look at each of its lines. -/
lemma Progress.Heard.addText (h : p.Heard extractor looks) {handler : Handler}
    (hh : handler.extract = extractor handler.key) (text : String) :
    (p.addText handler text).Heard extractor
      (looks ++ (trimmedLines handler text).map fun line => ⟨handler, line⟩) := by
  rw [Progress.addText]
  generalize trimmedLines handler text = lines
  induction lines generalizing looks p with
  | nil => simpa using h
  | cons line rest ih =>
      rw [List.foldl_cons, List.map_cons, List.append_cons]
      exact ih (h.addLine hh line)

/-- The items given in place add theirs, in order. -/
lemma Progress.Heard.addInlines {hs : Handlers} (hh : hs.Follow extractor) (ws : Workspace)
    (h : p.Heard extractor looks) (items : List ContentItem) :
    (items.foldl (Progress.addInline hs) p).Heard extractor
      (looks ++ (items.filter ContentItem.isInline).flatMap (ContentItem.looks ws hs)) := by
  induction items generalizing looks p with
  | nil => simpa using h
  | cons item rest ih =>
      rw [List.foldl_cons]
      cases item with
      | inline text extension =>
          rw [List.filter_cons_of_pos rfl, List.flatMap_cons, ← List.append_assoc]
          exact ih (h.addText (hh extension) text)
      | stored path extension => exact ih h

/-! ## Files -/

lemma change?_empty (path text : String) :
    Tracker.empty.change? path text = some (Digest.ofText text) := rfl

/-- Files that were never scanned add a look at each of their lines, in order. -/
lemma FileProgress.addFiles_heard {hs : Handlers} (hh : hs.Follow extractor) {q : FileProgress}
    (h : q.progress.Heard extractor looks) (files : List ContentFile) :
    (files.foldl (addFile hs .empty) q).progress.Heard extractor
      (looks ++ files.flatMap fun file =>
        (fileLines hs file).map fun line => ⟨hs.get file.extension, line⟩) := by
  induction files generalizing looks q with
  | nil => simpa using h
  | cons file rest ih =>
      rw [List.foldl_cons, List.flatMap_cons, ← List.append_assoc]
      refine ih ?_
      rw [addFile, change?_empty]
      exact h.addText (hh file.extension) file.text

/-- Files that can all be read are looked at in the order they are listed. -/
lemma mapM_readContent_looks {ws : Workspace} (hs : Handlers) {items : List ContentItem}
    (hread : ContentItem.readable ws items = true) :
    ∃ files, (ContentItem.listings items).mapM (readContent ws) = .ok files ∧
      (files.flatMap fun file =>
        (fileLines hs file).map fun line => (⟨hs.get file.extension, line⟩ : Look)) =
      (items.filter fun item => !item.isInline).flatMap (ContentItem.looks ws hs) := by
  induction items with
  | nil => exact ⟨[], rfl, rfl⟩
  | cons item rest ih =>
      rw [ContentItem.readable, List.all_cons, Bool.and_eq_true] at hread
      obtain ⟨hitem, hrest⟩ := hread
      obtain ⟨files, hfiles, hlooks⟩ := ih hrest
      cases item with
      | inline text extension => exact ⟨files, hfiles, hlooks⟩
      | stored path extension =>
          obtain ⟨text, htext⟩ := Option.isSome_iff_exists.1 hitem
          refine ⟨⟨path, extension, text⟩ :: files, ?_, ?_⟩
          · have hlistings : ContentItem.listings (.stored path extension :: rest) =
              (path, extension) :: ContentItem.listings rest := rfl
            have hfile : readContent ws (path, extension) = .ok ⟨path, extension, text⟩ :=
              readContent_of_contentText? htext
            rw [hlistings, List.mapM_cons, hfile, hfiles]
            rfl
          · have hself : (ContentItem.stored path extension).looks ws hs =
                (fileLines hs ⟨path, extension, text⟩).map fun line => ⟨hs.get extension, line⟩ := by
              rw [ContentItem.looks, htext]
              rfl
            rw [List.flatMap_cons, hlooks, List.filter_cons_of_pos rfl, List.flatMap_cons, hself]

/-! ## The scan -/

end Scan

/-- Nothing is remembered, and forgetting will not add a line. -/
structure ScanState.Fresh (state : ScanState) : Prop where
  lines : state.lines.known = []
  tracker : state.tracker = .empty
  retain : ∀ known, state.lines.retain known ⊆ known

lemma ScanState.fresh_start (capacity : Nat) : (ScanState.start capacity).Fresh :=
  ⟨rfl, rfl, LineMemory.keepNewest_subset capacity⟩

namespace Scan

/-- A first scan reads every line with the first handler that meets it. -/
lemma scan_of_fresh {hs : Handlers} (hkeys : hs.KeysTell) {ws : Workspace}
    {items : List ContentItem} (hread : ContentItem.readable ws items = true) {state : ScanState}
    (hfresh : state.Fresh) (batchSize : Nat) :
    ∃ found, (scan ws hs batchSize items state).1 = .ok found ∧ Names.Ascending found ∧
      ∀ c, c ∈ found ↔ ∃ line handler,
        Look.first? (ContentItem.allLooks ws hs items) line = some handler ∧
          c ∈ lineCandidates handler line := by
  obtain ⟨extractor, hfollow⟩ := hkeys.exists_follow
  have hsound : state.lines.Sound extractor :=
    ⟨by rw [hfresh.lines]; exact nofun, hfresh.retain⟩
  obtain ⟨files, hfiles, hlooks⟩ := mapM_readContent_looks hs hread
  have hinline := (heard_start hsound).addInlines hfollow ws items
  have hheard := FileProgress.addFiles_heard hfollow (q := ⟨_, []⟩) hinline files
  rw [hlooks, List.nil_append] at hheard
  have hdone := FileProgress.addBatches_eq ws hs .empty
    (batches batchSize (ContentItem.listings items))
    { progress := items.foldl (Progress.addInline hs) { lines := state.lines } }
  rw [flatten_batches, hfiles] at hdone
  simp only [scan_eq, hfresh.tracker, hdone]
  exact ⟨_, rfl, hheard.ascending, hheard.found⟩

/-- Items that agree are read as if each handler had seen all its lines. -/
lemma mem_first_iff {ws : Workspace} {hs : Handlers} {items : List ContentItem}
    (hagree : ContentItem.Agree ws hs items) (c : String) :
    (∃ line handler, Look.first? (ContentItem.allLooks ws hs items) line = some handler ∧
        c ∈ lineCandidates handler line) ↔
      ∃ item ∈ items, c ∈ item.candidates ws hs := by
  constructor
  · rintro ⟨line, handler, hfirst, hc⟩
    obtain ⟨item, hitem, hlook⟩ := ContentItem.mem_allLooks.1 (Look.mem_of_first? hfirst)
    exact ⟨item, hitem, ContentItem.mem_candidates.2 ⟨_, hlook, hc⟩⟩
  · rintro ⟨item, hitem, hc⟩
    obtain ⟨look, hlook, hc⟩ := ContentItem.mem_candidates.1 hc
    have hmem := ContentItem.mem_allLooks.2 ⟨item, hitem, hlook⟩
    cases hfirst : Look.first? (ContentItem.allLooks ws hs items) look.line with
    | none => exact absurd rfl (Look.first?_eq_none_iff.1 hfirst look hmem)
    | some handler =>
        have hsame := hagree look hmem ⟨handler, look.line⟩ (Look.mem_of_first? hfirst) rfl
        exact ⟨look.line, handler, hfirst, hsame ▸ hc⟩

end Scan

/-- What a first scan finds in items that can be read, for handlers whose keys tell their extractors:
of each line, what the first handler that meets it extracts.  If the items agree about the lines
they share, that is everything the handlers extract from their own items, and every other order of
the items leads to the same candidates. -/
theorem scan_first_look {hs : Handlers} (hkeys : hs.KeysTell) {ws : Workspace}
    {items : List ContentItem} (hread : ContentItem.readable ws items = true) {state : ScanState}
    (hfresh : state.Fresh) (batchSize : Nat) :
    ∃ found, (scan ws hs batchSize items state).1 = .ok found ∧
      (∀ c, c ∈ found ↔ ∃ line handler,
        Look.first? (ContentItem.allLooks ws hs items) line = some handler ∧
          c ∈ Scan.lineCandidates handler line) ∧
      (ContentItem.Agree ws hs items →
        (∀ c, c ∈ found ↔ ∃ item ∈ items, c ∈ item.candidates ws hs) ∧
        ∀ items' batchSize' (state' : ScanState), items'.Perm items → state'.Fresh →
          (scan ws hs batchSize' items' state').1 = .ok found) := by
  obtain ⟨found, hscan, hascending, hfound⟩ := Scan.scan_of_fresh hkeys hread hfresh batchSize
  refine ⟨found, hscan, hfound, fun hagree => ?_⟩
  have hall : ∀ c, c ∈ found ↔ ∃ item ∈ items, c ∈ item.candidates ws hs := by
    intro c
    rw [hfound, Scan.mem_first_iff hagree]
  refine ⟨hall, fun items' batchSize' state' hperm hfresh' => ?_⟩
  have hread' : ContentItem.readable ws items' = true := by
    rw [← hread, ContentItem.readable, ContentItem.readable]
    exact hperm.all_eq
  have hmem : ∀ look, look ∈ ContentItem.allLooks ws hs items' ↔
      look ∈ ContentItem.allLooks ws hs items := by
    intro look
    simp only [ContentItem.mem_allLooks, hperm.mem_iff]
  have hagree' : ContentItem.Agree ws hs items' := by
    intro look hlook other hother
    exact hagree look ((hmem look).1 hlook) other ((hmem other).1 hother)
  obtain ⟨found', hscan', hascending', hfound'⟩ :=
    Scan.scan_of_fresh hkeys hread' hfresh' batchSize'
  rw [hscan']
  congr 1
  refine hascending'.ext hascending fun c => ?_
  rw [hfound', Scan.mem_first_iff hagree', hall]
  simp only [hperm.mem_iff]

namespace Sample

/-- A handler that takes every word for a candidate. -/
def words : Handler :=
  { transform := fun text => text
    extract := Text.words
    key := "words" }

/-- The built-in handlers, with words for files of one extension. -/
def mixed : Handlers := Handlers.builtin.register "w" words

lemma mixed_get (extension : String) : mixed.get extension = .plain ∨
    mixed.get extension = .svelte ∨ mixed.get extension = words := by
  rw [Handlers.get, Table.get?]
  cases hl : mixed.byExtension.entries.lookup extension with
  | none => exact Or.inl rfl
  | some handler =>
      obtain ⟨before, after, hsplit, -⟩ := List.lookup_eq_some_iff.1 hl
      have hmem : (extension, handler) ∈ mixed.byExtension.entries := by simp [hsplit]
      have hentries : mixed.byExtension.entries = [("svelte", .svelte), ("w", words)] := rfl
      rw [hentries] at hmem
      simp only [List.mem_cons, Prod.mk.injEq, List.not_mem_nil, or_false] at hmem
      exact Or.inr (hmem.imp And.right And.right)

lemma mixed_keysTell : mixed.KeysTell := by
  intro e f hkey
  rcases mixed_get e with he | he | he <;> rcases mixed_get f with hf | hf | hf <;>
    rw [he, hf] at hkey ⊢ <;>
    first
      | rfl
      | exact absurd hkey (by decide)

/-- No file is needed to see it. -/
def nothing : Workspace := ⟨[], []⟩

/-- A line that two handlers share, and one that only the third has. -/
def agreeing : List ContentItem :=
  [.inline "a=b" "html", .inline "a=b" "svelte", .inline "c=d" "w"]

/-- A line of which two handlers make different candidates. -/
def disputed : List ContentItem :=
  [.inline "a=b" "html", .inline "a=b" "w"]

end Sample

open Sample in
theorem scan_first_look_agreeing :
    mixed.KeysTell ∧ ContentItem.readable nothing agreeing = true ∧ (ScanState.start 4).Fresh ∧
      ContentItem.Agree nothing mixed agreeing ∧
      (scan nothing mixed 2 agreeing.reverse (.start 4)).1 = .ok ["a", "b", "c=d"] := by
  have hagree : ContentItem.Agree nothing mixed agreeing := by
    unfold ContentItem.Agree
    decide +kernel
  have hfound : (scan nothing mixed 2 agreeing (.start 4)).1 = .ok ["a", "b", "c=d"] := by
    with_unfolding_all rfl
  obtain ⟨found, hscan, -, horder⟩ :=
    @scan_first_look mixed mixed_keysTell nothing agreeing rfl _ (ScanState.fresh_start 4) 2
  rw [hfound, Except.ok.injEq] at hscan
  subst hscan
  exact ⟨mixed_keysTell, rfl, ScanState.fresh_start 4, hagree,
    (horder hagree).2 _ 2 _ agreeing.reverse_perm (ScanState.fresh_start 4)⟩

open Sample in
/-- The handler that meets a line first decides, and the candidates of the other are missed. -/
theorem scan_depends_on_order :
    mixed.KeysTell ∧ ContentItem.readable nothing disputed = true ∧ (ScanState.start 4).Fresh ∧
      disputed.reverse.Perm disputed ∧
      (scan nothing mixed 2 disputed (.start 4)).1 = .ok ["a", "b"] ∧
      (scan nothing mixed 2 disputed.reverse (.start 4)).1 = .ok ["a=b"] ∧
      disputed.flatMap (ContentItem.candidates nothing mixed) = ["a", "b", "a=b"] := by
  refine ⟨mixed_keysTell, rfl, ScanState.fresh_start 4, disputed.reverse_perm, ?_, ?_, ?_⟩
  · with_unfolding_all rfl
  · with_unfolding_all rfl
  · with_unfolding_all rfl

end UtilityCss
