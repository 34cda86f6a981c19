import UtilityCss.Proofs.Ascending
import UtilityCss.Rule.Cache

/-!
# The rule cache answers as the resolver does

A cache that has only been used with one resolver is the graph of that resolver over the candidates
it was asked for.  Its staleness test compares sizes only; that is enough because the graph never
loses a key, so an equal size means an equal set of keys.

* `Answers` — the invariant: the keys are ascending, the entries are the resolver's, and a sheet
  that is held was made from all of them.
* `Answers.generate` — one call of `generate` keeps the invariant and answers the sheet of all
  candidates so far.
* `generate_after_calls` — a whole run: what every call answers, how often the resolver is asked,
  and when the sheet that is held is handed out again.
-/

namespace UtilityCss

/-- The sheet that is made of some candidates at once. -/
def Sheet.ofCandidates (resolve : Resolver) (candidates : List String) : Sheet :=
  ⟨candidates.flatMap resolve⟩

namespace RuleCache

/-- The cache was asked for exactly the candidates `known`, always with the same resolver. -/
structure Answers (resolve : Resolver) (known : List String) (cache : RuleCache) : Prop where
  ascending : Names.Ascending known
  entries : cache.classified.entries = known.map fun c => (c, resolve c)
  /-- A sheet that is held has all entries. -/
  current : ∀ sheet, cache.snapshot = some sheet →
    sheet = cache.partition ∧ cache.partitionedAt = cache.classified.size

lemma answers_empty (resolve : Resolver) : Answers resolve [] empty :=
  ⟨Names.ascending_nil, rfl, by intro sheet h; simp [empty] at h⟩

variable {resolve : Resolver} {known : List String} {cache : RuleCache}

/-- The cache has an answer for every candidate known. -/
lemma Answers.size (h : Answers resolve known cache) : cache.classified.size = known.length := by
  rw [Table.size, h.entries, List.length_map]

/-- The sheet of the cache is the one made at once. -/
lemma Answers.partition_eq (h : Answers resolve known cache) :
    cache.partition = Sheet.ofCandidates resolve known := by
  rw [partition, h.entries, Sheet.ofCandidates, List.flatMap_map]

/-- What is pending, added to what is known, is everything asked for. -/
lemma Answers.insertAll_pending (h : Answers resolve known cache) (candidates : List String) :
    Names.insertAll (cache.pending candidates) known = Names.insertAll candidates known := by
  refine (h.ascending.insertAll _).ext (h.ascending.insertAll _) fun x => ?_
  have hx := Table.contains_graph resolve h.entries x
  simp only [Names.mem_insertAll, pending, List.mem_filter, Names.mem_sorted, Bool.not_eq_true']
  by_cases hk : x ∈ known
  · simp [hk]
  · have hc : cache.classified.contains x = false := by
      rw [← Bool.not_eq_true, hx]
      exact hk
    simp [hk, hc]

/-- New candidates take their places among the known ones. -/
lemma Answers.classify_entries (h : Answers resolve known cache) (candidates : List String) :
    (cache.classify resolve candidates).classified.entries
      = (Names.insertAll candidates known).map fun c => (c, resolve c) := by
  rw [classify, Table.foldl_insert_graph resolve _ known _ h.entries,
    h.insertAll_pending candidates]

@[simp]
lemma classify_snapshot (candidates : List String) :
    (cache.classify resolve candidates).snapshot = cache.snapshot := rfl

@[simp]
lemma classify_partitionedAt (candidates : List String) :
    (cache.classify resolve candidates).partitionedAt = cache.partitionedAt := rfl

/-- A sheet that passes the comparison of sizes has every candidate: had one been added, the
    sizes would differ. -/
lemma Answers.current?_eq (h : Answers resolve known cache) (candidates : List String)
    {sheet : Sheet} (hs : (cache.classify resolve candidates).current? = some sheet) :
    sheet = Sheet.ofCandidates resolve (Names.insertAll candidates known) ∧
      cache.snapshot = some sheet ∧
      cache.partitionedAt = (cache.classify resolve candidates).classified.size := by
  rw [current?] at hs
  split_ifs at hs with hat
  rw [classify_snapshot] at hs
  rw [classify_partitionedAt] at hat
  refine ⟨?_, hs, hat⟩
  obtain ⟨hsheet, hold⟩ := h.current sheet hs
  have hnew : (cache.classify resolve candidates).classified.size
      = (Names.insertAll candidates known).length := by
    rw [Table.size, h.classify_entries candidates, List.length_map]
  have hlen : (Names.insertAll candidates known).length ≤ known.length := by
    rw [← hnew, ← hat, hold, h.size]
  have hsub : known ⊆ Names.insertAll candidates known :=
    fun x hx => Names.mem_insertAll.mpr (Or.inr hx)
  rw [← h.ascending.eq_of_subset_of_length (h.ascending.insertAll candidates) hsub hlen, hsheet,
    h.partition_eq]

/-- One call of `generate` answers the sheet of all candidates so far and keeps the invariant. -/
theorem Answers.generate (h : Answers resolve known cache) (candidates : List String) :
    (cache.generate resolve candidates).1
        = Sheet.ofCandidates resolve (Names.insertAll candidates known) ∧
      Answers resolve (Names.insertAll candidates known)
        (cache.generate resolve candidates).2 := by
  have hentries := h.classify_entries candidates
  have hasc := h.ascending.insertAll candidates
  have hpart : (cache.classify resolve candidates).partition
      = Sheet.ofCandidates resolve (Names.insertAll candidates known) := by
    rw [partition, hentries, Sheet.ofCandidates, List.flatMap_map]
  rw [RuleCache.generate]
  cases hs : (cache.classify resolve candidates).current? with
  | some sheet =>
      obtain ⟨heq, hsnap, hat⟩ := h.current?_eq candidates hs
      refine ⟨heq, hasc, hentries, ?_⟩
      intro sheet' hsheet'
      rw [classify_snapshot, hsnap, Option.some.injEq] at hsheet'
      exact ⟨by rw [← hsheet', heq, hpart], hat⟩
  | none =>
      refine ⟨hpart, hasc, hentries, ?_⟩
      intro sheet' hsheet'
      simp only [Option.some.injEq] at hsheet'
      exact ⟨hsheet'.symm, rfl⟩

/-! ## Watching a call

A resolver is a function, so how often it is asked cannot be seen in what it answers; and a sheet
made anew may be equal to the one that was held.  `generateM` is `generate` with both written as
actions: `watch` runs it with actions that take notes, and `watch_fst` says that nothing else
changes.
-/

section acting
variable {m : Type → Type} [Monad m]

/-- Asks for the fragments of the candidates that are not known, one after the other. -/
def askAll (ask : String → m (List Fragment)) :
    List String → Table (List Fragment) → m (Table (List Fragment))
  | [], known => pure known
  | candidate :: rest, known =>
    if known.contains candidate then askAll ask rest known
    else do
      let fragments ← ask candidate
      askAll ask rest (known.insert candidate fragments)

/-- `generate` with a resolver that acts, and with the action `make` for a sheet that is made
rather than handed out again. -/
def generateM (ask : String → m (List Fragment)) (make : m Unit) (cache : RuleCache)
    (candidates : List String) : m (Sheet × RuleCache) := do
  let classified ← askAll ask (Names.sorted candidates) cache.classified
  let cache := { cache with classified }
  match cache.current? with
  | some sheet => pure (sheet, cache)
  | none =>
    make
    let sheet := cache.partition
    pure (sheet, { cache with snapshot := some sheet, partitionedAt := cache.classified.size })

end acting

/-- Notes about one call. -/
structure Notes where
  /-- What the resolver was asked for, in order. -/
  asked : List String := []
  /-- Whether the sheet that is handed out was made in this call. -/
  made : Bool := false

/-- Asks the resolver and writes down for what. -/
def noteAsked (resolve : Resolver) (candidate : String) : StateM Notes (List Fragment) := do
  modify fun notes => { notes with asked := notes.asked ++ [candidate] }
  pure (resolve candidate)

/-- Writes down that a sheet is made. -/
def noteMade : StateM Notes Unit :=
  modify fun notes => { notes with made := true }

/-- A call of `generate` that is watched. -/
def watch (resolve : Resolver) (cache : RuleCache) (candidates : List String) :
    (Sheet × RuleCache) × Notes :=
  (generateM (noteAsked resolve) noteMade cache candidates).run {}

/-- A sequence of calls that are watched. -/
def watchAll (resolve : Resolver) : RuleCache → List (List String) → List Notes
  | _, [] => []
  | cache, candidates :: rest =>
    (watch resolve cache candidates).2 ::
      watchAll resolve (cache.generate resolve candidates).2 rest

/-- The cache after a sequence of calls. -/
def after (resolve : Resolver) (calls : List (List String)) : RuleCache :=
  calls.foldl (fun cache candidates => (cache.generate resolve candidates).2) empty

/-- The resolver is asked for what is pending: no candidate comes twice, so those added on the way
    do not matter. -/
lemma askAll_noteAsked (resolve : Resolver) (notes : Notes) {candidates : List String}
    (h : candidates.Nodup) (known : Table (List Fragment)) :
    (askAll (noteAsked resolve) candidates known).run notes
      = ((candidates.filter fun c => !known.contains c).foldl
          (fun known c => known.insert c (resolve c)) known,
        { notes with asked := notes.asked ++ candidates.filter fun c => !known.contains c }) := by
  induction candidates generalizing known notes with
  | nil =>
      simp only [askAll, List.filter_nil, List.foldl_nil, List.append_nil]
      rfl
  | cons candidate rest ih =>
      obtain ⟨hnew, hrest⟩ := List.nodup_cons.mp h
      rw [askAll]
      split_ifs with hknown
      · rw [ih notes hrest]
        simp [hknown]
      · have hsame : (rest.filter fun c => !(known.insert candidate (resolve candidate)).contains c)
            = rest.filter fun c => !known.contains c := by
          refine List.filter_congr fun c hc => ?_
          have hne : c ≠ candidate := fun heq => hnew (heq ▸ hc)
          rw [Table.contains_insert_of_ne hne]
        have hstep : (do
            let fragments ← noteAsked resolve candidate
            askAll (noteAsked resolve) rest (known.insert candidate fragments)).run notes
              = (askAll (noteAsked resolve) rest (known.insert candidate (resolve candidate))).run
                { notes with asked := notes.asked ++ [candidate] } := rfl
        rw [hstep, ih _ hrest, hsame]
        simp [hknown]

/-- What is written down: the candidates that are not known, each once, and a sheet if there are any. -/
lemma watch_eq (resolve : Resolver) (cache : RuleCache) (candidates : List String) :
    watch resolve cache candidates
      = (cache.generate resolve candidates,
        { asked := cache.pending candidates
          made := ((cache.classify resolve candidates).current?).isNone }) := by
  have hask := askAll_noteAsked resolve {} (Names.ascending_sorted candidates).nodup
    cache.classified
  have hrun : watch resolve cache candidates
      = ((match (cache.classify resolve candidates).current? with
          | some sheet => pure (sheet, cache.classify resolve candidates)
          | none => do
            noteMade
            pure ((cache.classify resolve candidates).partition,
              { cache.classify resolve candidates with
                snapshot := some (cache.classify resolve candidates).partition
                partitionedAt := (cache.classify resolve candidates).classified.size }) :
          StateM Notes (Sheet × RuleCache))).run { asked := cache.pending candidates } := by
    rw [watch, generateM, StateT.run_bind, hask]
    rfl
  rw [hrun, RuleCache.generate]
  cases (cache.classify resolve candidates).current? <;> rfl

/-! ## Whole runs -/

/-- Over any calls the cache knows what it was asked for, and no more. -/
lemma answers_foldl {resolve : Resolver} {known : List String} {cache : RuleCache}
    (h : Answers resolve known cache) (calls : List (List String)) :
    Answers resolve (Names.insertAll calls.flatten known)
      (calls.foldl (fun cache candidates => (cache.generate resolve candidates).2) cache) := by
  induction calls generalizing known cache with
  | nil => exact h
  | cons candidates rest ih =>
      have hnext := ih (h.generate candidates).2
      rwa [List.flatten_cons, Names.insertAll, List.foldl_append]

/-- After a run the cache answers for every candidate of its calls. -/
lemma answers_after (resolve : Resolver) (calls : List (List String)) :
    Answers resolve (Names.sorted calls.flatten) (after resolve calls) :=
  answers_foldl (answers_empty resolve) calls

/-- What is pending is what was not asked for before. -/
lemma Answers.mem_pending (h : Answers resolve known cache) {candidates : List String}
    {c : String} : c ∈ cache.pending candidates ↔ c ∈ candidates ∧ c ∉ known := by
  rw [pending, List.mem_filter, Names.mem_sorted, Bool.not_eq_true', ← Bool.not_eq_true,
    Table.contains_graph resolve h.entries]

lemma ascending_pending (cache : RuleCache) (candidates : List String) :
    Names.Ascending (cache.pending candidates) :=
  (Names.ascending_sorted candidates).filter _

/-- The sheet that is held is handed out again exactly if nothing is pending. -/
lemma Answers.current?_eq_some_iff (h : Answers resolve known cache) (candidates : List String)
    (sheet : Sheet) :
    (cache.classify resolve candidates).current? = some sheet
      ↔ cache.snapshot = some sheet ∧ candidates ⊆ known := by
  have hsize : (cache.classify resolve candidates).classified.size
      = (Names.insertAll candidates known).length := by
    rw [Table.size, h.classify_entries candidates, List.length_map]
  constructor
  · intro hcurrent
    obtain ⟨-, hheld, hat⟩ := h.current?_eq candidates hcurrent
    have hsub : known ⊆ Names.insertAll candidates known := by
      intro c hc
      exact Names.mem_insertAll.mpr (Or.inr hc)
    have heq : known = Names.insertAll candidates known := by
      refine h.ascending.eq_of_subset_of_length (h.ascending.insertAll candidates) hsub ?_
      rw [← hsize, ← hat, (h.current sheet hheld).2, h.size]
    refine ⟨hheld, fun c hc => ?_⟩
    rw [heq]
    exact Names.mem_insertAll.mpr (Or.inl hc)
  · rintro ⟨hheld, hknown⟩
    have heq : Names.insertAll candidates known = known := by
      refine (h.ascending.insertAll candidates).ext h.ascending fun c => ?_
      rw [Names.mem_insertAll]
      exact ⟨fun hc => hc.elim (fun hc => hknown hc) id, Or.inr⟩
    rw [current?, if_pos, classify_snapshot, hheld]
    rw [classify_partitionedAt, (h.current sheet hheld).2, hsize, heq, h.size]

/-- A call makes no sheet exactly if one is held and no candidate is new, and then it hands out the
    one that is held. -/
lemma Answers.made_eq_false_iff (h : Answers resolve known cache) (candidates : List String) :
    (watch resolve cache candidates).2.made = false
      ↔ cache.snapshot.isSome ∧ candidates ⊆ known := by
  rw [watch_eq, Option.isNone_eq_false_iff, Option.isSome_iff_exists, Option.isSome_iff_exists]
  simp only [h.current?_eq_some_iff, exists_and_right]

/-- If no sheet is made, the answer is the last one. -/
lemma snapshot_of_not_made {candidates : List String}
    (h : (watch resolve cache candidates).2.made = false) :
    cache.snapshot = some (cache.generate resolve candidates).1 := by
  rw [watch_eq, Option.isNone_eq_false_iff, Option.isSome_iff_exists] at h
  obtain ⟨sheet, hsheet⟩ := h
  rw [RuleCache.generate, hsheet]
  rw [current?] at hsheet
  split_ifs at hsheet
  exact hsheet

/-- Over a run the resolver is asked for every candidate that was not known, and for none twice. -/
lemma Answers.asked_watchAll (h : Answers resolve known cache) (calls : List (List String)) :
    ((watchAll resolve cache calls).flatMap Notes.asked).Nodup ∧
      ∀ c, c ∈ (watchAll resolve cache calls).flatMap Notes.asked
        ↔ c ∈ calls.flatten ∧ c ∉ known := by
  induction calls generalizing known cache with
  | nil => simp [watchAll]
  | cons candidates rest ih =>
      obtain ⟨hnodup, hmem⟩ := ih (h.generate candidates).2
      rw [watchAll, watch_eq, List.flatMap_cons]
      constructor
      · refine (ascending_pending cache candidates).nodup.append hnodup ?_
        -- what is asked for later was not asked for now
        intro c hnow hlater
        have hlater := ((hmem c).mp hlater).2
        rw [Names.mem_insertAll] at hlater
        exact hlater (Or.inl (h.mem_pending.mp hnow).1)
      · intro c
        rw [List.mem_append, h.mem_pending, hmem, Names.mem_insertAll, List.flatten_cons,
          List.mem_append]
        tauto

/-- A bucket has the fragments of its layer, by candidate. -/
lemma bucket_ofCandidates (resolve : Resolver) (candidates : List String) (layer : Layer) :
    (Sheet.ofCandidates resolve candidates).bucket layer
      = candidates.flatMap fun c => (resolve c).filter fun f => f.layer = layer := by
  rw [Sheet.bucket, Sheet.ofCandidates, List.filter_flatMap]

/-- The answer to a call is made of all candidates passed so far. -/
lemma generate_after (resolve : Resolver) (before : List (List String)) (now : List String) :
    ((after resolve before).generate resolve now).1
      = Sheet.ofCandidates resolve (Names.sorted (before ++ [now]).flatten) := by
  have hcache := answers_after resolve before
  rw [(hcache.generate now).1, List.flatten_append, List.flatten_singleton, Names.sorted_append]

/-- **The rule cache over whole runs.**  After the calls `before` on an empty cache comes one more,
    with the candidates `now`. -/
theorem generate_after_calls (resolve : Resolver) (before : List (List String))
    (now : List String) :
    let cache := after resolve before
    let notes := (watch resolve cache now).2
    let asked := (watchAll resolve empty (before ++ [now])).flatMap Notes.asked
    -- A call that is watched is the call itself.
    (watch resolve cache now).1 = cache.generate resolve now ∧
    -- Its sheet has the fragments of every candidate passed so far, in the order of their bytes.
    (∃ all, Names.InByteOrder all ∧ (∀ c, c ∈ all ↔ c ∈ (before ++ [now]).flatten) ∧
      ∀ layer, (cache.generate resolve now).1.bucket layer
        = all.flatMap fun c => (resolve c).filter fun f => f.layer = layer) ∧
    -- The same candidates passed in other calls end in the same sheet.
    (∀ before' now', (∀ c, c ∈ (before ++ [now]).flatten ↔ c ∈ (before' ++ [now']).flatten) →
      ∀ layer, (cache.generate resolve now).1.bucket layer
        = ((after resolve before').generate resolve now').1.bucket layer) ∧
    -- The resolver is asked for what is pending, in order, and once for each candidate of the run.
    notes.asked = cache.pending now ∧ Names.InByteOrder notes.asked ∧ asked.Nodup ∧
    (∀ c, c ∈ asked ↔ c ∈ (before ++ [now]).flatten) ∧
    -- The sheet that was held is handed out again exactly if no candidate is new.
    (notes.made = false ↔ cache.snapshot.isSome ∧ ∀ c ∈ now, c ∈ before.flatten) ∧
    (notes.made = false → cache.snapshot = some (cache.generate resolve now).1) ∧
    (cache.snapshot.isSome → cache.partitionedAt = cache.classified.size) := by
  intro cache notes asked
  have hcache : Answers resolve (Names.sorted before.flatten) cache := answers_after resolve before
  obtain ⟨hnodup, hmem⟩ := (answers_empty resolve).asked_watchAll (before ++ [now])
  have hasked : notes.asked = cache.pending now := congrArg (·.2.asked) (watch_eq resolve cache now)
  refine ⟨?_, ?_, ?_, hasked, ?_, hnodup, ?_, ?_, snapshot_of_not_made, ?_⟩
  · rw [watch_eq]
  · refine ⟨Names.sorted (before ++ [now]).flatten, ?_, fun c => Names.mem_sorted, fun layer => ?_⟩
    · exact Names.inByteOrder_iff.mpr (Names.ascending_sorted _)
    · rw [generate_after, bucket_ofCandidates]
  · intro before' now' hsame layer
    rw [generate_after, generate_after, Names.sorted_eq_of_mem_iff (Names.ascending_sorted _)
      fun c => Names.mem_sorted.trans (hsame c)]
  · rw [Names.inByteOrder_iff, hasked]
    exact ascending_pending cache now
  · intro c
    rw [hmem c]
    simp
  · rw [hcache.made_eq_false_iff now]
    simp only [List.subset_def, Names.mem_sorted]
  · intro hheld
    obtain ⟨sheet, hsheet⟩ := Option.isSome_iff_exists.mp hheld
    exact (hcache.current sheet hsheet).2

end RuleCache

end UtilityCss
