import UtilityCss.Content.Handler
import UtilityCss.Content.Memory
import UtilityCss.Files.Workspace
import UtilityCss.Text.Utf8

/-!
# Scanning content

A scan collects the candidates of a list of content items.

* Items given in place come first.  Files follow, some at a time: a batch is looked at only after
  all its files were read, and a file that cannot be read ends the scan.
* A file whose text has the digest recorded for its path is passed over, also when it is listed with
  another extension than before.  Digests are recorded at the end, so a scan that fails has looked at
  nothing.
* Within a scan a trimmed line is looked at once, whichever item it stands in.  What its extractor
  answered is kept in the line memory, also by a scan that fails later.
-/

namespace UtilityCss

/-- Something to look for candidates in, with the extension that decides how it is read. -/
inductive ContentItem where
  | inline (text extension : String)
  /-- The extension need not be that of the path. -/
  | stored (path extension : String)
  deriving DecidableEq, Repr

/-- A file that is read by the extension of its path. -/
def ContentItem.file (path : String) : ContentItem := .stored path (Path.extension path)

/-- The extension that decides how an item is read. -/
def ContentItem.extension : ContentItem → String
  | .inline _ extension => extension
  | .stored _ extension => extension

/-- A content file that was read, with the extension it is listed with. -/
structure ContentFile where
  path : String
  extension : String
  text : String
  deriving DecidableEq, Repr

/-- Why a scan fails. -/
structure ScanError where
  path : String
  cause : FileError
  deriving DecidableEq, Repr

namespace ScanError

def message (e : ScanError) : String :=
  "failed to read content file " ++ e.path ++ ": " ++ e.cause.message

/-- An error as a diagnostic, which points at no stylesheet. -/
def diagnostic (e : ScanError) : Diagnostic :=
  (Diagnostic.ofError .contentUnreadable e.message .nowhere).withNote
    ("listed in `[content]`: " ++ e.path)

end ScanError

/-- What is kept from scan to scan. -/
structure ScanState where
  lines : LineMemory
  tracker : Tracker

def ScanState.start (lineCapacity : Nat) : ScanState :=
  ⟨.bounded lineCapacity, .empty⟩

namespace Scan

/-! ## Lines -/

/-- A scan between two lines. -/
structure Progress where
  /-- The lines that were read in this scan or before. -/
  lines : LineMemory
  seen : List String := []
  /-- The candidates of this scan, ascending. -/
  found : List String := []

/-- The candidates that an extractor finds in a line, ascending. -/
def lineCandidates (handler : Handler) (line : String) : List String :=
  Names.sorted ((handler.extract line).filter (· != Candidate.keepGoing))

/-- Looks at a trimmed line. -/
def Progress.addLine (handler : Handler) (p : Progress) (line : String) : Progress :=
  if p.seen.contains line then p
  else
    match p.lines.lookup? handler.key line with
    | some found =>
      { p with seen := line :: p.seen, found := Names.insertAll found p.found }
    | none =>
      let found := lineCandidates handler line
      { lines := p.lines.remember handler.key line found
        seen := line :: p.seen
        found := Names.insertAll found p.found }

/-- The trimmed lines of a text as a handler reads it. -/
def trimmedLines (handler : Handler) (text : String) : List String :=
  (Text.lines (handler.transform text)).map Text.trimmed

def Progress.addText (handler : Handler) (p : Progress) (text : String) : Progress :=
  (trimmedLines handler text).foldl (Progress.addLine handler) p

/-- Looks at the items given in place. -/
def Progress.addInline (handlers : Handlers) (p : Progress) : ContentItem → Progress
  | .inline text extension => p.addText (handlers.get extension) text
  | .stored .. => p

/-! ## Files -/

/-- Reads a file, listed by its path and an extension, whatever its bytes are. -/
def readContent (ws : Workspace) (listed : String × String) : Except ScanError ContentFile :=
  match ws.read listed.1 with
  | .ok bytes => .ok ⟨listed.1, listed.2, Text.decodeLossy bytes⟩
  | .error cause => .error ⟨listed.1, cause⟩

/-- The files that a scan has looked at, with their digests, and its progress. -/
structure FileProgress where
  progress : Progress
  /-- Files to be recorded, in order. -/
  changed : List (String × Digest) := []

/-- Looks at the text of a file, unless it is the one recorded. -/
def FileProgress.addFile (handlers : Handlers) (tracker : Tracker) (p : FileProgress)
    (file : ContentFile) : FileProgress :=
  match tracker.change? file.path file.text with
  | none => p
  | some digest =>
    { progress := p.progress.addText (handlers.get file.extension) file.text
      changed := p.changed ++ [(file.path, digest)] }

/-- Looks at the files of several batches, up to the first that cannot be read. -/
def FileProgress.addBatches (ws : Workspace) (handlers : Handlers) (tracker : Tracker) :
    List (List (String × String)) → FileProgress → FileProgress × Option ScanError
  | [], p => (p, none)
  | batch :: rest, p =>
    match batch.mapM (readContent ws) with
    | .error e => (p, some e)
    | .ok files =>
      addBatches ws handlers tracker rest (files.foldl (addFile handlers tracker) p)

/-- A list in pieces of `n` members, or one if `n` is zero; the last piece may be shorter. -/
def batches {α : Type} (n : Nat) : List α → List (List α)
  | [] => []
  | a :: rest => (a :: rest.take (n - 1)) :: batches n (rest.drop (n - 1))
termination_by items => items.length
decreasing_by simp only [List.length_drop, List.length_cons]; omega

end Scan

open Scan in
/-- The candidates of content items, ascending, with the state for the next scan. -/
def scan (ws : Workspace) (handlers : Handlers) (batchSize : Nat) (items : List ContentItem)
    (state : ScanState) : Except ScanError (List String) × ScanState :=
  let inline := items.foldl (Progress.addInline handlers) { lines := state.lines }
  let files := items.filterMap fun
    | .stored path extension => some (path, extension)
    | .inline .. => none
  let (result, failure) :=
    FileProgress.addBatches ws handlers state.tracker (batches batchSize files)
      { progress := inline }
  match failure with
  | some e => (.error e, { state with lines := result.progress.lines })
  | none =>
    (.ok result.progress.found,
      { lines := result.progress.lines
        tracker := result.changed.foldl (fun t (path, digest) => t.record path digest)
          state.tracker })

end UtilityCss
