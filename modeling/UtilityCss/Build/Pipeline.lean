import UtilityCss.Build.Error
import UtilityCss.Rule.Cache
import UtilityCss.Settings.Load

/-!
# What a build works with

A `Pipeline` says how candidates become rules, how content is read, and which content there is.  It
is made from the settings of a project and the directory that content patterns start from.
-/

namespace UtilityCss

/-- How candidates become rules, and where they come from. -/
structure Pipeline where
  resolve : Resolver
  handlers : Handlers
  content : List ContentItem
  batchSize : Nat

namespace Pipeline

/-- A pipeline with the built-in handlers and no content. -/
def bare (resolve : Resolver) : Pipeline :=
  { resolve, handlers := .builtin, content := [], batchSize := 500 }

/-- The pipeline of settings.  The texts given in place come in front of the files. -/
def ofSettings (ws : Workspace) (s : Settings) (root : String) : Except BuildError Pipeline := do
  let book ← (RuleBook.ofSettings s).mapError .body
  let paths ← (s.content.paths ws root).mapError .settings
  return {
    resolve := book.resolve
    handlers := .ofSettings s.content
    content := s.content.raw.map (fun raw => .inline raw.text raw.extension) ++ paths.map .file
    batchSize := s.options.batchSize }

end Pipeline

end UtilityCss
