import UtilityCss.Content.Scan
import UtilityCss.Directive.Registry
import UtilityCss.Rule.Book

/-!
# Why a build fails

A build can fail at each of its stages; the error of the stage is kept as it is.  One cause is left
to the build itself: a stylesheet that was never added to the library of sources.
-/

namespace UtilityCss

/-- Why a build fails. -/
inductive BuildError where
  | read (e : ReadError)
  /-- A block of the stylesheet belongs to no declared layer. -/
  | directive (e : DirectiveError)
  | scan (e : ScanError)
  | settings (e : SettingsError)
  /-- A rule body of the settings cannot be read. -/
  | body (e : BodyError)
  | unknownSource (file : Nat)
  deriving DecidableEq, Repr

namespace BuildError

def message : BuildError → String
  | .read e => e.message
  | .directive e => e.message
  | .scan e => e.message
  | .settings e => e.message
  | .body e => e.message
  | .unknownSource file => "internal compiler error: no source for file id " ++ toString file

def diagnostic : BuildError → Diagnostic
  | .read e => e.diagnostic
  | .directive e => e.diagnostic
  | .scan e => e.diagnostic
  | .settings e => e.diagnostic
  | .body e => e.diagnostic
  | .unknownSource file =>
    (Diagnostic.ofError .internal (message (.unknownSource file)) .nowhere).withNote
      "this is a bug in tack; please report it"

end BuildError

end UtilityCss
