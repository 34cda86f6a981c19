import UtilityCss.Main
import UtilityCss.Proofs.Ascending
import UtilityCss.Proofs.RuleCache
import UtilityCss.Proofs.ContentScan
import UtilityCss.Proofs.Recall
import UtilityCss.Proofs.Directives
import UtilityCss.Proofs.Incremental
import UtilityCss.Proofs.FailedBuilds
import UtilityCss.Proofs.Authored
import UtilityCss.Proofs.Outline
import UtilityCss.Proofs.RoundTrip
import UtilityCss.Proofs.Layout
import UtilityCss.Proofs.Locality
import UtilityCss.Proofs.Slices
import UtilityCss.Proofs.ByteLoops
import UtilityCss.Proofs.Boundaries
import UtilityCss.Proofs.Checked
import UtilityCss.Proofs.Generated
import UtilityCss.Proofs.Lineage
import UtilityCss.Proofs.ScanOrder
import UtilityCss.Proofs.Collecting
import UtilityCss.Proofs.PrintedTexts
import UtilityCss.Proofs.CustomTexts
import UtilityCss.Proofs.Minified
import UtilityCss.Proofs.TreePaths
import UtilityCss.Proofs.Verdicts
import UtilityCss.Proofs.ChosenSites
import UtilityCss.Proofs.Blocks
import UtilityCss.Proofs.ScanRuns
import UtilityCss.Proofs.Lockstep
import UtilityCss.Proofs.Verbatim
import UtilityCss.Proofs.Importance
import UtilityCss.Proofs.BareTexts
import UtilityCss.Proofs.Braces
import UtilityCss.Proofs.Concatenation
import UtilityCss.Proofs.Comments
import UtilityCss.Proofs.Splitting
import UtilityCss.Proofs.Semicolons
import UtilityCss.Proofs.Resolution
import UtilityCss.Proofs.Bodies
import UtilityCss.Proofs.Words
import UtilityCss.Proofs.ClassNames
import UtilityCss.Proofs.Visible
import UtilityCss.Proofs.LineLookup
import UtilityCss.Proofs.Rendering
import UtilityCss.Proofs.Lines
import UtilityCss.Proofs.KeyedWarnings
import UtilityCss.Proofs.WrittenFiles
import UtilityCss.Proofs.BuildRuns
import UtilityCss.Proofs.Heads
import UtilityCss.Proofs.Fixes
import UtilityCss.Proofs.ClassDirectives
