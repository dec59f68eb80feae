import ModuleBundler.Main
import ModuleBundler.Store.Memory
import ModuleBundler.Proofs.Graph.Traversal
import ModuleBundler.Proofs.Graph.Discovery
import ModuleBundler.Proofs.Store.Operations
import ModuleBundler.Proofs.Store.Reading
import ModuleBundler.Proofs.Bundle.Course
import ModuleBundler.Proofs.Bundle.Agreement
import ModuleBundler.Proofs.Bundle.Sources
import ModuleBundler.Proofs.Bundle.Needed
import ModuleBundler.Proofs.Bundle.Exactness
import ModuleBundler.Proofs.Bundle.Failure
import ModuleBundler.Proofs.Bundle.Preorder
import ModuleBundler.Proofs.Path.WellFormed
import ModuleBundler.Proofs.Bundle.Identity
import ModuleBundler.Proofs.Store.Refinement
import ModuleBundler.Proofs.Store.Resolving
import ModuleBundler.Proofs.Store.OpenFiles
import ModuleBundler.Proofs.Store.Foreign
import ModuleBundler.Proofs.Resolution.Probing
import ModuleBundler.Proofs.Bundle.Depth
import ModuleBundler.Proofs.Bundle.Footprint
import ModuleBundler.Proofs.Bundle.Embedding
import ModuleBundler.Proofs.Bundle.Noninterference
import ModuleBundler.Proofs.Bundle.Relocation
import ModuleBundler.Proofs.Bundle.TypeImports
import ModuleBundler.Proofs.Bundle.Transfer
import ModuleBundler.Proofs.Bundle.Externals
import ModuleBundler.Proofs.Disk.Runs
import ModuleBundler.Proofs.Bundle.OnDisk
import ModuleBundler.Proofs.Disk.Canonical
import ModuleBundler.Proofs.Bundle.Links
import ModuleBundler.Proofs.Text.Utf8
import ModuleBundler.Proofs.Path.RoundTrip
import ModuleBundler.Proofs.Path.NormalForm
import ModuleBundler.Proofs.Store.Directories
import ModuleBundler.Proofs.Source.Session
import ModuleBundler.Proofs.Syntax.Answers
import ModuleBundler.Proofs.Syntax.Extraction
import ModuleBundler.Proofs.Syntax.Insertion
import ModuleBundler.Proofs.Source.Comments
import ModuleBundler.Proofs.Store.Layout
import ModuleBundler.Proofs.Store.Faithful
import ModuleBundler.Proofs.Bundle.Arrangement
import ModuleBundler.Proofs.Disk.Opening
import ModuleBundler.Proofs.Path.Distance
import ModuleBundler.Proofs.Bundle.Sections
import ModuleBundler.Proofs.Report.Summary
import ModuleBundler.Proofs.Resolution.Prefixes
import ModuleBundler.Proofs.Path.Os
import ModuleBundler.Proofs.Settings.Comments
import ModuleBundler.Proofs.Command.Run
import ModuleBundler.Proofs.Path.Fingerprint
import ModuleBundler.Proofs.Path.Building
