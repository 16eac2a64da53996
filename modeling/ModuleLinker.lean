import ModuleLinker.Link.Memory
import ModuleLinker.Main
import ModuleLinker.Proofs.Erase.Positions
import ModuleLinker.Proofs.Link.Closure
import ModuleLinker.Proofs.Link.Drive
import ModuleLinker.Proofs.Link.Schedule
import ModuleLinker.Proofs.Erase.Lines
import ModuleLinker.Proofs.Source.Imports
import ModuleLinker.Proofs.Erase.Passes
import ModuleLinker.Proofs.Source.Behind
import ModuleLinker.Proofs.Source.Brackets
import ModuleLinker.Proofs.Erase.Behind.Members
import ModuleLinker.Proofs.Erase.Behind.Walk
import ModuleLinker.Proofs.Erase.Behind.Text
import ModuleLinker.Proofs.Erase.TypeText
import ModuleLinker.Proofs.Erase.Neighbours
import ModuleLinker.Proofs.Erase.References
import ModuleLinker.Proofs.Cache.Requests
import ModuleLinker.Proofs.Cache.Publication
import ModuleLinker.Proofs.Link.Session
import ModuleLinker.Proofs.Cache.KeyPath
import ModuleLinker.Proofs.Link.Again
import ModuleLinker.Proofs.Link.DepthFirst
import ModuleLinker.Proofs.Link.Abreast
import ModuleLinker.Proofs.Link.FirstFailure
import ModuleLinker.Proofs.Source.Tiling
import ModuleLinker.Proofs.Specifier.Canonical
import ModuleLinker.Proofs.Checked.Statement
import ModuleLinker.Proofs.Checked.Erase
import ModuleLinker.Proofs.Source.Appended
import ModuleLinker.Proofs.Erase.Literal
import ModuleLinker.Proofs.Erase.TypeGrammar
import ModuleLinker.Proofs.Source.Ahead
import ModuleLinker.Proofs.Erase.Annotated
import ModuleLinker.Proofs.Erase.Declarations
import ModuleLinker.Proofs.Erase.Script
import ModuleLinker.Proofs.Erase.ScriptWalk
import ModuleLinker.Proofs.Erase.Contexts
import ModuleLinker.Proofs.Erase.Enums
import ModuleLinker.Proofs.Specifier.Fragment
import ModuleLinker.Proofs.Cache.Listing
import ModuleLinker.Proofs.Specifier.FilePath
import ModuleLinker.Proofs.Erase.Complaints
import ModuleLinker.Proofs.Erase.Rescan
import ModuleLinker.Proofs.Erase.Remains
import ModuleLinker.Proofs.Erase.Untyped
import ModuleLinker.Proofs.Erase.Assertions
import ModuleLinker.Proofs.Graph.Visit
import ModuleLinker.Proofs.Graph.Shelf
import ModuleLinker.Proofs.Report.Tree
import ModuleLinker.Proofs.Config.Session
import ModuleLinker.Proofs.Link.Fetching
import ModuleLinker.Proofs.Source.Pairing
import ModuleLinker.Proofs.Erase.Progress
