import SourceModels.Identifier
import SourceModels.Language
import SourceModels.SyntaxTree.Stored
import SourceModels.Failure
import SourceModels.Column
import SourceModels.Instant
import SourceModels.Uuid
import SourceModels.Model.Stored
import SourceModels.Model.Draft
import SourceModels.FileSystem.Change
import SourceModels.Resolution
import SourceModels.Selection
import SourceModels.Extraction
import SourceModels.Service
import SourceModels.Toml.Document
import SourceModels.Config.File
import SourceModels.CommandLine
import SourceModels.Main
import SourceModels.Proofs.FileSystem.Places
import SourceModels.Proofs.PathNames
import SourceModels.Proofs.FileSystem.Files
import SourceModels.Proofs.Store.Replacement
import SourceModels.Proofs.Extraction.AllOrNothing
import SourceModels.Proofs.MessagePack.Headers
import SourceModels.Proofs.MessagePack.Spelling
import SourceModels.Proofs.Column
import SourceModels.Proofs.Decimal
import SourceModels.Proofs.Extraction.Capture
import SourceModels.Proofs.Extraction.Fidelity
import SourceModels.Proofs.SyntaxTree.Stored
import SourceModels.Proofs.MessagePack.Sizes
import SourceModels.Proofs.Identifier.Containment
import SourceModels.Proofs.Column.Stored
import SourceModels.Proofs.Service.Trees
import SourceModels.Proofs.Batch.Kept
import SourceModels.Pipeline
import SourceModels.Proofs.Extraction.Items
import SourceModels.Proofs.Extraction.Pipeline
import SourceModels.Proofs.FileSystem.Regular
import SourceModels.Proofs.Selection.Filenames
import SourceModels.Proofs.Batch.Alone
import SourceModels.Proofs.Batch.Independence
import SourceModels.Proofs.CommandLine.Naming
import SourceModels.Proofs.Model.Access
import SourceModels.Proofs.Model.Cuts
import SourceModels.Proofs.Batch.Accounting
import SourceModels.Proofs.Batch.Reruns
import SourceModels.Proofs.Store.Writing
import SourceModels.Proofs.Model.History
import SourceModels.Proofs.Identifier.Forms
import SourceModels.Proofs.Identifier.Destinations
import SourceModels.Proofs.Language
import SourceModels.Proofs.Resolution
import SourceModels.Proofs.SyntaxTree.Tolerant
import SourceModels.Proofs.Service.Classified
import SourceModels.Proofs.Selection.Counters
import SourceModels.Proofs.Service.Requests
import SourceModels.Proofs.Config.Saved
