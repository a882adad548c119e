import Unnest.CommandLine.Arguments
import Unnest.CommandLine.Input
import Unnest.CommandLine.Run
import Unnest.Describe.Cache
import Unnest.Describe.Catalog
import Unnest.Describe.Directory
import Unnest.Environment.File
import Unnest.FileName
import Unnest.Files.Access
import Unnest.Frame.Reader
import Unnest.Indexed
import Unnest.Main
import Unnest.Query
import Unnest.Settings.Basic
import Unnest.Settings.Environment
import Unnest.Settings.File
import Unnest.Settings.Format
import Unnest.Table
import Unnest.Toml.Document
import Unnest.Proofs.Column.Sequences
import Unnest.Proofs.CommandLine.ExitCodes
import Unnest.Proofs.CommandLine.Independence
import Unnest.Proofs.CommandLine.Overwriting
import Unnest.Proofs.Derived.Representation
import Unnest.Proofs.Describe.Resolution
import Unnest.Proofs.Flatten.Accounting
import Unnest.Proofs.Flatten.Again
import Unnest.Proofs.Flatten.Appending
import Unnest.Proofs.Flatten.Decoding
import Unnest.Proofs.Flatten.Excluding
import Unnest.Proofs.Flatten.Percentages
import Unnest.Proofs.Flatten.Refusals
import Unnest.Proofs.Flatten.Renaming
import Unnest.Proofs.Flatten.Reordering
import Unnest.Proofs.Flatten.Reports
import Unnest.Proofs.Flatten.Written
import Unnest.Proofs.Frame.Validation
import Unnest.Proofs.Payload.Segment
import Unnest.Proofs.Schema.Composition
import Unnest.Proofs.Settings.Catalog
import Unnest.Proofs.Shares.Order
import Unnest.Proofs.Sharing.History
import Unnest.Proofs.Sharing.Runs
