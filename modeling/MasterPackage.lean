import MasterPackage.Main
import MasterPackage.Transport.Rehearsal
import MasterPackage.Transport.FileTree
import MasterPackage.Proofs.Transport.Refusals
import MasterPackage.Proofs.Transport.Rounds
import MasterPackage.Proofs.Markup.Nesting
import MasterPackage.Proofs.Text.Utf8
import MasterPackage.Proofs.Markup.Spelling
import MasterPackage.Proofs.Markup.Source
import MasterPackage.Proofs.Markup.Lexing
import MasterPackage.Proofs.Markup.RoundTrip
import MasterPackage.Proofs.AssetMap.Index
import MasterPackage.Proofs.Text.Case
import MasterPackage.Proofs.Uuid
import MasterPackage.Proofs.AssetMap.Sheet
import MasterPackage.Proofs.AssetMap.Written
import MasterPackage.Proofs.Markup.Queries
import MasterPackage.Proofs.AssetMap.Structure
import MasterPackage.Proofs.Transport.Journal
import MasterPackage.Proofs.Transport.Turns
import MasterPackage.Proofs.Transport.Cancellation
import MasterPackage.Proofs.Package.Opening
import MasterPackage.Proofs.Package.Kinds
import MasterPackage.Proofs.Package.Life
import MasterPackage.Proofs.Package.Cancellation
import MasterPackage.Proofs.AssetMap.Scan
import MasterPackage.Proofs.Uuid.Grammar
import MasterPackage.Proofs.Location.Joining
import MasterPackage.Proofs.Location.Sibling
import MasterPackage.Proofs.Markup.Tokens
import MasterPackage.Proofs.Markup.Progress
import MasterPackage.Proofs.Markup.Truncation
import MasterPackage.Proofs.AssetMap.Truncation
import MasterPackage.Proofs.Location.FileUrl
import MasterPackage.Proofs.AssetMap.Bytes
import MasterPackage.Proofs.CommandLine.Packages
import MasterPackage.Proofs.AssetMap.Duplicates
import MasterPackage.Proofs.Transport.Files
import MasterPackage.Proofs.CommandLine.Checking
import MasterPackage.Proofs.Transport.Causes
import MasterPackage.Proofs.Location.Absoluteness
import MasterPackage.Proofs.Location.Origin
import MasterPackage.Proofs.AssetMap.Repeats
import MasterPackage.Proofs.Playlist.References
import MasterPackage.Proofs.Package.Unlisted
import MasterPackage.Proofs.AssetMap.Edits
import MasterPackage.Proofs.Transport.Traffic
import MasterPackage.Proofs.Transport.Endless
import MasterPackage.Proofs.Transport.Reservations
import MasterPackage.Proofs.Markup.Positions
import MasterPackage.Proofs.Text.Ascii
import MasterPackage.Proofs.Markup.SliceReader
import MasterPackage.Proofs.AssetLocator.RoundTrip
import MasterPackage.Proofs.Location.PlaylistName
import MasterPackage.Proofs.Location.Reach
import MasterPackage.Proofs.AssetMap.Warnings
import MasterPackage.Proofs.Transport.Memory
import MasterPackage.Proofs.Location.Scheme
