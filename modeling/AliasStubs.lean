import AliasStubs.Text.Hex
import AliasStubs.Text.Lossy
import AliasStubs.Text.Order
import AliasStubs.Text.Split
import AliasStubs.Failure
import AliasStubs.Bytes
import AliasStubs.Metadata.CodedIndex
import AliasStubs.Metadata.CodedKind
import AliasStubs.Metadata.Column
import AliasStubs.Metadata.Compressed
import AliasStubs.Metadata.Heap
import AliasStubs.Metadata.Layout
import AliasStubs.Metadata.Opened
import AliasStubs.Metadata.Row
import AliasStubs.Metadata.StreamDirectory
import AliasStubs.Metadata.Table
import AliasStubs.Metadata.TableId
import AliasStubs.Metadata.TableStream
import AliasStubs.Metadata.Token
import AliasStubs.Signature.Basic
import AliasStubs.Signature.Reader
import AliasStubs.Types.Definition
import AliasStubs.Types.Descriptor
import AliasStubs.Types.Name
import AliasStubs.Types.Primitive
import AliasStubs.Image.Headers
import AliasStubs.Image.Opened
import AliasStubs.Image.Portable
import AliasStubs.Image.RuntimeHeader
import AliasStubs.Assembly.Basic
import AliasStubs.Assembly.Grouping
import AliasStubs.Assembly.Introspection
import AliasStubs.Assembly.Naming
import AliasStubs.Assembly.Resolution
import AliasStubs.Assembly.Run
import AliasStubs.Aliases.Catalog
import AliasStubs.Aliases.Marker
import AliasStubs.Stubs.Identifier
import AliasStubs.Stubs.Namespaces
import AliasStubs.Stubs.SourceFile
import AliasStubs.Stubs.Spelling
import AliasStubs.Files.Path
import AliasStubs.Files.Tree
import AliasStubs.Generation.Basic
import AliasStubs.Generation.Candidates
import AliasStubs.Generation.Config
import AliasStubs.Proofs.Bytes
import AliasStubs.Proofs.Sequences
import AliasStubs.Proofs.Aliases.Markers
import AliasStubs.Proofs.Aliases.Scan
import AliasStubs.Proofs.Assembly.Agreement
import AliasStubs.Proofs.Assembly.Attributes
import AliasStubs.Proofs.Assembly.Chains
import AliasStubs.Proofs.Assembly.Constructors
import AliasStubs.Proofs.Assembly.Generics
import AliasStubs.Proofs.Assembly.Joined
import AliasStubs.Proofs.Assembly.Limits
import AliasStubs.Proofs.Assembly.Methods
import AliasStubs.Proofs.Assembly.Names
import AliasStubs.Proofs.Assembly.Ownership
import AliasStubs.Proofs.Assembly.Parameters
import AliasStubs.Proofs.Assembly.Placeholders
import AliasStubs.Proofs.Assembly.Positions
import AliasStubs.Proofs.Assembly.Resolution
import AliasStubs.Proofs.Assembly.Runs
import AliasStubs.Proofs.Assembly.Specifications
import AliasStubs.Proofs.Files.Listing
import AliasStubs.Proofs.Files.Order
import AliasStubs.Proofs.Files.Rewrite
import AliasStubs.Proofs.Files.Write
import AliasStubs.Proofs.Generation.Effects
import AliasStubs.Proofs.Generation.Enumeration
import AliasStubs.Proofs.Generation.Isolation
import AliasStubs.Proofs.Generation.Repetition
import AliasStubs.Proofs.Image.Addresses
import AliasStubs.Proofs.Image.Wrapped
import AliasStubs.Proofs.Machine.Bytes
import AliasStubs.Proofs.Machine.Directory
import AliasStubs.Proofs.Machine.Layout
import AliasStubs.Proofs.Machine.Loader
import AliasStubs.Proofs.Machine.Nesting
import AliasStubs.Proofs.Machine.Opened
import AliasStubs.Proofs.Machine.Parser
import AliasStubs.Proofs.Machine.Resolver
import AliasStubs.Proofs.Machine.Rows
import AliasStubs.Proofs.Machine.Runs
import AliasStubs.Proofs.Machine.Sections
import AliasStubs.Proofs.Machine.Session
import AliasStubs.Proofs.Machine.Simulation
import AliasStubs.Proofs.Machine.Tables
import AliasStubs.Proofs.Machine.Widths
import AliasStubs.Proofs.Machine.Word
import AliasStubs.Proofs.Metadata.Blobs
import AliasStubs.Proofs.Metadata.Compressed
import AliasStubs.Proofs.Metadata.Decoding
import AliasStubs.Proofs.Metadata.Extension
import AliasStubs.Proofs.Metadata.Extent
import AliasStubs.Proofs.Metadata.Iteration
import AliasStubs.Proofs.Metadata.Packing
import AliasStubs.Proofs.Metadata.Readable
import AliasStubs.Proofs.Metadata.References
import AliasStubs.Proofs.Metadata.Rows
import AliasStubs.Proofs.Metadata.StreamDirectory
import AliasStubs.Proofs.Metadata.TableStream
import AliasStubs.Proofs.Metadata.Texts
import AliasStubs.Proofs.Metadata.Walk
import AliasStubs.Proofs.Signature.Grammar
import AliasStubs.Proofs.Signature.Recognition
import AliasStubs.Proofs.Signature.Size
import AliasStubs.Proofs.Signature.Trees
import AliasStubs.Proofs.Stubs.Arguments
import AliasStubs.Proofs.Stubs.ArrayOrder
import AliasStubs.Proofs.Stubs.Identifiers
import AliasStubs.Proofs.Stubs.Lines
import AliasStubs.Proofs.Stubs.Usings
import AliasStubs.Proofs.Text.Utf8
import AliasStubs.Proofs.Types.Parts
import AliasStubs.Proofs.Types.Suffix
