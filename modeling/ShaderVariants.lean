import ShaderVariants.Analysis.Invariance
import ShaderVariants.Analysis.Shader
import ShaderVariants.Binary.Decoder
import ShaderVariants.Binary.Encoded
import ShaderVariants.Binary.Records
import ShaderVariants.Binary.Stored
import ShaderVariants.Binary.Word
import ShaderVariants.Binding
import ShaderVariants.Coded
import ShaderVariants.Command
import ShaderVariants.Compile.Build
import ShaderVariants.Compile.Downstream
import ShaderVariants.Compile.Session
import ShaderVariants.Compile.Variant
import ShaderVariants.Config
import ShaderVariants.Container.File
import ShaderVariants.Container.Format
import ShaderVariants.Container.LookupSet
import ShaderVariants.Container.Writer
import ShaderVariants.Decimal.Overflow
import ShaderVariants.Decimal.Shortest
import ShaderVariants.Diagnostic
import ShaderVariants.Glsl.Declarator
import ShaderVariants.Glsl.Expr
import ShaderVariants.Glsl.Number
import ShaderVariants.Glsl.Stage
import ShaderVariants.Glsl.Statement
import ShaderVariants.Image
import ShaderVariants.Layout.Assign
import ShaderVariants.Layout.Basic
import ShaderVariants.Listing
import ShaderVariants.Main
import ShaderVariants.Named
import ShaderVariants.Numeric.Basic
import ShaderVariants.Numeric.Name
import ShaderVariants.Options.Declared
import ShaderVariants.Options.Info
import ShaderVariants.Options.Space
import ShaderVariants.Pipeline.Format
import ShaderVariants.Pipeline.Override
import ShaderVariants.Pipeline.State
import ShaderVariants.Syntax.Expr
import ShaderVariants.Syntax.Span
import ShaderVariants.Syntax.Statement
import ShaderVariants.Syntax.Unit
import ShaderVariants.Text.Checksum
import ShaderVariants.Text.Hex
import ShaderVariants.Text.Printable
import ShaderVariants.Text.Quoted
import ShaderVariants.Text.Utf8
import ShaderVariants.Toml.Digit
import ShaderVariants.Toml.Document
import ShaderVariants.Toml.Quoted
import ShaderVariants.Toml.Scalar
import ShaderVariants.Toml.Table
import ShaderVariants.Variant
import ShaderVariants.Proofs.Numeric.Name
import ShaderVariants.Proofs.Options.Field
import ShaderVariants.Proofs.Options.Valuation
import ShaderVariants.Proofs.Invariance.Layout
import ShaderVariants.Proofs.Invariance.Code
import ShaderVariants.Proofs.Invariance.Noninterference
import ShaderVariants.Proofs.Pipeline.Latest
import ShaderVariants.Proofs.Layout.Offsets
import ShaderVariants.Proofs.Layout.Structure
import ShaderVariants.Proofs.Layout.Reflection
import ShaderVariants.Proofs.Layout.Bindings
import ShaderVariants.Proofs.Layout.Locations
import ShaderVariants.Proofs.Glsl.Token
import ShaderVariants.Proofs.Glsl.Grammar
import ShaderVariants.Proofs.Glsl.Printing
import ShaderVariants.Proofs.Glsl.Signs
import ShaderVariants.Proofs.Syntax.Occurrence
import ShaderVariants.Proofs.Syntax.Traversal
import ShaderVariants.Proofs.Layout.Ranges
import ShaderVariants.Proofs.Layout.Overlap
import ShaderVariants.Proofs.Layout.Attributes
import ShaderVariants.Proofs.Glsl.Variables
import ShaderVariants.Proofs.Glsl.Arrays
import ShaderVariants.Proofs.Glsl.Transfer
import ShaderVariants.Proofs.Glsl.Assignment
import ShaderVariants.Proofs.Glsl.Line
import ShaderVariants.Proofs.Glsl.Nesting
import ShaderVariants.Proofs.Glsl.Folding
import ShaderVariants.Proofs.Glsl.Interface
import ShaderVariants.Proofs.Glsl.Resources
import ShaderVariants.Proofs.Options.Digit
import ShaderVariants.Proofs.Options.Enumeration
import ShaderVariants.Proofs.Options.Packing
import ShaderVariants.Proofs.Options.VariantName
import ShaderVariants.Proofs.Analysis.Acceptance
import ShaderVariants.Proofs.Analysis.Groups
import ShaderVariants.Proofs.Analysis.WellFormed
import ShaderVariants.Proofs.Compile.Keys
import ShaderVariants.Proofs.Compile.Code
import ShaderVariants.Proofs.Compile.Coverage
import ShaderVariants.Proofs.Compile.Reuse
import ShaderVariants.Proofs.Compile.Outcome
import ShaderVariants.Proofs.Compile.Session
import ShaderVariants.Proofs.Compile.Guard
import ShaderVariants.Proofs.Compile.Definitions
import ShaderVariants.Proofs.Compile.Remarks
import ShaderVariants.Proofs.Compile.Decided
import ShaderVariants.Proofs.Binary.Codec
import ShaderVariants.Proofs.Binary.Records
import ShaderVariants.Proofs.Binary.Truncation
import ShaderVariants.Proofs.Binary.Fitting
import ShaderVariants.Proofs.Binary.Canonical
import ShaderVariants.Proofs.Binary.Rewriting
import ShaderVariants.Proofs.Container.Search
import ShaderVariants.Proofs.Container.Writing
import ShaderVariants.Proofs.Container.Opening
import ShaderVariants.Proofs.Container.Index
import ShaderVariants.Proofs.Container.Caching
import ShaderVariants.Proofs.Container.Fallback
import ShaderVariants.Proofs.Container.RoundTrip
import ShaderVariants.Proofs.Container.Placement
import ShaderVariants.Proofs.Container.Capacity
import ShaderVariants.Proofs.Container.Histories
import ShaderVariants.Proofs.Container.Wrapping
import ShaderVariants.Proofs.Container.Sharing
import ShaderVariants.Proofs.Container.Failure
import ShaderVariants.Proofs.Container.Recovery
import ShaderVariants.Proofs.Container.Loading
import ShaderVariants.Proofs.Container.Listing
import ShaderVariants.Proofs.Container.Inventory
import ShaderVariants.Proofs.Build.Batch
import ShaderVariants.Proofs.Build.Variants
import ShaderVariants.Proofs.Build.Complete
import ShaderVariants.Proofs.Build.Independence
