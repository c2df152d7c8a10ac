import ShaderChain.Builtin
import ShaderChain.Builtin.Color
import ShaderChain.Builtin.Combine
import ShaderChain.Builtin.Coordinate
import ShaderChain.Builtin.Displace
import ShaderChain.Builtin.Entry
import ShaderChain.Builtin.Modulate
import ShaderChain.Builtin.Source
import ShaderChain.Chain.Basic
import ShaderChain.Chain.Build
import ShaderChain.Command.Arguments
import ShaderChain.Command.Files
import ShaderChain.Command.Run
import ShaderChain.Command.Volume
import ShaderChain.Compile.Compiled
import ShaderChain.Compile.Expr
import ShaderChain.Compile.Field
import ShaderChain.Compile.Layer
import ShaderChain.Compile.Resources
import ShaderChain.Diagnostic
import ShaderChain.Glsl.Helper
import ShaderChain.Glsl.Options
import ShaderChain.Glsl.Swizzle
import ShaderChain.Glsl.Type
import ShaderChain.Json.Basic
import ShaderChain.Json.Parser
import ShaderChain.Json.Record
import ShaderChain.Json.Token
import ShaderChain.Main
import ShaderChain.Number.Binary64
import ShaderChain.Number.Decimal
import ShaderChain.Number.Literal
import ShaderChain.Number.Shortest
import ShaderChain.Program.Basic
import ShaderChain.Program.Text
import ShaderChain.Proofs.Chain.Builder
import ShaderChain.Proofs.Chain.Constructed
import ShaderChain.Proofs.Chain.Meaning
import ShaderChain.Proofs.Chain.Numbering
import ShaderChain.Proofs.Chain.Parts
import ShaderChain.Proofs.Chain.Tree
import ShaderChain.Proofs.Command.Arguments
import ShaderChain.Proofs.Command.Output
import ShaderChain.Proofs.Command.Path
import ShaderChain.Proofs.Command.Run
import ShaderChain.Proofs.Command.Volume
import ShaderChain.Proofs.Compile.Getters
import ShaderChain.Proofs.Compile.Mentions
import ShaderChain.Proofs.Compile.Numbers
import ShaderChain.Proofs.Compile.OnePass
import ShaderChain.Proofs.Compile.Preservation
import ShaderChain.Proofs.Compile.Resources
import ShaderChain.Proofs.Compile.Slots
import ShaderChain.Proofs.Compile.Spelling
import ShaderChain.Proofs.Compile.Target
import ShaderChain.Proofs.Compile.Uniforms
import ShaderChain.Proofs.Compile.WellTyped
import ShaderChain.Proofs.Expr.Mention
import ShaderChain.Proofs.Expr.Occurrence
import ShaderChain.Proofs.Expr.Reading
import ShaderChain.Proofs.Expr.Subterm
import ShaderChain.Proofs.Expr.Token
import ShaderChain.Proofs.Expr.Typing
import ShaderChain.Proofs.Expr.Value
import ShaderChain.Proofs.Glsl.Helper
import ShaderChain.Proofs.Glsl.Swizzle
import ShaderChain.Proofs.Glsl.Version
import ShaderChain.Proofs.Json.Printing
import ShaderChain.Proofs.Json.Record
import ShaderChain.Proofs.Json.Sound
import ShaderChain.Proofs.Json.Token
import ShaderChain.Proofs.Number.Literal
import ShaderChain.Proofs.Number.Numeral
import ShaderChain.Proofs.Number.Reading
import ShaderChain.Proofs.Number.Rounding
import ShaderChain.Proofs.Program.Definitions
import ShaderChain.Proofs.Program.Independence
import ShaderChain.Proofs.Program.Layout
import ShaderChain.Proofs.Program.Stages
import ShaderChain.Proofs.Program.VertexView
import ShaderChain.Proofs.Registry.Built
import ShaderChain.Proofs.Registry.History
import ShaderChain.Proofs.Registry.Indexed
import ShaderChain.Proofs.Resolve.Follows
import ShaderChain.Proofs.Resolve.Names
import ShaderChain.Proofs.Resolve.Noted
import ShaderChain.Proofs.Resolve.Parts
import ShaderChain.Proofs.Resolve.Visited
import ShaderChain.Proofs.Resolve.Walk
import ShaderChain.Proofs.Script.Construction
import ShaderChain.Proofs.Script.Json
import ShaderChain.Proofs.Script.Numbering
import ShaderChain.Proofs.Script.RoundTrip
import ShaderChain.Proofs.Script.Sites
import ShaderChain.Proofs.Text.Bytes
import ShaderChain.Proofs.Text.Canonical
import ShaderChain.Proofs.Text.Key
import ShaderChain.Proofs.Text.Line
import ShaderChain.Proofs.Text.Search
import ShaderChain.Proofs.Text.Token
import ShaderChain.Proofs.Text.Trim
import ShaderChain.Proofs.Transform.Completion
import ShaderChain.Proofs.Transform.Header
import ShaderChain.Proofs.Transform.Normal
import ShaderChain.Proofs.Transform.RoundTrip
import ShaderChain.Proofs.Transform.Wrapping
import ShaderChain.Proofs.Update
import ShaderChain.Script.Basic
import ShaderChain.Script.Json
import ShaderChain.Script.Outline
import ShaderChain.Text.Blank
import ShaderChain.Text.Identifier
import ShaderChain.Text.Layout
import ShaderChain.Text.Printable
import ShaderChain.Text.Quoted
import ShaderChain.Transform.Basic
import ShaderChain.Transform.Catalog
import ShaderChain.Transform.Category
import ShaderChain.Transform.Descriptor
import ShaderChain.Transform.Registry
import ShaderChain.Update
