import ShaderReflection.Assembly
import ShaderReflection.Main
import ShaderReflection.Proofs.Module.Tables
import ShaderReflection.Proofs.Stream.Tiling
import ShaderReflection.Proofs.Module.Records
import ShaderReflection.Proofs.Layout.Expansion
import ShaderReflection.Proofs.Layout.Specification
import ShaderReflection.Proofs.Layout.Resolution
import ShaderReflection.Proofs.Layout.Success
import ShaderReflection.Proofs.Layout.Composition
import ShaderReflection.Proofs.Layout.Undefined
import ShaderReflection.Proofs.Text.Literal
import ShaderReflection.Proofs.Stream.Reading
import ShaderReflection.Proofs.Module.Refusal
import ShaderReflection.Proofs.Module.Assembly
import ShaderReflection.Proofs.Descriptor
import ShaderReflection.Proofs.Interface
import ShaderReflection.Proofs.Module.Invariant
import ShaderReflection.Proofs.VertexInput.Packing
import ShaderReflection.Proofs.VertexInput.Format
import ShaderReflection.Proofs.Faulting.Reading
import ShaderReflection.Proofs.Faulting.Counting
import ShaderReflection.Proofs.Faulting.Rendering
import ShaderReflection.Proofs.Faulting.Safety
import ShaderReflection.Proofs.Module.Relabelling
import ShaderReflection.Proofs.Module.Dispatch
import ShaderReflection.Proofs.Module.Transparency
import ShaderReflection.Proofs.Module.Order
import ShaderReflection.Proofs.Rendering.Reference
import ShaderReflection.Proofs.Rendering.Truncation
import ShaderReflection.Proofs.Rendering.Completeness
import ShaderReflection.Proofs.Rendering.Evaluation
import ShaderReflection.Proofs.Rendering.Extent
import ShaderReflection.Proofs.VertexInput.Exactness
import ShaderReflection.Proofs.Layout.Failure
import ShaderReflection.Proofs.Isolation
import ShaderReflection.Proofs.Descriptor.Kind
import ShaderReflection.Proofs.Layout.Naming
import ShaderReflection.Proofs.Module.Permission
import ShaderReflection.Proofs.Text.Lossy
import ShaderReflection.Proofs.Text.Operand
import ShaderReflection.Proofs.NameTable.Inverse
import ShaderReflection.Proofs.VertexInput.Request
import ShaderReflection.Proofs.Stream.Movement
import ShaderReflection.Proofs.Decoration
