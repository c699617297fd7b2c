import ShaderBinary.Operand.Shape

/-!
# Vocabularies and flag sets of the standard instructions

The numbers and bits that have names in the operands of the standard instructions. The lists are
data of the instruction format; numbers between two listed ones have no name.
-/

namespace ShaderBinary
namespace Standard

open Operand (FlagSet Vocabulary)

/-- The languages a module may have been compiled from. -/
def sourceLanguage : Vocabulary where
  name := "SourceLanguage"
  entries :=
    [("Unknown", 0), ("ESSL", 1), ("GLSL", 2), ("OpenCL_C", 3), ("OpenCL_CPP", 4), ("HLSL", 5)]

/-- The pipeline stages an entry point may serve. -/
def executionModel : Vocabulary where
  name := "ExecutionModel"
  entries :=
    [("Vertex", 0), ("TessellationControl", 1), ("TessellationEvaluation", 2), ("Geometry", 3),
      ("Fragment", 4), ("GLCompute", 5), ("Kernel", 6)]

/-- The ways in which memory is addressed. -/
def addressingModel : Vocabulary where
  name := "AddressingModel"
  entries :=
    [("Logical", 0), ("Physical32", 1), ("Physical64", 2)]

/-- The rules that memory accesses follow. -/
def memoryModel : Vocabulary where
  name := "MemoryModel"
  entries :=
    [("Simple", 0), ("GLSL450", 1), ("OpenCL", 2)]

/-- What may be fixed about how an entry point runs. -/
def executionMode : Vocabulary where
  name := "ExecutionMode"
  entries :=
    [("Invocations", 0), ("SpacingEqual", 1), ("SpacingFractionalEven", 2),
      ("SpacingFractionalOdd", 3), ("VertexOrderCw", 4), ("VertexOrderCcw", 5),
      ("PixelCenterInteger", 6), ("OriginUpperLeft", 7), ("OriginLowerLeft", 8),
      ("EarlyFragmentTests", 9), ("PointMode", 10), ("Xfb", 11), ("DepthReplacing", 12),
      ("DepthGreater", 14), ("DepthLess", 15), ("DepthUnchanged", 16), ("LocalSize", 17),
      ("LocalSizeHint", 18), ("InputPoints", 19), ("InputLines", 20), ("InputLinesAdjacency", 21),
      ("Triangles", 22), ("InputTrianglesAdjacency", 23), ("Quads", 24), ("Isolines", 25),
      ("OutputVertices", 26), ("OutputPoints", 27), ("OutputLineStrip", 28),
      ("OutputTriangleStrip", 29), ("VecTypeHint", 30), ("ContractionOff", 31)]

/-- The classes of memory a pointer may point into. -/
def storageClass : Vocabulary where
  name := "StorageClass"
  entries :=
    [("UniformConstant", 0), ("Input", 1), ("Uniform", 2), ("Output", 3), ("Workgroup", 4),
      ("CrossWorkgroup", 5), ("Private", 6), ("Function", 7), ("Generic", 8), ("PushConstant", 9),
      ("AtomicCounter", 10), ("Image", 11)]

/-- What may be said about a result besides its type. -/
def decoration : Vocabulary where
  name := "Decoration"
  entries :=
    [("RelaxedPrecision", 0), ("SpecId", 1), ("Block", 2), ("BufferBlock", 3), ("RowMajor", 4),
      ("ColMajor", 5), ("ArrayStride", 6), ("MatrixStride", 7), ("GLSLShared", 8),
      ("GLSLPacked", 9), ("CPacked", 10), ("BuiltIn", 11), ("NoPerspective", 13), ("Flat", 14),
      ("Patch", 15), ("Centroid", 16), ("Sample", 17), ("Invariant", 18), ("Restrict", 19),
      ("Aliased", 20), ("Volatile", 21), ("Constant", 22), ("Coherent", 23), ("NonWritable", 24),
      ("NonReadable", 25), ("Uniform", 26), ("SaturatedConversion", 28), ("Stream", 29),
      ("Location", 30), ("Component", 31), ("Index", 32), ("Binding", 33), ("DescriptorSet", 34),
      ("Offset", 35), ("XfbBuffer", 36), ("XfbStride", 37), ("FuncParamAttr", 38),
      ("FPRoundingMode", 39), ("FPFastMathMode", 40), ("LinkageAttributes", 41),
      ("NoContraction", 42), ("InputAttachmentIndex", 43), ("Alignment", 44)]

/-- The features a module may declare that it needs. -/
def capability : Vocabulary where
  name := "Capability"
  entries :=
    [("Matrix", 0), ("Shader", 1), ("Geometry", 2), ("Tessellation", 3), ("Addresses", 4),
      ("Linkage", 5), ("Kernel", 6), ("Vector16", 7), ("Float16Buffer", 8), ("Float16", 9),
      ("Float64", 10), ("Int64", 11), ("Int64Atomics", 12), ("ImageBasic", 13),
      ("ImageReadWrite", 14), ("ImageMipmap", 15), ("Pipes", 17), ("Groups", 18),
      ("DeviceEnqueue", 19), ("LiteralSampler", 20), ("AtomicStorage", 21), ("Int16", 22),
      ("TessellationPointSize", 23), ("GeometryPointSize", 24), ("ImageGatherExtended", 25),
      ("StorageImageMultisample", 27), ("UniformBufferArrayDynamicIndexing", 28),
      ("SampledImageArrayDynamicIndexing", 29), ("StorageBufferArrayDynamicIndexing", 30),
      ("StorageImageArrayDynamicIndexing", 31), ("ClipDistance", 32), ("CullDistance", 33),
      ("ImageCubeArray", 34), ("SampleRateShading", 35), ("ImageRect", 36), ("SampledRect", 37),
      ("GenericPointer", 38), ("Int8", 39), ("InputAttachment", 40), ("SparseResidency", 41),
      ("MinLod", 42), ("Sampled1D", 43), ("Image1D", 44), ("SampledCubeArray", 45),
      ("SampledBuffer", 46), ("ImageBuffer", 47), ("ImageMSArray", 48),
      ("StorageImageExtendedFormats", 49), ("ImageQuery", 50), ("DerivativeControl", 51),
      ("InterpolationFunction", 52), ("TransformFeedback", 53), ("GeometryStreams", 54),
      ("StorageImageReadWithoutFormat", 55), ("StorageImageWriteWithoutFormat", 56),
      ("MultiViewport", 57)]

/-- Hints on how to treat a function. -/
def functionControl : FlagSet where
  name := "FunctionControl"
  flags := [("INLINE", 1), ("DONT_INLINE", 2), ("PURE", 4), ("CONST", 8)]

/-- Hints on how to treat a branch. -/
def selectionControl : FlagSet where
  name := "SelectionControl"
  flags := [("FLATTEN", 1), ("DONT_FLATTEN", 2)]

/-- Hints on how to treat a loop. -/
def loopControl : FlagSet where
  name := "LoopControl"
  flags := [("UNROLL", 1), ("DONT_UNROLL", 2)]

/-- Every vocabulary of the standard instructions. -/
def vocabularies : List Vocabulary :=
  [sourceLanguage, executionModel, addressingModel, memoryModel, executionMode, storageClass,
    decoration, capability]

/-- Every flag set of the standard instructions. -/
def flagSets : List FlagSet :=
  [functionControl, selectionControl, loopControl]

end Standard
end ShaderBinary
