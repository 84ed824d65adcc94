import ShaderReflection.NameTable

/-!
The mnemonics that are known without a grammar file: the opcodes that modules declare things with,
those common in function bodies, and the standard decorations.
-/

namespace ShaderReflection.NameTable

/-- The known opcodes, in ascending order. -/
def coreOpcodes : List (UInt16 × String) :=
  [(0, "OpNop"), (1, "OpUndef"), (2, "OpSourceContinued"), (3, "OpSource"),
    (4, "OpSourceExtension"), (5, "OpName"), (6, "OpMemberName"), (7, "OpString"), (8, "OpLine"),
    (10, "OpExtension"), (11, "OpExtInstImport"), (12, "OpExtInst"), (14, "OpMemoryModel"),
    (15, "OpEntryPoint"), (16, "OpExecutionMode"), (17, "OpCapability"), (19, "OpTypeVoid"),
    (20, "OpTypeBool"), (21, "OpTypeInt"), (22, "OpTypeFloat"), (23, "OpTypeVector"),
    (24, "OpTypeMatrix"), (25, "OpTypeImage"), (26, "OpTypeSampler"), (27, "OpTypeSampledImage"),
    (28, "OpTypeArray"), (29, "OpTypeRuntimeArray"), (30, "OpTypeStruct"), (32, "OpTypePointer"),
    (33, "OpTypeFunction"), (41, "OpConstantTrue"), (42, "OpConstantFalse"), (43, "OpConstant"),
    (44, "OpConstantComposite"), (54, "OpFunction"), (55, "OpFunctionParameter"),
    (56, "OpFunctionEnd"), (57, "OpFunctionCall"), (59, "OpVariable"), (61, "OpLoad"),
    (62, "OpStore"), (65, "OpAccessChain"), (71, "OpDecorate"), (72, "OpMemberDecorate"),
    (79, "OpVectorShuffle"), (80, "OpCompositeConstruct"), (81, "OpCompositeExtract"),
    (86, "OpSampledImage"), (87, "OpImageSampleImplicitLod"), (95, "OpImageFetch"),
    (109, "OpConvertFToU"), (110, "OpConvertFToS"), (111, "OpConvertSToF"), (112, "OpConvertUToF"),
    (128, "OpIAdd"), (129, "OpFAdd"), (130, "OpISub"), (131, "OpFSub"), (132, "OpIMul"),
    (133, "OpFMul"), (136, "OpFDiv"), (142, "OpVectorTimesScalar"), (145, "OpMatrixTimesVector"),
    (146, "OpMatrixTimesMatrix"), (148, "OpDot"), (246, "OpLoopMerge"), (247, "OpSelectionMerge"),
    (248, "OpLabel"), (249, "OpBranch"), (250, "OpBranchConditional"), (252, "OpKill"),
    (253, "OpReturn"), (254, "OpReturnValue"), (255, "OpUnreachable"), (330, "OpModuleProcessed")]

/-- The known decorations, in ascending order. -/
def coreDecorations : List (UInt32 × String) :=
  [(0, "RelaxedPrecision"), (1, "SpecId"), (2, "Block"), (3, "BufferBlock"), (4, "RowMajor"),
    (5, "ColMajor"), (6, "ArrayStride"), (7, "MatrixStride"), (11, "BuiltIn"),
    (13, "NoPerspective"), (14, "Flat"), (15, "Patch"), (16, "Centroid"), (17, "Sample"),
    (18, "Invariant"), (19, "Restrict"), (20, "Aliased"), (21, "Volatile"), (22, "Constant"),
    (23, "Coherent"), (24, "NonWritable"), (25, "NonReadable"), (26, "Uniform"), (30, "Location"),
    (31, "Component"), (32, "Index"), (33, "Binding"), (34, "DescriptorSet"), (35, "Offset"),
    (42, "NoContraction"), (43, "InputAttachmentIndex"), (44, "Alignment")]

/-- The table in use when no grammar file is given. -/
def core : NameTable := ofLists coreOpcodes coreDecorations

end ShaderReflection.NameTable
