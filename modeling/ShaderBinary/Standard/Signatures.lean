import ShaderBinary.Standard.Vocabularies
import ShaderBinary.Dialect

/-!
# The signatures of the standard instructions

The instructions that a dialect knows unless it is told otherwise: enough to express a complete
module with something in every part of its layout. Each line gives a name, an opcode, a category,
the operands and the rules. Operands that take a varying number of words stand last.

The signatures are listed by the part of the module they belong to; `signatures` holds all of them,
and `dialect` binds each to its opcode.
-/

namespace ShaderBinary
namespace Standard

/-- Capabilities, extensions, and imports of extended instructions. -/
def preambleSignatures : List Signature :=
  [⟨"OpExtension", 10, .preamble, [⟨"name", .text⟩], []⟩,
    ⟨"OpExtInstImport", 11, .preamble, [⟨"result", .id⟩, ⟨"name", .text⟩], []⟩,
    ⟨"OpCapability", 17, .preamble, [⟨"capability", .selector capability⟩], []⟩]

/-- The memory model, and what can be entered from outside in which mode. -/
def entrySignatures : List Signature :=
  [⟨"OpMemoryModel", 14, .memoryModel,
      [⟨"addressing_model", .selector addressingModel⟩, ⟨"memory_model", .selector memoryModel⟩],
      []⟩,
    ⟨"OpEntryPoint", 15, .entryPoint,
      [⟨"execution_model", .selector executionModel⟩, ⟨"entry_point", .id⟩, ⟨"name", .text⟩,
       ⟨"interface", .list .id⟩], []⟩,
    ⟨"OpExecutionMode", 16, .executionMode,
      [⟨"entry_point", .id⟩, ⟨"mode", .selector executionMode⟩, ⟨"literals", .list .word⟩], []⟩]

/-- Sources, names, strings and lines. -/
def debugSignatures : List Signature :=
  [⟨"OpSourceContinued", 2, .debug, [⟨"source", .text⟩], []⟩,
    ⟨"OpSource", 3, .debug,
      [⟨"language", .selector sourceLanguage⟩, ⟨"version", .word⟩, ⟨"file", .optional .id⟩,
       ⟨"source", .optional .text⟩], []⟩,
    ⟨"OpSourceExtension", 4, .debug, [⟨"extension", .text⟩], []⟩,
    ⟨"OpName", 5, .debug, [⟨"target", .id⟩, ⟨"name", .text⟩], []⟩,
    ⟨"OpMemberName", 6, .debug, [⟨"target", .id⟩, ⟨"member", .word⟩, ⟨"name", .text⟩], []⟩,
    ⟨"OpString", 7, .debug, [⟨"result", .id⟩, ⟨"string", .text⟩], []⟩,
    ⟨"OpLine", 8, .debug, [⟨"file", .id⟩, ⟨"line", .word⟩, ⟨"column", .word⟩], []⟩,
    ⟨"OpNoLine", 317, .debug, [], []⟩,
    ⟨"OpModuleProcessed", 330, .debug, [⟨"process", .text⟩], []⟩]

/-- Decorations. -/
def decorationSignatures : List Signature :=
  [⟨"OpDecorate", 71, .decoration,
      [⟨"target", .id⟩, ⟨"decoration", .selector decoration⟩, ⟨"literals", .list .word⟩], []⟩,
    ⟨"OpMemberDecorate", 72, .decoration,
      [⟨"structure_type", .id⟩, ⟨"member", .word⟩, ⟨"decoration", .selector decoration⟩,
       ⟨"literals", .list .word⟩], []⟩,
    ⟨"OpDecorationGroup", 73, .decoration, [⟨"result", .id⟩], []⟩]

/-- Types, constants and variables. -/
def declarationSignatures : List Signature :=
  [⟨"OpUndef", 1, .declaration, [⟨"result_type", .id⟩, ⟨"result", .id⟩], []⟩,
    ⟨"OpTypeVoid", 19, .declaration, [⟨"result", .id⟩], []⟩,
    ⟨"OpTypeBool", 20, .declaration, [⟨"result", .id⟩], []⟩,
    ⟨"OpTypeInt", 21, .declaration,
      [⟨"result", .id⟩, ⟨"width", .word⟩, ⟨"signedness", .word⟩],
      [⟨"signedness", .binary, false⟩]⟩,
    ⟨"OpTypeFloat", 22, .declaration,
      [⟨"result", .id⟩, ⟨"width", .word⟩], [⟨"width", .floatWidth, false⟩]⟩,
    ⟨"OpTypeVector", 23, .declaration,
      [⟨"result", .id⟩, ⟨"component_type", .id⟩, ⟨"component_count", .word⟩],
      [⟨"component_count", .atLeastTwo "vector" "components", false⟩]⟩,
    ⟨"OpTypeMatrix", 24, .declaration,
      [⟨"result", .id⟩, ⟨"column_type", .id⟩, ⟨"column_count", .word⟩],
      [⟨"column_count", .atLeastTwo "matrix" "columns", false⟩]⟩,
    ⟨"OpTypeArray", 28, .declaration,
      [⟨"result", .id⟩, ⟨"element_type", .id⟩, ⟨"length", .id⟩], []⟩,
    ⟨"OpTypeRuntimeArray", 29, .declaration, [⟨"result", .id⟩, ⟨"element_type", .id⟩], []⟩,
    ⟨"OpTypeStruct", 30, .declaration, [⟨"result", .id⟩, ⟨"members", .list .id⟩], []⟩,
    ⟨"OpTypePointer", 32, .declaration,
      [⟨"result", .id⟩, ⟨"storage_class", .selector storageClass⟩, ⟨"pointee_type", .id⟩], []⟩,
    ⟨"OpTypeFunction", 33, .declaration,
      [⟨"result", .id⟩, ⟨"return_type", .id⟩, ⟨"parameter_types", .list .id⟩], []⟩,
    ⟨"OpConstantTrue", 41, .declaration, [⟨"result_type", .id⟩, ⟨"result", .id⟩], []⟩,
    ⟨"OpConstantFalse", 42, .declaration, [⟨"result_type", .id⟩, ⟨"result", .id⟩], []⟩,
    ⟨"OpConstant", 43, .declaration,
      [⟨"result_type", .id⟩, ⟨"result", .id⟩, ⟨"value", .list .word⟩], []⟩,
    ⟨"OpConstantComposite", 44, .declaration,
      [⟨"result_type", .id⟩, ⟨"result", .id⟩, ⟨"constituents", .list .id⟩], []⟩,
    ⟨"OpVariable", 59, .declaration,
      [⟨"result_type", .id⟩, ⟨"result", .id⟩, ⟨"storage_class", .selector storageClass⟩,
       ⟨"initializer", .optional .id⟩], []⟩]

/-- What functions and blocks start and end with. -/
def functionSignatures : List Signature :=
  [⟨"OpFunction", 54, .function,
      [⟨"result_type", .id⟩, ⟨"result", .id⟩, ⟨"control", .mask functionControl⟩,
       ⟨"function_type", .id⟩], []⟩,
    ⟨"OpFunctionParameter", 55, .functionParameter, [⟨"result_type", .id⟩, ⟨"result", .id⟩], []⟩,
    ⟨"OpFunctionEnd", 56, .functionEnd, [], []⟩,
    ⟨"OpLabel", 248, .label, [⟨"result", .id⟩], []⟩,
    ⟨"OpBranch", 249, .terminator, [⟨"target", .id⟩], []⟩,
    ⟨"OpBranchConditional", 250, .terminator,
      [⟨"condition", .id⟩, ⟨"true_label", .id⟩, ⟨"false_label", .id⟩, ⟨"weights", .list .word⟩],
      [⟨"weights", .noneOrTwo "branch weights", false⟩]⟩,
    ⟨"OpKill", 252, .terminator, [], []⟩,
    ⟨"OpReturn", 253, .terminator, [], []⟩,
    ⟨"OpReturnValue", 254, .terminator, [⟨"value", .id⟩], []⟩,
    ⟨"OpUnreachable", 255, .terminator, [], []⟩]

/-- The signature of an operation on two operands. -/
def binary (name : String) (opcode : Opcode) : Signature :=
  ⟨name, opcode, .body,
    [⟨"result_type", .id⟩, ⟨"result", .id⟩, ⟨"left", .id⟩, ⟨"right", .id⟩], []⟩

/-- What stands inside a block. -/
def bodySignatures : List Signature :=
  [⟨"OpExtInst", 12, .body,
      [⟨"result_type", .id⟩, ⟨"result", .id⟩, ⟨"set", .id⟩, ⟨"instruction", .word⟩,
       ⟨"operands", .list .id⟩], []⟩,
    ⟨"OpFunctionCall", 57, .body,
      [⟨"result_type", .id⟩, ⟨"result", .id⟩, ⟨"function", .id⟩, ⟨"arguments", .list .id⟩], []⟩,
    ⟨"OpLoad", 61, .body,
      [⟨"result_type", .id⟩, ⟨"result", .id⟩, ⟨"pointer", .id⟩,
       ⟨"memory_access", .optional .word⟩], []⟩,
    ⟨"OpStore", 62, .body,
      [⟨"pointer", .id⟩, ⟨"object", .id⟩, ⟨"memory_access", .optional .word⟩], []⟩,
    ⟨"OpAccessChain", 65, .body,
      [⟨"result_type", .id⟩, ⟨"result", .id⟩, ⟨"base", .id⟩, ⟨"indexes", .list .id⟩], []⟩,
    ⟨"OpCompositeExtract", 81, .body,
      [⟨"result_type", .id⟩, ⟨"result", .id⟩, ⟨"composite", .id⟩, ⟨"indexes", .list .word⟩], []⟩,
    binary "OpIAdd" 128, binary "OpFAdd" 129, binary "OpISub" 130, binary "OpFSub" 131,
    binary "OpIMul" 132, binary "OpFMul" 133, binary "OpIEqual" 170,
    ⟨"OpPhi", 245, .body,
      [⟨"result_type", .id⟩, ⟨"result", .id⟩, ⟨"incoming", .list (.pair .id .id)⟩], []⟩,
    ⟨"OpLoopMerge", 246, .body,
      [⟨"merge_block", .id⟩, ⟨"continue_target", .id⟩, ⟨"control", .mask loopControl⟩], []⟩,
    ⟨"OpSelectionMerge", 247, .body,
      [⟨"merge_block", .id⟩, ⟨"control", .mask selectionControl⟩], []⟩]

/-- The signature of every standard instruction. -/
def signatures : List Signature :=
  preambleSignatures ++ entrySignatures ++ debugSignatures ++ decorationSignatures ++ declarationSignatures ++
    functionSignatures ++ bodySignatures

/-- The dialect that knows exactly the standard instructions. -/
def dialect : Dialect :=
  Dialect.empty.bindSignatures signatures

end Standard
end ShaderBinary
