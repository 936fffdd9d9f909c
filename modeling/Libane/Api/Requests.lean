import Libane.Core.CompileCache
import Libane.Core.SingleOps
import Libane.Core.WeightHash
import Libane.Core.WeightPaths
import Libane.Graph.Validator
import Libane.Runtime.AneRuntime

/-!
# Requests for compiled programs

`libane_compile` and `libane_matmul_f16` look their programs up in one cache, under keys of one
type, and build them in different ways when they are not there.

* `LibaneShape`, `toMilShape` — the shape of the C interface and that of the builder.
* `buildProgram` — the `switch` of `libane_compile`.
* `ProgramRequest` — a call of either entry point, with its key, what it builds and the entry it
  stores.
-/

namespace Libane

open Bytes GraphValidator MilBuilder WeightBlob

/-! ## Shapes and keys -/

/-- `libane_shape_t`. -/
structure LibaneShape where
  dim0 : ℤ
  dim1 : ℤ
  dim2 : ℤ
  dim3 : ℤ
  ndim : ℤ
  deriving DecidableEq, Repr

/-- `to_mil_shape`. -/
def toMilShape (s : LibaneShape) : TensorShape where
  batch := if 1 ≤ s.ndim then s.dim0 else 1
  channels := if 2 ≤ s.ndim then s.dim1 else 1
  height := if 3 ≤ s.ndim then s.dim2 else 1
  seq := if 4 ≤ s.ndim then s.dim3 else 8

/-- `CacheKey`.  Keys are compared field by field. -/
structure CacheKey where
  op : LibaneOp
  shape : LibaneShape
  weightHash : UInt64
  deriving DecidableEq, Repr

/-- What is handed to `ane_compile`. -/
structure Build where
  text : String
  weights : List WeightEntry
  deriving DecidableEq, Repr

/-- A program in the memory of the process.  Two programs built alike differ in their identity. -/
structure LoadedProgram where
  id : ℕ
  program : AneProgram
  deriving DecidableEq, Repr

/-! ## `libane_compile` -/

section Builds

variable (F : Type) [MilFloat F]

/-- The exceptions of the builder are caught. -/
def caught (p : Outcome (SingleProgram F)) : Except String (SingleProgram F) :=
  match p with
  | .ok p => .ok p
  | .error e => .error ("MIL build failed: " ++ what e)

/-- The `switch` of `libane_compile`: a program, or the text of an error. -/
def buildProgram (C S : ℤ) : LibaneOp → Except String (SingleProgram F)
  | .Matmul => caught F (SingleOp.matmulConv1x1 C C S "weight.bin")
  | .Softmax => caught F (SingleOp.softmax C S)
  | .AvgPool => caught F (SingleOp.avgPool C S)
  | .MaxPool => caught F (SingleOp.maxPool C S)
  | .Gelu => caught F (SingleOp.gelu C S)
  | .Add => caught F (SingleOp.add C S)
  | .Mul => caught F (SingleOp.mul C S)
  | .LogicalAnd => caught F (SingleOp.logicalAnd C S)
  | .LogicalOr => caught F (SingleOp.logicalOr C S)
  | .LogicalXor => caught F (SingleOp.logicalXor C S)
  | .ReduceProd => .error
      "REDUCE_PROD not supported via libane_compile — use graph API with output shape [1,1,1,S]"
  | .Scatter => .error
      "SCATTER not supported via libane_compile — use graph API with static mask weights"
  | .ScatterNd => .error
      "SCATTER_ND not supported via libane_compile — use graph API with static mask weights"
  | .ScatterAlongAxis => .error ("SCATTER_ALONG_AXIS not supported via libane_compile — " ++
      "use graph API with static mask weights")
  | .Gather => .error
      "GATHER not supported via libane_compile — use graph API (static or dynamic mask)"
  | .Neg => .error "NEG not supported via libane_compile — use graph API"
  | .Mod => .error "MOD not supported via libane_compile — use graph API"
  | .Sinh => .error "SINH not supported via libane_compile — use graph API"
  | .Cosh => .error "COSH not supported via libane_compile — use graph API"
  | .Tan => .error "TAN not supported via libane_compile — use graph API"
  | .Asin => .error "ASIN not supported via libane_compile — use graph API"
  | .Acos => .error "ACOS not supported via libane_compile — use graph API"
  | .LayerNorm | .Layernorm => caught F (SingleOp.layernorm C S "gamma.bin" "beta.bin")
  | .Transpose => caught F (SingleOp.transposeCssc C S)
  | .Silu => caught F (SingleOp.silu C S)
  | .Rmsnorm => caught F (SingleOp.rmsnorm C S "scale.bin")
  | .Conv2d => .error
      "CONV2D not supported via libane_compile — use libane_matmul_f16 for projections"
  | .Cast => .error "CAST not supported via libane_compile"
  | .Reshape => .error "RESHAPE not supported via libane_compile (use graph API)"
  | .Concat => .error "CONCAT not supported via libane_compile (use graph API)"
  | .SliceByIndex => .error "SLICE_BY_INDEX not supported via libane_compile (use graph API)"
  | .ReduceSum => .error "REDUCE_SUM not supported via libane_compile (use graph API)"
  | .ReduceMean => .error "REDUCE_MEAN not supported via libane_compile (use graph API)"
  | .ReduceMax => .error "REDUCE_MAX not supported via libane_compile (use graph API)"
  | .Select => .error ("SELECT not supported via libane_compile — " ++
      "use graph API with 3 inputs (condition, x, y)")
  | op => .error ("op " ++ toString op.code ++ " not supported")

/-! ## Both entry points -/

/-- The arguments of `libane_matmul_f16` that decide its program: `B` is a `K × N` matrix. -/
structure MatmulRequest where
  M : ℤ
  K : ℤ
  N : ℤ
  B : List UInt16
  sized : B.length = K.toNat * N.toNat

/-- `shapes_ok`. -/
def MatmulRequest.ShapesOk (r : MatmulRequest) : Prop :=
  r.M % 8 = 0 ∧ r.N % 8 = 0 ∧ r.K % 8 = 0 ∧ r.M ≤ 65536 ∧ r.N ≤ 65536 ∧ r.K ≤ 16384

instance (r : MatmulRequest) : Decidable r.ShapesOk := by
  unfold MatmulRequest.ShapesOk
  infer_instance

/-- A call that asks the cache for a program.  No weights are the empty list. -/
inductive ProgramRequest where
  | Compile (op : LibaneOp) (shape : LibaneShape) (weights : List UInt8)
  | Matmul (r : MatmulRequest)

namespace ProgramRequest

/-- The weights as they are given. -/
def weights : ProgramRequest → List UInt8
  | Compile _ _ w => w
  | Matmul r => ofHalves r.B

/-- The blob of the weights as they are given. -/
def blob (r : ProgramRequest) : List UInt8 := if r.weights = [] then [] else fromFp16 r.weights

/-- `op` and `shape` of the key. -/
def op : ProgramRequest → LibaneOp
  | Compile op _ _ => op
  | Matmul _ => .Matmul

def shape : ProgramRequest → LibaneShape
  | Compile _ shape _ => shape
  | Matmul r => ⟨1, r.N, 1, r.M, 4⟩

/-- The key of the request. -/
def key (r : ProgramRequest) : CacheKey := ⟨r.op, r.shape, computeHash r.blob⟩

/-- What the request builds when the cache has no entry.  `libane_matmul_f16` swallows the text of
the error. -/
def build : ProgramRequest → Except String Build
  | Compile op shape w => do
      let ms := toMilShape shape
      let p ← buildProgram F ms.channels ms.seq op
      return {
        text := p.text
        weights := if p.weightName ≠ "" ∧ (Compile op shape w).blob ≠ [] then
            [⟨p.weightName, (Compile op shape w).blob⟩]
          else [] }
  | Matmul r => do
      let p ← caught F (SingleOp.matmulConv1x1 r.K r.N r.M "weight.bin")
      return { text := p.text, weights := [⟨p.weightName, matmulWeights r.B r.K r.N⟩] }

/-- The name under which the program is compiled. -/
def debugName : ProgramRequest → String
  | Compile op _ _ => "libane_op_" ++ toString op.code
  | Matmul _ => "matmul_f16"

/-- `ane_compile` of a build that the framework accepts. -/
def program (r : ProgramRequest) (b : Build) : AneProgram where
  milText := b.text
  weights := b.weights
  debugName := r.debugName
  inputParamNames := extractInputParams b.text
  outputVarNames := extractOutputVars b.text

/-- The cache entry for a build, with its program if there is one. -/
def entry (r : ProgramRequest) (b : Build) (p : Option LoadedProgram) :
    CacheEntry CacheKey LoadedProgram where
  key := r.key
  backendHandle := p
  releaseFn := p.isSome
  sizeBytes := UInt64.ofNat (r.weights.length + b.text.utf8ByteSize + 4096)
  isAne := p.isSome

end ProgramRequest

end Builds

/-! ## Programs have texts -/

section Texts

variable {F : Type} [MilFloat F] {p : SingleProgram F}

lemma toList_ne {a rest : String} (h : a.toList ≠ []) : (a ++ rest).toList ≠ [] := fun heq => by
  rw [String.toList_append] at heq
  exact h (List.append_eq_nil_iff.mp heq).1

lemma header_ne : header.toList ≠ [] := by
  unfold header
  iterate 7 refine toList_ne ?_
  simp

lemma text_ne_of_header {rest : String} : header ++ rest ≠ "" := fun h =>
  toList_ne header_ne (congrArg String.toList h)

lemma text_ne_of_program {shapes : List TensorShape} {params : List FusedInput}
    {body : List (MilStmt F)} {result : String} {i o : TensorShape} {file : String}
    (h : SingleOp.program shapes params body result i o file = .ok p) : p.text ≠ "" := by
  rw [(validated_eq_ok_iff.mp h).2]
  show MilFunction.render _ ≠ ""
  simp only [MilFunction.render, String.append_assoc]
  exact text_ne_of_header

omit [MilFloat F] in
lemma caught_eq_ok {x : Outcome (SingleProgram F)} (h : caught F x = .ok p) : x = .ok p := by
  cases x with
  | ok q => exact congrArg _ (Except.ok.inj h)
  | error e => cases h

/-- **No program is empty.** -/
lemma text_ne_of_buildProgram {C S : ℤ} {op : LibaneOp} (h : buildProgram F C S op = .ok p) :
    p.text ≠ "" := by
  cases op with
  | Add =>
      rw [(validated_eq_ok_iff.mp (caught_eq_ok h)).2]
      simp only [String.append_assoc]
      exact text_ne_of_header
  | Matmul => exact text_ne_of_program (caught_eq_ok h)
  | Softmax => exact text_ne_of_program (caught_eq_ok h)
  | AvgPool => exact text_ne_of_program (caught_eq_ok h)
  | MaxPool => exact text_ne_of_program (caught_eq_ok h)
  | Gelu => exact text_ne_of_program (caught_eq_ok h)
  | Mul => exact text_ne_of_program (caught_eq_ok h)
  | LogicalAnd => exact text_ne_of_program (caught_eq_ok h)
  | LogicalOr => exact text_ne_of_program (caught_eq_ok h)
  | LogicalXor => exact text_ne_of_program (caught_eq_ok h)
  | LayerNorm => exact text_ne_of_program (caught_eq_ok h)
  | Layernorm => exact text_ne_of_program (caught_eq_ok h)
  | Transpose => exact text_ne_of_program (caught_eq_ok h)
  | Silu => exact text_ne_of_program (caught_eq_ok h)
  | Rmsnorm => exact text_ne_of_program (caught_eq_ok h)
  | _ => cases h

end Texts

end Libane
