import Libane.Core.Assembly
import Libane.Core.WeightBlob
import Libane.Graph.Compiler

/-!
# The MIL backend

`MilBackend` of `mil_backend.cpp`: every node of a group becomes a fragment, the fragments become
one program, and the weights of the nodes become its weight files.

* `nodeToFragment` — which emitter a node gets, and with which arguments.
* `lowerGroup` — the inputs, fragments and weight entries of a group; everything of
  `compile_group` that can throw on its way to `build_fused`.
* `MilBackend` — the backend.
-/

namespace Libane

namespace MilBackend

open MilBuilder WeightBlob

variable {F : Type} [MilFloat F]

/-- `tensor_var`. -/
def tensorVar (id : ℕ) : String := "t" ++ toString id

/-- The variable of the operand at position `i`. -/
def operandVar (n : GraphNode) (i : ℕ) : Outcome String :=
  match n.inputs[i]? with
  | some id => .ok (tensorVar id)
  | none => .error (.UndefinedBehaviour ("node.inputs[" ++ toString i ++ "]"))

/-- The name of a beta file is derived from that of the gamma file. -/
def betaFile (gammaFile : String) : String :=
  if gammaFile.length > 4 then
    String.ofList (gammaFile.toList.take (gammaFile.length - 4)) ++ "b.bin"
  else gammaFile

/-- The floats in a byte string. -/
def floatsOf (w : List UInt8) (count : ℕ) : List F :=
  (List.range count).map fun i =>
    MilFloat.ofBits (UInt32.ofNat (Bytes.ofLE ((w.drop (4 * i)).take 4)))

/-- `case LIBANE_OP_PWL_ACTIVATION`.  The vector has room for `n_floats` floats; all weight bytes
are copied into it. -/
def pwlFragment (n : GraphNode) (outS : TensorShape) (inVar outVar : String) :
    Outcome (MilFragment F) :=
  let nFloats := GraphValidator.pwlFloatCount n.weights
  if nFloats < 0 then .error (.LengthError "std::vector<float>(n_floats)")
  else if 4 * nFloats < n.weights.length then
    .error (.UndefinedBehaviour "memcpy past the end of a vector")
  else
    match floatsOf n.weights nFloats.toNat with
    | xMin :: xMax :: samples =>
        pwlActivationFragment outS.channels outS.seq xMin xMax samples inVar outVar
    | _ => .error (.UndefinedBehaviour "fv[1]")

/-- `node_to_fragment`. -/
def nodeToFragment (g : AneGraph) (n : GraphNode) (inVar outVar : String) :
    Outcome (MilFragment F) := do
  let inS := (← g.tensor (n.inputs.headD kInvalidTensorId)).shape
  let outS := (← g.tensor n.output).shape
  let C := outS.channels
  let SP := outS.seq
  match n.op with
  | .Matmul => matmulFragment inS.channels C SP inVar outVar n.weightFile
  | .Rmsnorm => rmsnormFragment inS.channels inS.seq inVar outVar n.weightFile
  | .Layernorm | .LayerNorm =>
      layernormFragment inS.channels inS.seq inVar outVar n.weightFile (betaFile n.weightFile)
  | .Gelu => geluFragment C SP inVar outVar
  | .Silu => siluFragment C SP inVar outVar
  | .Softmax => softmaxFragment C SP inVar outVar
  | .AvgPool => avgPoolFragment C SP inVar outVar
  | .MaxPool => maxPoolFragment C SP inVar outVar
  | .Transpose => transposeFragment inS.channels inS.seq inVar outVar
  | .Reshape => reshapeFragment inS.channels inS.seq C SP inVar outVar
  | .Add => do addFragment C SP inVar (← operandVar n 1) outVar
  | .Mul => do mulFragment C SP inVar (← operandVar n 1) outVar
  | .Sub => do subFragment C SP inVar (← operandVar n 1) outVar
  | .RealDiv => do realDivFragment C SP inVar (← operandVar n 1) outVar
  | .LogicalAnd => do logicalAndFragment C SP inVar (← operandVar n 1) outVar
  | .LogicalOr => do logicalOrFragment C SP inVar (← operandVar n 1) outVar
  | .LogicalXor => do logicalXorFragment C SP inVar (← operandVar n 1) outVar
  | .ReduceProd => reduceProdFragment inS.channels inS.seq inVar outVar
  | .ReduceSum => reduceSumFragment inS.channels inS.seq inVar outVar
  | .ReduceMean => reduceMeanFragment inS.channels inS.seq inVar outVar
  | .ReduceMax => reduceMaxFragment inS.channels inS.seq inVar outVar
  | .Scatter | .ScatterNd | .ScatterAlongAxis => do
      scatterStaticMaskFragment C SP inVar (← operandVar n 1) outVar n.weightFile
  | .Gather =>
      if n.inputs.length = 1 then gatherStaticMaskFragment C SP inVar outVar n.weightFile
      else do gatherDynamicMaskFragment C SP inVar (← operandVar n 1) outVar
  | .Neg => negFragment C SP inVar outVar
  | .Mod => do modFragment C SP inVar (← operandVar n 1) outVar
  | .Sinh => sinhFragment C SP inVar outVar
  | .Cosh => coshFragment C SP inVar outVar
  | .Tan => tanFragment C SP inVar outVar
  | .Asin => asinFragment C SP inVar outVar
  | .Acos => acosFragment C SP inVar outVar
  | .Select => do selectFragment C SP inVar (← operandVar n 1) (← operandVar n 2) outVar
  | .Concat => do concatFragment inS.channels C SP inVar (← operandVar n 1) outVar
  | .SliceByIndex => sliceByIndexFragment inS.channels inS.seq C SP inVar outVar
  | .Sqrt => sqrtFragment C SP inVar outVar
  | .Log => logFragment C SP inVar outVar
  | .Rsqrt => rsqrtFragment C SP inVar outVar
  | .Relu => reluFragment C SP inVar outVar
  | .Tanh => tanhFragment C SP inVar outVar
  | .Sigmoid => sigmoidFragment C SP inVar outVar
  | .Hardswish => hardswishFragment C SP inVar outVar
  | .LeakyRelu => leakyReluFragment C SP inVar outVar
  | .Elu => eluFragment C SP inVar outVar
  | .PixelShuffle =>
      pixelShuffleFragment C inS.seq (GraphValidator.int32OfBytes n.weights) inVar outVar
  | .PwlActivation => pwlFragment n outS inVar outVar
  | .Conv2d | .Cast | .Unknown _ _ =>
      .error (.RuntimeError
        ("MilBackend::node_to_fragment: unsupported op " ++ toString n.op.code))

omit [MilFloat F] in
/-- The weight files of a node. -/
def weightEntries (g : AneGraph) (n : GraphNode) : Outcome (List WeightEntry) :=
  if n.weightFile = "" ∨ n.weights = [] then .ok []
  else
    match n.op with
    | .Layernorm | .LayerNorm =>
        let half := n.weights.length / 2
        .ok [⟨n.weightFile, fromFp16 (n.weights.take half)⟩,
          ⟨betaFile n.weightFile, fromFp16 ((n.weights.drop half).take half)⟩]
    | .Matmul =>
        match n.inputs with
        | [] => .error (.UndefinedBehaviour "node.inputs[0]")
        | x :: _ => do
            let IC := (← g.tensor x).shape.channels
            let OC := (← g.tensor n.output).shape.channels
            let data ← fromFp16Transposed n.weights IC OC
            return [⟨n.weightFile, data⟩]
    | _ => .ok [⟨n.weightFile, fromFp16 n.weights⟩]

/-- The node loop of `compile_group`: every node reads the variable of the node before it. -/
def lowerNodes (g : AneGraph) :
    String → List ℕ → Outcome (List (MilFragment F) × List WeightEntry)
  | _, [] => .ok ([], [])
  | chainVar, nid :: rest => do
      let n ← g.node nid
      let fragment ← nodeToFragment g n chainVar (tensorVar n.output)
      let entries ← weightEntries g n
      let (fragments, more) ← lowerNodes g (tensorVar n.output) rest
      return (fragment :: fragments, entries ++ more)

omit [MilFloat F] in
/-- The parameters of a group, in the order of `group.inputs`. -/
def fusedInputs (g : AneGraph) : List ℕ → Outcome (List FusedInput)
  | [] => .ok []
  | id :: rest => do
      let t ← g.tensor id
      let more ← fusedInputs g rest
      return ⟨tensorVar id, t.shape⟩ :: more

/-- What `compile_group` hands to `build_fused` and to `ane_compile`. -/
structure LoweredGroup (F : Type) where
  inputs : List FusedInput
  fragments : List (MilFragment F)
  entries : List WeightEntry

/-- The first two parts of `compile_group`. -/
def lowerGroup (g : AneGraph) (group : FusionGroup) : Outcome (LoweredGroup F) :=
  match group.inputs with
  | [] => .error (.UndefinedBehaviour "group.inputs[0]")
  | chain :: _ => do
      let inputs ← fusedInputs g group.inputs
      let (fragments, entries) ← lowerNodes g (tensorVar chain) group.nodeIds
      return { inputs, fragments, entries }

/-- `compile_group`. -/
def compileGroup (F : Type) [MilFloat F] (fw : AneFramework) (g : AneGraph) (group : FusionGroup)
    (debugName : String) : Outcome (Option AneProgram) := do
  let lowered : LoweredGroup F ← lowerGroup g group
  let prog ← buildFused lowered.inputs lowered.fragments
  return aneCompile fw prog.text lowered.entries debugName

end MilBackend

/-- `MilBackend`: the catch-all. -/
def MilBackend (F : Type) [MilFloat F] (fw : AneFramework) : CompilerBackend where
  owns _ _ := .ok true
  compileGroup := MilBackend.compileGroup F fw

end Libane
