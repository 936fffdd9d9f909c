import Libane.Graph.Graph

/-!
# The graph validator

`GraphValidator` of `graph_validator.cpp`.  Each check returns the messages it pushes, in the
order it pushes them; `validate` concatenates them.  A check that can throw, or whose behaviour
C++ leaves undefined, lives in `Outcome`.

Three parts of the source need care.

* `checkTopo` is Kahn's algorithm with a work queue.  `kahnLoop` runs it on fuel; the measure
  "queue length plus nodes of positive in-degree" falls with every pop, so the fuel the check
  passes is enough (`kahnLoop_fuel`).
* The remainder in the `PIXEL_SHUFFLE` case is taken even when the factor was just reported to
  be zero; that is the one `UndefinedBehaviour` a graph object can provoke
  (`validate_error_iff`).
* `checkWeights` checks shapes as well as weights, but only for some of the operations.  What
  its silence means for a node is said case by case in `Libane.Graph.Accepted`.
-/

namespace Libane

namespace GraphValidator

/-- One conditional `push_back` on the error list. -/
def reportIf (c : Prop) [Decidable c] (msg : String) : List String := if c then [msg] else []

@[simp] lemma reportIf_eq_nil {c : Prop} [Decidable c] {msg : String} :
    reportIf c msg = [] ↔ ¬ c := by
  unfold reportIf
  split_ifs with h <;> simp [h]

/-! ## Checks 1 to 3: structure, shapes, edges -/

/-- `check_structure`. -/
def checkStructure (g : AneGraph) : List String :=
  reportIf (g.graphInputs = []) "graph has no inputs" ++
    reportIf (g.graphOutputs = []) "graph has no outputs"

/-- The text of a thrown failure. -/
def what : Failure → String
  | .InvalidArgument w => w
  | .OutOfRange w => w
  | .RuntimeError w => w
  | .LengthError w => w
  | .UndefinedBehaviour w => w

/-- `check_shapes`. -/
def checkShapes (g : AneGraph) : List String :=
  g.tensors.flatMap fun t =>
    match t.shape.validate with
    | .ok () => []
    | .error e => ["tensor " ++ toString t.id ++ " (\"" ++ t.name ++ "\"): " ++ what e]

/-- The prefix of every message about a node. -/
def nodePrefix (n : GraphNode) : String :=
  "node " ++ toString n.id ++ " (op " ++ toString n.op.code ++ "): "

/-- The node loop of `check_edges`: an operand must be defined by an input or a prior node. -/
def edgeErrors : List ℕ → List GraphNode → List String
  | _, [] => []
  | defined, n :: rest =>
      n.inputs.flatMap (fun inp => reportIf (inp ∉ defined)
        (nodePrefix n ++ "input tensor " ++ toString inp ++
          " is not produced by any prior node and is not a graph input")) ++
      edgeErrors (n.output :: defined) rest

/-- `check_edges`. -/
def checkEdges (g : AneGraph) : List String :=
  edgeErrors g.graphInputs g.nodes ++
    g.graphOutputs.flatMap fun oid =>
      if oid ≥ g.tensors.length then
        ["graph output tensor id " ++ toString oid ++ " is out of range"]
      else
        reportIf (oid ∉ g.graphInputs ++ g.nodes.map (·.output))
          ("graph output tensor " ++ toString oid ++
            " is not reachable from any node or graph input")

/-! ## Check 4: Kahn's algorithm -/

/-- The `tensor_producer` map: absent, a graph input, or the output of a node. -/
def tensorProducer (g : AneGraph) : ℕ → Option (Option ℕ) :=
  g.nodes.foldl (fun m n => Function.update m n.output (some (some n.id)))
    (g.graphInputs.foldl (fun m i => Function.update m i (some none)) fun _ => none)

/-- The counters and adjacency lists of `check_topo`. -/
structure TopoTables where
  inDegree : ℕ → ℤ
  successors : ℕ → List ℕ

/-- The operand loop of `check_topo`: one edge for each distinct producing node. -/
def addEdges (producer : ℕ → Option (Option ℕ)) (size : ℕ) (n : GraphNode) :
    List ℕ → List ℕ → TopoTables → TopoTables
  | [], _, t => t
  | inp :: rest, predSeen, t =>
      match producer inp with
      | some (some prod) =>
          if prod ≥ size ∨ prod ∈ predSeen then addEdges producer size n rest predSeen t
          else
            addEdges producer size n rest (prod :: predSeen)
              { inDegree := Function.update t.inDegree n.id (t.inDegree n.id + 1)
                successors := Function.update t.successors prod (t.successors prod ++ [n.id]) }
      | _ => addEdges producer size n rest predSeen t

/-- The tables of a whole graph. -/
def topoTables (g : AneGraph) : TopoTables :=
  g.nodes.foldl
    (fun t n => addEdges (tensorProducer g) g.nodes.length n n.inputs [] t)
    ⟨fun _ => 0, fun _ => []⟩

/-- Decrement the successors of a popped node; those that reach zero join the queue. -/
def releaseSuccessors : List ℕ → List ℕ → (ℕ → ℤ) → List ℕ × (ℕ → ℤ)
  | [], q, d => (q, d)
  | succ :: rest, q, d =>
      let d' := Function.update d succ (d succ - 1)
      releaseSuccessors rest (if d' succ = 0 then q ++ [succ] else q) d'

/-- The queue loop: how many nodes were popped. -/
def kahnLoop (successors : ℕ → List ℕ) : ℕ → List ℕ → (ℕ → ℤ) → ℕ → ℕ
  | 0, _, _, processed => processed
  | _ + 1, [], _, processed => processed
  | fuel + 1, nid :: q, d, processed =>
      let (q', d') := releaseSuccessors (successors nid) q d
      kahnLoop successors fuel q' d' (processed + 1)

/-- Nodes of `ids` that still wait for a predecessor. -/
def waiting (ids : List ℕ) (d : ℕ → ℤ) : List ℕ := ids.filter fun i => 0 < d i

/-- Decrementing one counter shortens the waiting list by one when the counter reaches zero, and
never lengthens it. -/
lemma waiting_decrement {ids : List ℕ} (hids : ids.Nodup) {succ : ℕ} (hs : succ ∈ ids)
    (d : ℕ → ℤ) :
    (waiting ids (Function.update d succ (d succ - 1))).length +
      (if d succ - 1 = 0 then 1 else 0) ≤ (waiting ids d).length := by
  -- removing `succ` from both filters leaves the same nodes
  have herase : ∀ f : ℕ → ℤ, (waiting ids f).length =
      (waiting (ids.erase succ) f).length + if 0 < f succ then 1 else 0 := by
    intro f
    have hperm : (waiting ids f).Perm (waiting (succ :: ids.erase succ) f) :=
      (List.perm_cons_erase hs).filter _
    rw [hperm.length_eq, waiting, List.filter_cons]
    split_ifs with h1 h2 h2 <;> simp_all [waiting]
  have hsame : waiting (ids.erase succ) (Function.update d succ (d succ - 1)) =
      waiting (ids.erase succ) d := by
    refine List.filter_congr fun i hi => ?_
    have hne : i ≠ succ := fun h => (List.Nodup.not_mem_erase hids) (h ▸ hi)
    rw [Function.update_of_ne hne]
  rw [herase, herase d, hsame, Function.update_self]
  split_ifs <;> omega

/-- Releasing successors only moves nodes from the waiting list to the queue. -/
lemma releaseSuccessors_measure {ids : List ℕ} (hids : ids.Nodup) :
    ∀ (succs q : List ℕ) (d : ℕ → ℤ), (∀ s ∈ succs, s ∈ ids) →
      (releaseSuccessors succs q d).1.length +
          (waiting ids (releaseSuccessors succs q d).2).length ≤
        q.length + (waiting ids d).length
  | [], q, d, _ => le_refl _
  | succ :: rest, q, d, hmem => by
      have hstep := waiting_decrement hids (hmem succ List.mem_cons_self) d
      have ih := releaseSuccessors_measure hids rest
        (if Function.update d succ (d succ - 1) succ = 0 then q ++ [succ] else q)
        (Function.update d succ (d succ - 1)) (fun s hs => hmem s (List.mem_cons_of_mem _ hs))
      rw [Function.update_self] at ih
      simp only [releaseSuccessors, Function.update_self]
      split_ifs at ih hstep ⊢ with h0
      · rw [List.length_append, List.length_singleton] at ih
        omega
      · omega

/-- **The queue loop ends.**  Fuel beyond the queue length plus the number of waiting nodes is
never used. -/
theorem kahnLoop_fuel {ids : List ℕ} (hids : ids.Nodup) {successors : ℕ → List ℕ}
    (hsucc : ∀ i, ∀ s ∈ successors i, s ∈ ids) :
    ∀ (fuel extra : ℕ) (q : List ℕ) (d : ℕ → ℤ) (processed : ℕ),
      q.length + (waiting ids d).length ≤ fuel →
      kahnLoop successors (fuel + extra) q d processed = kahnLoop successors fuel q d processed
  | fuel, extra, [], d, processed, _ => by
      cases fuel <;> cases extra <;> rfl
  | 0, _, _ :: _, _, _, h => by simp at h
  | fuel + 1, extra, nid :: q, d, processed, h => by
      have hm := releaseSuccessors_measure hids (successors nid) q d (hsucc nid)
      rw [List.length_cons] at h
      rw [Nat.add_right_comm]
      exact kahnLoop_fuel hids hsucc fuel extra _ _ (processed + 1) (by omega)

/-- `check_topo`. -/
def checkTopo (g : AneGraph) : List String :=
  if g.nodes = [] then []
  else
    let t := topoTables g
    let q := (g.nodes.map (·.id)).filter fun i => t.inDegree i = 0
    let processed := kahnLoop t.successors g.nodes.length q t.inDegree 0
    reportIf (processed ≠ g.nodes.length)
      ("graph contains a cycle: topological sort processed " ++ toString processed ++ " of " ++
        toString g.nodes.length ++ " nodes")

/-! ## Check 5: reachability -/

/-- The forward pass of `check_reachability`. -/
def reachableFrom : List ℕ → List GraphNode → List ℕ
  | reachable, [] => reachable
  | reachable, n :: rest =>
      reachableFrom (if ∀ inp ∈ n.inputs, inp ∈ reachable then n.output :: reachable
        else reachable) rest

/-- `check_reachability`. -/
def checkReachability (g : AneGraph) : List String :=
  let reachable := reachableFrom g.graphInputs g.nodes
  g.graphOutputs.flatMap fun oid =>
    match g.tensors[oid]? with
    | none => []
    | some t => reportIf (oid ∉ reachable)
        ("graph output tensor " ++ toString oid ++ " (\"" ++ t.name ++
          "\") is not reachable from any graph input")

/-! ## Check 6: arities, weights and some shapes -/

/-- `IC`: the channels of the first operand, zero when there is none. -/
def firstChannels (g : AneGraph) (n : GraphNode) : ℤ :=
  match n.inputs with
  | [] => 0
  | x :: _ => (g.tensors[x]?.map (·.shape.channels)).getD 0

/-- `int32_t` from four little-endian bytes. -/
def int32OfBytes : List UInt8 → ℤ
  | [b0, b1, b2, b3] =>
      toInt32 (b0.toNat + 256 * b1.toNat + 65536 * b2.toNat + 16777216 * b3.toNat)
  | _ => 0

/-- `static_cast<int>(w.size()) / 4`: the number of floats in a `PWL_ACTIVATION` weight array. -/
def pwlFloatCount (w : List UInt8) : ℤ := (toInt32 w.length).tdiv 4

def weightFreeError (n : GraphNode) : List String :=
  reportIf (n.weights ≠ []) ("op is weight-free but " ++ toString n.weights.length ++
    " weight bytes were provided")

def arityError (message : String) (n : GraphNode) : String :=
  message ++ ", got " ++ toString n.inputs.length

/-- `case LIBANE_OP_MATMUL`. -/
def matmulErrors (g : AneGraph) (n : GraphNode) (out : TensorShape) : List String :=
  if n.inputs.length ≠ 1 then [arityError "matmul requires exactly one input" n]
  else
    let ic := firstChannels g n
    let expected := toSizeT ic * toSizeT out.channels * 2 % 2 ^ 64
    reportIf (n.weights.length ≠ expected)
      ("weight size mismatch: expected " ++ toString expected ++ " bytes (IC=" ++ toString ic ++
        " × OC=" ++ toString out.channels ++ " × 2), got " ++ toString n.weights.length)

/-- `case LIBANE_OP_RMSNORM`. -/
def rmsnormErrors (n : GraphNode) (out : TensorShape) : List String :=
  if n.inputs.length ≠ 1 then [arityError "rmsnorm requires exactly one input" n]
  else
    let expected := toSizeT out.channels * 2 % 2 ^ 64
    reportIf (n.weights.length ≠ expected)
      ("scale size mismatch: expected " ++ toString expected ++ " bytes (C=" ++
        toString out.channels ++ " × 2), got " ++ toString n.weights.length)

/-- `case LIBANE_OP_LAYERNORM`: gamma packed before beta. -/
def layernormErrors (n : GraphNode) (out : TensorShape) : List String :=
  if n.inputs.length ≠ 1 then [arityError "layernorm requires exactly one input" n]
  else
    let expected := toSizeT out.channels * 4 % 2 ^ 64
    reportIf (n.weights.length ≠ expected)
      ("weight size mismatch: expected " ++ toString expected ++
        " bytes (2 × C × 2 for gamma+beta, C=" ++ toString out.channels ++ "), got " ++
        toString n.weights.length)

/-- The weight-free operations with one operand. -/
def unaryErrors (n : GraphNode) : List String :=
  weightFreeError n ++
    reportIf (n.inputs.length ≠ 1) (arityError "requires exactly one input" n)

/-- The weight-free operations with two operands. -/
def binaryErrors (n : GraphNode) : List String :=
  weightFreeError n ++
    reportIf (n.inputs.length ≠ 2) (arityError "requires exactly two inputs" n)

/-- `case LIBANE_OP_PIXEL_SHUFFLE`.  The remainder is evaluated whether or not `r <= 0` was
just reported, and a remainder by zero has no defined result. -/
def pixelShuffleErrors (g : AneGraph) (n : GraphNode) : Outcome (List String) :=
  match n.inputs with
  | [x] =>
      if n.weights.length ≠ 4 then
        .ok ["pixel_shuffle requires 4 weight bytes (int32 upscale_factor), got " ++
          toString n.weights.length]
      else do
        let r := int32OfBytes n.weights
        let inT ← g.tensor x
        if r = 0 then
          .error (.UndefinedBehaviour "check_weights: remainder by zero")
        else
          return reportIf (r ≤ 0)
              ("pixel_shuffle upscale_factor must be > 0, got " ++ toString r) ++
            reportIf (inT.shape.channels.tmod r ≠ 0)
              ("pixel_shuffle input channels (" ++ toString inT.shape.channels ++
                ") must be divisible by upscale_factor (" ++ toString r ++ ")")
  | _ => .ok [arityError "pixel_shuffle requires exactly one input" n]

/-- `case LIBANE_OP_PWL_ACTIVATION`. -/
def pwlActivationErrors (n : GraphNode) : List String :=
  if n.inputs.length ≠ 1 then [arityError "pwl_activation requires exactly one input" n]
  else if n.weights.length < 12 ∨ n.weights.length % 4 ≠ 0 then
    ["pwl_activation weights must be at least 3 float32 values (x_min, x_max, sample[0]), got " ++
      toString n.weights.length ++ " bytes"]
  else
    let nFloats := pwlFloatCount n.weights
    reportIf (nFloats < 4)
      ("pwl_activation needs at least 2 samples (n_floats >= 4), got " ++ toString nFloats)

/-- The cases that read the shape of a single operand: one list of messages when the arity is
wrong, otherwise a list that depends on the operand's shape. -/
def oneOperandErrors (g : AneGraph) (n : GraphNode) (wrongArity : List String)
    (errors : TensorShape → List String) : Outcome (List String) :=
  match n.inputs with
  | [x] => do
      let t ← g.tensor x
      return errors t.shape
  | _ => .ok wrongArity

/-- The cases that read the shapes of two operands. -/
def twoOperandErrors (g : AneGraph) (n : GraphNode) (wrongArity : List String)
    (errors : TensorShape → TensorShape → List String) : Outcome (List String) :=
  match n.inputs with
  | [x, y] => do
      let a ← g.tensor x
      let b ← g.tensor y
      return errors a.shape b.shape
  | _ => .ok wrongArity

/-- `case LIBANE_OP_REDUCE_PROD`. -/
def reduceProdErrors (g : AneGraph) (n : GraphNode) (out : TensorShape) :
    Outcome (List String) :=
  oneOperandErrors g n
    (weightFreeError n ++ [arityError "reduce_prod requires exactly one input" n]) fun inS =>
    weightFreeError n ++
      reportIf (out.channels ≠ 1 ∨ out.seq ≠ inS.seq)
        "reduce_prod output shape must be [1,1,1,S] with S matching input"

/-- The other reductions. -/
def reduceErrors (g : AneGraph) (n : GraphNode) (out : TensorShape) : Outcome (List String) :=
  oneOperandErrors g n
    (weightFreeError n ++ [arityError "reduce op requires exactly one input" n]) fun inS =>
    weightFreeError n ++
      reportIf (out.channels ≠ 1)
        ("reduce output channels must be 1, got " ++ toString out.channels) ++
      reportIf (out.seq ≠ inS.seq)
        ("reduce output seq must match input seq: expected " ++ toString inS.seq ++
          ", got " ++ toString out.seq)

/-- The scatter family: a base, updates, and a static mask in the weights. -/
def scatterErrors (g : AneGraph) (n : GraphNode) (out : TensorShape) : Outcome (List String) :=
  if n.inputs.length = 2 ∧ n.weights = [] then
    .ok ["scatter-like op requires static mask weights [1,C,1,S]"]
  else
    twoOperandErrors g n
      [arityError "scatter-like op requires exactly two inputs (base, updates)" n] fun a b =>
      reportIf (¬ (a = b ∧ a = out))
          "scatter-like op requires input/output shapes to match exactly" ++
        reportIf (n.weights.length ≠ out.bytes)
          ("scatter-like mask size mismatch: expected " ++ toString out.bytes ++
            " bytes ([1,C,1,S] fp16), got " ++ toString n.weights.length)

/-- `case LIBANE_OP_GATHER`: a static mask in the weights or a dynamic one as second operand. -/
def gatherErrors (g : AneGraph) (n : GraphNode) (out : TensorShape) : Outcome (List String) :=
  if n.inputs.length = 1 then
    if n.weights = [] then .ok ["gather(static) requires mask weights [1,C,1,S]"]
    else
      oneOperandErrors g n [] fun inS =>
        reportIf (inS ≠ out) "gather(static) requires input/output shapes to match exactly" ++
          reportIf (n.weights.length ≠ out.bytes)
            ("gather(static) mask size mismatch: expected " ++ toString out.bytes ++
              " bytes ([1,C,1,S] fp16), got " ++ toString n.weights.length)
  else
    twoOperandErrors g n
      [arityError
        "gather supports exactly one input (static mask) or two inputs (dynamic mask)" n]
      fun x m =>
      reportIf (n.weights ≠ []) "gather(dynamic) is weight-free; provide mask as second input" ++
        reportIf (¬ (x = m ∧ x = out))
          "gather(dynamic) requires x/mask/output shapes to match exactly"

/-- `case LIBANE_OP_SELECT`. -/
def selectErrors (g : AneGraph) (n : GraphNode) (out : TensorShape) : Outcome (List String) :=
  let weightError := reportIf (n.weights ≠ []) ("select is weight-free but " ++
    toString n.weights.length ++ " weight bytes were provided")
  match n.inputs with
  | [c, x, y] => do
      let condS := (← g.tensor c).shape
      let xS := (← g.tensor x).shape
      let yS := (← g.tensor y).shape
      return weightError ++
        reportIf (condS.channels ≠ xS.channels ∨ condS.seq ≠ xS.seq)
          "select: condition and x shapes must match" ++
        reportIf (xS.channels ≠ yS.channels ∨ xS.seq ≠ yS.seq)
          "select: x and y shapes must match" ++
        reportIf (out.channels ≠ xS.channels ∨ out.seq ≠ xS.seq)
          "select: output shape must match input shapes"
  | _ => .ok (weightError ++ [arityError "select requires exactly 3 inputs (condition, x, y)" n])

/-- `case LIBANE_OP_CONCAT`. -/
def concatErrors (g : AneGraph) (n : GraphNode) (out : TensorShape) : Outcome (List String) :=
  twoOperandErrors g n
    (weightFreeError n ++ [arityError "concat requires exactly two inputs" n]) fun a b =>
    weightFreeError n ++
      reportIf (a.seq ≠ b.seq)
        ("concat requires matching input seq dimensions, got " ++ toString a.seq ++ " and " ++
          toString b.seq) ++
      reportIf (out.seq ≠ a.seq)
        ("concat output seq must match inputs: expected " ++ toString a.seq ++ ", got " ++
          toString out.seq) ++
      reportIf (out.channels ≠ a.channels + b.channels)
        ("concat output channels must equal input0+input1: expected " ++
          toString (a.channels + b.channels) ++ ", got " ++ toString out.channels)

/-- `case LIBANE_OP_RESHAPE`. -/
def reshapeErrors (g : AneGraph) (n : GraphNode) (out : TensorShape) : Outcome (List String) :=
  oneOperandErrors g n
    (weightFreeError n ++ [arityError "reshape requires exactly one input" n]) fun inS =>
    weightFreeError n ++
      reportIf (inS.numel ≠ out.numel)
        ("reshape requires equal input/output element counts: input numel=" ++
          toString inS.numel ++ ", output numel=" ++ toString out.numel)

/-- `case LIBANE_OP_SLICE_BY_INDEX`. -/
def sliceByIndexErrors (g : AneGraph) (n : GraphNode) (out : TensorShape) :
    Outcome (List String) :=
  oneOperandErrors g n
    (weightFreeError n ++ [arityError "slice_by_index requires exactly one input" n]) fun inS =>
    weightFreeError n ++
      reportIf (out.channels > inS.channels ∨ out.seq > inS.seq)
        ("slice_by_index output dims must be <= input dims: input [1," ++
          toString inS.channels ++ ",1," ++ toString inS.seq ++ "], output [1," ++
          toString out.channels ++ ",1," ++ toString out.seq ++ "]")

/-- The `switch` of `check_weights`. -/
def opErrors (g : AneGraph) (n : GraphNode) (out : TensorShape) : Outcome (List String) :=
  match n.op with
  | .Matmul => .ok (matmulErrors g n out)
  | .Rmsnorm => .ok (rmsnormErrors n out)
  | .LayerNorm | .Layernorm => .ok (layernormErrors n out)
  | .Gelu | .Softmax | .AvgPool | .MaxPool | .Neg | .Sinh | .Cosh | .Tan | .Asin | .Acos | .Silu
  | .Sqrt | .Log | .Rsqrt | .Transpose | .Cast | .Relu | .Tanh | .Sigmoid | .Hardswish
  | .LeakyRelu | .Elu => .ok (unaryErrors n)
  | .PixelShuffle => pixelShuffleErrors g n
  | .PwlActivation => .ok (pwlActivationErrors n)
  | .ReduceProd => reduceProdErrors g n out
  | .Scatter | .ScatterNd | .ScatterAlongAxis => scatterErrors g n out
  | .Gather => gatherErrors g n out
  | .Add | .Mul | .Mod | .Sub | .RealDiv | .LogicalAnd | .LogicalOr | .LogicalXor =>
      .ok (binaryErrors n)
  | .Select => selectErrors g n out
  | .Concat => concatErrors g n out
  | .Reshape => reshapeErrors g n out
  | .SliceByIndex => sliceByIndexErrors g n out
  | .ReduceSum | .ReduceMean | .ReduceMax => reduceErrors g n out
  | .Conv2d => .ok ["CONV2D is not supported in the graph API"]
  | .Unknown code _ => .ok ["unknown op code " ++ toString code]

/-- The errors of one node in `check_weights`. -/
def nodeErrors (g : AneGraph) (n : GraphNode) : Outcome (List String) := do
  let outT ← g.tensor n.output
  let errors ← opErrors g n outT.shape
  return errors.map (nodePrefix n ++ ·)

/-- The node loop of `check_weights`. -/
def weightErrors (g : AneGraph) : List GraphNode → Outcome (List String)
  | [] => .ok []
  | n :: rest => do
      let errors ← nodeErrors g n
      let more ← weightErrors g rest
      return errors ++ more

/-- `check_weights`. -/
def checkWeights (g : AneGraph) : Outcome (List String) := weightErrors g g.nodes

/-! ## Check 7: operand shapes of the arithmetic operations -/

/-- The operand loop of `check_binary_shapes`, from operand `i` on. -/
def operandShapeErrors (g : AneGraph) (n : GraphNode) (ref : TensorShape) :
    ℕ → List ℕ → List String
  | _, [] => []
  | i, tid :: rest =>
      (match g.tensors[tid]? with
        | none => []
        | some t => reportIf (t.shape ≠ ref)
            (nodePrefix n ++ "input 0 shape [1," ++ toString ref.channels ++ ",1," ++
              toString ref.seq ++ "] != input " ++ toString i ++ " shape [1," ++
              toString t.shape.channels ++ ",1," ++ toString t.shape.seq ++
              "] (ANE constraint #18)")) ++
      operandShapeErrors g n ref (i + 1) rest

/-- The errors of one node in `check_binary_shapes`. -/
def binaryShapeErrors (g : AneGraph) (n : GraphNode) : Outcome (List String) :=
  match n.op, n.inputs with
  | .Add, x :: y :: rest | .Mul, x :: y :: rest | .Sub, x :: y :: rest
  | .RealDiv, x :: y :: rest => do
      let ref ← g.tensor x
      return operandShapeErrors g n ref.shape 1 (y :: rest)
  | _, _ => .ok []

/-- The node loop of `check_binary_shapes`. -/
def allBinaryShapeErrors (g : AneGraph) : List GraphNode → Outcome (List String)
  | [] => .ok []
  | n :: rest => do
      let errors ← binaryShapeErrors g n
      let more ← allBinaryShapeErrors g rest
      return errors ++ more

/-- `check_binary_shapes`. -/
def checkBinaryShapes (g : AneGraph) : Outcome (List String) := allBinaryShapeErrors g g.nodes

/-! ## The entry point -/

/-- `GraphValidator::validate`: the collected messages; the graph is accepted when there are
none. -/
def validate (g : AneGraph) : Outcome (List String) :=
  if checkStructure g ≠ [] then .ok (checkStructure g)
  else do
    let early := checkShapes g ++ checkEdges g ++ checkTopo g ++ checkReachability g
    let weights ← checkWeights g
    let binary ← checkBinaryShapes g
    return early ++ weights ++ binary

end GraphValidator

end Libane
