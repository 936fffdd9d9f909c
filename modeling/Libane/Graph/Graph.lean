import Libane.Core.Shape
import Libane.Foundation.Runs

/-!
# The graph builder

`AneGraph` of `ane_graph.hpp`: tensors and nodes with monotonically increasing ids, the declared
inputs and the marked outputs, changed only by `addInput`, `addOp` and `markOutput`.

Tensor ids and node ids are natural numbers.  The source's `uint32_t` counters agree with them as
long as fewer than `2 ^ 32 - 1` tensors exist, and its sentinel `kInvalidNodeId` is `none` here.

* `AneGraph.Wf` — what every graph object satisfies: ids are positions, every operand of a node
  was created before the node's output, every tensor is a declared input or the output of exactly
  one node, every shape passes the ANE constraints, weight files are named after their node.
* `wf_build` — every sequence of builder calls, failing ones included, leads to such a graph.
-/

namespace Libane

/-! ## Operation codes -/

/-- `libane_op_t`.  A C enumeration variable can also hold a value that names no enumerator;
those are `Unknown`. -/
inductive LibaneOp where
  | Matmul | Conv2d | LayerNorm | Gelu | Softmax | Add | Mul | Transpose | Cast | Silu
  | Rmsnorm | Layernorm | AvgPool | MaxPool | LogicalAnd | LogicalOr | LogicalXor | ReduceProd
  | Scatter | Gather | ScatterNd | ScatterAlongAxis | Neg | Mod | Sinh | Cosh | Tan | Asin
  | Acos | Reshape | Concat | SliceByIndex | ReduceSum | ReduceMean | ReduceMax | Sub | RealDiv
  | Sqrt | Log | Rsqrt | Select | Relu | Tanh | Sigmoid | Hardswish | LeakyRelu | Elu
  | PixelShuffle | PwlActivation
  | Unknown (code : ℤ) (h : code < 0 ∨ 48 < code)
  deriving DecidableEq, Repr

/-- `static_cast<int>(op)`. -/
def LibaneOp.code : LibaneOp → ℤ
  | Matmul => 0 | Conv2d => 1 | LayerNorm => 2 | Gelu => 3 | Softmax => 4 | Add => 5 | Mul => 6
  | Transpose => 7 | Cast => 8 | Silu => 9 | Rmsnorm => 10 | Layernorm => 11 | AvgPool => 12
  | MaxPool => 13 | LogicalAnd => 14 | LogicalOr => 15 | LogicalXor => 16 | ReduceProd => 17
  | Scatter => 18 | Gather => 19 | ScatterNd => 20 | ScatterAlongAxis => 21 | Neg => 22
  | Mod => 23 | Sinh => 24 | Cosh => 25 | Tan => 26 | Asin => 27 | Acos => 28 | Reshape => 29
  | Concat => 30 | SliceByIndex => 31 | ReduceSum => 32 | ReduceMean => 33 | ReduceMax => 34
  | Sub => 35 | RealDiv => 36 | Sqrt => 37 | Log => 38 | Rsqrt => 39 | Select => 40 | Relu => 41
  | Tanh => 42 | Sigmoid => 43 | Hardswish => 44 | LeakyRelu => 45 | Elu => 46
  | PixelShuffle => 47 | PwlActivation => 48
  | Unknown code _ => code

/-! ## The graph -/

/-- `kInvalidTensorId`. -/
def kInvalidTensorId : ℕ := 0xFFFFFFFF

/-- `GraphTensor`: a typed, named edge.  A graph input has no producer. -/
structure GraphTensor where
  id : ℕ
  name : String
  shape : TensorShape
  producerNodeId : Option ℕ
  deriving DecidableEq, Repr

/-- `GraphNode`: one operation, with its raw weight bytes and the weight file named after it. -/
structure GraphNode where
  id : ℕ
  op : LibaneOp
  inputs : List ℕ
  output : ℕ
  weights : List UInt8
  weightFile : String
  deriving DecidableEq, Repr

/-- `AneGraph`. -/
structure AneGraph where
  tensors : List GraphTensor := []
  nodes : List GraphNode := []
  graphInputs : List ℕ := []
  graphOutputs : List ℕ := []
  nextTensorId : ℕ := 0
  nextNodeId : ℕ := 0
  deriving DecidableEq, Repr

namespace AneGraph

/-- `AneGraph::tensor`. -/
def tensor (g : AneGraph) (id : ℕ) : Outcome GraphTensor :=
  match g.tensors[id]? with
  | some t => .ok t
  | none => .error (.OutOfRange ("AneGraph::tensor: id " ++ toString id ++ " out of range"))

/-- `AneGraph::node`. -/
def node (g : AneGraph) (id : ℕ) : Outcome GraphNode :=
  match g.nodes[id]? with
  | some n => .ok n
  | none => .error (.OutOfRange ("AneGraph::node: id " ++ toString id ++ " out of range"))

/-- `AneGraph::alloc_tensor`: append a tensor under the next id. -/
def allocTensor (g : AneGraph) (name : String) (shape : TensorShape) (producer : Option ℕ) :
    AneGraph × ℕ :=
  ({ g with
      tensors := g.tensors ++ [⟨g.nextTensorId, name, shape, producer⟩]
      nextTensorId := g.nextTensorId + 1 }, g.nextTensorId)

/-- `AneGraph::add_input`. -/
def addInput (g : AneGraph) (name : String) (shape : TensorShape) :
    Outcome ℕ × AneGraph :=
  match shape.validate with
  | .error e => (.error e, g)
  | .ok () =>
      let (g₁, id) := g.allocTensor name shape none
      (.ok id, { g₁ with graphInputs := g₁.graphInputs ++ [id] })

/-- The operand loop of `add_op`: the first id that is out of range is thrown. -/
def checkOperands (g : AneGraph) : List ℕ → Outcome Unit
  | [] => .ok ()
  | tid :: rest =>
      if tid ≥ g.tensors.length then
        .error (.InvalidArgument ("add_op: input tensor id " ++ toString tid ++
          " is out of range (have " ++ toString g.tensors.length ++ " tensors)"))
      else g.checkOperands rest

/-- The weight file of node `nodeId`: no file when there are no weight bytes. -/
def weightFileOf (nodeId : ℕ) (weights : List UInt8) : String :=
  if weights.isEmpty then "" else "w" ++ toString nodeId ++ ".bin"

/-- `AneGraph::add_op`.  A null weight pointer and a zero length are both the empty list. -/
def addOp (g : AneGraph) (op : LibaneOp) (inputs : List ℕ) (outputShape : TensorShape)
    (weights : List UInt8) : Outcome ℕ × AneGraph :=
  match outputShape.validate with
  | .error e => (.error e, g)
  | .ok () =>
      match g.checkOperands inputs with
      | .error e => (.error e, g)
      | .ok () =>
          let nodeId := g.nextNodeId
          let g₁ := { g with nextNodeId := nodeId + 1 }
          let outName := "t" ++ toString g₁.nextTensorId
          let (g₂, outId) := g₁.allocTensor outName outputShape (some nodeId)
          let n : GraphNode := ⟨nodeId, op, inputs, outId, weights, weightFileOf nodeId weights⟩
          (.ok outId, { g₂ with nodes := g₂.nodes ++ [n] })

/-- `AneGraph::mark_output`. -/
def markOutput (g : AneGraph) (tensorId : ℕ) (name : String) :
    Outcome Unit × AneGraph :=
  if tensorId ≥ g.tensors.length then
    (.error (.InvalidArgument ("mark_output: tensor id " ++ toString tensorId ++
      " is out of range")), g)
  else
    let tensors :=
      if name.isEmpty then g.tensors else g.tensors.modify tensorId ({ · with name })
    (.ok (), { g with tensors, graphOutputs := g.graphOutputs ++ [tensorId] })

/-! ## Sequences of builder calls -/

/-- One call on a graph object. -/
inductive BuilderCall where
  | AddInput (name : String) (shape : TensorShape)
  | AddOp (op : LibaneOp) (inputs : List ℕ) (outputShape : TensorShape)
      (weights : List UInt8)
  | MarkOutput (tensorId : ℕ) (name : String)

/-- The graph after one call, whether it returned or threw. -/
def call (g : AneGraph) : BuilderCall → AneGraph
  | .AddInput name shape => (g.addInput name shape).2
  | .AddOp op inputs outputShape weights => (g.addOp op inputs outputShape weights).2
  | .MarkOutput tensorId name => (g.markOutput tensorId name).2

/-- The graph that a sequence of builder calls leads to. -/
def build (calls : List BuilderCall) : AneGraph := Runs.run call {} calls

/-! ## What the builder guarantees -/

/-- **The builder invariant.** -/
structure Wf (g : AneGraph) : Prop where
  nextTensorId_eq : g.nextTensorId = g.tensors.length
  nextNodeId_eq : g.nextNodeId = g.nodes.length
  tensor_id : ∀ i (t : GraphTensor), g.tensors[i]? = some t → t.id = i
  node_id : ∀ i (n : GraphNode), g.nodes[i]? = some n → n.id = i
  shape_valid : ∀ t ∈ g.tensors, t.shape.Valid
  input_lt_output : ∀ n ∈ g.nodes, ∀ i ∈ n.inputs, i < n.output
  output_lt : ∀ n ∈ g.nodes, n.output < g.tensors.length
  output_strictMono : (g.nodes.map (·.output)).Pairwise (· < ·)
  graphInputs_nodup : g.graphInputs.Nodup
  graphInput_lt : ∀ i ∈ g.graphInputs, i < g.tensors.length
  graphInput_ne_output : ∀ i ∈ g.graphInputs, ∀ n ∈ g.nodes, i ≠ n.output
  tensor_source : ∀ i < g.tensors.length, i ∈ g.graphInputs ∨ ∃ n ∈ g.nodes, n.output = i
  producer_none : ∀ t ∈ g.tensors, t.producerNodeId = none ↔ t.id ∈ g.graphInputs
  producer_some : ∀ t ∈ g.tensors, ∀ p, t.producerNodeId = some p →
    ∃ n, g.nodes[p]? = some n ∧ n.output = t.id
  graphOutput_lt : ∀ i ∈ g.graphOutputs, i < g.tensors.length
  weightFile_eq : ∀ n ∈ g.nodes, n.weightFile = weightFileOf n.id n.weights

lemma wf_empty : Wf {} where
  nextTensorId_eq := rfl
  nextNodeId_eq := rfl
  tensor_id := by simp
  node_id := by simp
  shape_valid := by simp
  input_lt_output := by simp
  output_lt := by simp
  output_strictMono := by simp
  graphInputs_nodup := by simp
  graphInput_lt := by simp
  graphInput_ne_output := by simp
  tensor_source := by simp
  producer_none := by simp
  producer_some := by simp
  graphOutput_lt := by simp
  weightFile_eq := by simp

/-- `addInput` either throws and leaves the graph alone, or appends one input tensor. -/
lemma addInput_cases (g : AneGraph) (name : String) (shape : TensorShape) :
    (∃ e, g.addInput name shape = (.error e, g)) ∨
    (shape.Valid ∧ g.addInput name shape = (.ok g.nextTensorId,
      { g with
        tensors := g.tensors ++ [⟨g.nextTensorId, name, shape, none⟩]
        nextTensorId := g.nextTensorId + 1
        graphInputs := g.graphInputs ++ [g.nextTensorId] })) := by
  rcases shape.validate_cases with h | ⟨what, h⟩
  · right
    refine ⟨TensorShape.validate_eq_ok_iff.mp h, ?_⟩
    simp only [addInput, h, allocTensor]
  · left
    exact ⟨.InvalidArgument what, by simp only [addInput, h]⟩

lemma checkOperands_eq_ok_iff {g : AneGraph} {inputs : List ℕ} :
    g.checkOperands inputs = .ok () ↔ ∀ i ∈ inputs, i < g.tensors.length := by
  induction inputs with
  | nil => simp [checkOperands]
  | cons tid rest ih =>
      by_cases h : tid ≥ g.tensors.length
      · have : ¬ tid < g.tensors.length := by omega
        simp [checkOperands, h, this]
      · have : tid < g.tensors.length := by omega
        simp [checkOperands, h, this, ih]

/-- `addOp` either throws and leaves the graph alone, or appends one node and its output. -/
lemma addOp_cases (g : AneGraph) (op : LibaneOp) (inputs : List ℕ)
    (outputShape : TensorShape) (weights : List UInt8) :
    (∃ e, g.addOp op inputs outputShape weights = (.error e, g)) ∨
    (outputShape.Valid ∧ (∀ i ∈ inputs, i < g.tensors.length) ∧
      g.addOp op inputs outputShape weights = (.ok g.nextTensorId,
        { g with
          tensors := g.tensors ++
            [⟨g.nextTensorId, "t" ++ toString g.nextTensorId, outputShape, some g.nextNodeId⟩]
          nextTensorId := g.nextTensorId + 1
          nodes := g.nodes ++ [⟨g.nextNodeId, op, inputs, g.nextTensorId, weights,
            weightFileOf g.nextNodeId weights⟩]
          nextNodeId := g.nextNodeId + 1 })) := by
  rcases outputShape.validate_cases with h | ⟨what, h⟩
  · cases hc : g.checkOperands inputs with
    | error e => exact Or.inl ⟨e, by simp only [addOp, h, hc]⟩
    | ok u =>
        right
        refine ⟨TensorShape.validate_eq_ok_iff.mp h, checkOperands_eq_ok_iff.mp hc, ?_⟩
        simp only [addOp, h, hc, allocTensor]
  · exact Or.inl ⟨.InvalidArgument what, by simp only [addOp, h]⟩

/-- Renaming one tensor changes names only. -/
lemma getElem?_renamed {g : AneGraph} {tensorId : ℕ} {name : String} {i : ℕ} {t : GraphTensor}
    (h : (g.tensors.modify tensorId ({ · with name }))[i]? = some t) :
    ∃ t₀, g.tensors[i]? = some t₀ ∧ t.id = t₀.id ∧ t.shape = t₀.shape ∧
      t.producerNodeId = t₀.producerNodeId := by
  rw [List.getElem?_modify] at h
  cases h₀ : g.tensors[i]? with
  | none => simp [h₀] at h
  | some t₀ =>
      refine ⟨t₀, rfl, ?_⟩
      rw [h₀] at h
      split_ifs at h with hi
      · cases h; exact ⟨rfl, rfl, rfl⟩
      · cases h; exact ⟨rfl, rfl, rfl⟩

/-- `markOutput` either throws and leaves the graph alone, or appends one output mark; tensors
keep their ids, shapes and producers. -/
lemma markOutput_cases (g : AneGraph) (tensorId : ℕ) (name : String) :
    (∃ e, g.markOutput tensorId name = (.error e, g)) ∨
    (tensorId < g.tensors.length ∧ ∃ tensors : List GraphTensor, tensors.length = g.tensors.length ∧
      (∀ (i : ℕ) (t : GraphTensor), tensors[i]? = some t →
        ∃ t₀, g.tensors[i]? = some t₀ ∧ t.id = t₀.id ∧
        t.shape = t₀.shape ∧ t.producerNodeId = t₀.producerNodeId) ∧
      g.markOutput tensorId name =
        (.ok (), { g with tensors, graphOutputs := g.graphOutputs ++ [tensorId] })) := by
  by_cases h : tensorId ≥ g.tensors.length
  · left
    exact ⟨_, by rw [markOutput, if_pos h]⟩
  · right
    refine ⟨by omega, _, ?_, ?_, by rw [markOutput, if_neg h]⟩
    · split_ifs <;> simp
    · intro i t ht
      by_cases hn : name.isEmpty
      · rw [if_pos hn] at ht
        exact ⟨t, ht, rfl, rfl, rfl⟩
      · rw [if_neg hn] at ht
        exact getElem?_renamed ht

/-- Looking up past the end of a list extended by one element. -/
lemma getElem?_concat_eq_some {α : Type*} {l : List α} {a b : α} {i : ℕ}
    (h : (l ++ [a])[i]? = some b) : l[i]? = some b ∨ (i = l.length ∧ b = a) := by
  rw [List.getElem?_append] at h
  split_ifs at h with hi
  · exact Or.inl h
  · right
    rw [List.getElem?_singleton] at h
    split_ifs at h with h0
    exact ⟨by omega, (Option.some.inj h).symm⟩

/-- Declaring an input keeps the invariant. -/
lemma Wf.addInput {g : AneGraph} (hg : g.Wf) (name : String) (shape : TensorShape) :
    (g.addInput name shape).2.Wf := by
  rcases g.addInput_cases name shape with ⟨e, h⟩ | ⟨hs, h⟩
  · rw [h]; exact hg
  rw [h]
  have hnext := hg.nextTensorId_eq
  exact {
    nextTensorId_eq := by simp [hnext]
    nextNodeId_eq := hg.nextNodeId_eq
    tensor_id := by
      intro i t ht
      rcases getElem?_concat_eq_some ht with ht | ⟨hi, rfl⟩
      · exact hg.tensor_id i t ht
      · rw [hi]; exact hnext
    node_id := hg.node_id
    shape_valid := by
      intro t ht
      rcases List.mem_append.mp ht with ht | ht
      · exact hg.shape_valid t ht
      · rw [List.mem_singleton.mp ht]; exact hs
    input_lt_output := hg.input_lt_output
    output_lt := by
      intro n hn
      have := hg.output_lt n hn
      simp only [List.length_append, List.length_singleton]
      omega
    output_strictMono := hg.output_strictMono
    graphInputs_nodup := by
      refine List.nodup_append.mpr ⟨hg.graphInputs_nodup, List.nodup_singleton _, ?_⟩
      intro a ha b hb
      have := hg.graphInput_lt a ha
      rw [List.mem_singleton] at hb
      omega
    graphInput_lt := by
      intro i hi
      simp only [List.length_append, List.length_singleton]
      rcases List.mem_append.mp hi with hi | hi
      · have := hg.graphInput_lt i hi; omega
      · rw [List.mem_singleton] at hi; omega
    graphInput_ne_output := by
      intro i hi n hn
      rcases List.mem_append.mp hi with hi | hi
      · exact hg.graphInput_ne_output i hi n hn
      · rw [List.mem_singleton] at hi
        have := hg.output_lt n hn
        omega
    tensor_source := by
      intro i hi
      simp only [List.length_append, List.length_singleton] at hi
      by_cases hlt : i < g.tensors.length
      · exact (hg.tensor_source i hlt).imp_left (List.mem_append_left _)
      · left
        exact List.mem_append_right _ (List.mem_singleton.mpr (by omega))
    producer_none := by
      intro t ht
      rcases List.mem_append.mp ht with ht | ht
      · obtain ⟨i, hi, hget⟩ := List.getElem_of_mem ht
        have hid := hg.tensor_id i t (by rw [List.getElem?_eq_getElem hi, hget])
        rw [hg.producer_none t ht, List.mem_append, List.mem_singleton]
        exact ⟨Or.inl, fun h => h.resolve_right (by omega)⟩
      · rw [List.mem_singleton.mp ht]
        simp
    producer_some := by
      intro t ht p hp
      rcases List.mem_append.mp ht with ht | ht
      · exact hg.producer_some t ht p hp
      · rw [List.mem_singleton.mp ht] at hp
        cases hp
    graphOutput_lt := by
      intro i hi
      have := hg.graphOutput_lt i hi
      simp only [List.length_append, List.length_singleton]
      omega
    weightFile_eq := hg.weightFile_eq }

/-- Adding a node keeps the invariant. -/
lemma Wf.addOp {g : AneGraph} (hg : g.Wf) (op : LibaneOp) (inputs : List ℕ)
    (outputShape : TensorShape) (weights : List UInt8) :
    (g.addOp op inputs outputShape weights).2.Wf := by
  rcases g.addOp_cases op inputs outputShape weights with ⟨e, h⟩ | ⟨hs, hin, h⟩
  · rw [h]; exact hg
  rw [h]
  have hnext := hg.nextTensorId_eq
  have hnode := hg.nextNodeId_eq
  exact {
    nextTensorId_eq := by simp [hnext]
    nextNodeId_eq := by simp [hnode]
    tensor_id := by
      intro i t ht
      rcases getElem?_concat_eq_some ht with ht | ⟨hi, rfl⟩
      · exact hg.tensor_id i t ht
      · rw [hi]; exact hnext
    node_id := by
      intro i n hn
      rcases getElem?_concat_eq_some hn with hn | ⟨hi, rfl⟩
      · exact hg.node_id i n hn
      · rw [hi]; exact hnode
    shape_valid := by
      intro t ht
      rcases List.mem_append.mp ht with ht | ht
      · exact hg.shape_valid t ht
      · rw [List.mem_singleton.mp ht]; exact hs
    input_lt_output := by
      intro n hn i hi
      rcases List.mem_append.mp hn with hn | hn
      · exact hg.input_lt_output n hn i hi
      · rw [List.mem_singleton.mp hn] at hi ⊢
        have := hin i hi
        simp only
        omega
    output_lt := by
      intro n hn
      simp only [List.length_append, List.length_singleton]
      rcases List.mem_append.mp hn with hn | hn
      · have := hg.output_lt n hn; omega
      · rw [List.mem_singleton.mp hn]; simp only; omega
    output_strictMono := by
      rw [List.map_append]
      refine List.pairwise_append.mpr ⟨hg.output_strictMono, List.pairwise_singleton _ _, ?_⟩
      intro a ha b hb
      obtain ⟨n, hn, rfl⟩ := List.mem_map.mp ha
      have := hg.output_lt n hn
      simp only [List.map_cons, List.map_nil, List.mem_singleton] at hb
      omega
    graphInputs_nodup := hg.graphInputs_nodup
    graphInput_lt := by
      intro i hi
      have := hg.graphInput_lt i hi
      simp only [List.length_append, List.length_singleton]
      omega
    graphInput_ne_output := by
      intro i hi n hn
      rcases List.mem_append.mp hn with hn | hn
      · exact hg.graphInput_ne_output i hi n hn
      · have := hg.graphInput_lt i hi
        rw [List.mem_singleton.mp hn]
        simp only
        omega
    tensor_source := by
      intro i hi
      simp only [List.length_append, List.length_singleton] at hi
      by_cases hlt : i < g.tensors.length
      · refine (hg.tensor_source i hlt).imp_right ?_
        rintro ⟨n, hn, ho⟩
        exact ⟨n, List.mem_append_left _ hn, ho⟩
      · right
        exact ⟨_, List.mem_append_right _ (List.mem_singleton.mpr rfl), by simp only; omega⟩
    producer_none := by
      intro t ht
      rcases List.mem_append.mp ht with ht | ht
      · exact hg.producer_none t ht
      · rw [List.mem_singleton.mp ht]
        simp only [reduceCtorEq, false_iff]
        intro hmem
        have := hg.graphInput_lt _ hmem
        omega
    producer_some := by
      intro t ht p hp
      rcases List.mem_append.mp ht with ht | ht
      · obtain ⟨n, hn, ho⟩ := hg.producer_some t ht p hp
        have hlt : p < g.nodes.length := (List.getElem?_eq_some_iff.mp hn).1
        exact ⟨n, by rw [List.getElem?_append_left hlt]; exact hn, ho⟩
      · rw [List.mem_singleton.mp ht] at hp ⊢
        have hp' : p = g.nodes.length := by rw [← hnode]; exact (Option.some.inj hp).symm
        subst hp'
        exact ⟨_, List.getElem?_concat_length, rfl⟩
    graphOutput_lt := by
      intro i hi
      have := hg.graphOutput_lt i hi
      simp only [List.length_append, List.length_singleton]
      omega
    weightFile_eq := by
      intro n hn
      rcases List.mem_append.mp hn with hn | hn
      · exact hg.weightFile_eq n hn
      · rw [List.mem_singleton.mp hn] }

/-- Marking an output keeps the invariant. -/
lemma Wf.markOutput {g : AneGraph} (hg : g.Wf) (tensorId : ℕ) (name : String) :
    (g.markOutput tensorId name).2.Wf := by
  rcases g.markOutput_cases tensorId name with ⟨e, h⟩ | ⟨hid, tensors, hlen, hkeep, h⟩
  · rw [h]; exact hg
  rw [h]
  -- every tensor of the new table is one of the old table up to its name
  have hold : ∀ t ∈ tensors, ∃ t₀ ∈ g.tensors, t.id = t₀.id ∧ t.shape = t₀.shape ∧
      t.producerNodeId = t₀.producerNodeId := by
    intro t ht
    obtain ⟨i, hi, hget⟩ := List.getElem_of_mem ht
    obtain ⟨t₀, h₀, hrest⟩ := hkeep i t (by rw [List.getElem?_eq_getElem hi, hget])
    exact ⟨t₀, List.mem_of_getElem? h₀, hrest⟩
  exact {
    nextTensorId_eq := hg.nextTensorId_eq.trans hlen.symm
    nextNodeId_eq := hg.nextNodeId_eq
    tensor_id := by
      intro i t ht
      obtain ⟨t₀, h₀, hid₀, -⟩ := hkeep i t ht
      rw [hid₀]
      exact hg.tensor_id i t₀ h₀
    node_id := hg.node_id
    shape_valid := by
      intro t ht
      obtain ⟨t₀, h₀, -, hshape, -⟩ := hold t ht
      rw [hshape]
      exact hg.shape_valid t₀ h₀
    input_lt_output := hg.input_lt_output
    output_lt := fun n hn => hlen ▸ hg.output_lt n hn
    output_strictMono := hg.output_strictMono
    graphInputs_nodup := hg.graphInputs_nodup
    graphInput_lt := fun i hi => hlen ▸ hg.graphInput_lt i hi
    graphInput_ne_output := hg.graphInput_ne_output
    tensor_source := fun i hi => hg.tensor_source i (hlen ▸ hi)
    producer_none := by
      intro t ht
      obtain ⟨t₀, h₀, hid₀, -, hp⟩ := hold t ht
      rw [hp, hid₀]
      exact hg.producer_none t₀ h₀
    producer_some := by
      intro t ht p hp
      obtain ⟨t₀, h₀, hid₀, -, hp₀⟩ := hold t ht
      rw [hid₀]
      exact hg.producer_some t₀ h₀ p (hp₀ ▸ hp)
    graphOutput_lt := by
      intro i hi
      show i < tensors.length
      rw [hlen]
      rcases List.mem_append.mp hi with hi | hi
      · exact hg.graphOutput_lt i hi
      · rw [List.mem_singleton.mp hi]; exact hid
    weightFile_eq := hg.weightFile_eq }

lemma Wf.call {g : AneGraph} (hg : g.Wf) (c : BuilderCall) : (g.call c).Wf := by
  cases c with
  | AddInput name shape => exact hg.addInput name shape
  | AddOp op inputs outputShape weights => exact hg.addOp op inputs outputShape weights
  | MarkOutput tensorId name => exact hg.markOutput tensorId name

/-- **Every graph object satisfies the builder invariant**, whatever calls were made on it. -/
theorem wf_build (calls : List BuilderCall) : (build calls).Wf :=
  Runs.run_induction call (fun _ c hg => hg.call c) calls {} wf_empty

/-! ## Lookups in a well-formed graph -/

lemma tensor_eq_ok_iff {g : AneGraph} {id : ℕ} {t : GraphTensor} :
    g.tensor id = .ok t ↔ g.tensors[id]? = some t := by
  unfold tensor
  cases g.tensors[id]? <;> simp

lemma node_eq_ok_iff {g : AneGraph} {id : ℕ} {n : GraphNode} :
    g.node id = .ok n ↔ g.nodes[id]? = some n := by
  unfold node
  cases g.nodes[id]? <;> simp

/-- A tensor id in range resolves, to a tensor with that id and a valid shape. -/
lemma Wf.tensor_ok {g : AneGraph} (hg : g.Wf) {id : ℕ} (h : id < g.tensors.length) :
    ∃ t, g.tensor id = .ok t ∧ t.id = id ∧ t.shape.Valid := by
  have hget : g.tensors[id]? = some g.tensors[id] := List.getElem?_eq_getElem h
  exact ⟨g.tensors[id], tensor_eq_ok_iff.mpr hget, hg.tensor_id id _ hget,
    hg.shape_valid _ (List.getElem_mem h)⟩

/-- Tensors have different ids. -/
lemma Wf.tensor_ids_nodup {g : AneGraph} (hg : g.Wf) : (g.tensors.map (·.id)).Nodup := by
  have hids : g.tensors.map (·.id) = List.range g.tensors.length := by
    refine List.ext_getElem (by simp) fun i hi _ => ?_
    rw [List.length_map] at hi
    rw [List.getElem_map, List.getElem_range]
    exact hg.tensor_id i _ (List.getElem?_eq_getElem hi)
  rw [hids]
  exact List.nodup_range

/-- A node of the graph is found under its own id. -/
lemma Wf.node_ok {g : AneGraph} (hg : g.Wf) {n : GraphNode} (h : n ∈ g.nodes) :
    g.node n.id = .ok n := by
  obtain ⟨i, hi, hget⟩ := List.getElem_of_mem h
  have hget' : g.nodes[i]? = some n := by rw [List.getElem?_eq_getElem hi, hget]
  rw [node_eq_ok_iff, hg.node_id i n hget', hget']

/-- Operands of a node are tensors of the graph. -/
lemma Wf.input_lt {g : AneGraph} (hg : g.Wf) {n : GraphNode} (h : n ∈ g.nodes) {i : ℕ}
    (hi : i ∈ n.inputs) : i < g.tensors.length :=
  (hg.input_lt_output n h i hi).trans (hg.output_lt n h)

end AneGraph

end Libane
