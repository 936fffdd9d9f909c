import Libane.Graph.Accepted

/-!
# Which operations the validator checks the output shape of

Every operation of the graph API determines a relation between the shapes of its operands and the
shape of its result, `shapeRule`.  The documentation of the graph API lists that relation among
the validation rules ("output shapes must be compatible with op semantics").  The validator
enforces it inside the `switch` of `check_weights`, case by case, and for most cases it does not:
a weight-free unary operation, for instance, is checked for its arity and its weights only.

* `outputUnchecked` — the operations whose case says nothing about the output shape.
* `shapeRule_of_accepted` — acceptance implies the rule for every other operation.
* `misfit` — for each unchecked operation, builder calls that end in an accepted graph with a
  node of that operation which breaks the rule.
* `shape_soundness_iff` — the two together: the operations for which acceptance implies the rule.
-/

namespace Libane

open GraphValidator

/-- The result shape that an operation yields on the shapes of its operands. -/
def LibaneOp.shapeRule (op : LibaneOp) (weights : List UInt8) (ins : List TensorShape)
    (out : TensorShape) : Prop :=
  match op with
  | .Gelu | .Softmax | .AvgPool | .MaxPool | .Neg | .Sinh | .Cosh | .Tan | .Asin | .Acos | .Silu
  | .Sqrt | .Log | .Rsqrt | .Cast | .Relu | .Tanh | .Sigmoid | .Hardswish | .LeakyRelu | .Elu
  | .Rmsnorm | .LayerNorm | .Layernorm | .PwlActivation => ins = [out]
  | .Add | .Mul | .Sub | .RealDiv | .Mod | .LogicalAnd | .LogicalOr | .LogicalXor =>
      ins = [out, out]
  | .Matmul => ∃ a ∈ ins.head?, ins = [a] ∧ out = ⟨1, out.channels, 1, a.seq⟩
  | .Transpose => ∃ a ∈ ins.head?, ins = [a] ∧ out = ⟨1, a.seq, 1, a.channels⟩
  | .PixelShuffle => ∃ a ∈ ins.head?, ins = [a] ∧
      out = ⟨1, a.channels.tdiv (int32OfBytes weights), 1, a.seq * int32OfBytes weights⟩
  | .ReduceSum | .ReduceMean | .ReduceMax | .ReduceProd =>
      ∃ a ∈ ins.head?, ins = [a] ∧ out = ⟨1, 1, 1, a.seq⟩
  | .Reshape => ∃ a ∈ ins.head?, ins = [a] ∧ a.numel = out.numel
  | .SliceByIndex =>
      ∃ a ∈ ins.head?, ins = [a] ∧ out.channels ≤ a.channels ∧ out.seq ≤ a.seq
  | .Concat => ∃ a ∈ ins.head?, ∃ b ∈ ins.getLast?, ins = [a, b] ∧ a.seq = b.seq ∧
      out = ⟨1, a.channels + b.channels, 1, a.seq⟩
  | .Scatter | .ScatterNd | .ScatterAlongAxis => ins = [out, out]
  | .Gather => ins = [out] ∨ ins = [out, out]
  | .Select => ins = [out, out, out]
  -- neither is ever accepted
  | .Conv2d | .Unknown _ _ => False

instance (op : LibaneOp) (weights : List UInt8) (ins : List TensorShape) (out : TensorShape) :
    Decidable (op.shapeRule weights ins out) := by
  unfold LibaneOp.shapeRule
  cases op <;> infer_instance

/-- The operations whose case of `check_weights` does not look at the output shape.  For `ADD`,
`MUL`, `SUB` and `REAL_DIV` the operands are compared with each other, by `check_binary_shapes`,
but not with the result. -/
def LibaneOp.outputUnchecked : LibaneOp → Bool
  | .Gelu | .Softmax | .AvgPool | .MaxPool | .Neg | .Sinh | .Cosh | .Tan | .Asin | .Acos | .Silu
  | .Sqrt | .Log | .Rsqrt | .Cast | .Relu | .Tanh | .Sigmoid | .Hardswish | .LeakyRelu | .Elu
  | .Rmsnorm | .LayerNorm | .Layernorm | .PwlActivation
  | .Add | .Mul | .Sub | .RealDiv | .Mod | .LogicalAnd | .LogicalOr | .LogicalXor
  | .Matmul | .Transpose | .PixelShuffle => true
  | _ => false

namespace AneGraph

/-- The shape of a tensor of the graph. -/
def shapeOf (g : AneGraph) (id : ℕ) : TensorShape := (g.tensors[id]?.map (·.shape)).getD {}

/-- A node's declared output shape is the one its operation yields on its operands. -/
def ObeysShapeRule (g : AneGraph) (n : GraphNode) : Prop :=
  n.op.shapeRule n.weights (n.inputs.map g.shapeOf) (g.shapeOf n.output)

instance (g : AneGraph) (n : GraphNode) : Decidable (g.ObeysShapeRule n) := by
  unfold ObeysShapeRule; infer_instance

lemma shapeOf_eq {g : AneGraph} {id : ℕ} {t : GraphTensor} (h : g.tensor id = .ok t) :
    g.shapeOf id = t.shape := by
  rw [shapeOf, tensor_eq_ok_iff.mp h]
  rfl

lemma Wf.shapeOf_valid {g : AneGraph} (hg : g.Wf) {id : ℕ} (h : id < g.tensors.length) :
    (g.shapeOf id).Valid := by
  obtain ⟨t, ht, -, hv⟩ := hg.tensor_ok h
  rw [shapeOf_eq ht]
  exact hv

end AneGraph

/-! ## What is enforced -/

/-- **The checked operations.**  In an accepted graph a node obeys its shape rule unless the
operation is one of the unchecked ones. -/
theorem AcceptedGraph.shapeRule_of_accepted (G : AcceptedGraph) {n : GraphNode}
    (hn : n ∈ G.graph.nodes) (hop : n.op.outputUnchecked = false) : G.graph.ObeysShapeRule n := by
  obtain ⟨t, ht, h⟩ := G.opErrors_eq_nil hn
  have hvalid : t.shape.Valid := by
    rw [← AneGraph.shapeOf_eq ht]
    exact G.wf.shapeOf_valid (G.wf.output_lt n hn)
  have hone : ∀ {x a}, n.inputs = [x] → G.graph.tensor x = .ok a →
      n.inputs.map G.graph.shapeOf = [a.shape] := by
    intro x a hx ha
    rw [hx, List.map_singleton, AneGraph.shapeOf_eq ha]
  have htwo : ∀ {x y a b}, n.inputs = [x, y] → G.graph.tensor x = .ok a →
      G.graph.tensor y = .ok b → n.inputs.map G.graph.shapeOf = [a.shape, b.shape] := by
    intro x y a b hxy ha hb
    rw [hxy, List.map_cons, List.map_singleton, AneGraph.shapeOf_eq ha, AneGraph.shapeOf_eq hb]
  have hin : ∀ {x a}, x ∈ n.inputs → G.graph.tensor x = .ok a → a.shape.Valid := by
    intro x a hx ha
    rw [← AneGraph.shapeOf_eq ha]
    exact G.wf.shapeOf_valid (G.wf.input_lt hn hx)
  have hmk : ∀ {s : TensorShape} {c q : ℤ}, s.Valid → s.channels = c → s.seq = q →
      s = ⟨1, c, 1, q⟩ := by
    rintro s c q hs rfl rfl
    exact hs.eq_mk
  unfold AneGraph.ObeysShapeRule
  rw [AneGraph.shapeOf_eq ht]
  cases hcase : n.op <;> simp only [hcase, LibaneOp.outputUnchecked, opErrors, LibaneOp.shapeRule,
    Except.ok.injEq, List.cons_ne_self, Bool.true_eq_false] at h hop ⊢
  case ReduceProd =>
    obtain ⟨x, a, hx, ha, -, hc, hs⟩ := reduceProdErrors_eq_nil_iff.mp h
    exact ⟨a.shape, by simp [hone hx ha], hone hx ha, hmk hvalid hc hs⟩
  case ReduceSum | ReduceMean | ReduceMax =>
    obtain ⟨x, a, hx, ha, -, hc, hs⟩ := reduceErrors_eq_nil_iff.mp h
    exact ⟨a.shape, by simp [hone hx ha], hone hx ha, hmk hvalid hc hs⟩
  case Reshape =>
    obtain ⟨x, a, hx, ha, -, hnum⟩ := reshapeErrors_eq_nil_iff.mp h
    exact ⟨a.shape, by simp [hone hx ha], hone hx ha, hnum⟩
  case SliceByIndex =>
    obtain ⟨x, a, hx, ha, -, hle⟩ := sliceByIndexErrors_eq_nil_iff.mp h
    exact ⟨a.shape, by simp [hone hx ha], hone hx ha, hle⟩
  case Concat =>
    obtain ⟨x, y, a, b, hxy, ha, hb, -, hab, hs, hc⟩ := concatErrors_eq_nil_iff.mp h
    exact ⟨a.shape, by simp [htwo hxy ha hb], b.shape, by simp [htwo hxy ha hb],
      htwo hxy ha hb, hab, hmk hvalid hc hs⟩
  case Scatter | ScatterNd | ScatterAlongAxis =>
    obtain ⟨x, y, a, b, hxy, ha, hb, -, hab, hao, -⟩ := scatterErrors_eq_nil_iff.mp h
    rw [htwo hxy ha hb, ← hab, hao]
  case Gather =>
    rcases gatherErrors_eq_nil_iff.mp h with ⟨x, a, hx, ha, -, hao, -⟩ |
      ⟨x, y, a, b, hxy, ha, hb, -, hab, hao⟩
    · left
      rw [hone hx ha, hao]
    · right
      rw [htwo hxy ha hb, ← hab, hao]
  case Select =>
    obtain ⟨c, x, y, tc, tx, ty, hcxy, hc, hx, hy, -, hcx, hxy, hox⟩ :=
      selectErrors_eq_nil_iff.mp h
    have hxv := hin (by rw [hcxy]; simp) hx
    have h1 : tc.shape = tx.shape := (hin (by rw [hcxy]; simp) hc).ext hxv hcx.1 hcx.2
    have h2 : tx.shape = ty.shape := hxv.ext (hin (by rw [hcxy]; simp) hy) hxy.1 hxy.2
    have h3 : t.shape = tx.shape := hvalid.ext hxv hox.1 hox.2
    simp only [hcxy, List.map_cons, List.map_nil, AneGraph.shapeOf_eq hc, AneGraph.shapeOf_eq hx,
      AneGraph.shapeOf_eq hy, ← h2, h1, h3]

/-! ## What is not -/

/-- Operands for a node that is to break its rule. -/
def misfitInputs : LibaneOp → List ℕ
  | .Add | .Mul | .Sub | .RealDiv | .Mod | .LogicalAnd | .LogicalOr | .LogicalXor => [0, 1]
  | _ => [0]

/-- Weights of the size the validator asks for when one channel goes in and one comes out. -/
def misfitWeights : LibaneOp → List UInt8
  | .Matmul | .Rmsnorm => [0, 0x3C]
  | .LayerNorm | .Layernorm => [0, 0x3C, 0, 0]
  | .PixelShuffle => [1, 0, 0, 0]
  | .PwlActivation => List.replicate 16 0
  | _ => []

/-- One operation on inputs of shape `[1, 1, 1, 16]`, declared to yield `[1, 1, 1, 32]`. -/
def misfit (op : LibaneOp) : AneGraph :=
  AneGraph.build [.AddInput "x" ⟨1, 1, 1, 16⟩, .AddInput "y" ⟨1, 1, 1, 16⟩,
    .AddOp op (misfitInputs op) ⟨1, 1, 1, 32⟩ (misfitWeights op), .MarkOutput 2 ""]

/-- The validator accepts the misfit of every unchecked operation. -/
lemma validate_misfit {op : LibaneOp} (hop : op.outputUnchecked = true) :
    validate (misfit op) = .ok [] := by
  cases op <;> first | decide | (simp only [LibaneOp.outputUnchecked, Bool.false_eq_true] at hop)

/-- Every misfit breaks the rule of its operation. -/
lemma misfit_breaks {op : LibaneOp} (hop : op.outputUnchecked = true) :
    ∃ n ∈ (misfit op).nodes, n.op = op ∧ ¬ (misfit op).ObeysShapeRule n := by
  cases op <;> first | decide | (simp only [LibaneOp.outputUnchecked, Bool.false_eq_true] at hop)

/-- **Shape soundness, exactly.**  Acceptance implies that the nodes of an operation obey its
shape rule for those operations, and only those, whose output shape the validator looks at. -/
theorem shape_soundness_iff (op : LibaneOp) :
    (∀ g, Built g → validate g = .ok [] → ∀ n ∈ g.nodes, n.op = op → g.ObeysShapeRule n) ↔
      op.outputUnchecked = false := by
  constructor
  · intro h
    by_contra hop
    rw [Bool.not_eq_false] at hop
    obtain ⟨n, hn, hnop, hbreaks⟩ := misfit_breaks hop
    exact hbreaks (h _ ⟨_, rfl⟩ (validate_misfit hop) n hn hnop)
  · intro hop g hg hv n hn hnop
    exact AcceptedGraph.shapeRule_of_accepted ⟨g, hg, hv⟩ hn (hnop ▸ hop)

/-- A `RELU` that doubles the sequence length passes validation. -/
theorem relu_misfit_accepted : Built (misfit .Relu) ∧ validate (misfit .Relu) = .ok [] ∧
    ∃ n ∈ (misfit .Relu).nodes, ¬ (misfit .Relu).ObeysShapeRule n :=
  ⟨⟨_, rfl⟩, by decide, by decide⟩

end Libane
