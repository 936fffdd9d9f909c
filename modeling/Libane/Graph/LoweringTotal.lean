import Libane.Graph.Lowering

/-!
# When the lowering returns

The validator and the emitters check shapes independently.  `Lowerable` is what the lowering of a
node needs that acceptance of its graph does not already give.

* `nodeToFragment_ok` — a lowerable node of an accepted graph has a fragment, of the shape
  `fragmentShape`.
* `lowerable_of_ok` — nothing else has one.
* `lowering_keeps_shape_iff` — for the operations whose output shape the validator checks, the
  fragment has that shape, except for `CONCAT`.
-/

namespace Libane

open GraphValidator MilBuilder

namespace MilBackend

variable {F : Type} [MilFloat F]

/-! ## The conditions -/

/-- What the lowering of a node needs beyond acceptance. -/
def Lowerable (g : AneGraph) (n : GraphNode) : Prop :=
  let inS := g.shapeOf (n.inputs.headD kInvalidTensorId)
  let outS := g.shapeOf n.output
  match n.op with
  | .Cast => False
  | .Transpose => inS.channels % 16 = 0 ∧ inS.seq ≤ 16384
  | .Concat => inS.channels + outS.channels ≤ 16384
  | .PixelShuffle => outS.channels * int32OfBytes n.weights ≤ 16384 ∧
      inS.seq * int32OfBytes n.weights ≤ 65536
  | .PwlActivation => n.weights.length < 2 ^ 31
  | _ => True

instance (g : AneGraph) (n : GraphNode) : Decidable (Lowerable g n) := by
  unfold Lowerable
  cases n.op <;> infer_instance

/-- The shape of the fragment that a node is lowered to. -/
def fragmentShape (n : GraphNode) (inS outS : TensorShape) : TensorShape :=
  match n.op with
  | .Rmsnorm | .Layernorm | .LayerNorm => shapeOf inS.channels inS.seq
  | .Transpose => shapeOf inS.seq inS.channels
  | .ReduceProd | .ReduceSum | .ReduceMean | .ReduceMax => shapeOf 1 inS.seq
  | .Concat => shapeOf (inS.channels + outS.channels) outS.seq
  | .PixelShuffle => shapeOf outS.channels (inS.seq * int32OfBytes n.weights)
  | _ => shapeOf outS.channels outS.seq

/-! ## Returning -/

lemma valid_shapeOf {s t : TensorShape} (hs : s.Valid) (ht : t.Valid) :
    (shapeOf s.channels t.seq).Valid :=
  TensorShape.valid_mk hs.channels_pos hs.channels_le ht.seq_pos ht.seq_dvd ht.seq_le

lemma valid_shapeOf_one {s : TensorShape} (hs : s.Valid) : (shapeOf 1 s.seq).Valid :=
  TensorShape.valid_mk (by norm_num) (by norm_num) hs.seq_pos hs.seq_dvd hs.seq_le

omit [MilFloat F] in
lemma checked_ok {shapes : List TensorShape} {f : MilFragment F} (h : ∀ s ∈ shapes, s.Valid) :
    checked shapes f = .ok f :=
  checked_eq_ok_iff.mpr ⟨h, rfl⟩

/-- The operands of a node of an accepted graph can be looked up. -/
lemma operandVar_ok {n : GraphNode} {k : ℕ} (h : k < n.inputs.length) :
    ∃ v, operandVar n k = .ok v := by
  rw [operandVar, List.getElem?_eq_getElem h]
  exact ⟨_, rfl⟩

omit [MilFloat F] in
/-- Reading one side operand and emitting. -/
lemma ok_of_side {n : GraphNode} {emit : String → Outcome (MilFragment F)} {s : TensorShape}
    (h : 1 < n.inputs.length) (hemit : ∀ side, ∃ f, emit side = .ok f ∧ f.outputShape = s) :
    ∃ f, (operandVar n 1 >>= emit) = .ok f ∧ f.outputShape = s := by
  obtain ⟨side, hside⟩ := operandVar_ok h
  obtain ⟨f, hf, hs⟩ := hemit side
  exact ⟨f, bind_eq_ok.mpr ⟨side, hside, hf⟩, hs⟩

/-- The weight array of a `PWL_ACTIVATION` is read within its bounds when its size fits an
`int`. -/
lemma pwl_bounds {w : List UInt8} (h4 : w.length % 4 = 0) (hcount : 4 ≤ pwlFloatCount w) :
    4 * pwlFloatCount w < w.length ↔ ¬ w.length < 2 ^ 31 := by
  have hpos : 0 ≤ toInt32 w.length := by
    by_contra hneg
    have h : (-(toInt32 w.length)).tdiv 4 = -pwlFloatCount w := Int.neg_tdiv _ _
    have := Int.tdiv_nonneg (a := -(toInt32 w.length)) (b := 4) (by omega) (by omega)
    omega
  have hdiv : pwlFloatCount w = toInt32 w.length / 4 := Int.tdiv_eq_ediv_of_nonneg hpos
  rw [hdiv]
  unfold toInt32 at *
  rw [Int.bmod_def] at *
  split_ifs at * <;> omega

/-- Enough samples come out of a weight array that the validator accepts. -/
lemma floatsOf_split (w : List UInt8) {count : ℕ} (h : 4 ≤ count) :
    ∃ (xMin xMax : F) (samples : List F), floatsOf w count = xMin :: xMax :: samples ∧
      2 ≤ samples.length := by
  have hlen : (floatsOf w count : List F).length = count := by simp [floatsOf]
  match floatsOf w count, hlen with
  | [], hlen => simp at hlen; omega
  | [_], hlen => simp at hlen; omega
  | xMin :: xMax :: samples, hlen =>
      refine ⟨xMin, xMax, samples, rfl, ?_⟩
      simp only [List.length_cons] at hlen
      omega

/-- `PWL_ACTIVATION` is lowered to its declared shape. -/
lemma pwlFragment_ok {n : GraphNode} {outS : TensorShape} {inVar outVar : String}
    (hout : (shapeOf outS.channels outS.seq).Valid) (h4 : n.weights.length % 4 = 0)
    (hcount : 4 ≤ pwlFloatCount n.weights) (hlen : n.weights.length < 2 ^ 31) :
    ∃ f : MilFragment F, pwlFragment n outS inVar outVar = .ok f ∧
      f.outputShape = shapeOf outS.channels outS.seq := by
  obtain ⟨xMin, xMax, samples, hfloats, hsamples⟩ :=
    floatsOf_split (F := F) n.weights (show 4 ≤ (pwlFloatCount n.weights).toNat by omega)
  have hbounds := mt (pwl_bounds h4 hcount).mp (not_not.mpr hlen)
  simp only [pwlFragment]
  rw [if_neg (by omega), if_neg hbounds, hfloats]
  simp only [pwlActivationFragment]
  rw [if_neg (by omega)]
  exact ⟨_, checked_ok (by simpa using hout), rfl⟩

section Node

variable (G : AcceptedGraph) {n : GraphNode} {inVar outVar : String}

/-- The tensors that a lowering starts from. -/
lemma exists_tensors (hn : n ∈ G.graph.nodes) : ∃ inT outT,
    G.graph.tensor (n.inputs.headD kInvalidTensorId) = .ok inT ∧
      G.graph.tensor n.output = .ok outT ∧ inT.shape.Valid ∧ outT.shape.Valid := by
  obtain ⟨x, rest, hx⟩ := List.exists_cons_of_ne_nil (G.inputs_ne_nil hn)
  obtain ⟨inT, hin, -, hinv⟩ := G.wf.tensor_ok (G.wf.input_lt hn (i := x) (by rw [hx]; simp))
  obtain ⟨outT, hout, -, houtv⟩ := G.wf.tensor_ok (G.wf.output_lt n hn)
  exact ⟨inT, outT, by rw [hx]; exact hin, hout, hinv, houtv⟩

/-- **A lowerable node is lowered.** -/
theorem nodeToFragment_ok (inVar outVar : String) (hn : n ∈ G.graph.nodes)
    (hl : Lowerable G.graph n) :
    ∃ f : MilFragment F, nodeToFragment G.graph n inVar outVar = .ok f ∧
      f.outputShape = fragmentShape n (G.graph.shapeOf (n.inputs.headD kInvalidTensorId))
        (G.graph.shapeOf n.output) := by
  obtain ⟨inT, outT, hin, hout, hinv, houtv⟩ := exists_tensors G hn
  obtain ⟨outT', hout', herr⟩ := G.opErrors_eq_nil hn
  obtain rfl : outT = outT' := Except.ok.inj (hout.symm.trans hout')
  have harity := G.arity hn
  have hi : G.graph.shapeOf (n.inputs.headD kInvalidTensorId) = inT.shape := AneGraph.shapeOf_eq hin
  have ho : G.graph.shapeOf n.output = outT.shape := AneGraph.shapeOf_eq hout
  have hii := valid_shapeOf hinv hinv
  have hoo := valid_shapeOf houtv houtv
  have hio := valid_shapeOf hinv houtv
  have h1i := valid_shapeOf_one hinv
  unfold Lowerable at hl
  unfold nodeToFragment
  rw [hin, ok_bind, hout, ok_bind, hi, ho]
  rw [hi, ho] at hl
  cases hop : n.op <;> simp only [hop, opErrors, Except.ok.injEq, List.cons_ne_self,
    binaryErrors_eq_nil_iff, pwlActivationErrors_eq_nil_iff, fragmentShape] at hl herr ⊢
  case Matmul => exact ⟨_, checked_ok (by simp [hio, hoo]), rfl⟩
  case Rmsnorm | Layernorm | LayerNorm => exact ⟨_, checked_ok (by simpa using hii), rfl⟩
  case Gelu | Silu | Softmax | AvgPool | MaxPool | Neg | Sinh | Cosh | Tan | Asin | Acos | Sqrt
      | Log | Rsqrt | Relu | Tanh | Sigmoid | Hardswish | LeakyRelu | Elu =>
    exact ⟨_, checked_ok (by simpa using hoo), rfl⟩
  case Add | Mul | Sub | RealDiv | LogicalAnd | LogicalOr | LogicalXor | Mod =>
    exact ok_of_side (by omega) fun side => ⟨_, checked_ok (by simpa using hoo), rfl⟩
  case Transpose =>
    have hswap : (shapeOf inT.shape.seq inT.shape.channels).Valid :=
      TensorShape.valid_mk hinv.seq_pos hl.2 hinv.channels_pos hl.1
        (by have := hinv.channels_le; omega)
    exact ⟨_, checked_ok (by simp [hii, hswap]), rfl⟩
  case Reshape =>
    obtain ⟨x, t, hx, ht, -, hnum⟩ := reshapeErrors_eq_nil_iff.mp herr
    obtain rfl : inT = t := Except.ok.inj (hin.symm.trans (by rw [hx]; exact ht))
    have hnum' : (shapeOf inT.shape.channels inT.shape.seq).numel =
        (shapeOf outT.shape.channels outT.shape.seq).numel := by
      rw [shapeOf, shapeOf, ← hinv.eq_mk, ← houtv.eq_mk, hnum]
    simp only [reshapeFragment, TensorShape.validate_eq_ok_iff.mpr hii,
      TensorShape.validate_eq_ok_iff.mpr hoo, ok_bind, if_neg (not_not.mpr hnum')]
    exact ⟨_, checked_ok (by simp), rfl⟩
  case ReduceProd => exact ⟨_, checked_ok (by simp [hii, h1i]), rfl⟩
  case ReduceSum | ReduceMean | ReduceMax => exact ⟨_, checked_ok (by simpa using h1i), rfl⟩
  case Scatter | ScatterNd | ScatterAlongAxis =>
    obtain ⟨x, y, a, b, hxy, -⟩ := scatterErrors_eq_nil_iff.mp herr
    exact ok_of_side (by simp [hxy]) fun side => ⟨_, checked_ok (by simpa using hoo), rfl⟩
  case Gather =>
    split_ifs with hlen
    · exact ⟨_, checked_ok (by simpa using hoo), rfl⟩
    · exact ok_of_side (by omega) fun side => ⟨_, checked_ok (by simpa using hoo), rfl⟩
  case Select =>
    obtain ⟨c, x, y, tc, tx, ty, hcxy, -⟩ := selectErrors_eq_nil_iff.mp herr
    obtain ⟨v, hv⟩ := operandVar_ok (n := n) (k := 1) (by simp [hcxy])
    obtain ⟨w, hw⟩ := operandVar_ok (n := n) (k := 2) (by simp [hcxy])
    simp only [hv, hw, ok_bind]
    exact ⟨_, checked_ok (by simpa using hoo), rfl⟩
  case Concat =>
    obtain ⟨x, y, a, b, hxy, -⟩ := concatErrors_eq_nil_iff.mp herr
    have hsum : (shapeOf (inT.shape.channels + outT.shape.channels) outT.shape.seq).Valid :=
      TensorShape.valid_mk (add_pos hinv.channels_pos houtv.channels_pos) hl houtv.seq_pos
        houtv.seq_dvd houtv.seq_le
    exact ok_of_side (by simp [hxy]) fun side => ⟨_, checked_ok (by simpa using hsum), rfl⟩
  case SliceByIndex =>
    obtain ⟨x, t, hx, ht, -, hle⟩ := sliceByIndexErrors_eq_nil_iff.mp herr
    obtain rfl : inT = t := Except.ok.inj (hin.symm.trans (by rw [hx]; exact ht))
    simp only [sliceByIndexFragment, TensorShape.validate_eq_ok_iff.mpr hoo, ok_bind]
    rw [if_neg (by omega)]
    exact ⟨_, checked_ok (by simp), rfl⟩
  case PixelShuffle =>
    obtain ⟨x, t, -, -, -, hpos, -⟩ := pixelShuffleErrors_eq_nil_iff.mp herr
    have hwide : (shapeOf (outT.shape.channels * int32OfBytes n.weights) inT.shape.seq).Valid :=
      TensorShape.valid_mk (mul_pos houtv.channels_pos hpos) hl.1 hinv.seq_pos hinv.seq_dvd
        hinv.seq_le
    have hlong : (shapeOf outT.shape.channels (inT.shape.seq * int32OfBytes n.weights)).Valid :=
      TensorShape.valid_mk houtv.channels_pos houtv.channels_le (mul_pos hinv.seq_pos hpos)
        (by rw [Int.mul_emod, hinv.seq_dvd]; simp) hl.2
    simp only [pixelShuffleFragment]
    rw [if_neg (by omega)]
    exact ⟨_, checked_ok (by simp [hwide, hlong]), rfl⟩
  case PwlActivation => exact pwlFragment_ok hoo herr.2.2.1 herr.2.2.2 hl

/-- **Nothing else is lowered.** -/
theorem lowerable_of_ok (hn : n ∈ G.graph.nodes) {f : MilFragment F}
    (h : nodeToFragment G.graph n inVar outVar = .ok f) : Lowerable G.graph n := by
  obtain ⟨inT, outT, hin, hout, hinv, houtv⟩ := exists_tensors G hn
  obtain ⟨outT', hout', herr⟩ := G.opErrors_eq_nil hn
  obtain rfl : outT = outT' := Except.ok.inj (hout.symm.trans hout')
  unfold nodeToFragment at h
  rw [hin, ok_bind, hout, ok_bind] at h
  unfold Lowerable
  rw [AneGraph.shapeOf_eq hin, AneGraph.shapeOf_eq hout]
  cases hop : n.op <;> simp only [hop, opErrors, Except.ok.injEq,
    pwlActivationErrors_eq_nil_iff] at h herr ⊢
  case Transpose =>
    obtain ⟨hvalid, -⟩ := checked_eq_ok_iff.mp h
    have hswap := hvalid (shapeOf inT.shape.seq inT.shape.channels) (by simp)
    exact ⟨hswap.seq_dvd, hswap.channels_le⟩
  case Concat =>
    obtain ⟨side, -, h⟩ := bind_eq_ok.mp h
    obtain ⟨hvalid, -⟩ := checked_eq_ok_iff.mp h
    exact (hvalid _ List.mem_cons_self).channels_le
  case PixelShuffle =>
    unfold pixelShuffleFragment at h
    split_ifs at h
    obtain ⟨hvalid, -⟩ := checked_eq_ok_iff.mp h
    exact ⟨(hvalid (shapeOf _ inT.shape.seq) (by simp)).channels_le,
      (hvalid (shapeOf outT.shape.channels _) (by simp)).seq_le⟩
  case PwlActivation =>
    by_contra hlen
    have hbounds := (pwl_bounds herr.2.2.1 herr.2.2.2).mpr hlen
    have hcount := herr.2.2.2
    simp only [pwlFragment] at h
    rw [if_neg (by omega), if_pos hbounds] at h
    cases h
  case Cast => cases h

/-! ## Shapes -/

/-- The node is lowered, and its fragment has the shape that the graph declares: as its output
shape, and as the type of its result. -/
def KeepsShape (F : Type) [MilFloat F] (g : AneGraph) (n : GraphNode) : Prop :=
  ∀ inVar outVar, ∃ f : MilFragment F, nodeToFragment g n inVar outVar = .ok f ∧
    f.outputShape = g.shapeOf n.output ∧
    ∃ result, f.body.getLast? = some result ∧ result.var = outVar ∧
      result.type.dims = (g.shapeOf n.output).dims

/-- A lowered node keeps its shape when its fragment is given the right one. -/
lemma keepsShape_iff (hn : n ∈ G.graph.nodes) (hl : Lowerable G.graph n) :
    KeepsShape F G.graph n ↔
      fragmentShape n (G.graph.shapeOf (n.inputs.headD kInvalidTensorId))
        (G.graph.shapeOf n.output) = G.graph.shapeOf n.output := by
  constructor
  · intro h
    obtain ⟨f, hf, hs, -⟩ := h "" ""
    obtain ⟨f', hf', hs'⟩ := nodeToFragment_ok (F := F) G "" "" hn hl
    obtain rfl : f = f' := Except.ok.inj (hf.symm.trans hf')
    exact hs'.symm.trans hs
  · intro h inVar outVar
    obtain ⟨f, hf, hs⟩ := nodeToFragment_ok (F := F) G inVar outVar hn hl
    obtain ⟨inT, outT, -, -, hemit⟩ := nodeToFragment_emitted hf
    obtain ⟨result, hlast, hdims⟩ := Option.map_eq_some_iff.mp hemit.declares
    obtain ⟨suffixes, -, hvars⟩ := hemit.vars
    refine ⟨f, hf, hs.trans h, result, hlast, ?_, ?_⟩
    · have hvar := congrArg List.getLast? hvars
      rw [List.getLast?_map, hlast, List.getLast?_concat] at hvar
      exact Option.some.inj hvar
    · rw [hdims, hs, h]

/-- **Lowering keeps the checked shapes, except that of `CONCAT`.**  Its emitter expects the
channels of both operands and is given those of the first operand and of the result. -/
theorem lowering_keeps_shape_iff (hn : n ∈ G.graph.nodes) (hop : n.op.outputUnchecked = false) :
    KeepsShape F G.graph n ↔ n.op ≠ .Concat := by
  obtain ⟨inT, outT, hin, hout, hinv, houtv⟩ := exists_tensors G hn
  have hi := AneGraph.shapeOf_eq hin
  have ho := AneGraph.shapeOf_eq hout
  constructor
  · intro h hconcat
    obtain ⟨f, hf, -⟩ := h "" ""
    have hshape := (keepsShape_iff G hn (lowerable_of_ok G hn hf)).mp h
    have hchannels := congrArg TensorShape.channels hshape
    rw [fragmentShape, hconcat, hi, ho] at hchannels
    have := hinv.channels_pos
    simp only [shapeOf] at hchannels
    omega
  · intro hconcat
    have hrule := G.shapeRule_of_accepted hn hop
    have hl : Lowerable G.graph n := by
      unfold Lowerable
      cases hcase : n.op <;> simp only [hcase, LibaneOp.outputUnchecked, reduceCtorEq,
        not_true, ne_eq, Bool.true_eq_false] at hop hconcat ⊢
    have hself : shapeOf outT.shape.channels outT.shape.seq = outT.shape := houtv.eq_mk.symm
    have hhead : ∀ a, n.inputs.map G.graph.shapeOf = [a] → a = inT.shape := by
      intro a ha
      obtain ⟨x, hx, rfl⟩ := List.map_eq_singleton_iff.mp ha
      rw [← hi, hx]
      rfl
    refine (keepsShape_iff G hn hl).mpr ?_
    unfold AneGraph.ObeysShapeRule at hrule
    rw [ho] at hrule
    rw [hi, ho]
    cases hcase : n.op <;> simp only [hcase, LibaneOp.outputUnchecked, LibaneOp.shapeRule,
      fragmentShape, ne_eq, not_true, Bool.true_eq_false] at hop hrule hconcat ⊢
    case ReduceProd | ReduceSum | ReduceMean | ReduceMax =>
      obtain ⟨a, -, hins, hout'⟩ := hrule
      rw [hhead a hins] at hout'
      exact hout'.symm
    all_goals exact hself

end Node

/-- Two inputs of one channel each, concatenated. -/
def concatenation : AcceptedGraph where
  graph := AneGraph.build [.AddInput "x" ⟨1, 1, 1, 16⟩, .AddInput "y" ⟨1, 1, 1, 16⟩,
    .AddOp .Concat [0, 1] ⟨1, 2, 1, 16⟩ [], .AddOp .ReduceSum [2] ⟨1, 1, 1, 16⟩ [],
    .MarkOutput 3 ""]
  built := ⟨_, rfl⟩
  accepted := by decide

/-- The reduction keeps its shape. -/
theorem lowering_keeps_shape_iff_reduce : ∃ n ∈ concatenation.graph.nodes,
    n.op = .ReduceSum ∧ KeepsShape Unit concatenation.graph n :=
  ⟨_, List.mem_cons_of_mem _ List.mem_cons_self, rfl,
    (lowering_keeps_shape_iff concatenation (List.mem_cons_of_mem _ List.mem_cons_self) rfl).mpr
      (by decide)⟩

/-- The fragment of the concatenation declares three channels instead of two. -/
theorem concat_declares_three_channels : ∃ n ∈ concatenation.graph.nodes,
    n.op = .Concat ∧ concatenation.graph.shapeOf n.output = ⟨1, 2, 1, 16⟩ ∧
      ¬ KeepsShape Unit concatenation.graph n ∧
      ∃ f : MilFragment Unit, nodeToFragment concatenation.graph n "t0" "t2" = .ok f ∧
        f.outputShape = ⟨1, 3, 1, 16⟩ ∧
        f.body.getLast?.map (·.type) = some (tensorType ⟨1, 3, 1, 16⟩) := by
  refine ⟨_, List.mem_cons_self, rfl, rfl, fun h => ?_, _, rfl, rfl, rfl⟩
  obtain ⟨f, hf, hshape, -⟩ := h "t0" "t2"
  have hdeclared : f.outputShape = ⟨1, 3, 1, 16⟩ := by
    cases hf
    rfl
  rw [hdeclared] at hshape
  exact absurd hshape (by decide)

end MilBackend

end Libane
