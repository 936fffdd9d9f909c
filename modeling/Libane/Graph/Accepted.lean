import Libane.Graph.Validator

/-!
# What acceptance by the validator means

`AcceptedGraph` bundles a graph object, the fact that builder calls made it, and the fact that
`GraphValidator::validate` found nothing to report.  Everything downstream (fusion, lowering,
compilation, execution) is stated about such graphs.

* `*_eq_nil_iff` — for every case of the `switch` in `check_weights`, exactly what it enforces.
* `AcceptedGraph.arity` — every node has between one and three operands.
* `validate_error_iff` — on a graph object, validation itself fails only through the remainder
  by zero of `PIXEL_SHUFFLE`; `validate_error_undefined` — never by an exception.
-/

namespace Libane

open GraphValidator

/-- Some sequence of builder calls produced the graph. -/
def Built (g : AneGraph) : Prop := ∃ calls, AneGraph.build calls = g

lemma Built.wf {g : AneGraph} (h : Built g) : g.Wf := by
  obtain ⟨calls, rfl⟩ := h
  exact AneGraph.wf_build calls

/-- A graph object that the validator accepts. -/
structure AcceptedGraph where
  graph : AneGraph
  built : Built graph
  accepted : validate graph = .ok []

/-! ## The cases of `check_weights` -/

variable {g : AneGraph} {n : GraphNode} {out : TensorShape}

lemma matmulErrors_eq_nil_iff : matmulErrors g n out = [] ↔
    n.inputs.length = 1 ∧
      n.weights.length = toSizeT (firstChannels g n) * toSizeT out.channels * 2 % 2 ^ 64 := by
  unfold matmulErrors
  split_ifs with h
  · simp [h]
  · simp [not_not.mp h]

lemma rmsnormErrors_eq_nil_iff : rmsnormErrors n out = [] ↔
    n.inputs.length = 1 ∧ n.weights.length = toSizeT out.channels * 2 % 2 ^ 64 := by
  unfold rmsnormErrors
  split_ifs with h
  · simp [h]
  · simp [not_not.mp h]

lemma layernormErrors_eq_nil_iff : layernormErrors n out = [] ↔
    n.inputs.length = 1 ∧ n.weights.length = toSizeT out.channels * 4 % 2 ^ 64 := by
  unfold layernormErrors
  split_ifs with h
  · simp [h]
  · simp [not_not.mp h]

lemma unaryErrors_eq_nil_iff : unaryErrors n = [] ↔ n.weights = [] ∧ n.inputs.length = 1 := by
  simp [unaryErrors, weightFreeError]

lemma binaryErrors_eq_nil_iff : binaryErrors n = [] ↔ n.weights = [] ∧ n.inputs.length = 2 := by
  simp [binaryErrors, weightFreeError]

lemma pwlActivationErrors_eq_nil_iff : pwlActivationErrors n = [] ↔
    n.inputs.length = 1 ∧ 12 ≤ n.weights.length ∧ n.weights.length % 4 = 0 ∧
      4 ≤ pwlFloatCount n.weights := by
  unfold pwlActivationErrors
  split_ifs with h1 h2
  · simp [h1]
  · simp only [false_iff]
    omega
  · simp only [reportIf_eq_nil, not_lt]
    exact ⟨fun h => ⟨by omega, by omega, by omega, h⟩, fun h => h.2.2.2⟩

lemma pixelShuffleErrors_eq_nil_iff : pixelShuffleErrors g n = .ok [] ↔
    ∃ x t, n.inputs = [x] ∧ g.tensor x = .ok t ∧ n.weights.length = 4 ∧
      0 < int32OfBytes n.weights ∧ t.shape.channels.tmod (int32OfBytes n.weights) = 0 := by
  unfold pixelShuffleErrors
  split
  · rename_i x hx
    split_ifs with h4
    · simp [h4]
    · push Not at h4
      constructor
      · intro h
        obtain ⟨t, ht, h⟩ := bind_eq_ok.mp h
        split_ifs at h with h0
        simp only [pure_eq_ok_iff, List.append_eq_nil_iff, reportIf_eq_nil, not_le,
          not_not] at h
        exact ⟨x, t, hx, ht, h4, h.1, h.2⟩
      · rintro ⟨x', t, hx', ht, -, hpos, hmod⟩
        obtain rfl : x = x' := by rw [hx] at hx'; exact List.cons.inj hx' |>.1
        refine bind_eq_ok.mpr ⟨t, ht, ?_⟩
        rw [if_neg (by omega)]
        simp [hpos, hmod]
  · rename_i hne
    simp only [Except.ok.injEq, List.cons_ne_nil, false_iff]
    rintro ⟨x, t, hx, -⟩
    exact hne x hx

lemma oneOperandErrors_eq_nil_iff {wrongArity : List String} (hne : wrongArity ≠ [])
    {errors : TensorShape → List String} :
    oneOperandErrors g n wrongArity errors = .ok [] ↔
      ∃ x t, n.inputs = [x] ∧ g.tensor x = .ok t ∧ errors t.shape = [] := by
  unfold oneOperandErrors
  split
  · rename_i x hx
    rw [bind_eq_ok]
    constructor
    · rintro ⟨t, ht, h⟩
      exact ⟨x, t, hx, ht, pure_eq_ok_iff.mp h⟩
    · rintro ⟨x', t, hx', ht, h⟩
      obtain rfl : x = x' := by rw [hx] at hx'; exact (List.cons.inj hx').1
      exact ⟨t, ht, pure_eq_ok_iff.mpr h⟩
  · rename_i hother
    simp only [Except.ok.injEq, hne, false_iff]
    rintro ⟨x, t, hx, -⟩
    exact hother x hx

lemma twoOperandErrors_eq_nil_iff {wrongArity : List String} (hne : wrongArity ≠ [])
    {errors : TensorShape → TensorShape → List String} :
    twoOperandErrors g n wrongArity errors = .ok [] ↔
      ∃ x y a b, n.inputs = [x, y] ∧ g.tensor x = .ok a ∧ g.tensor y = .ok b ∧
        errors a.shape b.shape = [] := by
  unfold twoOperandErrors
  split
  · rename_i x y hxy
    rw [bind_eq_ok]
    constructor
    · rintro ⟨a, ha, h⟩
      obtain ⟨b, hb, h⟩ := bind_eq_ok.mp h
      exact ⟨x, y, a, b, hxy, ha, hb, pure_eq_ok_iff.mp h⟩
    · rintro ⟨x', y', a, b, hxy', ha, hb, h⟩
      rw [hxy] at hxy'
      obtain ⟨rfl, hy⟩ := List.cons.inj hxy'
      obtain rfl := (List.cons.inj hy).1
      exact ⟨a, ha, bind_eq_ok.mpr ⟨b, hb, pure_eq_ok_iff.mpr h⟩⟩
  · rename_i hother
    simp only [Except.ok.injEq, hne, false_iff]
    rintro ⟨x, y, a, b, hxy, -⟩
    exact hother x y hxy

lemma reduceProdErrors_eq_nil_iff : reduceProdErrors g n out = .ok [] ↔
    ∃ x t, n.inputs = [x] ∧ g.tensor x = .ok t ∧ n.weights = [] ∧
      out.channels = 1 ∧ out.seq = t.shape.seq := by
  rw [reduceProdErrors, oneOperandErrors_eq_nil_iff (by simp)]
  simp [weightFreeError]

lemma reduceErrors_eq_nil_iff : reduceErrors g n out = .ok [] ↔
    ∃ x t, n.inputs = [x] ∧ g.tensor x = .ok t ∧ n.weights = [] ∧
      out.channels = 1 ∧ out.seq = t.shape.seq := by
  rw [reduceErrors, oneOperandErrors_eq_nil_iff (by simp)]
  simp [weightFreeError]

lemma reshapeErrors_eq_nil_iff : reshapeErrors g n out = .ok [] ↔
    ∃ x t, n.inputs = [x] ∧ g.tensor x = .ok t ∧ n.weights = [] ∧
      t.shape.numel = out.numel := by
  rw [reshapeErrors, oneOperandErrors_eq_nil_iff (by simp)]
  simp [weightFreeError]

lemma sliceByIndexErrors_eq_nil_iff : sliceByIndexErrors g n out = .ok [] ↔
    ∃ x t, n.inputs = [x] ∧ g.tensor x = .ok t ∧ n.weights = [] ∧
      out.channels ≤ t.shape.channels ∧ out.seq ≤ t.shape.seq := by
  rw [sliceByIndexErrors, oneOperandErrors_eq_nil_iff (by simp)]
  simp [weightFreeError]

lemma concatErrors_eq_nil_iff : concatErrors g n out = .ok [] ↔
    ∃ x y a b, n.inputs = [x, y] ∧ g.tensor x = .ok a ∧ g.tensor y = .ok b ∧ n.weights = [] ∧
      a.shape.seq = b.shape.seq ∧ out.seq = a.shape.seq ∧
      out.channels = a.shape.channels + b.shape.channels := by
  rw [concatErrors, twoOperandErrors_eq_nil_iff (by simp)]
  simp [weightFreeError]

lemma scatterErrors_eq_nil_iff : scatterErrors g n out = .ok [] ↔
    ∃ x y a b, n.inputs = [x, y] ∧ g.tensor x = .ok a ∧ g.tensor y = .ok b ∧ n.weights ≠ [] ∧
      a.shape = b.shape ∧ a.shape = out ∧ n.weights.length = out.bytes := by
  unfold scatterErrors
  split_ifs with h
  · simp [h.2]
  · rw [twoOperandErrors_eq_nil_iff (by simp)]
    constructor
    · rintro ⟨x, y, a, b, hxy, ha, hb, herr⟩
      have hw : n.weights ≠ [] := fun hw => h ⟨by rw [hxy]; rfl, hw⟩
      simp only [List.append_eq_nil_iff, reportIf_eq_nil, not_not] at herr
      exact ⟨x, y, a, b, hxy, ha, hb, hw, herr.1.1, herr.1.2, herr.2⟩
    · rintro ⟨x, y, a, b, hxy, ha, hb, -, hab, hao, hlen⟩
      exact ⟨x, y, a, b, hxy, ha, hb, by simp [← hab, hao, hlen]⟩

/-- A static mask has one operand and weights; a dynamic mask has two operands and none. -/
lemma gatherErrors_eq_nil_iff : gatherErrors g n out = .ok [] ↔
    (∃ x t, n.inputs = [x] ∧ g.tensor x = .ok t ∧ n.weights ≠ [] ∧ t.shape = out ∧
      n.weights.length = out.bytes) ∨
    (∃ x m a b, n.inputs = [x, m] ∧ g.tensor x = .ok a ∧ g.tensor m = .ok b ∧ n.weights = [] ∧
      a.shape = b.shape ∧ a.shape = out) := by
  unfold gatherErrors
  split_ifs with h1 hw
  · obtain ⟨x, hx⟩ := List.length_eq_one_iff.mp h1
    simp [hw, hx]
  · obtain ⟨x, hx⟩ := List.length_eq_one_iff.mp h1
    simp only [oneOperandErrors, hx, bind_eq_ok, pure_eq_ok_iff, List.append_eq_nil_iff,
      reportIf_eq_nil, not_not]
    simp [hw]
  · rw [twoOperandErrors_eq_nil_iff (by simp)]
    constructor
    · rintro ⟨x, m, a, b, hxm, ha, hb, herr⟩
      simp only [List.append_eq_nil_iff, reportIf_eq_nil, not_not] at herr
      exact Or.inr ⟨x, m, a, b, hxm, ha, hb, herr.1, herr.2.1, herr.2.2⟩
    · rintro (⟨x, t, hx, -⟩ | ⟨x, m, a, b, hxm, ha, hb, hw, hab, hao⟩)
      · exact absurd (by rw [hx]; rfl) h1
      · exact ⟨x, m, a, b, hxm, ha, hb, by simp [hw, ← hab, hao]⟩

lemma selectErrors_eq_nil_iff : selectErrors g n out = .ok [] ↔
    ∃ c x y tc tx ty, n.inputs = [c, x, y] ∧ g.tensor c = .ok tc ∧ g.tensor x = .ok tx ∧
      g.tensor y = .ok ty ∧ n.weights = [] ∧
      (tc.shape.channels = tx.shape.channels ∧ tc.shape.seq = tx.shape.seq) ∧
      (tx.shape.channels = ty.shape.channels ∧ tx.shape.seq = ty.shape.seq) ∧
      (out.channels = tx.shape.channels ∧ out.seq = tx.shape.seq) := by
  unfold selectErrors
  split
  · rename_i c x y h
    simp only [bind_eq_ok, pure_eq_ok_iff, List.append_eq_nil_iff, reportIf_eq_nil, not_or,
      not_not]
    constructor
    · rintro ⟨tc, hc, tx, hx, ty, hy, ⟨⟨hw, h1⟩, h2⟩, h3⟩
      exact ⟨c, x, y, tc, tx, ty, h, hc, hx, hy, hw, h1, h2, h3⟩
    · rintro ⟨c', x', y', tc, tx, ty, h', hc, hx, hy, hw, h1, h2, h3⟩
      rw [h] at h'
      cases h'
      exact ⟨tc, hc, tx, hx, ty, hy, ⟨⟨hw, h1⟩, h2⟩, h3⟩
  · rename_i hother
    simp only [Except.ok.injEq, List.append_eq_nil_iff, List.cons_ne_self, and_false, false_iff]
    rintro ⟨c, x, y, tc, tx, ty, h, -⟩
    exact hother c x y h

/-! ## The whole verdict -/

lemma nodeErrors_eq_nil_iff : nodeErrors g n = .ok [] ↔
    ∃ t, g.tensor n.output = .ok t ∧ opErrors g n t.shape = .ok [] := by
  simp only [nodeErrors, bind_eq_ok, pure_eq_ok_iff, List.map_eq_nil_iff]
  constructor
  · rintro ⟨t, ht, errs, herr, rfl⟩
    exact ⟨t, ht, herr⟩
  · rintro ⟨t, ht, herr⟩
    exact ⟨t, ht, [], herr, rfl⟩

lemma weightErrors_eq_nil_iff {ns : List GraphNode} : weightErrors g ns = .ok [] ↔
    ∀ n ∈ ns, nodeErrors g n = .ok [] := by
  induction ns with
  | nil => simp [weightErrors]
  | cons m rest ih =>
      simp only [weightErrors, bind_eq_ok, pure_eq_ok_iff, List.append_eq_nil_iff,
        List.forall_mem_cons, ← ih]
      constructor
      · rintro ⟨e₁, h₁, e₂, h₂, rfl, rfl⟩
        exact ⟨h₁, h₂⟩
      · rintro ⟨h₁, h₂⟩
        exact ⟨[], h₁, [], h₂, rfl, rfl⟩

/-- A graph is accepted when every check is silent. -/
lemma validate_eq_nil_iff : validate g = .ok [] ↔
    checkStructure g = [] ∧ checkShapes g = [] ∧ checkEdges g = [] ∧ checkTopo g = [] ∧
      checkReachability g = [] ∧ checkWeights g = .ok [] ∧ checkBinaryShapes g = .ok [] := by
  unfold validate
  split_ifs with h
  · simp [h]
  · simp only [bind_eq_ok, pure_eq_ok_iff, List.append_eq_nil_iff, not_not.mp h, true_and]
    constructor
    · rintro ⟨w, hw, b, hb, ⟨⟨⟨⟨h1, h2⟩, h3⟩, h4⟩, rfl⟩, rfl⟩
      exact ⟨h1, h2, h3, h4, hw, hb⟩
    · rintro ⟨h1, h2, h3, h4, hw, hb⟩
      exact ⟨[], hw, [], hb, ⟨⟨⟨⟨h1, h2⟩, h3⟩, h4⟩, rfl⟩, rfl⟩

namespace AcceptedGraph

variable (G : AcceptedGraph)

lemma wf : G.graph.Wf := G.built.wf

/-- The `switch` of `check_weights` is silent on every node. -/
lemma opErrors_eq_nil {n : GraphNode} (hn : n ∈ G.graph.nodes) :
    ∃ t, G.graph.tensor n.output = .ok t ∧ opErrors G.graph n t.shape = .ok [] := by
  have hw := (validate_eq_nil_iff.mp G.accepted).2.2.2.2.2.1
  exact nodeErrors_eq_nil_iff.mp (weightErrors_eq_nil_iff.mp hw n hn)

lemma graphInputs_ne_nil : G.graph.graphInputs ≠ [] := by
  have h := (validate_eq_nil_iff.mp G.accepted).1
  simp only [checkStructure, List.append_eq_nil_iff, reportIf_eq_nil] at h
  exact h.1

/-- **Arity.**  A node of an accepted graph has one, two or three operands. -/
theorem arity {n : GraphNode} (hn : n ∈ G.graph.nodes) :
    n.inputs.length = 1 ∨ n.inputs.length = 2 ∨ n.inputs.length = 3 := by
  obtain ⟨t, -, h⟩ := G.opErrors_eq_nil hn
  have len1 : ∀ {x}, n.inputs = [x] → n.inputs.length = 1 := fun hx => by rw [hx]; rfl
  have len2 : ∀ {x y}, n.inputs = [x, y] → n.inputs.length = 2 := fun hx => by rw [hx]; rfl
  cases hop : n.op <;> simp only [opErrors, hop, Except.ok.injEq, List.cons_ne_self,
    matmulErrors_eq_nil_iff, rmsnormErrors_eq_nil_iff, layernormErrors_eq_nil_iff,
    unaryErrors_eq_nil_iff, binaryErrors_eq_nil_iff, pwlActivationErrors_eq_nil_iff] at h
  case PixelShuffle =>
    obtain ⟨x, t, hx, -⟩ := pixelShuffleErrors_eq_nil_iff.mp h
    exact Or.inl (len1 hx)
  case ReduceProd =>
    obtain ⟨x, t, hx, -⟩ := reduceProdErrors_eq_nil_iff.mp h
    exact Or.inl (len1 hx)
  case ReduceSum | ReduceMean | ReduceMax =>
    obtain ⟨x, t, hx, -⟩ := reduceErrors_eq_nil_iff.mp h
    exact Or.inl (len1 hx)
  case Reshape =>
    obtain ⟨x, t, hx, -⟩ := reshapeErrors_eq_nil_iff.mp h
    exact Or.inl (len1 hx)
  case SliceByIndex =>
    obtain ⟨x, t, hx, -⟩ := sliceByIndexErrors_eq_nil_iff.mp h
    exact Or.inl (len1 hx)
  case Concat =>
    obtain ⟨x, y, a, b, hxy, -⟩ := concatErrors_eq_nil_iff.mp h
    exact Or.inr (Or.inl (len2 hxy))
  case Scatter | ScatterNd | ScatterAlongAxis =>
    obtain ⟨x, y, a, b, hxy, -⟩ := scatterErrors_eq_nil_iff.mp h
    exact Or.inr (Or.inl (len2 hxy))
  case Gather =>
    rcases gatherErrors_eq_nil_iff.mp h with ⟨x, t, hx, -⟩ | ⟨x, y, a, b, hxy, -⟩
    · exact Or.inl (len1 hx)
    · exact Or.inr (Or.inl (len2 hxy))
  case Select =>
    obtain ⟨c, x, y, tc, tx, ty, hcxy, -⟩ := selectErrors_eq_nil_iff.mp h
    exact Or.inr (Or.inr (by rw [hcxy]; rfl))
  all_goals omega

lemma inputs_ne_nil {n : GraphNode} (hn : n ∈ G.graph.nodes) : n.inputs ≠ [] := by
  intro h
  have := G.arity hn
  rw [h] at this
  simp at this

end AcceptedGraph

/-! ## How validation itself can fail -/

/-- A `PIXEL_SHUFFLE` node that reaches the remainder with a zero factor. -/
def ZeroShuffle (n : GraphNode) : Prop :=
  n.op = .PixelShuffle ∧ n.inputs.length = 1 ∧ n.weights.length = 4 ∧
    int32OfBytes n.weights = 0

instance (n : GraphNode) : Decidable (ZeroShuffle n) := by
  unfold ZeroShuffle; infer_instance

section Totality

variable (hlook : ∀ i ∈ n.inputs, ∃ t, g.tensor i = .ok t)
include hlook

lemma oneOperandErrors_ne_error {wrongArity : List String} {errors : TensorShape → List String}
    {e : Failure} : oneOperandErrors g n wrongArity errors ≠ .error e := by
  unfold oneOperandErrors
  split
  · rename_i x hx
    obtain ⟨t, ht⟩ := hlook x (by rw [hx]; simp)
    simp [ht, bind, Except.bind]
  · simp

lemma twoOperandErrors_ne_error {wrongArity : List String}
    {errors : TensorShape → TensorShape → List String} {e : Failure} :
    twoOperandErrors g n wrongArity errors ≠ .error e := by
  unfold twoOperandErrors
  split
  · rename_i x y hxy
    obtain ⟨a, ha⟩ := hlook x (by rw [hxy]; simp)
    obtain ⟨b, hb⟩ := hlook y (by rw [hxy]; simp)
    simp [ha, hb, bind, Except.bind]
  · simp

lemma scatterErrors_ne_error {e : Failure} : scatterErrors g n out ≠ .error e := by
  unfold scatterErrors
  split_ifs
  · simp
  · exact twoOperandErrors_ne_error hlook

lemma gatherErrors_ne_error {e : Failure} : gatherErrors g n out ≠ .error e := by
  unfold gatherErrors
  split_ifs
  · simp
  · exact oneOperandErrors_ne_error hlook
  · exact twoOperandErrors_ne_error hlook

lemma selectErrors_ne_error {e : Failure} : selectErrors g n out ≠ .error e := by
  unfold selectErrors
  split
  · rename_i c x y h
    obtain ⟨tc, hc⟩ := hlook c (by rw [h]; simp)
    obtain ⟨tx, hx⟩ := hlook x (by rw [h]; simp)
    obtain ⟨ty, hy⟩ := hlook y (by rw [h]; simp)
    simp [hc, hx, hy, bind, Except.bind]
  · simp

lemma pixelShuffleErrors_eq_error_iff : (∃ e, pixelShuffleErrors g n = .error e) ↔
    n.inputs.length = 1 ∧ n.weights.length = 4 ∧ int32OfBytes n.weights = 0 := by
  unfold pixelShuffleErrors
  split
  · rename_i x hx
    obtain ⟨t, ht⟩ := hlook x (by rw [hx]; simp)
    split_ifs with h4
    · simp [h4]
    · simp only [bind_eq_error, ht, Except.ok.injEq, reduceCtorEq, false_or, exists_eq_left']
      split_ifs with h0
      · simp [hx, not_not.mp h4, h0]
      · simp [h0]
  · rename_i hother
    simp only [reduceCtorEq, exists_false, false_iff]
    rintro ⟨h1, -⟩
    obtain ⟨x, hx⟩ := List.length_eq_one_iff.mp h1
    exact hother x hx

/-- The `switch` of `check_weights` gets stuck on exactly one kind of node. -/
lemma opErrors_eq_error_iff : (∃ e, opErrors g n out = .error e) ↔ ZeroShuffle n := by
  cases hop : n.op <;> simp only [opErrors, hop, ZeroShuffle, reduceCtorEq, exists_false,
    false_and, true_and, iff_false, not_exists]
  case PixelShuffle => exact pixelShuffleErrors_eq_error_iff hlook
  case Scatter | ScatterNd | ScatterAlongAxis => exact fun e => scatterErrors_ne_error hlook
  case Gather => exact fun e => gatherErrors_ne_error hlook
  case Select => exact fun e => selectErrors_ne_error hlook
  case Concat => exact fun e => twoOperandErrors_ne_error hlook
  all_goals exact fun e => oneOperandErrors_ne_error hlook

/-- `check_binary_shapes` always resolves its operands. -/
lemma binaryShapeErrors_ne_error {e : Failure} : binaryShapeErrors g n ≠ .error e := by
  have hfirst : ∀ x y rest, n.inputs = x :: y :: rest →
      (g.tensor x >>= fun ref => (pure (operandShapeErrors g n ref.shape 1 (y :: rest)) :
        Outcome (List String))) ≠ .error e := by
    intro x y rest h
    obtain ⟨t, ht⟩ := hlook x (by rw [h]; simp)
    simp [ht, bind, Except.bind]
  unfold binaryShapeErrors
  split
  · exact hfirst _ _ _ ‹_›
  · exact hfirst _ _ _ ‹_›
  · exact hfirst _ _ _ ‹_›
  · exact hfirst _ _ _ ‹_›
  · simp

end Totality

lemma weightErrors_eq_error_iff {ns : List GraphNode} :
    (∃ e, weightErrors g ns = .error e) ↔ ∃ n ∈ ns, ∃ e, nodeErrors g n = .error e := by
  induction ns with
  | nil => simp [weightErrors]
  | cons m rest ih =>
      simp only [weightErrors, bind_eq_error, pure_ne_error, and_false, exists_false, or_false,
        List.exists_mem_cons_iff, ← ih]
      cases hm : nodeErrors g m with
      | error e => simp
      | ok a => simp

lemma allBinaryShapeErrors_ne_error {ns : List GraphNode} {e : Failure}
    (h : ∀ n ∈ ns, ∀ e, binaryShapeErrors g n ≠ .error e) :
    allBinaryShapeErrors g ns ≠ .error e := by
  induction ns with
  | nil => simp [allBinaryShapeErrors]
  | cons m rest ih =>
      have hrest := ih fun n hn => h n (List.mem_cons_of_mem m hn)
      simp only [allBinaryShapeErrors, ne_eq, bind_eq_error, pure_ne_error, and_false,
        exists_false, or_false, not_or, not_exists, not_and]
      exact ⟨h m List.mem_cons_self e, fun _ _ => hrest⟩

/-- **When validation itself fails.**  On a graph object the validator returns its verdict,
except when a `PIXEL_SHUFFLE` node makes it divide by zero. -/
theorem validate_error_iff (hg : g.Wf) : (∃ e, validate g = .error e) ↔
    checkStructure g = [] ∧ ∃ n ∈ g.nodes, ZeroShuffle n := by
  have hlook : ∀ n ∈ g.nodes, ∀ i ∈ n.inputs, ∃ t, g.tensor i = .ok t := fun n hn i hi =>
    (hg.tensor_ok (hg.input_lt hn hi)).imp fun _ h => h.1
  have hnode : ∀ n ∈ g.nodes, (∃ e, nodeErrors g n = .error e) ↔ ZeroShuffle n := by
    intro n hn
    obtain ⟨t, ht, -⟩ := hg.tensor_ok (hg.output_lt n hn)
    rw [← @opErrors_eq_error_iff g n t.shape (hlook n hn)]
    simp only [nodeErrors, bind_eq_error, ht, reduceCtorEq, false_or, Except.ok.injEq,
      exists_eq_left', pure_ne_error, and_false, exists_false, or_false]
  have hweights : (∃ e, checkWeights g = .error e) ↔ ∃ n ∈ g.nodes, ZeroShuffle n := by
    rw [checkWeights, weightErrors_eq_error_iff]
    exact exists_congr fun n => and_congr_right (hnode n)
  have hbinary : ∀ e, checkBinaryShapes g ≠ .error e := fun e =>
    allBinaryShapeErrors_ne_error fun n hn e => binaryShapeErrors_ne_error (hlook n hn)
  rw [← hweights]
  unfold validate
  split_ifs with h
  · simp [h]
  · simp only [bind_eq_error, hbinary, pure_ne_error, and_false, exists_false, or_false,
      not_not.mp h, true_and]

lemma exists_of_weightErrors {ns : List GraphNode} {e : Failure}
    (h : weightErrors g ns = .error e) : ∃ n ∈ ns, nodeErrors g n = .error e := by
  induction ns with
  | nil => cases h
  | cons m rest ih =>
      rcases bind_eq_error.mp h with hm | ⟨errors, -, h⟩
      · exact ⟨m, List.mem_cons_self, hm⟩
      · rcases bind_eq_error.mp h with hrest | ⟨more, -, h⟩
        · obtain ⟨n, hn, he⟩ := ih hrest
          exact ⟨n, List.mem_cons_of_mem m hn, he⟩
        · exact absurd h pure_ne_error

/-- When validation fails, it is not by an exception. -/
lemma validate_error_undefined (hg : g.Wf) {e : Failure} (h : validate g = .error e) :
    ∃ what, e = .UndefinedBehaviour what := by
  have hlook : ∀ n ∈ g.nodes, ∀ i ∈ n.inputs, ∃ t, g.tensor i = .ok t := fun n hn i hi =>
    (hg.tensor_ok (hg.input_lt hn hi)).imp fun _ h => h.1
  have hbinary : checkBinaryShapes g ≠ .error e :=
    allBinaryShapeErrors_ne_error fun n hn e => binaryShapeErrors_ne_error (hlook n hn)
  unfold validate at h
  split_ifs at h
  simp only [bind_eq_error, hbinary, pure_ne_error, and_false, exists_false, or_false] at h
  obtain ⟨n, hn, he⟩ := exists_of_weightErrors h
  obtain ⟨t, ht, -⟩ := hg.tensor_ok (hg.output_lt n hn)
  have hop : opErrors g n t.shape = .error e := by
    simpa only [nodeErrors, bind_eq_error, ht, reduceCtorEq, false_or, Except.ok.injEq,
      exists_eq_left', pure_ne_error, and_false, exists_false, or_false] using he
  obtain ⟨hcase, -⟩ := (opErrors_eq_error_iff (hlook n hn)).mp ⟨e, hop⟩
  rw [opErrors, hcase] at hop
  simp only [pixelShuffleErrors] at hop
  split at hop
  · rename_i x hx
    obtain ⟨inT, hin⟩ := hlook n hn x (by rw [hx]; simp)
    rw [hin, ok_bind] at hop
    split_ifs at hop
    · exact ⟨_, (Except.error.inj hop).symm⟩
    · exact absurd hop pure_ne_error
  · cases hop

/-! ## Validation of what the builder makes -/

/-- **When validation delivers a verdict.**  On the graph of any sequence of builder calls,
whatever its operation codes, operands and weight bytes are, `validate` returns unless the graph
has inputs and outputs and a `PIXEL_SHUFFLE` node with one operand and four zero bytes. -/
theorem validate_returns_iff (calls : List AneGraph.BuilderCall) :
    (∃ errors, validate (AneGraph.build calls) = .ok errors) ↔
      ¬ ((AneGraph.build calls).graphInputs ≠ [] ∧ (AneGraph.build calls).graphOutputs ≠ [] ∧
        ∃ n ∈ (AneGraph.build calls).nodes, ZeroShuffle n) := by
  have hstruct : checkStructure (AneGraph.build calls) = [] ↔
      (AneGraph.build calls).graphInputs ≠ [] ∧ (AneGraph.build calls).graphOutputs ≠ [] := by
    rw [checkStructure, List.append_eq_nil_iff, reportIf_eq_nil, reportIf_eq_nil]
  rw [← and_assoc, ← hstruct, ← validate_error_iff (AneGraph.wf_build calls)]
  cases validate (AneGraph.build calls) with
  | ok errors => simp
  | error e => simp

/-- A `PIXEL_SHUFFLE` by zero: the factor is reported and then divided by. -/
theorem zero_shuffle_divides : ¬ ∃ errors, validate (AneGraph.build
    [.AddInput "x" ⟨1, 4, 1, 16⟩, .AddOp .PixelShuffle [0] ⟨1, 4, 1, 16⟩ [0, 0, 0, 0],
      .MarkOutput 1 ""]) = .ok errors := by
  rintro ⟨errors, h⟩
  have herror : validate (AneGraph.build
      [.AddInput "x" ⟨1, 4, 1, 16⟩, .AddOp .PixelShuffle [0] ⟨1, 4, 1, 16⟩ [0, 0, 0, 0],
        .MarkOutput 1 ""]) =
      .error (.UndefinedBehaviour "check_weights: remainder by zero") := by decide
  rw [herror] at h
  cases h

end Libane
