import Libane.Graph.BuilderChecks
import Libane.Graph.CompileTotal

/-!
# Accepted graphs are safe to lower

The lowering indexes operand lists, group inputs and weight bytes without checking.  In the model
every access past the end is an `UndefinedBehaviour`; here it is shown which of them acceptance
rules out.

* `InBounds` — a call does not leave the defined behaviour of C++, whether it returns or throws.
* `FromInputs` — a tensor that depends on graph inputs only, through nodes with operands.
* `nodeToFragment_inBounds_iff` — the one access that acceptance does not protect: the copy of the
  weights of a `PWL_ACTIVATION`, whose buffer is sized through an `int`.
* `accepted_safe_iff` — the guarantee for whole graphs.
-/

namespace Libane

open GraphValidator MilBuilder WeightBlob

/-- The call does not leave the defined behaviour of C++. -/
def InBounds {α : Type} (x : Outcome α) : Prop := ∀ what, x ≠ .error (.UndefinedBehaviour what)

section InBounds

variable {α β : Type}

lemma inBounds_ok {a : α} : InBounds (.ok a : Outcome α) := fun _ h => by cases h

lemma InBounds.bind {x : Outcome α} {f : α → Outcome β} (hx : InBounds x)
    (hf : ∀ a, x = .ok a → InBounds (f a)) : InBounds (x >>= f) := by
  intro what h
  rcases bind_eq_error.mp h with h | ⟨a, ha, h⟩
  · exact hx what h
  · exact hf a ha what h

lemma inBounds_of_ok {x : Outcome α} (h : ∃ a, x = .ok a) : InBounds x := by
  obtain ⟨a, rfl⟩ := h
  exact inBounds_ok

lemma inBounds_validate (s : TensorShape) : InBounds s.validate := by
  intro what h
  rcases s.validate_cases with hs | ⟨w, hs⟩
  · rw [hs] at h
    cases h
  · rw [hs] at h
    cases h

/-- Emitters reject shapes by exceptions only. -/
lemma inBounds_checked {F : Type} {f : MilFragment F} : ∀ shapes : List TensorShape,
    InBounds (checked shapes f)
  | [] => inBounds_ok
  | s :: rest => (inBounds_validate s).bind fun _ _ => inBounds_checked rest

end InBounds

/-! ## Where tensors come from -/

/-- A tensor that depends on graph inputs only, every node on the way having operands. -/
inductive FromInputs (g : AneGraph) : ℕ → Prop
  | input (i : ℕ) (hi : i ∈ g.graphInputs) : FromInputs g i
  | node (n : GraphNode) (hn : n ∈ g.nodes) (hne : n.inputs ≠ [])
      (h : ∀ i ∈ n.inputs, FromInputs g i) : FromInputs g n.output

/-- A node reads the first tensor and produces the second. -/
def Feeds (g : AneGraph) (i o : ℕ) : Prop := ∃ n ∈ g.nodes, i ∈ n.inputs ∧ n.output = o

/-- A tensor that depends on graph inputs is at the end of a path from one of them. -/
lemma FromInputs.path {g : AneGraph} {o : ℕ} (h : FromInputs g o) :
    ∃ i ∈ g.graphInputs, Relation.ReflTransGen (Feeds g) i o := by
  induction h with
  | input i hi => exact ⟨i, hi, .refl⟩
  | node n hn hne h ih =>
      obtain ⟨x, hx⟩ := List.exists_mem_of_ne_nil _ hne
      obtain ⟨i, hi, hpath⟩ := ih x hx
      exact ⟨i, hi, hpath.tail ⟨n, hn, hx, rfl⟩⟩

/-- **Every tensor of an accepted graph depends on graph inputs only.**  By induction on the id:
operands come before results. -/
lemma AcceptedGraph.fromInputs (G : AcceptedGraph) :
    ∀ o < G.graph.tensors.length, FromInputs G.graph o := by
  intro o
  induction o using Nat.strong_induction_on with
  | _ o ih =>
      intro ho
      rcases G.wf.tensor_source o ho with hin | ⟨n, hn, rfl⟩
      · exact .input o hin
      · exact .node n hn (G.inputs_ne_nil hn) fun i hi =>
          ih i (G.wf.input_lt_output n hn i hi) (G.wf.input_lt hn hi)

/-! ## The accesses of the lowering -/

namespace MilBackend

variable {F : Type} [MilFloat F] (G : AcceptedGraph) {n : GraphNode}

/-- The copy of too many weight bytes. -/
lemma pwlFragment_eq_error {outS : TensorShape} {inVar outVar : String}
    (h4 : n.weights.length % 4 = 0) (hcount : 4 ≤ pwlFloatCount n.weights)
    (hlen : ¬ n.weights.length < 2 ^ 31) :
    pwlFragment (F := F) n outS inVar outVar =
      .error (.UndefinedBehaviour "memcpy past the end of a vector") := by
  have hnonneg : ¬ pwlFloatCount n.weights < 0 := not_lt.mpr (by linarith)
  simp only [pwlFragment]
  rw [if_neg hnonneg, if_pos ((pwl_bounds h4 hcount).mpr hlen)]

omit [MilFloat F] in
/-- The operations that the lowering may reject after acceptance. -/
lemma op_of_not_lowerable {g : AneGraph} (h : ¬ Lowerable g n) :
    n.op = .Cast ∨ n.op = .Transpose ∨ n.op = .Concat ∨ n.op = .PixelShuffle ∨
      n.op = .PwlActivation ∧ ¬ n.weights.length < 2 ^ 31 := by
  unfold Lowerable at h
  cases hop : n.op <;> simp_all

/-- **The accesses of one node.**  Operands are where the emitters look for them; the weights of a
`PWL_ACTIVATION` are copied within bounds exactly when their size fits an `int`. -/
theorem nodeToFragment_inBounds_iff (hn : n ∈ G.graph.nodes) (inVar outVar : String) :
    InBounds (nodeToFragment (F := F) G.graph n inVar outVar) ↔
      (n.op = .PwlActivation → n.weights.length < 2 ^ 31) := by
  obtain ⟨inT, outT, hin, hout, hinv, houtv⟩ := exists_tensors G hn
  obtain ⟨outT', hout', herr⟩ := G.opErrors_eq_nil hn
  obtain rfl : outT = outT' := Except.ok.inj (hout.symm.trans hout')
  have hlower : Lowerable G.graph n →
      InBounds (nodeToFragment (F := F) G.graph n inVar outVar) := fun hl =>
    inBounds_of_ok ((nodeToFragment_ok G inVar outVar hn hl).imp fun _ h => h.1)
  constructor
  · intro h hop
    simp only [opErrors, hop, Except.ok.injEq, pwlActivationErrors_eq_nil_iff] at herr
    by_contra hlen
    refine h "memcpy past the end of a vector" ?_
    simp only [nodeToFragment, hin, hout, ok_bind]
    simp only [hop]
    exact pwlFragment_eq_error herr.2.2.1 herr.2.2.2 hlen
  · intro h
    by_cases hl : Lowerable G.graph n
    · exact hlower hl
    simp only [nodeToFragment, hin, hout, ok_bind]
    rcases op_of_not_lowerable hl with hop | hop | hop | hop | ⟨hop, hlen⟩
    · simp only [hop]
      exact fun what h => by cases h
    · simp only [hop]
      exact inBounds_checked _
    · simp only [opErrors, hop] at herr ⊢
      obtain ⟨x, y, a, b, hxy, -⟩ := concatErrors_eq_nil_iff.mp herr
      obtain ⟨v, hv⟩ := operandVar_ok (n := n) (k := 1) (by simp [hxy])
      rw [hv, ok_bind]
      exact inBounds_checked _
    · simp only [hop, pixelShuffleFragment]
      split_ifs
      · exact fun what h => by cases h
      · exact inBounds_checked _
    · exact absurd (h hop) hlen

/-- The weights of a normalisation are two arrays of one fp16 value for each channel. -/
lemma layernorm_halves (hn : n ∈ G.graph.nodes) (hop : n.op = .LayerNorm ∨ n.op = .Layernorm) :
    n.weights.length / 2 = 2 * (G.graph.shapeOf n.output).channels.toNat ∧
      n.weights.length / 2 + n.weights.length / 2 = n.weights.length := by
  obtain ⟨outT, hout, herr⟩ := G.opErrors_eq_nil hn
  obtain ⟨t, ht, -, hv⟩ := G.wf.tensor_ok (G.wf.output_lt n hn)
  obtain rfl : outT = t := Except.ok.inj (hout.symm.trans ht)
  have hsize : toSizeT outT.shape.channels = outT.shape.channels.toNat := by
    have := toSizeT_of_nonneg hv.channels_pos.le (by have := hv.channels_le; omega)
    omega
  have hle := hv.sizes_le.1
  have hlen : n.weights.length = toSizeT outT.shape.channels * 4 % 2 ^ 64 := by
    rcases hop with hop | hop <;>
    · simp only [opErrors, hop, Except.ok.injEq, layernormErrors_eq_nil_iff] at herr
      exact herr.2
  rw [AneGraph.shapeOf_eq hout]
  omega

/-- The chain of a group, when its members are within bounds. -/
lemma lowerNodes_inBounds {g : AneGraph} (hg : g.Wf)
    (hnode : ∀ n ∈ g.nodes, ∀ inVar outVar,
      InBounds (nodeToFragment (F := F) g n inVar outVar))
    (hentries : ∀ n ∈ g.nodes, InBounds (weightEntries g n)) :
    ∀ (ms : List GraphNode) (chainVar : String), (∀ m ∈ ms, m ∈ g.nodes) →
      InBounds (lowerNodes (F := F) g chainVar (ms.map (·.id)))
  | [], _, _ => inBounds_ok
  | m :: ms, chainVar, hms => by
      have hm := hms m List.mem_cons_self
      have ih := lowerNodes_inBounds hg hnode hentries ms (tensorVar m.output) fun m' hm' =>
        hms m' (List.mem_cons_of_mem m hm')
      rw [List.map_cons, lowerNodes, hg.node_ok hm, ok_bind]
      exact (hnode m hm _ _).bind fun _ _ => (hentries m hm).bind fun _ _ =>
        ih.bind fun _ _ => inBounds_ok

/-- Every access in the lowering of a graph's groups is within bounds. -/
structure LoweringInBounds (F : Type) [MilFloat F] (g : AneGraph) : Prop where
  node : ∀ n ∈ g.nodes, ∀ inVar outVar, InBounds (nodeToFragment (F := F) g n inVar outVar)
  entries : ∀ n ∈ g.nodes, InBounds (weightEntries g n)
  halves : ∀ n ∈ g.nodes, n.op = .LayerNorm ∨ n.op = .Layernorm →
    n.weights.length / 2 = 2 * (g.shapeOf n.output).channels.toNat ∧
      n.weights.length / 2 + n.weights.length / 2 = n.weights.length
  group : ∀ groups, FusionRules.computeGroups g = .ok groups → ∀ group ∈ groups,
    group.inputs ≠ [] ∧ InBounds (lowerGroup (F := F) g group)

lemma loweringInBounds (h : ∀ n ∈ G.graph.nodes, n.op = .PwlActivation →
    n.weights.length < 2 ^ 31) : LoweringInBounds F G.graph := by
  have hnode : ∀ n ∈ G.graph.nodes, ∀ inVar outVar,
      InBounds (nodeToFragment (F := F) G.graph n inVar outVar) := fun n hn inVar outVar =>
    (nodeToFragment_inBounds_iff G hn inVar outVar).mpr (h n hn)
  have hentries : ∀ n ∈ G.graph.nodes, InBounds (weightEntries G.graph n) := fun n hn =>
    inBounds_of_ok (weightEntries_ok G hn)
  refine ⟨hnode, hentries, fun n hn => layernorm_halves G hn, fun groups hgroups group hmem => ?_⟩
  obtain ⟨S⟩ := FusionRules.exists_schedule G.wf
  obtain rfl : S.groups = groups := Except.ok.inj (S.computed.symm.trans hgroups)
  obtain ⟨hids, hms⟩ := (S.grouped hmem).resolves
  obtain ⟨-, -, -, hins⟩ := (S.grouped hmem).head_inputs fun m hm => G.inputs_ne_nil (hms m hm)
  refine ⟨hins, ?_⟩
  obtain ⟨chain, rest, hchain⟩ := List.exists_cons_of_ne_nil hins
  unfold lowerGroup
  rw [hchain]
  refine (inBounds_of_ok (fusedInputs_total G.wf (chain :: rest) fun id hid => ?_)).bind
    fun _ _ => InBounds.bind ?_ fun _ _ => inBounds_ok
  · rw [← hchain] at hid
    obtain ⟨⟨m, hm, hread⟩, -⟩ := ((S.grouped hmem).mem_inputs_iff G.wf id).mp hid
    exact G.wf.input_lt (hms m hm) hread
  · rw [hids]
    exact lowerNodes_inBounds G.wf hnode hentries _ _ hms

/-- **Accepted graphs are safe to lower.**  In an accepted graph every node has operands and
depends on graph inputs only, and every marked output is at the end of a path from a graph input.
All accesses of the lowering are within bounds if and only if the weights of every
`PWL_ACTIVATION` have fewer than `2 ^ 31` bytes. -/
theorem accepted_safe_iff :
    ((∀ n ∈ G.graph.nodes, n.inputs ≠ [] ∧ FromInputs G.graph n.output) ∧
      (∀ o ∈ G.graph.graphOutputs, ∃ i ∈ G.graph.graphInputs,
        Relation.ReflTransGen (Feeds G.graph) i o) ∧
      LoweringInBounds F G.graph) ↔
    ∀ n ∈ G.graph.nodes, n.op = .PwlActivation → n.weights.length < 2 ^ 31 := by
  constructor
  · rintro ⟨-, -, h⟩ n hn
    exact (nodeToFragment_inBounds_iff G hn "" "").mp (h.node n hn "" "")
  · intro h
    exact ⟨fun n hn => ⟨G.inputs_ne_nil hn, G.fromInputs _ (G.wf.output_lt n hn)⟩,
      fun o ho => (G.fromInputs o (G.wf.graphOutput_lt o ho)).path, loweringInBounds G h⟩

/-- A graph of one `PWL_ACTIVATION` with these weight bytes. -/
def pwlGraph (w : List UInt8) : AneGraph :=
  AneGraph.build [.AddInput "x" ⟨1, 1, 1, 16⟩, .AddOp .PwlActivation [0] ⟨1, 1, 1, 16⟩ w,
    .MarkOutput 1 ""]

lemma pwlGraph_accepted {w : List UInt8} (h12 : 12 ≤ w.length) (h4 : w.length % 4 = 0)
    (hcount : 4 ≤ pwlFloatCount w) : validate (pwlGraph w) = .ok [] := by
  have hwf : (pwlGraph w).Wf := AneGraph.wf_build _
  refine validate_eq_nil_iff.mpr ⟨rfl, checkShapes_eq_nil hwf, checkEdges_eq_nil hwf,
    checkTopo_eq_nil hwf, rfl, weightErrors_eq_nil_iff.mpr fun n hn => ?_, rfl⟩
  obtain rfl : n = ⟨0, .PwlActivation, [0], 1, w, AneGraph.weightFileOf 0 w⟩ :=
    List.mem_singleton.mp hn
  refine nodeErrors_eq_nil_iff.mpr ⟨_, rfl, congrArg Except.ok ?_⟩
  exact pwlActivationErrors_eq_nil_iff.mpr ⟨rfl, h12, h4, hcount⟩

/-- `2 ^ 32 + 16` bytes: room for four floats, and a copy of all the bytes. -/
def hugeWeights : List UInt8 := List.replicate (2 ^ 32 + 16) 0

/-- The validator accepts the huge weights, and the lowering copies them past the end of a vector
of four floats. -/
theorem huge_weights_overflow : hugeWeights.length = 2 ^ 32 + 16 ∧
    validate (pwlGraph hugeWeights) = .ok [] ∧ ∃ n ∈ (pwlGraph hugeWeights).nodes,
      ¬ InBounds (nodeToFragment (F := Unit) (pwlGraph hugeWeights) n "t0" "t1") := by
  have hlen : hugeWeights.length = 4294967312 := List.length_replicate
  have hcount : pwlFloatCount hugeWeights = 4 := by
    rw [pwlFloatCount, hlen]
    rfl
  have hacc := pwlGraph_accepted (w := hugeWeights) (by omega) (by omega) (by omega)
  refine ⟨hlen, hacc, _, List.mem_cons_self, fun h => ?_⟩
  have hsmall := (nodeToFragment_inBounds_iff ⟨_, ⟨_, rfl⟩, hacc⟩ List.mem_cons_self _ _).mp h rfl
  exact absurd hsmall (by show ¬ hugeWeights.length < 2 ^ 31; omega)

end MilBackend

end Libane
