import Libane.Core.Emitted
import Libane.Graph.MilBackend

/-!
# Lowering a group

What `MilBackend` makes of a node and of a group, said once for everything that follows.

* `nodeToFragment_emitted` — a lowered node obeys the conventions of `Emitted`, with the weight
  files `nodeRefs`.
* `LoweredNodes` — the fragments and weight entries of a chain of nodes; `lowerNodes_ok` unfolds
  the source's loop into it.
* `LoweredNodes.names_nodup`, `LoweredNodes.wellScoped` — fragments of one group share their scope
  without clashes.
* `assembly_wellScoped` — the assembled program is well scoped and assigns every name once.
-/

namespace Libane

open Names MilBuilder StraightLine

/-- More inputs, fewer obligations. -/
lemma Emitted.mono {F : Type} {ins ins' : List String} {refs : List (MilType × String)}
    {out : String} {f : MilFragment F} (h : Emitted ins refs out f) (hsub : ins ⊆ ins') :
    Emitted ins' refs out f where
  outputName_eq := h.outputName_eq
  vars := h.vars
  wellScoped := h.wellScoped.mono fun _ ha => hsub ha
  refs_eq := h.refs_eq
  weightFile_eq := h.weightFile_eq
  declares := h.declares
  plain := fun ho hi hr => h.plain ho (fun a ha => hi a (hsub ha)) hr

namespace MilBackend

variable {F : Type} [MilFloat F]

/-! ## Nodes -/

/-- The weight files that a node's fragment refers to, with the types it declares for them. -/
def nodeRefs (n : GraphNode) (inS outS : TensorShape) : List (MilType × String) :=
  match n.op with
  | .Matmul => [(.Tensor "fp16" "," [outS.channels, inS.channels, 1, 1], n.weightFile)]
  | .Rmsnorm => [(columnType inS.channels, n.weightFile)]
  | .Layernorm | .LayerNorm =>
      [(columnType inS.channels, n.weightFile), (columnType inS.channels, betaFile n.weightFile)]
  | .Scatter | .ScatterNd | .ScatterAlongAxis =>
      [(tensorType (shapeOf outS.channels outS.seq), n.weightFile)]
  | .Gather =>
      if n.inputs.length = 1 then [(tensorType (shapeOf outS.channels outS.seq), n.weightFile)]
      else []
  | _ => []

/-- The variables of the operands after the first. -/
def sideVars (n : GraphNode) : List String := n.inputs.tail.map tensorVar

omit [MilFloat F] in
lemma operandVar_mem_sideVars {n : GraphNode} {k : ℕ} {v : String}
    (h : operandVar n (k + 1) = .ok v) : v ∈ sideVars n := by
  unfold operandVar at h
  split at h
  · rename_i id hid
    obtain rfl := Except.ok.inj h
    refine List.mem_map_of_mem (List.mem_of_getElem? (i := k) ?_)
    rw [List.getElem?_tail, hid]
  · cases h

section Node

variable {n : GraphNode} {inVar outVar : String} {f : MilFragment F}

omit [MilFloat F] in
/-- A fragment that reads one side operand. -/
lemma emitted_of_side {refs : List (MilType × String)}
    {emit : String → Outcome (MilFragment F)}
    (hemit : ∀ side, emit side = .ok f → Emitted [inVar, side] refs outVar f)
    (h : (operandVar n 1 >>= emit) = .ok f) : Emitted (inVar :: sideVars n) refs outVar f := by
  obtain ⟨side, hside, h⟩ := bind_eq_ok.mp h
  refine (hemit side h).mono fun a ha => ?_
  rcases List.mem_cons.mp ha with rfl | ha
  · exact List.mem_cons_self
  · rw [List.mem_singleton.mp ha]
    exact List.mem_cons_of_mem _ (operandVar_mem_sideVars hside)

omit [MilFloat F] in
/-- A fragment that reads no side operand. -/
lemma emitted_of_chain {refs : List (MilType × String)} (h : Emitted [inVar] refs outVar f) :
    Emitted (inVar :: sideVars n) refs outVar f :=
  h.mono fun a ha => by rw [List.mem_singleton.mp ha]; exact List.mem_cons_self

lemma pwlFragment_emitted {outS : TensorShape} (h : pwlFragment n outS inVar outVar = .ok f) :
    Emitted [inVar] [] outVar f := by
  simp only [pwlFragment] at h
  split at h
  · cases h
  split at h
  · cases h
  split at h
  · exact pwlActivationFragment_emitted h
  · cases h

/-- **A lowered node obeys the conventions.** -/
theorem nodeToFragment_emitted {g : AneGraph}
    (h : nodeToFragment g n inVar outVar = .ok f) : ∃ inT outT,
      g.tensor (n.inputs.headD kInvalidTensorId) = .ok inT ∧ g.tensor n.output = .ok outT ∧
        Emitted (inVar :: sideVars n) (nodeRefs n inT.shape outT.shape) outVar f := by
  obtain ⟨inT, hin, h⟩ := bind_eq_ok.mp h
  obtain ⟨outT, hout, h⟩ := bind_eq_ok.mp h
  refine ⟨inT, outT, hin, hout, ?_⟩
  cases hop : n.op <;> simp only [hop] at h <;> simp only [nodeRefs, hop]
  case Matmul => exact emitted_of_chain (matmulFragment_emitted h)
  case Rmsnorm => exact emitted_of_chain (rmsnormFragment_emitted h)
  case Layernorm | LayerNorm => exact emitted_of_chain (layernormFragment_emitted h)
  case Gelu => exact emitted_of_chain (geluFragment_emitted h)
  case Silu => exact emitted_of_chain (siluFragment_emitted h)
  case Softmax => exact emitted_of_chain (softmaxFragment_emitted h)
  case AvgPool | MaxPool | Sqrt | Relu | Tanh | Sigmoid =>
    exact emitted_of_chain (unaryFragment_emitted (by decide) (by decide) h)
  case Log | Rsqrt => exact emitted_of_chain (epsilonFragment_emitted (by decide) (by decide) h)
  case Transpose => exact emitted_of_chain (transposeFragment_emitted h)
  case Reshape => exact emitted_of_chain (reshapeFragment_emitted h)
  case SliceByIndex => exact emitted_of_chain (sliceByIndexFragment_emitted h)
  case Add | Mul | Sub | RealDiv =>
    exact emitted_of_side (fun _ => binaryFragment_emitted (by decide) (by decide)) h
  case LogicalAnd | LogicalOr =>
    exact emitted_of_side (fun _ => logicalFragment_emitted (by decide) (by decide)) h
  case LogicalXor => exact emitted_of_side (fun _ => logicalXorFragment_emitted) h
  case ReduceProd => exact emitted_of_chain (reduceProdFragment_emitted h)
  case ReduceSum | ReduceMean | ReduceMax =>
    exact emitted_of_chain (reduceFragment_emitted (by decide) (by decide) h)
  case Scatter | ScatterNd | ScatterAlongAxis =>
    exact emitted_of_side (fun _ => scatterStaticMaskFragment_emitted) h
  case Gather =>
    split_ifs at h ⊢
    · exact emitted_of_chain (gatherStaticMaskFragment_emitted h)
    · exact emitted_of_side (fun _ => binaryFragment_emitted (by decide) (by decide)) h
  case Neg => exact emitted_of_chain (negFragment_emitted h)
  case Mod => exact emitted_of_side (fun _ => modFragment_emitted) h
  case Sinh | Cosh =>
    exact emitted_of_chain (hyperbolicFragment_emitted (by decide) (by decide) (by decide) h)
  case Tan => exact emitted_of_chain (tanFragment_emitted h)
  case Asin => exact emitted_of_chain (asinFragment_emitted h)
  case Acos => exact emitted_of_chain (acosFragment_emitted h)
  case Select =>
    obtain ⟨x, hx, h⟩ := bind_eq_ok.mp h
    obtain ⟨y, hy, h⟩ := bind_eq_ok.mp h
    refine (selectFragment_emitted h).mono ?_
    simp [operandVar_mem_sideVars hx, operandVar_mem_sideVars hy]
  case Concat => exact emitted_of_side (fun _ => concatFragment_emitted) h
  case Hardswish => exact emitted_of_chain (hardswishFragment_emitted h)
  case LeakyRelu => exact emitted_of_chain (leakyReluFragment_emitted h)
  case Elu => exact emitted_of_chain (eluFragment_emitted h)
  case PixelShuffle => exact emitted_of_chain (pixelShuffleFragment_emitted h)
  case PwlActivation => exact emitted_of_chain (pwlFragment_emitted h)
  all_goals cases h

end Node

/-! ## Chains of nodes -/

/-- The fragments and the weight entries of a chain of nodes, the first of which reads
`chainVar`. -/
inductive LoweredNodes (g : AneGraph) :
    String → List GraphNode → List (MilFragment F) → List WeightEntry → Prop
  | nil (chainVar : String) : LoweredNodes g chainVar [] [] []
  | cons {chainVar : String} {n : GraphNode} {rest : List GraphNode} {f : MilFragment F}
      {fs : List (MilFragment F)} {entries more : List WeightEntry}
      (hf : nodeToFragment g n chainVar (tensorVar n.output) = .ok f)
      (he : weightEntries g n = .ok entries)
      (hrest : LoweredNodes g (tensorVar n.output) rest fs more) :
      LoweredNodes g chainVar (n :: rest) (f :: fs) (entries ++ more)

/-- What a loop that returned has done. -/
lemma lowerNodes_ok {g : AneGraph} (hg : g.Wf) : ∀ (ms : List GraphNode) {chainVar : String}
    {r : List (MilFragment F) × List WeightEntry}, (∀ m ∈ ms, m ∈ g.nodes) →
    lowerNodes g chainVar (ms.map (·.id)) = .ok r → LoweredNodes g chainVar ms r.1 r.2
  | [], _, _, _, h => by
      obtain rfl := Except.ok.inj h
      exact .nil _
  | m :: ms, chainVar, r, hms, h => by
      obtain ⟨n, hn, h⟩ := bind_eq_ok.mp h
      obtain rfl : m = n := Except.ok.inj ((hg.node_ok (hms m List.mem_cons_self)).symm.trans hn)
      obtain ⟨f, hf, h⟩ := bind_eq_ok.mp h
      obtain ⟨entries, he, h⟩ := bind_eq_ok.mp h
      obtain ⟨⟨fs, more⟩, hrest, h⟩ := bind_eq_ok.mp h
      obtain rfl := pure_eq_ok_iff.mp h
      exact .cons hf he (lowerNodes_ok hg ms (fun m' hm' => hms m' (List.mem_cons_of_mem m hm'))
        hrest)

lemma LoweredNodes.length_eq {g : AneGraph} {chainVar : String} {ms : List GraphNode}
    {fs : List (MilFragment F)} {entries : List WeightEntry}
    (h : LoweredNodes g chainVar ms fs entries) : fs.length = ms.length := by
  induction h with
  | nil => rfl
  | cons _ _ _ ih => rw [List.length_cons, List.length_cons, ih]

/-- Every fragment of a chain belongs to one of its nodes. -/
lemma LoweredNodes.exists_node {g : AneGraph} {chainVar : String} {ms : List GraphNode}
    {fs : List (MilFragment F)} {entries : List WeightEntry}
    (h : LoweredNodes g chainVar ms fs entries) : ∀ f ∈ fs, ∃ m ∈ ms, ∃ inVar,
      nodeToFragment g m inVar (tensorVar m.output) = .ok f := by
  induction h with
  | nil => simp
  | cons hf he hrest ih =>
      intro f hmem
      rcases List.mem_cons.mp hmem with rfl | hmem
      · exact ⟨_, List.mem_cons_self, _, hf⟩
      · obtain ⟨m, hm, rest⟩ := ih f hmem
        exact ⟨m, List.mem_cons_of_mem _ hm, rest⟩

/-! ## Names -/

omit [MilFloat F] in
lemma tensorVar_injective : Function.Injective tensorVar := fun _ _ h =>
  toString_injective ((String.append_right_inj "t").mp h)

lemma avoids_tensorVar {c : Char} (ht : c ≠ 't') (hc : c.isDigit = false) (id : ℕ) :
    Avoids c (tensorVar id) := by
  rw [tensorVar, avoids_append]
  exact ⟨by simpa [Avoids] using ht, avoids_toString_nat hc id⟩

/-- The tensor variable in front of the first underscore. -/
lemma tensorVar_stem_inj {a b : ℕ} {s t : String}
    (h : tensorVar a ++ "_" ++ s = tensorVar b ++ "_" ++ t) : a = b := by
  have hlist := congrArg String.toList h
  simp only [String.toList_append] at hlist
  have hunder : "_".toList = ['_'] := by simp
  rw [hunder, List.append_assoc, List.append_assoc, List.singleton_append, List.singleton_append]
    at hlist
  have hstem := (append_sep_inj (avoids_tensorVar (by decide) (by decide) a)
    (avoids_tensorVar (by decide) (by decide) b) hlist).1
  exact tensorVar_injective (String.toList_inj.mp hstem)

/-- No tensor variable is a temporary. -/
lemma tensorVar_ne_temporary (a b : ℕ) (s : String) : tensorVar a ≠ tensorVar b ++ "_" ++ s := by
  intro h
  have ha : Avoids '_' (tensorVar a) := avoids_tensorVar (by decide) (by decide) a
  rw [h, avoids_append, avoids_append] at ha
  exact absurd ha.1.2 (by decide)

section Names

variable {ins : List String} {refs : List (MilType × String)} {id : ℕ} {f : MilFragment F}

omit [MilFloat F] in
/-- The names of a fragment: its result and temporaries named after it. -/
lemma mem_vars_of_emitted (h : Emitted ins refs (tensorVar id) f) {v : String}
    (hv : v ∈ f.body.map (·.var)) : v = tensorVar id ∨ ∃ s, v = tensorVar id ++ "_" ++ s := by
  obtain ⟨suffixes, -, hvars⟩ := h.vars
  rw [hvars, List.mem_append, List.mem_map, List.mem_singleton] at hv
  rcases hv with ⟨s, -, rfl⟩ | rfl
  · exact Or.inr ⟨s, rfl⟩
  · exact Or.inl rfl

omit [MilFloat F] in
/-- The result of a fragment is one of its names. -/
lemma output_mem_vars (h : Emitted ins refs (tensorVar id) f) :
    tensorVar id ∈ f.body.map (·.var) := by
  obtain ⟨suffixes, -, hvars⟩ := h.vars
  rw [hvars]
  simp

end Names

/-- The names that the fragments of a chain assign belong to the outputs of its nodes. -/
lemma LoweredNodes.mem_vars {g : AneGraph} {chainVar : String} {ms : List GraphNode}
    {fs : List (MilFragment F)} {entries : List WeightEntry}
    (h : LoweredNodes g chainVar ms fs entries) {v : String}
    (hv : v ∈ (fs.flatMap (·.body)).map (·.var)) :
    ∃ m ∈ ms, v = tensorVar m.output ∨ ∃ s, v = tensorVar m.output ++ "_" ++ s := by
  rw [List.map_flatMap, List.mem_flatMap] at hv
  obtain ⟨f, hf, hv⟩ := hv
  obtain ⟨m, hm, inVar, hlower⟩ := h.exists_node f hf
  obtain ⟨inT, outT, -, -, hemit⟩ := nodeToFragment_emitted hlower
  exact ⟨m, hm, mem_vars_of_emitted hemit hv⟩

/-- **No clashes.**  The fragments of nodes with different outputs assign every name once. -/
theorem LoweredNodes.names_nodup {g : AneGraph} {chainVar : String} {ms : List GraphNode}
    {fs : List (MilFragment F)} {entries : List WeightEntry}
    (h : LoweredNodes g chainVar ms fs entries) (hout : (ms.map (·.output)).Nodup) :
    ((fs.flatMap (·.body)).map (·.var)).Nodup := by
  induction h with
  | nil => simp
  | @cons chainVar n rest f fs entries more hf he hrest ih =>
      rw [List.map_cons, List.nodup_cons] at hout
      obtain ⟨inT, outT, -, -, hemit⟩ := nodeToFragment_emitted hf
      rw [List.flatMap_cons, List.map_append]
      refine List.nodup_append.mpr ⟨hemit.vars_nodup, ih hout.2, ?_⟩
      rintro v hv w hw rfl
      obtain ⟨m, hm, hmv⟩ := hrest.mem_vars hw
      have hsame : n.output = m.output := by
        rcases mem_vars_of_emitted hemit hv with hn | ⟨s, hn⟩ <;> rcases hmv with hm' | ⟨t, hm'⟩
        · exact tensorVar_injective (hn.symm.trans hm')
        · exact absurd (hn.symm.trans hm') (tensorVar_ne_temporary _ _ _)
        · exact absurd (hm'.symm.trans hn) (tensorVar_ne_temporary _ _ _)
        · exact tensorVar_stem_inj (hn.symm.trans hm')
      exact hout.1 (hsame ▸ List.mem_map_of_mem hm)

/-- **Scoping.**  When the chain variable and all side operands are defined, the fragments of a
chain read nothing undefined. -/
theorem LoweredNodes.wellScoped {g : AneGraph} {chainVar : String} {ms : List GraphNode}
    {fs : List (MilFragment F)} {entries : List WeightEntry}
    (h : LoweredNodes g chainVar ms fs entries) {D : Set String} (hchain : chainVar ∈ D)
    (hsides : ∀ m ∈ ms, ∀ v ∈ sideVars m, v ∈ D) :
    WellScoped MilStmt.var MilStmt.operands D (fs.flatMap (·.body)) := by
  induction h generalizing D with
  | nil => trivial
  | @cons chainVar n rest f fs entries more hf he hrest ih =>
      obtain ⟨inT, outT, -, -, hemit⟩ := nodeToFragment_emitted hf
      rw [List.flatMap_cons]
      refine wellScoped_append.mpr ⟨hemit.wellScoped.mono fun a ha => ?_, ih ?_ ?_⟩
      · rcases List.mem_cons.mp ha with rfl | ha
        · exact hchain
        · exact hsides n List.mem_cons_self a ha
      · exact Or.inr (output_mem_vars hemit)
      · exact fun m hm v hv => Or.inl (hsides m (List.mem_cons_of_mem n hm) v hv)

lemma LoweredNodes.getLast? {g : AneGraph} {chainVar : String} {ms : List GraphNode}
    {fs : List (MilFragment F)} {entries : List WeightEntry}
    (h : LoweredNodes g chainVar ms fs entries) {f : MilFragment F} (hf : fs.getLast? = some f) :
    ∃ m ∈ ms, f.outputName = tensorVar m.output ∧ tensorVar m.output ∈ f.body.map (·.var) := by
  obtain ⟨m, hm, inVar, hlower⟩ := h.exists_node f (List.mem_of_getLast? hf)
  obtain ⟨inT, outT, -, -, hemit⟩ := nodeToFragment_emitted hlower
  exact ⟨m, hm, hemit.outputName_eq, output_mem_vars hemit⟩

/-! ## Groups -/

omit [MilFloat F] in
/-- The parameters of a group. -/
lemma fusedInputs_ok {g : AneGraph} : ∀ {ids : List ℕ} {inputs : List FusedInput},
    fusedInputs g ids = .ok inputs → inputs.map (·.varName) = ids.map tensorVar ∧
      ∀ i ∈ inputs, ∃ id ∈ ids, ∃ t, g.tensor id = .ok t ∧ i = ⟨tensorVar id, t.shape⟩
  | [], inputs, h => by
      obtain rfl := Except.ok.inj h
      exact ⟨rfl, by simp⟩
  | id :: ids, inputs, h => by
      obtain ⟨t, ht, h⟩ := bind_eq_ok.mp h
      obtain ⟨more, hmore, h⟩ := bind_eq_ok.mp h
      obtain rfl := pure_eq_ok_iff.mp h
      obtain ⟨hnames, hshapes⟩ := fusedInputs_ok hmore
      refine ⟨by rw [List.map_cons, List.map_cons, hnames], fun i hi => ?_⟩
      rcases List.mem_cons.mp hi with rfl | hi
      · exact ⟨id, List.mem_cons_self, t, ht, rfl⟩
      · obtain ⟨id', hid', rest⟩ := hshapes i hi
        exact ⟨id', List.mem_cons_of_mem id hid', rest⟩

/-- A lowered group, its nodes and its parts. -/
structure LoweredAs (g : AneGraph) (group : FusionGroup) (ms : List GraphNode)
    (lowered : LoweredGroup F) : Prop where
  grouped : FusionRules.Grouped g group ms
  names_eq : lowered.inputs.map (·.varName) = group.inputs.map tensorVar
  shapes : ∀ i ∈ lowered.inputs, ∃ id ∈ group.inputs, ∃ t, g.tensor id = .ok t ∧
    i = ⟨tensorVar id, t.shape⟩
  nodes : ∃ chain, group.inputs.head? = some chain ∧
    LoweredNodes g (tensorVar chain) ms lowered.fragments lowered.entries

/-- What a lowering that returned has done. -/
theorem lowerGroup_ok {g : AneGraph} (hg : g.Wf) {group : FusionGroup} {ms : List GraphNode}
    (hgroup : FusionRules.Grouped g group ms) {lowered : LoweredGroup F}
    (h : lowerGroup g group = .ok lowered) : LoweredAs g group ms lowered := by
  unfold lowerGroup at h
  split at h
  · cases h
  rename_i chain rest hins
  obtain ⟨inputs, hinputs, h⟩ := bind_eq_ok.mp h
  obtain ⟨⟨fragments, entries⟩, hnodes, h⟩ := bind_eq_ok.mp h
  obtain rfl := pure_eq_ok_iff.mp h
  obtain ⟨hnames, hshapes⟩ := fusedInputs_ok hinputs
  obtain ⟨hids, hms⟩ := hgroup.resolves
  rw [hids] at hnodes
  exact ⟨hgroup, hnames, hshapes, chain, by rw [hins]; rfl, lowerNodes_ok hg ms hms hnodes⟩

/-! ## The assembled program -/

section Members

variable {g : AneGraph} {group : FusionGroup} {ms : List GraphNode}

omit [MilFloat F] in
/-- Members produce different tensors. -/
lemma outputs_nodup_of_grouped (hg : g.Wf) (h : FusionRules.Grouped g group ms) :
    (ms.map (·.output)).Nodup := by
  induction h with
  | start n hn => exact List.nodup_singleton _
  | extend group ms last n hn hlast hext h ih =>
      rw [List.map_append]
      refine List.nodup_append.mpr ⟨ih, List.nodup_singleton _, fun a ha b hb hab => ?_⟩
      obtain ⟨m, hm, rfl⟩ := List.mem_map.mp ha
      have hle := h.output_le hg m hm
      rw [h.output_eq hlast] at hle
      have hlt := hg.input_lt_output n hn _ (List.mem_of_mem_head? hext.head_eq)
      have hbn : b = n.output := List.mem_singleton.mp hb
      omega

omit [MilFloat F] in
/-- Operands after the first are inputs of the group. -/
lemma tail_mem_inputs (h : FusionRules.Grouped g group ms) :
    ∀ m ∈ ms, ∀ i ∈ m.inputs.tail, i ∈ group.inputs := by
  induction h with
  | start n hn =>
      intro m hm i hi
      rw [List.mem_singleton.mp hm] at hi
      exact List.mem_of_mem_tail hi
  | extend group ms last n hn hlast hext h ih =>
      intro m hm i hi
      refine (FusionRules.mem_addSides _ _).mpr ?_
      rcases List.mem_append.mp hm with hm | hm
      · exact Or.inl (ih m hm i hi)
      · rw [List.mem_singleton.mp hm] at hi
        exact Or.inr hi

end Members

namespace LoweredAs

variable {g : AneGraph} {group : FusionGroup} {ms : List GraphNode} {lowered : LoweredGroup F}

/-- The parameters, sorted, are the inputs of the group. -/
lemma perm_params (h : LoweredAs g group ms lowered) :
    ((sortInputs lowered.inputs).map (·.varName)).Perm (group.inputs.map tensorVar) := by
  rw [← h.names_eq]
  exact perm_sortInputs.map _

lemma inputs_ne_nil (h : LoweredAs g group ms lowered) : lowered.inputs ≠ [] := by
  obtain ⟨chain, hchain, -⟩ := h.nodes
  intro hnil
  have hnames := h.names_eq
  rw [hnil, List.map_nil, eq_comm, List.map_eq_nil_iff] at hnames
  rw [hnames] at hchain
  cases hchain

lemma fragments_ne_nil (h : LoweredAs g group ms lowered) : lowered.fragments ≠ [] := by
  obtain ⟨chain, -, hnodes⟩ := h.nodes
  intro hnil
  have hlen := hnodes.length_eq
  rw [hnil, List.length_nil, eq_comm, List.length_eq_zero_iff] at hlen
  exact h.grouped.ne_nil hlen

/-- **A lowered group is assembled into a single-assignment program.** -/
theorem singleAssignment (hg : g.Wf) (h : LoweredAs g group ms lowered)
    (hdistinct : group.inputs.Nodup) :
    (assemble lowered.inputs lowered.fragments).SingleAssignment := by
  obtain ⟨chain, hchain, hnodes⟩ := h.nodes
  have hparams := h.perm_params
  have hmem : ∀ i ∈ group.inputs,
      tensorVar i ∈ (sortInputs lowered.inputs).map (·.varName) := fun i hi =>
    hparams.mem_iff.mpr (List.mem_map_of_mem hi)
  have hfs := h.fragments_ne_nil
  refine ⟨?_, ?_, ?_⟩
  · -- parameters are read and not produced inside, the rest is named after what is produced
    refine List.nodup_append.mpr ⟨hparams.nodup_iff.mpr (hdistinct.map tensorVar_injective),
      hnodes.names_nodup (outputs_nodup_of_grouped hg h.grouped), ?_⟩
    rintro v hv w hw rfl
    obtain ⟨i, hi, rfl⟩ := List.mem_map.mp (hparams.mem_iff.mp hv)
    obtain ⟨m, hm, hmv⟩ := hnodes.mem_vars hw
    rcases hmv with hmv | ⟨s, hmv⟩
    · have him : i = m.output := tensorVar_injective hmv
      exact ((h.grouped.mem_inputs_iff hg i).mp hi).2 (him ▸ List.mem_map_of_mem hm)
    · exact tensorVar_ne_temporary _ _ _ hmv
  · refine hnodes.wellScoped (hmem chain (List.mem_of_mem_head? hchain)) fun m hm v hv => ?_
    obtain ⟨i, hi, rfl⟩ := List.mem_map.mp hv
    exact hmem i (tail_mem_inputs h.grouped m hm i hi)
  · obtain ⟨f, hf⟩ : ∃ f, lowered.fragments.getLast? = some f :=
      ⟨_, List.getLast?_eq_some_getLast hfs⟩
    obtain ⟨m, -, hname, hvar⟩ := hnodes.getLast? hf
    have hresult : (assemble lowered.inputs lowered.fragments).result = tensorVar m.output := by
      rw [← hname, assemble, hf]
      rfl
    rw [hresult]
    refine List.mem_append_right _ (List.mem_map.mpr ?_)
    obtain ⟨stmt, hstmt, heq⟩ := List.mem_map.mp hvar
    exact ⟨stmt, List.mem_flatMap.mpr ⟨f, List.mem_of_getLast? hf, hstmt⟩, heq⟩

end LoweredAs

/-- The groups of an accepted graph, with their members. -/
lemma exists_loweredAs {g : AneGraph} (hg : g.Wf) {groups : List FusionGroup}
    (hgroups : FusionRules.computeGroups g = .ok groups) {group : FusionGroup}
    (hmem : group ∈ groups) {lowered : LoweredGroup F} (h : lowerGroup g group = .ok lowered) :
    LoweredAs g group (FusionRules.members g group) lowered := by
  obtain ⟨S⟩ := FusionRules.exists_schedule hg
  obtain rfl : S.groups = groups := Except.ok.inj (S.computed.symm.trans hgroups)
  exact lowerGroup_ok hg (S.grouped hmem) h

omit [MilFloat F] in
/-- A beta file is named after the node of its gamma file. -/
lemma betaFile_numeral (id : ℕ) :
    betaFile ("w" ++ toString id ++ ".bin") = "w" ++ toString id ++ "b.bin" := by
  have hdigits : (toString id).toList ≠ [] := by
    rw [Nat.toString_eq_repr, Nat.toList_repr]
    exact Nat.toDigits_ne_nil
  have hpos : 0 < (toString id).length := by
    rw [← String.length_toList]
    exact List.length_pos_of_ne_nil hdigits
  have hlen : ("w" ++ toString id ++ ".bin").length = (toString id).length + 5 := by
    simp only [String.length_append]
    have hw : "w".length = 1 := rfl
    have hbin : ".bin".length = 4 := rfl
    omega
  have hstem : ("w" ++ toString id ++ ".bin").toList.take ((toString id).length + 1) =
      ("w" ++ toString id).toList := by
    have hlength : ("w" ++ toString id).toList.length = (toString id).length + 1 := by
      rw [String.length_toList, String.length_append, Nat.add_comm]
      rfl
    rw [String.toList_append, List.take_left' hlength]
  rw [betaFile, if_pos (by omega), hlen, Nat.add_sub_assoc (by norm_num), hstem,
    String.ofList_toList]

omit [MilFloat F] in
/-- The weight files of a node have no colon in their names. -/
lemma avoids_nodeRefs {g : AneGraph} (hg : g.Wf) {n : GraphNode} (hn : n ∈ g.nodes)
    {inS outS : TensorShape} : ∀ r ∈ nodeRefs n inS outS, Avoids ':' r.2 := by
  have hnumeral : Avoids ':' (toString n.id) := avoids_toString_nat (by decide) n.id
  have hfile : Avoids ':' n.weightFile ∧ Avoids ':' (betaFile n.weightFile) := by
    rw [hg.weightFile_eq n hn, AneGraph.weightFileOf]
    split_ifs
    · exact ⟨by decide, by decide⟩
    · rw [betaFile_numeral]
      simp only [avoids_append, hnumeral, and_true]
      exact ⟨⟨by decide, by decide⟩, by decide, by decide⟩
  intro r hr
  unfold nodeRefs at hr
  split at hr <;> aesop

/-- **No fragment of a chain contains a colon.** -/
theorem LoweredNodes.plain {g : AneGraph} (hg : g.Wf) {chainVar : String} {ms : List GraphNode}
    {fs : List (MilFragment F)} {entries : List WeightEntry}
    (h : LoweredNodes g chainVar ms fs entries) (hms : ∀ m ∈ ms, m ∈ g.nodes)
    (hchain : Avoids ':' chainVar) : ∀ s ∈ fs.flatMap (·.body), s.Plain := by
  have hvar : ∀ id, Avoids ':' (tensorVar id) := avoids_tensorVar (by decide) (by decide)
  induction h with
  | nil => simp
  | @cons chainVar n rest f fs entries more hf he hrest ih =>
      obtain ⟨inT, outT, -, -, hemit⟩ := nodeToFragment_emitted hf
      intro s hs
      rw [List.flatMap_cons, List.mem_append] at hs
      rcases hs with hs | hs
      · refine hemit.plain (hvar _) (fun a ha => ?_)
          (avoids_nodeRefs hg (hms n List.mem_cons_self)) s hs
        rcases List.mem_cons.mp ha with rfl | ha
        · exact hchain
        · obtain ⟨id, -, rfl⟩ := List.mem_map.mp ha
          exact hvar id
      · exact ih (fun m hm => hms m (List.mem_cons_of_mem n hm)) (hvar _) s hs

/-- **An assembled program contains no colon.** -/
theorem LoweredAs.plain {g : AneGraph} (hg : g.Wf) {group : FusionGroup} {ms : List GraphNode}
    {lowered : LoweredGroup F} (h : LoweredAs g group ms lowered) :
    (assemble lowered.inputs lowered.fragments).Plain := by
  have hvar : ∀ id, Avoids ':' (tensorVar id) := avoids_tensorVar (by decide) (by decide)
  obtain ⟨chain, -, hnodes⟩ := h.nodes
  refine ⟨fun i hi => ?_, ?_, ?_⟩
  · obtain ⟨id, -, t, -, rfl⟩ := h.shapes i (mem_sortInputs.mp hi)
    exact hvar id
  · exact hnodes.plain hg h.grouped.resolves.2 (hvar chain)
  · obtain ⟨f, hf⟩ : ∃ f, lowered.fragments.getLast? = some f :=
      ⟨_, List.getLast?_eq_some_getLast h.fragments_ne_nil⟩
    obtain ⟨m, -, hname, -⟩ := hnodes.getLast? hf
    rw [assemble, hf, Option.map_some, Option.getD_some, hname]
    exact hvar m.output

/-- What a compiled group consists of. -/
theorem compileGroup_some {fw : AneFramework} {g : AneGraph} {group : FusionGroup}
    {ms : List GraphNode} (hg : g.Wf) (hgroup : FusionRules.Grouped g group ms) {name : String}
    {program : AneProgram} (h : compileGroup F fw g group name = .ok (some program)) :
    ∃ lowered : LoweredGroup F, lowerGroup g group = .ok lowered ∧
      LoweredAs g group ms lowered ∧
      program.milText = (assemble lowered.inputs lowered.fragments).render ∧
      program.weights = lowered.entries ∧
      program.inputParamNames = extractInputParams program.milText ∧ program.client = none := by
  obtain ⟨lowered, hl, h⟩ := bind_eq_ok.mp h
  obtain ⟨prog, hp, h⟩ := bind_eq_ok.mp h
  have has := lowerGroup_ok hg hgroup hl
  obtain ⟨prog', hp', htext⟩ := buildFused_eq has.inputs_ne_nil has.fragments_ne_nil
  obtain rfl : prog' = prog := Except.ok.inj (hp'.symm.trans hp)
  have hcompile := pure_eq_ok_iff.mp h
  unfold aneCompile at hcompile
  split_ifs at hcompile
  cases hcompile
  exact ⟨lowered, hl, has, htext, rfl, rfl, rfl⟩

/-- **Well-scoped single-assignment programs.**  When the lowering of a group with different
inputs returns, `build_fused` writes a function that defines every name at most once, reads only
what is defined before, and returns a name that is defined. -/
theorem assembly_wellScoped (G : AcceptedGraph) {groups : List FusionGroup}
    (hgroups : FusionRules.computeGroups G.graph = .ok groups) {group : FusionGroup}
    (hmem : group ∈ groups) (hdistinct : group.inputs.Nodup) {lowered : LoweredGroup F}
    (h : lowerGroup G.graph group = .ok lowered) :
    (assemble lowered.inputs lowered.fragments).SingleAssignment ∧
      ∃ prog, buildFused lowered.inputs lowered.fragments = .ok prog ∧
        prog.text = (assemble lowered.inputs lowered.fragments).render :=
  have hl := exists_loweredAs G.wf hgroups hmem h
  ⟨hl.singleAssignment G.wf hdistinct, buildFused_eq hl.inputs_ne_nil hl.fragments_ne_nil⟩

/-- The difference of two inputs, the later minus the earlier, and its `RELU`. -/
def clippedDifference : AcceptedGraph where
  graph := AneGraph.build [.AddInput "x" ⟨1, 1, 1, 16⟩, .AddInput "y" ⟨1, 1, 1, 16⟩,
    .AddOp .Sub [1, 0] ⟨1, 1, 1, 16⟩ [], .AddOp .Relu [2] ⟨1, 1, 1, 16⟩ [], .MarkOutput 3 ""]
  built := ⟨_, rfl⟩
  accepted := by decide

theorem assembly_wellScoped_difference : ∃ lowered : LoweredGroup Unit,
    lowerGroup clippedDifference.graph ⟨[0, 1], [1, 0], 3⟩ = .ok lowered ∧
      lowered.fragments.length = 2 ∧
      (assemble lowered.inputs lowered.fragments).SingleAssignment :=
  ⟨_, rfl, rfl,
    (assembly_wellScoped clippedDifference rfl (List.mem_singleton.mpr rfl) (by decide) rfl).1⟩

end MilBackend

end Libane
