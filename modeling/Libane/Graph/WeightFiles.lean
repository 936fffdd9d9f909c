import Libane.Graph.CompileTotal

/-!
# Weight files

The text of a program and its weight files come from different functions.  The text declares a
type for every file that it refers to; the files are built from the weight bytes of the nodes and
named after the nodes.

* `Resolves` — a reference names one file, whose payload has the declared size.
* `LoweredNodes.filenames_nodup` — the files of a group have different names.
* `node_entry` — the file behind each reference of a node, and when its size is right.
* `weight_references_resolve_iff` — all references of a group resolve exactly when its
  normalisations keep the number of channels.
-/

namespace Libane

open GraphValidator MilBuilder WeightBlob Names Bytes

/-- The size of a weight file without its header. -/
def WeightEntry.payload (e : WeightEntry) : ℤ := e.data.length - kDataOffset

/-- The size that a weight file records in bytes 72 to 75. -/
def WeightEntry.sizeField (e : WeightEntry) : ℕ := ofLE ((e.data.drop 72).take 4)

namespace MilBackend

/-- The reference names exactly one of the files, and that file has the declared size. -/
def Resolves (entries : List WeightEntry) (ref : MilType × String) : Prop :=
  ∃ e ∈ entries, e.filename = ref.2 ∧ (∀ e' ∈ entries, e'.filename = ref.2 → e' = e) ∧
    e.payload = 2 * ref.1.elements ∧ e.sizeField = e.payload

/-- Among files with different names, a reference to a blob resolves when the sizes agree. -/
lemma resolves_iff {entries : List WeightEntry} (hnodup : (entries.map (·.filename)).Nodup)
    {type : MilType} {file : String} {data : List UInt8} (hmem : ⟨file, makeBlob data⟩ ∈ entries)
    (hlt : data.length < 2 ^ 32) :
    Resolves entries (type, file) ↔ (data.length : ℤ) = 2 * type.elements := by
  have honly : ∀ e' ∈ entries, e'.filename = file → e' = ⟨file, makeBlob data⟩ := fun e' he' h =>
    List.inj_on_of_nodup_map hnodup he' hmem h
  have hpayload : WeightEntry.payload ⟨file, makeBlob data⟩ = data.length := by
    simp [WeightEntry.payload]
  have hfield : WeightEntry.sizeField ⟨file, makeBlob data⟩ = data.length := by
    rw [WeightEntry.sizeField, sizeField_makeBlob, Nat.mod_eq_of_lt hlt]
  constructor
  · rintro ⟨e, he, hname, -, hsize, -⟩
    rw [honly e he hname, hpayload] at hsize
    exact hsize
  · intro hsize
    exact ⟨_, hmem, rfl, honly, by rw [hpayload]; exact hsize, by rw [hpayload, hfield]⟩

/-! ## Names -/

/-- The file is named after the node. -/
def NamedAfter (id : ℕ) (file : String) : Prop :=
  file = "w" ++ toString id ++ ".bin" ∨ file = "w" ++ toString id ++ "b.bin"

lemma gamma_toList (id : ℕ) : ("w" ++ toString id ++ ".bin").toList =
    'w' :: ((toString id).toList ++ '.' :: ['b', 'i', 'n']) := by
  simp

lemma beta_toList (id : ℕ) : ("w" ++ toString id ++ "b.bin").toList =
    'w' :: ((toString id).toList ++ 'b' :: ['.', 'b', 'i', 'n']) := by
  simp

/-- A file is named after one node. -/
lemma NamedAfter.inj {i j : ℕ} {file : String} (hi : NamedAfter i file) (hj : NamedAfter j file) :
    i = j := by
  rcases hi with rfl | rfl <;> rcases hj with hj | hj <;>
  · have h := congrArg String.toList hj
    simp only [gamma_toList, beta_toList, List.cons.injEq, true_and] at h
    exact (numeral_append_inj (by decide) (by decide) h).1

/-- A node with weights has a weight file. -/
lemma weightFile_eq_numeral {g : AneGraph} (hg : g.Wf) {n : GraphNode} (hn : n ∈ g.nodes)
    (hw : n.weights ≠ []) : n.weightFile = "w" ++ toString n.id ++ ".bin" := by
  rw [hg.weightFile_eq n hn, AneGraph.weightFileOf, if_neg (by simpa using hw)]

lemma numeral_ne_empty (id : ℕ) : "w" ++ toString id ++ ".bin" ≠ "" := by
  intro h
  have h := congrArg String.toList h
  rw [gamma_toList] at h
  simp at h

section Entries

variable {g : AneGraph} {n : GraphNode} {entries : List WeightEntry}

/-- The files of a node are named after it and have different names. -/
lemma weightEntries_named (hg : g.Wf) (hn : n ∈ g.nodes)
    (h : weightEntries g n = .ok entries) :
    (∀ e ∈ entries, NamedAfter n.id e.filename) ∧ (entries.map (·.filename)).Nodup := by
  unfold weightEntries at h
  split_ifs at h with hnone
  · obtain rfl := Except.ok.inj h
    exact ⟨by simp, List.nodup_nil⟩
  push Not at hnone
  have hfile := weightFile_eq_numeral hg hn hnone.2
  split at h
  · obtain rfl := Except.ok.inj h
    rw [hfile, betaFile_numeral]
    exact ⟨by simp [NamedAfter], by simp⟩
  · obtain rfl := Except.ok.inj h
    rw [hfile, betaFile_numeral]
    exact ⟨by simp [NamedAfter], by simp⟩
  · split at h
    · cases h
    obtain ⟨inT, -, h⟩ := bind_eq_ok.mp h
    obtain ⟨outT, -, h⟩ := bind_eq_ok.mp h
    obtain ⟨data, -, h⟩ := bind_eq_ok.mp h
    obtain rfl := pure_eq_ok_iff.mp h
    exact ⟨by simp [NamedAfter, hfile], by simp⟩
  · obtain rfl := Except.ok.inj h
    exact ⟨by simp [NamedAfter, hfile], by simp⟩

end Entries

section Chains

variable {F : Type} [MilFloat F] {g : AneGraph} {chainVar : String} {ms : List GraphNode}
  {fs : List (MilFragment F)} {entries : List WeightEntry}

/-- Where the files of a chain come from. -/
lemma LoweredNodes.mem_entries (h : LoweredNodes g chainVar ms fs entries) (e : WeightEntry) :
    e ∈ entries ↔ ∃ m ∈ ms, ∃ es, weightEntries g m = .ok es ∧ e ∈ es := by
  induction h with
  | nil => simp
  | @cons chainVar n rest f fs entries more hf he hrest ih =>
      rw [List.mem_append, ih, List.exists_mem_cons_iff]
      refine or_congr_left ⟨fun hmem => ⟨entries, he, hmem⟩, ?_⟩
      rintro ⟨es, hes, hmem⟩
      rwa [Except.ok.inj (he.symm.trans hes)]

/-- Where the references of a chain come from. -/
lemma LoweredNodes.mem_files (h : LoweredNodes g chainVar ms fs entries)
    (ref : MilType × String) :
    ref ∈ (fs.flatMap (·.body)).flatMap (·.files) ↔ ∃ m ∈ ms,
      ref ∈ nodeRefs m (g.shapeOf (m.inputs.headD kInvalidTensorId)) (g.shapeOf m.output) := by
  induction h with
  | nil => simp
  | @cons chainVar n rest f fs entries more hf he hrest ih =>
      obtain ⟨inT, outT, hin, hout, hemit⟩ := nodeToFragment_emitted hf
      rw [List.flatMap_cons, List.flatMap_append, List.mem_append, ih, List.exists_mem_cons_iff,
        hemit.refs_eq, AneGraph.shapeOf_eq hin, AneGraph.shapeOf_eq hout]

/-- **Different names.**  No two files of a chain of different nodes have the same name. -/
theorem LoweredNodes.filenames_nodup (hg : g.Wf) (h : LoweredNodes g chainVar ms fs entries)
    (hms : ∀ m ∈ ms, m ∈ g.nodes) (hids : (ms.map (·.id)).Nodup) :
    (entries.map (·.filename)).Nodup := by
  induction h with
  | nil => exact List.nodup_nil
  | @cons chainVar n rest f fs entries more hf he hrest ih =>
      obtain ⟨hnew, hids⟩ := List.nodup_cons.mp hids
      have hrest' : ∀ m ∈ rest, m ∈ g.nodes := fun m hm => hms m (List.mem_cons_of_mem n hm)
      obtain ⟨hnamed, hnodup⟩ := weightEntries_named hg (hms n List.mem_cons_self) he
      rw [List.map_append]
      refine List.nodup_append.mpr ⟨hnodup, ih hrest' hids, fun a ha b hb hab => ?_⟩
      obtain ⟨e, hmem, rfl⟩ := List.mem_map.mp ha
      obtain ⟨e', hmem', rfl⟩ := List.mem_map.mp hb
      obtain ⟨m, hm, es, hes, hin⟩ := (hrest.mem_entries e').mp hmem'
      have hnamed' := (weightEntries_named hg (hrest' m hm) hes).1 e' hin
      have hid : n.id = m.id := (hnamed e hmem).inj (hab ▸ hnamed')
      exact hnew (List.mem_map.mpr ⟨m, hm, hid.symm⟩)

end Chains

/-! ## Sizes -/

/-- The operations that scale every channel by a weight. -/
def IsNorm (op : LibaneOp) : Prop := op = .Rmsnorm ∨ op = .Layernorm ∨ op = .LayerNorm

instance (op : LibaneOp) : Decidable (IsNorm op) := by
  unfold IsNorm
  infer_instance

/-- The node keeps the number of channels, if it is a normalisation. -/
def NormKeepsChannels (g : AneGraph) (n : GraphNode) : Prop :=
  IsNorm n.op → (g.shapeOf (n.inputs.headD kInvalidTensorId)).channels =
    (g.shapeOf n.output).channels

instance (g : AneGraph) (n : GraphNode) : Decidable (NormKeepsChannels g n) := by
  unfold NormKeepsChannels
  infer_instance

section Sizes

variable (G : AcceptedGraph) {n : GraphNode} {entries : List WeightEntry}

omit G in
/-- The size of a vector with one element for each channel. -/
lemma vector_bytes {s : TensorShape} (hs : s.Valid) {k len : ℕ} (hk : k ≤ 4)
    (h : len = toSizeT s.channels * k % 2 ^ 64) : (len : ℤ) = k * s.channels := by
  have hc := toSizeT_of_nonneg hs.channels_pos.le (by have := hs.channels_le; omega)
  have hle := Nat.mul_le_mul hs.sizes_le.1 hk
  rw [h, Nat.mod_eq_of_lt (by omega)]
  push_cast
  rw [hc, mul_comm]

omit G in
/-- The files of a node that has one file, holding its weight bytes. -/
lemma single_entry (hfile : n.weightFile ≠ "") (hw : n.weights ≠ [])
    {g : AneGraph} (hop : ∀ {r}, n.op = r → r ≠ .Layernorm ∧ r ≠ .LayerNorm ∧ r ≠ .Matmul)
    (h : weightEntries g n = .ok entries) : entries = [⟨n.weightFile, makeBlob n.weights⟩] := by
  rw [weightEntries, if_neg (by simp [hfile, hw])] at h
  obtain ⟨h1, h2, h3⟩ := hop rfl
  split at h
  · exact absurd ‹_› h1
  · exact absurd ‹_› h2
  · exact absurd ‹_› h3
  · exact (Except.ok.inj h).symm

/-- **The file behind a reference** of a node, and when it has the declared size. -/
lemma node_entry (hn : n ∈ G.graph.nodes) (h : weightEntries G.graph n = .ok entries) :
    ∀ ref ∈ nodeRefs n (G.graph.shapeOf (n.inputs.headD kInvalidTensorId))
        (G.graph.shapeOf n.output),
      ∃ data, ⟨ref.2, makeBlob data⟩ ∈ entries ∧ data.length < 2 ^ 32 ∧
        ((data.length : ℤ) = 2 * ref.1.elements ↔ NormKeepsChannels G.graph n) := by
  obtain ⟨inT, outT, hin, hout, hinv, houtv⟩ := exists_tensors G hn
  obtain ⟨outT', hout', herr⟩ := G.opErrors_eq_nil hn
  obtain rfl : outT = outT' := Except.ok.inj (hout.symm.trans hout')
  have hnamed : n.weights ≠ [] → n.weightFile ≠ "" := fun hw => by
    rw [weightFile_eq_numeral G.wf hn hw]
    exact numeral_ne_empty n.id
  have hc := houtv.channels_pos
  have hc' := houtv.channels_le
  unfold NormKeepsChannels
  rw [AneGraph.shapeOf_eq hin, AneGraph.shapeOf_eq hout]
  -- a mask of the shape of the output
  have hmask : n.weights ≠ [] → n.weights.length = outT.shape.bytes →
      n.weights.length < 2 ^ 32 ∧ (n.weights.length : ℤ) =
        2 * (tensorType (shapeOf outT.shape.channels outT.shape.seq)).elements := by
    intro hw hlen
    have hnumel := houtv.numel_eq
    have hbytes := houtv.bytes_eq.2
    have hle : outT.shape.channels * outT.shape.seq ≤ 16384 * 65536 :=
      mul_le_mul houtv.channels_le houtv.seq_le houtv.seq_pos.le (by norm_num)
    have hel : (tensorType (shapeOf outT.shape.channels outT.shape.seq)).elements =
        outT.shape.channels * outT.shape.seq := by
      simp [tensorType, MilType.elements, shapeOf]
    rw [hel]
    omega
  cases hop : n.op <;> simp only [nodeRefs, hop, List.not_mem_nil, false_imp_iff, implies_true]
  case Rmsnorm =>
    simp only [opErrors, hop, Except.ok.injEq, rmsnormErrors_eq_nil_iff] at herr
    have hlen := vector_bytes houtv (by norm_num) herr.2
    have hw : n.weights ≠ [] := List.ne_nil_of_length_pos (by omega)
    rw [single_entry (hnamed hw) hw (by simp [hop]) h]
    simp only [List.mem_singleton, forall_eq, columnType, MilType.elements, IsNorm]
    refine ⟨n.weights, rfl, by omega, ?_⟩
    simp
    omega
  case Layernorm | LayerNorm =>
    simp only [opErrors, hop, Except.ok.injEq, layernormErrors_eq_nil_iff] at herr
    have hlen := vector_bytes houtv (by norm_num) herr.2
    have hw : n.weights ≠ [] := List.ne_nil_of_length_pos (by omega)
    rw [weightEntries, if_neg (by simp [hnamed hw, hw])] at h
    simp only [hop] at h
    obtain rfl := Except.ok.inj h
    simp only [List.mem_cons, List.not_mem_nil, or_false, forall_eq_or_imp, forall_eq, columnType,
      MilType.elements, IsNorm]
    refine ⟨⟨_, Or.inl rfl, ?_⟩, ⟨_, Or.inr rfl, ?_⟩⟩
    · simp
      omega
    · simp
      omega
  case Scatter | ScatterNd | ScatterAlongAxis =>
    simp only [opErrors, hop] at herr
    obtain ⟨x, y, a, b, -, -, -, hw, -, -, hlen⟩ := scatterErrors_eq_nil_iff.mp herr
    obtain ⟨hlt, heq⟩ := hmask hw hlen
    rw [single_entry (hnamed hw) hw (by simp [hop]) h]
    simp only [List.mem_singleton, forall_eq, IsNorm]
    exact ⟨n.weights, rfl, hlt, by simp [heq]⟩
  case Gather =>
    simp only [opErrors, hop] at herr
    split_ifs with hone
    swap
    · simp
    rcases gatherErrors_eq_nil_iff.mp herr with ⟨x, t, -, -, hw, -, hlen⟩ | ⟨x, m, a, b, hxm, -⟩
    swap
    · rw [hxm] at hone
      simp at hone
    obtain ⟨hlt, heq⟩ := hmask hw hlen
    rw [single_entry (hnamed hw) hw (by simp [hop]) h]
    simp only [List.mem_singleton, forall_eq, IsNorm]
    exact ⟨n.weights, rfl, hlt, by simp [heq]⟩
  case Matmul =>
    simp only [opErrors, hop, Except.ok.injEq, matmulErrors_eq_nil_iff] at herr
    obtain ⟨hone, hlen⟩ := herr
    obtain ⟨x, hx⟩ := List.length_eq_one_iff.mp hone
    rw [hx] at hin
    change G.graph.tensor x = .ok inT at hin
    have hfirst : firstChannels G.graph n = inT.shape.channels := by
      simp [firstChannels, hx, AneGraph.tensor_eq_ok_iff.mp hin]
    rw [hfirst, matrix_bytes hinv houtv] at hlen
    have hw : n.weights ≠ [] := fun hw => by
      rw [hw] at hlen
      have := hinv.channels_pos
      have : 0 < inT.shape.channels.toNat * outT.shape.channels.toNat :=
        Nat.mul_pos (by omega) (by omega)
      simp at hlen
      omega
    rw [weightEntries, if_neg (by simp [hnamed hw, hw])] at h
    simp only [hop, hx, hin, hout, ok_bind, fromFp16Transposed] at h
    rw [if_neg (by omega)] at h
    obtain rfl := pure_eq_ok_iff.mp h
    have hin0 := hinv.channels_pos
    have hin1 := hinv.channels_le
    have hle : outT.shape.channels.toNat * inT.shape.channels.toNat ≤ 16384 * 16384 :=
      Nat.mul_le_mul (by omega) (by omega)
    have hcast : ((outT.shape.channels.toNat * inT.shape.channels.toNat : ℕ) : ℤ) =
        outT.shape.channels * inT.shape.channels := by
      rw [Nat.cast_mul, Int.toNat_of_nonneg hc.le, Int.toNat_of_nonneg hin0.le]
    simp only [List.mem_singleton, forall_eq, IsNorm]
    refine ⟨_, rfl, ?_, ?_⟩
    · rw [length_ofHalves, length_transpose]
      omega
    · rw [length_ofHalves, length_transpose]
      simp [MilType.elements, ← hcast]

end Sizes

/-! ## Groups -/

/-- A normalisation refers to a file. -/
lemma nodeRefs_ne_nil {n : GraphNode} (h : IsNorm n.op) (inS outS : TensorShape) :
    nodeRefs n inS outS ≠ [] := by
  rcases h with h | h | h <;> simp [nodeRefs, h]

/-- **Weight references.**  The files of a group have different names, and every reference of its
program names exactly one of them, of the declared size: this holds if and only if the
normalisations in the group keep the number of channels. -/
theorem weight_references_resolve_iff {F : Type} [MilFloat F] (G : AcceptedGraph)
    {groups : List FusionGroup} (hgroups : FusionRules.computeGroups G.graph = .ok groups)
    {group : FusionGroup} (hmem : group ∈ groups) {lowered : LoweredGroup F}
    (h : lowerGroup G.graph group = .ok lowered) :
    ((lowered.entries.map (·.filename)).Nodup ∧
      ∀ ref ∈ (assemble lowered.inputs lowered.fragments).body.flatMap (·.files),
        Resolves lowered.entries ref) ↔
      ∀ n ∈ FusionRules.members G.graph group, NormKeepsChannels G.graph n := by
  have hl := exists_loweredAs G.wf hgroups hmem h
  obtain ⟨chain, -, hnodes⟩ := hl.nodes
  obtain ⟨hids, hms⟩ := hl.grouped.resolves
  have hnames : (lowered.entries.map (·.filename)).Nodup := by
    refine hnodes.filenames_nodup G.wf hms ?_
    have houts := outputs_nodup_of_grouped G.wf hl.grouped
    refine (List.Nodup.of_map _ houts).map_on fun a ha b hb hab => ?_
    have hb' := G.wf.node_ok (hms b hb)
    rw [← hab] at hb'
    exact Except.ok.inj ((G.wf.node_ok (hms a ha)).symm.trans hb')
  -- a reference of a member resolves exactly when the member keeps the channels
  have hmember : ∀ n ∈ FusionRules.members G.graph group,
      ∀ ref ∈ nodeRefs n (G.graph.shapeOf (n.inputs.headD kInvalidTensorId))
        (G.graph.shapeOf n.output),
      (Resolves lowered.entries ref ↔ NormKeepsChannels G.graph n) := by
    rintro n hn ⟨type, file⟩ href
    obtain ⟨es, hes⟩ := weightEntries_ok G (hms n hn)
    obtain ⟨data, hdata, hlt, hsize⟩ := node_entry G (hms n hn) hes _ href
    rw [← hsize]
    exact resolves_iff hnames ((hnodes.mem_entries _).mpr ⟨n, hn, es, hes, hdata⟩) hlt
  rw [show (assemble lowered.inputs lowered.fragments).body = lowered.fragments.flatMap (·.body)
    from rfl]
  constructor
  · rintro ⟨-, hall⟩ n hn hnorm
    obtain ⟨ref, href⟩ := List.exists_mem_of_ne_nil _ (nodeRefs_ne_nil hnorm
      (G.graph.shapeOf (n.inputs.headD kInvalidTensorId)) (G.graph.shapeOf n.output))
    exact (hmember n hn ref href).mp (hall ref ((hnodes.mem_files ref).mpr ⟨n, hn, href⟩)) hnorm
  · intro hkeep
    refine ⟨hnames, fun ref href => ?_⟩
    obtain ⟨n, hn, href⟩ := (hnodes.mem_files ref).mp href
    exact (hmember n hn ref href).mpr (hkeep n hn)

/-- `LAYERNORM` of two channels, and a product by a matrix of two rows and three columns. -/
def normThenMatmul : AcceptedGraph where
  graph := AneGraph.build [.AddInput "x" ⟨1, 2, 1, 16⟩,
    .AddOp .Layernorm [0] ⟨1, 2, 1, 16⟩ [0, 60, 0, 60, 0, 0, 0, 0],
    .AddOp .Matmul [1] ⟨1, 3, 1, 16⟩ [0, 60, 0, 64, 0, 66, 0, 68, 0, 69, 0, 70], .MarkOutput 2 ""]
  built := ⟨_, rfl⟩
  accepted := by decide

theorem weight_references_resolve_iff_layernorm : ∃ lowered : LoweredGroup Unit,
    lowerGroup normThenMatmul.graph ⟨[0, 1], [0], 2⟩ = .ok lowered ∧
      lowered.entries.map (·.filename) = ["w0.bin", "w0b.bin", "w1.bin"] ∧
      ∀ ref ∈ (assemble lowered.inputs lowered.fragments).body.flatMap (·.files),
        Resolves lowered.entries ref :=
  ⟨_, rfl, rfl, ((weight_references_resolve_iff normThenMatmul rfl (List.mem_singleton.mpr rfl)
    rfl).mpr (by decide)).2⟩

/-- `RMSNORM` of two channels to one, with the weight of one channel. -/
def narrowingRmsnorm : AcceptedGraph where
  graph := AneGraph.build [.AddInput "x" ⟨1, 2, 1, 16⟩,
    .AddOp .Rmsnorm [0] ⟨1, 1, 1, 16⟩ [0, 60], .MarkOutput 1 ""]
  built := ⟨_, rfl⟩
  accepted := by decide

/-- The text declares two elements, the file has one. -/
theorem narrowing_file_too_short : ∃ lowered : LoweredGroup Unit,
    lowerGroup narrowingRmsnorm.graph ⟨[0], [0], 1⟩ = .ok lowered ∧
      (assemble lowered.inputs lowered.fragments).body.flatMap (·.files) =
        [(columnType 2, "w0.bin")] ∧
      (columnType 2).elements = 2 ∧ lowered.entries = [⟨"w0.bin", makeBlob [0, 60]⟩] ∧
      WeightEntry.payload ⟨"w0.bin", makeBlob [0, 60]⟩ = 2 ∧
      ¬ Resolves lowered.entries (columnType 2, "w0.bin") := by
  refine ⟨_, rfl, rfl, rfl, rfl, by simp [WeightEntry.payload], fun h => ?_⟩
  obtain ⟨e, he, -, -, hsize, -⟩ := h
  obtain rfl := List.mem_singleton.mp he
  rw [show (columnType 2, "w0.bin").1.elements = 2 from rfl] at hsize
  simp [WeightEntry.payload, fromFp16] at hsize

end MilBackend

end Libane
