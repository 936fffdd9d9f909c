import Libane.Graph.CompileTotal
import Libane.Graph.UniformAlloc

/-!
# The search for an allocation size

`compile` looks for one size that leaves every input and every marked output a channel stride
that is long enough and a multiple of 64.  It tries 40960 sizes; whether one of them was found is
forgotten.

* `IoFits` — the constraint on the size.
* `ioFits_iff` — from `searchStart` on the strides are long enough, and what is left of the
  constraint is about remainders.
* `io_alloc_fits_iff` — when the size of a compiled graph is one that the search found.
* `exists_fit_of_dvd` — a common multiple of the channel counts up to 40960 is enough.
-/

namespace Libane

namespace GraphCompiler

/-- Where the search starts: the largest tensor and the hardware's minimum, rounded up. -/
def searchStart (g : AneGraph) : ℕ :=
  roundUp (max ((g.tensors.map (·.shape.bytes)).foldl max 0) 49152) 64

/-- An allocation of `target` bytes leaves every input and every marked output of shape
`[1, C, 1, S]` a stride of at least `2 * S` bytes that is a multiple of 64. -/
def IoFits (g : AneGraph) (target : ℕ) : Prop :=
  ∀ id ∈ g.graphInputs ++ g.graphOutputs,
    2 * (g.shapeOf id).seq ≤ target / (g.shapeOf id).channels ∧
      (target / (g.shapeOf id).channels : ℤ) % 64 = 0

/-- The test of one shape. -/
lemma strideFits_iff {s : TensorShape} (hs : s.Valid) (target : ℕ) : strideFits target s = true ↔
    2 * s.seq ≤ target / s.channels ∧ (target / s.channels : ℤ) % 64 = 0 := by
  have hc := toSizeT_of_nonneg hs.channels_pos.le (by have := hs.channels_le; omega)
  have hq := toSizeT_of_nonneg hs.seq_pos.le (by have := hs.seq_le; omega)
  rw [← hc, ← hq]
  simp only [strideFits, Bool.not_eq_true', Bool.or_eq_false_iff, decide_eq_false_iff_not, not_lt,
    not_not]
  norm_cast
  rw [Nat.mul_comm]

lemma foldl_max_le {c : ℕ} : ∀ {l : List ℕ} {a : ℕ}, a ≤ c → (∀ b ∈ l, b ≤ c) → l.foldl max a ≤ c
  | [], _, ha, _ => ha
  | b :: l, _, ha, hl => by
      rw [List.foldl_cons]
      exact foldl_max_le (max_le ha (hl b List.mem_cons_self)) fun b' hb' =>
        hl b' (List.mem_cons_of_mem b hb')

/-- The largest entry of the size table is the largest size. -/
lemma largest_eq {g : AneGraph} (hg : g.Wf) :
    (Table.ofList (·.id) (·.shape.bytes) g.tensors).values.foldl max 0 =
      (g.tensors.map (·.shape.bytes)).foldl max 0 := by
  refine le_antisymm (foldl_max_le (Nat.zero_le _) fun b hb => ?_)
    (foldl_max_le (Nat.zero_le _) fun b hb => ?_)
  · obtain ⟨i, hi⟩ := Table.lookup_of_mem_values hb
    obtain ⟨t, ht, -, rfl⟩ := Table.mem_of_lookup_ofList hi
    exact le_foldl_max.2 _ (List.mem_map_of_mem (f := fun t : GraphTensor => t.shape.bytes) ht)
  · obtain ⟨t, ht, rfl⟩ := List.mem_map.mp hb
    exact le_foldl_max.2 _
      (Table.mem_values_of_lookup (Table.lookup_ofList hg.tensor_ids_nodup _ ht))

/-- The remainder by a product, from the quotient and the remainder by one factor. -/
lemma natCast_emod_mul (target : ℕ) {c : ℤ} (hc : 0 ≤ c) :
    (target : ℤ) % (64 * c) = c * (target / c % 64) + target % c := by
  obtain ⟨n, rfl⟩ := Int.eq_ofNat_of_zero_le hc
  rw [mul_comm 64, add_comm]
  exact_mod_cast Nat.mod_mul

section Graph

variable {g : AneGraph} (hg : g.Wf)

include hg

lemma io_lt {id : ℕ} (h : id ∈ g.graphInputs ++ g.graphOutputs) : id < g.tensors.length :=
  (List.mem_append.mp h).elim (hg.graphInput_lt id) (hg.graphOutput_lt id)

lemma io_valid {id : ℕ} (h : id ∈ g.graphInputs ++ g.graphOutputs) : (g.shapeOf id).Valid := by
  obtain ⟨t, ht, -, hv⟩ := hg.tensor_ok (io_lt hg h)
  rwa [AneGraph.shapeOf_eq ht]

/-- **The chosen size.**  The plan of a graph with an input gets the first size that fits, or the
size after those that were tried. -/
lemma chooseIoAlloc_spec (hne : g.graphInputs ≠ []) (groups : List FusionGroup) : ∃ io,
    chooseIoAlloc g {
      groups
      tensorBytes := Table.ofList (·.id) (·.shape.bytes) g.tensors
      bufferIds := groups.map (·.output)
      graphInputIds := g.graphInputs
      graphOutputIds := g.graphOutputs } = .ok io ∧
    ((∃ k < 40960, io = searchStart g + 64 * k ∧ IoFits g io) ∨
      io = searchStart g + 64 * 40960 ∧ ∀ k < 40960, ¬ IoFits g (searchStart g + 64 * k)) := by
  have hfits : ∀ target, (∀ id ∈ g.graphInputs ++ g.graphOutputs,
      strideFits target (g.shapeOf id) = true) ↔ IoFits g target := fun target =>
    forall₂_congr fun id hid => strideFits_iff (io_valid hg hid) target
  obtain ⟨x, hx⟩ := List.exists_mem_of_ne_nil _ hne
  obtain ⟨t, ht, -, hv⟩ := hg.tensor_ok (hg.graphInput_lt x hx)
  have hpos : 0 < (g.tensors.map (·.shape.bytes)).foldl max 0 := by
    have hle := (le_foldl_max (l := g.tensors.map (·.shape.bytes)) (a := 0)).2 _
      (List.mem_map_of_mem (List.mem_of_getElem? (AneGraph.tensor_eq_ok_iff.mp ht)))
    have hnum := hv.numel_eq
    have hprod := mul_pos hv.channels_pos hv.seq_pos
    have := hv.bytes_eq.2
    omega
  have hids : ∀ id ∈ g.graphInputs ++ g.graphOutputs, ∃ t, g.tensor id = .ok t := fun id hid =>
    (hg.tensor_ok (io_lt hg hid)).imp fun _ h => h.1
  obtain ⟨io, hio, hspec⟩ := searchTarget_spec hids 40960 (searchStart g)
  refine ⟨io, ?_, ?_⟩
  · simp only [chooseIoAlloc, largest_eq hg]
    rw [if_pos hpos]
    exact hio
  · simpa only [hfits] using hspec

/-- **What is left of the constraint.**  From the start of the search on, a size fits exactly when
its remainder modulo `64 * C` is less than `C` for every input and marked output. -/
lemma ioFits_iff {target : ℕ} (hle : searchStart g ≤ target) : IoFits g target ↔
    ∀ id ∈ g.graphInputs ++ g.graphOutputs,
      (target : ℤ) % (64 * (g.shapeOf id).channels) < (g.shapeOf id).channels := by
  refine forall₂_congr fun id hid => ?_
  obtain ⟨t, ht, -, hv⟩ := hg.tensor_ok (io_lt hg hid)
  rw [AneGraph.shapeOf_eq ht]
  have hc := hv.channels_pos
  have hbytes : 2 * t.shape.seq * t.shape.channels ≤ target := by
    have hlarge := (le_foldl_max (l := g.tensors.map (·.shape.bytes)) (a := 0)).2 _
      (List.mem_map_of_mem (List.mem_of_getElem? (AneGraph.tensor_eq_ok_iff.mp ht)))
    have hstart := le_roundUp (max ((g.tensors.map (·.shape.bytes)).foldl max 0) 49152)
    have hnum := hv.numel_eq
    have hb := hv.bytes_eq.2
    have hmax := le_max_left ((g.tensors.map (·.shape.bytes)).foldl max 0) 49152
    have hsize : (t.shape.bytes : ℤ) ≤ target := by
      unfold searchStart at hle
      exact_mod_cast hlarge.trans (hmax.trans (hstart.trans hle))
    calc 2 * t.shape.seq * t.shape.channels = 2 * (t.shape.channels * t.shape.seq) := by ring
      _ = t.shape.bytes := by rw [← hnum, hb]; push_cast; ring
      _ ≤ target := hsize
  have hlong : 2 * t.shape.seq ≤ target / t.shape.channels := (Int.le_ediv_iff_mul_le hc).mpr hbytes
  rw [and_iff_right hlong]
  rw [natCast_emod_mul target hc.le]
  have hr0 := Int.emod_nonneg (target : ℤ) hc.ne'
  have hrlt := Int.emod_lt_of_pos (target : ℤ) hc
  have hq0 := Int.emod_nonneg (target / t.shape.channels : ℤ) (by norm_num : (64 : ℤ) ≠ 0)
  constructor
  · intro h
    rw [h]
    simpa using hrlt
  · intro h
    by_contra hne
    have h1 : 1 ≤ (target / t.shape.channels : ℤ) % 64 := by omega
    nlinarith

end Graph

/-- **The search, decided.**  The size of a compiled graph is one that the search tried and found
to fit if and only if, for one of the 40960 sizes it tries, the remainder modulo `64 * C` is less
than `C` for every input and every marked output with `C` channels. -/
theorem io_alloc_fits_iff {α : Type} (dirt : ℕ → ℕ → α) (G : AcceptedGraph)
    (backend : CompilerBackend) (fw : AneFramework) (m : Memory α) {m' : Memory α}
    {cg : CompiledGraph}
    (h : compile dirt backend G.graph fw m = (.ok (some cg), m')) :
    (IoFits G.graph cg.ioAllocBytes ∧
      ∃ k < 40960, cg.ioAllocBytes = searchStart G.graph + 64 * k) ↔
    ∃ k < 40960, ∀ id ∈ G.graph.graphInputs ++ G.graph.graphOutputs,
      ((searchStart G.graph + 64 * k : ℕ) : ℤ) % (64 * (G.graph.shapeOf id).channels) <
        (G.graph.shapeOf id).channels := by
  obtain ⟨plan, hplan, hio⟩ := compile_ioAlloc h
  obtain ⟨-, groups, -, rfl⟩ := buildPlan_eq_ok hplan
  obtain ⟨io, hio', hspec⟩ := chooseIoAlloc_spec G.wf G.graphInputs_ne_nil groups
  obtain rfl : cg.ioAllocBytes = io := Except.ok.inj (hio.symm.trans hio')
  constructor
  · rintro ⟨hfits, k, hk, heq⟩
    exact ⟨k, hk, heq ▸ (ioFits_iff G.wf (by omega)).mp hfits⟩
  · rintro ⟨k, hk, hrem⟩
    have hfits := (ioFits_iff G.wf (Nat.le_add_right _ (64 * k))).mpr hrem
    rcases hspec with ⟨j, hj, heq, hio⟩ | ⟨-, hnone⟩
    · exact ⟨hio, j, hj, heq⟩
    · exact absurd hfits (hnone k hk)

/-- Tensors of five, two and seven channels: the third size suits them all. -/
theorem io_alloc_fits_iff_joined : ∃ (cg : CompiledGraph) (m' : Memory ℕ),
    compile (fun _ _ => 3) GraphExecutor.plainBackend GraphExecutor.joined.graph
      ⟨true, fun _ _ => true⟩ (PoolUsers.start 4).memory = (.ok (some cg), m') ∧
    IoFits GraphExecutor.joined.graph cg.ioAllocBytes :=
  ⟨_, _, rfl, ((io_alloc_fits_iff (fun _ _ => 3) GraphExecutor.joined GraphExecutor.plainBackend
    ⟨true, fun _ _ => true⟩ (PoolUsers.start 4 : PoolUsers ℕ).memory rfl).mpr
    ⟨2, by decide, by decide⟩).1⟩

/-- **A sufficient condition.**  The search succeeds when the channel counts of all inputs and
marked outputs have a common multiple up to 40960. -/
theorem exists_fit_of_dvd {g : AneGraph} (hg : g.Wf) {l : ℕ} (hl : 0 < l) (hl' : l ≤ 40960)
    (hdvd : ∀ id ∈ g.graphInputs ++ g.graphOutputs, (g.shapeOf id).channels ∣ l) :
    ∃ k < 40960, ∀ id ∈ g.graphInputs ++ g.graphOutputs,
      ((searchStart g + 64 * k : ℕ) : ℤ) % (64 * (g.shapeOf id).channels) <
        (g.shapeOf id).channels := by
  -- round the start up to a multiple of `64 * l`
  obtain ⟨s, hs⟩ : ∃ s, searchStart g = s * 64 := ⟨_, rfl⟩
  have hlt := Nat.mod_lt s hl
  have hround : l ∣ s + (l - s % l) % l := by
    have hsplit := Nat.div_add_mod s l
    rcases Nat.eq_zero_or_pos (s % l) with h0 | hpos
    · rw [h0, Nat.sub_zero, Nat.mod_self, Nat.add_zero]
      exact Nat.dvd_of_mod_eq_zero h0
    · rw [Nat.mod_eq_of_lt (by omega)]
      exact ⟨s / l + 1, by rw [Nat.mul_add]; omega⟩
  refine ⟨(l - s % l) % l, (Nat.mod_lt _ hl).trans_le hl', fun id hid => ?_⟩
  have hc := (io_valid hg hid).channels_pos
  have hmul :
      64 * (g.shapeOf id).channels ∣ ((searchStart g + 64 * ((l - s % l) % l) : ℕ) : ℤ) := by
    have heq : searchStart g + 64 * ((l - s % l) % l) = 64 * (s + (l - s % l) % l) := by
      rw [hs]
      ring
    rw [heq, Nat.cast_mul]
    exact mul_dvd_mul_left _ ((hdvd id hid).trans (Int.natCast_dvd_natCast.mpr hround))
  rw [Int.emod_eq_zero_of_dvd hmul]
  exact hc

/-- A compilation, from its plan, the chosen size and its group loop. -/
lemma compile_eq {α : Type} {dirt : ℕ → ℕ → α} {backend : CompilerBackend} {g : AneGraph}
    {fw : AneFramework} {m m₁ : Memory α} {plan : ExecutionPlan} {io : ℕ}
    {groups : List CompiledPlanGroup} {bufs : Table ℕ} (hplan : buildPlan g = .ok plan)
    (hav : fw.available = true) (hio : chooseIoAlloc g plan = .ok io)
    (hloop : compileGroups dirt backend g io plan.groups [] ∅ m =
      (.ok (some (groups, bufs)), m₁)) :
    compile dirt backend g fw m = (.ok (some {
      groups
      ioAllocBytes := io
      aneBufs := bufs
      tensorBytes := plan.tensorBytes
      tensorShapes := Table.ofList (·.id) (·.shape) g.tensors
      graphInputIds := plan.graphInputIds
      graphOutputIds := plan.graphOutputIds }), m₁) := by
  rw [compile, hplan]
  show compilePlan dirt backend g fw m plan = _
  rw [compilePlan, if_neg (by simp [hav]), hio]
  dsimp only
  rw [hloop]

/-- `RELU` on 16384 and on 12000 channels. -/
def wideGraph : AneGraph :=
  AneGraph.build [.AddInput "x" ⟨1, 16384, 1, 16⟩, .AddInput "y" ⟨1, 12000, 1, 16⟩,
    .AddOp .Relu [0] ⟨1, 16384, 1, 16⟩ [], .AddOp .Relu [1] ⟨1, 12000, 1, 16⟩ [],
    .MarkOutput 2 "", .MarkOutput 3 ""]

/-- No size that the search tries suits this graph; it is compiled with the size after them,
which leaves the second input a stride of 262 bytes. -/
theorem wide_graph_misses : GraphValidator.validate wideGraph = .ok [] ∧
    (∀ k < 40960, ¬ IoFits wideGraph (searchStart wideGraph + 64 * k)) ∧
    ∃ (cg : CompiledGraph) (m' : Memory ℕ),
      compile (fun _ _ => 3) GraphExecutor.plainBackend wideGraph ⟨true, fun _ _ => true⟩
        (PoolUsers.start 4).memory = (.ok (some cg), m') ∧
      cg.ioAllocBytes = 3145728 ∧ ¬ IoFits wideGraph cg.ioAllocBytes ∧
      3145728 / (wideGraph.shapeOf 1).channels = 262 := by
  have hwf : wideGraph.Wf := AneGraph.wf_build _
  have hstart : searchStart wideGraph = 524288 := by decide
  have hnone : ∀ k < 40960, ¬ IoFits wideGraph (searchStart wideGraph + 64 * k) := by
    intro k hk h
    rw [ioFits_iff hwf (Nat.le_add_right _ _), hstart] at h
    have h0 : ((524288 + 64 * k : ℕ) : ℤ) % (64 * 16384) < 16384 := h 0 (by decide)
    have h1 : ((524288 + 64 * k : ℕ) : ℤ) % (64 * 12000) < 12000 := h 1 (by decide)
    -- a multiple of `2 ^ 20` up to three times that, and none of 768000 near it
    have hq : ((524288 + 64 * k : ℕ) : ℤ) / (64 * 16384) = 0 ∨
        ((524288 + 64 * k : ℕ) : ℤ) / (64 * 16384) = 1 ∨
        ((524288 + 64 * k : ℕ) : ℤ) / (64 * 16384) = 2 := by omega
    rcases hq with hq | hq | hq <;> omega
  have hmiss : ¬ IoFits wideGraph 3145728 := by
    intro h
    have h1 : (3145728 / 12000 : ℤ) % 64 = 0 := (h 1 (by decide)).2
    omega
  obtain ⟨io, hio, hspec⟩ := chooseIoAlloc_spec hwf (by decide) [⟨[0], [0], 2⟩, ⟨[1], [1], 3⟩]
  obtain rfl : io = 3145728 := by
    rcases hspec with ⟨k, hk, rfl, hfits⟩ | ⟨rfl, -⟩
    · exact absurd hfits (hnone k hk)
    · rw [hstart]
  refine ⟨by decide, hnone, ?_⟩
  have hplan : buildPlan wideGraph = .ok {
      groups := [⟨[0], [0], 2⟩, ⟨[1], [1], 3⟩]
      tensorBytes := Table.ofList (·.id) (·.shape.bytes) wideGraph.tensors
      bufferIds := [2, 3]
      graphInputIds := wideGraph.graphInputs
      graphOutputIds := wideGraph.graphOutputs } := rfl
  exact ⟨_, _, compile_eq hplan rfl hio rfl, rfl, hmiss, by decide⟩

end GraphCompiler

end Libane
