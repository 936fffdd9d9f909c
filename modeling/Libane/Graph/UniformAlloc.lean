import Libane.Graph.Calls

/-!
# Uniform allocation

One allocation size serves all surfaces of a compiled graph.

A buffer for a tensor has the size of the tensor or the size that is asked for as a minimum,
whichever is larger, and the pool recycles buffers of exactly the size that is needed.  The common
size is the minimum for all surfaces, and no tensor is larger, so no surface is.

* `chooseIoAlloc_ge` — it is at least as large as every tensor and as the smallest surface.
* `uniform_io_alloc` — whatever is recycled from the pool, every surface that a call hands to
  `ane_execute_multi` has exactly this size, so its checks of the sizes never fail.
-/

namespace Libane

namespace GraphCompiler

/-! ## The size -/

lemma le_foldl_max : ∀ {l : List ℕ} {a : ℕ}, a ≤ l.foldl max a ∧ ∀ b ∈ l, b ≤ l.foldl max a
  | [], a => ⟨le_rfl, by simp⟩
  | c :: l, a => by
      obtain ⟨hstart, hrest⟩ := le_foldl_max (l := l) (a := max a c)
      refine ⟨(le_max_left a c).trans hstart, fun b hb => ?_⟩
      rcases List.mem_cons.mp hb with rfl | hb
      · exact (le_max_right a b).trans hstart
      · exact hrest b hb

lemma le_roundUp (x : ℕ) : x ≤ roundUp x 64 := by
  unfold roundUp
  omega

/-- The search only ever goes up. -/
lemma searchTarget_ge {g : AneGraph} {ids : List ℕ} : ∀ {n target io : ℕ},
    searchTarget g ids n target = .ok io → target ≤ io
  | 0, target, io, h => (Except.ok.inj h).le
  | n + 1, target, io, h => by
      obtain ⟨b, -, h⟩ := bind_eq_ok.mp h
      split_ifs at h
      · exact (pure_eq_ok_iff.mp h).le
      · exact (Nat.le_add_right target 64).trans (searchTarget_ge h)

/-- The chosen size suits the largest tensor and the hardware. -/
lemma chooseIoAlloc_ge {g : AneGraph} {plan : ExecutionPlan} {io : ℕ}
    (h : chooseIoAlloc g plan = .ok io) (hpos : ∃ b ∈ plan.tensorBytes.values, 0 < b) :
    49152 ≤ io ∧ ∀ b ∈ plan.tensorBytes.values, b ≤ io := by
  have hlargest := (le_foldl_max (l := plan.tensorBytes.values) (a := 0)).2
  obtain ⟨b, hb, hbpos⟩ := hpos
  have hb' := hlargest b hb
  simp only [chooseIoAlloc] at h
  rw [if_pos (by omega)] at h
  have hio := (le_roundUp _).trans (searchTarget_ge h)
  exact ⟨(le_max_right _ _).trans hio, fun c hc =>
    (hlargest c hc).trans ((le_max_left _ _).trans hio)⟩

variable {α : Type} {dirt : ℕ → ℕ → α} {backend : CompilerBackend} {g : AneGraph}
  {cg : CompiledGraph}

/-- A compiled graph carries the size that was chosen for its plan. -/
lemma compile_ioAlloc {fw : AneFramework} {m m' : Memory α}
    (h : compile dirt backend g fw m = (.ok (some cg), m')) :
    ∃ plan, buildPlan g = .ok plan ∧ chooseIoAlloc g plan = .ok cg.ioAllocBytes := by
  unfold compile at h
  split at h
  · cases h
  · cases h
  rename_i plan hplan
  refine ⟨plan, hplan, ?_⟩
  unfold compilePlan at h
  split_ifs at h
  · cases h
  split at h
  · cases h
  rename_i io hio
  split at h
  · cases h
  · cases h
  cases h
  exact hio

/-- **The size of a compiled graph.** -/
theorem compile_ioAlloc_ge (G : AcceptedGraph) {fw : AneFramework} {m m' : Memory α}
    (h : compile dirt backend G.graph fw m = (.ok (some cg), m')) :
    49152 ≤ cg.ioAllocBytes ∧ ∀ t ∈ G.graph.tensors, t.shape.bytes ≤ cg.ioAllocBytes := by
  obtain ⟨plan, hplan, hio⟩ := compile_ioAlloc h
  obtain ⟨-, groups, -, rfl⟩ := buildPlan_eq_ok hplan
  have hmem : ∀ t ∈ G.graph.tensors,
      t.shape.bytes ∈ (Table.ofList (·.id) (·.shape.bytes) G.graph.tensors).values := fun t ht =>
    Table.mem_values_of_lookup (Table.lookup_ofList G.wf.tensor_ids_nodup _ ht)
  obtain ⟨x, hx⟩ := List.exists_mem_of_ne_nil _ G.graphInputs_ne_nil
  have hlt := G.wf.graphInput_lt x hx
  have hpos : 0 < G.graph.tensors[x].shape.bytes := by
    have hv := G.wf.shape_valid _ (List.getElem_mem hlt)
    have hc := hv.channels_pos
    have hs := hv.seq_pos
    have hnum := hv.numel_eq
    have hprod := mul_pos hc hs
    have := hv.bytes_eq.2
    omega
  obtain ⟨hmin, hle⟩ := chooseIoAlloc_ge hio ⟨_, hmem _ (List.getElem_mem hlt), hpos⟩
  exact ⟨hmin, fun t ht => hle _ (hmem t ht)⟩

end GraphCompiler

namespace GraphExecutor

open StraightLine GraphCompiler

variable {α : Type}

/-! ## The surfaces of a request -/

section Surfaces

variable {g : AneGraph} {cg : CompiledGraph} {others : List ℕ} {m : Memory α} {tmp : Table ℕ}

/-- When the size suits all tensors, every buffer of a call has exactly this size. -/
lemma Placed.bytes_eq (hg : g.Wf) (hp : Placed g cg others m tmp)
    (hio : ∀ t ∈ g.tensors, t.shape.bytes ≤ cg.ioAllocBytes) {id h : ℕ}
    (hid : id < g.tensors.length)
    (hb : bufferOf cg tmp id = some h) :
    ∃ b, m.heap[h]? = some b ∧ b.bytes = cg.ioAllocBytes := by
  obtain ⟨b, hb, hbytes, -⟩ := hp.bufferOf_laidOut hb
  obtain ⟨t, ht, -, hv⟩ := hg.tensor_ok hid
  have hle := hio t (List.mem_of_getElem? (AneGraph.tensor_eq_ok_iff.mp ht))
  rw [AneGraph.shapeOf_eq ht, Memory.paddedBytes, hv.bytes_eq.1, max_eq_right hle] at hbytes
  exact ⟨b, hb, hbytes⟩

/-- Surfaces of one size pass the checks. -/
lemma uniformAlloc_of_eq {surfs : List ℕ} {n : ℕ}
    (h : ∀ s ∈ surfs, ∃ b, m.heap[s]? = some b ∧ b.bytes = n) : uniformAlloc m surfs = true := by
  have hsize : ∀ s ∈ surfs, allocSize m s = max n 49152 := by
    intro s hs
    obtain ⟨b, hb, rfl⟩ := h s hs
    rw [allocSize, hb]
    rfl
  cases surfs with
  | nil => rfl
  | cons s rest =>
      refine List.all_eq_true.mpr fun t ht => decide_eq_true ?_
      rw [hsize t (List.mem_cons_of_mem s ht), hsize s List.mem_cons_self]

end Surfaces

/-- **Uniform allocation.**  The size of a compiled graph is at least 49152 and the size of every
tensor.  Whenever a call dispatches a group, the buffers of the group's inputs and of its output
have exactly this size, and the checks of `ane_execute_multi` on the sizes of the surfaces pass. -/
theorem uniform_io_alloc [Zero α] (dirt : ℕ → ℕ → α) (device : Device α) (G : AcceptedGraph)
    (backend : CompilerBackend) (fw : AneFramework) {cg : CompiledGraph} {now : PoolUsers α}
    (hnow : Reached dirt device backend G.graph fw cg now) :
    (49152 ≤ cg.ioAllocBytes ∧ ∀ t ∈ G.graph.tensors, t.shape.bytes ≤ cg.ioAllocBytes) ∧
    ∀ (env : Environment α) (call : ExecuteCall α) (k : ℕ) (f : Frame α)
      (group : CompiledPlanGroup), Dispatches dirt device cg env now.memory call k f →
      cg.groups[k]? = some group → ∀ (surfs : List ℕ) (outBuf : ℕ),
      readAll (bufferOf cg f.tmp) group.inputs = some surfs →
      cg.aneBufs.lookup group.output = some outBuf →
      (∀ h ∈ outBuf :: surfs, ∃ b, f.memory.heap[h]? = some b ∧ b.bytes = cg.ioAllocBytes) ∧
        uniformAlloc f.memory surfs = true ∧ uniformAlloc f.memory [outBuf] = true := by
  obtain ⟨hc, ha⟩ := hnow.spec dirt device G.wf
  obtain ⟨maxIdle, past, m, history, hcompile, -⟩ := hnow
  have hio := compile_ioAlloc_ge G hcompile
  refine ⟨hio, fun env call k f group hd hk surfs outBuf hsurfs hout => ?_⟩
  have hp := hd.placed dirt device G.wf hc ha
  have hmem : group ∈ cg.groups := List.mem_of_getElem? hk
  have hins : ∀ s ∈ surfs, ∃ b, f.memory.heap[s]? = some b ∧ b.bytes = cg.ioAllocBytes := by
    intro s hs
    obtain ⟨id, hid, hbuf⟩ := mem_of_readAll hsurfs hs
    exact hp.bytes_eq G.wf hio.2 (hc.input_lt G.wf hmem hid) hbuf
  have houts : ∃ b, f.memory.heap[outBuf]? = some b ∧ b.bytes = cg.ioAllocBytes := by
    obtain ⟨n, hn, hno⟩ := hc.output_node G.wf hmem
    have hnotin : group.output ∉ G.graph.graphInputs := fun hin =>
      G.wf.graphInput_ne_output _ hin n hn hno.symm
    refine hp.bytes_eq G.wf hio.2 (hno ▸ G.wf.output_lt n hn) ?_
    rw [hp.bufferOf_eq hnotin, hout]
  refine ⟨fun h hh => ?_, uniformAlloc_of_eq hins, rfl⟩
  rcases List.mem_cons.mp hh with rfl | hh
  · exact houts
  · exact hins h hh

/-- The second dispatch, whose inputs have different shapes, in a pool with a used buffer. -/
theorem uniform_io_alloc_joined : ∃ (cg : CompiledGraph) (now : PoolUsers ℕ) (f : Frame ℕ)
    (surfs : List ℕ),
    Reached (fun _ _ => 3) addOne plainBackend joined.graph ⟨true, fun _ _ => true⟩ cg now ∧
      Dispatches (fun _ _ => 3) addOne cg (always true) now.memory (countBoth 0) 1 f ∧
      readAll (bufferOf cg f.tmp) [2, 1] = some surfs ∧
      ∀ h ∈ surfs, ∃ b, f.memory.heap[h]? = some b ∧ b.bytes = 49280 := by
  obtain ⟨cg, now, f, surfs, hnow, hd, ⟨group, hk, hins, hgout⟩, hio, hsurfs, outBuf, hout⟩ :
      ∃ (cg : CompiledGraph) (now : PoolUsers ℕ) (f : Frame ℕ) (surfs : List ℕ),
        Reached (fun _ _ => 3) addOne plainBackend joined.graph ⟨true, fun _ _ => true⟩ cg now ∧
        Dispatches (fun _ _ => 3) addOne cg (always true) now.memory (countBoth 0) 1 f ∧
        (∃ group, cg.groups[1]? = some group ∧ group.inputs = [2, 1] ∧ group.output = 3) ∧
        cg.ioAllocBytes = 49280 ∧ readAll (bufferOf cg f.tmp) [2, 1] = some surfs ∧
        ∃ outBuf, cg.aneBufs.lookup 3 = some outBuf :=
    ⟨_, _, _, _, ⟨4, [.Acquire 49280, .Release 0], _, [.Execute (always false) (countBoth 100)],
      rfl, rfl⟩, ⟨by decide, Prod.ext (by decide +kernel) rfl⟩, ⟨_, rfl, rfl, rfl⟩, rfl, rfl, _,
      rfl⟩
  have hsizes := (uniform_io_alloc (fun _ _ => 3) addOne joined plainBackend
    ⟨true, fun _ _ => true⟩ hnow).2 (always true) (countBoth 0) 1 f group hd hk surfs outBuf
    (hins ▸ hsurfs) (hgout ▸ hout)
  exact ⟨cg, now, f, surfs, hnow, hd, hsurfs, fun h hh =>
    hio ▸ hsizes.1 h (List.mem_cons_of_mem outBuf hh)⟩

end GraphExecutor

end Libane
