import Libane.Graph.Calls

/-!
# What a call delivers, and what it reads and writes

Outputs are copied to the caller when all groups have been dispatched, one after another, and a copy
fails if its tensor has no buffer.  Then what was copied before stays written.  Only outputs of
groups have buffers that outlive the dispatches, so the one kind of output without a buffer is a
graph input, which the validator allows to be marked.

* `outputs_deliverable_iff` — all marked outputs have buffers, and a call that fails writes
  nothing, exactly when no graph input is marked as an output.
* `copies_within_iff` — the copies of a call stay within the sizes that the caller declares
  exactly when these sizes suffice for the tensors: no copy looks at them.
-/

namespace Libane

namespace GraphExecutor

open StraightLine Steps GraphCompiler

variable {α : Type} [Zero α] (dirt : ℕ → ℕ → α) (device : Device α)

/-! ## Delivery -/

section Delivery

variable {g : AneGraph} {backend : CompilerBackend} {cg : CompiledGraph}

omit [Zero α] in
/-- When every marked output has a buffer the last loop goes through. -/
lemma copySteps_go (hbuf : ∀ id ∈ cg.graphOutputIds, ∃ h, cg.aneBufs.lookup id = some h)
    (call : ExecuteCall α) (f : Frame α) : (runAll (copySteps cg call) f).1 = .ok true := by
  have hgo : ∀ (args : List (ℕ × ℕ)) (f : Frame α), (∀ x ∈ args, x.1 ∈ cg.graphOutputIds) →
      (runAll (args.map fun x => copyOutput cg x.1 x.2) f).1 = .ok true := by
    intro args
    induction args with
    | nil => exact fun f _ => rfl
    | cons x args ih =>
        intro f hmem
        obtain ⟨h, hh⟩ := hbuf x.1 (hmem x List.mem_cons_self)
        have hstep : copyOutput cg x.1 x.2 f = (.ok true, (copyOutput cg x.1 x.2 f).2) := by
          simp only [copyOutput, hh]
        rw [List.map_cons, runAll_cons_of_go hstep]
        exact ih _ fun y hy => hmem y (List.mem_cons_of_mem x hy)
  exact hgo _ f fun x hx => (List.of_mem_zip hx).1

omit [Zero α] in
/-- Marked outputs that nodes produce are never fused away. -/
lemma exists_group_of_marked (hg : g.Wf) (hc : Compiled backend g cg) {id : ℕ}
    (hmark : id ∈ g.graphOutputs) (hnot : id ∉ g.graphInputs) : ∃ c ∈ cg.groups, c.output = id := by
  obtain ⟨S⟩ := FusionRules.exists_schedule hg
  have hgroups : S.groups = cg.groups.map (·.toFusionGroup) :=
    Except.ok.inj (S.computed.symm.trans hc.groups_eq)
  obtain ⟨n, hn, rfl⟩ := (hg.tensor_source id (hg.graphOutput_lt id hmark)).resolve_left hnot
  obtain ⟨group, hmem, hng⟩ := S.exists_group hn
  have hlast := (S.grouped hmem).last_of_marked hng hmark
  rw [hgroups] at hmem
  obtain ⟨c, hcmem, rfl⟩ := List.mem_map.mp hmem
  exact ⟨c, hcmem, hlast.symm⟩

/-- Graph inputs are not the output of any group. -/
lemma output_not_input (hg : g.Wf) (hc : Compiled backend g cg) {c : CompiledPlanGroup}
    (h : c ∈ cg.groups) : c.output ∉ g.graphInputs := by
  intro hin
  obtain ⟨n, hn, hno⟩ := hc.output_node hg h
  exact hg.graphInput_ne_output _ hin n hn hno.symm

end Delivery

/-- **Delivery.**  Every marked output is the output of a group and has a buffer, the last loop
cannot fail, and a call that does not return `true` has written nothing to the caller: all this
holds if and only if no graph input is marked as an output. -/
theorem outputs_deliverable_iff (G : AcceptedGraph) (backend : CompilerBackend)
    (fw : AneFramework) {cg : CompiledGraph} {now : PoolUsers α}
    (hnow : Reached dirt device backend G.graph fw cg now) :
    ((∀ id ∈ cg.graphOutputIds, (∃ c ∈ cg.groups, c.output = id) ∧
        ∃ h, cg.aneBufs.lookup id = some h) ∧
      (∀ (call : ExecuteCall α) (f : Frame α), (runAll (copySteps cg call) f).1 = .ok true) ∧
      ∀ (env : Environment α) (call : ExecuteCall α),
        (execute dirt device cg env now.memory call).1 ≠ .ok true →
        (execute dirt device cg env now.memory call).2.delivered = []) ↔
      ∀ id ∈ G.graph.graphOutputs, id ∉ G.graph.graphInputs := by
  obtain ⟨hc, ha⟩ := hnow.spec dirt device G.wf
  rw [hc.graphOutputIds_eq]
  constructor
  · rintro ⟨hgroups, -, -⟩ id hid
    obtain ⟨⟨c, hcmem, rfl⟩, -⟩ := hgroups id hid
    exact output_not_input G.wf hc hcmem
  · intro hno
    have hgroup : ∀ id ∈ G.graph.graphOutputs, ∃ c ∈ cg.groups, c.output = id := fun id hid =>
      exists_group_of_marked G.wf hc hid (hno id hid)
    have hbuf : ∀ id ∈ cg.graphOutputIds, ∃ h, cg.aneBufs.lookup id = some h := fun id hid =>
      (hc.buffered id).mpr (hgroup id (hc.graphOutputIds_eq ▸ hid))
    refine ⟨fun id hid => ⟨hgroup id hid, (hc.buffered id).mpr (hgroup id hid)⟩,
      fun call f => copySteps_go hbuf call f, fun env call => ?_⟩
    exact (execute_metered dirt device G.wf hc env ha call).atomic hbuf

theorem outputs_deliverable_iff_joined : ∃ (cg : CompiledGraph) (now : PoolUsers ℕ),
    Reached (fun _ _ => 3) addOne plainBackend joined.graph ⟨true, fun _ _ => true⟩ cg now ∧
      cg.graphOutputIds = [2, 3] ∧ ∀ id ∈ cg.graphOutputIds, (∃ c ∈ cg.groups, c.output = id) ∧
        ∃ h, cg.aneBufs.lookup id = some h :=
  ⟨_, _, ⟨4, [], _, [], rfl, rfl⟩, rfl, ((outputs_deliverable_iff (fun _ _ => 3) addOne joined
    plainBackend ⟨true, fun _ _ => true⟩ ⟨4, [], _, [], rfl, rfl⟩).mpr (by decide)).1⟩

/-- `RELU` of an input, with the input marked as a second output. -/
def echo : AcceptedGraph where
  graph := AneGraph.build [.AddInput "x" ⟨1, 1, 1, 16⟩, .AddOp .Relu [0] ⟨1, 1, 1, 16⟩ [],
    .MarkOutput 1 "", .MarkOutput 0 ""]
  built := ⟨_, rfl⟩
  accepted := by decide

/-- The dispatch succeeds, the first destination is written, and the call returns `false`. -/
theorem echo_fails_after_writing : ∃ (cg : CompiledGraph) (now : PoolUsers ℕ),
    Reached (fun _ _ => 3) addOne plainBackend echo.graph ⟨true, fun _ _ => true⟩ cg now ∧
      cg.aneBufs.lookup 0 = none ∧
      (execute (fun _ _ => 3) addOne cg (always true) now.memory
        { inputPtrs := [id], inputBytes := [32], outputPtrs := 2, outputBytes := [32, 32] }).1 =
        .ok false ∧
      (execute (fun _ _ => 3) addOne cg (always true) now.memory
        { inputPtrs := [id], inputBytes := [32], outputPtrs := 2,
          outputBytes := [32, 32] }).2.delivered =
        [[1, 2, 3, 4, 5, 6, 7, 8, 9, 10, 11, 12, 13, 14, 15, 16]] :=
  ⟨_, _, ⟨4, [], _, [], rfl, rfl⟩, rfl, rfl, rfl⟩

/-! ## Declared sizes -/

/-- Every read from an input pointer stays within the declared size. -/
def ReadsWithin (cg : CompiledGraph) (call : ExecuteCall α) (result : Outcome Bool × Frame α) :
    Prop :=
  ∀ i < cg.graphInputIds.length, ∀ b n, result.2.log[i]? = some (.CopyIn b n) →
    n ≤ call.inputBytes.getD i 0

/-- Every write to a destination stays within the declared size.  An element has two bytes. -/
def WritesWithin (call : ExecuteCall α) (result : Outcome Bool × Frame α) : Prop :=
  ∀ (i : ℕ) (out : List α), result.2.delivered[i]? = some out →
    2 * out.length ≤ call.outputBytes.getD i 0

/-- The sizes suffice for the tensors, one by one. -/
def SizesSuffice (g : AneGraph) (ids sizes : List ℕ) : Prop :=
  ∀ i id : ℕ, ids[i]? = some id → (g.shapeOf id).bytes ≤ sizes.getD i 0

section Sizes

variable {g : AneGraph} {cg : CompiledGraph} {others : List ℕ} {call : ExecuteCall α}
  {result : Outcome Bool × Frame α}

omit [Zero α] in
/-- A call with the right counts reads as many bytes as its input tensors have. -/
lemma Called.readsWithin_iff (h : Called g cg others call result) (hcounts : countsMatch cg call) :
    ReadsWithin cg call result ↔ SizesSuffice g cg.graphInputIds call.inputBytes := by
  constructor
  · intro hreads i id hid
    obtain ⟨b, hb⟩ := h.reads hcounts i id hid
    exact hreads i (List.getElem?_eq_some_iff.mp hid).1 b _ hb
  · intro hsizes i hi b n hlog
    obtain ⟨c, hc⟩ := h.reads hcounts i _ (List.getElem?_eq_getElem hi)
    obtain ⟨-, rfl⟩ := Event.CopyIn.inj (Option.some.inj (hc.symm.trans hlog))
    exact hsizes i _ (List.getElem?_eq_getElem hi)

omit [Zero α] in
/-- What a call writes for an output is as long as the tensor. -/
lemma Called.length_delivered (hg : g.Wf) (houts : ∀ id ∈ cg.graphOutputIds, id < g.tensors.length)
    (h : Called g cg others call result) {i : ℕ} {out : List α}
    (hi : result.2.delivered[i]? = some out) :
    ∃ id, cg.graphOutputIds[i]? = some id ∧ 2 * out.length = (g.shapeOf id).bytes := by
  obtain ⟨before, ⟨rest, hrest⟩, hlen⟩ := h.writes
  have hget := congrArg (·[i]?) hlen
  simp only [List.getElem?_map, hi, Option.map_some] at hget
  obtain ⟨id, hid, hnum⟩ := Option.map_eq_some_iff.mp hget.symm
  have hid' : cg.graphOutputIds[i]? = some id := by
    rw [← hrest, List.getElem?_append_left (List.getElem?_eq_some_iff.mp hid).1, hid]
  refine ⟨id, hid', ?_⟩
  rw [(hg.shapeOf_valid (houts id (List.mem_of_getElem? hid'))).bytes_eq.2, ← hnum]

end Sizes

/-- **Declared sizes.**  A call stays within the declared sizes when these suffice for the
tensors.  The reads of a call whose counts are right, and all copies of a call that returns
`true`, do so in no other case. -/
theorem copies_within_iff (G : AcceptedGraph) (backend : CompilerBackend) (fw : AneFramework)
    {cg : CompiledGraph} {now : PoolUsers α}
    (hnow : Reached dirt device backend G.graph fw cg now) (env : Environment α)
    (call : ExecuteCall α) :
    let result := execute dirt device cg env now.memory call
    let inputs := SizesSuffice G.graph cg.graphInputIds call.inputBytes
    let outputs := SizesSuffice G.graph cg.graphOutputIds call.outputBytes
    (inputs ∧ outputs → ReadsWithin cg call result ∧ WritesWithin call result) ∧
      (countsMatch cg call → (ReadsWithin cg call result ↔ inputs)) ∧
      (result.1 = .ok true → (ReadsWithin cg call result ∧ WritesWithin call result ↔
        inputs ∧ outputs)) := by
  intro result inputs outputs
  obtain ⟨hc, ha⟩ := hnow.spec dirt device G.wf
  have hcalled := execute_metered dirt device G.wf hc env ha call
  have houts : ∀ id ∈ cg.graphOutputIds, id < G.graph.tensors.length := fun id hid =>
    G.wf.graphOutput_lt id (hc.graphOutputIds_eq ▸ hid)
  have hwrites : outputs → WritesWithin call result := by
    intro hsizes i out hi
    obtain ⟨id, hid, hlen⟩ := hcalled.length_delivered G.wf houts hi
    rw [hlen]
    exact hsizes i id hid
  have hreads : countsMatch cg call → (ReadsWithin cg call result ↔ inputs) :=
    hcalled.readsWithin_iff
  have hidle : ¬ countsMatch cg call → ReadsWithin cg call result := by
    intro hcounts i hi b n hlog
    rw [(hcalled.idle hcounts).1] at hlog
    cases hlog
  refine ⟨fun h => ⟨?_, hwrites h.2⟩, hreads, fun hok => ?_⟩
  · by_cases hcounts : countsMatch cg call
    · exact (hreads hcounts).mpr h.1
    · exact hidle hcounts
  · have hcounts : countsMatch cg call := by
      by_contra hcounts
      have hfalse : result = (.ok false, { memory := now.memory }) := if_neg hcounts
      rw [hfalse] at hok
      cases hok
    refine and_congr (hreads hcounts) ⟨fun hw i id hid => ?_, hwrites⟩
    have hget := congrArg (·[i]?) (hcalled.complete hok)
    simp only [List.getElem?_map, hid, Option.map_some] at hget
    obtain ⟨out, hout, hlen⟩ := Option.map_eq_some_iff.mp hget
    have hle := hw i out hout
    rw [(G.wf.shapeOf_valid (houts id (List.mem_of_getElem? hid))).bytes_eq.2, ← hlen]
    exact hle

theorem copies_within_iff_joined : ∃ (cg : CompiledGraph) (now : PoolUsers ℕ),
    Reached (fun _ _ => 3) addOne plainBackend joined.graph ⟨true, fun _ _ => true⟩ cg now ∧
      let result := execute (fun _ _ => 3) addOne cg (always true) now.memory (countBoth 0)
      result.1 = .ok true ∧ ReadsWithin cg (countBoth 0) result ∧
        WritesWithin (countBoth 0) result := by
  obtain ⟨cg, now, hnow, hins, houts, hok⟩ : ∃ (cg : CompiledGraph) (now : PoolUsers ℕ),
      Reached (fun _ _ => 3) addOne plainBackend joined.graph ⟨true, fun _ _ => true⟩ cg now ∧
      cg.graphInputIds = [0, 1] ∧ cg.graphOutputIds = [2, 3] ∧
      (execute (fun _ _ => 3) addOne cg (always true) now.memory (countBoth 0)).1 = .ok true :=
    ⟨_, _, ⟨4, [], _, [], rfl, rfl⟩, rfl, rfl, by decide +kernel⟩
  have hinputs : SizesSuffice joined.graph cg.graphInputIds (countBoth 0).inputBytes := by
    rw [hins]
    rintro (_ | _ | i) id hid <;> cases hid <;> decide
  have houtputs : SizesSuffice joined.graph cg.graphOutputIds (countBoth 0).outputBytes := by
    rw [houts]
    rintro (_ | _ | i) id hid <;> cases hid <;> decide
  exact ⟨cg, now, hnow, hok, ((copies_within_iff (fun _ _ => 3) addOne joined plainBackend
    ⟨true, fun _ _ => true⟩ hnow (always true) (countBoth 0)).2.2 hok).mpr ⟨hinputs, houtputs⟩⟩

/-- `RELU` on one channel. -/
def oneNode : AcceptedGraph where
  graph := AneGraph.build [.AddInput "x" ⟨1, 1, 1, 16⟩, .AddOp .Relu [0] ⟨1, 1, 1, 16⟩ [],
    .MarkOutput 1 ""]
  built := ⟨_, rfl⟩
  accepted := by decide

/-- A caller with two bytes on either side. -/
def twoBytes : ExecuteCall ℕ where
  inputPtrs := [id]
  inputBytes := [2]
  outputPtrs := 1
  outputBytes := [2]

/-- The call reads 32 bytes, writes 32 bytes, and returns `true`. -/
theorem two_bytes_overrun : ∃ (cg : CompiledGraph) (now : PoolUsers ℕ),
    Reached (fun _ _ => 3) addOne plainBackend oneNode.graph ⟨true, fun _ _ => true⟩ cg now ∧
      (execute (fun _ _ => 3) addOne cg (always true) now.memory twoBytes).1 = .ok true ∧
      (execute (fun _ _ => 3) addOne cg (always true) now.memory twoBytes).2.log[0]? =
        some (.CopyIn 1 32) ∧
      ¬ ReadsWithin cg twoBytes
        (execute (fun _ _ => 3) addOne cg (always true) now.memory twoBytes) ∧
      ¬ WritesWithin twoBytes
        (execute (fun _ _ => 3) addOne cg (always true) now.memory twoBytes) := by
  refine ⟨_, _, ⟨4, [], _, [], rfl, rfl⟩, rfl, rfl, fun h => ?_, fun h => ?_⟩
  · exact absurd (h 0 (by decide) 1 32 rfl) (by decide)
  · exact absurd (h 0 [1, 2, 3, 4, 5, 6, 7, 8, 9, 10, 11, 12, 13, 14, 15, 16] rfl) (by decide)

end GraphExecutor

end Libane
