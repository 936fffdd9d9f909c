import Libane.Graph.Calls
import Libane.Graph.Lowering

/-!
# Which surface becomes which operand

The hardware gives the `i`-th surface of a request to the `i`-th parameter of the program in the
order of the names.  Four pieces have to agree on that: `build_fused` sorts the parameters, the
executor hands over the surfaces in the order in which the fusion discovered the inputs,
`ane_compile` reads the names back out of the text, and `ane_execute_multi` permutes.

* `Bound` — what the hardware reads for a parameter.
* `bound_iff` — surfaces in the order of discovery are the right ones exactly when the names were
  discovered in order.
* `noParamNames` — the parser finds no name in an assembled program, so nothing is permuted.
* `input_binding_iff` — the operands are right exactly when the inputs of the group were
  discovered in the order of their names.
-/

namespace Libane

open MilBuilder StraightLine Names

/-! ## Binding by sorted names -/

/-- The hardware reads surface `s` for the parameter `name`. -/
def Bound (params : List String) (surfaces : List ℕ) (name : String) (s : ℕ) : Prop :=
  ∃ i : ℕ, (params.insertionSort (· ≤ ·))[i]? = some name ∧ surfaces[i]? = some s

instance (params : List String) (surfaces : List ℕ) (name : String) (s : ℕ) :
    Decidable (Bound params surfaces name s) :=
  decidable_of_iff (∃ i < surfaces.length,
      (params.insertionSort (· ≤ ·))[i]? = some name ∧ surfaces[i]? = some s)
    ⟨fun ⟨i, _, h⟩ => ⟨i, h⟩, fun ⟨i, h⟩ => ⟨i, (List.getElem?_eq_some_iff.mp h.2).1, h⟩⟩

section Sorted

variable {params names : List String} {surfaces : List ℕ}

/-- **Discovery order is right exactly when it is sorted.** -/
theorem bound_iff (hperm : params.Perm names) (hlen : surfaces.length = names.length)
    (hnodup : surfaces.Nodup) :
    (∀ (i : ℕ) (name : String) (s : ℕ), names[i]? = some name → surfaces[i]? = some s →
      Bound params surfaces name s) ↔ names.Pairwise (· ≤ ·) := by
  have hsorted : (params.insertionSort (· ≤ ·)).Pairwise (· ≤ ·) :=
    List.pairwise_insertionSort _ params
  have hsame : (params.insertionSort (· ≤ ·)).Perm names :=
    (List.perm_insertionSort _ params).trans hperm
  constructor
  · intro h
    have heq : params.insertionSort (· ≤ ·) = names := by
      refine List.ext_getElem? fun i => ?_
      by_cases hi : i < names.length
      · have his : i < surfaces.length := hlen ▸ hi
        have hs : surfaces[i]? = some surfaces[i] := List.getElem?_eq_getElem his
        obtain ⟨j, hj, hsj⟩ := h i names[i] _ (List.getElem?_eq_getElem hi) hs
        -- a surface stands in one place only
        obtain rfl : i = j := (List.getElem?_inj his hnodup).mp (hs.trans hsj.symm)
        rw [hj, List.getElem?_eq_getElem hi]
      · rw [List.getElem?_eq_none (by rw [hsame.length_eq]; omega),
          List.getElem?_eq_none (by omega)]
    rwa [heq] at hsorted
  · intro h i name s hname hs
    have heq : params.insertionSort (· ≤ ·) = names :=
      hsame.eq_of_pairwise' hsorted h
    exact ⟨i, by rw [heq, hname], hs⟩

end Sorted

/-! ## Requests of a dispatch -/

namespace GraphExecutor

variable {α : Type} {device : Device α} {cg : CompiledGraph} {group : CompiledPlanGroup}
  {d : Dispatch α} {f : Frame α}

/-- The request that a dispatch on Path A issues, and the surfaces it was made from. -/
lemma dispatchA_request {program : AneProgram} {ins outs : List ℕ} {ok : Bool}
    (h : (dispatchA device cg group d f).2.log = f.log ++ [.Request program ins outs ok]) :
    program = group.program ∧ ∃ surfs, readAll (bufferOf cg f.tmp) group.inputs = some surfs ∧
      reorder group.program.inputParamNames surfs = some ins := by
  have hidle : f.log ≠ f.log ++ [.Request program ins outs ok] := fun he => by
    have := congrArg List.length he
    simp at this
  unfold dispatchA at h
  split at h
  · exact absurd h hidle
  rename_i surfs hsurfs
  split at h
  · exact absurd h hidle
  rename_i outBuf hbuf
  split at h
  · exact absurd h hidle
  rename_i ins' outs' hreq
  obtain ⟨-, hins, -⟩ := request_eq_some hreq
  simp only [List.append_cancel_left_eq, List.cons.injEq, Event.Request.injEq, and_true] at h
  obtain ⟨rfl, rfl, -, -⟩ := h
  exact ⟨rfl, surfs, hsurfs, hins⟩

/-- Without parameter names, a dispatch on Path A hands over its surfaces as they come. -/
lemma dispatchA_issues {surfs : List ℕ} {outBuf : ℕ}
    (hnames : group.program.inputParamNames = [])
    (hsurfs : readAll (bufferOf cg f.tmp) group.inputs = some surfs)
    (hbuf : cg.aneBufs.lookup group.output = some outBuf) (hne : surfs ≠ [])
    (halloc : uniformAlloc f.memory surfs = true) :
    (dispatchA device cg group d f).2.log =
      f.log ++ [.Request group.program surfs [outBuf] d.ok] := by
  have hreq : request f.memory group.program surfs [outBuf] = some (surfs, [outBuf]) := by
    have hone : uniformAlloc f.memory [outBuf] = true := rfl
    rw [request, if_neg (by simpa using hne), if_neg (by simp [halloc]), if_neg (by simp [hone]),
      hnames, reorder_nil, reorder_singleton]
    rfl
  unfold dispatchA
  simp only [hsurfs, hbuf, hreq]

/-- The buffers of different tensors are different. -/
lemma Placed.surfaces_nodup {g : AneGraph} {others : List ℕ} {m : Memory α} {tmp : Table ℕ}
    (hp : Placed g cg others m tmp) {ids surfs : List ℕ} (hids : ids.Nodup)
    (h : readAll (bufferOf cg tmp) ids = some surfs) : surfs.Nodup := by
  have hsome : (ids.map (bufferOf cg tmp)).Nodup := by
    refine (List.nodup_map_iff_inj_on hids).mpr fun i hi j hj hij => ?_
    obtain ⟨s, -, hs⟩ : ∃ s ∈ surfs, some s = bufferOf cg tmp i := by
      rw [← List.mem_map, ← readAll_eq_some_iff.mp h]
      exact List.mem_map_of_mem hi
    exact hp.bufferOf_inj hs.symm (hs.trans hij).symm
  rw [readAll_eq_some_iff.mp h] at hsome
  exact hsome.of_map some

end GraphExecutor

/-! ## Programs of `MilBackend` -/

namespace MilBackend

variable {F : Type} [MilFloat F]

/-- **The parser finds no name.**  `extract_input_params` looks for colons, and the assembled
programs have none. -/
theorem noParamNames {fw : AneFramework} {g : AneGraph} (hg : g.Wf) {group : FusionGroup}
    {ms : List GraphNode} (hgroup : FusionRules.Grouped g group ms) {name : String}
    {program : AneProgram} (h : compileGroup F fw g group name = .ok (some program)) :
    program.inputParamNames = [] := by
  obtain ⟨lowered, -, hl, htext, -, hnames, -⟩ := compileGroup_some hg hgroup h
  rw [hnames, htext]
  exact namesInParens_eq_nil (hl.plain hg).render

end MilBackend

/-! ## The whole pipeline -/

namespace GraphExecutor

open GraphCompiler MilBackend

variable {α : Type} [Zero α] (dirt : ℕ → ℕ → α) (device : Device α) {F : Type} [MilFloat F]

/-- What a group of a graph compiled by `MilBackend` runs. -/
lemma compiled_program (G : AcceptedGraph) {fw : AneFramework} {cg : CompiledGraph}
    (hc : Compiled (MilBackend F fw) G.graph cg) {k : ℕ} {group : CompiledPlanGroup}
    (hk : cg.groups[k]? = some group) :
    (∃ lowered : LoweredGroup F, lowerGroup G.graph group.toFusionGroup = .ok lowered ∧
      LoweredAs G.graph group.toFusionGroup
        (FusionRules.members G.graph group.toFusionGroup) lowered ∧
      group.program.milText = (assemble lowered.inputs lowered.fragments).render) ∧
    group.program.inputParamNames = [] ∧ group.program.client = none := by
  obtain ⟨S⟩ := FusionRules.exists_schedule G.wf
  have hgroups : S.groups = cg.groups.map (·.toFusionGroup) :=
    Except.ok.inj (S.computed.symm.trans hc.groups_eq)
  have hmem : group.toFusionGroup ∈ S.groups :=
    hgroups ▸ List.mem_map_of_mem (List.mem_of_getElem? hk)
  have hgrouped := S.grouped hmem
  obtain ⟨lowered, hlower, hl, htext, -, -, hclient⟩ :=
    compileGroup_some G.wf hgrouped (hc.program_eq k group hk)
  exact ⟨⟨lowered, hlower, hl, htext⟩,
    noParamNames G.wf hgrouped (hc.program_eq k group hk), hclient⟩

/-- The surfaces that such a group is dispatched with go out as they come. -/
lemma compiled_issues (G : AcceptedGraph) {fw : AneFramework} {cg : CompiledGraph}
    (hc : Compiled (MilBackend F fw) G.graph cg) {k : ℕ} {group : CompiledPlanGroup}
    (hk : cg.groups[k]? = some group) {f : Frame α} {surfs : List ℕ} {outBuf : ℕ}
    (hsurfs : readAll (bufferOf cg f.tmp) group.inputs = some surfs) (hne : surfs ≠ [])
    (hbuf : cg.aneBufs.lookup group.output = some outBuf)
    (halloc : uniformAlloc f.memory surfs = true) (d : Dispatch α) :
    (dispatchGroup device cg group d f).2.log =
      f.log ++ [.Request group.program surfs [outBuf] d.ok] := by
  obtain ⟨-, hnames, hclient⟩ := compiled_program G hc hk
  rw [dispatchGroup, hclient]
  exact dispatchA_issues hnames hsurfs hbuf hne halloc

/-- **Input binding.**  When a call dispatches a group with different inputs, compiled by
`MilBackend`, the hardware reads for every input the buffer that holds it if and only if the group
discovered its inputs in the order of their names. -/
theorem input_binding_iff (G : AcceptedGraph) {fw fw' : AneFramework} {cg : CompiledGraph}
    {now : PoolUsers α}
    (hnow : Reached dirt device (MilBackend F fw) G.graph fw' cg now) {env : Environment α}
    {call : ExecuteCall α} {k : ℕ} {f : Frame α}
    (hd : Dispatches dirt device cg env now.memory call k f) {group : CompiledPlanGroup}
    (hk : cg.groups[k]? = some group) (hdistinct : group.inputs.Nodup) {program : AneProgram}
    {ins outs : List ℕ} {ok : Bool}
    (hissued : (dispatchGroup device cg group (env.dispatch k) f).2.log =
      f.log ++ [.Request program ins outs ok]) :
    ∃ lowered : LoweredGroup F,
      lowerGroup G.graph group.toFusionGroup = .ok lowered ∧
      program.milText = (assemble lowered.inputs lowered.fragments).render ∧
      ((∀ id ∈ group.inputs, ∀ h, bufferOf cg f.tmp id = some h →
          Bound ((assemble lowered.inputs lowered.fragments).params.map (·.varName)) ins
            (tensorVar id) h) ↔
        (group.inputs.map tensorVar).Pairwise (· ≤ ·)) := by
  obtain ⟨hc, ha⟩ := hnow.spec dirt device G.wf
  obtain ⟨⟨lowered, hlower, hl, htext⟩, hnames, hclient⟩ := compiled_program G hc hk
  rw [dispatchGroup, hclient] at hissued
  obtain ⟨rfl, surfs, hsurfs, hins⟩ := dispatchA_request hissued
  rw [hnames, reorder_nil, Option.some.injEq] at hins
  subst hins
  refine ⟨lowered, hlower, htext, ?_⟩
  have hnodup := (hd.placed dirt device G.wf hc ha).surfaces_nodup hdistinct hsurfs
  have hread := readAll_eq_some_iff.mp hsurfs
  have hlen : surfs.length = (group.inputs.map tensorVar).length := by
    have := congrArg List.length hread
    simp only [List.length_map] at this ⊢
    exact this.symm
  rw [← bound_iff hl.perm_params hlen hnodup]
  constructor
  · intro h i name s hname hs
    obtain ⟨id, hid, rfl⟩ := Option.map_eq_some_iff.mp (List.getElem?_map ▸ hname)
    refine h id (List.mem_of_getElem? hid) s ?_
    have := congrArg (·[i]?) hread
    simpa [List.getElem?_map, hid, hs] using this
  · intro h id hid s hs
    obtain ⟨i, hi⟩ := List.mem_iff_getElem?.mp hid
    refine h i _ s (by rw [List.getElem?_map, hi, Option.map_some]) ?_
    have := congrArg (·[i]?) hread
    simpa [List.getElem?_map, hi, hs, eq_comm] using this

/-- The sum of two inputs, in the order in which they were added. -/
def sum : AcceptedGraph where
  graph := AneGraph.build [.AddInput "x" ⟨1, 1, 1, 16⟩, .AddInput "y" ⟨1, 1, 1, 16⟩,
    .AddOp .Add [0, 1] ⟨1, 1, 1, 16⟩ [], .MarkOutput 2 ""]
  built := ⟨_, rfl⟩
  accepted := by decide

/-- A framework that compiles everything. -/
def compilesAll : AneFramework := ⟨true, fun _ _ => true⟩

/-- A call with two inputs. -/
def twoInputs : ExecuteCall ℕ where
  inputPtrs := [id, id]
  inputBytes := [32, 32]
  outputPtrs := 1
  outputBytes := [32]

theorem input_binding_iff_sum : ∃ (cg : CompiledGraph) (now : PoolUsers ℕ) (f : Frame ℕ)
    (group : CompiledPlanGroup) (lowered : LoweredGroup Unit),
    Reached (fun _ _ => 3) addOne (MilBackend Unit compilesAll) sum.graph compilesAll cg now ∧
      Dispatches (fun _ _ => 3) addOne cg (always true) now.memory twoInputs 0 f ∧
      cg.groups[0]? = some group ∧ group.inputs = [0, 1] ∧
      ∀ id ∈ group.inputs, ∀ h, bufferOf cg f.tmp id = some h →
        Bound ((assemble lowered.inputs lowered.fragments).params.map (·.varName)) [1, 2]
          (tensorVar id) h := by
  have hnow : ∃ cg now,
      Reached (fun _ _ => 3) addOne (MilBackend Unit compilesAll) sum.graph compilesAll cg now ∧
      ∃ f group, Dispatches (fun _ _ => 3) addOne cg (always true) now.memory twoInputs 0 f ∧
        cg.groups[0]? = some group ∧ group.inputs = [0, 1] ∧
        readAll (bufferOf cg f.tmp) group.inputs = some [1, 2] ∧
        cg.aneBufs.lookup group.output = some 0 ∧ uniformAlloc f.memory [1, 2] = true :=
    ⟨_, _, ⟨4, [], _, [], rfl, rfl⟩, _, _, ⟨by decide, rfl⟩, rfl, rfl, rfl, rfl, rfl⟩
  obtain ⟨cg, now, hr, f, group, hd, hk, hins, hsurfs, hbuf, halloc⟩ := hnow
  have hissued := compiled_issues addOne sum (hr.spec _ _ sum.wf).1 hk hsurfs (by simp) hbuf halloc
    ((always true).dispatch 0)
  obtain ⟨lowered, -, -, hbound⟩ := input_binding_iff (fun _ _ => 3) addOne sum hr hd hk
    (by rw [hins]; decide) hissued
  refine ⟨cg, now, f, group, lowered, hr, hd, hk, hins, hbound.mpr ?_⟩
  rw [hins]
  decide

/-- The difference of two inputs, the later minus the earlier. -/
def difference : AcceptedGraph where
  graph := AneGraph.build [.AddInput "x" ⟨1, 1, 1, 16⟩, .AddInput "y" ⟨1, 1, 1, 16⟩,
    .AddOp .Sub [1, 0] ⟨1, 1, 1, 16⟩ [], .MarkOutput 2 ""]
  built := ⟨_, rfl⟩
  accepted := by decide

/-- Both inputs have the same shape, so nothing notices that the operands of the subtraction are
swapped. -/
theorem difference_swapped : ∃ (cg : CompiledGraph) (now : PoolUsers ℕ) (f : Frame ℕ)
    (group : CompiledPlanGroup) (lowered : LoweredGroup Unit),
    Reached (fun _ _ => 3) addOne (MilBackend Unit compilesAll) difference.graph compilesAll
        cg now ∧
      Dispatches (fun _ _ => 3) addOne cg (always true) now.memory twoInputs 0 f ∧
      cg.groups[0]? = some group ∧ group.inputs.Nodup ∧
      lowerGroup difference.graph group.toFusionGroup = .ok lowered ∧
      (dispatchGroup addOne cg group ((always true).dispatch 0) f).2.log =
        f.log ++ [.Request group.program [2, 1] [0] true] ∧
      0 ∈ group.inputs ∧ bufferOf cg f.tmp 0 = some 1 ∧
      Bound ((assemble lowered.inputs lowered.fragments).params.map (·.varName)) [2, 1]
        (tensorVar 0) 2 ∧
      ¬ Bound ((assemble lowered.inputs lowered.fragments).params.map (·.varName)) [2, 1]
        (tensorVar 0) 1 := by
  have hnow : ∃ cg now,
      Reached (fun _ _ => 3) addOne (MilBackend Unit compilesAll) difference.graph compilesAll
        cg now ∧
      ∃ f group, Dispatches (fun _ _ => 3) addOne cg (always true) now.memory twoInputs 0 f ∧
        cg.groups[0]? = some group ∧ group.toFusionGroup = ⟨[0], [1, 0], 2⟩ ∧
        readAll (bufferOf cg f.tmp) group.inputs = some [2, 1] ∧ bufferOf cg f.tmp 0 = some 1 ∧
        cg.aneBufs.lookup group.output = some 0 ∧ uniformAlloc f.memory [2, 1] = true :=
    ⟨_, _, ⟨4, [], _, [], rfl, rfl⟩, _, _, ⟨by decide, rfl⟩, rfl, rfl, rfl, rfl, rfl, rfl⟩
  obtain ⟨cg, now, hr, f, group, hd, hk, hgroup, hsurfs, hzero, hbuf, halloc⟩ := hnow
  have hissued := compiled_issues addOne difference (hr.spec _ _ difference.wf).1 hk hsurfs
    (by simp) hbuf halloc ((always true).dispatch 0)
  have hlower : lowerGroup (F := Unit) difference.graph ⟨[0], [1, 0], 2⟩ = .ok _ := rfl
  refine ⟨cg, now, f, group, _, hr, hd, hk, ?_, hgroup ▸ hlower, hissued, ?_, hzero,
    by decide, by decide⟩
  · rw [hgroup]
    decide
  · rw [hgroup]
    decide

end GraphExecutor

end Libane
