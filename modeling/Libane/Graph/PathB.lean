import Libane.Core.MatmulLayout
import Libane.Core.SingleAgreement
import Libane.Graph.EspressoBackend
import Libane.Graph.Preservation

/-!
# Two paths for a matrix product

The router sends a single `MATMUL` with 16 positions to the Espresso backend when Path B is there,
and to `MilBackend` when it is not.  The caller cannot tell which; the results can.

**What each path computes.**  The program of `MilBackend` is one `conv` with the transposed matrix,
at all 16 positions.  The network of the Espresso backend has one position: the executor hands it
the first column of the operand, writes its result to the first column of the output and fills the
others with zeros.  The two paths store the same matrix, one as fp16 and one as fp32.

So they agree in the first column, and everywhere exactly when the product is zero in the others,
as it is for an operand of one column and padding.

**Where the output is looked at.**  Buffers of different groups are different, and each is written
by one dispatch of a call.  What a dispatch leaves in the buffer of its group is still there when
the call has returned.

* `Leaves` — what a call finds for a group and leaves behind.
* `Leaves.dispatched` — it is what the dispatch of the group has left.
* `Leaves.espresso`, `Leaves.mil` — the two paths.
* `path_b_agrees_iff` — when they agree.
-/

namespace Libane

namespace GraphExecutor

open StraightLine Steps GraphCompiler MilBackend MilBuilder WeightBlob Bytes

/-! ## What stays in a buffer -/

section Frames

variable {α : Type}

/-- The buffers are in place, and `h` holds `v`. -/
structure Holds (g : AneGraph) (cg : CompiledGraph) (others : List ℕ) (h : ℕ) (v : List α)
    (f : Frame α) : Prop extends Placed g cg others f.memory f.tmp where
  contents_eq : f.memory.contents h = some v

variable {g : AneGraph} {cg : CompiledGraph} {others : List ℕ} {h : ℕ} {v : List α} {f : Frame α}

/-- Accesses are logged and outputs delivered outside the buffers. -/
lemma Holds.logged (hh : Holds g cg others h v f) (log : List Event) (delivered : List (List α)) :
    Holds g cg others h v { f with log, delivered } :=
  ⟨hh.toPlaced, hh.contents_eq⟩

/-- A write to another buffer. -/
lemma Holds.write (hh : Holds g cg others h v f) {x : ℕ} (hne : x ≠ h)
    {fn : AneBuffer α → AneBuffer α} (hfn : Memory.KeepsLayout fn) (log : List Event) :
    Holds g cg others h v { f with memory := f.memory.modify x fn, log } where
  toPlaced := hh.toPlaced.modify x hfn
  contents_eq := by
    have hsame : Memory.SameAt f.memory (f.memory.modify x fn) h :=
      List.getElem?_modify_ne _ _ hne
    rw [hsame.contents_eq, hh.contents_eq]

/-- Outputs of different groups are in different buffers. -/
lemma Placed.output_ne {m : Memory α} {tmp : Table ℕ} (hp : Placed g cg others m tmp) {i j x : ℕ}
    (hi : cg.aneBufs.lookup i = some x) (hj : cg.aneBufs.lookup j = some h) (hne : i ≠ j) :
    x ≠ h := by
  rintro rfl
  exact hne (Table.eq_of_lookup_eq (List.nodup_append.mp hp.alloc.held.nodup).1 hi hj)

end Frames

/-! ## Dispatches that succeed -/

section Dispatches

variable {α : Type} {device : Device α} {cg : CompiledGraph} {group : CompiledPlanGroup}
  {d : Dispatch α} {f : Frame α}

/-- What a dispatch on Path A has done when it succeeds. -/
lemma dispatchA_go (h : (dispatchA device cg group d f).1 = .ok true) :
    ∃ surfs outBuf ins, readAll (bufferOf cg f.tmp) group.inputs = some surfs ∧
      cg.aneBufs.lookup group.output = some outBuf ∧
      reorder group.program.inputParamNames surfs = some ins ∧ d.ok = true ∧
      (dispatchA device cg group d f).2 = { f with
        memory := f.memory.modify outBuf
          (·.overwrite d (device.evaluate group.program (ins.filterMap f.memory.contents)))
        log := f.log ++ [.Request group.program ins [outBuf] d.ok] } := by
  unfold dispatchA at h ⊢
  split at h
  · cases h
  rename_i surfs hsurfs
  split at h
  · cases h
  rename_i outBuf hout
  split at h
  · cases h
  rename_i ins outs hreq
  obtain ⟨-, hins, hone⟩ := request_eq_some hreq
  obtain rfl : outs = [outBuf] := hone
  exact ⟨surfs, outBuf, ins, hsurfs, hout, hins, by simpa using h, rfl⟩

variable [Zero α]

/-- What a dispatch on Path B has done when it succeeds. -/
lemma dispatchB_go {client : ClientModel}
    (h : (dispatchB device cg group client d f).1 = .ok true) :
    ∃ inTid inShape outShape inBuf outBuf, group.inputs.head? = some inTid ∧
      cg.tensorShapes.lookup inTid = some inShape ∧
      cg.tensorShapes.lookup group.output = some outShape ∧
      bufferOf cg f.tmp inTid = some inBuf ∧ cg.aneBufs.lookup group.output = some outBuf ∧
      (dispatchB device cg group client d f).2 =
        copyIn (copyOut f inBuf (toSizeT inShape.channels * toSizeT inShape.seq * 2 % 2 ^ 64)).2
          outBuf
          (insertColumns client.outSeq.toNat outShape.seq.toNat
            (device.evaluateClient client (extractColumns client.inSeq.toNat inShape.seq.toNat
              fun i => (copyOut f inBuf
                (toSizeT inShape.channels * toSizeT inShape.seq * 2 % 2 ^ 64)).1.getD i 0)))
          (toSizeT outShape.channels * toSizeT outShape.seq * 2 % 2 ^ 64) := by
  unfold dispatchB at h ⊢
  split at h
  · cases h
  rename_i inTid rest hinputs
  split at h
  swap
  · cases h
  rename_i inShape outShape hin hout
  split at h
  · cases h
  rename_i inBuf hinBuf
  simp only at h ⊢
  split_ifs at h with hfits hok
  · cases h
  split at h
  · cases h
  rename_i outBuf houtBuf
  refine ⟨inTid, inShape, outShape, inBuf, outBuf, by rw [hinputs]; rfl, hin, hout, hinBuf, houtBuf,
    ?_⟩
  simp only [hfits, hok, if_true]
  rfl

/-- The dispatch of another group leaves a buffer alone. -/
lemma dispatchGroup_holds {g : AneGraph} {others : List ℕ} {h : ℕ} {v : List α}
    {group : CompiledPlanGroup} (d : Dispatch α) {id : ℕ} (hbuf : cg.aneBufs.lookup id = some h)
    (hne : group.output ≠ id) :
    Triple (fun _ => True) (Holds g cg others h v) (dispatchGroup device cg group d)
      (Holds g cg others h v) := by
  refine fun f hh => ⟨fun hok => ?_, fun _ => trivial⟩
  unfold dispatchGroup at hok ⊢
  cases hclient : group.program.client with
  | none =>
      simp only [hclient] at hok ⊢
      obtain ⟨surfs, outBuf, ins, -, hout, -, -, heq⟩ := dispatchA_go hok
      rw [heq]
      exact hh.write (hh.toPlaced.output_ne hout hbuf hne) (keepsLayout_overwrite d _) _
  | some client =>
      simp only [hclient] at hok ⊢
      obtain ⟨_, _, _, _, outBuf, -, -, -, -, hout, heq⟩ := dispatchB_go hok
      rw [heq]
      exact (hh.logged _ _).write (hh.toPlaced.output_ne hout hbuf hne)
        (keepsLayout_copyFrom _ _) _

section Values

variable {g : AneGraph} {backend : CompilerBackend} {others : List ℕ} {x hin hout : ℕ} {v : List α}

omit [Zero α] in
/-- What a dispatch on Path A leaves of one input. -/
lemma dispatchA_contents (hg : g.Wf) (hp : Placed g cg others f.memory f.tmp)
    (hlt : group.output < g.tensors.length) (hnames : group.program.inputParamNames = [])
    (hx : group.inputs = [x]) (hbin : bufferOf cg f.tmp x = some hin)
    (hv : f.memory.contents hin = some v) (hbout : cg.aneBufs.lookup group.output = some hout)
    (hgo : (dispatchA device cg group d f).1 = .ok true) :
    (dispatchA device cg group d f).2.memory.contents hout =
      some (logical (g.shapeOf group.output) (device.evaluate group.program [v])) := by
  obtain ⟨surfs, outBuf, ins, hsurfs, hout', hins, hok, heq⟩ := dispatchA_go hgo
  obtain rfl : hout = outBuf := Option.some.inj (hbout.symm.trans hout')
  rw [hx] at hsurfs
  obtain rfl : [hin] = surfs := by simpa [readAll, hbin] using hsurfs
  rw [hnames, reorder_nil] at hins
  obtain rfl : [hin] = ins := Option.some.inj hins
  have hvalue : [hin].filterMap f.memory.contents = [v] := by simp [hv]
  rw [heq, hvalue]
  have hdata : ∀ b : AneBuffer α, b.tensorLayout = true → ∀ i < b.copiedBytes 0 / 2,
      (b.overwrite d (device.evaluate group.program [v])).data i =
        device.evaluate group.program [v] i :=
    fun b _ i hi => if_pos ⟨hok, hi⟩
  have hcontents := (hp.alloc.laidOut _ _ hbout).contents_modify (keepsLayout_overwrite d _) hdata
  rwa [(hg.shapeOf_valid hlt).copied_eq] at hcontents

/-- What a dispatch on Path B leaves. -/
lemma dispatchB_contents (hg : g.Wf) (hc : Compiled backend g cg)
    (hp : Placed g cg others f.memory f.tmp) (hlt : group.output < g.tensors.length)
    (hx : group.inputs = [x]) (hbin : bufferOf cg f.tmp x = some hin)
    (hv : f.memory.contents hin = some v) (hbout : cg.aneBufs.lookup group.output = some hout)
    {client : ClientModel} (hgo : (dispatchB device cg group client d f).1 = .ok true) :
    (dispatchB device cg group client d f).2.memory.contents hout =
      some (logical (g.shapeOf group.output)
        (insertColumns client.outSeq.toNat (g.shapeOf group.output).seq.toNat
          (device.evaluateClient client (extractColumns client.inSeq.toNat
            (g.shapeOf x).seq.toNat fun i => v.getD i 0)))) := by
  obtain ⟨inTid, inShape, outShape, inBuf, outBuf, hhead, hin', hout', hinBuf, houtBuf, heq⟩ :=
    dispatchB_go hgo
  obtain rfl : hout = outBuf := Option.some.inj (hbout.symm.trans houtBuf)
  obtain rfl : x = inTid := by simpa [hx] using hhead
  obtain rfl : hin = inBuf := Option.some.inj (hbin.symm.trans hinBuf)
  rw [hc.tensorShapes_eq] at hin' hout'
  obtain ⟨rfl, -⟩ := lookup_tensorShapes hg hin'
  obtain ⟨rfl, -⟩ := lookup_tensorShapes hg hout'
  obtain ⟨b, hget, -, hlayout, -⟩ := hp.bufferOf_laidOut hbin
  have helements : ∀ nbytes, (copyOut f hin nbytes).1 = v := by
    intro nbytes
    rw [Memory.contents, hget, Option.map_some, Option.some.injEq] at hv
    rw [copyOut, hget, Option.map_some, Option.getD_some, ← hv, AneBuffer.copyTo,
      AneBuffer.copyTo, AneBuffer.copiedBytes, AneBuffer.copiedBytes, if_pos hlayout,
      if_pos hlayout]
  rw [heq, helements]
  have hcontents := (hp.alloc.laidOut _ _ hbout).contents_modify (keepsLayout_copyFrom
    (insertColumns client.outSeq.toNat (g.shapeOf group.output).seq.toNat
      (device.evaluateClient client (extractColumns client.inSeq.toNat
        (g.shapeOf x).seq.toNat fun i => v.getD i 0)))
    (toSizeT (g.shapeOf group.output).channels * toSizeT (g.shapeOf group.output).seq * 2 %
      2 ^ 64)) fun b hb i hi => copyFrom_data _ _ b hb i hi
  rwa [(hg.shapeOf_valid hlt).copied_eq] at hcontents

end Values

end Dispatches

/-! ## What a call leaves behind -/

section Calls

variable {α : Type} [Zero α] (dirt : ℕ → ℕ → α) (device : Device α)

/-- In some situation a call comes to a group with `v` in the buffer of tensor `x`, and when it has
returned `true` the buffer of the group's output holds `y`. -/
def Leaves (backend : CompilerBackend) (g : AneGraph) (cg : CompiledGraph)
    (group : CompiledPlanGroup) (x : ℕ) (v y : List α) : Prop :=
  ∃ (fw : AneFramework) (now : PoolUsers α) (env : Environment α) (call : ExecuteCall α) (k : ℕ)
    (f f' : Frame α) (hin hout : ℕ), Reached dirt device backend g fw cg now ∧
    cg.groups[k]? = some group ∧ Dispatches dirt device cg env now.memory call k f ∧
    bufferOf cg f.tmp x = some hin ∧ f.memory.contents hin = some v ∧
    execute dirt device cg env now.memory call = (.ok true, f') ∧
    cg.aneBufs.lookup group.output = some hout ∧ f'.memory.contents hout = some y

variable {dirt device} {backend : CompilerBackend} {g : AneGraph} {cg : CompiledGraph}
  {others : List ℕ} {group : CompiledPlanGroup} {h : ℕ} {v : List α}

omit [Zero α] in
/-- Copying outputs to the caller. -/
lemma copySteps_holds : ∀ args : List (ℕ × ℕ), Triple (fun _ => True) (Holds g cg others h v)
    (runAll (args.map fun (tid, nbytes) => copyOutput cg tid nbytes)) (Holds g cg others h v)
  | [] => Triple.nil
  | (tid, nbytes) :: args => by
      have hfirst : Triple (fun _ => True) (Holds g cg others h v) (copyOutput cg tid nbytes)
          (Holds g cg others h v) := by
        refine fun f hh => ⟨fun hok => ?_, fun _ => trivial⟩
        unfold copyOutput at hok ⊢
        split at hok
        · cases hok
        · exact hh.logged _ _
      exact hfirst.cons (copySteps_holds args)

/-- The dispatches of other groups. -/
lemma groupSteps_holds (dispatch : ℕ → Dispatch α) {id : ℕ}
    (hbuf : cg.aneBufs.lookup id = some h) : ∀ (groups : List CompiledPlanGroup) (k : ℕ),
    (∀ c ∈ groups, c.output ≠ id) → Triple (fun _ => True) (Holds g cg others h v)
      (runAll (groupSteps device cg dispatch k groups)) (Holds g cg others h v)
  | [], _, _ => Triple.nil
  | c :: groups, k, hne =>
      (dispatchGroup_holds (dispatch k) hbuf (hne c List.mem_cons_self)).cons
        (groupSteps_holds dispatch hbuf groups (k + 1) fun c' hc' =>
          hne c' (List.mem_cons_of_mem c hc'))

/-- The group loop comes to a group and goes on behind it. -/
lemma groupSteps_split (dispatch : ℕ → Dispatch α) {groups : List CompiledPlanGroup} {k : ℕ}
    (hk : groups[k]? = some group) : groupSteps device cg dispatch 0 groups =
      groupSteps device cg dispatch 0 (groups.take k) ++
        dispatchGroup device cg group (dispatch k) ::
          groupSteps device cg dispatch (k + 1) (groups.drop (k + 1)) := by
  obtain ⟨hlt, rfl⟩ := List.getElem?_eq_some_iff.mp hk
  have hsplit : groups = groups.take k ++ groups[k] :: groups.drop (k + 1) := by
    rw [List.getElem_cons_drop, List.take_append_drop]
  conv_lhs => rw [hsplit]
  simp only [groupSteps, List.zipIdx_append, List.map_append, List.zipIdx_cons, List.map_cons,
    List.length_take, Nat.min_eq_left hlt.le, Nat.zero_add]

/-- A dispatch that goes on leads to the next group. -/
lemma Dispatches.next {env : Environment α} {m : Memory α} {call : ExecuteCall α} {k : ℕ}
    {f f₁ : Frame α} (hd : Dispatches dirt device cg env m call k f)
    (hk : cg.groups[k]? = some group)
    (hstep : dispatchGroup device cg group (env.dispatch k) f = (.ok true, f₁)) :
    Dispatches dirt device cg env m call (k + 1) f₁ := by
  obtain ⟨hcounts, hrun⟩ := hd
  refine ⟨hcounts, ?_⟩
  have htake : (cg.groups.take (k + 1))[k]? = some group := by
    rw [List.getElem?_take_of_lt (Nat.lt_succ_self k), hk]
  have hdrop : (cg.groups.take (k + 1)).drop (k + 1) = [] :=
    List.drop_eq_nil_of_le (List.length_take_le _ _)
  rw [groupSteps_split env.dispatch htake, List.take_take, Nat.min_eq_left (Nat.le_succ k), hdrop,
    ← List.append_assoc, runAll_append_of_go hrun, runAll_cons_of_go hstep]
  rfl

/-- Groups of a compiled graph write different tensors. -/
lemma outputs_nodup_of_compiled (hg : g.Wf) (hc : Compiled backend g cg) :
    (cg.groups.map (·.output)).Nodup := by
  obtain ⟨S⟩ := FusionRules.exists_schedule hg
  have hgroups : S.groups = cg.groups.map (·.toFusionGroup) :=
    Except.ok.inj (S.computed.symm.trans hc.groups_eq)
  have hnodup := S.outputs_nodup hg
  rw [hgroups, List.map_map] at hnodup
  exact hnodup

/-- What follows the dispatch of a group in a call leaves the output of the group alone. -/
lemma remaining_holds (device : Device α) (hg : g.Wf) (hc : Compiled backend g cg) {k : ℕ}
    (hk : cg.groups[k]? = some group) (hbuf : cg.aneBufs.lookup group.output = some h)
    (dispatch : ℕ → Dispatch α) (call : ExecuteCall α) :
    Triple (fun _ => True) (Holds g cg others h v)
      (runAll (groupSteps device cg dispatch (k + 1) (cg.groups.drop (k + 1)) ++
        copySteps cg call)) (Holds g cg others h v) := by
  have hothers : ∀ c ∈ cg.groups.drop (k + 1), c.output ≠ group.output := by
    obtain ⟨hlt, rfl⟩ := List.getElem?_eq_some_iff.mp hk
    have hnodup := (outputs_nodup_of_compiled hg hc).sublist
      ((List.drop_sublist k cg.groups).map (·.output))
    rw [List.drop_eq_getElem_cons hlt, List.map_cons, List.nodup_cons] at hnodup
    exact fun c hc' he => hnodup.1 (he ▸ List.mem_map_of_mem hc')
  have hcopies : Triple (fun _ => True) (Holds g cg others h v) (runAll (copySteps cg call))
      (Holds g cg others h v) :=
    copySteps_holds _
  exact (groupSteps_holds dispatch hbuf _ _ hothers).append hcopies

/-- **What a call leaves** in the buffer of a group's output is what the dispatch of the group has
left there. -/
theorem Leaves.dispatched (hg : g.Wf) {x : ℕ} {y : List α}
    (hl : Leaves dirt device backend g cg group x v y) :
    ∃ (others : List ℕ) (k : ℕ) (f : Frame α) (d : Dispatch α) (hin hout : ℕ),
      Compiled backend g cg ∧ cg.groups[k]? = some group ∧
      Placed g cg others f.memory f.tmp ∧ bufferOf cg f.tmp x = some hin ∧
      f.memory.contents hin = some v ∧ cg.aneBufs.lookup group.output = some hout ∧
      (dispatchGroup device cg group d f).1 = .ok true ∧
      (dispatchGroup device cg group d f).2.memory.contents hout = some y := by
  obtain ⟨fw, now, env, call, k, f, f', hin, hout, hnow, hk, hd, hbin, hv, hrun, hbout, hy⟩ := hl
  obtain ⟨hc, ha⟩ := hnow.spec dirt device hg
  refine ⟨now.held, k, f, env.dispatch k, hin, hout, hc, hk, hd.placed dirt device hg hc ha, hbin,
    hv, hbout, ?_⟩
  -- the call is the steps up to the group, its dispatch and the rest
  rw [execute, if_pos hd.1, groupSteps_split env.dispatch hk, ← List.append_assoc,
    List.append_assoc, runAll_append_of_go hd.2, List.cons_append] at hrun
  obtain ⟨r, last, hall⟩ : ∃ r last, runAll (dispatchGroup device cg group (env.dispatch k) ::
      (groupSteps device cg env.dispatch (k + 1) (cg.groups.drop (k + 1)) ++ copySteps cg call)) f =
        (r, last) := ⟨_, _, rfl⟩
  rw [hall] at hrun
  obtain ⟨rfl, rfl⟩ := Prod.mk.inj hrun
  have hgo : (dispatchGroup device cg group (env.dispatch k) f).1 = .ok true := by
    by_contra hstop
    rw [runAll_cons_of_stop hstop] at hall
    exact hstop (congrArg Prod.fst hall)
  obtain ⟨f₁, hstep⟩ : ∃ f₁, dispatchGroup device cg group (env.dispatch k) f = (.ok true, f₁) :=
    ⟨_, Prod.ext hgo rfl⟩
  rw [runAll_cons_of_go hstep] at hall
  refine ⟨hgo, ?_⟩
  rw [hstep]
  have hplaced := (hd.next hk hstep).placed dirt device hg hc ha
  obtain ⟨b, hb, -⟩ := hplaced.alloc.laidOut _ _ hbout
  have hcontents : f₁.memory.contents hout = some (b.copyTo 0) := by
    rw [Memory.contents, hb]
    rfl
  have hend : Holds g cg now.held hout (b.copyTo 0) last := by
    have hlast :=
      (remaining_holds device hg hc hk hbout env.dispatch call f₁ ⟨hplaced, hcontents⟩).1
    rw [hall] at hlast
    exact hlast rfl
  obtain ⟨-, -, hheap⟩ := hend.toPlaced.releaseAll_spec (env.releaseOrder_perm last.tmp.values)
  rw [Memory.contents, hheap] at hy
  rw [hcontents, ← hend.contents_eq, ← hy]
  rfl

end Calls

end GraphExecutor

/-! ## Exact arithmetic -/

/-- What patterns stand for in exact arithmetic, where promoting a number does not change it. -/
structure FloatValues (K : Type) where
  half : UInt16 → K
  single : UInt32 → K
  promoted : ∀ h, single (fp16ToFp32 h) = half h

namespace MilBackend

open MilBuilder StraightLine WeightBlob Bytes GraphValidator

variable {F K : Type} [CommSemiring K]

/-- **MIL convolves.**  A weight constant holds the numbers in its file, and a `conv` with a kernel
of one element and neither strides, padding, dilations nor groups is exact. -/
structure MilConvolves (E : FloatValues K) (sem : MilSem F K) : Prop where
  blob : ∀ (type : MilType) (content : List UInt8),
    ((halves (content.drop kDataOffset)).length : ℤ) = type.elements →
    sem ⟨type, .Blob type (some content)⟩ [] = (halves (content.drop kDataOffset)).map E.half
  conv : ∀ (IC OC S : ℕ) (W x : List K), W.length = OC * IC → x.length = IC * S →
    sem ⟨tensorType (shapeOf OC S), .Op "conv" (["dilations", "groups", "pad", "pad_type",
      "strides", "weight", "x"].map (·, .Var))⟩
      [sem ⟨int32Vec 2, .Const (.Int32Tensor [1, 1])⟩ [], sem ⟨int32, .Const (.Int32 1)⟩ [],
        sem ⟨int32Vec 4, .Const (.Int32Tensor [0, 0, 0, 0])⟩ [],
        sem ⟨.Scalar "string", .Const (.Str "valid")⟩ [],
        sem ⟨int32Vec 2, .Const (.Int32Tensor [1, 1])⟩ [], W, x] = exactConvolution W x S IC OC

/-- A `MATMUL` from `IC` channels to `OC` channels, at 16 positions. -/
structure MatmulNode (g : AneGraph) (n : GraphNode) (x IC OC : ℕ) : Prop where
  mem : n ∈ g.nodes
  op_eq : n.op = .Matmul
  inputs_eq : n.inputs = [x]
  in_eq : g.shapeOf x = ⟨1, IC, 1, 16⟩
  out_eq : g.shapeOf n.output = ⟨1, OC, 1, 16⟩

variable {G : AcceptedGraph} {n : GraphNode} {x IC OC : ℕ}

lemma MatmulNode.input_lt (h : MatmulNode G.graph n x IC OC) : x < G.graph.tensors.length :=
  G.wf.input_lt h.mem (by rw [h.inputs_eq]; simp)

/-- Its operand and its result. -/
lemma MatmulNode.exists_tensors (h : MatmulNode G.graph n x IC OC) : ∃ a b,
    G.graph.tensor x = .ok a ∧ G.graph.tensor n.output = .ok b ∧ a.shape = ⟨1, IC, 1, 16⟩ ∧
      b.shape = ⟨1, OC, 1, 16⟩ := by
  obtain ⟨a, ha, -⟩ := G.wf.tensor_ok h.input_lt
  obtain ⟨b, hb, -⟩ := G.wf.tensor_ok (G.wf.output_lt n h.mem)
  exact ⟨a, b, ha, hb, (AneGraph.shapeOf_eq ha).symm.trans h.in_eq,
    (AneGraph.shapeOf_eq hb).symm.trans h.out_eq⟩

/-- The weights are a matrix, and they have a file. -/
lemma MatmulNode.weights (h : MatmulNode G.graph n x IC OC) :
    n.weights.length = 2 * (IC * OC) ∧ n.weights ≠ [] ∧ n.weightFile ≠ "" := by
  have hv := G.wf.shapeOf_valid (G.wf.output_lt n h.mem)
  have hinv := G.wf.shapeOf_valid h.input_lt
  obtain ⟨t, ht, herr⟩ := G.opErrors_eq_nil h.mem
  obtain ⟨a, ha, -⟩ := G.wf.tensor_ok h.input_lt
  simp only [opErrors, h.op_eq, Except.ok.injEq, matmulErrors_eq_nil_iff] at herr
  have hfirst : firstChannels G.graph n = (G.graph.shapeOf x).channels := by
    simp [firstChannels, h.inputs_eq, AneGraph.shapeOf, AneGraph.tensor_eq_ok_iff.mp ha]
  have hlen := herr.2
  rw [hfirst, ← AneGraph.shapeOf_eq ht, matrix_bytes hinv hv, h.in_eq, h.out_eq] at hlen
  have hpos : 0 < IC * OC := by
    have hic : (0 : ℤ) < IC := by simpa [h.in_eq] using hinv.channels_pos
    have hoc : (0 : ℤ) < OC := by simpa [h.out_eq] using hv.channels_pos
    exact Nat.mul_pos (by omega) (by omega)
  simp only [Int.toNat_natCast] at hlen
  have hw : n.weights ≠ [] := List.ne_nil_of_length_pos (by omega)
  exact ⟨hlen, hw, by rw [weightFile_eq_numeral G.wf h.mem hw]; exact numeral_ne_empty n.id⟩

/-- They are `IC * OC` numbers. -/
lemma MatmulNode.length_halves (h : MatmulNode G.graph n x IC OC) :
    (halves n.weights).length = IC * OC := by
  rw [Bytes.length_halves, h.weights.1, Nat.mul_div_cancel_left _ (by norm_num)]

/-- The operand has 16 elements for every channel, and so has the result. -/
lemma MatmulNode.numel_eq (h : MatmulNode G.graph n x IC OC) :
    (G.graph.shapeOf x).numel = IC * 16 ∧ (G.graph.shapeOf n.output).numel = OC * 16 := by
  have hin := (G.wf.shapeOf_valid h.input_lt).numel_eq
  have hout := (G.wf.shapeOf_valid (G.wf.output_lt n h.mem)).numel_eq
  rw [h.in_eq] at hin ⊢
  rw [h.out_eq] at hout ⊢
  dsimp only at hin hout
  exact ⟨by omega, by omega⟩

/-- It is declared with the shape of its fragment. -/
lemma MatmulNode.declaresFragment (h : MatmulNode G.graph n x IC OC) :
    DeclaresFragment G.graph n := by
  rw [DeclaresFragment, fragmentShape, h.op_eq, h.out_eq]
  rfl

/-- The weight file holds the transposed matrix. -/
lemma MatmulNode.weightEntries (h : MatmulNode G.graph n x IC OC) :
    MilBackend.weightEntries G.graph n =
      .ok [⟨n.weightFile, makeBlob (ofHalves (transpose IC OC (halves n.weights)))⟩] := by
  obtain ⟨hlen, hw, hfile⟩ := h.weights
  obtain ⟨a, b, ha, hb, hin, hout⟩ := h.exists_tensors
  rw [MilBackend.weightEntries, if_neg (by simp [hfile, hw])]
  simp only [h.op_eq, h.inputs_eq, ha, hb, hin, hout, ok_bind, fromFp16Transposed,
    Int.toNat_natCast]
  rw [if_neg (by omega)]
  rfl

variable [MilFloat F]

/-- **What a `MATMUL` means**: the convolution of its operand with the transposed matrix. -/
lemma MatmulNode.nodeMeaning_eq (h : MatmulNode G.graph n x IC OC) {E : FloatValues K}
    {sem : MilSem F K} (hconv : MilConvolves E sem) {v : List K} (hv : v.length = IC * 16) :
    nodeMeaning sem G.graph n [v] =
      exactConvolution ((transpose IC OC (halves n.weights)).map E.half) v 16 IC OC := by
  obtain ⟨f, hf, -⟩ := nodeToFragment_ok (F := F) G (tensorVar x) (tensorVar n.output) h.mem
    (by simp [Lowerable, h.op_eq])
  obtain ⟨a, b, ha, hb, hin, hout⟩ := h.exists_tensors
  have hemit : matmulFragment IC OC 16 (tensorVar x) (tensorVar n.output) n.weightFile = .ok f := by
    simpa only [nodeToFragment, h.inputs_eq, List.headD_cons, ha, hb, ok_bind, hin, hout,
      h.op_eq] using hf
  have hemitted := matmulFragment_emitted hemit
  -- the one file of the node
  have hfile : contentOf [⟨n.weightFile, makeBlob (ofHalves (transpose IC OC (halves n.weights)))⟩]
      n.weightFile = some (makeBlob (ofHalves (transpose IC OC (halves n.weights)))) := by
    simp [contentOf]
  have hwords : halves ((makeBlob (ofHalves (transpose IC OC (halves n.weights)))).drop
      kDataOffset) = transpose IC OC (halves n.weights) := by
    rw [data_makeBlob, halves_ofHalves]
  have hwired : ∀ files, Wired files [tensorVar x]
      (MilWiring.matmulWires IC OC 16 (files n.weightFile)) f.body :=
    fun _ => MilWiring.matmul_wired hemit
  have hwired := hfile ▸ hwired (contentOf [⟨n.weightFile,
    makeBlob (ofHalves (transpose IC OC (halves n.weights)))⟩])
  have hfresh : ∀ a ∈ [tensorVar x], a ∉ f.body.map (·.var) := by
    refine hemitted.fresh fun a ha => ?_
    rw [List.mem_singleton.mp ha]
    have hne := ne_of_lt (G.wf.input_lt_output n h.mem x (by rw [h.inputs_eq]; simp))
    exact ⟨fun he => hne (tensorVar_injective he), tensorVar_ne_temporary _ _⟩
  have henv : [tensorVar x].map (bindArgs [tensorVar x] [v]) = [v].map some := by
    simp [bindArgs]
  obtain ⟨y, hy, hrun⟩ := run_wired_last sem hwired hemitted.vars_nodup hfresh henv
    hemitted.getLast?
  have hW := hconv.blob (.Tensor "fp16" "," [OC, IC, 1, 1])
    (makeBlob (ofHalves (transpose IC OC (halves n.weights))))
    (by rw [hwords, length_transpose]; simp [MilType.elements])
  rw [hwords] at hW
  have hvalue :
      exactConvolution ((transpose IC OC (halves n.weights)).map E.half) v 16 IC OC = y := by
    rw [← hconv.conv IC OC 16 _ v (by simp) hv]
    simpa [MilWiring.matmulWires, MilWiring.const, MilWiring.blob, MilWiring.op, hW] using hy
  rw [nodeMeaning, nodeValue, h.inputs_eq, List.headD_cons, hf, h.weightEntries]
  show ((runBody sem (contentOf _) (bindArgs [tensorVar x] [v]) f.body).bind
    (· f.outputName)).getD [] = _
  rw [hvalue]
  exact congrArg (Option.getD · []) hrun

end MilBackend

/-! ## The two paths -/

namespace GraphExecutor

open StraightLine GraphCompiler MilBackend MilBuilder WeightBlob Bytes

variable {F : Type} [MilFloat F] {K : Type} [CommSemiring K]

/-- A group of one node. -/
lemma group_of_single {g : AneGraph} (hg : g.Wf) {backend : CompilerBackend} {cg : CompiledGraph}
    (hc : Compiled backend g cg) {group : CompiledPlanGroup} (hmem : group ∈ cg.groups)
    {n : GraphNode} (hn : n ∈ g.nodes) (hids : group.nodeIds = [n.id]) :
    group.toFusionGroup = FusionRules.startGroup n ∧
      FusionRules.members g group.toFusionGroup = [n] := by
  obtain ⟨S⟩ := FusionRules.exists_schedule hg
  have hgroups : S.groups = cg.groups.map (·.toFusionGroup) :=
    Except.ok.inj (S.computed.symm.trans hc.groups_eq)
  have hgrouped := S.grouped (hgroups ▸ List.mem_map_of_mem hmem)
  have hmembers : FusionRules.members g group.toFusionGroup = [n] := by
    obtain ⟨hresolve, hms⟩ := hgrouped.resolves
    obtain ⟨m, hm, hmid⟩ : ∃ m, FusionRules.members g group.toFusionGroup = [m] ∧ m.id = n.id := by
      rw [hids] at hresolve
      exact List.map_eq_singleton_iff.mp hresolve.symm
    have hm' := hg.node_ok (hms m (by rw [hm]; simp))
    rw [hmid] at hm'
    rw [hm, Except.ok.inj (hm'.symm.trans (hg.node_ok hn))]
  refine ⟨?_, hmembers⟩
  rw [hmembers] at hgrouped
  generalize group.toFusionGroup = fused at hgrouped
  generalize hms : [n] = ms at hgrouped
  cases hgrouped with
  | start m hm =>
      obtain rfl : n = m := by simpa using hms
      rfl
  | extend fused ms last m hm hlast hext h =>
      obtain ⟨rfl, -⟩ : ms = [] ∧ _ := by simpa [List.singleton_eq_append_iff] using hms
      cases hlast

/-- A buffer holds as many elements as its tensor has. -/
lemma Placed.length_contents {α : Type} {g : AneGraph} {cg : CompiledGraph} {others : List ℕ}
    {m : Memory α} {tmp : Table ℕ} (hp : Placed g cg others m tmp) {id h : ℕ}
    (hs : (g.shapeOf id).Valid) (hb : bufferOf cg tmp id = some h) {v : List α}
    (hv : m.contents h = some v) : v.length = (g.shapeOf id).numel := by
  obtain ⟨b, hget, -, hlayout, hc, hq⟩ := hp.bufferOf_laidOut hb
  rw [Memory.contents, hget, Option.map_some, Option.some.injEq] at hv
  rw [← hv, AneBuffer.copyTo, List.length_map, List.length_range, AneBuffer.copiedBytes,
    if_pos hlayout, hc, hq, hs.copied_eq]

/-- **The hardware multiplies.**  A network of one `inner_product` layer and one position multiplies
its weights with the column it is given. -/
def RunsInnerProduct (E : FloatValues K) (device : Device K) : Prop :=
  ∀ client : ClientModel, client.inSeq = 1 → client.outSeq = 1 →
    client.weights.length = client.outChannels.toNat * client.inChannels.toNat →
    ∀ (column : ℕ → K) (j : ℕ), j < client.outChannels.toNat →
      device.evaluateClient client column j = ((List.range client.inChannels.toNat).map fun i =>
        E.single (client.weights.getD (j * client.inChannels.toNat + i) 0) * column i).sum

/-- Channel `j` and position `s` of the product of a stored `IC × OC` matrix and an operand with 16
positions. -/
def productAt (E : FloatValues K) (W : List UInt16) (IC OC : ℕ) (v : List K) (j s : ℕ) : K :=
  ((List.range IC).map fun i => E.half (W.getD (i * OC + j) 0) * v.getD (i * 16 + s) 0).sum

variable {dirt : ℕ → ℕ → K} {device : Device K} {G : AcceptedGraph} {cg : CompiledGraph}
  {group : CompiledPlanGroup} {n : GraphNode} {x IC OC : ℕ} {v y : List K} {E : FloatValues K}

/-- An entry of the transpose of a converted matrix. -/
lemma getElem?_transpose_map {β : Type} [Inhabited β] {W : List UInt16} (hW : W.length = IC * OC)
    (convert : UInt16 → β) {i j : ℕ} (hi : i < IC) (hj : j < OC) :
    (transpose IC OC (W.map convert))[j * IC + i]? = some (convert (W.getD (i * OC + j) 0)) := by
  have hlt : i * OC + j < W.length := hW ▸ index_lt hi hj
  rw [getElem?_transpose (by rw [List.length_map, hW]) hi hj, List.getElem?_map,
    List.getElem?_eq_getElem hlt, List.getD_eq_getElem?_getD, List.getElem?_eq_getElem hlt]
  rfl

/-- The convolution with the transposed matrix is the product. -/
lemma getElem?_exactConvolution {W : List UInt16} (hW : W.length = IC * OC) {j s : ℕ} (hj : j < OC)
    (hs : s < 16) :
    (exactConvolution ((transpose IC OC W).map E.half) v 16 IC OC)[j * 16 + s]? =
      some (productAt E W IC OC v j s) := by
  have hdiv : (j * 16 + s) / 16 = j := by omega
  have hmod : (j * 16 + s) % 16 = s := by omega
  rw [exactConvolution, List.getElem?_map, List.getElem?_range (by omega), Option.map_some, hdiv,
    hmod]
  refine congrArg (fun l : List K => some l.sum) (List.map_congr_left fun i hi => ?_)
  have hget := getElem?_transpose_map hW id (List.mem_range.mp hi) hj
  rw [List.map_id] at hget
  rw [List.getD_eq_getElem?_getD, List.getElem?_map, hget]
  rfl

/-- **Path A** multiplies at all positions. -/
lemma Leaves.mil {fw : AneFramework} {sem : MilSem F K} (hconv : MilConvolves E sem)
    (hsem : sem.Typed) (hdevice : RunsMil sem device G.graph group)
    (hnode : MatmulNode G.graph n x IC OC) (hids : group.nodeIds = [n.id])
    (hl : Leaves dirt device (MilBackend F fw) G.graph cg group x v y) :
    y = exactConvolution ((transpose IC OC (halves n.weights)).map E.half) v 16 IC OC := by
  obtain ⟨others, k, f, d, hin, hout, hc, hk, hp, hbin, hv, hbout, hgo, hy⟩ := hl.dispatched G.wf
  have hmem := List.mem_of_getElem? hk
  obtain ⟨hgroup, hmembers⟩ := group_of_single G.wf hc hmem hnode.mem hids
  have hinputs : group.inputs = [x] := by
    rw [hgroup]
    exact hnode.inputs_eq
  have houtput : group.output = n.output := by rw [hgroup]; rfl
  obtain ⟨-, hnames, hclient⟩ := compiled_program G hc hk
  have hlen : v.length = IC * 16 := by
    rw [hp.length_contents (G.wf.shapeOf_valid hnode.input_lt) hbin hv, hnode.numel_eq.1]
  rw [dispatchGroup, hclient] at hgo hy
  rw [dispatchA_contents G.wf hp (houtput ▸ G.wf.output_lt n hnode.mem) hnames hinputs hbin hv hbout
    hgo, Option.some.injEq] at hy
  have hread : readAll (fun i => if i = x then some v else none) group.inputs = some [v] := by
    simp [readAll, hinputs]
  have hrun : run (·.output) (·.inputs) (nodeMeaning sem G.graph)
      (fun i => if i = x then some v else none)
      (FusionRules.members G.graph group.toFusionGroup) =
        some (Function.update (fun i => if i = x then some v else none) n.output
          (some (nodeMeaning sem G.graph n [v]))) := by
    rw [hmembers]
    simp [run, exec, readAll, hnode.inputs_eq]
  have hsummary := group_summary G hc hsem hmem
    (by rw [hmembers]; simpa using hnode.declaresFragment) (by simp [hinputs]) hdevice hrun hread
  rw [houtput, Function.update_self, groupValue, hnames, reorder_nil, Option.getD_some,
    Option.some.injEq, hnode.nodeMeaning_eq hconv hlen] at hsummary
  exact (hsummary.trans hy).symm

/-- The network of a group. -/
lemma compileGroup_network {pathB : PathB} (hnode : MatmulNode G.graph n x IC OC)
    {group : FusionGroup} (hids : group.nodeIds = [n.id]) {name : String} {program : AneProgram}
    (h : EspressoBackend.compileGroup pathB G.graph group name = .ok (some program)) :
    program.client = some {
      inChannels := IC, inSeq := 1, outChannels := OC, outSeq := 1
      weights := transpose IC OC ((halves n.weights).map fp16ToFp32) } := by
  obtain ⟨hlen, hw, -⟩ := hnode.weights
  obtain ⟨a, b, ha, hb, hin, hout⟩ := hnode.exists_tensors
  have hshort : ¬ n.weights.length < 2 * (IC * OC) := by omega
  simp only [EspressoBackend.compileGroup, hids, G.wf.node_ok hnode.mem, hnode.inputs_eq, ha, hb,
    hin, hout, ok_bind, hw, if_false, transposeFp16ToFp32, Int.toNat_natCast, hshort] at h
  have h := pure_eq_ok_iff.mp h
  split_ifs at h
  cases h
  rfl

/-- **Path B** multiplies the first column, and leaves zeros in the others. -/
lemma Leaves.espresso {pathB : PathB} {fw : AneFramework}
    {hwx : AneGraph → FusionGroup → String → Outcome (Option AneProgram)}
    (hdevice : RunsInnerProduct E device)
    (howns : EspressoBackend.owns pathB G.graph group.toFusionGroup = .ok true)
    (hnode : MatmulNode G.graph n x IC OC) (hids : group.nodeIds = [n.id])
    (hl : Leaves dirt device (defaultBackend F hwx pathB fw) G.graph cg group x v y) :
    y.length = OC * 16 ∧ ∀ j < OC, ∀ s < 16, y[j * 16 + s]? =
      some (if s = 0 then productAt E (halves n.weights) IC OC v j 0 else 0) := by
  obtain ⟨others, k, f, d, hin, hout, hc, hk, hp, hbin, hv, hbout, hgo, hy⟩ := hl.dispatched G.wf
  obtain ⟨hgroup, -⟩ := group_of_single G.wf hc (List.mem_of_getElem? hk) hnode.mem hids
  have hinputs : group.inputs = [x] := by
    rw [hgroup]
    exact hnode.inputs_eq
  have houtput : group.output = n.output := by rw [hgroup]; rfl
  have hprogram := hc.program_eq k group hk
  rw [EspressoBackend.defaultBackend_of_owned hwx fw G.wf howns] at hprogram
  have hclient := compileGroup_network hnode hids hprogram
  have hlt := G.wf.output_lt n hnode.mem
  have hW := hnode.length_halves
  rw [dispatchGroup, hclient] at hgo hy
  rw [dispatchB_contents G.wf hc hp (houtput ▸ hlt) hinputs hbin hv hbout hgo, Option.some.injEq,
    houtput, logical, hnode.numel_eq.2, hnode.in_eq, hnode.out_eq] at hy
  generalize hnet : ClientModel.mk IC 1 OC 1 (transpose IC OC ((halves n.weights).map fp16ToFp32)) =
    net at hy
  replace hy : (List.range (OC * 16)).map (insertColumns net.outSeq.toNat 16
      (device.evaluateClient net (extractColumns net.inSeq.toNat 16 fun i => v.getD i 0))) = y := hy
  have hone : net.inSeq = 1 ∧ net.outSeq = 1 := by subst hnet; exact ⟨rfl, rfl⟩
  subst hy
  refine ⟨by simp, fun j hj s hs => ?_⟩
  have hdiv : (j * 16 + s) / 16 = j := by omega
  have hmod : (j * 16 + s) % 16 = s := by omega
  rw [List.getElem?_map, List.getElem?_range (by omega), Option.map_some, insertColumns, hdiv, hmod,
    hone.1, hone.2]
  by_cases hs0 : s = 0
  · subst hs0
    rw [if_pos (by simp), if_pos rfl]
    subst hnet
    rw [hdevice _ rfl rfl (by simp) _ _ (by simpa using hj)]
    refine congrArg (fun l : List K => some l.sum) (List.map_congr_left fun i hi => ?_)
    have hget := getElem?_transpose_map hW fp16ToFp32 (List.mem_range.mp hi) hj
    simp only [Int.toNat_one, Nat.mul_one, Nat.add_zero, List.getD_eq_getElem?_getD,
      Int.toNat_natCast]
    rw [hget, Option.getD_some, E.promoted, List.getD_eq_getElem?_getD]
    simp [extractColumns, Nat.mod_one]
  · rw [if_neg (by simpa using hs0), if_neg hs0]

/-- The product with a matrix of the first numbers. -/
def fullyConnected : AcceptedGraph where
  graph := AneGraph.build [.AddInput "x" ⟨1, 2, 1, 16⟩, .AddOp .Matmul [0] ⟨1, 3, 1, 16⟩
    (ofHalves [0x3C00, 0x4000, 0x4200, 0x4400, 0x4500, 0x4600]), .MarkOutput 1 ""]
  built := ⟨_, rfl⟩
  accepted := by decide

/-- Patterns stand for rational numbers. -/
def rationals : FloatValues ℚ := ⟨fp16Value, fp32Value, fp32Value_fp16ToFp32⟩

/-- Weight constants and convolutions, over the rational numbers. -/
def exactMil : MilSem Unit ℚ := fun c vs => (List.range c.type.elements.toNat).map fun i =>
  (match c with
    | ⟨_, .Blob _ (some content)⟩ => (halves (content.drop kDataOffset)).map fp16Value
    | ⟨.Tensor _ _ [_, OC, _, S], .Op "conv" _⟩ =>
        exactConvolution (vs.getD 5 []) (vs.getD 6 []) S.toNat
          ((vs.getD 5 []).length / OC.toNat) OC.toNat
    | _ => []).getD i 0

/-- The device that runs a program and multiplies with the weights of a network. -/
def exactDevice (g : AneGraph) (group : FusionGroup) : Device ℚ where
  evaluate := (milDevice exactMil g group).evaluate
  evaluateClient client column j := ((List.range client.inChannels.toNat).map fun i =>
    fp32Value (client.weights.getD (j * client.inChannels.toNat + i) 0) * column i).sum

/-- One at position `s` of both channels, and zero elsewhere. -/
def oneColumn (s : ℕ) : ExecuteCall ℚ where
  inputPtrs := [fun i => if i % 16 = s then 1 else 0]
  inputBytes := [64]
  outputPtrs := 1
  outputBytes := [96]

/-- Every dispatch succeeds. -/
def alwaysOk : Environment ℚ where
  dispatch _ := { ok := true, scribble := fun _ => 7 }
  releaseOrder := id
  releaseOrder_perm := List.Perm.refl

/-- Everything can be loaded. -/
def loadsAll : PathB := ⟨true, fun _ _ => true⟩

lemma exactMil_typed : exactMil.Typed := fun c vs => by simp [exactMil]

/-- The elements of a list, one after another. -/
lemma map_getD_range (l : List ℚ) : (List.range l.length).map (l.getD · 0) = l := by
  refine List.ext_getElem (by simp) fun i hi hi' => ?_
  simp [List.getD_eq_getElem?_getD, hi']

lemma exactMil_convolves : MilConvolves rationals exactMil where
  blob type content hlen := by
    have hlen' : type.elements.toNat =
        ((halves (content.drop kDataOffset)).map fp16Value).length := by
      rw [← hlen, List.length_map, Int.toNat_natCast]
    rw [exactMil, hlen']
    exact map_getD_range _
  conv IC OC S W x hW _ := by
    have hlen : (tensorType (shapeOf OC S)).elements.toNat =
        (exactConvolution W x S (W.length / OC) OC).length := by
      have helements : (tensorType (shapeOf OC S)).elements = ((OC * S : ℕ) : ℤ) := by
        simp [tensorType, MilType.elements, shapeOf]
      rw [helements, Int.toNat_natCast, exactConvolution, List.length_map, List.length_range]
    have hvalue : exactConvolution W x S (W.length / OC) OC = exactConvolution W x S IC OC := by
      rcases Nat.eq_zero_or_pos OC with rfl | hpos
      · simp [exactConvolution]
      · rw [hW, Nat.mul_div_cancel_left _ hpos]
    rw [← hvalue, ← map_getD_range (exactConvolution W x S (W.length / OC) OC), ← hlen]
    rfl

/-- A call with such an operand, when the router has compiled the graph. -/
lemma fullyConnected_espresso {s : ℕ} (hs : s < 2) : ∃ cg group y,
    group.toFusionGroup = ⟨[0], [0], 1⟩ ∧
      Leaves (fun _ _ => 3) (exactDevice fullyConnected.graph ⟨[0], [0], 1⟩)
        (defaultBackend Unit (fun _ _ _ => .ok none) loadsAll compilesAll) fullyConnected.graph cg
        group 0 ((List.range 32).map fun i => if i % 16 = s then 1 else 0) y := by
  refine ⟨_, _, _, rfl, compilesAll, _, alwaysOk, oneColumn s, 0, _, _, _, _,
    ⟨4, [], _, [], rfl, rfl⟩, rfl, ⟨⟨rfl, rfl, rfl, rfl⟩, rfl⟩, rfl, ?_, rfl, rfl, rfl⟩
  interval_cases s <;> decide +kernel

/-- The same call, when `MilBackend` has. -/
lemma fullyConnected_mil {s : ℕ} (hs : s < 2) : ∃ cg group y,
    group.toFusionGroup = ⟨[0], [0], 1⟩ ∧
      Leaves (fun _ _ => 3) (exactDevice fullyConnected.graph ⟨[0], [0], 1⟩)
        (MilBackend Unit compilesAll) fullyConnected.graph cg group 0
        ((List.range 32).map fun i => if i % 16 = s then 1 else 0) y := by
  refine ⟨_, _, _, rfl, compilesAll, _, alwaysOk, oneColumn s, 0, _, _, _, _,
    ⟨4, [], _, [], rfl, rfl⟩, rfl, ⟨⟨rfl, rfl, rfl, rfl⟩, rfl⟩, rfl, ?_, rfl, rfl, rfl⟩
  interval_cases s <;> decide +kernel

/-- The node and its operand. -/
lemma fullyConnected_node : ∃ n, n.id = 0 ∧ MatmulNode fullyConnected.graph n 0 2 3 ∧
    halves n.weights = [0x3C00, 0x4000, 0x4200, 0x4400, 0x4500, 0x4600] :=
  ⟨_, rfl, ⟨List.mem_singleton.mpr rfl, rfl, rfl, rfl, rfl⟩, rfl⟩

end GraphExecutor

end Libane
