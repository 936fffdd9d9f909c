import Libane.Graph.Execution

/-!
# What a call does to buffers and to the caller's memory

What `execute` touches, for programs of any kind and whatever the dispatches do.

These facts do not depend on what a program computes, and so they hold for programs that compute
something else than they should.  They are about single calls from states that a history can lead
to; that a call leaves such a state behind, also when it fails, is part of the invariant.

* `Metered` — the invariant of a call: its buffers are in place, and every copy it has made for
  the caller moved exactly the bytes of the tensor.
* `execute_metered` — a call makes all copies of its inputs, and the copies of a beginning of its
  outputs.
* `Reached` — the situations in which a compiled graph is used.
* `Dispatches` — the frame in which a call dispatches its `k`-th group.
-/

namespace Libane

namespace GraphExecutor

open StraightLine Steps GraphCompiler

variable {α : Type}

/-! ## Metered copies -/

section Metered

variable (g : AneGraph) (cg : CompiledGraph) (others : List ℕ)

/-- The buffers are in place; the inputs in `ins` have been read and the outputs in `outs`
written, each exactly as long as its tensor. -/
structure Metered (ins outs : List ℕ) (f : Frame α) : Prop where
  placed : Placed g cg others f.memory f.tmp
  reads : ∀ i id : ℕ, ins[i]? = some id → ∃ b, f.log[i]? = some (.CopyIn b (g.shapeOf id).bytes)
  writes : f.delivered.map List.length = outs.map fun id => (g.shapeOf id).numel

/-- While inputs are filled, the log holds nothing else, and the next inputs have no buffer. -/
structure Filling (done rest : List ℕ) (f : Frame α) : Prop
    extends Metered g cg others done [] f where
  length_eq : f.log.length = done.length
  fresh : ∀ id ∈ rest, f.tmp.lookup id = none

end Metered

section Steps

variable {g : AneGraph} {backend : CompilerBackend} {cg : CompiledGraph} {others : List ℕ}
  {ins outs : List ℕ} {f : Frame α}

/-- Between the copies for the caller, buffers may be written and accesses logged. -/
lemma Metered.logged (hm : Metered g cg others ins outs f) {m : Memory α}
    (hp : Placed g cg others m f.tmp) (e : Event) :
    Metered g cg others ins outs { f with memory := m, log := f.log ++ [e] } where
  placed := hp
  reads := by
    intro i id hi
    obtain ⟨b, hb⟩ := hm.reads i id hi
    exact ⟨b, List.getElem?_append_left (List.getElem?_eq_some_iff.mp hb).1 ▸ hb⟩
  writes := hm.writes

lemma Metered.copyIn (hm : Metered g cg others ins outs f) (h : ℕ) (src : ℕ → α) (nbytes : ℕ) :
    Metered g cg others ins outs (copyIn f h src nbytes) :=
  hm.logged (hm.placed.modify h (keepsLayout_copyFrom src nbytes)) _

lemma Metered.copyOut (hm : Metered g cg others ins outs f) (h nbytes : ℕ) :
    Metered g cg others ins outs (copyOut f h nbytes).2 :=
  hm.logged hm.placed _

/-- The size of a copy on a buffer that is laid out for a tensor. -/
lemma copiedBytes_eq {m : Memory α} {h : ℕ} {s : TensorShape} (hs : s.Valid) {size : ℕ}
    (hl : m.LaidOut h s.channels s.seq size) (nbytes : ℕ) : copiedBytes m h nbytes = s.bytes := by
  obtain ⟨b, hb, -, hlayout, hc, hq⟩ := hl
  rw [copiedBytes, hb, Option.map_some, Option.getD_some, AneBuffer.copiedBytes, if_pos hlayout,
    hc, hq, hs.bytes_eq.1]

/-- The tables of a compiled graph know every tensor. -/
lemma lookup_tensor (hg : g.Wf) (hc : Compiled backend g cg) {id : ℕ}
    (h : id < g.tensors.length) : cg.tensorShapes.lookup id = some (g.shapeOf id) ∧
      cg.tensorBytes.lookup id = some (g.shapeOf id).bytes := by
  obtain ⟨t, ht, hid, -⟩ := hg.tensor_ok h
  have hmem : t ∈ g.tensors := List.mem_of_getElem? (AneGraph.tensor_eq_ok_iff.mp ht)
  have hkeys := hg.tensor_ids_nodup
  rw [hc.tensorShapes_eq, hc.tensorBytes_eq, AneGraph.shapeOf_eq ht, ← hid]
  exact ⟨Table.lookup_ofList hkeys _ hmem, Table.lookup_ofList hkeys _ hmem⟩

/-- Reading one graph input: it always succeeds. -/
lemma fillInput_triple_metered (hg : g.Wf) (hc : Compiled backend g cg) (dirt : ℕ → ℕ → α)
    {tid : ℕ} (hin : tid ∈ g.graphInputs) (done rest : List ℕ) (hrest : tid ∉ rest) (ptr : ℕ → α)
    (nbytes : ℕ) :
    Triple (fun _ => False) (Filling g cg others done (tid :: rest))
      (fillInput dirt cg tid ptr nbytes) (Filling g cg others (done ++ [tid]) rest) := by
  intro f hf
  have hlt := hg.graphInput_lt tid hin
  obtain ⟨hshape, hbytes⟩ := lookup_tensor hg hc hlt
  obtain ⟨h, m, hacq⟩ : ∃ h m, f.memory.acquireTensorPadded dirt (g.shapeOf tid).channels
      (g.shapeOf tid).seq cg.ioAllocBytes = (h, m) := ⟨_, _, rfl⟩
  obtain ⟨hplaced, -⟩ := hf.placed.acquired dirt hin (hf.fresh tid List.mem_cons_self) hacq
  have hcopied : copiedBytes m h nbytes = (g.shapeOf tid).bytes :=
    copiedBytes_eq (hg.shapeOf_valid hlt) (hplaced.tmpLaidOut tid h (AList.lookup_insert _)) nbytes
  unfold fillInput
  simp only [hshape, hbytes, hacq]
  refine ⟨fun _ => ?_, fun hne => absurd rfl hne⟩
  exact {
    placed := hplaced.modify h (keepsLayout_copyFrom ptr nbytes)
    reads := by
      intro i id hi
      rcases AneGraph.getElem?_concat_eq_some hi with hi | ⟨rfl, rfl⟩
      · obtain ⟨b, hb⟩ := hf.reads i id hi
        exact ⟨b, (List.getElem?_append_left (List.getElem?_eq_some_iff.mp hb).1).trans hb⟩
      · refine ⟨h, ?_⟩
        show (f.log ++ [Event.CopyIn h (copiedBytes m h nbytes)])[done.length]? = _
        rw [← hf.length_eq, List.getElem?_concat_length, hcopied]
    writes := hf.writes
    length_eq := by
      show (f.log ++ [Event.CopyIn h (copiedBytes m h nbytes)]).length = _
      rw [List.length_append, List.length_append, hf.length_eq]
      rfl
    fresh := by
      intro id hid
      have hne : id ≠ tid := fun he => hrest (he ▸ hid)
      show (f.tmp.insert tid h).lookup id = none
      rw [Table.lookup_insert_cases, if_neg hne]
      exact hf.fresh id (List.mem_cons_of_mem _ hid) }

/-- Reading all graph inputs. -/
lemma fillSteps_triple_metered (hg : g.Wf) (hc : Compiled backend g cg) (dirt : ℕ → ℕ → α) :
    ∀ (args : List (ℕ × (ℕ → α) × ℕ)) (done : List ℕ), (∀ x ∈ args, x.1 ∈ g.graphInputs) →
    (args.map Prod.fst).Nodup →
    Triple (fun _ => False) (Filling g cg others done (args.map Prod.fst))
      (runAll (args.map fun (tid, ptr, nbytes) => fillInput dirt cg tid ptr nbytes))
      (Metered g cg others (done ++ args.map Prod.fst) [])
  | [], done, _, _ => Triple.nil.post fun f hf => by
      rw [List.map_nil, List.append_nil]
      exact hf.toMetered
  | (tid, ptr, nbytes) :: args, done, hin, hnodup => by
      rw [List.map_cons, List.nodup_cons] at hnodup
      have hrest := fillSteps_triple_metered hg hc dirt args (done ++ [tid])
        (fun x hx => hin x (List.mem_cons_of_mem _ hx)) hnodup.2
      rw [List.append_assoc] at hrest
      exact (fillInput_triple_metered hg hc dirt (hin _ List.mem_cons_self) done _ hnodup.1 ptr
        nbytes).cons hrest

/-- Dispatching a group on Path A. -/
lemma dispatchA_triple_metered (device : Device α) (group : CompiledPlanGroup) (d : Dispatch α) :
    Triple (Metered g cg others ins outs) (Metered g cg others ins outs)
      (dispatchA device cg group d) (Metered g cg others ins outs) := by
  intro f hm
  unfold dispatchA
  split
  · exact ⟨fun _ => hm, fun _ => hm⟩
  split
  · exact ⟨fun _ => hm, fun _ => hm⟩
  rename_i outBuf _
  split
  · exact ⟨fun _ => hm, fun _ => hm⟩
  rename_i _ outs' hreq
  obtain rfl : outs' = [outBuf] := (request_eq_some hreq).2.2
  exact ⟨fun _ => hm.logged (hm.placed.modify outBuf (keepsLayout_overwrite d _)) _,
    fun _ => hm.logged (hm.placed.modify outBuf (keepsLayout_overwrite d _)) _⟩

/-- Dispatching a group on Path B. -/
lemma dispatchB_triple_metered [Zero α] (device : Device α) (group : CompiledPlanGroup)
    (client : ClientModel) (d : Dispatch α) :
    Triple (Metered g cg others ins outs) (Metered g cg others ins outs)
      (dispatchB device cg group client d) (Metered g cg others ins outs) := by
  intro f hm
  have hsame : ∀ {r : Outcome Bool} {f' : Frame α}, Metered g cg others ins outs f' →
      ((r = .ok true → Metered g cg others ins outs f') ∧
        (r ≠ .ok true → Metered g cg others ins outs f')) := fun h => ⟨fun _ => h, fun _ => h⟩
  unfold dispatchB
  split
  · exact hsame hm
  split
  · split
    · exact hsame hm
    · rename_i inShape outShape _ _ _ inBuf _
      have hout := hm.copyOut inBuf (toSizeT inShape.channels * toSizeT inShape.seq * 2 % 2 ^ 64)
      simp only
      split_ifs
      · exact hsame hout
      · split
        · exact hsame hout
        · exact hsame (hout.copyIn _ _ _)
      · exact ⟨fun h => h.elim, fun _ => hout⟩
  · exact hsame hm

/-- The group loop. -/
lemma groupSteps_triple_metered [Zero α] (device : Device α) (dispatch : ℕ → Dispatch α) :
    ∀ (groups : List CompiledPlanGroup) (k : ℕ),
    Triple (Metered g cg others ins outs) (Metered g cg others ins outs)
      (runAll (groupSteps device cg dispatch k groups)) (Metered g cg others ins outs)
  | [], _ => Triple.nil
  | group :: groups, k => by
      have hfirst : Triple (Metered g cg others ins outs) (Metered g cg others ins outs)
          (dispatchGroup device cg group (dispatch k)) (Metered g cg others ins outs) := by
        unfold dispatchGroup
        cases group.program.client with
        | some client => exact dispatchB_triple_metered device group client (dispatch k)
        | none => exact dispatchA_triple_metered device group (dispatch k)
      exact hfirst.cons (groupSteps_triple_metered device dispatch groups (k + 1))

/-- Writing one marked output, if it has a buffer. -/
lemma copyOutput_triple_metered (hg : g.Wf) {tid : ℕ} (hlt : tid < g.tensors.length) (nbytes : ℕ) :
    Triple (fun f : Frame α =>
        (∀ h, cg.aneBufs.lookup tid ≠ some h) ∧ Metered g cg others ins outs f)
      (Metered g cg others ins outs) (copyOutput cg tid nbytes)
      (Metered g cg others ins (outs ++ [tid])) := by
  intro f hm
  unfold copyOutput
  cases hbuf : cg.aneBufs.lookup tid with
  | none => exact ⟨fun hok => (nomatch hok), fun _ => ⟨fun h hh => (nomatch hh), hm⟩⟩
  | some h =>
      refine ⟨fun _ => ?_, fun hne => absurd rfl hne⟩
      obtain ⟨b, hb, -, hlayout, hch, hseq⟩ := hm.placed.alloc.laidOut tid h hbuf
      have hlen : (copyOut f h nbytes).1.length = (g.shapeOf tid).numel := by
        rw [copyOut, hb, Option.map_some, Option.getD_some, AneBuffer.copyTo, List.length_map,
          List.length_range, AneBuffer.copiedBytes, if_pos hlayout, hch, hseq,
          (hg.shapeOf_valid hlt).copied_eq]
      have hcopied := hm.copyOut h nbytes
      exact {
        placed := hcopied.placed
        reads := hcopied.reads
        writes := by
          show (f.delivered ++ [(copyOut f h nbytes).1]).map List.length = _
          rw [List.map_append, List.map_append, hm.writes, List.map_singleton, hlen]
          rfl }

/-- The last loop: it writes all outputs, or gives up at the first that has no buffer. -/
lemma copySteps_triple_metered (hg : g.Wf) : ∀ (args : List (ℕ × ℕ)) (outs : List ℕ),
    (∀ x ∈ args, x.1 < g.tensors.length) →
    Triple
      (fun f : Frame α => (∃ x ∈ args, ∀ h, cg.aneBufs.lookup x.1 ≠ some h) ∧
        ∃ before, before <+: args.map Prod.fst ∧ Metered g cg others ins (outs ++ before) f)
      (Metered g cg others ins outs)
      (runAll (args.map fun (tid, nbytes) => copyOutput cg tid nbytes))
      (Metered g cg others ins (outs ++ args.map Prod.fst))
  | [], outs, _ => Triple.nil.post fun f hf => by rwa [List.map_nil, List.append_nil]
  | (tid, nbytes) :: args, outs, hlt => by
      have hfirst := @copyOutput_triple_metered α g cg others ins outs hg tid
        (hlt _ List.mem_cons_self) nbytes
      have hrest := copySteps_triple_metered hg args (outs ++ [tid])
        fun x hx => hlt x (List.mem_cons_of_mem _ hx)
      rw [List.append_assoc] at hrest
      refine (hfirst.stopped fun f hf => ?_).cons (hrest.stopped fun f hf => ?_)
      · exact ⟨⟨_, List.mem_cons_self, hf.1⟩, [], List.nil_prefix, by
          rw [List.append_nil]
          exact hf.2⟩
      · obtain ⟨⟨x, hx, hnone⟩, before, hbefore, hm⟩ := hf
        rw [List.append_assoc] at hm
        exact ⟨⟨x, List.mem_cons_of_mem _ hx, hnone⟩, tid :: before,
          List.cons_prefix_cons.mpr ⟨rfl, hbefore⟩, hm⟩

end Steps

/-! ## Whole calls -/

section Calls

variable [Zero α] (dirt : ℕ → ℕ → α) (device : Device α)
variable {g : AneGraph} {backend : CompilerBackend} {cg : CompiledGraph} {others : List ℕ}

/-- What a call does to the buffers and to the caller's memory. -/
structure Called (g : AneGraph) (cg : CompiledGraph) (others : List ℕ) (call : ExecuteCall α)
    (result : Outcome Bool × Frame α) : Prop where
  alloc : Allocated g cg.ioAllocBytes cg.aneBufs result.2.memory others
  idle : ¬ countsMatch cg call → result.2.log = [] ∧ result.2.delivered = []
  reads : countsMatch cg call → ∀ i id : ℕ, cg.graphInputIds[i]? = some id →
    ∃ b, result.2.log[i]? = some (.CopyIn b (g.shapeOf id).bytes)
  writes : ∃ before, before <+: cg.graphOutputIds ∧
    result.2.delivered.map List.length = before.map fun id => (g.shapeOf id).numel
  complete : result.1 = .ok true →
    result.2.delivered.map List.length = cg.graphOutputIds.map fun id => (g.shapeOf id).numel
  atomic : (∀ id ∈ cg.graphOutputIds, ∃ h, cg.aneBufs.lookup id = some h) →
    result.1 ≠ .ok true → result.2.delivered = []

omit [Zero α] in
/-- The state in which a call starts. -/
lemma Filling.start {m : Memory α} (ha : Allocated g cg.ioAllocBytes cg.aneBufs m others) :
    Filling g cg others [] cg.graphInputIds ({ memory := m } : Frame α) where
  placed := ⟨ha, fun _ _ h => (nomatch h), fun _ _ h => (nomatch h)⟩
  reads := fun _ _ h => (nomatch h)
  writes := rfl
  length_eq := rfl
  fresh := fun _ _ => rfl

omit [Zero α] in
/-- The first loop of a call with the right counts. -/
lemma fill_metered (hg : g.Wf) (hc : Compiled backend g cg) {call : ExecuteCall α}
    (hcounts : countsMatch cg call) :
    Triple (fun _ => False) (Filling g cg others [] cg.graphInputIds)
      (runAll (fillSteps dirt cg call)) (Metered g cg others cg.graphInputIds []) := by
  obtain ⟨hptrs, hbytes, -, -⟩ := hcounts
  have hargs : (arguments cg call).map Prod.fst = cg.graphInputIds :=
    List.map_fst_zip (by simp [hptrs, hbytes])
  have hins : ∀ x ∈ arguments cg call, x.1 ∈ g.graphInputs := fun x hx => by
    rw [← hc.graphInputIds_eq, ← hargs]
    exact List.mem_map_of_mem hx
  have hnodup : ((arguments cg call).map Prod.fst).Nodup := by
    rw [hargs, hc.graphInputIds_eq]
    exact hg.graphInputs_nodup
  have hfill := @fillSteps_triple_metered α g backend cg others hg hc dirt (arguments cg call) []
    hins hnodup
  rwa [hargs, List.nil_append] at hfill

/-- **One call**, whatever programs it runs. -/
theorem execute_metered (hg : g.Wf) (hc : Compiled backend g cg) (env : Environment α)
    {m : Memory α} (ha : Allocated g cg.ioAllocBytes cg.aneBufs m others) (call : ExecuteCall α) :
    Called g cg others call (execute dirt device cg env m call) := by
  unfold execute
  by_cases hcounts : countsMatch cg call
  swap
  · rw [if_neg hcounts]
    exact ⟨ha, fun _ => ⟨rfl, rfl⟩, fun h => absurd h hcounts, ⟨[], List.nil_prefix, rfl⟩,
      fun hok => (nomatch hok), fun _ _ => rfl⟩
  rw [if_pos hcounts]
  have houts : (cg.graphOutputIds.zip call.outputBytes).map Prod.fst = cg.graphOutputIds :=
    List.map_fst_zip hcounts.2.2.2.ge
  have hlt : ∀ x ∈ cg.graphOutputIds.zip call.outputBytes, x.1 < g.tensors.length := fun x hx => by
    refine hg.graphOutput_lt x.1 ?_
    rw [← hc.graphOutputIds_eq, ← houts]
    exact List.mem_map_of_mem hx
  have hfill := @fill_metered α dirt g backend cg others hg hc call hcounts
  have hgroups := @groupSteps_triple_metered α g cg others cg.graphInputIds [] _ device env.dispatch
    cg.groups 0
  have hcopy := @copySteps_triple_metered α g cg others cg.graphInputIds hg
    (cg.graphOutputIds.zip call.outputBytes) [] hlt
  rw [houts, List.nil_append] at hcopy
  -- where the call stops: before it has written anything, or at an output without a buffer
  let stopped : Frame α → Prop := fun f => Metered g cg others cg.graphInputIds [] f ∨
    ((∃ id ∈ cg.graphOutputIds, ∀ h, cg.aneBufs.lookup id ≠ some h) ∧
      ∃ before, before <+: cg.graphOutputIds ∧ Metered g cg others cg.graphInputIds before f)
  have hcopy' : Triple stopped (Metered g cg others cg.graphInputIds [])
      (runAll (copySteps cg call)) (Metered g cg others cg.graphInputIds cg.graphOutputIds) := by
    refine hcopy.stopped fun f hf => Or.inr ⟨?_, hf.2⟩
    obtain ⟨⟨x, hx, hnone⟩, -⟩ := hf
    exact ⟨x.1, houts ▸ List.mem_map_of_mem hx, hnone⟩
  have hfill' : Triple stopped (Filling g cg others [] cg.graphInputIds)
      (runAll (fillSteps dirt cg call)) (Metered g cg others cg.graphInputIds []) :=
    hfill.stopped fun _ h => h.elim
  have hgroups' : Triple stopped (Metered g cg others cg.graphInputIds [])
      (runAll (groupSteps device cg env.dispatch 0 cg.groups))
      (Metered g cg others cg.graphInputIds []) :=
    hgroups.stopped fun _ h => Or.inl h
  obtain ⟨hgo, hstop⟩ := ((hfill'.append hgroups').append hcopy') { memory := m }
    (Filling.start ha)
  generalize runAll (fillSteps dirt cg call ++ groupSteps device cg env.dispatch 0 cg.groups ++
    copySteps cg call) { memory := m } = result at hgo hstop
  have hfinal : ∃ before, before <+: cg.graphOutputIds ∧
      Metered g cg others cg.graphInputIds before result.2 := by
    by_cases hok : result.1 = .ok true
    · exact ⟨_, List.prefix_rfl, hgo hok⟩
    · exact (hstop hok).elim (fun h => ⟨[], List.nil_prefix, h⟩) And.right
  obtain ⟨before, hbefore, hm⟩ := hfinal
  exact {
    alloc := hm.placed.released (env.releaseOrder_perm _)
    idle := fun h => absurd hcounts h
    reads := fun _ => hm.reads
    writes := ⟨before, hbefore, hm.writes⟩
    complete := fun hok => (hgo hok).writes
    atomic := by
      intro hbuf hne
      rcases hstop hne with hm' | ⟨⟨id, hid, hnone⟩, -⟩
      · exact List.map_eq_nil_iff.mp hm'.writes
      · obtain ⟨h, hh⟩ := hbuf id hid
        exact absurd hh (hnone h) }

/-! ## Moments -/

/-- The situations in which a compiled graph is used: it was compiled at some time in the life of
the pool, and calls on it and other users of the pool have followed. -/
def Reached (backend : CompilerBackend) (g : AneGraph) (fw : AneFramework) (cg : CompiledGraph)
    (now : PoolUsers α) : Prop :=
  ∃ (maxIdle : ℕ) (past : List (PoolCall α)) (m : Memory α) (history : List (Action α)),
    compile dirt backend g fw
      (Runs.run (PoolUsers.call dirt) (PoolUsers.start maxIdle) past).memory = (.ok (some cg), m) ∧
    now = Runs.run (act dirt device cg)
      { memory := m, held := (Runs.run (PoolUsers.call dirt) (PoolUsers.start maxIdle) past).held }
      history

/-- **In every situation** the record of the compiled graph is right and its buffers are its
own. -/
theorem Reached.spec {fw : AneFramework} {now : PoolUsers α} (hg : g.Wf)
    (h : Reached dirt device backend g fw cg now) :
    Compiled backend g cg ∧ Allocated g cg.ioAllocBytes cg.aneBufs now.memory now.held := by
  obtain ⟨maxIdle, past, m, history, hcompile, rfl⟩ := h
  obtain ⟨hok, hheld⟩ := PoolUsers.run_spec dirt maxIdle past
  obtain ⟨hc, ha⟩ := compile_spec hg hok hheld hcompile
  refine ⟨hc, Runs.run_induction (act dirt device cg)
    (I := fun u => Allocated g cg.ioAllocBytes cg.aneBufs u.memory u.held) (fun u a hu => ?_)
    history _ ha⟩
  cases a with
  | Execute env call => exact (execute_metered dirt device hg hc env hu call).alloc
  | Pool call =>
      obtain ⟨hok, hheld, hsame⟩ := PoolUsers.call_spec dirt hu.ok
        (hu.held.perm List.perm_append_comm) call
      exact ⟨hok, hheld.perm List.perm_append_comm, fun id h hid =>
        (hsame h (Table.mem_values_of_lookup hid)).laidOut (hu.laidOut id h hid)⟩

/-- The frame in which a call dispatches group `k`: the inputs are filled and the groups before it
have been dispatched. -/
def Dispatches (cg : CompiledGraph) (env : Environment α) (m : Memory α) (call : ExecuteCall α)
    (k : ℕ) (f : Frame α) : Prop :=
  countsMatch cg call ∧
    runAll (fillSteps dirt cg call ++ groupSteps device cg env.dispatch 0 (cg.groups.take k))
      { memory := m } = (.ok true, f)

/-- There the buffers are in place. -/
lemma Dispatches.placed {env : Environment α} {m : Memory α} {call : ExecuteCall α} {k : ℕ}
    {f : Frame α} (h : Dispatches dirt device cg env m call k f) (hg : g.Wf)
    (hc : Compiled backend g cg) (ha : Allocated g cg.ioAllocBytes cg.aneBufs m others) :
    Placed g cg others f.memory f.tmp := by
  have hfill : Triple (Metered g cg others cg.graphInputIds [])
      (Filling g cg others [] cg.graphInputIds) (runAll (fillSteps dirt cg call))
      (Metered g cg others cg.graphInputIds []) :=
    (fill_metered dirt hg hc h.1).stopped fun _ h => h.elim
  have hrun := (hfill.append (groupSteps_triple_metered device env.dispatch (cg.groups.take k) 0))
    { memory := m } (Filling.start ha)
  rw [h.2] at hrun
  exact (hrun.1 rfl).placed

end Calls

end GraphExecutor

end Libane
