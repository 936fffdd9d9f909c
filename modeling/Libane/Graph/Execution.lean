import Libane.Graph.Executor

/-!
# What an execution computes

The output buffers of a compiled graph live across calls, input buffers come dirty from the pool
and go back to it, and a call can give up at any group.  None of this is visible in a result.

**Why nothing shows.**  A call reads from a buffer only what the same call has written there.  The
`i`-th dispatch reads inputs of the call, which were copied in before, and outputs of earlier
groups; and it changes no buffer but its own output, because the buffers of a call are all
different.  This holds wherever the call stops, which is what the next call needs: a call that fails
leaves buffers with other contents, but none lost, shared or resized.

* `evalCompiled` — the groups evaluated in order on the values of one call: the meaning of
  `execute`, without any memory.
* `Placed` — the buffers of a call, owned and laid out.
* `Safe` — the invariant of a call, wherever it stops: buffers are owned and laid out, and every
  access reads only what an earlier access of the same call has written.
* `Progress` — while the call goes on, the buffer of every tensor that has a value holds it.
* `execution_is_evaluation` — after any history of calls and of other users of the pool, a call
  that returns `true` delivers exactly the values of `evalCompiled`.
-/

namespace Libane

namespace GraphExecutor

open StraightLine Steps GraphCompiler

variable {α : Type}

/-! ## The meaning of a call -/

/-- The first elements of an array, as many as a tensor of the shape has. -/
def logical (s : TensorShape) (data : ℕ → α) : List α := (List.range s.numel).map data

/-- Give graph inputs the values that their pointers point to, one after another. -/
def assign (g : AneGraph) : Env ℕ (List α) → List (ℕ × (ℕ → α) × ℕ) → Env ℕ (List α)
  | E, [] => E
  | E, (tid, ptr, _) :: args =>
      assign g (Function.update E tid (some (logical (g.shapeOf tid) ptr))) args

/-- The value of a group's output: what its program computes from the values of its inputs, in
the order in which `ane_execute_multi` hands them over. -/
def groupValue (device : Device α) (g : AneGraph) (group : CompiledPlanGroup)
    (vs : List (List α)) : List α :=
  logical (g.shapeOf group.output)
    (device.evaluate group.program ((reorder group.program.inputParamNames vs).getD []))

/-- The groups in order, on the inputs of a call. -/
def evalCompiled (device : Device α) (g : AneGraph) (cg : CompiledGraph) (call : ExecuteCall α) :
    Option (Env ℕ (List α)) :=
  run (·.output) (·.inputs) (groupValue device g) (assign g (fun _ => none) (arguments cg call))
    cg.groups

/-! ## Invariants -/

/-- Every access reads only buffers that an earlier access has written. -/
def ReadsFresh (log : List Event) : Prop :=
  ∀ before e after, log = before ++ e :: after → ∀ b ∈ e.reads, ∃ w ∈ before, b ∈ w.writes

lemma ReadsFresh.concat {log : List Event} (h : ReadsFresh log) {e : Event}
    (he : ∀ b ∈ e.reads, ∃ w ∈ log, b ∈ w.writes) : ReadsFresh (log ++ [e]) := by
  intro before e' after heq
  rcases List.eq_nil_or_concat after with rfl | ⟨after, x, rfl⟩
  · obtain ⟨rfl, hlast⟩ := List.append_inj' heq rfl
    obtain rfl : e = e' := by simpa using hlast
    exact he
  · have hsplit : log ++ [e] = (before ++ e' :: after) ++ [x] := by rw [heq]; simp
    obtain ⟨rfl, -⟩ := List.append_inj' hsplit rfl
    exact h before e' after rfl

section Invariants

variable (g : AneGraph) (cg : CompiledGraph) (others : List ℕ)

/-- **The buffers** of a call are owned, and laid out for the tensors they stand for. -/
structure Placed (m : Memory α) (tmp : Table ℕ) : Prop where
  alloc : Allocated g cg.ioAllocBytes cg.aneBufs m (tmp.values ++ others)
  tmpLaidOut : ∀ id h, tmp.lookup id = some h →
    m.LaidOut h (g.shapeOf id).channels (g.shapeOf id).seq
      (Memory.paddedBytes (g.shapeOf id).channels (g.shapeOf id).seq cg.ioAllocBytes)
  tmpInput : ∀ id h, tmp.lookup id = some h → id ∈ g.graphInputs

/-- **The safety invariant** of a call. -/
structure Safe (f : Frame α) : Prop extends Placed g cg others f.memory f.tmp where
  logged : ReadsFresh f.log

/-- **The progress invariant** of a call: `E` holds the values computed so far, and `out` what
was delivered. -/
structure Progress (E : Env ℕ (List α)) (out : List (List α)) (f : Frame α) : Prop
    extends Safe g cg others f where
  holds : ∀ id v, E id = some v → ∃ h, bufferOf cg f.tmp id = some h ∧
    f.memory.contents h = some v ∧ ∃ w ∈ f.log, h ∈ w.writes
  delivered_eq : f.delivered = out

end Invariants

section Preservation

variable {g : AneGraph} {cg : CompiledGraph} {others : List ℕ} {f : Frame α}

/-- The buffer of a tensor is in one of the two tables. -/
lemma bufferOf_cases {tmp : Table ℕ} {id h : ℕ} (hb : bufferOf cg tmp id = some h) :
    tmp.lookup id = some h ∨ (tmp.lookup id = none ∧ cg.aneBufs.lookup id = some h) := by
  unfold bufferOf at hb
  cases ht : tmp.lookup id with
  | none => rw [ht] at hb; exact Or.inr ⟨rfl, hb⟩
  | some x => rw [ht] at hb; exact Or.inl hb

lemma bufferOf_owned {tmp : Table ℕ} {id h : ℕ} (hb : bufferOf cg tmp id = some h) :
    h ∈ cg.aneBufs.values ++ (tmp.values ++ others) := by
  rcases bufferOf_cases hb with ht | ⟨-, ha⟩
  · exact List.mem_append_right _ (List.mem_append_left _ (Table.mem_values_of_lookup ht))
  · exact List.mem_append_left _ (Table.mem_values_of_lookup ha)

lemma bytes_eq_of_keepsLayout {fn : AneBuffer α → AneBuffer α} (hfn : Memory.KeepsLayout fn)
    (b : AneBuffer α) : (fn b).bytes = b.bytes := by
  rw [hfn b]

namespace Placed

variable {m : Memory α} {tmp : Table ℕ} (hp : Placed g cg others m tmp)
include hp

/-- A tensor that is not a graph input has its buffer in the compiled graph. -/
lemma bufferOf_eq {id : ℕ} (hid : id ∉ g.graphInputs) :
    bufferOf cg tmp id = cg.aneBufs.lookup id := by
  unfold bufferOf
  cases ht : tmp.lookup id with
  | none => rfl
  | some x => exact absurd (hp.tmpInput id x ht) hid

lemma bufferOf_laidOut {id h : ℕ} (hb : bufferOf cg tmp id = some h) :
    m.LaidOut h (g.shapeOf id).channels (g.shapeOf id).seq
      (Memory.paddedBytes (g.shapeOf id).channels (g.shapeOf id).seq cg.ioAllocBytes) :=
  (bufferOf_cases hb).elim (hp.tmpLaidOut id h) fun h' => hp.alloc.laidOut id h h'.2

/-- Different tensors have different buffers. -/
lemma bufferOf_inj {i j h : ℕ} (hi : bufferOf cg tmp i = some h)
    (hj : bufferOf cg tmp j = some h) : i = j := by
  have hnodup := hp.alloc.held.nodup
  rw [List.nodup_append] at hnodup
  obtain ⟨hbufs, htmp, hdisj⟩ := hnodup
  have htmp := (List.nodup_append.mp htmp).1
  have hapart : ∀ {a b : ℕ}, tmp.lookup a = some h → cg.aneBufs.lookup b = some h → False :=
    fun ha hb => hdisj h (Table.mem_values_of_lookup hb) h
      (List.mem_append_left _ (Table.mem_values_of_lookup ha)) rfl
  rcases bufferOf_cases hi with hi | ⟨-, hi⟩
  · rcases bufferOf_cases hj with hj | ⟨-, hj⟩
    · exact Table.eq_of_lookup_eq htmp hi hj
    · exact (hapart hi hj).elim
  · rcases bufferOf_cases hj with hj | ⟨-, hj⟩
    · exact (hapart hj hi).elim
    · exact Table.eq_of_lookup_eq hbufs hi hj

/-- Writing data leaves every buffer in its place. -/
lemma modify (h : ℕ) {fn : AneBuffer α → AneBuffer α} (hfn : Memory.KeepsLayout fn) :
    Placed g cg others (m.modify h fn) tmp := by
  obtain ⟨hok, hheld, -⟩ :=
    Memory.modify_spec hp.alloc.ok hp.alloc.held h (bytes_eq_of_keepsLayout hfn)
  exact ⟨⟨hok, hheld, fun id x hx => (hp.alloc.laidOut id x hx).modify hfn h⟩,
    fun id x hx => (hp.tmpLaidOut id x hx).modify hfn h, hp.tmpInput⟩

/-- Acquiring the buffer of a graph input. -/
lemma acquired (dirt : ℕ → ℕ → α) {id : ℕ} (hin : id ∈ g.graphInputs)
    (hnew : tmp.lookup id = none) {m' : Memory α} {h : ℕ}
    (hacq : m.acquireTensorPadded dirt (g.shapeOf id).channels (g.shapeOf id).seq
      cg.ioAllocBytes = (h, m')) :
    Placed g cg others m' (tmp.insert id h) ∧
      ∀ x ∈ cg.aneBufs.values ++ (tmp.values ++ others), Memory.SameAt m m' x := by
  have hspec := Memory.acquireTensorPadded_spec dirt hp.alloc.ok hp.alloc.held
    (g.shapeOf id).channels (g.shapeOf id).seq cg.ioAllocBytes
  rw [hacq] at hspec
  have hperm : (h :: (cg.aneBufs.values ++ (tmp.values ++ others))).Perm
      (cg.aneBufs.values ++ (Table.values (tmp.insert id h) ++ others)) := by
    rw [Table.values_insert hnew]
    exact List.perm_middle.symm
  have hlookup : ∀ {j x : ℕ}, (tmp.insert id h).lookup j = some x →
      (j = id ∧ h = x) ∨ (j ≠ id ∧ tmp.lookup j = some x) := by
    intro j x hj
    rw [Table.lookup_insert_cases] at hj
    by_cases hji : j = id
    · rw [if_pos hji] at hj
      exact Or.inl ⟨hji, Option.some.inj hj⟩
    · rw [if_neg hji] at hj
      exact Or.inr ⟨hji, hj⟩
  have hsame : ∀ x ∈ cg.aneBufs.values ++ (tmp.values ++ others), Memory.SameAt m m' x :=
    hspec.same
  refine ⟨⟨⟨hspec.ok, hspec.owned.perm hperm, fun j x hj => ?_⟩, fun j x hj => ?_,
    fun j x hj => ?_⟩, hsame⟩
  · exact (hsame x (List.mem_append_left _ (Table.mem_values_of_lookup hj))).laidOut
      (hp.alloc.laidOut j x hj)
  · rcases hlookup hj with ⟨rfl, rfl⟩ | ⟨-, hj⟩
    · exact hspec.layout
    · exact (hsame x (List.mem_append_right _ (List.mem_append_left _
        (Table.mem_values_of_lookup hj)))).laidOut (hp.tmpLaidOut j x hj)
  · rcases hlookup hj with ⟨rfl, -⟩ | ⟨-, hj⟩
    · exact hin
    · exact hp.tmpInput j x hj

/-- The guard gives the input buffers back, and no buffer changes. -/
lemma releaseAll_spec {bufs : List ℕ} (hbufs : bufs.Perm tmp.values) :
    (m.releaseAll bufs).Ok ∧ (m.releaseAll bufs).Held (cg.aneBufs.values ++ others) ∧
      (m.releaseAll bufs).heap = m.heap := by
  have hperm : (cg.aneBufs.values ++ (tmp.values ++ others)).Perm
      (bufs ++ (cg.aneBufs.values ++ others)) := by
    refine List.perm_append_comm_assoc _ _ _ |>.trans ?_
    exact hbufs.symm.append_right _
  exact Memory.releaseAll_spec hp.alloc.ok (hp.alloc.held.perm hperm)

/-- Afterwards the output buffers are still owned and laid out. -/
lemma released {bufs : List ℕ} (hbufs : bufs.Perm tmp.values) :
    Allocated g cg.ioAllocBytes cg.aneBufs (m.releaseAll bufs) others := by
  obtain ⟨hok, hheld, hheap⟩ := hp.releaseAll_spec hbufs
  exact ⟨hok, hheld, fun id h hid => by
    rw [Memory.LaidOut, hheap]
    exact hp.alloc.laidOut id h hid⟩

end Placed

/-- A write to one buffer, logged. -/
def writeBuffer (f : Frame α) (h : ℕ) (fn : AneBuffer α → AneBuffer α) (e : Event) : Frame α :=
  { f with memory := f.memory.modify h fn, log := f.log ++ [e] }

/-- Any logged write keeps the safety invariant. -/
lemma Safe.write (hs : Safe g cg others f) (h : ℕ) {fn : AneBuffer α → AneBuffer α}
    (hfn : Memory.KeepsLayout fn) {e : Event} (he : ∀ b ∈ e.reads, ∃ w ∈ f.log, b ∈ w.writes) :
    Safe g cg others (writeBuffer f h fn e) :=
  { hs.toPlaced.modify h hfn with logged := hs.logged.concat he }

/-- A write that covers the logical tensor of `id` gives that tensor its value, and leaves the
others alone. -/
lemma Progress.write {E : Env ℕ (List α)} {out : List (List α)} (hp : Progress g cg others E out f)
    {id h : ℕ} (hb : bufferOf cg f.tmp id = some h) (hshape : (g.shapeOf id).Valid)
    {fn : AneBuffer α → AneBuffer α} (hfn : Memory.KeepsLayout fn) {v : ℕ → α}
    (hv : ∀ b : AneBuffer α, b.tensorLayout = true → ∀ i < b.copiedBytes 0 / 2, (fn b).data i = v i)
    {e : Event} (he : ∀ b ∈ e.reads, ∃ w ∈ f.log, b ∈ w.writes) (hw : h ∈ e.writes) :
    Progress g cg others (Function.update E id (some (logical (g.shapeOf id) v))) out
      (writeBuffer f h fn e) := by
  refine { hp.toSafe.write h hfn he with
        holds := fun j u hj => ?_, delivered_eq := hp.delivered_eq }
  by_cases hji : j = id
  · subst hji
    rw [Function.update_self, Option.some.injEq] at hj
    refine ⟨h, hb, ?_, e, by simp [writeBuffer], hw⟩
    have := (hp.toSafe.toPlaced.bufferOf_laidOut hb).contents_modify hfn hv
    rw [hshape.copied_eq] at this
    rw [← hj]
    exact this
  · rw [Function.update_of_ne hji] at hj
    obtain ⟨x, hx, hcontents, w, hwlog, hxw⟩ := hp.holds j u hj
    refine ⟨x, hx, ?_, w, List.mem_append_left _ hwlog, hxw⟩
    have hne : x ≠ h := fun he => hji (hp.toSafe.toPlaced.bufferOf_inj hx (he ▸ hb))
    have hsame : Memory.SameAt f.memory (f.memory.modify h fn) x :=
      List.getElem?_modify_ne _ _ hne.symm
    exact hsame.contents_eq.trans hcontents

/-- Acquiring the buffer of a graph input.  Until it is filled the tensor has no value. -/
lemma Progress.acquired {E : Env ℕ (List α)} {out : List (List α)}
    (hp : Progress g cg others E out f) (dirt : ℕ → ℕ → α) {id : ℕ} (hin : id ∈ g.graphInputs)
    (hnew : f.tmp.lookup id = none) {m : Memory α} {h : ℕ}
    (hacq : f.memory.acquireTensorPadded dirt (g.shapeOf id).channels (g.shapeOf id).seq
      cg.ioAllocBytes = (h, m)) :
    Progress g cg others (Function.update E id none) out
      { f with memory := m, tmp := f.tmp.insert id h } := by
  obtain ⟨hplaced, hsame⟩ := hp.toSafe.toPlaced.acquired dirt hin hnew hacq
  exact {
    alloc := hplaced.alloc
    tmpLaidOut := hplaced.tmpLaidOut
    tmpInput := hplaced.tmpInput
    logged := hp.logged
    holds := by
      intro j v hj
      have hji : j ≠ id := by
        rintro rfl
        rw [Function.update_self] at hj
        cases hj
      rw [Function.update_of_ne hji] at hj
      obtain ⟨x, hx, hcontents, hw⟩ := hp.holds j v hj
      refine ⟨x, ?_, (hsame x (bufferOf_owned hx)).contents_eq.trans hcontents, hw⟩
      rw [bufferOf, Table.lookup_insert_cases, if_neg hji]
      exact hx
    delivered_eq := hp.delivered_eq }

end Preservation

/-! ## The steps of a call -/

section Steps

variable {g : AneGraph} {backend : CompilerBackend} {cg : CompiledGraph} {others : List ℕ}

lemma keepsLayout_copyFrom (src : ℕ → α) (nbytes : ℕ) :
    Memory.KeepsLayout fun b : AneBuffer α => b.copyFrom src nbytes := fun _ => rfl

lemma keepsLayout_overwrite (d : Dispatch α) (value : ℕ → α) :
    Memory.KeepsLayout fun b : AneBuffer α => b.overwrite d value := fun _ => rfl

/-- On a tensor buffer `copy_from` writes the logical tensor, whatever size it is told. -/
lemma copyFrom_data (src : ℕ → α) (nbytes : ℕ) (b : AneBuffer α) (hb : b.tensorLayout = true)
    (i : ℕ) (hi : i < b.copiedBytes 0 / 2) : (b.copyFrom src nbytes).data i = src i := by
  have hcopied : b.copiedBytes nbytes = b.copiedBytes 0 := by
    rw [AneBuffer.copiedBytes, AneBuffer.copiedBytes, if_pos hb, if_pos hb]
  show (if i < b.copiedBytes nbytes / 2 then src i else b.data i) = src i
  rw [hcopied, if_pos hi]

/-- Filling one graph input gives it its value. -/
lemma fillInput_triple (hg : g.Wf) (hc : Compiled backend g cg) (dirt : ℕ → ℕ → α)
    (E : Env ℕ (List α)) (out : List (List α)) {tid : ℕ} (hin : tid ∈ g.graphInputs)
    (rest : List ℕ) (hrest : tid ∉ rest) (ptr : ℕ → α) (nbytes : ℕ) :
    Triple (Safe g cg others)
      (fun f => Progress g cg others E out f ∧ ∀ id ∈ tid :: rest, f.tmp.lookup id = none)
      (fillInput dirt cg tid ptr nbytes)
      (fun f => Progress g cg others
        (Function.update E tid (some (logical (g.shapeOf tid) ptr))) out f ∧
        ∀ id ∈ rest, f.tmp.lookup id = none) := by
  rintro f ⟨hp, hnew⟩
  unfold fillInput
  split
  swap
  · exact ⟨fun hok => (nomatch hok), fun _ => hp.toSafe⟩
  rename_i s _ hs
  rw [hc.tensorShapes_eq] at hs
  obtain ⟨rfl, hlt⟩ := lookup_tensorShapes hg hs
  obtain ⟨h, m, hacq⟩ : ∃ h m, f.memory.acquireTensorPadded dirt (g.shapeOf tid).channels
      (g.shapeOf tid).seq cg.ioAllocBytes = (h, m) := ⟨_, _, rfl⟩
  rw [hacq]
  refine ⟨fun _ => ⟨?_, fun id hid => ?_⟩, fun hne => absurd rfl hne⟩
  · have hb : bufferOf cg (f.tmp.insert tid h) tid = some h := by
      rw [bufferOf, AList.lookup_insert]
    have hwrite := (hp.acquired dirt hin (hnew tid List.mem_cons_self) hacq).write hb
      (hg.shapeOf_valid hlt) (keepsLayout_copyFrom ptr nbytes) (copyFrom_data ptr nbytes)
      (e := .CopyIn h (copiedBytes m h nbytes)) (by simp [Event.reads])
      (List.mem_singleton.mpr rfl)
    rw [Function.update_idem] at hwrite
    exact hwrite
  · have hne : id ≠ tid := fun he => hrest (he ▸ hid)
    show (f.tmp.insert tid h).lookup id = none
    rw [Table.lookup_insert_cases, if_neg hne]
    exact hnew id (List.mem_cons_of_mem _ hid)

/-- Filling all graph inputs. -/
lemma fillSteps_triple (hg : g.Wf) (hc : Compiled backend g cg) (dirt : ℕ → ℕ → α)
    (out : List (List α)) : ∀ (args : List (ℕ × (ℕ → α) × ℕ)) (E : Env ℕ (List α)),
    (∀ x ∈ args, x.1 ∈ g.graphInputs) → (args.map Prod.fst).Nodup →
    Triple (Safe g cg others)
      (fun f => Progress g cg others E out f ∧ ∀ id ∈ args.map Prod.fst, f.tmp.lookup id = none)
      (runAll (args.map fun (tid, ptr, nbytes) => fillInput dirt cg tid ptr nbytes))
      (Progress g cg others (assign g E args) out)
  | [], E, _, _ => Triple.nil.post fun f hf => hf.1
  | (tid, ptr, nbytes) :: args, E, hin, hnodup => by
      rw [List.map_cons, List.nodup_cons] at hnodup
      exact (fillInput_triple hg hc dirt E out (hin _ List.mem_cons_self) _ hnodup.1 ptr
        nbytes).cons (fillSteps_triple hg hc dirt out args _
          (fun x hx => hin x (List.mem_cons_of_mem _ hx)) hnodup.2)

/-- The surfaces that are looked up for the inputs of a group hold the values of the inputs. -/
lemma Progress.contents_surfaces {E : Env ℕ (List α)} {out : List (List α)} {f : Frame α}
    (hp : Progress g cg others E out f) : ∀ {ids surfs : List ℕ} {vs : List (List α)},
    readAll (bufferOf cg f.tmp) ids = some surfs → readAll E ids = some vs →
    surfs.map f.memory.contents = vs.map some := by
  intro ids surfs vs hsurfs hvs
  rw [readAll_eq_some_iff] at hsurfs hvs
  induction ids generalizing surfs vs with
  | nil =>
      obtain rfl := List.map_eq_nil_iff.mp hsurfs.symm
      obtain rfl := List.map_eq_nil_iff.mp hvs.symm
      rfl
  | cons id ids ih =>
      obtain ⟨h, surfs, rfl⟩ : ∃ h rest, surfs = h :: rest := by
        cases surfs with
        | nil => cases hsurfs
        | cons h rest => exact ⟨h, rest, rfl⟩
      obtain ⟨v, vs, rfl⟩ : ∃ v rest, vs = v :: rest := by
        cases vs with
        | nil => cases hvs
        | cons v rest => exact ⟨v, rest, rfl⟩
      rw [List.map_cons, List.map_cons, List.cons.injEq] at hsurfs hvs
      obtain ⟨x, hx, hcontents, -⟩ := hp.holds id v hvs.1
      obtain rfl : x = h := Option.some.inj (hx.symm.trans hsurfs.1)
      rw [List.map_cons, List.map_cons, hcontents, ih hsurfs.2 hvs.2]

/-- A Path A dispatch computes the value of the group's output. -/
lemma dispatchA_triple (hg : g.Wf) (device : Device α) {E E' : Env ℕ (List α)}
    (out : List (List α)) {group : CompiledPlanGroup} (d : Dispatch α)
    (hout : group.output ∉ g.graphInputs) (hlt : group.output < g.tensors.length)
    (hexec : exec (·.output) (·.inputs) (groupValue device g) E group = some E') :
    Triple (Safe g cg others) (Progress g cg others E out) (dispatchA device cg group d)
      (Progress g cg others E' out) := by
  intro f hp
  have hstop : (Except.ok false : Outcome Bool) = .ok true → Progress g cg others E' out f :=
    fun h => by cases h
  obtain ⟨vs, hvs, rfl⟩ := Option.map_eq_some_iff.mp hexec
  unfold dispatchA
  split
  · exact ⟨hstop, fun _ => hp.toSafe⟩
  rename_i surfs hsurfs
  split
  · exact ⟨hstop, fun _ => hp.toSafe⟩
  rename_i outBuf hbuf
  split
  · exact ⟨hstop, fun _ => hp.toSafe⟩
  rename_i ins outs hreq
  obtain ⟨-, hins, hone⟩ := request_eq_some hreq
  obtain rfl : outs = [outBuf] := hone
  -- the request reads the values of the inputs, in the order handed over
  have hvalues : reorder group.program.inputParamNames vs =
      some (ins.filterMap f.memory.contents) := by
    have hmap := congrArg (reorder group.program.inputParamNames)
      (hp.contents_surfaces hsurfs hvs)
    rw [reorder_map, reorder_map, hins, Option.map_some, eq_comm, Option.map_eq_some_iff] at hmap
    obtain ⟨ws, hws, hwsmap⟩ := hmap
    have hfilter : ins.filterMap f.memory.contents = (ws.map some).filterMap id := by
      rw [hwsmap, List.filterMap_map, Function.id_comp]
    rw [hws, hfilter, List.filterMap_map, Function.id_comp, List.filterMap_some]
  have hreads : ∀ b ∈ ins, ∃ w ∈ f.log, b ∈ w.writes := by
    intro b hb
    obtain ⟨id, hid, hbid⟩ := mem_of_readAll hsurfs (mem_of_reorder hins hb)
    have hdef : E id ∈ vs.map some := by
      rw [← readAll_eq_some_iff.mp hvs]
      exact List.mem_map_of_mem hid
    obtain ⟨v, -, hv⟩ := List.mem_map.mp hdef
    obtain ⟨x, hx, -, hw⟩ := hp.holds id v hv.symm
    obtain rfl : x = b := Option.some.inj (hx.symm.trans hbid)
    exact hw
  refine ⟨fun hok => ?_, fun _ => ?_⟩
  · have hb : bufferOf cg f.tmp group.output = some outBuf := by
      rw [hp.toSafe.toPlaced.bufferOf_eq hout, hbuf]
    have hd : d.ok = true := by simpa using hok
    have hwrite := hp.write hb (hg.shapeOf_valid hlt) (keepsLayout_overwrite d _)
      (v := device.evaluate group.program (ins.filterMap f.memory.contents))
      (fun b _ i hi => if_pos ⟨hd, hi⟩) (e := .Request group.program ins [outBuf] d.ok) hreads
      (by simp [Event.writes, hd])
    rw [groupValue, hvalues, Option.getD_some]
    exact hwrite
  · exact hp.toSafe.write outBuf (keepsLayout_overwrite d _)
      (e := .Request group.program ins [outBuf] d.ok) hreads

/-- The groups, one after another. -/
lemma groupSteps_triple [Zero α] (hg : g.Wf) (device : Device α) (dispatch : ℕ → Dispatch α)
    (out : List (List α)) : ∀ (groups : List CompiledPlanGroup) (k : ℕ) {E E' : Env ℕ (List α)},
    (∀ group ∈ groups, group.program.client = none) →
    (∀ group ∈ groups, group.output ∉ g.graphInputs ∧ group.output < g.tensors.length) →
    run (·.output) (·.inputs) (groupValue device g) E groups = some E' →
    Triple (Safe g cg others) (Progress g cg others E out)
      (runAll (groupSteps device cg dispatch k groups)) (Progress g cg others E' out)
  | [], k, E, E', _, _, hrun => by
      obtain rfl : E = E' := Option.some.inj hrun
      exact Triple.nil
  | group :: groups, k, E, E', hA, hout, hrun => by
      obtain ⟨E₁, hexec, hrun⟩ := Option.bind_eq_some_iff.mp hrun
      obtain ⟨hout₁, hlt⟩ := hout group List.mem_cons_self
      have hfirst : Triple (Safe g cg others) (Progress g cg others E out)
          (dispatchA device cg group (dispatch k)) (Progress g cg others E₁ out) :=
        dispatchA_triple hg device out (dispatch k) hout₁ hlt hexec
      have hstep : dispatchGroup device cg group (dispatch k) =
          dispatchA device cg group (dispatch k) := by
        rw [dispatchGroup, hA group List.mem_cons_self]
      rw [← hstep] at hfirst
      exact hfirst.cons (groupSteps_triple hg device dispatch out groups (k + 1)
        (fun c hc => hA c (List.mem_cons_of_mem _ hc))
        (fun c hc => hout c (List.mem_cons_of_mem _ hc)) hrun)

/-- Delivering the value of a tensor that has one. -/
lemma Progress.copied {E : Env ℕ (List α)} {out : List (List α)} {f : Frame α}
    (hp : Progress g cg others E out f) {id h : ℕ} {v : List α} (hv : E id = some v)
    (hb : bufferOf cg f.tmp id = some h) (nbytes : ℕ) :
    Progress g cg others E (out ++ [v])
      { (copyOut f h nbytes).2 with delivered := f.delivered ++ [(copyOut f h nbytes).1] } := by
  obtain ⟨x, hx, hcontents, hw⟩ := hp.holds id v hv
  obtain rfl : x = h := Option.some.inj (hx.symm.trans hb)
  obtain ⟨b, hget, -, hlayout, -⟩ := hp.toSafe.toPlaced.bufferOf_laidOut hb
  have helements : (copyOut f x nbytes).1 = v := by
    rw [Memory.contents, hget, Option.map_some, Option.some.injEq] at hcontents
    rw [copyOut, hget, Option.map_some, Option.getD_some, ← hcontents, AneBuffer.copyTo,
      AneBuffer.copyTo, AneBuffer.copiedBytes, AneBuffer.copiedBytes, if_pos hlayout,
      if_pos hlayout]
  exact {
    alloc := hp.alloc
    tmpLaidOut := hp.tmpLaidOut
    tmpInput := hp.tmpInput
    logged := hp.logged.concat fun c hc => List.mem_singleton.mp hc ▸ hw
    holds := by
      intro j u hj
      obtain ⟨y, hy, hcy, w, hwlog, hyw⟩ := hp.holds j u hj
      exact ⟨y, hy, hcy, w, List.mem_append_left _ hwlog, hyw⟩
    delivered_eq := by rw [helements, hp.delivered_eq] }

/-- One marked output. -/
lemma copyOutput_triple {E : Env ℕ (List α)} (hE : ∀ id h, cg.aneBufs.lookup id = some h →
      id ∉ g.graphInputs ∧ (E id).isSome) (out : List (List α)) (tid nbytes : ℕ) :
    Triple (Safe g cg others) (Progress g cg others E out) (copyOutput cg tid nbytes)
      (fun f => ∃ v, E tid = some v ∧ Progress g cg others E (out ++ [v]) f) := by
  intro f hp
  unfold copyOutput
  split
  · exact ⟨fun hok => (nomatch hok), fun _ => hp.toSafe⟩
  rename_i h hbuf
  obtain ⟨hid, hsome⟩ := hE tid h hbuf
  obtain ⟨v, hv⟩ := Option.isSome_iff_exists.mp hsome
  refine ⟨fun _ => ⟨v, hv, ?_⟩, fun hne => absurd rfl hne⟩
  exact hp.copied hv (by rw [hp.toSafe.toPlaced.bufferOf_eq hid, hbuf]) nbytes

/-- The marked outputs, one after another: what is delivered are their values. -/
lemma copySteps_triple {E : Env ℕ (List α)} (hE : ∀ id h, cg.aneBufs.lookup id = some h →
      id ∉ g.graphInputs ∧ (E id).isSome) : ∀ (args : List (ℕ × ℕ)) (out : List (List α)),
    Triple (Safe g cg others) (Progress g cg others E out)
      (runAll (args.map fun (tid, nbytes) => copyOutput cg tid nbytes))
      (fun f => ∃ vs, readAll E (args.map Prod.fst) = some vs ∧
        Progress g cg others E (out ++ vs) f)
  | [], out => Triple.nil.post fun f hf => ⟨[], rfl, by rwa [List.append_nil]⟩
  | (tid, nbytes) :: args, out => by
      refine (copyOutput_triple hE out tid nbytes).cons (Triple.exists_pre fun v f ⟨hv, hp⟩ => ?_)
      have hrest := copySteps_triple hE args (out ++ [v]) f hp
      refine ⟨fun hok => ?_, hrest.2⟩
      obtain ⟨vs, hvs, hp'⟩ := hrest.1 hok
      exact ⟨v :: vs, by simp [readAll, hv, hvs], by rwa [List.append_cons]⟩

/-- At the start nothing has a value. -/
lemma Progress.start {m : Memory α} (ha : Allocated g cg.ioAllocBytes cg.aneBufs m others) :
    Progress g cg others (fun _ => none) [] { memory := m } where
  alloc := ha
  tmpLaidOut := fun _ _ h => by cases h
  tmpInput := fun _ _ h => by cases h
  logged := fun before e after h => by simp at h
  holds := fun _ _ h => by cases h
  delivered_eq := rfl

end Steps

/-! ## Whole calls -/

section Calls

variable [Zero α] (dirt : ℕ → ℕ → α) (device : Device α)
variable {g : AneGraph} {backend : CompilerBackend} {cg : CompiledGraph} {others : List ℕ}

omit [Zero α] in
/-- Assigning values defines the tensors that are assigned, and undefines none. -/
lemma assign_isSome {id : ℕ} : ∀ {args : List (ℕ × (ℕ → α) × ℕ)} {E : Env ℕ (List α)},
    (E id).isSome ∨ id ∈ args.map Prod.fst → (assign g E args id).isSome
  | [], E, h => by simpa [assign] using h
  | (tid, ptr, nbytes) :: args, E, h => by
      rw [assign]
      refine assign_isSome ?_
      by_cases hid : id = tid
      · left
        rw [hid, Function.update_self]
        rfl
      · rw [Function.update_of_ne hid]
        exact h.imp_right fun hm => (List.mem_cons.mp hm).resolve_left hid

/-- What a call guarantees. -/
structure Executed (g : AneGraph) (cg : CompiledGraph) (others : List ℕ) (call : ExecuteCall α)
    (result : Outcome Bool × Frame α) : Prop where
  alloc : Allocated g cg.ioAllocBytes cg.aneBufs result.2.memory others
  reads_fresh : ReadsFresh result.2.log
  delivers : result.1 = .ok true → ∃ final, evalCompiled device g cg call = some final ∧
    readAll final cg.graphOutputIds = some result.2.delivered

/-- **One call.**  On a compiled graph whose buffers are in order, a call leaves them in order,
reads only what it has written itself, and delivers the values of its own inputs. -/
theorem execute_spec (hg : g.Wf) (hc : Compiled backend g cg)
    (hA : ∀ group ∈ cg.groups, group.program.client = none) (env : Environment α) {m : Memory α}
    (ha : Allocated g cg.ioAllocBytes cg.aneBufs m others) (call : ExecuteCall α) :
    Executed device g cg others call (execute dirt device cg env m call) := by
  unfold execute
  by_cases hcounts : countsMatch cg call
  swap
  · rw [if_neg hcounts]
    exact ⟨ha, (Progress.start ha).logged, fun hok => (nomatch hok)⟩
  rw [if_pos hcounts]
  obtain ⟨hptrs, hbytes, -, houtBytes⟩ := hcounts
  have hargs : (arguments cg call).map Prod.fst = g.graphInputs := by
    rw [arguments, List.map_fst_zip (by simp [hptrs, hbytes]), hc.graphInputIds_eq]
  have houts : (cg.graphOutputIds.zip call.outputBytes).map Prod.fst = cg.graphOutputIds :=
    List.map_fst_zip houtBytes.ge
  -- the groups read nothing undefined, so the evaluation has a result
  obtain ⟨final, hfinal⟩ : ∃ final, evalCompiled device g cg call = some final :=
    (hc.groups_wellScoped hg).run_total fun i hi => assign_isSome (Or.inr (hargs ▸ hi))
  have hfill : Triple (Safe g cg others) _ _ _ := fillSteps_triple hg hc dirt []
    (arguments cg call) (fun _ => none) (fun x hx => hargs ▸ List.mem_map_of_mem hx)
    (hargs ▸ hg.graphInputs_nodup)
  have hgroups : Triple (Safe g cg others) _ (runAll (groupSteps device cg _ 0 _)) _ :=
    groupSteps_triple hg device env.dispatch [] cg.groups 0 hA (fun c hmem => by
      obtain ⟨n, hn, hno⟩ := hc.output_node hg hmem
      rw [← hno]
      exact ⟨fun hin => hg.graphInput_ne_output _ hin n hn rfl, hg.output_lt n hn⟩) hfinal
  have hcopy : Triple (Safe g cg others) (Progress g cg others final []) _ _ :=
    copySteps_triple (fun id h hid => by
      obtain ⟨c, hmem, rfl⟩ := (hc.buffered id).mp ⟨h, hid⟩
      obtain ⟨n, hn, hno⟩ := hc.output_node hg hmem
      refine ⟨fun hin => hg.graphInput_ne_output _ hin n hn hno.symm, run_isSome hfinal (Or.inr ?_)⟩
      exact List.mem_map_of_mem (f := fun c : CompiledPlanGroup => c.output) hmem)
    (cg.graphOutputIds.zip call.outputBytes) []
  obtain ⟨hgo, hstop⟩ := ((hfill.append hgroups).append hcopy) { memory := m }
    ⟨Progress.start ha, fun _ _ => rfl⟩
  have hsafe : Safe g cg others (runAll (fillSteps dirt cg call ++
      groupSteps device cg env.dispatch 0 cg.groups ++ copySteps cg call) { memory := m }).2 := by
    by_cases hok : (runAll (fillSteps dirt cg call ++
        groupSteps device cg env.dispatch 0 cg.groups ++ copySteps cg call) { memory := m }).1 =
        .ok true
    · obtain ⟨vs, -, hp⟩ := hgo hok
      exact hp.toSafe
    · exact hstop hok
  refine ⟨hsafe.toPlaced.released (env.releaseOrder_perm _), hsafe.logged, fun hok => ?_⟩
  obtain ⟨vs, hvs, hp⟩ := hgo hok
  refine ⟨final, hfinal, ?_⟩
  rw [← houts, hvs]
  exact congrArg some hp.delivered_eq.symm

/-! ## Histories -/

/-- What can happen between the compilation of a graph and a call on it: calls on it, under any
circumstances, and whatever else the process does with the pool. -/
inductive Action (α : Type) where
  | Execute (env : Environment α) (call : ExecuteCall α)
  | Pool (call : PoolCall α)

/-- One action, on the memory and the buffers that others hold. -/
def act (cg : CompiledGraph) (u : PoolUsers α) : Action α → PoolUsers α
  | .Execute env call => { u with memory := (execute dirt device cg env u.memory call).2.memory }
  | .Pool call => u.call dirt call

/-- No action disturbs the buffers of the compiled graph. -/
lemma act_allocated (hg : g.Wf) (hc : Compiled backend g cg)
    (hA : ∀ group ∈ cg.groups, group.program.client = none) (u : PoolUsers α) (a : Action α)
    (ha : Allocated g cg.ioAllocBytes cg.aneBufs u.memory u.held) :
    Allocated g cg.ioAllocBytes cg.aneBufs (act dirt device cg u a).memory
      (act dirt device cg u a).held := by
  cases a with
  | Execute env call => exact (execute_spec dirt device hg hc hA env ha call).alloc
  | Pool call =>
      obtain ⟨hok, hheld, hsame⟩ := PoolUsers.call_spec dirt ha.ok
        (ha.held.perm List.perm_append_comm) call
      exact ⟨hok, hheld.perm List.perm_append_comm, fun id h hid =>
        (hsame h (Table.mem_values_of_lookup hid)).laidOut (ha.laidOut id h hid)⟩

/-- **Execution is evaluation.**  Compile an accepted graph to Path A programs, at any time in the
life of the pool, and let any history of calls and of other pool users follow.  Every later call
reads only buffers that it has written itself, and when it returns `true` it delivers, output for
output, the values of the groups evaluated in order on its own inputs. -/
theorem execution_is_evaluation (G : AcceptedGraph) (backend : CompilerBackend)
    (fw : AneFramework) (maxIdle : ℕ) (past : List (PoolCall α)) {cg : CompiledGraph}
    {m : Memory α}
    (hcompile : compile dirt backend G.graph fw
      (Runs.run (PoolUsers.call dirt) (PoolUsers.start maxIdle) past).memory = (.ok (some cg), m))
    (hA : ∀ group ∈ cg.groups, group.program.client = none) (history : List (Action α))
    (env : Environment α) (call : ExecuteCall α) :
    let held := (Runs.run (PoolUsers.call dirt) (PoolUsers.start maxIdle) past).held
    let now := Runs.run (act dirt device cg) { memory := m, held } history
    let result := execute dirt device cg env now.memory call
    ReadsFresh result.2.log ∧
      (result.1 = .ok true → ∃ final, evalCompiled device G.graph cg call = some final ∧
        readAll final cg.graphOutputIds = some result.2.delivered) := by
  intro held now result
  obtain ⟨hok, hheld⟩ := PoolUsers.run_spec dirt maxIdle past
  obtain ⟨hc, ha⟩ := compile_spec G.wf hok hheld hcompile
  have hnow : Allocated G.graph cg.ioAllocBytes cg.aneBufs now.memory now.held :=
    Runs.run_induction (act dirt device cg)
      (fun u a hu => act_allocated dirt device G.wf hc hA u a hu) history _ ha
  have hdone := execute_spec dirt device G.wf hc hA env hnow call
  exact ⟨hdone.reads_fresh, hdone.delivers⟩

end Calls

/-! A graph of two nodes and two outputs, compiled while the pool holds a used buffer, and called
after a call that failed. -/

/-- `RELU` of an input, the result joined with another input; both results are marked. -/
def joined : AcceptedGraph where
  graph := AneGraph.build [.AddInput "x" ⟨1, 5, 1, 16⟩, .AddInput "y" ⟨1, 2, 1, 16⟩,
    .AddOp .Relu [0] ⟨1, 5, 1, 16⟩ [], .AddOp .Concat [2, 1] ⟨1, 7, 1, 16⟩ [], .MarkOutput 2 "",
    .MarkOutput 3 ""]
  built := ⟨_, rfl⟩
  accepted := by decide

/-- Programs without names, on a device that adds one to the elements of the first input. -/
def plainBackend : CompilerBackend where
  owns _ _ := .ok true
  compileGroup _ _ debugName := .ok (some { debugName })

def addOne : Device ℕ where
  evaluate _ ins i := (ins.headD []).getD i 0 + 1
  evaluateClient _ x := x

/-- Every dispatch ends the same way. -/
def always (ok : Bool) : Environment ℕ where
  dispatch _ := { ok, scribble := fun _ => 7 }
  releaseOrder := id
  releaseOrder_perm _ := .refl _

/-- Both inputs count from `start`, with the sizes of `joined`. -/
def countBoth (start : ℕ) : ExecuteCall ℕ where
  inputPtrs := [fun i => start + i, fun i => start + i]
  inputBytes := [160, 64]
  outputPtrs := 2
  outputBytes := [160, 224]

theorem execution_is_evaluation_joined : ∃ cg m,
    compile (fun _ _ => 3) plainBackend joined.graph ⟨true, fun _ _ => true⟩
      (Runs.run (PoolUsers.call fun _ _ => 3) (PoolUsers.start 4)
        [.Acquire 49280, .Write 0 fun _ => 5, .Release 0]).memory = (.ok (some cg), m) ∧
    ∃ final, evalCompiled addOne joined.graph cg (countBoth 0) = some final ∧
      readAll final cg.graphOutputIds = some [(List.range 80).map (· + 1),
        (List.range 112).map fun i => if i < 80 then i + 2 else 1] := by
  refine ⟨_, _, rfl, ?_⟩
  obtain ⟨final, hfinal, hread⟩ := (execution_is_evaluation (fun _ _ => 3) addOne joined
    plainBackend ⟨true, fun _ _ => true⟩ 4 [.Acquire 49280, .Write 0 fun _ => 5, .Release 0] rfl
    (by decide) [.Execute (always false) (countBoth 100), .Pool .Flush,
      .Execute (always true) (countBoth 50)] (always true) (countBoth 0)).2 (by decide +kernel)
  exact ⟨final, hfinal, hread.trans (by decide +kernel)⟩

end GraphExecutor

end Libane
