import Libane.Foundation.Steps
import Libane.Graph.Compiler

/-!
# The graph executor

`GraphExecutor::execute` of `graph_executor.cpp`, as built for Apple platforms.  A call runs a
list of steps over a `Frame`, and stops at the first step that does not succeed: fill a pool
buffer for every graph input, dispatch every group, copy every marked output out.  The guard
then gives the input buffers back.

The hardware is a `Device`, two functions on the values of tensors; which dispatches fail, and
what they leave behind, is up to the `Environment`.

* `dispatchA` — through `ane_execute_multi`, on the surfaces themselves.
* `dispatchB` — through `ane_execute_client`, on copies of the first columns.
* `Event` — every access to a buffer is logged.
-/

namespace Libane

/-- What programs compute: on the ANE from the logical tensors of a request, in its order, and
through `_ANEClient` from a flat array.  Results are read off element by element. -/
structure Device (α : Type) where
  evaluate : AneProgram → List (List α) → ℕ → α
  evaluateClient : ClientModel → (ℕ → α) → ℕ → α

/-- How a dispatch ends: a failed one may have written anything into the output buffer, a
successful one anything past the logical tensor. -/
structure Dispatch (α : Type) where
  ok : Bool
  scribble : ℕ → α

/-- What a call does not control: the outcome of the dispatch of each group, and the order in
which the guard walks over its table. -/
structure Environment (α : Type) where
  dispatch : ℕ → Dispatch α
  releaseOrder : List ℕ → List ℕ
  releaseOrder_perm : ∀ l, (releaseOrder l).Perm l

/-- The arguments of `execute`.  Of the destinations only their number matters. -/
structure ExecuteCall (α : Type) where
  inputPtrs : List (ℕ → α)
  inputBytes : List ℕ
  outputPtrs : ℕ
  outputBytes : List ℕ

/-- An access to buffers: a copy into one, a copy out of one, or a request to the ANE. -/
inductive Event where
  | CopyIn (buffer nbytes : ℕ)
  | CopyOut (buffer nbytes : ℕ)
  | Request (program : AneProgram) (inputs outputs : List ℕ) (ok : Bool)
  deriving DecidableEq

/-- The buffers an access reads. -/
def Event.reads : Event → List ℕ
  | .CopyIn _ _ => []
  | .CopyOut b _ => [b]
  | .Request _ inputs _ _ => inputs

/-- The buffers whose logical tensor an access overwrites. -/
def Event.writes : Event → List ℕ
  | .CopyIn b _ => [b]
  | .CopyOut _ _ => []
  | .Request _ _ outputs ok => if ok then outputs else []

/-- The state of a call: the memory, `tmp_input_bufs`, the log, and what was written to the
destinations so far. -/
structure Frame (α : Type) where
  memory : Memory α
  tmp : Table ℕ := ∅
  log : List Event := []
  delivered : List (List α) := []

/-- A step of a call; giving up is a `return false`. -/
abbrev ExecStep (α : Type) := Steps.Step (Frame α) Failure

namespace AneBuffer

variable {α : Type}

/-- What a dispatch does to its output buffer. -/
def overwrite (b : AneBuffer α) (d : Dispatch α) (value : ℕ → α) : AneBuffer α :=
  { b with data := fun i => if d.ok ∧ i < b.copiedBytes 0 / 2 then value i else d.scribble i }

@[simp] lemma overwrite_bytes (b : AneBuffer α) (d : Dispatch α) (value : ℕ → α) :
    (b.overwrite d value).bytes = b.bytes := rfl

end AneBuffer

namespace GraphExecutor

variable {α : Type}

/-- How many bytes a copy moves. -/
def copiedBytes (m : Memory α) (h nbytes : ℕ) : ℕ :=
  (m.heap[h]?.map (·.copiedBytes nbytes)).getD 0

/-- `copy_from` on a buffer. -/
def copyIn (f : Frame α) (h : ℕ) (src : ℕ → α) (nbytes : ℕ) : Frame α :=
  { f with
    memory := f.memory.modify h (·.copyFrom src nbytes)
    log := f.log ++ [.CopyIn h (copiedBytes f.memory h nbytes)] }

/-- `copy_to` on a buffer: the elements, and the frame with the access logged. -/
def copyOut (f : Frame α) (h nbytes : ℕ) : List α × Frame α :=
  ((f.memory.heap[h]?.map (·.copyTo nbytes)).getD [],
    { f with log := f.log ++ [.CopyOut h (copiedBytes f.memory h nbytes)] })

/-- The buffer of a tensor: a graph input's temporary one, or the pre-allocated one. -/
def bufferOf (cg : CompiledGraph) (tmp : Table ℕ) (tid : ℕ) : Option ℕ :=
  match tmp.lookup tid with
  | some h => some h
  | none => cg.aneBufs.lookup tid

section Steps

variable (dirt : ℕ → ℕ → α) (device : Device α) (cg : CompiledGraph)

/-- Acquire and fill the buffer of one graph input. -/
def fillInput (tid : ℕ) (ptr : ℕ → α) (nbytes : ℕ) : ExecStep α := fun f =>
  match cg.tensorBytes.lookup tid, cg.tensorShapes.lookup tid with
  | some _, some s =>
      let (h, m₁) := f.memory.acquireTensorPadded dirt s.channels s.seq cg.ioAllocBytes
      let f₂ := copyIn { f with memory := m₁ } h ptr nbytes
      (.ok true, { f₂ with tmp := f₂.tmp.insert tid h })
  | _, _ => (.ok false, f)

/-- Path A. -/
def dispatchA (group : CompiledPlanGroup) (d : Dispatch α) : ExecStep α := fun f =>
  match StraightLine.readAll (bufferOf cg f.tmp) group.inputs with
  | none => (.ok false, f)
  | some inSurfs =>
      match cg.aneBufs.lookup group.output with
      | none => (.ok false, f)
      | some outBuf =>
          match request f.memory group.program inSurfs [outBuf] with
          | none => (.ok false, f)
          | some (ins, outs) =>
              let value := device.evaluate group.program (ins.filterMap f.memory.contents)
              (.ok d.ok, { f with
                memory := outs.foldl (fun m o => m.modify o (·.overwrite d value)) f.memory
                log := f.log ++ [.Request group.program ins outs d.ok] })

variable [Zero α]

/-- The copies of Path B stay inside their vectors. -/
def clientFits (client : ClientModel) (inShape outShape : TensorShape) : Prop :=
  client.inChannels ≤ inShape.channels ∧ client.inSeq ≤ inShape.seq ∧
    client.outChannels ≤ outShape.channels ∧ client.outSeq ≤ outShape.seq

instance (client : ClientModel) (inShape outShape : TensorShape) :
    Decidable (clientFits client inShape outShape) := by
  unfold clientFits
  infer_instance

/-- The stride extract: the first `clSeq` elements of every row of `gSeq`. -/
def extractColumns (clSeq gSeq : ℕ) (full : ℕ → α) : ℕ → α :=
  fun i => full (i / clSeq * gSeq + i % clSeq)

/-- The stride insert: rows of `clSeq` elements, each filled up with zeros to `gSeq`. -/
def insertColumns (clSeq gSeq : ℕ) (compact : ℕ → α) : ℕ → α :=
  fun i => if i % gSeq < clSeq then compact (i / gSeq * clSeq + i % gSeq) else 0

/-- Path B. -/
def dispatchB (group : CompiledPlanGroup) (client : ClientModel) (d : Dispatch α) : ExecStep α :=
  fun f =>
    match group.inputs with
    | [] => (.error (.UndefinedBehaviour "group.inputs[0]"), f)
    | inTid :: _ =>
        match cg.tensorShapes.lookup inTid, cg.tensorShapes.lookup group.output with
        | some inShape, some outShape =>
            match bufferOf cg f.tmp inTid with
            | none => (.ok false, f)
            | some inBuf =>
                let fullInBytes := toSizeT inShape.channels * toSizeT inShape.seq * 2 % 2 ^ 64
                let (fullIn, f₁) := copyOut f inBuf fullInBytes
                if clientFits client inShape outShape then
                  let clIn := extractColumns client.inSeq.toNat inShape.seq.toNat
                    fun i => fullIn.getD i 0
                  if d.ok = false then (.ok false, f₁)
                  else
                    let clOut := device.evaluateClient client clIn
                    let fullOut := insertColumns client.outSeq.toNat outShape.seq.toNat clOut
                    match cg.aneBufs.lookup group.output with
                    | none => (.ok false, f₁)
                    | some outBuf =>
                        (.ok true, copyIn f₁ outBuf fullOut
                          (toSizeT outShape.channels * toSizeT outShape.seq * 2 % 2 ^ 64))
                else (.error (.UndefinedBehaviour "memcpy past the end of a vector"), f₁)
        | _, _ => (.ok false, f)

/-- One group. -/
def dispatchGroup (group : CompiledPlanGroup) (d : Dispatch α) : ExecStep α :=
  match group.program.client with
  | some client => dispatchB device cg group client d
  | none => dispatchA device cg group d

omit [Zero α] in
/-- Copy one marked output to its destination. -/
def copyOutput (tid nbytes : ℕ) : ExecStep α := fun f =>
  match cg.aneBufs.lookup tid with
  | none => (.ok false, f)
  | some h =>
      let (elements, f₁) := copyOut f h nbytes
      (.ok true, { f₁ with delivered := f₁.delivered ++ [elements] })

omit [Zero α] in
/-- The graph inputs, each with its pointer and its size. -/
def arguments (call : ExecuteCall α) : List (ℕ × (ℕ → α) × ℕ) :=
  cg.graphInputIds.zip (call.inputPtrs.zip call.inputBytes)

omit [Zero α] in
/-- The first loop. -/
def fillSteps (call : ExecuteCall α) : List (ExecStep α) :=
  (arguments cg call).map fun (tid, ptr, nbytes) => fillInput dirt cg tid ptr nbytes

/-- The group loop, from the group with index `k` on. -/
def groupSteps (dispatch : ℕ → Dispatch α) (k : ℕ) (groups : List CompiledPlanGroup) :
    List (ExecStep α) :=
  (groups.zipIdx k).map fun (group, i) => dispatchGroup device cg group (dispatch i)

omit [Zero α] in
/-- The last loop. -/
def copySteps (call : ExecuteCall α) : List (ExecStep α) :=
  (cg.graphOutputIds.zip call.outputBytes).map fun (tid, nbytes) => copyOutput cg tid nbytes

/-- The counts that `execute` checks first. -/
def countsMatch (call : ExecuteCall α) : Prop :=
  call.inputPtrs.length = cg.graphInputIds.length ∧
    call.inputBytes.length = cg.graphInputIds.length ∧
    call.outputPtrs = cg.graphOutputIds.length ∧
    call.outputBytes.length = cg.graphOutputIds.length

omit [Zero α] in
instance (call : ExecuteCall α) : Decidable (countsMatch cg call) := by
  unfold countsMatch
  infer_instance

/-- `execute`: what it returns, and the frame after the guard has run. -/
def execute (env : Environment α) (m : Memory α) (call : ExecuteCall α) :
    Outcome Bool × Frame α :=
  if countsMatch cg call then
    let (r, f) := Steps.runAll (fillSteps dirt cg call ++
      groupSteps device cg env.dispatch 0 cg.groups ++
      copySteps cg call) { memory := m }
    (r, { f with memory := f.memory.releaseAll (env.releaseOrder f.tmp.values) })
  else (.ok false, { memory := m })

end Steps

end GraphExecutor

end Libane
