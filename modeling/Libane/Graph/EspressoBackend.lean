import Libane.Core.WeightPaths
import Libane.Graph.MilBackend

/-!
# The Espresso backend and the router

`EspressoBackend` of `espresso_backend.cpp` takes groups of a single `MATMUL` with 16 positions and
builds a network of one `inner_product` layer for them, for a single position.  `RoutingBackend` of
`graph_compiler.cpp` asks its backends in order, and the first that owns a group compiles it.

Directories, bundles and the framework that loads them are outside: `PathB` says whether that works
out.  `HwxBackend` is asked first; what it compiles is an argument, since it owns activations only.

* `EspressoBackend`, `RoutingBackend` — the two backends.
* `defaultBackend` — the order in which the default `compile` asks.
* `Owned` — what a group is that `EspressoBackend` owns; `defaultBackend_of_owned`: it gets it.
-/

namespace Libane

/-! ## Which backend -/

/-- `HwxBackend::is_hwx_eligible`. -/
def HwxBackend.isHwxEligible : LibaneOp → Bool
  | .Relu | .Tanh | .Sigmoid | .Hardswish | .LeakyRelu | .Elu => true
  | _ => false

/-- `HwxBackend::owns`. -/
def HwxBackend.owns (g : AneGraph) (group : FusionGroup) : Outcome Bool :=
  match group.nodeIds with
  | [nid] => do return HwxBackend.isHwxEligible (← g.node nid).op
  | _ => .ok false

/-- `HwxBackend`, compiling in some way. -/
def HwxBackend (compileGroup : AneGraph → FusionGroup → String → Outcome (Option AneProgram)) :
    CompilerBackend where
  owns := HwxBackend.owns
  compileGroup := compileGroup

/-- What Path B finds outside: its symbols, and the networks that can be written to a temporary
directory, compiled and loaded. -/
structure PathB where
  available : Bool
  loads : String → ClientModel → Bool

namespace EspressoBackend

/-- `EspressoBackend::owns`. -/
def owns (pathB : PathB) (g : AneGraph) (group : FusionGroup) : Outcome Bool :=
  if pathB.available = false then .ok false
  else
    match group.nodeIds with
    | [nid] => do
        let n ← g.node nid
        if n.op ≠ .Matmul then return false
        else return decide ((← g.tensor n.output).shape.seq = 16)
    | _ => .ok false

/-- `EspressoBackend::compile_group`.  The network has one position, whatever the tensors have. -/
def compileGroup (pathB : PathB) (g : AneGraph) (group : FusionGroup) (debugName : String) :
    Outcome (Option AneProgram) :=
  match group.nodeIds with
  | [] => .error (.UndefinedBehaviour "group.node_ids[0]")
  | nid :: _ => do
      let n ← g.node nid
      match n.inputs with
      | [] => .error (.UndefinedBehaviour "node.inputs[0]")
      | x :: _ => do
          let IC := (← g.tensor x).shape.channels
          let OC := (← g.tensor n.output).shape.channels
          let weights ← if n.weights = [] then .ok [] else transposeFp16ToFp32 n.weights IC OC
          let client : ClientModel :=
            { inChannels := IC, inSeq := 1, outChannels := OC, outSeq := 1, weights }
          return if pathB.loads debugName client then some { debugName, client := some client }
            else none

end EspressoBackend

/-- `EspressoBackend`. -/
def EspressoBackend (pathB : PathB) : CompilerBackend where
  owns := EspressoBackend.owns pathB
  compileGroup := EspressoBackend.compileGroup pathB

/-- The loop of `RoutingBackend::compile_group`. -/
def RoutingBackend.route (g : AneGraph) (group : FusionGroup) (debugName : String) :
    List CompilerBackend → Outcome (Option AneProgram)
  | [] => .ok none
  | b :: rest => do
      if ← b.owns g group then b.compileGroup g group debugName
      else RoutingBackend.route g group debugName rest

/-- `RoutingBackend`. -/
def RoutingBackend (backends : List CompilerBackend) : CompilerBackend where
  owns _ _ := .ok true
  compileGroup g group debugName := RoutingBackend.route g group debugName backends

/-- The backend of the default `compile`. -/
def defaultBackend (F : Type) [MilFloat F]
    (hwx : AneGraph → FusionGroup → String → Outcome (Option AneProgram)) (pathB : PathB)
    (fw : AneFramework) : CompilerBackend :=
  RoutingBackend [HwxBackend hwx, EspressoBackend pathB, MilBackend F fw]

/-! ## Groups of the Espresso backend -/

namespace EspressoBackend

variable {F : Type} [MilFloat F] {pathB : PathB} {g : AneGraph} {group : FusionGroup}

/-- A single `MATMUL` with 16 positions. -/
structure Owned (g : AneGraph) (group : FusionGroup) (n : GraphNode) : Prop where
  mem : n ∈ g.nodes
  nodeIds_eq : group.nodeIds = [n.id]
  op_eq : n.op = .Matmul
  seq_eq : (g.shapeOf n.output).seq = 16

/-- **The groups that are owned.** -/
lemma exists_owned (hg : g.Wf) (h : owns pathB g group = .ok true) : ∃ n, Owned g group n := by
  unfold owns at h
  split_ifs at h
  · cases h
  split at h
  swap
  · cases h
  rename_i nid hids
  obtain ⟨n, hn, h⟩ := bind_eq_ok.mp h
  split_ifs at h with hop
  · cases h
  obtain ⟨t, ht, h⟩ := bind_eq_ok.mp h
  have hget := AneGraph.node_eq_ok_iff.mp hn
  exact ⟨n, List.mem_of_getElem? hget, by rw [hids, hg.node_id _ n hget], not_not.mp hop, by
    rw [AneGraph.shapeOf_eq ht]
    simpa using pure_eq_ok_iff.mp h⟩

/-- **The router** gives them to the Espresso backend. -/
lemma defaultBackend_of_owned
    (hwx : AneGraph → FusionGroup → String → Outcome (Option AneProgram)) (fw : AneFramework)
    (hg : g.Wf) (h : owns pathB g group = .ok true) (name : String) :
    (defaultBackend F hwx pathB fw).compileGroup g group name =
      compileGroup pathB g group name := by
  obtain ⟨n, hn⟩ := exists_owned hg h
  have hhwx : HwxBackend.owns g group = .ok false := by
    simp [HwxBackend.owns, hn.nodeIds_eq, hg.node_ok hn.mem, hn.op_eq, HwxBackend.isHwxEligible]
  show RoutingBackend.route g group name [HwxBackend hwx, EspressoBackend pathB,
    MilBackend F fw] = _
  simp only [RoutingBackend.route, HwxBackend, EspressoBackend, hhwx, h, ok_bind]
  rfl

end EspressoBackend

end Libane
