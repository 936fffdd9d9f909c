import Libane.Graph.Accepted
import Libane.Foundation.StraightLine

/-!
# Fusion

`FusionRules` of `fusion_rules.cpp`: the nodes are visited in insertion order, and each either
extends the group that was opened last or opens a group of its own.

* `canExtend`, `computeGroups` — the source's decision and its loop.  `AneGraph::node` can throw,
  so both live in `Outcome`.
* `Extends` — what the decision amounts to when the members of the group are known;
  `canExtend_eq` is the only place where `canExtend` is unfolded.
* `Grouped` — the groups that the loop can build, with the nodes they stand for.
* `computeGroups_spec` — on a graph object the loop always returns, and its groups stand for
  consecutive stretches of the node list.
-/

namespace Libane

/-- `FusionGroup`. -/
structure FusionGroup where
  nodeIds : List ℕ := []
  inputs : List ℕ := []
  output : ℕ := kInvalidTensorId
  deriving DecidableEq, Repr

namespace FusionRules

/-! ## The rules -/

/-- `op_supported`. -/
def opSupported : LibaneOp → Bool
  | .Conv2d | .Cast | .Unknown _ _ => false
  | _ => true

/-- `count[id]++`. -/
def increment (count : ℕ → Option ℕ) (id : ℕ) : ℕ → Option ℕ :=
  Function.update count id (some ((count id).getD 0 + 1))

/-- `build_consumer_count`: every operand of every node and every output mark counts once. -/
def buildConsumerCount (g : AneGraph) : ℕ → Option ℕ :=
  let initialised : ℕ → Option ℕ :=
    g.tensors.foldl (fun c t => Function.update c t.id (some 0)) fun _ => none
  let afterNodes := g.nodes.foldl (fun c n => n.inputs.foldl increment c) initialised
  g.graphOutputs.foldl increment afterNodes

/-- A loop over node ids that stops at the first node with the property. -/
def anyNode (g : AneGraph) (p : GraphNode → Bool) : List ℕ → Outcome Bool
  | [] => .ok false
  | nid :: rest => do
      let n ← g.node nid
      if p n then return true else anyNode g p rest

/-- Rule 2 of `can_extend`: a member already carries the candidate's weight file. -/
def sameWeightFile (g : AneGraph) (candidate : GraphNode) (ids : List ℕ) : Outcome Bool :=
  if candidate.weightFile = "" then .ok false
  else anyNode g (fun n => n.weightFile = candidate.weightFile) ids

/-- Rule 3 of `can_extend`: the second operand is the output of a member. -/
def sideInside (g : AneGraph) (candidate : GraphNode) (ids : List ℕ) : Outcome Bool :=
  match candidate.inputs[1]? with
  | none => .ok false
  | some side => anyNode g (fun n => n.output = side) ids

/-- `can_extend`, the rejections in source order. -/
def canExtend (g : AneGraph) (group : FusionGroup) (candidateId : ℕ)
    (consumerCount : ℕ → Option ℕ) : Outcome Bool :=
  match group.nodeIds.getLast? with
  | none => .ok false
  | some lastId => do
      let last ← g.node lastId
      let candidate ← g.node candidateId
      if opSupported candidate.op = false then return false
      else if candidate.inputs.head? ≠ some last.output then return false
      else if consumerCount last.output ≠ some 1 then return false
      else
        let same ← sameWeightFile g candidate group.nodeIds
        if same then return false
        else
          let inside ← sideInside g candidate group.nodeIds
          return !inside

/-- The side-input loop of an extension: tensors already listed are not listed again. -/
def addSides : List ℕ → List ℕ → List ℕ
  | inputs, [] => inputs
  | inputs, side :: rest =>
      addSides (if side ∈ inputs then inputs else inputs ++ [side]) rest

/-- Append a node to a group. -/
def extendGroup (group : FusionGroup) (n : GraphNode) : FusionGroup where
  nodeIds := group.nodeIds ++ [n.id]
  inputs := addSides group.inputs n.inputs.tail
  output := n.output

/-- A new group with one member; all its operands are listed, repeated ones included. -/
def startGroup (n : GraphNode) : FusionGroup where
  nodeIds := [n.id]
  inputs := n.inputs
  output := n.output

/-- One round of the loop of `compute_groups`. -/
def placeNode (g : AneGraph) (consumerCount : ℕ → Option ℕ) (groups : List FusionGroup)
    (n : GraphNode) : Outcome (List FusionGroup) :=
  match groups.getLast? with
  | none => .ok (groups ++ [startGroup n])
  | some last => do
      if ← canExtend g last n.id consumerCount then
        return groups.dropLast ++ [extendGroup last n]
      else
        return groups ++ [startGroup n]

/-- The loop of `compute_groups`. -/
def placeNodes (g : AneGraph) (consumerCount : ℕ → Option ℕ) :
    List FusionGroup → List GraphNode → Outcome (List FusionGroup)
  | groups, [] => .ok groups
  | groups, n :: rest => do
      let groups' ← placeNode g consumerCount groups n
      placeNodes g consumerCount groups' rest

/-- `compute_groups`. -/
def computeGroups (g : AneGraph) : Outcome (List FusionGroup) :=
  placeNodes g (buildConsumerCount g) [] g.nodes

/-! ## The consumer count -/

lemma foldl_increment (ids : List ℕ) (count : ℕ → Option ℕ) {id k : ℕ} (h : count id = some k) :
    ids.foldl increment count id = some (k + ids.count id) := by
  induction ids generalizing count k with
  | nil => simpa using h
  | cons i ids ih =>
      rw [List.foldl_cons]
      by_cases hi : i = id
      · subst hi
        rw [ih (increment count i) (k := k + 1) (by simp [increment, h]), List.count_cons_self]
        congr 1
        omega
      · rw [ih (increment count i) (k := k)
          (by rw [increment, Function.update_of_ne (Ne.symm hi), h]), List.count_cons_of_ne hi]

lemma foldl_increment_nodes (ns : List GraphNode) (count : ℕ → Option ℕ) {id k : ℕ}
    (h : count id = some k) :
    ns.foldl (fun c n => n.inputs.foldl increment c) count id =
      some (k + (ns.flatMap (·.inputs)).count id) := by
  induction ns generalizing count k with
  | nil => simpa using h
  | cons n ns ih =>
      rw [List.foldl_cons, ih _ (foldl_increment n.inputs count h), List.flatMap_cons,
        List.count_append, Nat.add_assoc]

lemma foldl_initialise (ts : List GraphTensor) (count : ℕ → Option ℕ) {id : ℕ}
    (h : count id = some 0 ∨ ∃ t ∈ ts, t.id = id) :
    ts.foldl (fun (c : ℕ → Option ℕ) t => Function.update c t.id (some 0)) count id = some 0 := by
  induction ts generalizing count with
  | nil => simpa using h
  | cons t ts ih =>
      rw [List.foldl_cons]
      refine ih _ ?_
      by_cases ht : t.id = id
      · left
        rw [← ht, Function.update_self]
      · rw [Function.update_of_ne (Ne.symm ht)]
        refine h.imp_right ?_
        rintro ⟨t', ht', rfl⟩
        rcases List.mem_cons.mp ht' with rfl | hmem
        · exact absurd rfl ht
        · exact ⟨t', hmem, rfl⟩

/-- How often a tensor is read or marked. -/
def uses (g : AneGraph) (id : ℕ) : ℕ :=
  (g.nodes.flatMap (·.inputs)).count id + g.graphOutputs.count id

/-- **The consumer count counts uses.** -/
theorem buildConsumerCount_eq {g : AneGraph} (hg : g.Wf) {id : ℕ} (h : id < g.tensors.length) :
    buildConsumerCount g id = some (uses g id) := by
  have hmem : ∃ t ∈ g.tensors, t.id = id :=
    ⟨g.tensors[id], List.getElem_mem h, hg.tensor_id id _ (List.getElem?_eq_getElem h)⟩
  have h0 := foldl_initialise g.tensors (fun _ => none) (Or.inr hmem)
  have h1 := foldl_increment_nodes g.nodes _ h0
  have h2 := foldl_increment g.graphOutputs _ h1
  rw [buildConsumerCount, h2, uses, Nat.zero_add]

/-! ## What `can_extend` decides -/

/-- A candidate may join a group with members `ms`, the last of which is `last`. -/
structure Extends (g : AneGraph) (ms : List GraphNode) (last candidate : GraphNode) : Prop where
  supported : opSupported candidate.op = true
  head_eq : candidate.inputs.head? = some last.output
  uses_eq : uses g last.output = 1
  file_ne : candidate.weightFile ≠ "" → ∀ m ∈ ms, m.weightFile ≠ candidate.weightFile
  side_ne : ∀ side, candidate.inputs[1]? = some side → ∀ m ∈ ms, m.output ≠ side

/-- A group stands for the nodes its ids resolve to. -/
def Resolves (g : AneGraph) (group : FusionGroup) (ms : List GraphNode) : Prop :=
  group.nodeIds = ms.map (·.id) ∧ ∀ m ∈ ms, m ∈ g.nodes

lemma anyNode_eq {g : AneGraph} (hg : g.Wf) (p : GraphNode → Bool) :
    ∀ ms : List GraphNode, (∀ m ∈ ms, m ∈ g.nodes) →
      anyNode g p (ms.map (·.id)) = .ok (ms.any p)
  | [], _ => rfl
  | m :: ms, h => by
      have ih := anyNode_eq hg p ms fun m' hm' => h m' (List.mem_cons_of_mem m hm')
      rw [List.map_cons, anyNode, hg.node_ok (h m List.mem_cons_self), List.any_cons]
      show (if p m then pure true else anyNode g p (ms.map (·.id)) : Outcome Bool) = _
      cases p m with
      | false => simpa using ih
      | true => rfl

lemma sameWeightFile_eq {g : AneGraph} (hg : g.Wf) (candidate : GraphNode) {ms : List GraphNode}
    (hms : ∀ m ∈ ms, m ∈ g.nodes) : ∃ b, sameWeightFile g candidate (ms.map (·.id)) = .ok b ∧
      (b = false ↔ (candidate.weightFile ≠ "" →
        ∀ m ∈ ms, m.weightFile ≠ candidate.weightFile)) := by
  unfold sameWeightFile
  split_ifs with h
  · exact ⟨false, rfl, by simp [h]⟩
  · exact ⟨_, anyNode_eq hg _ ms hms, by simp [h]⟩

lemma sideInside_eq {g : AneGraph} (hg : g.Wf) (candidate : GraphNode) {ms : List GraphNode}
    (hms : ∀ m ∈ ms, m ∈ g.nodes) : ∃ b, sideInside g candidate (ms.map (·.id)) = .ok b ∧
      (b = false ↔ ∀ side, candidate.inputs[1]? = some side → ∀ m ∈ ms, m.output ≠ side) := by
  unfold sideInside
  cases h : candidate.inputs[1]? with
  | none => exact ⟨false, rfl, by simp⟩
  | some side => exact ⟨_, anyNode_eq hg _ ms hms, by simp⟩

/-- **`can_extend`, decided.**  On a group that stands for `ms` the call returns, and says yes to
exactly the candidates that satisfy `Extends`. -/
theorem canExtend_eq {g : AneGraph} (hg : g.Wf) {group : FusionGroup} {ms : List GraphNode}
    {last candidate : GraphNode} (hr : Resolves g group ms) (hlast : ms.getLast? = some last)
    (hc : candidate ∈ g.nodes) :
    ∃ b, canExtend g group candidate.id (buildConsumerCount g) = .ok b ∧
      (b = true ↔ Extends g ms last candidate) := by
  obtain ⟨hids, hms⟩ := hr
  have hlm : last ∈ ms := List.mem_of_getLast? hlast
  have hlastId : (ms.map (·.id)).getLast? = some last.id := by
    rw [List.getLast?_map, hlast]
    rfl
  have hcount := buildConsumerCount_eq hg (hg.output_lt last (hms last hlm))
  obtain ⟨b₁, hsame, hb₁⟩ := sameWeightFile_eq hg candidate hms
  obtain ⟨b₂, hside, hb₂⟩ := sideInside_eq hg candidate hms
  have hbind : ∀ {α : Type} (a : α) (f : α → Outcome Bool), (Except.ok a >>= f) = f a :=
    fun _ _ => rfl
  simp only [canExtend, hids, hlastId, hg.node_ok (hms last hlm), hg.node_ok hc, hbind, hcount,
    hsame, hside]
  by_cases h1 : opSupported candidate.op = false
  · refine ⟨false, by simp [h1], ?_⟩
    simpa using fun h : Extends g ms last candidate => by simp [h.supported] at h1
  by_cases h2 : candidate.inputs.head? = some last.output
  swap
  · refine ⟨false, by simp [h2], ?_⟩
    simpa using fun h : Extends g ms last candidate => h2 h.head_eq
  by_cases h3 : uses g last.output = 1
  swap
  · refine ⟨false, by simp [h3], ?_⟩
    simpa using fun h : Extends g ms last candidate => h3 h.uses_eq
  refine ⟨!b₁ && !b₂, ?_, ?_⟩
  · simp only [h1, h2, h3, if_false, ne_eq, not_true]
    cases b₁ <;> rfl
  · simp only [Bool.and_eq_true, Bool.not_eq_true', hb₁, hb₂]
    rw [Bool.not_eq_false] at h1
    exact ⟨fun h => ⟨h1, h2, h3, h.1, h.2⟩, fun h => ⟨h.file_ne, h.side_ne⟩⟩

/-! ## The groups of the loop -/

/-- The groups the loop can build, with the nodes they stand for: a start, and extensions that
`Extends` allows. -/
inductive Grouped (g : AneGraph) : FusionGroup → List GraphNode → Prop
  | start (n : GraphNode) (hn : n ∈ g.nodes) : Grouped g (startGroup n) [n]
  | extend (group : FusionGroup) (ms : List GraphNode) (last n : GraphNode) (hn : n ∈ g.nodes)
      (hlast : ms.getLast? = some last) (hext : Extends g ms last n) (h : Grouped g group ms) :
      Grouped g (extendGroup group n) (ms ++ [n])

lemma Grouped.resolves {g : AneGraph} {group : FusionGroup} {ms : List GraphNode}
    (h : Grouped g group ms) : Resolves g group ms := by
  induction h with
  | start n hn => exact ⟨rfl, by simpa using hn⟩
  | extend group ms last n hn hlast hext h ih =>
      refine ⟨by simp [extendGroup, ih.1], fun m hm => ?_⟩
      rcases List.mem_append.mp hm with hm | hm
      · exact ih.2 m hm
      · rw [List.mem_singleton.mp hm]
        exact hn

lemma Grouped.ne_nil {g : AneGraph} {group : FusionGroup} {ms : List GraphNode}
    (h : Grouped g group ms) : ms ≠ [] := by
  cases h <;> simp

/-- Splitting off the last pair of two related lists. -/
lemma forall₂_concat_left {α β : Type*} {R : α → β → Prop} {a : α} :
    ∀ {l : List α} {l' : List β}, List.Forall₂ R (l ++ [a]) l' →
      ∃ m b, l' = m ++ [b] ∧ List.Forall₂ R l m ∧ R a b
  | [], _, .cons hab .nil => ⟨[], _, rfl, .nil, hab⟩
  | _ :: _, _, .cons hxy hrest => by
      obtain ⟨m, b, rfl, hm, hab⟩ := forall₂_concat_left hrest
      exact ⟨_ :: m, b, rfl, .cons hxy hm, hab⟩

/-- The groups built so far stand for the consecutive stretches `mss` of the node list. -/
def Partitioned (g : AneGraph) (groups : List FusionGroup) (mss : List (List GraphNode)) : Prop :=
  List.Forall₂ (Grouped g) groups mss

/-- The first node of a stretch may not join the stretch before it. -/
def Separate (g : AneGraph) (ms ms' : List GraphNode) : Prop :=
  ∀ last n, ms.getLast? = some last → ms'.head? = some n → ¬ Extends g ms last n

/-- **One round of the loop.**  It returns, and places the node at the end of the last stretch or,
when it may not join that, in a stretch of its own. -/
lemma placeNode_spec {g : AneGraph} (hg : g.Wf) {groups : List FusionGroup}
    {mss : List (List GraphNode)} (hp : Partitioned g groups mss) (hs : mss.IsChain (Separate g))
    {n : GraphNode} (hn : n ∈ g.nodes) :
    ∃ groups' mss', placeNode g (buildConsumerCount g) groups n = .ok groups' ∧
      Partitioned g groups' mss' ∧ mss'.IsChain (Separate g) ∧
      mss'.flatten = mss.flatten ++ [n] := by
  rcases List.eq_nil_or_concat groups with rfl | ⟨init, last, rfl⟩
  · cases hp
    exact ⟨[startGroup n], [[n]], rfl, .cons (.start n hn) .nil, .singleton _, rfl⟩
  rw [List.concat_eq_append] at hp ⊢
  obtain ⟨mssInit, ms, rfl, hinit, h⟩ := forall₂_concat_left hp
  obtain ⟨lastNode, hlastNode⟩ : ∃ m, ms.getLast? = some m :=
    Option.isSome_iff_exists.mp (by simpa using h.ne_nil)
  obtain ⟨b, hb, hext⟩ := canExtend_eq hg h.resolves hlastNode hn
  have hplace : placeNode g (buildConsumerCount g) (init ++ [last]) n =
      .ok (if b then init ++ [extendGroup last n] else init ++ [last] ++ [startGroup n]) := by
    rw [placeNode, List.getLast?_concat, List.dropLast_concat]
    show (canExtend g last n.id (buildConsumerCount g) >>= _) = _
    rw [hb]
    cases b <;> rfl
  cases b with
  | true =>
      refine ⟨_, mssInit ++ [ms ++ [n]], hplace, ?_, ?_, by simp⟩
      · exact List.rel_append hinit
          (.cons (.extend last ms lastNode n hn hlastNode (hext.mp rfl) h) .nil)
      · -- the first node of the last stretch is still the first
        have hhead : (ms ++ [n]).head? = ms.head? := List.head?_append_of_ne_nil _ h.ne_nil
        obtain ⟨hs₁, -, hs₂⟩ := List.isChain_append.mp hs
        refine List.isChain_append.mpr ⟨hs₁, .singleton _, fun prev hprev next hnext => ?_⟩
        obtain rfl : ms ++ [n] = next := by simpa using hnext
        intro last' n' hlast' hn'
        exact hs₂ prev hprev ms rfl last' n' hlast' (hhead ▸ hn')
  | false =>
      refine ⟨_, mssInit ++ [ms] ++ [[n]], hplace, ?_, ?_, by simp⟩
      · exact List.rel_append hp (.cons (.start n hn) .nil)
      · refine List.isChain_append.mpr ⟨hs, .singleton _, fun prev hprev next hnext => ?_⟩
        obtain rfl : ms = prev := by simpa using hprev
        obtain rfl : [n] = next := by simpa using hnext
        rintro last' n' hlast' ⟨⟩ hext'
        rw [hlastNode, Option.some.injEq] at hlast'
        subst hlast'
        cases hext.mpr hext'

/-- The loop from any partition on. -/
lemma placeNodes_spec {g : AneGraph} (hg : g.Wf) :
    ∀ (ns : List GraphNode) {groups : List FusionGroup} {mss : List (List GraphNode)},
      (∀ n ∈ ns, n ∈ g.nodes) → Partitioned g groups mss → mss.IsChain (Separate g) →
      ∃ groups' mss', placeNodes g (buildConsumerCount g) groups ns = .ok groups' ∧
        Partitioned g groups' mss' ∧ mss'.IsChain (Separate g) ∧
        mss'.flatten = mss.flatten ++ ns
  | [], groups, mss, _, hp, hs => ⟨groups, mss, rfl, hp, hs, (List.append_nil _).symm⟩
  | n :: ns, groups, mss, hns, hp, hs => by
      obtain ⟨groups₁, mss₁, h₁, hp₁, hs₁, hf₁⟩ :=
        placeNode_spec hg hp hs (hns n List.mem_cons_self)
      obtain ⟨groups₂, mss₂, h₂, hp₂, hs₂, hf₂⟩ :=
        placeNodes_spec hg ns (fun m hm => hns m (List.mem_cons_of_mem n hm)) hp₁ hs₁
      refine ⟨groups₂, mss₂, ?_, hp₂, hs₂,
        by rw [hf₂, hf₁, List.append_assoc, List.singleton_append]⟩
      rw [placeNodes, h₁]
      exact h₂

/-- **The fusion loop returns**, and its groups stand for consecutive stretches of the node list,
each as long as the rules allow. -/
theorem computeGroups_spec {g : AneGraph} (hg : g.Wf) : ∃ groups mss,
    computeGroups g = .ok groups ∧ Partitioned g groups mss ∧ mss.IsChain (Separate g) ∧
      mss.flatten = g.nodes := by
  obtain ⟨groups, mss, h, hp, hs, hf⟩ :=
    placeNodes_spec hg g.nodes (fun _ hn => hn) (.nil : Partitioned g [] []) .nil
  exact ⟨groups, mss, h, hp, hs, hf⟩

end FusionRules

end Libane
