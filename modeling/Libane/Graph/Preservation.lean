import Libane.Core.MilWiring
import Libane.Foundation.Summaries
import Libane.Graph.Delivery
import Libane.Graph.InputBinding
import Libane.Graph.LoweringTotal
import Libane.Graph.WeightFiles

/-!
# Compilation preserves meaning

A node means what its own fragment computes from its own operands and weights (`nodeMeaning`).  A
compiled graph fuses nodes, joins their fragments under common names, puts their weights into common
files, sorts parameters and passes values from program to program in buffers; a call computes what
the nodes mean all the same, whatever MIL statements compute.

**From one node to a chain.**  Alone, the fragment of a node runs among the operands and the files
of the node.  In a program it runs among the variables and files of all nodes of its group.
`node_run` carries the run from one place to the other: the operands stand under the same names, no
earlier statement has a name of this node, and its files are found among those of the group, since
file names carry the id of the node (`LoweredNodes.contentOf_eq`).  `chain_run` is the induction.
Its invariant speaks about the variables of tensors only, so the temporaries of a fragment are
forgotten where the next one begins.

**From chains to the graph.**  A group is a summary of its nodes: `group_summary` says that from
inputs that agree it computes the same output, and `run_summaries` that it is enough to look at
groups.  What buffers have to do with it was settled in `execution_is_evaluation`, where a call is
the evaluation of the groups, one after another.

**What is assumed.**  The meaning of MIL is a parameter (`MilSem`), as is the hardware, which is
asked to run the programs that are handed to it (`RunsMil`).  `DeclaresFragment` leaves out the
nodes whose tensors are declared with another shape than their fragments compute, and the order of
inputs is assumed because the compiled program sorts its parameters by name and a call hands the
surfaces over by position (`input_binding_iff`).  The result is about calls that return `true`; when
they do was settled before (`outputs_deliverable_iff`).
-/

namespace Libane

open MilBuilder StraightLine

/-! ## The meaning of programs -/

section Meaning

variable {F α : Type}

/-- What a MIL statement computes from its type, its operation and the values of its operands.
Values are lists of elements. -/
abbrev MilSem (F α : Type) := MilCode F → List (List α) → List α

/-- Every value has as many elements as its type declares. -/
def MilSem.Typed (sem : MilSem F α) : Prop := ∀ c vs, (sem c vs).length = c.type.elements.toNat

/-- The contents of a weight file. -/
def contentOf (entries : List WeightEntry) (file : String) : Option (List UInt8) :=
  (entries.find? (·.filename == file)).map (·.data)

/-- Arguments under the names of the parameters. -/
def bindArgs (names : List String) (vs : List (List α)) : Env String (List α) :=
  fun a => (names.zip vs).lookup a

/-- Statement after statement. -/
def runBody (sem : MilSem F α) (files : String → Option (List UInt8)) (env : Env String (List α))
    (body : List (MilStmt F)) : Option (Env String (List α)) :=
  run MilStmt.var MilStmt.operands (fun s => sem (s.code files)) env body

/-- The result of a MIL function. -/
def MilFunction.eval (sem : MilSem F α) (files : String → Option (List UInt8)) (P : MilFunction F)
    (vs : List (List α)) : Option (List α) :=
  (runBody sem files (bindArgs (P.params.map (·.varName)) vs) P.body).bind (· P.result)

lemma length_of_typed {sem : MilSem F α} (h : sem.Typed) (c : MilCode F) (vs : List (List α)) :
    (sem c vs).length = c.type.dims.prod.toNat := by
  rw [h c vs]
  cases c.type <;> rfl

/-- A statement refers to files by the names it mentions. -/
lemma code_congr {files files' : String → Option (List UInt8)} {s : MilStmt F}
    (h : ∀ r ∈ s.files, files r.2 = files' r.2) : s.code files = s.code files' := by
  obtain ⟨type, var, rhs, label, pad⟩ := s
  cases rhs with
  | Op name args => rfl
  | Const value =>
      cases value with
      | BlobFile t file =>
          have hfile := h (t, file) (by simp [MilStmt.files])
          simp only [MilStmt.code, hfile]
      | _ => rfl

/-- Among files with different names, a file of a part is found in the part. -/
lemma contentOf_congr {entries es : List WeightEntry} {file : String}
    (hnodup : (entries.map (·.filename)).Nodup) (hsub : es ⊆ entries)
    (honly : ∀ e ∈ entries, e.filename = file → e ∈ es) :
    contentOf entries file = contentOf es file := by
  unfold contentOf
  refine congrArg _ ?_
  cases hes : es.find? (·.filename == file) with
  | none =>
      rw [List.find?_eq_none] at hes ⊢
      exact fun e he hname => hes e (honly e he (by simpa using hname)) hname
  | some e =>
      have he := List.mem_of_find?_eq_some hes
      have hname : e.filename = file := by simpa using List.find?_some hes
      cases hall : entries.find? (·.filename == file) with
      | none => exact absurd (by simpa using hname) (List.find?_eq_none.mp hall e (hsub he))
      | some e' =>
          have hname' : e'.filename = file := by simpa using List.find?_some hall
          rw [List.inj_on_of_nodup_map hnodup (List.mem_of_find?_eq_some hall) (hsub he)
            (hname'.trans hname.symm)]

end Meaning

namespace MilBackend

variable {F : Type} [MilFloat F] {α : Type} {sem : MilSem F α} {g : AneGraph}

/-- What the fragment of a node computes on its own, from the operands and the weights of the
node. -/
def nodeValue (sem : MilSem F α) (g : AneGraph) (n : GraphNode) (vs : List (List α)) :
    Option (List α) := do
  let f ← (nodeToFragment g n (tensorVar (n.inputs.headD kInvalidTensorId))
    (tensorVar n.output)).toOption
  let entries ← (weightEntries g n).toOption
  let env ← runBody sem (contentOf entries) (bindArgs (n.inputs.map tensorVar) vs) f.body
  env f.outputName

/-- **What a node means.** -/
def nodeMeaning (sem : MilSem F α) (g : AneGraph) (n : GraphNode) (vs : List (List α)) : List α :=
  (nodeValue sem g n vs).getD []

/-! ## Arguments and files -/

omit [MilFloat F] in
/-- The variables of tensors stand for the values that were read. -/
lemma bindArgs_eq {E : Env ℕ (List α)} : ∀ {ids : List ℕ} {vs : List (List α)},
    readAll E ids = some vs → ∀ i ∈ ids, bindArgs (ids.map tensorVar) vs (tensorVar i) = E i
  | [], _, _, i, hi => absurd hi List.not_mem_nil
  | j :: ids, vs, h, i, hi => by
      obtain ⟨v, hv, h⟩ := Option.bind_eq_some_iff.mp h
      obtain ⟨ws, hws, h⟩ := Option.bind_eq_some_iff.mp h
      obtain rfl := Option.some.inj h
      by_cases hij : i = j
      · subst hij
        rw [hv, bindArgs, List.map_cons, List.zip_cons_cons, List.lookup_cons_self]
      · have hne : (tensorVar i == tensorVar j) = false :=
          beq_eq_false_iff_ne.mpr fun he => hij (tensorVar_injective he)
        have hrest := bindArgs_eq hws i ((List.mem_cons.mp hi).resolve_left hij)
        rw [← hrest, bindArgs, bindArgs, List.map_cons, List.zip_cons_cons, List.lookup_cons, hne]

omit [MilFloat F] in
/-- The files that a node refers to are named after it, if there are any. -/
lemma nodeRefs_named (hg : g.Wf) {n : GraphNode} (hn : n ∈ g.nodes) (inS outS : TensorShape) :
    ∀ r ∈ nodeRefs n inS outS, r.2 = "" ∨ NamedAfter n.id r.2 := by
  have hfile : (n.weightFile = "" ∨ NamedAfter n.id n.weightFile) ∧
      (betaFile n.weightFile = "" ∨ NamedAfter n.id (betaFile n.weightFile)) := by
    rw [hg.weightFile_eq n hn, AneGraph.weightFileOf]
    split_ifs
    · exact ⟨Or.inl rfl, Or.inl (by decide)⟩
    · rw [betaFile_numeral]
      exact ⟨Or.inr (Or.inl rfl), Or.inr (Or.inr rfl)⟩
  obtain ⟨hgamma, hbeta⟩ := hfile
  intro r hr
  unfold nodeRefs at hr
  split at hr <;> aesop

omit [MilFloat F] in
lemma NamedAfter.ne_empty {id : ℕ} {file : String} (h : NamedAfter id file) : file ≠ "" := by
  rintro rfl
  rcases h with h | h
  · exact numeral_ne_empty id h.symm
  · have := congrArg String.toList h
    rw [beta_toList] at this
    simp at this

/-- **Weights.**  In the files of a chain a node finds its own. -/
lemma LoweredNodes.contentOf_eq (hg : g.Wf) {chainVar : String} {ms : List GraphNode}
    {fs : List (MilFragment F)} {entries : List WeightEntry}
    (h : LoweredNodes g chainVar ms fs entries) (hms : ∀ m ∈ ms, m ∈ g.nodes)
    (hids : (ms.map (·.id)).Nodup) {m : GraphNode} (hm : m ∈ ms) {es : List WeightEntry}
    (hes : weightEntries g m = .ok es) {file : String} (hfile : file = "" ∨ NamedAfter m.id file) :
    contentOf entries file = contentOf es file := by
  refine contentOf_congr (h.filenames_nodup hg hms hids)
    (fun e he => (h.mem_entries e).mpr ⟨m, hm, es, hes, he⟩) fun e he hname => ?_
  obtain ⟨m', hm', es', hes', he'⟩ := (h.mem_entries e).mp he
  have hnamed := (weightEntries_named hg (hms m' hm') hes').1 e he'
  rw [hname] at hnamed
  have hid : m'.id = m.id := hnamed.inj (hfile.resolve_left hnamed.ne_empty)
  obtain rfl : m' = m := List.inj_on_of_nodup_map hids hm' hm hid
  rwa [Except.ok.inj (hes.symm.trans hes')]

omit [MilFloat F] in
/-- Members of a group have different ids. -/
lemma ids_nodup_of_grouped (hg : g.Wf) {group : FusionGroup} {ms : List GraphNode}
    (h : FusionRules.Grouped g group ms) : (ms.map (·.id)).Nodup := by
  refine (List.Nodup.of_map _ (outputs_nodup_of_grouped hg h)).map_on fun a ha b hb hab => ?_
  have hb' := hg.node_ok (h.resolves.2 b hb)
  rw [← hab] at hb'
  exact Except.ok.inj ((hg.node_ok (h.resolves.2 a ha)).symm.trans hb')

/-! ## One node -/

/-- The node is declared with the shape that its fragment has. -/
def DeclaresFragment (g : AneGraph) (n : GraphNode) : Prop :=
  fragmentShape n (g.shapeOf (n.inputs.headD kInvalidTensorId)) (g.shapeOf n.output) =
    g.shapeOf n.output

/-- **One node.**  Wherever the tensors that a node reads stand under their variables, its
fragment computes the meaning of the node. -/
lemma node_run (G : AcceptedGraph) {n : GraphNode} (hn : n ∈ G.graph.nodes) {x : ℕ}
    (hx : n.inputs.head? = some x) {f : MilFragment F}
    (hf : nodeToFragment G.graph n (tensorVar x) (tensorVar n.output) = .ok f)
    {entries : List WeightEntry} (he : weightEntries G.graph n = .ok entries)
    {files : String → Option (List UInt8)}
    (hfiles : ∀ file, file = "" ∨ NamedAfter n.id file → files file = contentOf entries file)
    (hsem : sem.Typed) (hshape : DeclaresFragment G.graph n)
    {M : Env String (List α)} {E : Env ℕ (List α)} {vs : List (List α)}
    (hread : readAll E n.inputs = some vs) (hM : ∀ i ∈ n.inputs, M (tensorVar i) = E i) :
    ∃ M', runBody sem files M f.body = some M' ∧
      M' (tensorVar n.output) = some (nodeMeaning sem G.graph n vs) ∧
      (nodeMeaning sem G.graph n vs).length = (G.graph.shapeOf n.output).numel ∧
      ∀ i ≠ n.output, M' (tensorVar i) = M (tensorVar i) := by
  obtain ⟨inT, outT, -, -, hemit⟩ := nodeToFragment_emitted hf
  have hins : n.inputs = x :: n.inputs.tail := (List.cons_head?_tail hx).symm
  have hgiven : ∀ a ∈ {a | a ∈ tensorVar x :: sideVars n},
      bindArgs (n.inputs.map tensorVar) vs a = M a ∧ (M a).isSome := by
    intro a ha
    obtain ⟨i, hi, rfl⟩ : ∃ i ∈ n.inputs, tensorVar i = a := by
      rw [hins]
      exact List.mem_map.mp (by simpa [sideVars] using ha)
    obtain ⟨v, -, hv⟩ : ∃ v ∈ vs, some v = E i := by
      rw [← List.mem_map, ← readAll_eq_some_iff.mp hread]
      exact List.mem_map_of_mem hi
    rw [bindArgs_eq hread i hi, hM i hi, ← hv]
    exact ⟨rfl, rfl⟩
  have hcode : ∀ s ∈ f.body, sem (s.code files) = sem (s.code (contentOf entries)) := by
    refine fun s hs => congrArg sem (code_congr fun r hr => hfiles _ ?_)
    refine nodeRefs_named G.wf hn inT.shape outT.shape r ?_
    rw [← hemit.refs_eq]
    exact List.mem_flatMap.mpr ⟨s, hs, hr⟩
  -- alone, and then among the other statements
  obtain ⟨alone, halone⟩ : ∃ alone, runBody sem (contentOf entries)
      (bindArgs (n.inputs.map tensorVar) vs) f.body = some alone :=
    hemit.wellScoped.run_total fun a ha => (hgiven a ha).1 ▸ (hgiven a ha).2
  obtain ⟨M', hrun, hagree⟩ := hemit.wellScoped.run_congr (fun a ha => (hgiven a ha).1) halone
  have hrun' : runBody sem files M f.body = some M' := (run_sem_congr hcode M).trans hrun
  obtain ⟨result, hlast, hdims⟩ := Option.map_eq_some_iff.mp hemit.declares
  obtain ⟨mid, ws, -, hvalue⟩ := run_last hlast hrun
  have hvar : result.var = tensorVar n.output := by
    obtain ⟨suffixes, -, hvars⟩ := hemit.vars
    have := congrArg List.getLast? hvars
    rw [List.getLast?_map, hlast, List.getLast?_concat] at this
    exact Option.some.inj this
  rw [hvar] at hvalue
  have hmeaning : nodeMeaning sem G.graph n vs = sem (result.code (contentOf entries)) ws := by
    have hhead : n.inputs.headD kInvalidTensorId = x := by rw [hins]; rfl
    rw [nodeMeaning, nodeValue, hhead, hf, he]
    show ((runBody sem (contentOf entries) (bindArgs (n.inputs.map tensorVar) vs) f.body).bind
      (· f.outputName)).getD [] = _
    rw [halone, Option.bind_some, hemit.outputName_eq,
      hagree _ (Or.inr (output_mem_vars hemit)), hvalue]
    rfl
  refine ⟨M', hrun', by rw [hvalue, hmeaning], ?_, fun i hi => ?_⟩
  · obtain ⟨f', hf', hs'⟩ := nodeToFragment_ok (F := F) G (tensorVar x) (tensorVar n.output) hn
      (lowerable_of_ok G hn hf)
    obtain rfl : f = f' := Except.ok.inj (hf.symm.trans hf')
    have hv := G.wf.shapeOf_valid (G.wf.output_lt n hn)
    have hnum := hv.numel_eq
    rw [hmeaning, length_of_typed hsem]
    show result.type.dims.prod.toNat = _
    rw [hdims, hs', hshape, TensorShape.dims, hv.batch_eq, hv.height_eq]
    simp only [List.prod_cons, List.prod_nil, one_mul, mul_one]
    omega
  · refine run_frame hrun' fun hmem => ?_
    rcases mem_vars_of_emitted hemit hmem with h | ⟨s, h⟩
    · exact hi (tensorVar_injective h)
    · exact tensorVar_ne_temporary _ _ _ h

/-! ## A chain of nodes -/

/-- **A chain.**  The statements of a chain compute what its nodes mean, one after another. -/
lemma chain_run (G : AcceptedGraph) (hsem : sem.Typed)
    {files : String → Option (List UInt8)} : ∀ {ms : List GraphNode}
    {fs : List (MilFragment F)} {entries : List WeightEntry} {x : ℕ} {A : Set ℕ}
    {M : Env String (List α)} {E E' : Env ℕ (List α)},
    LoweredNodes G.graph (tensorVar x) ms fs entries → (∀ m ∈ ms, m ∈ G.graph.nodes) →
    (∀ m ∈ ms, DeclaresFragment G.graph m) →
    (∀ m ∈ ms, ∀ es, weightEntries G.graph m = .ok es → ∀ file,
      file = "" ∨ NamedAfter m.id file → files file = contentOf es file) →
    Chained GraphNode.output GraphNode.inputs x ms → x ∈ A →
    (∀ m ∈ ms, ∀ i ∈ m.inputs.tail, i ∈ A) → (∀ i ∈ A, M (tensorVar i) = E i) →
    run (·.output) (·.inputs) (nodeMeaning sem G.graph) E ms = some E' →
    ∃ M', runBody sem files M (fs.flatMap (·.body)) = some M' ∧
      (∀ i, i ∈ A ∨ i ∈ ms.map (·.output) → M' (tensorVar i) = E' i) ∧
      ∀ i ∈ ms.map (·.output), ∃ v, E' i = some v ∧ v.length = (G.graph.shapeOf i).numel
  | [], _, _, x, A, M, E, E', .nil _, _, _, _, _, _, _, hME, hrun => by
      obtain rfl := Option.some.inj hrun
      exact ⟨M, rfl, fun i hi => hME i (by simpa using hi), by simp⟩
  | n :: ms, _, _, x, A, M, E, E', .cons hf he hrest, hms, hshapes, hfiles, hch, hx, hsides,
      hME, hrun => by
      obtain ⟨E₁, hexec, hrun⟩ := Option.bind_eq_some_iff.mp hrun
      obtain ⟨vs, hvs, rfl⟩ := Option.map_eq_some_iff.mp hexec
      have hn := List.mem_cons_self (a := n) (l := ms)
      have hins : n.inputs = x :: n.inputs.tail := (List.cons_head?_tail hch.1).symm
      have hA : ∀ i ∈ n.inputs, i ∈ A := by
        intro i hi
        rw [hins] at hi
        rcases List.mem_cons.mp hi with rfl | hi
        · exact hx
        · exact hsides n hn i hi
      obtain ⟨M₁, hM₁, hvalue, hlen, hframe⟩ := node_run G (hms n hn) hch.1 hf he
        (hfiles n hn _ he) hsem (hshapes n hn) hvs fun i hi => hME i (hA i hi)
      have hME₁ : ∀ i ∈ insert n.output A, M₁ (tensorVar i) =
          Function.update E n.output (some (nodeMeaning sem G.graph n vs)) i := by
        intro i hi
        by_cases hin : i = n.output
        · rw [hin, hvalue, Function.update_self]
        · rw [hframe i hin, Function.update_of_ne hin]
          exact hME i (hi.resolve_left hin)
      have htail : ∀ {m}, m ∈ ms → m ∈ n :: ms := fun hm => List.mem_cons_of_mem n hm
      obtain ⟨M', hM', hagree, hlens⟩ := chain_run G hsem hrest (fun m hm => hms m (htail hm))
        (fun m hm => hshapes m (htail hm)) (fun m hm => hfiles m (htail hm)) hch.2
        (Set.mem_insert _ _) (fun m hm i hi => Or.inr (hsides m (htail hm) i hi)) hME₁ hrun
      refine ⟨M', ?_, fun i hi => hagree i ?_, fun i hi => ?_⟩
      · rw [List.flatMap_cons, runBody, run_append]
        exact Option.bind_eq_some_iff.mpr ⟨M₁, hM₁, hM'⟩
      · rw [List.map_cons, List.mem_cons] at hi
        rcases hi with hi | rfl | hi
        · exact Or.inl (Set.mem_insert_of_mem _ hi)
        · exact Or.inl (Set.mem_insert _ _)
        · exact Or.inr hi
      · by_cases hlater : i ∈ ms.map (·.output)
        · exact hlens i hlater
        · obtain rfl : i = n.output := (List.mem_cons.mp hi).resolve_right hlater
          refine ⟨_, ?_, hlen⟩
          rw [run_frame hrun hlater, Function.update_self]

/-- The result of a chain is that of its last node. -/
lemma LoweredNodes.result_eq {chainVar : String} {ms : List GraphNode}
    {fs : List (MilFragment F)} {entries : List WeightEntry}
    (h : LoweredNodes g chainVar ms fs entries) :
    fs.getLast?.map (·.outputName) = ms.getLast?.map fun m => tensorVar m.output := by
  induction h with
  | nil => rfl
  | @cons chainVar n rest f fs entries more hf he hrest ih =>
      obtain ⟨inT, outT, -, -, hemit⟩ := nodeToFragment_emitted hf
      cases hrest with
      | nil => simp [hemit.outputName_eq]
      | cons hf' he' hrest' => simpa [List.getLast?_cons_cons] using ih

end MilBackend

namespace GraphExecutor

open GraphCompiler MilBackend

variable {F : Type} [MilFloat F] {α : Type}

/-- **The hardware runs MIL.**  For a group that was lowered to a single-assignment function, the
elements of a request's result are those of the value of that function, its parameters being given
the surfaces in the order of their names. -/
def RunsMil (sem : MilSem F α) (device : Device α) (g : AneGraph) (group : CompiledPlanGroup) :
    Prop :=
  ∀ lowered : LoweredGroup F, lowerGroup g group.toFusionGroup = .ok lowered →
    (assemble lowered.inputs lowered.fragments).SingleAssignment →
    ∀ vs value, (assemble lowered.inputs lowered.fragments).eval sem
        (contentOf group.program.weights) vs = some value →
      ∀ i x, value[i]? = some x → device.evaluate group.program vs i = x

/-- The value of a graph input in a call. -/
def callValue (g : AneGraph) (cg : CompiledGraph) (call : ExecuteCall α) (id : ℕ) : List α :=
  (assign g (fun _ => none) (arguments cg call) id).getD []

/-- The elements of a tensor, all of them. -/
lemma logical_eq {s : TensorShape} {data : ℕ → α} {v : List α} (hlen : v.length = s.numel)
    (hdata : ∀ i x, v[i]? = some x → data i = x) : logical s data = v := by
  refine List.ext_getElem? fun i => ?_
  by_cases hi : i < s.numel
  · obtain ⟨x, hx⟩ : ∃ x, v[i]? = some x := ⟨_, List.getElem?_eq_getElem (hlen ▸ hi)⟩
    rw [logical, List.getElem?_map, List.getElem?_range hi, hx, Option.map_some, hdata i x hx]
  · rw [logical, List.getElem?_eq_none (by simpa using hi), List.getElem?_eq_none (by omega)]

/-- Assigning values undefines nothing else. -/
lemma assign_eq_none {g : AneGraph} {id : ℕ} : ∀ {args : List (ℕ × (ℕ → α) × ℕ)}
    {E : Env ℕ (List α)}, E id = none → id ∉ args.map Prod.fst → assign g E args id = none
  | [], _, hE, _ => hE
  | (tid, ptr, nbytes) :: args, E, hE, hid => by
      rw [List.map_cons, List.mem_cons, not_or] at hid
      rw [assign]
      exact assign_eq_none (by rwa [Function.update_of_ne hid.1]) hid.2

/-- The values that a call assigns are those of the graph inputs, and no others. -/
lemma assign_arguments {g : AneGraph} {cg : CompiledGraph} {call : ExecuteCall α}
    (hcounts : countsMatch cg call) (hids : cg.graphInputIds = g.graphInputs) :
    assign g (fun _ => none) (arguments cg call) =
      FusionRules.inputEnv g (callValue g cg call) := by
  obtain ⟨hptrs, hbytes, -⟩ := hcounts
  have hargs : (arguments cg call).map Prod.fst = g.graphInputs := by
    rw [arguments, List.map_fst_zip (by simp [hptrs, hbytes]), hids]
  funext i
  by_cases hi : i ∈ g.graphInputs
  · obtain ⟨v, hv⟩ := Option.isSome_iff_exists.mp
      (assign_isSome (g := g) (E := fun _ => none) (Or.inr (hargs ▸ hi)))
    rw [FusionRules.inputEnv, if_pos hi, callValue, hv]
    rfl
  · rw [FusionRules.inputEnv, if_neg hi, assign_eq_none rfl (hargs ▸ hi)]

variable {sem : MilSem F α} {device : Device α} {cg : CompiledGraph} {group : CompiledPlanGroup}

/-- **One group.**  The program of a group computes what the nodes of the group mean, one after
another. -/
lemma group_summary (G : AcceptedGraph) {fw : AneFramework}
    (hc : Compiled (MilBackend F fw) G.graph cg) (hsem : sem.Typed) (hmem : group ∈ cg.groups)
    (hshapes : ∀ m ∈ FusionRules.members G.graph group.toFusionGroup, DeclaresFragment G.graph m)
    (hsorted : (group.inputs.map tensorVar).Pairwise (· < ·))
    (hdevice : RunsMil sem device G.graph group) {E E' : Env ℕ (List α)} {vs : List (List α)}
    (hrun : run (·.output) (·.inputs) (nodeMeaning sem G.graph) E
      (FusionRules.members G.graph group.toFusionGroup) = some E')
    (hread : readAll E group.inputs = some vs) :
    E' group.output = some (groupValue device G.graph group vs) := by
  obtain ⟨S⟩ := FusionRules.exists_schedule G.wf
  have hgroups : S.groups = cg.groups.map (·.toFusionGroup) :=
    Except.ok.inj (S.computed.symm.trans hc.groups_eq)
  have hgrouped := S.grouped (hgroups ▸ List.mem_map_of_mem hmem)
  obtain ⟨k, hk⟩ := List.mem_iff_getElem?.mp hmem
  obtain ⟨lowered, hlower, hl, -, hweights, -, -⟩ :=
    compileGroup_some G.wf hgrouped (hc.program_eq k group hk)
  have hnames := noParamNames G.wf hgrouped (hc.program_eq k group hk)
  obtain ⟨hids, hms⟩ := hgrouped.resolves
  have hne : ∀ m ∈ FusionRules.members G.graph group.toFusionGroup, m.inputs ≠ [] :=
    fun m hm => G.inputs_ne_nil (hms m hm)
  obtain ⟨chain, hchain, hnodes⟩ := hl.nodes
  -- the parameters, sorted, are the inputs in the order in which they are handed over
  have hparams : (assemble lowered.inputs lowered.fragments).params.map (·.varName) =
      group.inputs.map tensorVar :=
    hl.perm_params.eq_of_pairwise' sortedNames_sortInputs (hsorted.imp le_of_lt)
  have hinputs : group.inputs.Nodup := List.Nodup.of_map _ (hsorted.imp ne_of_lt)
  obtain ⟨M', hM', hagree, hlens⟩ := chain_run G hsem (A := {i | i ∈ group.inputs}) hnodes hms
    hshapes (fun m hm es hes file hfile => hnodes.contentOf_eq G.wf hms
      (ids_nodup_of_grouped G.wf hgrouped) hm hes hfile)
    (hgrouped.chained hne chain hchain) (List.mem_of_mem_head? hchain)
    (tail_mem_inputs hgrouped) (bindArgs_eq hread) hrun
  obtain ⟨last, hlast⟩ : ∃ last,
      (FusionRules.members G.graph group.toFusionGroup).getLast? = some last :=
    ⟨_, List.getLast?_eq_some_getLast hgrouped.ne_nil⟩
  have hout : group.output = last.output := hgrouped.output_eq hlast
  have houtmem : group.output ∈
      (FusionRules.members G.graph group.toFusionGroup).map (·.output) :=
    hout ▸ List.mem_map_of_mem (List.mem_of_getLast? hlast)
  obtain ⟨v, hv, hlen⟩ := hlens _ houtmem
  have hresult : (assemble lowered.inputs lowered.fragments).result = tensorVar group.output := by
    rw [assemble, hnodes.result_eq, hlast, hout]
    rfl
  have heval : (assemble lowered.inputs lowered.fragments).eval sem
      (contentOf group.program.weights) vs = some v := by
    rw [MilFunction.eval, hparams, hresult, hweights]
    exact Option.bind_eq_some_iff.mpr ⟨M', hM', (hagree _ (Or.inr houtmem)).trans hv⟩
  rw [hv, groupValue, hnames, reorder_nil, Option.getD_some]
  refine congrArg some (logical_eq hlen fun i x hx => ?_).symm
  exact hdevice lowered hlower (hl.singleAssignment G.wf hinputs) vs v heval i x hx

/-- The groups of a compiled graph, as summaries of their nodes. -/
lemma summariesOk (G : AcceptedGraph) (S : FusionRules.Schedule G.graph) :
    ∀ (after : List CompiledPlanGroup) (before : List FusionGroup),
    S.groups = before ++ after.map (·.toFusionGroup) →
    SummariesOk GraphNode.output (fun c : CompiledPlanGroup => c.output) (fun c => c.inputs)
      (fun c => FusionRules.members G.graph c.toFusionGroup) (FusionRules.kept G.graph before) after
  | [], _, _ => trivial
  | group :: after, before, h => by
      have hok := S.chunkOk G.wf (fun n hn => G.inputs_ne_nil hn) h
      have hkept : insert group.output (FusionRules.kept G.graph before) =
          FusionRules.kept G.graph (before ++ [group.toFusionGroup]) := by
        ext i
        simp only [FusionRules.kept, Set.mem_insert_iff, Set.mem_ofPred_eq, List.mem_append,
          List.mem_singleton, or_and_right, exists_or, exists_eq_left, @eq_comm _ i]
        exact or_comm.trans or_assoc
      refine ⟨⟨hok.externals_kept, hok.fresh, ?_⟩, ?_⟩
      · have hlast : group.output = _ := hok.result_eq hok.body_ne
        show group.output ∈ _
        rw [hlast]
        exact List.mem_map_of_mem (List.getLast_mem hok.body_ne)
      · rw [hkept]
        exact summariesOk G S after (before ++ [group.toFusionGroup]) (by rw [h]; simp)

/-- A dispatch without parameter names ends as the hardware says. -/
lemma dispatchA_ok {d : Dispatch α} {f : Frame α} {surfs : List ℕ} {outBuf : ℕ}
    (hnames : group.program.inputParamNames = [])
    (hsurfs : readAll (bufferOf cg f.tmp) group.inputs = some surfs)
    (hbuf : cg.aneBufs.lookup group.output = some outBuf) (hne : surfs ≠ [])
    (halloc : uniformAlloc f.memory surfs = true) :
    (dispatchA device cg group d f).1 = .ok d.ok := by
  have hreq : request f.memory group.program surfs [outBuf] = some (surfs, [outBuf]) := by
    have hone : uniformAlloc f.memory [outBuf] = true := rfl
    rw [request, if_neg (by simpa using hne), if_neg (by simp [halloc]), if_neg (by simp [hone]),
      hnames, reorder_nil, reorder_singleton]
    rfl
  unfold dispatchA
  simp only [hsurfs, hbuf, hreq]

/-! ## Compiled graphs -/

variable [Zero α] (dirt : ℕ → ℕ → α)

/-- **Compilation preserves meaning.**  Take an accepted graph whose nodes declare the shapes of
their fragments, compiled by `MilBackend` at any time, with any history of calls and of other users
of the pool since, on hardware that runs MIL.  When every group has found its inputs in the order of
their names, a call that returns `true` delivers what the nodes mean, evaluated one after another
on the inputs of the call: fusion, lowering, the naming of variables, the assembly of programs and
their weight files, and the reuse of buffers do not show. -/
theorem compilation_preserves_meaning (G : AcceptedGraph) {fw fw' : AneFramework}
    {now : PoolUsers α} (hnow : Reached dirt device (MilBackend F fw) G.graph fw' cg now)
    (hsem : sem.Typed) (hshapes : ∀ n ∈ G.graph.nodes, DeclaresFragment G.graph n)
    (hsorted : ∀ group ∈ cg.groups, (group.inputs.map tensorVar).Pairwise (· < ·))
    (hdevice : ∀ group ∈ cg.groups, RunsMil sem device G.graph group) (env : Environment α)
    (call : ExecuteCall α) (hok : (execute dirt device cg env now.memory call).1 = .ok true) :
    ∃ final, FusionRules.evalNodes G.graph (nodeMeaning sem G.graph)
        (callValue G.graph cg call) = some final ∧
      readAll final G.graph.graphOutputs =
        some (execute dirt device cg env now.memory call).2.delivered := by
  obtain ⟨hc, ha⟩ := hnow.spec dirt device G.wf
  have hA : ∀ group ∈ cg.groups, group.program.client = none := fun group hmem => by
    obtain ⟨k, hk⟩ := List.mem_iff_getElem?.mp hmem
    exact (compiled_program G hc hk).2.2
  obtain ⟨groupwise, hgroupwise, hdelivered⟩ :=
    (execute_spec dirt device G.wf hc hA env ha call).delivers hok
  obtain ⟨S⟩ := FusionRules.exists_schedule G.wf
  have hgroups : S.groups = cg.groups.map (·.toFusionGroup) :=
    Except.ok.inj (S.computed.symm.trans hc.groups_eq)
  have hstart : ∀ i ∈ {i | i ∈ G.graph.graphInputs},
      (FusionRules.inputEnv G.graph (callValue G.graph cg call) i).isSome := by
    intro i (hi : i ∈ G.graph.graphInputs)
    rw [FusionRules.inputEnv, if_pos hi]
    rfl
  obtain ⟨final, hfinal⟩ : ∃ final, FusionRules.evalNodes G.graph (nodeMeaning sem G.graph)
      (callValue G.graph cg call) = some final :=
    (FusionRules.nodes_wellScoped G.wf).run_total hstart
  refine ⟨final, hfinal, ?_⟩
  have hcounts : countsMatch cg call := by
    by_contra hcounts
    rw [execute, if_neg hcounts] at hok
    cases hok
  have hinput := assign_arguments hcounts hc.graphInputIds_eq
  have hrun : run (·.output) (·.inputs) (nodeMeaning sem G.graph)
      (FusionRules.inputEnv G.graph (callValue G.graph cg call))
      (cg.groups.flatMap fun c => FusionRules.members G.graph c.toFusionGroup) = some final := by
    have hcovers := S.covers
    rw [hgroups, List.flatMap_map] at hcovers
    rw [hcovers]
    exact hfinal
  obtain ⟨K', hK', hagree⟩ := run_summaries (summariesOk G S cg.groups [] (by simpa using hgroups))
    (fun c hcmem E E' vs hE hvs => group_summary G hc hsem hcmem
      (fun m hm => hshapes m (S.member_mem (hgroups ▸ List.mem_map_of_mem hcmem) hm))
      (hsorted c hcmem) (hdevice c hcmem) hE hvs)
    (fun i hi => ⟨rfl, hstart i (by simpa [FusionRules.kept] using hi)⟩) hrun
  rw [← hinput] at hK'
  obtain rfl : groupwise = K' := Option.some.inj (hgroupwise.symm.trans hK')
  rw [← hc.graphOutputIds_eq, ← hdelivered]
  refine readAll_congr fun o ho => ?_
  -- what was delivered has a value, so it is an input or the output of a group
  obtain ⟨v, -, hv⟩ : ∃ v ∈ (execute dirt device cg env now.memory call).2.delivered,
      some v = groupwise o := by
    rw [← List.mem_map, ← readAll_eq_some_iff.mp hdelivered]
    exact List.mem_map_of_mem ho
  by_cases hkept : o ∈ FusionRules.kept G.graph [] ∨
      o ∈ cg.groups.map fun c : CompiledPlanGroup => c.output
  · exact (hagree o hkept).1.symm
  · rw [not_or] at hkept
    rw [run_frame hK' hkept.2, hinput, FusionRules.inputEnv,
      if_neg (by simpa [FusionRules.kept] using hkept.1)] at hv
    cases hv

/-! A group of two nodes, on the device that runs its program. -/

/-- A call on one group goes through when its dispatch does. -/
lemma execute_ok_of_one {env : Environment α} {m : Memory α} {call : ExecuteCall α} {f : Frame α}
    (hd : Dispatches dirt device cg env m call 0 f) (hgroups : cg.groups = [group])
    (hstep : (dispatchGroup device cg group (env.dispatch 0) f).1 = .ok true)
    (hbuf : ∀ id ∈ cg.graphOutputIds, ∃ h, cg.aneBufs.lookup id = some h) :
    (execute dirt device cg env m call).1 = .ok true := by
  obtain ⟨hcounts, hfill⟩ := hd
  have hdispatch : dispatchGroup device cg group (env.dispatch 0) f =
      (.ok true, (dispatchGroup device cg group (env.dispatch 0) f).2) := Prod.ext hstep rfl
  rw [execute, if_pos hcounts, hgroups, List.append_assoc]
  rw [hgroups, List.take_zero] at hfill
  have hfill' : Steps.runAll (fillSteps dirt cg call) { memory := m } = (.ok true, f) := by
    rw [← hfill]
    exact congrArg (Steps.runAll · _) (List.append_nil _).symm
  rw [Steps.runAll_append_of_go hfill']
  show (Steps.runAll (dispatchGroup device cg group (env.dispatch 0) :: copySteps cg call) f).1 = _
  rw [Steps.runAll_cons_of_go hdispatch]
  exact copySteps_go hbuf call _

/-- The device that runs the program of a group. -/
def milDevice (sem : MilSem Unit α) (g : AneGraph) (group : FusionGroup) : Device α where
  evaluate program vs i := (lowerGroup (F := Unit) g group).toOption.elim 0 fun lowered =>
    (((assemble lowered.inputs lowered.fragments).eval sem (contentOf program.weights) vs).getD
      []).getD i 0
  evaluateClient _ x := x

lemma runsMil_milDevice {sem : MilSem Unit α} {g : AneGraph} {group : CompiledPlanGroup} :
    RunsMil sem (milDevice sem g group.toFusionGroup) g group := by
  intro lowered hlower _ vs value hvalue i x hx
  simp only [milDevice, hlower, Except.toOption, Option.elim_some, hvalue, Option.getD_some,
    List.getD_eq_getElem?_getD, hx]

/-- `RELU` of the first input plus the second input. -/
def reluSum : AcceptedGraph where
  graph := AneGraph.build [.AddInput "x" ⟨1, 1, 1, 16⟩, .AddInput "y" ⟨1, 1, 1, 16⟩,
    .AddOp .Relu [0] ⟨1, 1, 1, 16⟩ [], .AddOp .Add [2, 1] ⟨1, 1, 1, 16⟩ [], .MarkOutput 3 ""]
  built := ⟨_, rfl⟩
  accepted := by decide

/-- The two operations of `reluSum`, over the integers. -/
def exactSem : MilSem Unit ℤ := fun c vs => (List.range c.type.elements.toNat).map fun i =>
  match c.rhs with
  | .Op "relu" _ => max 0 ((vs.headD []).getD i 0)
  | .Op "add" _ => (vs.headD []).getD i 0 + (vs.getD 1 []).getD i 0
  | _ => 0

/-- A call that counts down in the first input and up in the second. -/
def downAndUp : ExecuteCall ℤ where
  inputPtrs := [fun i => 8 - i, fun i => i]
  inputBytes := [32, 32]
  outputPtrs := 1
  outputBytes := [32]

/-- Every dispatch succeeds. -/
def succeeds : Environment ℤ where
  dispatch _ := { ok := true, scribble := fun _ => 7 }
  releaseOrder := id
  releaseOrder_perm := List.Perm.refl

theorem compilation_preserves_meaning_reluSum :
    ∃ (cg : CompiledGraph) (now : PoolUsers ℤ) (final : Env ℕ (List ℤ)),
      Reached (fun _ _ => 3) (milDevice exactSem reluSum.graph ⟨[0, 1], [0, 1], 3⟩)
          (MilBackend Unit compilesAll) reluSum.graph compilesAll cg now ∧
        FusionRules.evalNodes reluSum.graph (nodeMeaning exactSem reluSum.graph)
          (callValue reluSum.graph cg downAndUp) = some final ∧
        readAll final [3] = some (execute (fun _ _ => 3)
          (milDevice exactSem reluSum.graph ⟨[0, 1], [0, 1], 3⟩) cg succeeds now.memory
          downAndUp).2.delivered := by
  have hnow : ∃ cg now, Reached (fun _ _ => 3)
        (milDevice exactSem reluSum.graph ⟨[0, 1], [0, 1], 3⟩)
        (MilBackend Unit compilesAll) reluSum.graph compilesAll cg now ∧
      ∃ f group, Dispatches (fun _ _ => 3) (milDevice exactSem reluSum.graph ⟨[0, 1], [0, 1], 3⟩)
          cg succeeds now.memory downAndUp 0 f ∧
        cg.groups = [group] ∧ group.toFusionGroup = ⟨[0, 1], [0, 1], 3⟩ ∧
        readAll (bufferOf cg f.tmp) group.inputs = some [1, 2] ∧
        cg.aneBufs.lookup group.output = some 0 ∧ uniformAlloc f.memory [1, 2] = true ∧
        cg.graphOutputIds = [3] :=
    ⟨_, _, ⟨4, [], _, [], rfl, rfl⟩, _, _, ⟨by decide, rfl⟩, rfl, rfl, rfl, rfl, rfl, rfl⟩
  obtain ⟨cg, now, hr, f, group, hd, hgroups, hgroup, hsurfs, hbuf, halloc, houts⟩ := hnow
  have hk : cg.groups[0]? = some group := by rw [hgroups]; rfl
  obtain ⟨-, hnames, hclient⟩ := compiled_program reluSum (hr.spec _ _ reluSum.wf).1 hk
  have hout : group.output = 3 := by rw [hgroup]
  have hok := execute_ok_of_one _ hd hgroups
    (by rw [dispatchGroup, hclient]; exact dispatchA_ok hnames hsurfs hbuf (by simp) halloc)
    (by rw [houts]; exact fun id hid => ⟨0, by rw [List.mem_singleton.mp hid, ← hout, hbuf]⟩)
  have hsem : exactSem.Typed := fun c vs => by simp [exactSem]
  obtain ⟨final, hfinal, hread⟩ := compilation_preserves_meaning (fun _ _ => 3) reluSum hr hsem
    (by unfold DeclaresFragment; decide)
    (by rw [hgroups]; simp only [List.mem_singleton, forall_eq, hgroup]; decide)
    (by rw [hgroups]
        simp only [List.mem_singleton, forall_eq]
        rw [← hgroup]
        exact runsMil_milDevice) succeeds downAndUp hok
  exact ⟨cg, now, final, hr, hfinal, hread⟩

end GraphExecutor

end Libane
