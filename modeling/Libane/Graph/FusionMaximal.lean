import Libane.Graph.GroupInputs
import Mathlib.Data.List.SplitBy

/-!
# Are the groups maximal?

A group is documented as a maximal linear chain, but only the group that was opened last is ever
extended.  So a chain whose nodes are not inserted one right after the other falls apart.

* `continues` — the second node may join the chain that ends with the first.
* `Schedule.splitBy_members` — the groups are the node list, split wherever neighbours are not
  linked.
* `GroupsMaximal` — no group could have been continued by a later one.
* `groups_maximal_iff` — when that is so, in terms of the insertion order alone.
-/

namespace Libane

open GraphValidator

namespace FusionRules

/-! ## The groups as stretches -/

/-- `b` is supported, reads the output of `a` as its first operand, and nothing else uses it. -/
def continues (g : AneGraph) (a b : GraphNode) : Bool :=
  opSupported b.op && (b.inputs.head? = some a.output) && (uses g a.output = 1)

lemma continues_iff {g : AneGraph} {a b : GraphNode} : continues g a b = true ↔
    opSupported b.op = true ∧ b.inputs.head? = some a.output ∧ uses g a.output = 1 := by
  simp [continues, and_assoc]

/-- The members of a group are linked. -/
lemma Grouped.isChain {g : AneGraph} {group : FusionGroup} {ms : List GraphNode}
    (h : Grouped g group ms) : ms.IsChain fun a b => continues g a b := by
  induction h with
  | start n hn => exact .singleton n
  | extend group ms last n hn hlast hext h ih =>
      refine List.isChain_append.mpr ⟨ih, .singleton n, ?_⟩
      rintro a ha b ⟨rfl⟩
      obtain rfl : last = a := Option.some.inj (hlast.symm.trans ha)
      exact continues_iff.mpr ⟨hext.supported, hext.head_eq, hext.uses_eq⟩

section Schedule

variable {g : AneGraph} (hg : g.Wf) (S : Schedule g)

include hg

/-- **The decision of the source.**  Of a group of the schedule and any node, `can_extend` says
whether the node is linked to the last member. -/
lemma Schedule.canExtend_iff {group : FusionGroup} (hmem : group ∈ S.groups) {last n : GraphNode}
    (hlast : (members g group).getLast? = some last) (hn : n ∈ g.nodes) :
    canExtend g group n.id (buildConsumerCount g) = .ok true ↔ continues g last n := by
  have hgroup := S.grouped hmem
  obtain ⟨b, hb, hext⟩ := canExtend_eq hg hgroup.resolves hlast hn
  rw [hb, Except.ok.injEq, hext, continues_iff]
  constructor
  · exact fun h => ⟨h.supported, h.head_eq, h.uses_eq⟩
  · rintro ⟨hop, hhead, huses⟩
    exact DirectlyAfter.extends hg hn hop hgroup hlast hhead huses

/-- The first member of a group does not continue the group before. -/
lemma Schedule.apart : (S.groups.map (members g)).IsChain fun ms ms' =>
    ∃ h h', continues g (ms.getLast h) (ms'.head h') = false := by
  refine (S.separate hg).imp_of_mem_imp fun ms ms' hms hms' hsep => ?_
  obtain ⟨G, hG, rfl⟩ := List.mem_map.mp hms
  obtain ⟨H, hH, rfl⟩ := List.mem_map.mp hms'
  have hgroup := S.grouped hG
  have hne := (S.grouped hH).ne_nil
  refine ⟨hgroup.ne_nil, hne, Bool.eq_false_iff.mpr fun hcont => ?_⟩
  obtain ⟨hop, hhead, huses⟩ := continues_iff.mp hcont
  have hlast := List.getLast?_eq_some_getLast hgroup.ne_nil
  have hn : (members g H).head hne ∈ g.nodes := S.member_mem hH (List.head_mem hne)
  exact hsep _ _ hlast (List.head?_eq_some_head hne)
    (DirectlyAfter.extends hg hn hop hgroup hlast hhead huses)

/-- **The groups are the stretches of linked neighbours.** -/
theorem Schedule.splitBy_members {before after : List FusionGroup}
    (h : S.groups = before ++ after) :
    (after.flatMap (members g)).splitBy (continues g) = after.map (members g) := by
  have hmem : ∀ group ∈ after, group ∈ S.groups := fun group hgroup =>
    h ▸ List.mem_append_right _ hgroup
  have hapart := S.apart hg
  rw [h, List.map_append] at hapart
  rw [List.flatMap_def]
  refine List.splitBy_flatten (fun hnil => ?_) (fun ms hms => ?_) hapart.right_of_append
  · obtain ⟨group, hgroup, hnil⟩ := List.mem_map.mp hnil
    exact (S.grouped (hmem group hgroup)).ne_nil hnil
  · obtain ⟨group, hgroup, rfl⟩ := List.mem_map.mp hms
    exact (S.grouped (hmem group hgroup)).isChain

end Schedule

/-! ## Maximality -/

/-- No group could have been continued by the first member of a later one, except where the two
together would read what a group between them produces. -/
def GroupsMaximal (g : AneGraph) (groups : List FusionGroup) : Prop :=
  ∀ before G between H after first, groups = before ++ G :: (between ++ H :: after) →
    H.nodeIds.head? = some first → canExtend g G first (buildConsumerCount g) = .ok true →
    ∃ K ∈ between, K.output ∈ G.inputs ++ H.inputs

/-- The first of these nodes, and those that continue it one right after the other. -/
def stretch (g : AneGraph) (ns : List GraphNode) : List GraphNode :=
  (ns.splitBy (continues g)).headD []

/-- **Chains in one piece.**  A node that continues one that was not inserted right before it, or
a node of the stretch that it begins, reads something that was inserted in between. -/
def ChainsInOnePiece (g : AneGraph) : Prop :=
  ∀ before p between n after, g.nodes = before ++ p :: (between ++ n :: after) → between ≠ [] →
    continues g p n → ∃ k ∈ between, ∃ m ∈ stretch g (n :: after), k.output ∈ m.inputs

section Schedule

variable {g : AneGraph} (hg : g.Wf) (S : Schedule g)

include hg

/-- What a later group reads from the groups in between, its members read from their members; the
earlier group reads nothing from them. -/
lemma Schedule.reads_between_iff {before between after : List FusionGroup} {G H : FusionGroup}
    (h : S.groups = before ++ G :: (between ++ H :: after)) :
    (∃ K ∈ between, K.output ∈ G.inputs ++ H.inputs) ↔
      ∃ k ∈ between.flatMap (members g), ∃ m ∈ members g H, k.output ∈ m.inputs := by
  have hG : G ∈ S.groups := by rw [h]; simp
  have hH : H ∈ S.groups := by rw [h]; simp
  have hbetween : ∀ K ∈ between, K ∈ S.groups := fun K hK => by rw [h]; simp [hK]
  constructor
  · rintro ⟨K, hK, hread⟩
    have hgroup := S.grouped (hbetween K hK)
    have hlast := List.getLast_mem hgroup.ne_nil
    have hout := hgroup.output_eq (List.getLast?_eq_some_getLast hgroup.ne_nil)
    rcases List.mem_append.mp hread with hread | hread
    · -- outputs grow from group to group, and a node reads smaller ones
      obtain ⟨⟨m, hm, hmread⟩, -⟩ := ((S.grouped hG).mem_inputs_iff hg _).mp hread
      have hlt := hg.input_lt_output m (S.member_mem hG hm) _ hmread
      have hgt := (S.output_lt_of_split hg h).2 K (by simp [hK]) _ hlast m hm
      omega
    · obtain ⟨⟨m, hm, hmread⟩, -⟩ := ((S.grouped hH).mem_inputs_iff hg _).mp hread
      exact ⟨_, List.mem_flatMap.mpr ⟨K, hK, hlast⟩, m, hm, hout ▸ hmread⟩
  · rintro ⟨k, hk, m, hm, hread⟩
    obtain ⟨K, hK, hk⟩ := List.mem_flatMap.mp hk
    have hsplit : S.groups = (before ++ G :: between) ++ H :: after := by rw [h]; simp
    have hnot : k.output ∉ (members g H).map (·.output) := by
      intro hout
      obtain ⟨m', hm', heq⟩ := List.mem_map.mp hout
      have hlt := (S.output_lt_of_split hg hsplit).1 K (by simp [hK]) k hk m' hm'
      omega
    have hinput := ((S.grouped hH).mem_inputs_iff hg _).mpr ⟨⟨m, hm, hread⟩, hnot⟩
    refine ⟨K, hK, List.mem_append_right _ ?_⟩
    rwa [S.output_of_input hg hH (hbetween K hK) hinput hk rfl]

/-- Of chains in one piece, the groups are maximal. -/
lemma Schedule.groupsMaximal (hpieces : ChainsInOnePiece g) : GroupsMaximal g S.groups := by
  intro before G between H after first h hfirst hext
  have hG : G ∈ S.groups := by rw [h]; simp
  have hH : H ∈ S.groups := by rw [h]; simp
  have hsplit : S.groups = (before ++ G :: between) ++ H :: after := by rw [h]; simp
  obtain ⟨init, p, hp⟩ : ∃ init p, members g G = init ++ [p] :=
    (List.eq_nil_or_concat' _).resolve_left (S.grouped hG).ne_nil
  obtain ⟨n, rest, hn⟩ := List.exists_cons_of_ne_nil (S.grouped hH).ne_nil
  have hnn : n ∈ g.nodes := S.member_mem hH (by rw [hn]; simp)
  have hid : n.id = first := by
    rw [(S.grouped hH).resolves.1, hn] at hfirst
    simpa using hfirst
  have hcont : continues g p n :=
    (S.canExtend_iff hg hG (by rw [hp]; simp) hnn).mp (hid ▸ hext)
  have hnodes : g.nodes = (before.flatMap (members g) ++ init) ++ p ::
      (between.flatMap (members g) ++ n :: (rest ++ after.flatMap (members g))) := by
    rw [← S.covers, h]
    simp [hp, hn]
  have hne : between.flatMap (members g) ≠ [] := by
    intro hnil
    cases between with
    | nil =>
        have hapart := S.apart hg
        rw [h, List.map_append] at hapart
        obtain ⟨hl, hr, hfalse⟩ := (List.isChain_cons_cons.mp hapart.right_of_append).1
        simp [hp, hn, hcont] at hfalse
    | cons K between =>
        rw [List.flatMap_cons, List.append_eq_nil_iff] at hnil
        exact (S.grouped (by rw [h]; simp)).ne_nil hnil.1
  have hstretch : stretch g (n :: (rest ++ after.flatMap (members g))) = members g H := by
    have hafter := S.splitBy_members hg hsplit
    rw [List.flatMap_cons, hn] at hafter
    rw [stretch, ← List.cons_append, hafter, List.map_cons, List.headD_cons]
  obtain ⟨k, hk, m, hm, hread⟩ := hpieces _ p _ n _ hnodes hne hcont
  exact (S.reads_between_iff hg h).mpr ⟨k, hk, m, hstretch ▸ hm, hread⟩

/-- Around a pair of nodes that were not inserted one right after the other, the second of which
continues the first, the node list is split into groups. -/
lemma splitBy_around {before between after : List GraphNode} {p n : GraphNode}
    (h : g.nodes = before ++ p :: (between ++ n :: after)) (hne : between ≠ [])
    (hcont : continues g p n) : g.nodes.splitBy (continues g) =
      (before ++ [p]).splitBy (continues g) ++
        (between.splitBy (continues g) ++ (n :: after).splitBy (continues g)) := by
  have hnodup := nodes_nodup hg
  obtain ⟨-, hhead, huses⟩ := continues_iff.mp hcont
  have hp : p ∈ g.nodes := by rw [h]; simp
  have hn : n ∈ g.nodes := by rw [h]; simp
  have hmid : ∀ b ∈ between, b ∈ g.nodes ∧ b ≠ p ∧ b ≠ n := by
    intro b hb
    rw [h] at hnodup ⊢
    obtain ⟨hpmid, hrest⟩ := List.nodup_cons.mp (List.nodup_append.mp hnodup).2.1
    refine ⟨by simp [hb], ?_, (List.nodup_append.mp hrest).2.2 b hb n List.mem_cons_self⟩
    rintro rfl
    exact hpmid (List.mem_append_left _ hb)
  have honly := (uses_eq_one hn (List.mem_of_mem_head? hhead) huses).2.1
  have hfirst : ∀ a ∈ (before ++ [p]).getLast?, ∀ b ∈ (between ++ n :: after).head?,
      continues g a b = false := by
    intro a ha b hb
    obtain rfl : p = a := by simpa using ha
    rw [List.head?_append_of_ne_nil _ hne] at hb
    obtain ⟨hbn, -, hbn'⟩ := hmid b (List.mem_of_mem_head? hb)
    refine Bool.eq_false_iff.mpr fun hcont' => hbn' (honly b hbn ?_)
    exact List.mem_of_mem_head? (continues_iff.mp hcont').2.1
  have hsecond : ∀ q ∈ between.getLast?, continues g q n = false := by
    intro q hq
    obtain ⟨hqn, hqp, -⟩ := hmid q (List.mem_of_mem_getLast? hq)
    refine Bool.eq_false_iff.mpr fun hcont' => hqp (eq_of_output_eq hg hqn hp ?_)
    exact Option.some.inj ((continues_iff.mp hcont').2.1.symm.trans hhead)
  have hsplit : g.nodes = (before ++ [p]) ++ (between ++ n :: after) := by rw [h]; simp
  rw [hsplit, List.splitBy_append hfirst, List.splitBy_append_cons after hsecond]

/-- Where the groups are maximal, the chains are in one piece. -/
lemma Schedule.chainsInOnePiece (hmax : GroupsMaximal g S.groups) : ChainsInOnePiece g := by
  intro before p between n after h hne hcont
  have hall := S.splitBy_members hg (List.nil_append S.groups).symm
  rw [S.covers, splitBy_around hg h hne hcont] at hall
  obtain ⟨l, l', hgroups, hl, hl'⟩ := List.map_eq_append_iff.mp hall.symm
  obtain ⟨mid, r, rfl, hmid, hr⟩ := List.map_eq_append_iff.mp hl'
  -- the nodes that the three parts of the schedule stand for
  have hflat : ∀ {groups : List FusionGroup} {ns : List GraphNode},
      groups.map (members g) = ns.splitBy (continues g) → groups.flatMap (members g) = ns :=
    fun hsplit => by rw [List.flatMap_def, hsplit, List.flatten_splitBy]
  obtain ⟨init, G, rfl⟩ : ∃ init G, l = init ++ [G] := by
    refine (List.eq_nil_or_concat' l).resolve_left ?_
    rintro rfl
    simpa using hflat hl
  obtain ⟨H, rest, rfl⟩ : ∃ H rest, r = H :: rest := by
    refine List.exists_cons_of_ne_nil ?_
    rintro rfl
    simpa using hflat hr
  have hsplit : S.groups = init ++ G :: (mid ++ H :: rest) := by rw [hgroups]; simp
  have hG : G ∈ S.groups := by rw [hsplit]; simp
  have hH : H ∈ S.groups := by rw [hsplit]; simp
  have hlast : (members g G).getLast? = some p := by
    have hend := congrArg List.getLast? (hflat hl)
    rw [List.flatMap_append, List.flatMap_singleton,
      List.getLast?_append_of_ne_nil _ (S.grouped hG).ne_nil] at hend
    simpa using hend
  have hhead : (members g H).head? = some n := by
    have hstart := congrArg List.head? (hflat hr)
    rwa [List.flatMap_cons, List.head?_append_of_ne_nil _ (S.grouped hH).ne_nil] at hstart
  have hstretch : stretch g (n :: after) = members g H := by
    rw [stretch, ← hr, List.map_cons, List.headD_cons]
  have hid : H.nodeIds.head? = some n.id := by
    rw [(S.grouped hH).resolves.1, List.head?_map, hhead]
    rfl
  have hext := (S.canExtend_iff hg hG hlast (by rw [h]; simp)).mpr hcont
  have hread := (S.reads_between_iff hg hsplit).mp (hmax _ _ _ _ _ _ hsplit hid hext)
  rwa [hflat hmid, ← hstretch] at hread

end Schedule

/-- **When the groups are maximal.**  For every accepted graph, there are as many groups as there
are stretches of nodes that continue one another; and no two groups could have been one, save
where something in between is needed, if and only if the chains were inserted in one piece. -/
theorem groups_maximal_iff (G : AcceptedGraph) : ∃ groups, computeGroups G.graph = .ok groups ∧
    groups.length = (G.graph.nodes.splitBy (continues G.graph)).length ∧
    (GroupsMaximal G.graph groups ↔ ChainsInOnePiece G.graph) := by
  obtain ⟨S⟩ := exists_schedule G.wf
  refine ⟨S.groups, S.computed, ?_, S.chainsInOnePiece G.wf, S.groupsMaximal G.wf⟩
  have hall := congrArg List.length (S.splitBy_members G.wf (List.nil_append _).symm)
  rwa [S.covers, List.length_map, eq_comm] at hall

/-- Two chains of two nodes, inserted in turns. -/
def interleaved : AneGraph :=
  AneGraph.build [.AddInput "x" ⟨1, 1, 1, 16⟩, .AddInput "y" ⟨1, 1, 1, 16⟩,
    .AddOp .Relu [0] ⟨1, 1, 1, 16⟩ [], .AddOp .Relu [1] ⟨1, 1, 1, 16⟩ [],
    .AddOp .Tanh [2] ⟨1, 1, 1, 16⟩ [], .AddOp .Tanh [3] ⟨1, 1, 1, 16⟩ [],
    .MarkOutput 4 "", .MarkOutput 5 ""]

/-- The same two chains, one after the other. -/
def consecutive : AneGraph :=
  AneGraph.build [.AddInput "x" ⟨1, 1, 1, 16⟩, .AddInput "y" ⟨1, 1, 1, 16⟩,
    .AddOp .Relu [0] ⟨1, 1, 1, 16⟩ [], .AddOp .Tanh [2] ⟨1, 1, 1, 16⟩ [],
    .AddOp .Relu [1] ⟨1, 1, 1, 16⟩ [], .AddOp .Tanh [4] ⟨1, 1, 1, 16⟩ [],
    .MarkOutput 3 "", .MarkOutput 5 ""]

/-- Four dispatches instead of two. -/
theorem interleaved_chains_fall_apart : validate interleaved = .ok [] ∧
    ∃ groups, computeGroups interleaved = .ok groups ∧ ¬ GroupsMaximal interleaved groups ∧
      groups.length = 4 ∧
      ∃ groups', computeGroups consecutive = .ok groups' ∧ groups'.length = 2 := by
  refine ⟨by decide, _, rfl, fun hmax => ?_, rfl, _, rfl, rfl⟩
  obtain ⟨K, hK, hread⟩ := hmax [] _ [_] _ [_] 2 rfl rfl (by decide)
  obtain rfl := List.mem_singleton.mp hK
  exact absurd hread (by decide)

end FusionRules

end Libane
