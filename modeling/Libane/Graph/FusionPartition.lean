import Libane.Graph.Fusion

/-!
# The fusion partition

What the greedy loop guarantees about every group it returns, for every accepted graph.

* `uses_eq_one` — a tensor used once has one reader, reads once, and is not marked.
* `Grouped.mem_inputs_iff` — the listed inputs are exactly the tensors that members read and no
  member produces.  The loop checks only the second operand against the group; that the third
  operand of `SELECT` never comes from inside is a consequence of the consumer count.
* `Grouped.fused_or_last` — a member's output is the group's output or is read by the next member
  and by nothing else.
* `Schedule` — the groups of an accepted graph with the nodes they stand for, and the facts about
  them that everything downstream uses.
* `fusion_partition` — the partition theorem.
-/

namespace Libane

namespace FusionRules

/-! ## Counting uses -/

section Uses

variable {g : AneGraph}

lemma nodes_nodup (hg : g.Wf) : g.nodes.Nodup :=
  List.Nodup.of_map _ (hg.output_strictMono.imp fun h => ne_of_lt h)

/-- A node is determined by its output. -/
lemma eq_of_output_eq (hg : g.Wf) {A B : GraphNode} (hA : A ∈ g.nodes) (hB : B ∈ g.nodes)
    (h : A.output = B.output) : A = B :=
  List.inj_on_of_nodup_map (hg.output_strictMono.imp fun h => ne_of_lt h) hA hB h

/-- The reads of one node are among the uses. -/
lemma count_inputs_le_uses {A : GraphNode} (hA : A ∈ g.nodes) (i : ℕ) :
    A.inputs.count i + g.graphOutputs.count i ≤ uses g i := by
  have hperm := (List.perm_cons_erase hA).flatMap_right (·.inputs)
  rw [uses, hperm.count_eq, List.flatMap_cons, List.count_append]
  omega

/-- The reads of two different nodes are all among the uses. -/
lemma count_two_inputs_le_uses {A B : GraphNode} (hA : A ∈ g.nodes) (hB : B ∈ g.nodes)
    (hAB : B ≠ A) (i : ℕ) : A.inputs.count i + B.inputs.count i ≤ uses g i := by
  have hB' : B ∈ g.nodes.erase A := (List.mem_erase_of_ne hAB).mpr hB
  have hperm := ((List.perm_cons_erase hA).trans
    ((List.perm_cons_erase hB').cons A)).flatMap_right (·.inputs)
  rw [uses, hperm.count_eq, List.flatMap_cons, List.flatMap_cons, List.count_append,
    List.count_append]
  omega

/-- **A tensor used once.**  The node that reads it is its only reader, reads it once, and the
tensor is not marked as an output. -/
lemma uses_eq_one {A : GraphNode} {i : ℕ} (hA : A ∈ g.nodes) (hi : i ∈ A.inputs)
    (h : uses g i = 1) : A.inputs.count i = 1 ∧ (∀ B ∈ g.nodes, i ∈ B.inputs → B = A) ∧
      i ∉ g.graphOutputs := by
  have hpos := List.count_pos_iff.mpr hi
  have hle := count_inputs_le_uses hA i
  refine ⟨by omega, fun B hB hiB => ?_, fun hout => ?_⟩
  · by_contra hne
    have hposB := List.count_pos_iff.mpr hiB
    have := count_two_inputs_le_uses hA hB hne i
    omega
  · have := List.count_pos_iff.mpr hout
    omega

end Uses

/-! ## Inside one group -/

section Group

variable {g : AneGraph} {group : FusionGroup} {ms : List GraphNode}

lemma mem_addSides {i : ℕ} : ∀ (sides inputs : List ℕ),
    i ∈ addSides inputs sides ↔ i ∈ inputs ∨ i ∈ sides
  | [], inputs => by simp [addSides]
  | side :: rest, inputs => by
      rw [addSides, mem_addSides rest, List.mem_cons]
      split_ifs with h
      · constructor
        · exact Or.imp_right Or.inr
        · rintro (hi | rfl | hi)
          · exact Or.inl hi
          · exact Or.inl h
          · exact Or.inr hi
      · rw [List.mem_append, List.mem_singleton, or_assoc]

/-- Adding sides keeps the chain input in front. -/
lemma head?_addSides : ∀ (sides inputs : List ℕ), inputs ≠ [] →
    (addSides inputs sides).head? = inputs.head?
  | [], _, _ => rfl
  | side :: rest, inputs, h => by
      rw [addSides, head?_addSides rest _ (by split_ifs <;> simp [h])]
      split_ifs
      · rfl
      · exact List.head?_append_of_ne_nil _ h

lemma Grouped.output_eq (h : Grouped g group ms) :
    ∀ {last}, ms.getLast? = some last → group.output = last.output := by
  cases h with
  | start n hn => rintro last ⟨rfl⟩; rfl
  | extend group ms last n hn hlast hext h =>
      intro last' hlast'
      rw [List.getLast?_concat, Option.some.injEq] at hlast'
      rw [← hlast']
      rfl

/-- Outputs grow along the chain. -/
lemma Grouped.output_le (hg : g.Wf) (h : Grouped g group ms) :
    ∀ m ∈ ms, m.output ≤ group.output := by
  induction h with
  | start n hn => intro m hm; rw [List.mem_singleton.mp hm]; rfl
  | extend group ms last n hn hlast hext h ih =>
      have hlt : group.output < n.output := by
        rw [h.output_eq hlast]
        exact hg.input_lt_output n hn _ (List.mem_of_mem_head? hext.head_eq)
      intro m hm
      rcases List.mem_append.mp hm with hm | hm
      · exact (ih m hm).trans hlt.le
      · rw [List.mem_singleton.mp hm]; rfl

/-- **Fused away or kept.**  A member's output is the group's output, or it is used exactly once,
by a member. -/
lemma Grouped.fused_or_last (h : Grouped g group ms) : ∀ m ∈ ms, m.output = group.output ∨
    uses g m.output = 1 ∧ ∃ B ∈ ms, m.output ∈ B.inputs := by
  induction h with
  | start n hn => intro m hm; rw [List.mem_singleton.mp hm]; exact Or.inl rfl
  | extend group ms last n hn hlast hext h ih =>
      intro m hm
      rcases List.mem_append.mp hm with hm | hm
      · right
        rcases ih m hm with heq | ⟨huse, B, hB, hread⟩
        · rw [heq, h.output_eq hlast]
          exact ⟨hext.uses_eq, n, by simp, List.mem_of_mem_head? hext.head_eq⟩
        · exact ⟨huse, B, List.mem_append_left _ hB, hread⟩
      · rw [List.mem_singleton.mp hm]; exact Or.inl rfl

/-- A member whose output is read outside the group is the last one. -/
lemma Grouped.last_of_read_outside (h : Grouped g group ms) {A B : GraphNode} (hA : A ∈ ms)
    (hB : B ∈ g.nodes) (hout : B ∉ ms) (hread : A.output ∈ B.inputs) :
    A.output = group.output := by
  rcases h.fused_or_last A hA with heq | ⟨huse, C, hC, hreadC⟩
  · exact heq
  · have hBC := (uses_eq_one (h.resolves.2 C hC) hreadC huse).2.1 B hB hread
    exact absurd (hBC ▸ hC) hout

/-- A member whose output is marked is the last one. -/
lemma Grouped.last_of_marked (h : Grouped g group ms) {A : GraphNode} (hA : A ∈ ms)
    (hmark : A.output ∈ g.graphOutputs) : A.output = group.output := by
  rcases h.fused_or_last A hA with heq | ⟨huse, C, hC, hreadC⟩
  · exact heq
  · exact absurd hmark (uses_eq_one (h.resolves.2 C hC) hreadC huse).2.2

/-- A candidate reads none of the members' outputs except, as its first operand, the last. -/
lemma Grouped.tail_outside (hg : g.Wf) (h : Grouped g group ms) {last n : GraphNode}
    (hlast : ms.getLast? = some last) (hn : n ∈ g.nodes) (hext : Extends g ms last n) :
    ∀ i ∈ n.inputs.tail, i ∉ ms.map (·.output) := by
  intro i hi hmem
  obtain ⟨m, hm, rfl⟩ := List.mem_map.mp hmem
  have hlt : last.output < n.output :=
    hg.input_lt_output n hn _ (List.mem_of_mem_head? hext.head_eq)
  rcases h.fused_or_last m hm with heq | ⟨huse, B, hB, hread⟩
  · -- the last member: it is already the first operand, so it would be read twice
    rw [heq, h.output_eq hlast] at hi
    have hcount := (uses_eq_one hn (List.mem_of_mem_tail hi) hext.uses_eq).1
    rw [← List.cons_head?_tail hext.head_eq, List.count_cons_self] at hcount
    have := List.count_pos_iff.mpr hi
    omega
  · -- an earlier member: its one reader is in the group, and the candidate is not
    have hnB := (uses_eq_one (h.resolves.2 B hB) hread huse).2.1 n hn (List.mem_of_mem_tail hi)
    have := h.output_le hg B hB
    rw [← hnB, h.output_eq hlast] at this
    omega

/-- **The inputs of a group** are the tensors that members read and no member produces. -/
theorem Grouped.mem_inputs_iff (hg : g.Wf) (h : Grouped g group ms) (i : ℕ) :
    i ∈ group.inputs ↔ (∃ m ∈ ms, i ∈ m.inputs) ∧ i ∉ ms.map (·.output) := by
  induction h with
  | start n hn =>
      simp only [startGroup, List.mem_singleton, exists_eq_left, List.map_cons, List.map_nil]
      exact ⟨fun hi => ⟨hi, ne_of_lt (hg.input_lt_output n hn i hi)⟩, fun hi => hi.1⟩
  | extend group ms last n hn hlast hext h ih =>
      have htail := h.tail_outside hg hlast hn hext
      have hcons := List.cons_head?_tail hext.head_eq
      simp only [extendGroup, mem_addSides, ih, List.map_append, List.mem_append, List.map_cons,
        List.map_nil, List.mem_singleton, not_or]
      constructor
      · rintro (⟨⟨m, hm, hi⟩, hnot⟩ | hi)
        · have hlt := hg.input_lt_output m (h.resolves.2 m hm) i hi
          have hle := h.output_le hg m hm
          rw [h.output_eq hlast] at hle
          have := hg.input_lt_output n hn _ (List.mem_of_mem_head? hext.head_eq)
          exact ⟨⟨m, Or.inl hm, hi⟩, hnot, by omega⟩
        · have hi' := List.mem_of_mem_tail hi
          exact ⟨⟨n, Or.inr rfl, hi'⟩, htail i hi, ne_of_lt (hg.input_lt_output n hn i hi')⟩
      · rintro ⟨⟨m, hm | rfl, hi⟩, hnot, -⟩
        · exact Or.inl ⟨⟨m, hm, hi⟩, hnot⟩
        · right
          rw [← hcons] at hi
          rcases List.mem_cons.mp hi with rfl | hi
          · exact absurd (List.mem_map_of_mem (List.mem_of_getLast? hlast)) hnot
          · exact hi

/-- Consecutive members are linked: the second reads the first's output as its first operand, and
nothing else uses that output. -/
lemma Grouped.linked (h : Grouped g group ms) : ∀ before A B after,
    ms = before ++ A :: B :: after → B.inputs.head? = some A.output ∧ uses g A.output = 1 := by
  induction h with
  | start n hn =>
      intro before A B after heq
      have := congrArg List.length heq
      simp at this
      omega
  | extend group ms last n hn hlast hext h ih =>
      intro before A B after heq
      rcases List.eq_nil_or_concat after with rfl | ⟨after, m, rfl⟩
      · have hsplit : ms ++ [n] = (before ++ [A]) ++ [B] := by rw [heq]; simp
        obtain ⟨rfl, hB⟩ := List.append_inj' hsplit rfl
        rw [List.getLast?_concat, Option.some.injEq] at hlast
        obtain rfl := (List.cons.inj hB).1
        subst hlast
        exact ⟨hext.head_eq, hext.uses_eq⟩
      · have hsplit : ms ++ [n] = (before ++ A :: B :: after) ++ [m] := by rw [heq]; simp
        obtain ⟨rfl, -⟩ := List.append_inj' hsplit rfl
        exact ih before A B after rfl

end Group

/-! ## The schedule of an accepted graph -/

/-- The nodes a group stands for. -/
def members (g : AneGraph) (group : FusionGroup) : List GraphNode :=
  group.nodeIds.filterMap fun id => g.nodes[id]?

lemma members_eq {g : AneGraph} (hg : g.Wf) {group : FusionGroup} {ms : List GraphNode}
    (h : Resolves g group ms) : members g group = ms := by
  have hget : ∀ m ∈ ms, g.nodes[m.id]? = some m := fun m hm =>
    AneGraph.node_eq_ok_iff.mp (hg.node_ok (h.2 m hm))
  rw [members, h.1, List.filterMap_map]
  exact (List.filterMap_congr hget).trans List.filterMap_some

/-- The groups that `compute_groups` returns for a graph, with the fact that they do stand for
consecutive stretches of the whole node list. -/
structure Schedule (g : AneGraph) where
  groups : List FusionGroup
  computed : computeGroups g = .ok groups
  partitioned : Partitioned g groups (groups.map (members g))
  covers : groups.flatMap (members g) = g.nodes

/-- The members of partitioned groups are the stretches they were built from. -/
lemma Partitioned.eq_members {g : AneGraph} (hg : g.Wf) {groups : List FusionGroup}
    {mss : List (List GraphNode)} (h : Partitioned g groups mss) :
    mss = groups.map (members g) := by
  induction h with
  | nil => rfl
  | cons hgroup _ ih => rw [List.map_cons, members_eq hg hgroup.resolves, ← ih]

/-- **Fusion of an accepted graph returns a schedule.** -/
lemma exists_schedule {g : AneGraph} (hg : g.Wf) : Nonempty (Schedule g) := by
  obtain ⟨groups, mss, hok, hp, -, hflat⟩ := computeGroups_spec hg
  obtain rfl := hp.eq_members hg
  exact ⟨⟨groups, hok, hp, by rw [List.flatMap_def, hflat]⟩⟩

namespace Schedule

variable {g : AneGraph} (hg : g.Wf) (S : Schedule g)

lemma grouped {group : FusionGroup} (h : group ∈ S.groups) : Grouped g group (members g group) := by
  have := List.forall₂_map_right_iff.mp S.partitioned
  exact List.forall₂_same.mp this group h

lemma member_mem {group : FusionGroup} (h : group ∈ S.groups) {m : GraphNode}
    (hm : m ∈ members g group) : m ∈ g.nodes :=
  (S.grouped h).resolves.2 m hm

/-- Every node is a member of some group. -/
lemma exists_group {n : GraphNode} (hn : n ∈ g.nodes) :
    ∃ group ∈ S.groups, n ∈ members g group := by
  rw [← S.covers] at hn
  exact List.mem_flatMap.mp hn

include hg

/-- Around a group, the node list splits into what runs before it, its members, and what runs
after it; outputs grow from each part to the next. -/
lemma output_lt_of_split {before after : List FusionGroup} {group : FusionGroup}
    (h : S.groups = before ++ group :: after) :
    (∀ e ∈ before, ∀ a ∈ members g e, ∀ b ∈ members g group, a.output < b.output) ∧
    (∀ e ∈ after, ∀ a ∈ members g e, ∀ b ∈ members g group, b.output < a.output) := by
  have hmono := hg.output_strictMono
  rw [← S.covers, h, List.flatMap_append, List.flatMap_cons, List.pairwise_map,
    List.pairwise_append, List.pairwise_append] at hmono
  obtain ⟨-, ⟨-, -, hlater⟩, hearlier⟩ := hmono
  refine ⟨fun e he a ha b hb => ?_, fun e he a ha b hb => ?_⟩
  · exact hearlier a (List.mem_flatMap.mpr ⟨e, he, ha⟩) b (List.mem_append_left _ hb)
  · exact hlater b hb a (List.mem_flatMap.mpr ⟨e, he, ha⟩)

/-- A node is a member of one group only. -/
lemma group_unique {G H : FusionGroup} (hG : G ∈ S.groups) (hH : H ∈ S.groups) {m : GraphNode}
    (hmG : m ∈ members g G) (hmH : m ∈ members g H) : G = H := by
  obtain ⟨before, after, hsplit⟩ := List.append_of_mem hG
  obtain ⟨hb, ha⟩ := S.output_lt_of_split hg hsplit
  rw [hsplit] at hH
  rcases List.mem_append.mp hH with hH | hH
  · exact absurd (hb H hH m hmH m hmG) (lt_irrefl _)
  · rcases List.mem_cons.mp hH with rfl | hH
    · rfl
    · exact absurd (ha H hH m hmH m hmG) (lt_irrefl _)

/-- A tensor that one group reads and a member of another produces is the output of the other:
it was not fused away. -/
lemma output_of_input {G H : FusionGroup} (hG : G ∈ S.groups) (hH : H ∈ S.groups) {i : ℕ}
    (hi : i ∈ G.inputs) {m : GraphNode} (hm : m ∈ members g H) (hmi : m.output = i) :
    H.output = i := by
  obtain ⟨⟨B, hB, hread⟩, hnot⟩ := ((S.grouped hG).mem_inputs_iff hg i).mp hi
  subst hmi
  refine ((S.grouped hH).last_of_read_outside hm (S.member_mem hG hB) (fun hBH => ?_) hread).symm
  rw [S.group_unique hg hG hH hB hBH] at hnot
  exact hnot (List.mem_map_of_mem hm)

/-- **Inputs are available.**  An input of a group is a graph input or the output of a strictly
earlier group. -/
theorem input_available {before after : List FusionGroup} {group : FusionGroup}
    (h : S.groups = before ++ group :: after) {i : ℕ} (hi : i ∈ group.inputs) :
    i ∈ g.graphInputs ∨ ∃ earlier ∈ before, earlier.output = i := by
  have hgroup : group ∈ S.groups := by rw [h]; simp
  obtain ⟨⟨m, hm, hread⟩, hnot⟩ := ((S.grouped hgroup).mem_inputs_iff hg i).mp hi
  have hmn := S.member_mem hgroup hm
  refine (hg.tensor_source i (hg.input_lt hmn hread)).imp_right ?_
  rintro ⟨n, hn, hni⟩
  obtain ⟨H, hH, hnH⟩ := S.exists_group hn
  refine ⟨H, ?_, S.output_of_input hg hgroup hH hi hnH hni⟩
  obtain ⟨-, ha⟩ := S.output_lt_of_split hg h
  rw [h] at hH
  rcases List.mem_append.mp hH with hH | hH
  · exact hH
  · rcases List.mem_cons.mp hH with rfl | hH
    · exact absurd (hni ▸ List.mem_map_of_mem hnH) hnot
    · -- a later producer would have a larger output than the member that reads it
      have h1 := ha H hH n hnH m hm
      have h2 := hg.input_lt_output m hmn i hread
      omega

end Schedule

/-! ## The partition theorem -/

/-- What holds of one group, `before` being the groups scheduled before it. -/
structure ScheduledGroup (g : AneGraph) (groups before : List FusionGroup) (group : FusionGroup) :
    Prop where
  resolves : group.nodeIds = (members g group).map (·.id)
  nonempty : members g group ≠ []
  linked : ∀ pre A B post, members g group = pre ++ A :: B :: post →
    B.inputs.head? = some A.output ∧ B.inputs.count A.output = 1 ∧
      (∀ n ∈ g.nodes, A.output ∈ n.inputs → n = B) ∧ A.output ∉ g.graphOutputs
  output_eq : ∀ last, (members g group).getLast? = some last → group.output = last.output
  inputs_iff : ∀ i, i ∈ group.inputs ↔
    (∃ m ∈ members g group, i ∈ m.inputs) ∧ i ∉ (members g group).map (·.output)
  input_available : ∀ i ∈ group.inputs,
    i ∈ g.graphInputs ∨ ∃ earlier ∈ before, earlier.output = i
  input_not_fused : ∀ i ∈ group.inputs, ∀ other ∈ groups, ∀ m ∈ members g other,
    m.output = i → other.output = i

/-- **The fusion partition.**  For every accepted graph the groups list every node id exactly
once, in insertion order, and every group is a chain with exactly its external reads as inputs,
all of them available when its turn comes. -/
theorem fusion_partition (G : AcceptedGraph) : ∃ groups, computeGroups G.graph = .ok groups ∧
    groups.flatMap (·.nodeIds) = G.graph.nodes.map (·.id) ∧
    (groups.flatMap (·.nodeIds)).Nodup ∧
    ∀ before group after, groups = before ++ group :: after →
      ScheduledGroup G.graph groups before group := by
  have hg := G.wf
  obtain ⟨S⟩ := exists_schedule hg
  have hids : S.groups.flatMap (·.nodeIds) = G.graph.nodes.map (·.id) := by
    rw [← S.covers, List.map_flatMap]
    exact List.flatMap_congr fun group hgroup => (S.grouped hgroup).resolves.1
  have hnodup : (G.graph.nodes.map (·.id)).Nodup := by
    refine (nodes_nodup hg).map_on fun A hA B hB hAB => ?_
    have := hg.node_ok hA
    rw [hAB, hg.node_ok hB] at this
    exact (Except.ok.inj this).symm
  refine ⟨S.groups, S.computed, hids, hids ▸ hnodup, fun before group after hsplit => ?_⟩
  have hmem : group ∈ S.groups := by rw [hsplit]; simp
  have hgroup := S.grouped hmem
  exact {
    resolves := hgroup.resolves.1
    nonempty := hgroup.ne_nil
    linked := by
      intro pre A B post heq
      obtain ⟨hhead, huse⟩ := hgroup.linked pre A B post heq
      have hB : B ∈ G.graph.nodes := S.member_mem hmem (by rw [heq]; simp)
      exact ⟨hhead, uses_eq_one hB (List.mem_of_mem_head? hhead) huse⟩
    output_eq := fun last hlast => hgroup.output_eq hlast
    inputs_iff := hgroup.mem_inputs_iff hg
    input_available := fun i hi => S.input_available hg hsplit hi
    input_not_fused := fun i hi other hother m hm hmi =>
      S.output_of_input hg hmem hother hi hm hmi }

end FusionRules

end Libane
