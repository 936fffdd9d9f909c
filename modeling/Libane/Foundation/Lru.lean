import Libane.Foundation.Runs

/-!
# Least recently used

A store of items with sizes under a capacity, as a list of key-value pairs in which the item used
last comes first.  A new item goes to the front; before that, items are dropped from the end as
long as the new one does not fit.

* `Lru.fitting` — the longest front part of a list that leaves room for a new item.
* `Lru.put`, `Lru.get`, `Lru.flush` — the operations.
* `Lru.keys_nodup` — keys are pairwise distinct.
* `Lru.latest` — what is stored under a key is what was put there last.
* `Lru.ordered` — the items are ordered by the time of their last use.
* `Lru.mem_step_iff` — what is there after an operation was put by it, or has been kept.
-/

/-- Items in the order of their last use, and how many were dropped for lack of room. -/
structure Lru (K V : Type*) where
  items : List (K × V) := []
  evictions : ℕ := 0

namespace Lru

variable {K V : Type*} [DecidableEq K] (size : V → ℕ) (capacity : ℕ)

/-- The size of all items together. -/
def total (items : List (K × V)) : ℕ := (items.map fun p => size p.2).sum

/-- The longest front part that leaves room for `n`, or nothing at all. -/
def fitting (n : ℕ) (items : List (K × V)) : List (K × V) :=
  items.take (Nat.findGreatest (fun j => total size (items.take j) + n ≤ capacity) items.length)

/-- Store `v` under `k`.  An item with the same key is replaced, which is no eviction. -/
def put (c : Lru K V) (k : K) (v : V) : Lru K V :=
  let others := c.items.filter fun p => p.1 ≠ k
  let kept := fitting size capacity (size v) others
  { items := (k, v) :: kept
    evictions := c.evictions + (others.length - kept.length) }

/-- Look up `k`, and move its item to the front. -/
def get (c : Lru K V) (k : K) : Option V × Lru K V :=
  match c.items.find? fun p => p.1 = k with
  | none => (none, c)
  | some p => (some p.2, { c with items := p :: c.items.filter fun q => q.1 ≠ k })

/-- Drop everything. -/
def flush (c : Lru K V) : Lru K V := { c with items := [] }

/-- The operations. -/
inductive Op (K V : Type*) where
  | Put (k : K) (v : V)
  | Get (k : K)
  | Flush

/-- One operation. -/
def step (c : Lru K V) : Op K V → Lru K V
  | .Put k v => c.put size capacity k v
  | .Get k => (c.get k).2
  | .Flush => c.flush

/-! ## The front part that fits -/

omit [DecidableEq K] in
/-- When there is room for everything, everything stays. -/
lemma fitting_of_le {n : ℕ} {items : List (K × V)} (h : total size items + n ≤ capacity) :
    fitting size capacity n items = items := by
  have hall : total size (items.take items.length) + n ≤ capacity := by rwa [List.take_length]
  have hgreatest : Nat.findGreatest (fun j => total size (items.take j) + n ≤ capacity)
      items.length = items.length :=
    le_antisymm (Nat.findGreatest_le _) (Nat.le_findGreatest le_rfl hall)
  rw [fitting, hgreatest, List.take_length]

omit [DecidableEq K] in
/-- When there is not, the last item goes. -/
lemma fitting_of_lt {n : ℕ} {items : List (K × V)} (h : capacity < total size items + n) :
    fitting size capacity n items = fitting size capacity n items.dropLast := by
  rcases items.eq_nil_or_concat with rfl | ⟨front, p, rfl⟩
  · rfl
  rw [List.concat_eq_append] at h ⊢
  rw [List.dropLast_concat, fitting, fitting, List.length_append, List.length_singleton]
  have htake : ∀ j ≤ front.length, (front ++ [p]).take j = front.take j :=
    fun j hj => List.take_append_of_le_length hj
  have hnot : ¬ total size ((front ++ [p]).take (front.length + 1)) + n ≤ capacity := by
    rw [List.take_of_length_le (by simp)]
    exact not_le.mpr h
  have hsame : Nat.findGreatest (fun j => total size ((front ++ [p]).take j) + n ≤ capacity)
      front.length = Nat.findGreatest (fun j => total size (front.take j) + n ≤ capacity)
        front.length := by
    obtain ⟨hle, hfits, hnext⟩ := Nat.findGreatest_eq_iff.mp
      (rfl : Nat.findGreatest (fun j => total size (front.take j) + n ≤ capacity) front.length = _)
    refine Nat.findGreatest_eq_iff.mpr ⟨hle, fun h0 => ?_, fun j hj hjn => ?_⟩
    · rw [htake _ hle]
      exact hfits h0
    · rw [htake _ hjn]
      exact hnext hj hjn
  rw [Nat.findGreatest_of_not hnot, hsame, htake _ (Nat.findGreatest_le _)]

omit [DecidableEq K] in
/-- What is dropped begins with an item for which there was no room. -/
lemma exists_dropped (n : ℕ) (items : List (K × V)) :
    ∃ dropped, items = fitting size capacity n items ++ dropped ∧
      (fitting size capacity n items = [] ∨
        total size (fitting size capacity n items) + n ≤ capacity) ∧
      ∀ p rest, dropped = p :: rest →
        capacity < total size (fitting size capacity n items ++ [p]) + n := by
  obtain ⟨m, hm⟩ : ∃ m, Nat.findGreatest (fun j => total size (items.take j) + n ≤ capacity)
      items.length = m := ⟨_, rfl⟩
  obtain ⟨-, hfits, hnext⟩ := Nat.findGreatest_eq_iff.mp hm
  rw [fitting, hm]
  refine ⟨items.drop m, (List.take_append_drop m items).symm, ?_, fun p rest hdrop => ?_⟩
  · rcases Nat.eq_zero_or_pos m with rfl | hpos
    · exact .inl List.take_zero
    · exact .inr (hfits hpos.ne')
  · have hlt : m < items.length := by
      by_contra hge
      rw [List.drop_eq_nil_of_le (not_lt.mp hge)] at hdrop
      cases hdrop
    have hp : items[m] = p := by
      rw [List.drop_eq_getElem_cons hlt] at hdrop
      exact (List.cons.inj hdrop).1
    rw [← hp, ← List.take_succ_eq_append_getElem hlt]
    exact not_le.mp (hnext (Nat.lt_succ_self m) hlt)

/-! ## Histories -/

/-- What was put under `k` last. -/
def lastPut (k : K) : List (Op K V) → Option V
  | [] => none
  | .Put j v :: past => if j = k then some v else lastPut k past
  | .Get _ :: past => lastPut k past
  | .Flush :: past => lastPut k past

/-- How many operations there were until `k` was used last. -/
def lastUse (k : K) : List (Op K V) → ℕ
  | [] => 0
  | .Put j v :: past => if j = k then (Op.Put j v :: past).length else lastUse k past
  | .Get j :: past => if j = k then (Op.Get j :: past : List (Op K V)).length else lastUse k past
  | .Flush :: past => lastUse k past

lemma lastUse_le (k : K) (past : List (Op K V)) : lastUse k past ≤ past.length := by
  induction past with
  | nil => exact le_rfl
  | cons o past ih =>
      cases o with
      | Put j v =>
          rw [lastUse]
          split_ifs
          · exact le_rfl
          · exact ih.trans (Nat.le_succ _)
      | Get j =>
          rw [lastUse]
          split_ifs
          · exact le_rfl
          · exact ih.trans (Nat.le_succ _)
      | Flush => exact ih.trans (Nat.le_succ _)

/-- **What the list says about the past**, the latest operation first. -/
structure Describes (past : List (Op K V)) (c : Lru K V) : Prop where
  keys_nodup : (c.items.map Prod.fst).Nodup
  latest : ∀ p ∈ c.items, lastPut p.1 past = some p.2
  ordered : c.items.Pairwise fun p q => lastUse q.1 past < lastUse p.1 past

/-- An item goes to the front, and some of the others stay. -/
lemma Describes.front {past : List (Op K V)} {c : Lru K V} (h : Describes past c) {o : Op K V}
    {k : K} {v : V} {kept : List (K × V)} (hput : lastPut k (o :: past) = some v)
    (huse : lastUse k (o :: past) = past.length + 1)
    (hother : ∀ j ≠ k, lastPut j (o :: past) = lastPut j past ∧
      lastUse j (o :: past) = lastUse j past)
    (hkept : kept.Sublist (c.items.filter fun p => p.1 ≠ k)) (n : ℕ) :
    Describes (o :: past) ⟨(k, v) :: kept, n⟩ := by
  have hsub : kept.Sublist c.items := hkept.trans List.filter_sublist
  have hne : ∀ p ∈ kept, p.1 ≠ k := fun p hp => by simpa using List.of_mem_filter (hkept.subset hp)
  refine ⟨?_, ?_, ?_⟩
  · refine List.nodup_cons.mpr ⟨fun hmem => ?_, h.keys_nodup.sublist (hsub.map Prod.fst)⟩
    obtain ⟨p, hp, hpk⟩ := List.mem_map.mp hmem
    exact hne p hp hpk
  · intro p hp
    rcases List.mem_cons.mp hp with rfl | hp
    · exact hput
    · rw [(hother p.1 (hne p hp)).1]
      exact h.latest p (hsub.subset hp)
  · refine List.pairwise_cons.mpr ⟨fun p hp => ?_, (h.ordered.sublist hsub).imp_of_mem ?_⟩
    · rw [huse, (hother p.1 (hne p hp)).2]
      exact Nat.lt_succ_of_le (lastUse_le _ _)
    · intro p q hp hq hlt
      rwa [(hother p.1 (hne p hp)).2, (hother q.1 (hne q hq)).2]

omit [DecidableEq K] in
lemma fitting_begins (n : ℕ) (items : List (K × V)) : fitting size capacity n items <+: items :=
  List.take_prefix _ _

/-- **Histories.**  The list says of every history what was put last and used when. -/
theorem step_describes {past : List (Op K V)} {c : Lru K V} (h : Describes past c) (o : Op K V) :
    Describes (o :: past) (c.step size capacity o) := by
  cases o with
  | Put k v =>
      refine h.front (by rw [lastPut, if_pos rfl]) (by rw [lastUse, if_pos rfl]; rfl) ?_
        (fitting_begins size capacity _ _).sublist _
      intro j hj
      rw [lastPut, lastUse, if_neg hj.symm, if_neg hj.symm]
      exact ⟨rfl, rfl⟩
  | Get k =>
      show Describes (.Get k :: past) (c.get k).2
      rw [get]
      cases hfind : c.items.find? fun p => p.1 = k with
      | none =>
          have hkey : ∀ p ∈ c.items, p.1 ≠ k := fun p hp => by
            simpa using List.find?_eq_none.mp hfind p hp
          refine ⟨h.keys_nodup, h.latest, h.ordered.imp_of_mem fun hp hq hlt => ?_⟩
          rwa [lastUse, lastUse, if_neg (hkey _ hp).symm, if_neg (hkey _ hq).symm]
      | some p =>
          obtain rfl : p.1 = k := by simpa using List.find?_some hfind
          refine h.front (h.latest p (List.mem_of_find?_eq_some hfind))
            (by rw [lastUse, if_pos rfl]; rfl) (fun j hj => ?_) (List.Sublist.refl _) _
          rw [lastUse, if_neg hj.symm]
          exact ⟨rfl, rfl⟩
  | Flush => exact ⟨List.nodup_nil, by simp [step, flush], List.Pairwise.nil⟩

/-! ## How long an item stays -/

/-- The keys of the items that an operation drops for lack of room. -/
def evicted (c : Lru K V) : Op K V → List K
  | .Put k v =>
      let others := c.items.filter fun p => p.1 ≠ k
      (others.drop (fitting size capacity (size v) others).length).map Prod.fst
  | _ => []

/-- The item under `k` is not replaced, dropped or flushed. -/
def Keeps (c : Lru K V) (k : K) (o : Op K V) : Prop :=
  (∀ v, o ≠ .Put k v) ∧ o ≠ .Flush ∧ k ∉ c.evicted size capacity o

variable {c : Lru K V} {k : K} {v : V}

/-- What is found is what is there. -/
lemma get_eq_some_iff (h : (c.items.map Prod.fst).Nodup) :
    (c.get k).1 = some v ↔ (k, v) ∈ c.items := by
  rw [get]
  cases hfind : c.items.find? fun p => p.1 = k with
  | none =>
      have hnone : ∀ p ∈ c.items, p.1 ≠ k := fun p hp => by
        simpa using List.find?_eq_none.mp hfind p hp
      constructor
      · intro he
        cases he
      · exact fun hmem => absurd rfl (hnone (k, v) hmem)
  | some p =>
      obtain rfl : p.1 = k := by simpa using List.find?_some hfind
      have hp := List.mem_of_find?_eq_some hfind
      refine ⟨fun he => ?_, fun hmem => ?_⟩
      · rw [← Option.some.inj he]
        exact hp
      · exact congrArg (fun q : K × V => some q.2) (List.inj_on_of_nodup_map h hp hmem rfl)

/-- What is found comes first, and what is not found changes nothing. -/
lemma get_items (k : K) :
    (c.get k).2.items =
      (c.get k).1.elim c.items fun v => (k, v) :: c.items.filter fun p => p.1 ≠ k := by
  rw [get]
  cases hfind : c.items.find? fun p => p.1 = k with
  | none => rfl
  | some p =>
      obtain rfl : p.1 = k := by simpa using List.find?_some hfind
      rfl

/-- What is there after an operation was put by it, or has been kept. -/
lemma mem_step_iff (h : (c.items.map Prod.fst).Nodup) (o : Op K V) :
    (k, v) ∈ (c.step size capacity o).items ↔
      o = .Put k v ∨ (k, v) ∈ c.items ∧ c.Keeps size capacity k o := by
  cases o with
  | Put j w =>
      have hmem : (k, v) ∈ (c.items.filter fun p => p.1 ≠ j) ↔ (k, v) ∈ c.items ∧ k ≠ j := by
        simp
      have hothers : ((c.items.filter fun p => p.1 ≠ j).map Prod.fst).Nodup :=
        h.sublist (List.filter_sublist.map Prod.fst)
      have hsplit := List.prefix_iff_eq_append.mp
        (fitting_begins size capacity (size w) (c.items.filter fun p => p.1 ≠ j))
      simp only [step, put, Keeps, evicted]
      generalize (c.items.filter fun p => p.1 ≠ j) = others at *
      generalize fitting size capacity (size w) others = kept at *
      generalize others.drop kept.length = dropped at *
      subst hsplit
      rw [List.map_append] at hothers
      have hdisjoint := List.disjoint_of_nodup_append hothers
      rw [List.mem_append] at hmem
      by_cases hkj : k = j
      · subst hkj
        have hnot : (k, v) ∉ kept := fun hk => (hmem.mp (.inl hk)).2 rfl
        simp [hnot, eq_comm]
      · have hkept : (k, v) ∈ kept ↔ (k, v) ∈ c.items ∧ k ∉ dropped.map Prod.fst := by
          constructor
          · intro hk
            exact ⟨(hmem.mp (.inl hk)).1, hdisjoint (List.mem_map_of_mem hk)⟩
          · rintro ⟨hc, hk⟩
            exact (hmem.mpr ⟨hc, hkj⟩).resolve_right fun hd => hk (List.mem_map_of_mem hd)
        have hjk : j ≠ k := fun he => hkj he.symm
        simp only [List.mem_cons, Prod.mk.injEq, hkj, false_and, false_or, hkept, Op.Put.injEq, hjk,
          ne_eq, not_false_eq_true, reduceCtorEq, implies_true, true_and]
  | Get j =>
      have hkeeps : c.Keeps size capacity k (.Get j) := ⟨by simp, by simp, by simp [evicted]⟩
      have hitems : (k, v) ∈ (c.step size capacity (.Get j)).items ↔ (k, v) ∈ c.items := by
        rw [step, get]
        cases hfind : c.items.find? fun p => p.1 = j with
        | none => rfl
        | some p =>
            obtain rfl : p.1 = j := by simpa using List.find?_some hfind
            have hp := List.mem_of_find?_eq_some hfind
            constructor
            · intro hmem
              rcases List.mem_cons.mp hmem with rfl | hmem
              · exact hp
              · exact List.mem_of_mem_filter hmem
            · intro hmem
              by_cases hk : k = p.1
              · exact List.mem_cons.mpr (.inl (List.inj_on_of_nodup_map h hmem hp hk))
              · exact List.mem_cons_of_mem _ (List.mem_filter.mpr ⟨hmem, by simpa using hk⟩)
      simp [hitems, hkeeps]
  | Flush => simp [step, flush, Keeps]

end Lru
