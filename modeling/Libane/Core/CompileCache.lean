import Libane.Core.Shape

/-!
# The compile cache

`CompileCache` of `compile_cache.cpp`: a linked list of shared entries in the order of their last
use, a hash map from keys to iterators into that list, and a byte counter in `size_t` arithmetic.
The list is modelled with the addresses of its elements, so that an iterator is an address and can
dangle; the map is an association list; a `shared_ptr` is the identity of the object with what it
holds, which no one changes once the entry is in the cache.

`get` takes its lock twice, so it is two functions, one for each critical section.

* `CompileCache.getLookup`, `getPromote`, `put`, `flush` — the critical sections.
* `CompileCache.InStep` — list, map and counter agree.
* `InStep.getPromote`, `InStep.put` — no section touches a dangling iterator, and all keep the
  cache in step.
-/

namespace Libane

/-- `CacheEntry`.  `releaseFn` says whether a release function is registered. -/
structure CacheEntry (K P : Type) where
  key : K
  backendHandle : Option P := none
  releaseFn : Bool := false
  sizeBytes : UInt64 := 0
  isAne : Bool := false
  deriving DecidableEq

/-- A `shared_ptr<CacheEntry>`: which object, and what it holds. -/
structure SharedEntry (K P : Type) where
  id : ℕ
  entry : CacheEntry K P
  deriving DecidableEq

/-- An element of the list `lru_`. -/
structure LruNode (K P : Type) where
  addr : ℕ
  shared : SharedEntry K P
  deriving DecidableEq

/-- The key of the entry in an element of the list. -/
def LruNode.key {K P : Type} (n : LruNode K P) : K := n.shared.entry.key

/-- `CompileCache::MapValue`. -/
structure MapValue (K P : Type) where
  lruPos : ℕ
  entry : SharedEntry K P
  deriving DecidableEq

/-- `CompileCache`.  `nextAddr` is where the next element of the list is allocated, and
`underflowed` records whether a subtraction from `current_bytes_` has wrapped.  The three counters
are `std::atomic<uint64_t>` in the source.  None exceeds the number of calls, an entry being evicted
at most once, so they are equal to these for fewer than `2 ^ 64` calls. -/
structure CompileCache (K P : Type) where
  maxBytes : UInt64
  currentBytes : UInt64 := 0
  lru : List (LruNode K P) := []
  map : AList fun _ : K => MapValue K P := ∅
  hits : ℕ := 0
  misses : ℕ := 0
  evictions : ℕ := 0
  nextAddr : ℕ := 0
  underflowed : Bool := false

/-- The element at an iterator, and the list without it.  A dangling iterator has no meaning. -/
def takeNode {K P : Type} (addr : ℕ) :
    List (LruNode K P) → Outcome (LruNode K P × List (LruNode K P))
  | [] => .error (.UndefinedBehaviour "iterator to an erased list element")
  | n :: rest =>
      if n.addr = addr then .ok (n, rest)
      else do
        let (m, rest') ← takeNode addr rest
        return (m, n :: rest')

namespace CompileCache

variable {K P : Type} [DecidableEq K]

/-- `current_bytes_ -= n`. -/
def debit (c : CompileCache K P) (n : UInt64) : CompileCache K P :=
  { c with currentBytes := c.currentBytes - n
           underflowed := c.underflowed || decide (c.currentBytes < n) }

/-! ## `get` -/

/-- The first critical section of `get`: is there an entry?  The counters are atomic. -/
def getLookup (c : CompileCache K P) (key : K) : Bool × CompileCache K P :=
  match c.map.lookup key with
  | none => (false, { c with misses := c.misses + 1 })
  | some _ => (true, { c with hits := c.hits + 1 })

/-- The second critical section of `get`: find the entry again, and move it to the front. -/
def getPromote (c : CompileCache K P) (key : K) :
    Outcome (Option (SharedEntry K P) × CompileCache K P) :=
  match c.map.lookup key with
  | none => .ok (none, c)
  | some v => do
      let (n, rest) ← takeNode v.lruPos c.lru
      return (some v.entry, { c with lru := n :: rest })

/-! ## `put` and `flush` -/

/-- The first part of `put`: an entry with the same key goes. -/
def removeKey (c : CompileCache K P) (key : K) : Outcome (CompileCache K P) :=
  match c.map.lookup key with
  | none => .ok c
  | some v => do
      let (_, rest) ← takeNode v.lruPos c.lru
      return { c.debit v.entry.entry.sizeBytes with
        lru := rest
        map := c.map.erase key }

/-- `evict_lru_locked`. -/
def evictLruLocked (c : CompileCache K P) : CompileCache K P :=
  match c.lru.getLast? with
  | none => c
  | some victim =>
      { c.debit victim.shared.entry.sizeBytes with
        map := c.map.erase victim.key
        lru := c.lru.dropLast
        evictions := c.evictions + 1 }

/-- The loop of `put`: evict until there is room.  As many rounds as there are elements suffice. -/
def makeRoom (entrySize : UInt64) : ℕ → CompileCache K P → CompileCache K P
  | 0, c => c
  | rounds + 1, c =>
      if c.maxBytes < c.currentBytes + entrySize ∧ c.lru.isEmpty = false then
        makeRoom entrySize rounds c.evictLruLocked
      else c

/-- The last part of `put`: the new entry goes to the front. -/
def insertFront (c : CompileCache K P) (s : SharedEntry K P) : CompileCache K P :=
  { c with lru := ⟨c.nextAddr, s⟩ :: c.lru
           map := c.map.insert s.entry.key ⟨c.nextAddr, s⟩
           currentBytes := c.currentBytes + s.entry.sizeBytes
           nextAddr := c.nextAddr + 1 }

/-- `put`. -/
def put (c : CompileCache K P) : Option (SharedEntry K P) →
    Outcome (Option (SharedEntry K P) × CompileCache K P)
  | none => .ok (none, c)
  | some s => do
      let c₁ ← c.removeKey s.entry.key
      let c₂ := makeRoom s.entry.sizeBytes c₁.lru.length c₁
      return (some s, c₂.insertFront s)

/-- `flush`. -/
def flush (c : CompileCache K P) : CompileCache K P :=
  { c with lru := [], map := ∅, currentBytes := 0 }

/-- `size`. -/
def size (c : CompileCache K P) : ℕ := c.map.entries.length

/-! ## Agreement of the parts -/

/-- The sizes of the entries in the list, without wrapping. -/
def total (c : CompileCache K P) : ℕ := (c.lru.map fun n => n.shared.entry.sizeBytes.toNat).sum

/-- **In step.**  List and map hold the same entries under pairwise distinct keys, every iterator
in the map points to its own entry, and the counter is the sum of the sizes in `size_t`
arithmetic. -/
structure InStep (c : CompileCache K P) : Prop where
  keys_nodup : (c.lru.map (·.key)).Nodup
  addrs_nodup : (c.lru.map (·.addr)).Nodup
  lookup_iff : ∀ key v, c.map.lookup key = some v ↔
    ∃ n ∈ c.lru, n.key = key ∧ v = ⟨n.addr, n.shared⟩
  addr_lt : ∀ n ∈ c.lru, n.addr < c.nextAddr
  bytes_eq : c.currentBytes.toNat = c.total % 2 ^ 64

/-- The counter is the sum of the sizes, and it has never been less than what was taken off. -/
def Exact (c : CompileCache K P) : Prop :=
  c.currentBytes.toNat = c.total ∧ c.underflowed = false

/-! ## The list -/

section Nodes

variable {l rest : List (LruNode K P)} {n : LruNode K P}

omit [DecidableEq K] in
/-- An element of the list is found at its address, and the others stay. -/
lemma takeNode_eq : ∀ {l : List (LruNode K P)}, (l.map (·.addr)).Nodup → n ∈ l →
    ∃ rest, takeNode n.addr l = .ok (n, rest) ∧ l.Perm (n :: rest) ∧ rest.Sublist l
  | [], _, hn => absurd hn List.not_mem_nil
  | m :: l, hnodup, hn => by
      rw [List.map_cons, List.nodup_cons] at hnodup
      by_cases hm : m.addr = n.addr
      · rcases List.mem_cons.mp hn with rfl | hl
        · exact ⟨l, by rw [takeNode, if_pos rfl], List.Perm.refl _, List.sublist_cons_self n l⟩
        · exact absurd (hm ▸ List.mem_map_of_mem hl) hnodup.1
      · have hl : n ∈ l := (List.mem_cons.mp hn).resolve_left fun h => hm (by rw [h])
        obtain ⟨rest, htake, hperm, hsub⟩ := takeNode_eq hnodup.2 hl
        refine ⟨m :: rest, ?_, (hperm.cons m).trans (List.Perm.swap n m rest), hsub.cons_cons m⟩
        rw [takeNode, if_neg hm, htake]
        rfl

/-- The others are those with another key. -/
lemma rest_eq_filter (hkeys : (l.map (·.key)).Nodup) (hperm : l.Perm (n :: rest))
    (hsub : rest.Sublist l) : rest = l.filter fun m => m.key ≠ n.key := by
  have hnodup : ((n :: rest).map (·.key)).Nodup := (hperm.map _).nodup_iff.mp hkeys
  rw [List.map_cons, List.nodup_cons] at hnodup
  have hne : ∀ m ∈ rest, m.key ≠ n.key := fun m hm h => hnodup.1 (h ▸ List.mem_map_of_mem hm)
  have hlen : (l.filter fun m => m.key ≠ n.key).length = rest.length := by
    rw [(hperm.filter _).length_eq, List.filter_cons_of_neg (by simp),
      List.filter_eq_self.mpr (by simpa using hne)]
  have hsub' : rest.Sublist (l.filter fun m => m.key ≠ n.key) := by
    have := hsub.filter fun m => decide (m.key ≠ n.key)
    rwa [List.filter_eq_self.mpr (by simpa using hne)] at this
  exact hsub'.eq_of_length hlen.symm

omit [DecidableEq K] in
lemma total_perm {c : CompileCache K P} (h : c.lru.Perm (n :: rest)) :
    c.total = n.shared.entry.sizeBytes.toNat +
      (rest.map fun m => m.shared.entry.sizeBytes.toNat).sum := by
  rw [total, (h.map _).sum_eq, List.map_cons, List.sum_cons]

end Nodes

/-! ## Preservation -/

section Preservation

variable {c d : CompileCache K P} {n : LruNode K P}

/-- An empty cache is in step. -/
lemma inStep_empty (maxBytes : UInt64) : InStep ({ maxBytes } : CompileCache K P) where
  keys_nodup := List.nodup_nil
  addrs_nodup := List.nodup_nil
  lookup_iff := fun key v => by simp
  addr_lt := fun n hn => absurd hn List.not_mem_nil
  bytes_eq := rfl

/-- Taking out one entry, from the list and from the map. -/
lemma InStep.without (h : c.InStep) {rest : List (LruNode K P)} (hperm : c.lru.Perm (n :: rest))
    (hsub : rest.Sublist c.lru) (hlru : d.lru = rest) (hmap : d.map = c.map.erase n.key)
    (haddr : d.nextAddr = c.nextAddr)
    (hbytes : d.currentBytes = c.currentBytes - n.shared.entry.sizeBytes) : d.InStep where
  keys_nodup := hlru ▸ h.keys_nodup.sublist (hsub.map _)
  addrs_nodup := hlru ▸ h.addrs_nodup.sublist (hsub.map _)
  addr_lt := fun m hm => haddr ▸ h.addr_lt m (hsub.subset (hlru ▸ hm))
  lookup_iff := by
    intro key v
    have hrest := rest_eq_filter h.keys_nodup hperm hsub
    by_cases hkey : key = n.key
    · rw [hmap, hkey, AList.lookup_erase]
      simp only [reduceCtorEq, false_iff, not_exists, not_and]
      intro m hm hmk
      rw [hlru, hrest, List.mem_filter] at hm
      exact absurd hmk (by simpa using hm.2)
    · rw [hmap, AList.lookup_erase_ne hkey, h.lookup_iff, hlru, hrest]
      refine exists_congr fun m => ?_
      rw [List.mem_filter]
      constructor
      · rintro ⟨hm, rfl, hv⟩
        exact ⟨⟨hm, by simpa using hkey⟩, rfl, hv⟩
      · rintro ⟨⟨hm, -⟩, hrest⟩
        exact ⟨hm, hrest⟩
  bytes_eq := by
    have htotal := total_perm hperm
    have hbytes' := h.bytes_eq
    have hsize := n.shared.entry.sizeBytes.toNat_lt
    have hdt : d.total = (rest.map fun m => m.shared.entry.sizeBytes.toNat).sum := by
      rw [total, hlru]
    rw [hbytes, UInt64.toNat_sub, hbytes', htotal, hdt]
    omega

omit [DecidableEq K] in
/-- An entry in the list is taken off the counter without wrapping. -/
lemma Exact.debit (h : c.Exact) (hn : n ∈ c.lru) :
    (c.debit n.shared.entry.sizeBytes).underflowed = false ∧
      (c.debit n.shared.entry.sizeBytes).currentBytes.toNat + n.shared.entry.sizeBytes.toNat =
        c.total := by
  have hle : n.shared.entry.sizeBytes.toNat ≤ c.total :=
    List.single_le_sum (by simp) _ (List.mem_map_of_mem hn)
  have hsize := n.shared.entry.sizeBytes.toNat_lt
  have hcur := c.currentBytes.toNat_lt
  have heq := h.1
  constructor
  · rw [CompileCache.debit, h.2, Bool.false_or, decide_eq_false_iff_not, UInt64.lt_iff_toNat_lt]
    omega
  · rw [CompileCache.debit, UInt64.toNat_sub]
    omega

omit [DecidableEq K] in
/-- What taking out one entry leaves. -/
lemma Exact.without (h : c.Exact) {rest : List (LruNode K P)} (hperm : c.lru.Perm (n :: rest))
    (hlru : d.lru = rest)
    (hbytes : d.currentBytes = (c.debit n.shared.entry.sizeBytes).currentBytes)
    (hflag : d.underflowed = (c.debit n.shared.entry.sizeBytes).underflowed) : d.Exact := by
  obtain ⟨hf, hb⟩ := h.debit (hperm.mem_iff.mpr List.mem_cons_self)
  refine ⟨?_, hflag.trans hf⟩
  rw [total_perm hperm] at hb
  rw [hbytes, total, hlru]
  omega

/-! ## The sections -/

lemma InStep.getLookup (h : c.InStep) (key : K) : (c.getLookup key).2.InStep := by
  unfold CompileCache.getLookup
  split
  · exact { h with }
  · exact { h with }

/-- Promotion finds the entry of the key, if there still is one, and moves it to the front. -/
lemma InStep.getPromote (h : c.InStep) (key : K) :
    (c.getPromote key = .ok (none, c) ∧ ∀ n ∈ c.lru, n.key ≠ key) ∨
    ∃ n ∈ c.lru, n.key = key ∧
      c.getPromote key = .ok (some n.shared,
        { c with lru := n :: c.lru.filter fun m => m.key ≠ key }) := by
  unfold CompileCache.getPromote
  cases hlookup : c.map.lookup key with
  | none =>
      refine Or.inl ⟨rfl, fun n hn hkey => ?_⟩
      have := (h.lookup_iff key ⟨n.addr, n.shared⟩).mpr ⟨n, hn, hkey, rfl⟩
      rw [hlookup] at this
      cases this
  | some v =>
      obtain ⟨n, hn, rfl, rfl⟩ := (h.lookup_iff key v).mp hlookup
      obtain ⟨rest, htake, hperm, hsub⟩ := takeNode_eq h.addrs_nodup hn
      rw [rest_eq_filter h.keys_nodup hperm hsub] at htake
      refine Or.inr ⟨n, hn, rfl, ?_⟩
      simp only [htake, ok_bind]
      rfl

/-- Moving an element to the front changes nothing else. -/
lemma moved_perm (h : c.InStep) (hn : n ∈ c.lru) :
    (n :: c.lru.filter fun m => m.key ≠ n.key).Perm c.lru := by
  obtain ⟨rest, -, hperm, hsub⟩ := takeNode_eq h.addrs_nodup hn
  rw [← rest_eq_filter h.keys_nodup hperm hsub]
  exact hperm.symm

lemma InStep.reordered (h : c.InStep) {l : List (LruNode K P)} (hperm : l.Perm c.lru) :
    InStep { c with lru := l } where
  keys_nodup := (hperm.map _).nodup_iff.mpr h.keys_nodup
  addrs_nodup := (hperm.map _).nodup_iff.mpr h.addrs_nodup
  lookup_iff := fun key v => by simpa only [hperm.mem_iff] using h.lookup_iff key v
  addr_lt := fun m hm => h.addr_lt m (hperm.mem_iff.mp hm)
  bytes_eq := by
    rw [total, (hperm.map _).sum_eq]
    exact h.bytes_eq

omit [DecidableEq K] in
lemma Exact.reordered (h : c.Exact) {l : List (LruNode K P)} (hperm : l.Perm c.lru) :
    Exact { c with lru := l } := by
  refine ⟨?_, h.2⟩
  rw [total, (hperm.map _).sum_eq]
  exact h.1

/-- The first part of `put`. -/
lemma InStep.removeKey (h : c.InStep) (key : K) : ∃ d, c.removeKey key = .ok d ∧ d.InStep ∧
    d.lru = (c.lru.filter fun m => m.key ≠ key) ∧ d.maxBytes = c.maxBytes ∧
    d.evictions = c.evictions ∧ d.hits = c.hits ∧ d.misses = c.misses ∧ (c.Exact → d.Exact) := by
  unfold CompileCache.removeKey
  cases hlookup : c.map.lookup key with
  | none =>
      refine ⟨c, rfl, h, ?_, rfl, rfl, rfl, rfl, id⟩
      refine (List.filter_eq_self.mpr fun n hn => ?_).symm
      rw [decide_eq_true_iff]
      intro hkey
      have := (h.lookup_iff key ⟨n.addr, n.shared⟩).mpr ⟨n, hn, hkey, rfl⟩
      rw [hlookup] at this
      cases this
  | some v =>
      obtain ⟨n, hn, rfl, rfl⟩ := (h.lookup_iff key v).mp hlookup
      obtain ⟨rest, htake, hperm, hsub⟩ := takeNode_eq h.addrs_nodup hn
      simp only [htake, ok_bind]
      exact ⟨_, rfl, h.without hperm hsub rfl rfl rfl rfl, rest_eq_filter h.keys_nodup hperm hsub,
        rfl, rfl, rfl, rfl, fun he => he.without hperm rfl rfl rfl⟩

/-- One eviction takes the last element. -/
lemma InStep.evictLruLocked (h : c.InStep) (hne : c.lru ≠ []) : c.evictLruLocked.InStep ∧
    c.evictLruLocked.lru = c.lru.dropLast ∧ c.evictLruLocked.maxBytes = c.maxBytes ∧
    c.evictLruLocked.evictions = c.evictions + 1 ∧ c.evictLruLocked.hits = c.hits ∧
    c.evictLruLocked.misses = c.misses ∧ (c.Exact → c.evictLruLocked.Exact) := by
  have hlast : c.lru.getLast? = some (c.lru.getLast hne) := List.getLast?_eq_some_getLast hne
  have hperm : c.lru.Perm (c.lru.getLast hne :: c.lru.dropLast) := by
    conv_lhs => rw [← List.dropLast_append_getLast hne]
    exact List.perm_append_singleton _ _
  unfold CompileCache.evictLruLocked
  rw [hlast]
  exact ⟨h.without hperm (List.dropLast_sublist c.lru) rfl rfl rfl rfl, rfl, rfl, rfl, rfl, rfl,
    fun he => he.without hperm rfl rfl rfl⟩

/-- What the loop of `put` leaves. -/
structure Roomy (c : CompileCache K P) (entrySize : UInt64) (d : CompileCache K P) : Prop where
  inStep : d.InStep
  prefix_lru : d.lru <+: c.lru
  maxBytes_eq : d.maxBytes = c.maxBytes
  hits_eq : d.hits = c.hits
  misses_eq : d.misses = c.misses
  evictions_eq : d.evictions + d.lru.length = c.evictions + c.lru.length
  exact : c.Exact → d.Exact
  room : d.currentBytes + entrySize ≤ d.maxBytes ∨ d.lru = []

/-- **The loop of `put`** ends with room for the entry, or with an empty cache. -/
lemma InStep.makeRoom (entrySize : UInt64) : ∀ (rounds : ℕ) {c : CompileCache K P}, c.InStep →
    c.lru.length ≤ rounds → Roomy c entrySize (makeRoom entrySize rounds c)
  | 0, c, h, hlen => by
      have hnil : c.lru = [] := List.length_eq_zero_iff.mp (Nat.le_zero.mp hlen)
      exact ⟨h, List.prefix_rfl, rfl, rfl, rfl, rfl, id, Or.inr hnil⟩
  | rounds + 1, c, h, hlen => by
      rw [CompileCache.makeRoom]
      split_ifs with hfull
      · have hne : c.lru ≠ [] := by simpa using hfull.2
        have hpos := List.length_pos_iff.mpr hne
        obtain ⟨hd, hlru, hmax, hevict, hhits, hmisses, hexact⟩ := h.evictLruLocked hne
        have hlen' : c.evictLruLocked.lru.length = c.lru.length - 1 := by
          rw [hlru, List.length_dropLast]
        have hrest := hd.makeRoom entrySize rounds (by omega)
        exact {
          inStep := hrest.inStep
          prefix_lru := hrest.prefix_lru.trans (hlru ▸ List.dropLast_prefix c.lru)
          maxBytes_eq := hrest.maxBytes_eq.trans hmax
          hits_eq := hrest.hits_eq.trans hhits
          misses_eq := hrest.misses_eq.trans hmisses
          evictions_eq := by rw [hrest.evictions_eq, hevict, hlen']; omega
          exact := fun he => hrest.exact (hexact he)
          room := hrest.room }
      · refine ⟨h, List.prefix_rfl, rfl, rfl, rfl, rfl, id, ?_⟩
        by_cases hnil : c.lru = []
        · exact Or.inr hnil
        · left
          rw [← UInt64.not_lt]
          exact fun hlt => hfull ⟨hlt, by simpa using hnil⟩

lemma total_insertFront (s : SharedEntry K P) :
    (c.insertFront s).total = s.entry.sizeBytes.toNat + c.total := by
  simp only [total, CompileCache.insertFront, List.map_cons, List.sum_cons]

/-- Inserting an entry whose key is not there. -/
lemma InStep.insertFront (h : c.InStep) {s : SharedEntry K P}
    (hnew : ∀ n ∈ c.lru, n.key ≠ s.entry.key) : (c.insertFront s).InStep where
  keys_nodup := by
    refine List.nodup_cons.mpr ⟨fun hmem => ?_, h.keys_nodup⟩
    obtain ⟨n, hn, hkey⟩ := List.mem_map.mp hmem
    exact hnew n hn hkey
  addrs_nodup := by
    refine List.nodup_cons.mpr ⟨fun hmem => ?_, h.addrs_nodup⟩
    obtain ⟨n, hn, haddr⟩ := List.mem_map.mp hmem
    exact absurd haddr (h.addr_lt n hn).ne
  addr_lt := by
    intro n hn
    rcases List.mem_cons.mp hn with rfl | hn
    · exact Nat.lt_succ_self _
    · exact (h.addr_lt n hn).trans (Nat.lt_succ_self _)
  lookup_iff := by
    intro key v
    simp only [CompileCache.insertFront, List.mem_cons, exists_eq_or_imp]
    by_cases hkey : key = s.entry.key
    · rw [hkey, AList.lookup_insert, Option.some.injEq]
      constructor
      · rintro rfl
        exact Or.inl ⟨rfl, rfl⟩
      · rintro (⟨-, rfl⟩ | ⟨n, hn, hn', -⟩)
        · rfl
        · exact absurd hn' (hnew n hn)
    · rw [AList.lookup_insert_ne hkey, h.lookup_iff]
      exact ⟨Or.inr, fun hv => hv.resolve_left fun h => hkey h.1.symm⟩
  bytes_eq := by
    have hbytes := h.bytes_eq
    rw [total_insertFront, CompileCache.insertFront, UInt64.toNat_add, hbytes]
    omega

lemma Exact.insertFront (h : c.Exact) {s : SharedEntry K P}
    (hlt : c.total + s.entry.sizeBytes.toNat < 2 ^ 64) : (c.insertFront s).Exact := by
  refine ⟨?_, h.2⟩
  rw [total_insertFront, CompileCache.insertFront, UInt64.toNat_add, h.1, Nat.mod_eq_of_lt hlt,
    Nat.add_comm]

/-- The sizes of the entries under other keys. -/
def totalWithout (c : CompileCache K P) (key : K) : ℕ :=
  ((c.lru.filter fun n => n.key ≠ key).map fun n => n.shared.entry.sizeBytes.toNat).sum

/-- What `put` leaves. -/
structure Stored (c : CompileCache K P) (s : SharedEntry K P) (d : CompileCache K P) : Prop where
  inStep : d.InStep
  maxBytes_eq : d.maxBytes = c.maxBytes
  hits_eq : d.hits = c.hits
  misses_eq : d.misses = c.misses
  lru_eq : ∃ n kept, d.lru = n :: kept ∧ n.shared = s ∧
    kept <+: (c.lru.filter fun m => m.key ≠ s.entry.key) ∧
    d.evictions + kept.length =
      c.evictions + (c.lru.filter fun m => m.key ≠ s.entry.key).length
  bounded : d.currentBytes ≤ d.maxBytes ∨ d.lru.map (·.shared) = [s]
  exact : c.Exact → c.totalWithout s.entry.key + s.entry.sizeBytes.toNat < 2 ^ 64 → d.Exact

/-- **`put`** keeps the cache in step, and leaves it within its capacity or with the new entry
only. -/
theorem InStep.put (h : c.InStep) (s : SharedEntry K P) :
    ∃ d, c.put (some s) = .ok (some s, d) ∧ Stored c s d := by
  obtain ⟨c₁, hremove, h₁, hlru, hmax, hevict, hhits, hmisses, hexact⟩ :=
    h.removeKey s.entry.key
  have hroom := h₁.makeRoom s.entry.sizeBytes c₁.lru.length le_rfl
  have hnew : ∀ n : LruNode K P, n ∈
      (CompileCache.makeRoom s.entry.sizeBytes c₁.lru.length c₁).lru → n.key ≠ s.entry.key := by
    intro n hn
    have := hroom.prefix_lru.subset hn
    rw [hlru, List.mem_filter] at this
    simpa using this.2
  refine ⟨(CompileCache.makeRoom s.entry.sizeBytes c₁.lru.length c₁).insertFront s, ?_, ?_⟩
  · simp only [CompileCache.put, hremove, ok_bind]
    rfl
  · exact {
      inStep := hroom.inStep.insertFront hnew
      maxBytes_eq := hroom.maxBytes_eq.trans hmax
      hits_eq := hroom.hits_eq.trans hhits
      misses_eq := hroom.misses_eq.trans hmisses
      lru_eq := ⟨_, _, rfl, rfl, hlru ▸ hroom.prefix_lru, by
        rw [← hlru, ← hevict]
        exact hroom.evictions_eq⟩
      bounded := hroom.room.imp id fun hnil => by simp [CompileCache.insertFront, hnil]
      exact := fun he hlt => by
        refine (hroom.exact (hexact he)).insertFront (lt_of_le_of_lt ?_ hlt)
        refine Nat.add_le_add_right ?_ _
        rw [totalWithout, ← hlru]
        exact (hroom.prefix_lru.sublist.map _).sum_le_sum (by simp) }

/-- Emptying the cache. -/
lemma inStep_flush (c : CompileCache K P) : c.flush.InStep where
  keys_nodup := List.nodup_nil
  addrs_nodup := List.nodup_nil
  lookup_iff := fun key v => by simp [CompileCache.flush]
  addr_lt := fun n hn => absurd hn List.not_mem_nil
  bytes_eq := rfl

end Preservation

end CompileCache

end Libane
