import Libane.Core.CompileCache
import Libane.Foundation.Lru
import Libane.Foundation.Simulation

/-!
# The compile cache as a store of recently used entries

One client makes calls of the cache, one after another.  What it is told is what it would be told
by a list of entries in the order of their last use, from which a new entry displaces as few as
possible.

**Where they could differ.**  The cache adds up sizes in `size_t`.  As long as the sizes of what it
holds and of the new entry fit, the counter is their sum, and the loop that evicts from the end of
the list stops at the same entry as the reference.  When they do not fit, the counter wraps and the
cache keeps too much; `SizesFit` leaves this out.  Everything else is a simulation, one call at a
time.

* `CompileCache.serve` — the public functions of `CompileCache`.
* `ReferenceCache` — the list, with the counters.
* `cache_refines_lru` — the two give the same answers, and the list says of every history what was
  put last and used when.
* `cache_contract` — what every call of `get` and `put` does after any history.
-/

namespace Libane

open Simulation

/-- A call of a public function. -/
inductive CacheRequest (K P : Type) where
  | Get (key : K)
  | Put (entry : Option (SharedEntry K P))
  | Flush
  | SizeBytes
  | Size
  | Stats

/-- What it returns. -/
inductive CacheAnswer (K P : Type) where
  | Entry (entry : Option (SharedEntry K P))
  | Void
  | Number (n : ℕ)
  | Counters (hits misses evictions : ℕ)

namespace CompileCache

variable {K P : Type} [DecidableEq K]

/-- `get`, with nothing between its two sections. -/
def get (c : CompileCache K P) (key : K) : Outcome (Option (SharedEntry K P) × CompileCache K P) :=
  match c.getLookup key with
  | (false, c₁) => .ok (none, c₁)
  | (true, c₁) => c₁.getPromote key

/-- The public functions. -/
def serve (c : CompileCache K P) : CacheRequest K P → Outcome (CacheAnswer K P × CompileCache K P)
  | .Get key => do
      let (entry, c₁) ← c.get key
      return (.Entry entry, c₁)
  | .Put entry => do
      let (stored, c₁) ← c.put entry
      return (.Entry stored, c₁)
  | .Flush => .ok (.Void, c.flush)
  | .SizeBytes => .ok (.Number c.currentBytes.toNat, c)
  | .Size => .ok (.Number c.size, c)
  | .Stats => .ok (.Counters c.hits c.misses c.evictions, c)

end CompileCache

/-- The size of an entry. -/
def SharedEntry.bytes {K P : Type} (s : SharedEntry K P) : ℕ := s.entry.sizeBytes.toNat

/-- **The reference.**  Entries under their keys in the order of their last use, and how many calls
of `get` found one. -/
structure ReferenceCache (K P : Type) where
  store : Lru K (SharedEntry K P) := {}
  hits : ℕ := 0
  misses : ℕ := 0

namespace ReferenceCache

variable {K P : Type} [DecidableEq K] (capacity : ℕ)

/-- The reference answers a call. -/
def answer (r : ReferenceCache K P) : CacheRequest K P → CacheAnswer K P × ReferenceCache K P
  | .Get key =>
      let (entry, store) := r.store.get key
      (.Entry entry,
        { store
          hits := r.hits + if entry.isSome then 1 else 0
          misses := r.misses + if entry.isSome then 0 else 1 })
  | .Put none => (.Entry none, r)
  | .Put (some s) =>
      (.Entry (some s), { r with store := r.store.put SharedEntry.bytes capacity s.entry.key s })
  | .Flush => (.Void, { r with store := r.store.flush })
  | .SizeBytes => (.Number (Lru.total SharedEntry.bytes r.store.items), r)
  | .Size => (.Number r.store.items.length, r)
  | .Stats => (.Counters r.hits r.misses r.store.evictions, r)

/-- A call as an operation of the store. -/
def storeOp : CacheRequest K P → Option (Lru.Op K (SharedEntry K P))
  | .Get key => some (.Get key)
  | .Put (some s) => some (.Put s.entry.key s)
  | .Flush => some .Flush
  | _ => none

/-- The sizes of a new entry and of the entries under other keys add up to less than `2 ^ 64`. -/
def SizesFit (r : ReferenceCache K P) : CacheRequest K P → Prop
  | .Put (some s) =>
      Lru.total SharedEntry.bytes (r.store.items.filter fun p => p.1 ≠ s.entry.key) + s.bytes <
        2 ^ 64
  | _ => True

/-- Every call is an operation of the store, or leaves it alone. -/
lemma answer_store (r : ReferenceCache K P) (q : CacheRequest K P) :
    (r.answer capacity q).2.store =
      ((storeOp q).map (r.store.step SharedEntry.bytes capacity)).getD r.store := by
  cases q with
  | Put entry => cases entry <;> rfl
  | _ => rfl

/-- A call leaves the entry of a key where it is found: it neither puts one there, nor drops it for
lack of room, nor flushes it. -/
def Keeps (key : K) (r : ReferenceCache K P) (q : CacheRequest K P) : Prop :=
  ∀ o ∈ storeOp q, r.store.Keeps SharedEntry.bytes capacity key o

omit [DecidableEq K] in
/-- A call stores an entry. -/
lemma storeOp_eq_put_iff {q : CacheRequest K P} {key : K} {s : SharedEntry K P} :
    storeOp q = some (.Put key s) ↔ q = .Put (some s) ∧ s.entry.key = key := by
  cases q with
  | Put entry =>
      cases entry with
      | none => simp [storeOp]
      | some t =>
          simp only [storeOp, CacheRequest.Put.injEq, Option.some.injEq, Lru.Op.Put.injEq]
          constructor
          · rintro ⟨rfl, rfl⟩
            exact ⟨rfl, rfl⟩
          · rintro ⟨rfl, rfl⟩
            exact ⟨rfl, rfl⟩
  | _ => simp [storeOp]

end ReferenceCache

/-! ## One call -/

namespace CompileCache

variable {K P : Type} [DecidableEq K]

/-- The elements of the list as items of a store. -/
def items (c : CompileCache K P) : List (K × SharedEntry K P) :=
  c.lru.map fun n => (n.key, n.shared)

/-- **The relation.**  The cache is in step, its counter is the sum of the sizes, and list and
counters are those of the reference. -/
structure Refines (capacity : ℕ) (c : CompileCache K P) (r : ReferenceCache K P) : Prop where
  inStep : c.InStep
  exact : c.Exact
  maxBytes_eq : c.maxBytes.toNat = capacity
  items_eq : c.items = r.store.items
  hits_eq : c.hits = r.hits
  misses_eq : c.misses = r.misses
  evictions_eq : c.evictions = r.store.evictions

section Calls

variable {capacity : ℕ} {c : CompileCache K P} {r : ReferenceCache K P}

omit [DecidableEq K] in
lemma total_items (c : CompileCache K P) : Lru.total SharedEntry.bytes c.items = c.total := by
  rw [Lru.total, items, total, List.map_map]
  rfl

lemma items_filter (c : CompileCache K P) (key : K) :
    c.items.filter (fun p => p.1 ≠ key) =
      (c.lru.filter fun n => n.key ≠ key).map fun n => (n.key, n.shared) := by
  rw [items, List.filter_map]
  rfl

/-- The map has as many keys as the list has elements. -/
lemma InStep.size_eq (h : c.InStep) : c.size = c.items.length := by
  have hkeys : c.map.keys.Perm (c.lru.map (·.key)) := by
    refine (List.perm_ext_iff_of_nodup c.map.keys_nodup h.keys_nodup).mpr fun key => ?_
    rw [← AList.mem_keys, ← AList.lookup_isSome, Option.isSome_iff_exists, List.mem_map]
    constructor
    · rintro ⟨v, hv⟩
      obtain ⟨n, hn, hkey, -⟩ := (h.lookup_iff key v).mp hv
      exact ⟨n, hn, hkey⟩
    · rintro ⟨n, hn, hkey⟩
      exact ⟨_, (h.lookup_iff key _).mpr ⟨n, hn, hkey, rfl⟩⟩
  have hlen := hkeys.length_eq
  rw [AList.keys, List.keys, List.length_map, List.length_map] at hlen
  rw [size, items, List.length_map, hlen]

/-- What a lookup finds is the element of the key. -/
lemma InStep.find_items (h : c.InStep) {n : LruNode K P} (hn : n ∈ c.lru) :
    c.items.find? (fun p => p.1 = n.key) = some (n.key, n.shared) := by
  have hex : ∃ p ∈ c.items, p.1 = n.key := ⟨_, List.mem_map_of_mem hn, rfl⟩
  obtain ⟨p, hfind⟩ := Option.isSome_iff_exists.mp
    (List.find?_isSome.mpr (by simpa using hex) :
      (c.items.find? fun p => decide (p.1 = n.key)).isSome)
  obtain ⟨m, hm, rfl⟩ := List.mem_map.mp (List.mem_of_find?_eq_some hfind)
  have hkey : m.key = n.key := by simpa using List.find?_some hfind
  have hmn : m = n := List.inj_on_of_nodup_map h.keys_nodup hm hn hkey
  rw [hfind, hmn]

/-- **`get`.** -/
lemma Refines.get (h : Refines capacity c r) (key : K) :
    ∃ c', c.get key = .ok ((r.store.get key).1, c') ∧
      Refines capacity c' (r.answer capacity (.Get key)).2 := by
  have hlook := h.inStep.getLookup key
  cases hlookup : c.map.lookup key with
  | none =>
      have hnone : ∀ p ∈ r.store.items, p.1 ≠ key := by
        rw [← h.items_eq]
        rintro p hp rfl
        obtain ⟨n, hn, rfl⟩ := List.mem_map.mp hp
        rw [(h.inStep.lookup_iff n.key _).mpr ⟨n, hn, rfl, rfl⟩] at hlookup
        cases hlookup
      have hfind : r.store.items.find? (fun p => p.1 = key) = none :=
        List.find?_eq_none.mpr (by simpa using hnone)
      have hget : r.store.get key = (none, r.store) := by rw [Lru.get, hfind]
      have hc : c.getLookup key = (false, { c with misses := c.misses + 1 }) := by
        rw [getLookup, hlookup]
      rw [hc] at hlook
      refine ⟨{ c with misses := c.misses + 1 }, ?_, ?_⟩
      · rw [CompileCache.get, hc, hget]
      · simp only [ReferenceCache.answer, hget]
        exact ⟨hlook, h.exact, h.maxBytes_eq, h.items_eq, h.hits_eq,
          congrArg (· + 1) h.misses_eq, h.evictions_eq⟩
  | some v =>
      obtain ⟨n, hn, rfl, rfl⟩ := (h.inStep.lookup_iff key v).mp hlookup
      have hfind := h.inStep.find_items hn
      rw [h.items_eq] at hfind
      have hget : r.store.get n.key = (some n.shared, { r.store with
          items := (n.key, n.shared) :: r.store.items.filter fun q => q.1 ≠ n.key }) := by
        rw [Lru.get, hfind]
      have hc : c.getLookup n.key = (true, { c with hits := c.hits + 1 }) := by
        rw [getLookup, hlookup]
      rw [hc] at hlook
      have hperm := moved_perm hlook hn
      rcases InStep.getPromote hlook n.key with ⟨-, hgone⟩ | ⟨m, hm, hkey, hprom⟩
      · exact absurd rfl (hgone n hn)
      obtain rfl : m = n := List.inj_on_of_nodup_map h.inStep.keys_nodup hm hn hkey
      refine ⟨_, by rw [CompileCache.get, hc, hget]; exact hprom, ?_⟩
      simp only [ReferenceCache.answer, hget]
      refine ⟨hlook.reordered hperm, Exact.reordered h.exact hperm, h.maxBytes_eq, ?_,
        congrArg (· + 1) h.hits_eq, h.misses_eq, h.evictions_eq⟩
      rw [← h.items_eq, items_filter]
      rfl

/-- The loop of `put` keeps the front part that fits. -/
lemma InStep.makeRoom_items (entrySize : UInt64) : ∀ (rounds : ℕ) {c : CompileCache K P}, c.InStep →
    c.Exact → c.total + entrySize.toNat < 2 ^ 64 → c.lru.length ≤ rounds →
    (CompileCache.makeRoom entrySize rounds c).items =
      Lru.fitting SharedEntry.bytes c.maxBytes.toNat entrySize.toNat c.items
  | 0, c, h, he, hlt, hlen => by
      have hnil : c.items = [] := by
        rw [items, List.length_eq_zero_iff.mp (Nat.le_zero.mp hlen), List.map_nil]
      rw [CompileCache.makeRoom, hnil]
      rfl
  | rounds + 1, c, h, he, hlt, hlen => by
      have hfull : c.maxBytes < c.currentBytes + entrySize ↔
          c.maxBytes.toNat < c.total + entrySize.toNat := by
        rw [UInt64.lt_iff_toNat_lt, UInt64.toNat_add, he.1, Nat.mod_eq_of_lt hlt]
      rw [CompileCache.makeRoom]
      by_cases hover : c.maxBytes.toNat < c.total + entrySize.toNat
      · rw [Lru.fitting_of_lt _ _ (by rwa [total_items])]
        by_cases hne : c.lru = []
        · rw [if_neg (by simp [hne]), items, hne]
          rfl
        · rw [if_pos ⟨hfull.mpr hover, by simpa using hne⟩]
          obtain ⟨hd, hlru, hmax, -, -, -, hexact⟩ := h.evictLruLocked hne
          have hpos := List.length_pos_iff.mpr hne
          have hless : c.evictLruLocked.total ≤ c.total := by
            rw [total, total, hlru]
            exact ((List.dropLast_sublist c.lru).map _).sum_le_sum (by simp)
          rw [hd.makeRoom_items entrySize rounds (hexact he) (by omega)
            (by rw [hlru, List.length_dropLast]; omega), hmax, items, items, hlru,
            List.map_dropLast]
      · rw [if_neg fun hboth => hover (hfull.mp hboth.1),
          Lru.fitting_of_le _ _ (by rw [total_items]; omega)]

/-- **`put`.** -/
lemma Refines.put (h : Refines capacity c r) (s : SharedEntry K P)
    (hfit : r.SizesFit (.Put (some s))) :
    ∃ c', c.put (some s) = .ok (some s, c') ∧
      Refines capacity c' (r.answer capacity (.Put (some s))).2 := by
  obtain ⟨c₁, hremove, h₁, hlru, hmax, hevict, hhits, hmisses, hexact⟩ :=
    h.inStep.removeKey s.entry.key
  have hitems₁ : c₁.items = r.store.items.filter fun p => p.1 ≠ s.entry.key := by
    rw [← h.items_eq, items_filter, items, hlru]
  have htotal₁ : c₁.total + s.entry.sizeBytes.toNat < 2 ^ 64 := by
    rw [← total_items, hitems₁]
    exact hfit
  have hroom := h₁.makeRoom s.entry.sizeBytes c₁.lru.length le_rfl
  have hkept := h₁.makeRoom_items s.entry.sizeBytes c₁.lru.length (hexact h.exact) htotal₁ le_rfl
  rw [hmax, h.maxBytes_eq, hitems₁] at hkept
  obtain ⟨d, hput, hstored⟩ := h.inStep.put s
  have hd : d = (makeRoom s.entry.sizeBytes c₁.lru.length c₁).insertFront s := by
    simp only [CompileCache.put, hremove, ok_bind] at hput
    exact (Prod.mk.inj (Except.ok.inj hput)).2.symm
  refine ⟨d, hput, hstored.inStep, hstored.exact h.exact ?_, ?_, ?_, ?_, ?_, ?_⟩
  · rw [totalWithout, ← hlru]
    exact htotal₁
  · rw [hstored.maxBytes_eq]
    exact h.maxBytes_eq
  · rw [hd]
    exact congrArg ((s.entry.key, s) :: ·) hkept
  · rw [hstored.hits_eq]
    exact h.hits_eq
  · rw [hstored.misses_eq]
    exact h.misses_eq
  · have hlen : (makeRoom s.entry.sizeBytes c₁.lru.length c₁).lru.length =
        (Lru.fitting SharedEntry.bytes capacity s.bytes
          (r.store.items.filter fun p => p.1 ≠ s.entry.key)).length := by
      rw [← List.length_map (f := fun n => (n.key, n.shared))]
      exact congrArg List.length hkept
    have hlen₁ : c₁.lru.length = (r.store.items.filter fun p => p.1 ≠ s.entry.key).length := by
      rw [← List.length_map (f := fun n => (n.key, n.shared))]
      exact congrArg List.length hitems₁
    have hcount := hroom.evictions_eq
    have hbefore := h.evictions_eq
    have hle := (Lru.fitting_begins SharedEntry.bytes capacity s.bytes
      (r.store.items.filter fun p => p.1 ≠ s.entry.key)).length_le
    rw [hd]
    show (makeRoom s.entry.sizeBytes c₁.lru.length c₁).evictions = r.store.evictions +
      ((r.store.items.filter fun p => p.1 ≠ s.entry.key).length -
        (Lru.fitting SharedEntry.bytes capacity s.bytes
          (r.store.items.filter fun p => p.1 ≠ s.entry.key)).length)
    omega

/-- **One call.**  Related states answer alike and stay related. -/
lemma Refines.serve (h : Refines capacity c r) (q : CacheRequest K P) (hfit : r.SizesFit q) :
    ∃ c', c.serve q = .ok ((r.answer capacity q).1, c') ∧
      Refines capacity c' (r.answer capacity q).2 := by
  cases q with
  | Get key =>
      obtain ⟨c', hget, hc'⟩ := h.get key
      refine ⟨c', ?_, hc'⟩
      simp only [CompileCache.serve, hget, ok_bind]
      rfl
  | Put entry =>
      cases entry with
      | none => exact ⟨c, rfl, h⟩
      | some s =>
          obtain ⟨c', hput, hc'⟩ := h.put s hfit
          refine ⟨c', ?_, hc'⟩
          simp only [CompileCache.serve, hput, ok_bind]
          rfl
  | Flush =>
      exact ⟨c.flush, rfl, inStep_flush c, ⟨rfl, h.exact.2⟩, h.maxBytes_eq, rfl, h.hits_eq,
        h.misses_eq, h.evictions_eq⟩
  | SizeBytes =>
      refine ⟨c, ?_, h⟩
      rw [CompileCache.serve, h.exact.1, ← total_items, h.items_eq]
      rfl
  | Size =>
      refine ⟨c, ?_, h⟩
      rw [CompileCache.serve, h.inStep.size_eq, h.items_eq]
      rfl
  | Stats =>
      refine ⟨c, ?_, h⟩
      rw [CompileCache.serve, h.hits_eq, h.misses_eq, h.evictions_eq]
      rfl

end Calls

/-! ## Histories -/

variable (K P) in
/-- An empty cache refines an empty store. -/
lemma refines_empty (maxBytes : UInt64) :
    Refines maxBytes.toNat ({ maxBytes } : CompileCache K P) {} :=
  ⟨inStep_empty maxBytes, ⟨rfl, rfl⟩, rfl, rfl, rfl, rfl, rfl⟩

/-- The operations of the store among the calls made, the latest first. -/
def pastOps (calls : List (CacheRequest K P)) : List (Lru.Op K (SharedEntry K P)) :=
  calls.reverse.filterMap ReferenceCache.storeOp

/-- The store of the reference describes every history. -/
lemma describes_respond (capacity : ℕ) (calls : List (CacheRequest K P)) :
    Lru.Describes (pastOps calls)
      (respond (ReferenceCache.answer capacity) {} calls).2.store := by
  have hinv := respond_invariant (ReferenceCache.answer (K := K) (P := P) capacity)
    (fun past r => Lru.Describes (past.filterMap ReferenceCache.storeOp) r.store)
    (fun past r q h => by
      rw [ReferenceCache.answer_store]
      cases hop : ReferenceCache.storeOp q with
      | none =>
          rw [List.filterMap_cons_none hop]
          exact h
      | some o =>
          rw [List.filterMap_cons_some hop]
          exact Lru.step_describes _ _ h o)
    calls [] {} ⟨List.nodup_nil, by simp, List.Pairwise.nil⟩
  rwa [List.append_nil] at hinv

/-- **The cache refines a store of recently used entries.**  As long as the sizes fit a `size_t`,
every history of calls gets the answers of the reference and touches no dangling iterator; and what
the reference holds under a key is what was put there last, the keys being in the order of their
last use.  Among the answers are the statistics; their 64-bit counters do not wrap in a history of
fewer than `2 ^ 64` calls. -/
theorem cache_refines_lru (maxBytes : UInt64) (calls : List (CacheRequest K P))
    (hfit : Meets (ReferenceCache.answer maxBytes.toNat) ReferenceCache.SizesFit {} calls) :
    ∃ c : CompileCache K P,
      Simulation.serve CompileCache.serve { maxBytes } calls =
        .ok ((respond (ReferenceCache.answer maxBytes.toNat) {} calls).1, c) ∧
      c.items = (respond (ReferenceCache.answer maxBytes.toNat) {} calls).2.store.items ∧
      Lru.Describes (pastOps calls)
        (respond (ReferenceCache.answer maxBytes.toNat) {} calls).2.store := by
  obtain ⟨c, hserve, hc⟩ := simulation (fun _ _ q h hq => h.serve q hq) calls _ _
    (refines_empty K P maxBytes) hfit
  exact ⟨c, hserve, hc.items_eq, describes_respond maxBytes.toNat calls⟩

/-- Two entries of which only one fits: the first is gone, and that counts as an eviction. -/
theorem cache_refines_lru_two :
    ∃ c : CompileCache ℕ ℕ, Simulation.serve CompileCache.serve { maxBytes := 1000 }
        [.Put (some ⟨0, { key := 7, sizeBytes := 600 }⟩),
          .Put (some ⟨1, { key := 8, sizeBytes := 700 }⟩), .Get 7, .Stats] =
      .ok ([.Entry (some ⟨0, { key := 7, sizeBytes := 600 }⟩),
        .Entry (some ⟨1, { key := 8, sizeBytes := 700 }⟩), .Entry none, .Counters 0 1 1], c) := by
  obtain ⟨c, hserve, -⟩ := cache_refines_lru (K := ℕ) (P := ℕ) 1000
    [.Put (some ⟨0, { key := 7, sizeBytes := 600 }⟩),
      .Put (some ⟨1, { key := 8, sizeBytes := 700 }⟩), .Get 7, .Stats]
    ⟨show (_ : ℕ) < _ by decide, show (_ : ℕ) < _ by decide, trivial, trivial, trivial⟩
  exact ⟨c, hserve⟩

/-! ## The contract -/

/-- What the reference holds was put, and every call since has kept it. -/
lemma mem_respond_iff (capacity : ℕ) (calls : List (CacheRequest K P)) (key : K)
    (s : SharedEntry K P) :
    (key, s) ∈ (respond (ReferenceCache.answer capacity) {} calls).2.store.items ↔
      ∃ before since, calls = before ++ .Put (some s) :: since ∧ s.entry.key = key ∧
        Meets (ReferenceCache.answer capacity) (ReferenceCache.Keeps capacity key)
          ((respond (ReferenceCache.answer capacity) {} before).2.answer capacity
            (.Put (some s))).2 since := by
  have hinv : ∀ (r : ReferenceCache K P) (q : CacheRequest K P),
      (∃ past, Lru.Describes past r.store) →
        ∃ past, Lru.Describes past (r.answer capacity q).2.store := by
    rintro r q ⟨past, h⟩
    rw [ReferenceCache.answer_store]
    cases ReferenceCache.storeOp q with
    | none => exact ⟨past, h⟩
    | some o => exact ⟨_, Lru.step_describes _ _ h o⟩
  have hstep : ∀ (r : ReferenceCache K P) (q : CacheRequest K P),
      (∃ past, Lru.Describes past r.store) →
        ((key, s) ∈ (r.answer capacity q).2.store.items ↔
          (q = .Put (some s) ∧ s.entry.key = key) ∨
            (key, s) ∈ r.store.items ∧ r.Keeps capacity key q) := by
    rintro r q ⟨past, h⟩
    rw [ReferenceCache.answer_store, ← ReferenceCache.storeOp_eq_put_iff, ReferenceCache.Keeps]
    cases ReferenceCache.storeOp q with
    | none => simp
    | some o => simpa using Lru.mem_step_iff SharedEntry.bytes capacity h.keys_nodup o
  have hempty : ∃ past, Lru.Describes past ({} : ReferenceCache K P).store :=
    ⟨[], List.nodup_nil, by simp, List.Pairwise.nil⟩
  rw [respond_since (H := fun r => (key, s) ∈ r.store.items) _ hinv hstep calls {} hempty]
  constructor
  · rintro (⟨hmem, -⟩ | ⟨before, q, since, rfl, ⟨rfl, hkey⟩, hmeets⟩)
    · cases hmem
    · exact ⟨before, since, rfl, hkey, hmeets⟩
  · rintro ⟨before, since, rfl, hkey, hmeets⟩
    exact .inr ⟨before, _, since, rfl, ⟨rfl, hkey⟩, hmeets⟩

/-- **The contract of the cache.**  After every history, as long as the sizes fit a `size_t`: all
answers have been those of the reference; `get` finds an entry exactly when it was put under the key
and no call since has replaced, dropped or flushed it, and moves it to the front; `put` replaces the
entry of its key, which is no eviction, and then drops entries from the end, each of which left no
room for the new one; the sizes are those of what is there. -/
theorem cache_contract (maxBytes : UInt64) (calls : List (CacheRequest K P))
    (hfit : Meets (ReferenceCache.answer maxBytes.toNat) ReferenceCache.SizesFit {} calls) :
    ∃ c : CompileCache K P,
      Simulation.serve CompileCache.serve { maxBytes } calls =
        .ok ((respond (ReferenceCache.answer maxBytes.toNat) {} calls).1, c) ∧
      (∀ key s, (∃ c', c.get key = .ok (some s, c')) ↔
        ∃ before since, calls = before ++ .Put (some s) :: since ∧ s.entry.key = key ∧
          Meets (ReferenceCache.answer maxBytes.toNat) (ReferenceCache.Keeps maxBytes.toNat key)
            ((respond (ReferenceCache.answer maxBytes.toNat) {} before).2.answer maxBytes.toNat
              (.Put (some s))).2 since) ∧
      (∀ key, ∃ found c', c.get key = .ok (found, c') ∧
        c'.items = found.elim c.items fun s => (key, s) :: c.items.filter fun p => p.1 ≠ key) ∧
      (∀ s, (respond (ReferenceCache.answer maxBytes.toNat) {} calls).2.SizesFit (.Put (some s)) →
        ∃ kept dropped c', c.items.filter (fun p => p.1 ≠ s.entry.key) = kept ++ dropped ∧
          c.put (some s) = .ok (some s, c') ∧ c'.items = (s.entry.key, s) :: kept ∧
          c'.evictions = c.evictions + dropped.length ∧
          (kept = [] ∨ Lru.total SharedEntry.bytes kept + s.bytes ≤ maxBytes.toNat) ∧
          ∀ p rest, dropped = p :: rest →
            maxBytes.toNat < Lru.total SharedEntry.bytes (kept ++ [p]) + s.bytes) ∧
      c.currentBytes.toNat = Lru.total SharedEntry.bytes c.items ∧ c.size = c.items.length := by
  obtain ⟨c, hserve, hc⟩ := simulation (fun _ _ q h hq => h.serve q hq) calls _ _
    (refines_empty K P maxBytes) hfit
  refine ⟨c, hserve, fun key s => ?_, fun key => ?_, fun s hs => ?_, ?_, hc.inStep.size_eq⟩
  · obtain ⟨c', hget, -⟩ := hc.get key
    have hnodup := (describes_respond maxBytes.toNat calls).keys_nodup
    rw [← mem_respond_iff, ← Lru.get_eq_some_iff hnodup, hget]
    constructor
    · rintro ⟨_, he⟩
      exact (Prod.mk.inj (Except.ok.inj he)).1
    · exact fun he => ⟨c', by rw [he]⟩
  · obtain ⟨c', hget, hc'⟩ := hc.get key
    refine ⟨_, c', hget, ?_⟩
    rw [hc'.items_eq, hc.items_eq]
    exact Lru.get_items key
  · obtain ⟨c', hput, hc'⟩ := hc.put s hs
    obtain ⟨dropped, hsplit, hroom, hfirst⟩ := Lru.exists_dropped SharedEntry.bytes maxBytes.toNat
      s.bytes (c.items.filter fun p => p.1 ≠ s.entry.key)
    refine ⟨_, dropped, c', hsplit, hput, ?_, ?_, hroom, hfirst⟩
    · rw [hc'.items_eq, hc.items_eq]
      rfl
    · have hlen := congrArg List.length hsplit
      rw [List.length_append] at hlen
      rw [hc'.evictions_eq, hc.evictions_eq]
      show _ + (_ - _) = _
      rw [← hc.items_eq]
      omega
  · rw [hc.exact.1, total_items]

/-- Three entries of which two fit: the one that was asked for stays. -/
theorem cache_contract_asked :
    ∃ c : CompileCache ℕ ℕ, Simulation.serve CompileCache.serve { maxBytes := 1000 }
        [.Put (some ⟨0, { key := 7, sizeBytes := 500 }⟩),
          .Put (some ⟨1, { key := 8, sizeBytes := 400 }⟩), .Get 7,
          .Put (some ⟨2, { key := 9, sizeBytes := 300 }⟩), .Get 8, .Stats] =
      .ok ([.Entry (some ⟨0, { key := 7, sizeBytes := 500 }⟩),
        .Entry (some ⟨1, { key := 8, sizeBytes := 400 }⟩),
        .Entry (some ⟨0, { key := 7, sizeBytes := 500 }⟩),
        .Entry (some ⟨2, { key := 9, sizeBytes := 300 }⟩), .Entry none, .Counters 1 1 1], c) ∧
      ∃ c', c.get 7 = .ok (some ⟨0, { key := 7, sizeBytes := 500 }⟩, c') := by
  obtain ⟨c, hserve, hget, -⟩ := cache_contract (K := ℕ) (P := ℕ) 1000
    [.Put (some ⟨0, { key := 7, sizeBytes := 500 }⟩),
      .Put (some ⟨1, { key := 8, sizeBytes := 400 }⟩), .Get 7,
      .Put (some ⟨2, { key := 9, sizeBytes := 300 }⟩), .Get 8, .Stats]
    ⟨show (_ : ℕ) < _ by decide, show (_ : ℕ) < _ by decide, trivial, show (_ : ℕ) < _ by decide,
      trivial, trivial, trivial⟩
  refine ⟨c, hserve, (hget 7 _).mpr ⟨[], _, rfl, rfl, ?_, ?_, ?_, ?_, by rintro _ ⟨⟩, trivial⟩⟩
  all_goals
    rintro _ ⟨⟩
    exact ⟨by simp, by simp, by decide +kernel⟩

end CompileCache

end Libane
