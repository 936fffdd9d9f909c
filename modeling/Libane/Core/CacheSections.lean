import Libane.Core.CompileCache
import Libane.Foundation.Runs

/-!
# Threads on the compile cache

Any number of threads call `get`, `put` and `flush`.  Each critical section is one step; between
the two sections of a `get` the other threads may do anything, the entry that was seen may be
replaced or evicted or come back.

* `CacheThreads.runSection` — one section of one thread.
* `cache_integrity` — after every section of every interleaving the parts of the cache agree.
-/

namespace Libane

open CompileCache Runs

/-- The critical sections. -/
inductive CacheSection (K P : Type) where
  | Lookup (key : K)
  | Promote
  | Put (entry : Option (SharedEntry K P))
  | Flush
  deriving DecidableEq

/-- The cache and, for every thread, the key of a `get` that is between its two sections. -/
structure CacheThreads (K P : Type) where
  cache : CompileCache K P
  waiting : ℕ → Option K := fun _ => none

namespace CacheThreads

variable {K P : Type} [DecidableEq K]

/-- The next critical section of a thread. -/
def runSection (w : CacheThreads K P) : ℕ × CacheSection K P → Outcome (CacheThreads K P)
  | (t, .Lookup key) =>
      let (hit, cache) := w.cache.getLookup key
      .ok { cache, waiting := Function.update w.waiting t (if hit then some key else none) }
  | (t, .Promote) =>
      match w.waiting t with
      | none => .ok w
      | some key => do
          let (_, cache) ← w.cache.getPromote key
          return { cache, waiting := Function.update w.waiting t none }
  | (_, .Put entry) => do
      let (_, cache) ← w.cache.put entry
      return { w with cache }
  | (_, .Flush) => .ok { w with cache := w.cache.flush }

/-- Before anything has happened. -/
def start (maxBytes : UInt64) : CacheThreads K P := { cache := { maxBytes } }

/-- The sizes in the cache and that of the entry that a section puts add up to less than
`2 ^ 64`. -/
def SizesFit (w : CacheThreads K P) : ℕ × CacheSection K P → Prop
  | (_, .Put (some s)) => w.cache.totalWithout s.entry.key + s.entry.sizeBytes.toNat < 2 ^ 64
  | _ => True

/-- Within the capacity, or holding the given entry only. -/
def Bounded (c : CompileCache K P) (s : SharedEntry K P) : Prop :=
  c.currentBytes ≤ c.maxBytes ∨ c.lru.map (·.shared) = [s]

section Steps

variable {w : CacheThreads K P}

/-- **One section.**  It touches no dangling iterator and keeps the cache in step; a `put` leaves
the cache bounded, and the counter stays exact when the sizes fit. -/
lemma runSection_spec (h : w.cache.InStep) (a : ℕ × CacheSection K P) :
    ∃ w', runSection w a = .ok w' ∧ w'.cache.InStep ∧ w'.cache.maxBytes = w.cache.maxBytes ∧
      (w.cache.Exact → SizesFit w a → w'.cache.Exact) ∧
      ∀ t s, a = (t, .Put (some s)) → Bounded w'.cache s := by
  obtain ⟨t, sec⟩ := a
  cases sec with
  | Lookup key =>
      refine ⟨_, rfl, h.getLookup key, ?_, fun he _ => ?_, by simp⟩
      · show (w.cache.getLookup key).2.maxBytes = _
        rw [getLookup]
        cases w.cache.map.lookup key <;> rfl
      · show (w.cache.getLookup key).2.Exact
        rw [getLookup]
        cases w.cache.map.lookup key <;> exact he
  | Promote =>
      rw [runSection]
      cases w.waiting t with
      | none => exact ⟨w, rfl, h, rfl, fun he _ => he, by simp⟩
      | some key =>
          rcases h.getPromote key with ⟨heq, -⟩ | ⟨n, hn, rfl, heq⟩
          · simp only [heq, ok_bind]
            exact ⟨_, rfl, h, rfl, fun he _ => he, by simp⟩
          · simp only [heq, ok_bind]
            have hperm := moved_perm h hn
            exact ⟨_, rfl, h.reordered hperm, rfl, fun he _ => he.reordered hperm, by simp⟩
  | Put entry =>
      rw [runSection]
      cases entry with
      | none => exact ⟨_, rfl, h, rfl, fun he _ => he, by simp⟩
      | some s =>
          obtain ⟨d, heq, hd⟩ := h.put s
          rw [heq]
          refine ⟨_, rfl, hd.inStep, hd.maxBytes_eq, hd.exact, ?_⟩
          rintro _ _ ⟨⟩
          exact hd.bounded
  | Flush => exact ⟨_, rfl, inStep_flush _, rfl, fun he _ => ⟨rfl, he.2⟩, by simp⟩

end Steps

/-- **Integrity.**  After every section of every interleaving, list and map hold the same entries
under different keys, every iterator points to its own entry, and the counter is the sum of the
sizes in `size_t` arithmetic; directly after a `put` the cache is within its capacity or holds the
new entry only.  As long as the sizes add up to less than `2 ^ 64`, the counter is the sum itself
and has never wrapped. -/
theorem cache_integrity (maxBytes : UInt64) (acts : List (ℕ × CacheSection K P)) :
    ∃ w, runM runSection (start maxBytes) acts = .ok w ∧ w.cache.InStep ∧
      w.cache.maxBytes = maxBytes ∧
      (Along runSection SizesFit (start maxBytes) acts → w.cache.Exact) ∧
      ∀ past t s, acts = past ++ [(t, .Put (some s))] → Bounded w.cache s := by
  have hinv : ∀ acts : List (ℕ × CacheSection K P), ∃ w,
      runM runSection (start maxBytes) acts = .ok w ∧ w.cache.InStep ∧
        w.cache.maxBytes = maxBytes := fun acts =>
    runM_induction runSection (I := fun w => w.cache.InStep ∧ w.cache.maxBytes = maxBytes)
      (fun w a hw => by
        obtain ⟨w', heq, hin, hmax, -⟩ := runSection_spec hw.1 a
        exact ⟨w', heq, hin, hmax.trans hw.2⟩)
      acts _ ⟨inStep_empty maxBytes, rfl⟩
  obtain ⟨w, hw, hin, hmax⟩ := hinv acts
  refine ⟨w, hw, hin, hmax, fun halong => ?_, fun past t s hacts => ?_⟩
  · obtain ⟨w', hw', -, hexact⟩ := runM_induction_along runSection
      (I := fun w => w.cache.InStep ∧ w.cache.Exact) (P := SizesFit) (fun w a hw hfit => by
        obtain ⟨w', heq, hin, -, hexact, -⟩ := runSection_spec hw.1 a
        exact ⟨w', heq, hin, hexact hw.2 hfit⟩)
      acts _ ⟨inStep_empty maxBytes, rfl, rfl⟩ halong
    rw [hw, Except.ok.injEq] at hw'
    rwa [hw']
  · -- the state before the last section
    obtain ⟨v, hv, hvin, -⟩ := hinv past
    obtain ⟨v', heq, -, -, -, hbounded⟩ := runSection_spec hvin (t, .Put (some s))
    rw [hacts, runM_concat runSection hv, heq] at hw
    obtain rfl := Except.ok.inj hw
    exact hbounded t s rfl

/-- Two entries of `2 ^ 63` bytes each: the counter reads zero, and taking one of them off again
wraps it. -/
theorem counter_wraps :
    (∃ w, runM runSection (start (K := ℕ) (P := ℕ) (0xFFFFFFFFFFFFFFFF))
        [(0, .Put (some ⟨0, { key := 0, sizeBytes := 0x8000000000000000 }⟩)),
          (1, .Put (some ⟨1, { key := 1, sizeBytes := 0x8000000000000000 }⟩))] = .ok w ∧
      w.cache.currentBytes = 0 ∧ w.cache.total = 2 ^ 64) ∧
    ∃ w, runM runSection (start (K := ℕ) (P := ℕ) (0xFFFFFFFFFFFFFFFF))
        [(0, .Put (some ⟨0, { key := 0, sizeBytes := 0x8000000000000000 }⟩)),
          (1, .Put (some ⟨1, { key := 1, sizeBytes := 0x8000000000000000 }⟩)),
          (0, .Put (some ⟨2, { key := 0, sizeBytes := 0 }⟩))] = .ok w ∧
      w.cache.underflowed = true :=
  ⟨⟨_, rfl, by decide, by decide⟩, _, rfl, by decide⟩

end CacheThreads

end Libane
