import Libane.Core.CacheSections

/-!
# What the statistics count

Threads make calls of the cache, and every `get` returns an entry or `nullptr`.  A `get` counts as
a hit or as a miss in its first critical section and finds what it returns in its second one.

**Why they disagree.**  Between the two sections the key can be evicted or flushed, and then the hit
that was counted returns `nullptr`.  Nothing takes such a hit back, so the difference between the
counters and the results only grows (`runM_turn_spec`): the counters are right at the end if and
only if they were never wrong.

* `CacheClients.turn` — the next critical section of a thread.
* `Kept` — the key of a `get` is still there in its second section.
* `Balanced` — the counters against the results, when `n` keys were gone.
* `stats_count_iff` — the counters count the results if and only if no key was ever gone.
-/

namespace Libane

open CompileCache CacheThreads Runs

/-- A call of the cache. -/
inductive CacheCall (K P : Type) where
  | Get (key : K)
  | Put (entry : Option (SharedEntry K P))
  | Flush
  deriving DecidableEq

/-- The threads, and what the `get`s have returned, the latest first. -/
structure CacheClients (K P : Type) where
  threads : CacheThreads K P
  returned : List (Option (SharedEntry K P)) := []

namespace CacheClients

variable {K P : Type} [DecidableEq K]

/-- A thread takes its next critical section: the second one of its `get` if it is in one, and
otherwise the first one of the call that it makes. -/
def turn (w : CacheClients K P) : ℕ × CacheCall K P → Outcome (CacheClients K P)
  | (t, call) =>
      match w.threads.waiting t, call with
      | some key, _ => do
          let (entry, _) ← w.threads.cache.getPromote key
          let threads ← runSection w.threads (t, .Promote)
          return { threads, returned := entry :: w.returned }
      | none, .Get key => do
          let threads ← runSection w.threads (t, .Lookup key)
          return {
            threads
            returned := if (w.threads.cache.getLookup key).1 then w.returned
              else none :: w.returned }
      | none, .Put entry => do
          let threads ← runSection w.threads (t, .Put entry)
          return { w with threads }
      | none, .Flush => do
          let threads ← runSection w.threads (t, .Flush)
          return { w with threads }

/-- Before anything has happened. -/
def start (maxBytes : UInt64) : CacheClients K P := { threads := CacheThreads.start maxBytes }

/-- The calls of `get` that returned an entry. -/
def entries (w : CacheClients K P) : ℕ := w.returned.countP (·.isSome)

/-- The calls of `get` that returned `nullptr`. -/
def nullptrs (w : CacheClients K P) : ℕ := w.returned.countP (·.isNone)

/-- When the thread is between the two sections of a `get`, the key is still in the cache. -/
def Kept (w : CacheClients K P) : ℕ × CacheCall K P → Prop
  | (t, _) => ∀ key, w.threads.waiting t = some key → w.threads.cache.map.lookup key ≠ none

/-- **The counters against the results.**  The hits are the entries returned, the `get`s between
their sections and the `n` keys that were gone; the latter are missing from the misses. -/
def Balanced (w : CacheClients K P) (n : ℕ) : Prop :=
  ∃ inFlight : Finset ℕ, (∀ t, t ∈ inFlight ↔ w.threads.waiting t ≠ none) ∧
    w.threads.cache.hits = w.entries + inFlight.card + n ∧
    w.threads.cache.misses + n = w.nullptrs

omit [DecidableEq K] in
lemma balanced_start (maxBytes : UInt64) : (start maxBytes : CacheClients K P).Balanced 0 :=
  ⟨∅, by simp [start, CacheThreads.start], rfl, rfl⟩

section Steps

variable {w w' : CacheClients K P} {n : ℕ}

/-- Promotion touches neither the map nor the counters. -/
lemma getPromote_frame {c c' : CompileCache K P} {key : K} {r : Option (SharedEntry K P)}
    (hc : c.InStep) (h : c.getPromote key = .ok (r, c')) :
    c'.hits = c.hits ∧ c'.misses = c.misses ∧ (r = none ↔ c.map.lookup key = none) := by
  rcases hc.getPromote key with ⟨heq, hnone⟩ | ⟨n, hn, hkey, heq⟩
  · obtain ⟨rfl, rfl⟩ := Prod.mk.inj (Except.ok.inj (heq.symm.trans h))
    refine ⟨rfl, rfl, iff_of_true rfl ?_⟩
    cases hlookup : c.map.lookup key with
    | none => rfl
    | some v =>
        obtain ⟨n, hn, hkey, -⟩ := (hc.lookup_iff key v).mp hlookup
        exact absurd hkey (hnone n hn)
  · obtain ⟨rfl, rfl⟩ := Prod.mk.inj (Except.ok.inj (heq.symm.trans h))
    refine ⟨rfl, rfl, iff_of_false (by simp) ?_⟩
    rw [(hc.lookup_iff key _).mpr ⟨n, hn, hkey, rfl⟩]
    simp

omit [DecidableEq K] in
/-- A `get` returns: one less is in flight, and the key was gone if it returns `nullptr`. -/
lemma Balanced.returned (h : w.Balanced n) {t : ℕ} {key : K}
    (hwait : w.threads.waiting t = some key) {c : CompileCache K P}
    (hhits : c.hits = w.threads.cache.hits) (hmisses : c.misses = w.threads.cache.misses)
    (r : Option (SharedEntry K P)) :
    Balanced {
      threads := { cache := c, waiting := Function.update w.threads.waiting t none }
      returned := r :: w.returned } (n + if r = none then 1 else 0) := by
  obtain ⟨inFlight, hmem, hh, hm⟩ := h
  have ht : t ∈ inFlight := (hmem t).mpr (by simp [hwait])
  have hcard := Finset.card_erase_add_one ht
  refine ⟨inFlight.erase t, fun u => ?_, ?_, ?_⟩
  · by_cases hu : u = t
    · simp [hu]
    · simp [hu, hmem u]
  · show c.hits = _
    cases r <;> simp [entries] at hh ⊢ <;> omega
  · show c.misses + _ = _
    cases r <;> simp [nullptrs] at hm ⊢ <;> omega

omit [DecidableEq K] in
/-- The first section of a `get`: a hit is in flight, a miss returns. -/
lemma Balanced.looked (h : w.Balanced n) {t : ℕ} (hwait : w.threads.waiting t = none)
    (key : K) {c : CompileCache K P} (hit : Bool)
    (hhits : c.hits = w.threads.cache.hits + if hit then 1 else 0)
    (hmisses : c.misses = w.threads.cache.misses + if hit then 0 else 1) :
    Balanced {
      threads := {
        cache := c
        waiting := Function.update w.threads.waiting t (if hit then some key else none) }
      returned := if hit then w.returned else none :: w.returned } n := by
  obtain ⟨inFlight, hmem, hh, hm⟩ := h
  have ht : t ∉ inFlight := fun hin => (hmem t).mp hin hwait
  cases hit with
  | true =>
      refine ⟨insert t inFlight, fun u => ?_, ?_, ?_⟩
      · by_cases hu : u = t
        · simp [hu]
        · simp [hu, hmem u]
      · show c.hits = _
        rw [Finset.card_insert_of_notMem ht]
        simp [entries] at hh hhits ⊢
        omega
      · show c.misses + n = _
        simp [nullptrs] at hm hmisses ⊢
        omega
  | false =>
      refine ⟨inFlight, fun u => ?_, ?_, ?_⟩
      · by_cases hu : u = t
        · simp [hu, ht]
        · simp [hu, hmem u]
      · show c.hits = _
        simp [entries] at hh hhits ⊢
        omega
      · show c.misses + n = _
        simp [nullptrs] at hm hmisses ⊢
        omega

omit [DecidableEq K] in
/-- A turn that changes neither the threads between two sections nor the counters. -/
lemma Balanced.unchanged (h : w.Balanced n) {c : CompileCache K P}
    (hhits : c.hits = w.threads.cache.hits) (hmisses : c.misses = w.threads.cache.misses) :
    Balanced { w with threads := { w.threads with cache := c } } n := by
  obtain ⟨inFlight, hmem, hh, hm⟩ := h
  exact ⟨inFlight, hmem, hhits.trans hh, (congrArg (· + n) hmisses).trans hm⟩

/-- **One turn.**  It succeeds, and one more key is gone exactly when a `get` finds it so in its
second section. -/
lemma turn_spec (hw : w.threads.cache.InStep) (a : ℕ × CacheCall K P) :
    ∃ w', turn w a = .ok w' ∧ w'.threads.cache.InStep ∧
      (Kept w a → w.Balanced n → w'.Balanced n) ∧
      (¬ Kept w a → w.Balanced n → w'.Balanced (n + 1)) := by
  obtain ⟨t, call⟩ := a
  cases hwait : w.threads.waiting t with
  | some key =>
      obtain ⟨threads, hsec, hin, -⟩ := runSection_spec hw (t, .Promote)
      have hsec' := hsec
      rw [runSection, hwait] at hsec'
      obtain ⟨⟨r, c⟩, hprom, hthreads⟩ := bind_eq_ok.mp hsec'
      obtain rfl := Except.ok.inj hthreads
      obtain ⟨hhits, hmisses, hgone⟩ := getPromote_frame hw hprom
      have hkept : Kept w (t, call) ↔ ¬ r = none := by simp [Kept, hwait, hgone]
      have hturn : turn w (t, call) = .ok {
          threads := { cache := c, waiting := Function.update w.threads.waiting t none }
          returned := r :: w.returned } := by
        simp only [turn, hwait, hprom, hsec, ok_bind]
        rfl
      refine ⟨_, hturn, hin, fun hk hb => ?_, fun hk hb => ?_⟩
      · simpa [hkept.mp hk] using hb.returned hwait hhits hmisses r
      · simpa [not_not.mp (mt hkept.mpr hk)] using hb.returned hwait hhits hmisses r
  | none =>
      have hkept : Kept w (t, call) := by simp [Kept, hwait]
      cases call with
      | Get key =>
          have hturn : turn w (t, .Get key) = .ok {
              threads := {
                cache := (w.threads.cache.getLookup key).2
                waiting := Function.update w.threads.waiting t
                  (if (w.threads.cache.getLookup key).1 then some key else none) }
              returned := if (w.threads.cache.getLookup key).1 then w.returned
                else none :: w.returned } := by
            simp only [turn, hwait]
            rfl
          refine ⟨_, hturn, hw.getLookup key, fun _ hb => hb.looked hwait key _ ?_ ?_,
            fun hk => absurd hkept hk⟩
          all_goals
            rw [getLookup]
            cases w.threads.cache.map.lookup key <;> rfl
      | Put entry =>
          cases entry with
          | none =>
              refine ⟨w, ?_, hw, fun _ hb => hb, fun hk => absurd hkept hk⟩
              simp only [turn, hwait]
              rfl
          | some s =>
              obtain ⟨d, hput, hd⟩ := hw.put s
              refine ⟨{ w with threads := { w.threads with cache := d } }, ?_, hd.inStep,
                fun _ hb => hb.unchanged hd.hits_eq hd.misses_eq, fun hk => absurd hkept hk⟩
              simp only [turn, hwait, runSection, hput, ok_bind]
              rfl
      | Flush =>
          refine ⟨{ w with threads := { w.threads with cache := w.threads.cache.flush } }, ?_,
            inStep_flush _, fun _ hb => hb.unchanged rfl rfl, fun hk => absurd hkept hk⟩
          simp only [turn, hwait]
          rfl

/-- **A run.**  The keys that are gone are counted one by one. -/
lemma runM_turn_spec : ∀ (calls : List (ℕ × CacheCall K P)) (w : CacheClients K P) (n : ℕ),
    w.threads.cache.InStep → w.Balanced n → ∃ w' m, runM turn w calls = .ok w' ∧
      w'.Balanced m ∧ n ≤ m ∧ (m = n ↔ Along turn Kept w calls)
  | [], w, n, _, hb => ⟨w, n, rfl, hb, le_rfl, iff_of_true rfl trivial⟩
  | a :: calls, w, n, hw, hb => by
      obtain ⟨w₁, hturn, hw₁, hkept, hgone⟩ := turn_spec hw a
      have halong : Along turn Kept w (a :: calls) ↔ Kept w a ∧ Along turn Kept w₁ calls := by
        simp [Along, hturn]
      rw [halong, runM_cons, hturn]
      by_cases hk : Kept w a
      · obtain ⟨w', m, hrun, hbal, hle, hiff⟩ := runM_turn_spec calls w₁ n hw₁ (hkept hk hb)
        exact ⟨w', m, hrun, hbal, hle, by rw [hiff, and_iff_right hk]⟩
      · obtain ⟨w', m, hrun, hbal, hle, -⟩ := runM_turn_spec calls w₁ (n + 1) hw₁ (hgone hk hb)
        refine ⟨w', m, hrun, hbal, by omega, iff_of_false (by omega) fun h => hk h.1⟩

end Steps

/-- **What the statistics count.**  When all calls of a run have returned, the hits are the `get`s
that returned an entry and the misses those that returned `nullptr`, if and only if every `get`
found the key of its hit still there in its second section.  The 64-bit counters of the source show
these numbers for runs of fewer than `2 ^ 64` calls. -/
theorem stats_count_iff (maxBytes : UInt64) (calls : List (ℕ × CacheCall K P)) :
    ∃ w, runM turn (start maxBytes) calls = .ok w ∧ ((∀ t, w.threads.waiting t = none) →
      ((w.threads.cache.hits = w.entries ∧ w.threads.cache.misses = w.nullptrs) ↔
        Along turn Kept (start maxBytes) calls)) := by
  obtain ⟨w, n, hrun, ⟨inFlight, hmem, hhits, hmisses⟩, -, hiff⟩ :=
    runM_turn_spec calls (start maxBytes) 0 (inStep_empty maxBytes) (balanced_start maxBytes)
  refine ⟨w, hrun, fun hdone => ?_⟩
  have hempty : inFlight = ∅ :=
    Finset.eq_empty_of_forall_notMem fun t ht => (hmem t).mp ht (hdone t)
  rw [hempty, Finset.card_empty] at hhits
  rw [← hiff]
  omega

/-- Between the two sections of a `get` another thread flushes: the call counts as a hit and
returns `nullptr`. -/
theorem hit_returns_nullptr :
    ∃ w, runM turn (start (K := ℕ) (P := ℕ) 1000)
        [(0, .Put (some ⟨0, { key := 7, sizeBytes := 100 }⟩)), (0, .Get 7), (1, .Flush),
          (0, .Get 7)] = .ok w ∧
      (∀ t, w.threads.waiting t = none) ∧ w.returned = [none] ∧
      w.threads.cache.hits = 1 ∧ w.threads.cache.misses = 0 := by
  refine ⟨_, rfl, fun t => ?_, rfl, rfl, rfl⟩
  show Function.update (Function.update (fun _ => none) 0 (some 7)) 0 none t = none
  simp

end CacheClients

end Libane
