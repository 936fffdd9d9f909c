import Libane.Core.BufferPool

/-!
# Pool discipline

The buffer pool with any number of callers.  `acquire`, `release` and `flush` run under the mutex,
one step each; `acquire_tensor_padded` takes two steps, since it sets the layout of the buffer
after the mutex has been given back.  A caller that is between the two already owns the buffer.
A fresh allocation can fail; then the call throws and the pool is as before.

**Recycling.**  A recycled buffer comes with the size that its list is for, and with the contents
and the layout of its last use.  The lists would not notice a wrong layout.  So the result does not
stop at invariants of the pool: it says of every owner that the buffer is what the owner asked for,
and of every state that the next call hands out such a buffer, whatever the buffer was before.

* `Request`, `Holding` — what was asked for, and who owns which buffer.
* `PoolStep`, `PoolThreads.step` — one step of any caller.
* `Request.Met` — the buffer is what was asked for.
* `pool_discipline` — after every sequence of steps the idle lists are in order, every buffer has
  one owner, every owner has what it asked for, and whoever asks next gets it.
-/

namespace Libane

open Memory

/-- The call that a buffer comes from.  `acquire_tensor(c, s)` is
`acquire_tensor_padded(c, s, 0)`. -/
inductive Request where
  | Acquire (nbytes : ℕ)
  | AcquireTensorPadded (channels seq : ℤ) (minAllocBytes : ℕ)

/-- A buffer outside the pool.  It is not `returned` while its layout is still to be set. -/
structure Holding where
  buffer : ℕ
  request : Request
  returned : Bool

/-- The memory, and all buffers outside the pool. -/
structure PoolThreads (α : Type) where
  memory : Memory α
  holdings : List Holding

/-- One step.  Callers are told apart by the position of the buffer among the holdings;
`allocated` is whether a fresh allocation succeeds. -/
inductive PoolStep (α : Type) where
  | Acquire (nbytes : ℕ) (allocated : Bool)
  | AcquireTensorPadded (channels seq : ℤ) (minAllocBytes : ℕ) (allocated : Bool)
  | SetLayout (k : ℕ)
  | Write (k : ℕ) (data : ℕ → α)
  | Release (k : ℕ)
  | Flush

namespace PoolThreads

variable {α : Type}

/-- An empty pool. -/
def start (maxIdlePerSize : ℕ) : PoolThreads α :=
  { memory := { heap := [], pool := { maxIdlePerSize, idle := fun _ => [] } }, holdings := [] }

section Steps

variable (dirt : ℕ → ℕ → α)

/-- `acquire` for a request: nothing happens when an allocation is needed and fails. -/
def obtainBuffer (u : PoolThreads α) (nbytes : ℕ) (allocated : Bool) (request : Request)
    (returned : Bool) : PoolThreads α :=
  if u.memory.pool.idle nbytes = [] ∧ allocated = false then u
  else
    { memory := (u.memory.acquire dirt nbytes).2
      holdings := ⟨(u.memory.acquire dirt nbytes).1, request, returned⟩ :: u.holdings }

/-- The layout that the second half of `acquire_tensor_padded` sets. -/
def setLayout (u : PoolThreads α) (k : ℕ) : PoolThreads α :=
  match u.holdings[k]? with
  | some ⟨h, .AcquireTensorPadded channels seq m, false⟩ =>
      { memory := u.memory.modify h (·.withTensor channels seq)
        holdings := u.holdings.set k ⟨h, .AcquireTensorPadded channels seq m, true⟩ }
  | _ => u

/-- One step of any caller. -/
def step (u : PoolThreads α) : PoolStep α → PoolThreads α
  | .Acquire nbytes allocated => u.obtainBuffer dirt nbytes allocated (.Acquire nbytes) true
  | .AcquireTensorPadded channels seq m allocated =>
      u.obtainBuffer dirt (paddedBytes channels seq m) allocated
        (.AcquireTensorPadded channels seq m) false
  | .SetLayout k => u.setLayout k
  | .Write k data =>
      match u.holdings[k]? with
      | some ⟨h, _, true⟩ => { u with memory := u.memory.modify h ({ · with data }) }
      | _ => u
  | .Release k =>
      match u.holdings[k]? with
      | some ⟨h, _, true⟩ =>
          { memory := u.memory.release h, holdings := u.holdings.eraseIdx k }
      | _ => u
  | .Flush => { u with memory := u.memory.flush }

end Steps

end PoolThreads

/-! ## The discipline -/

/-- The buffer is what was asked for: of exactly the requested size, plain for `acquire`, and with
the layout of the tensor once `acquire_tensor_padded` has returned it. -/
def Request.Met {α : Type} (b : AneBuffer α) (returned : Bool) : Request → Prop
  | .Acquire nbytes => b.bytes = nbytes ∧ b.tensorLayout = false
  | .AcquireTensorPadded channels seq m =>
      b.bytes = paddedBytes channels seq m ∧
        (returned = true → b.tensorLayout = true ∧ b.tensorChannels = channels ∧ b.tensorSeq = seq)

namespace PoolThreads

variable {α : Type}

/-- A holding is met. -/
def Satisfied (m : Memory α) (x : Holding) : Prop :=
  ∃ b, m.heap[x.buffer]? = some b ∧ x.request.Met b x.returned

/-- **The discipline** of a pool that was created for this many idle buffers of each size. -/
structure Disciplined (maxIdlePerSize : ℕ) (u : PoolThreads α) : Prop where
  limit : u.memory.pool.maxIdlePerSize = maxIdlePerSize
  ok : u.memory.Ok
  held : u.memory.Held (u.holdings.map (·.buffer))
  met : ∀ x ∈ u.holdings, Satisfied u.memory x

/-- A buffer that has not changed still satisfies its holder. -/
lemma Satisfied.same {m m' : Memory α} {x : Holding} (h : Satisfied m x)
    (hs : SameAt m m' x.buffer) : Satisfied m' x := by
  obtain ⟨b, hb, hmet⟩ := h
  exact ⟨b, hs.trans hb, hmet⟩

variable {maxIdlePerSize : ℕ} {u : PoolThreads α}

lemma limit_acquire (dirt : ℕ → ℕ → α) (m : Memory α) (nbytes : ℕ) :
    (m.acquire dirt nbytes).2.pool.maxIdlePerSize = m.pool.maxIdlePerSize := by
  unfold acquire
  split <;> rfl

lemma limit_release (m : Memory α) (h : ℕ) :
    (m.release h).pool.maxIdlePerSize = m.pool.maxIdlePerSize := by
  unfold release
  split
  · rfl
  · split_ifs <;> rfl

namespace Disciplined

/-- A new holding. -/
lemma obtainBuffer (hu : Disciplined maxIdlePerSize u) (dirt : ℕ → ℕ → α) {nbytes : ℕ}
    {allocated returned : Bool} {request : Request}
    (hmet : ∀ b : AneBuffer α, b.bytes = nbytes → b.tensorLayout = false →
      request.Met b returned) :
    Disciplined maxIdlePerSize (u.obtainBuffer dirt nbytes allocated request returned) := by
  unfold PoolThreads.obtainBuffer
  split_ifs with hfail
  · exact hu
  have hacq := acquire_spec dirt hu.ok hu.held nbytes
  obtain ⟨b, hb, hbytes, hplain⟩ := hacq.bytes_eq
  exact {
    limit := (limit_acquire dirt u.memory nbytes).trans hu.limit
    ok := hacq.ok
    held := hacq.owned
    met := by
      intro x hx
      rcases List.mem_cons.mp hx with rfl | hx
      · exact ⟨b, hb, hmet b hbytes hplain⟩
      · exact (hu.met x hx).same (hacq.same _ (List.mem_map_of_mem hx)) }

/-- Positions of different holdings hold different buffers. -/
lemma buffer_ne (hu : Disciplined maxIdlePerSize u) {k j : ℕ} {x y : Holding}
    (hx : u.holdings[k]? = some x) (hy : u.holdings[j]? = some y) (hkj : j ≠ k) :
    y.buffer ≠ x.buffer := by
  intro heq
  have hxb : (u.holdings.map (·.buffer))[k]? = some x.buffer := by rw [List.getElem?_map, hx]; rfl
  have hyb : (u.holdings.map (·.buffer))[j]? = some x.buffer := by
    rw [List.getElem?_map, hy]
    exact congrArg some heq
  have hlt := (List.getElem?_eq_some_iff.mp hyb).1
  exact hkj ((List.getElem?_inj hlt hu.held.nodup).mp (hyb.trans hxb.symm))

/-- Changing a held buffer in place. -/
lemma modify (hu : Disciplined maxIdlePerSize u) {k : ℕ} {x : Holding}
    (hx : u.holdings[k]? = some x) (x' : Holding) (hbuffer : x'.buffer = x.buffer)
    {f : AneBuffer α → AneBuffer α} (hf : ∀ b, (f b).bytes = b.bytes)
    (hmet : ∀ b, x.request.Met b x.returned → x'.request.Met (f b) x'.returned) :
    Disciplined maxIdlePerSize
      { memory := u.memory.modify x.buffer f, holdings := u.holdings.set k x' } := by
  obtain ⟨hok, hheld, hsame⟩ := modify_spec hu.ok hu.held x.buffer hf
  have hbuffers : (u.holdings.set k x').map (·.buffer) = u.holdings.map (·.buffer) := by
    obtain ⟨hk, rfl⟩ := List.getElem?_eq_some_iff.mp hx
    have hlt : k < (u.holdings.map (·.buffer)).length := by simpa using hk
    have hget : (u.holdings.map (·.buffer))[k] = u.holdings[k].buffer := List.getElem_map _
    rw [List.map_set, hbuffer, ← hget, List.set_getElem_self]
  exact {
    limit := hu.limit
    ok := hok
    held := by
      rw [hbuffers]
      exact hheld
    met := by
      intro y hy
      obtain ⟨j, hj⟩ := List.mem_iff_getElem?.mp hy
      by_cases hkj : j = k
      · subst hkj
        rw [List.getElem?_set_self' , hx] at hj
        obtain rfl : x' = y := by simpa using hj
        obtain ⟨b, hb, hb'⟩ := hu.met x (List.mem_of_getElem? hx)
        refine ⟨f b, ?_, hmet b hb'⟩
        simp [Memory.modify, hbuffer, hb]
      · rw [List.getElem?_set_ne (Ne.symm hkj)] at hj
        exact (hu.met y (List.mem_of_getElem? hj)).same (hsame _ (hu.buffer_ne hx hj hkj)) }

/-- Giving a held buffer back. -/
lemma release (hu : Disciplined maxIdlePerSize u) {k : ℕ} {x : Holding}
    (hx : u.holdings[k]? = some x) : Disciplined maxIdlePerSize
      { memory := u.memory.release x.buffer, holdings := u.holdings.eraseIdx k } := by
  obtain ⟨hk, rfl⟩ := List.getElem?_eq_some_iff.mp hx
  have hperm : (u.holdings.map (·.buffer)).Perm
      (u.holdings[k].buffer :: (u.holdings.eraseIdx k).map (·.buffer)) :=
    ((List.getElem_cons_eraseIdx_perm hk).symm.map _)
  obtain ⟨hok, hheld, hheap⟩ := release_spec hu.ok (hu.held.perm hperm)
  exact {
    limit := (limit_release _ _).trans hu.limit
    ok := hok
    held := hheld
    met := fun y hy => (hu.met y (List.mem_of_mem_eraseIdx hy)).same (by rw [SameAt, hheap]) }

/-- Emptying the pool. -/
lemma flush (hu : Disciplined maxIdlePerSize u) :
    Disciplined maxIdlePerSize { u with memory := u.memory.flush } := by
  obtain ⟨hok, hheld, hheap⟩ := flush_spec hu.held
  exact {
    limit := hu.limit
    ok := hok
    held := hheld
    met := fun y hy => (hu.met y hy).same (congrArg (·[y.buffer]?) hheap) }

/-- **Every step keeps the discipline.** -/
lemma step (hu : Disciplined maxIdlePerSize u) (dirt : ℕ → ℕ → α) (s : PoolStep α) :
    Disciplined maxIdlePerSize (u.step dirt s) := by
  cases s with
  | Acquire nbytes allocated => exact hu.obtainBuffer dirt fun b hb hplain => ⟨hb, hplain⟩
  | AcquireTensorPadded channels seq m allocated =>
      exact hu.obtainBuffer dirt fun b hb _ => ⟨hb, by simp⟩
  | SetLayout k =>
      rw [PoolThreads.step, setLayout]
      split
      · rename_i h channels seq m hk
        refine hu.modify hk ⟨h, .AcquireTensorPadded channels seq m, true⟩ rfl
          (AneBuffer.withTensor_bytes · channels seq) fun b hb => ?_
        exact ⟨hb.1, fun _ => ⟨rfl, rfl, rfl⟩⟩
      · exact hu
  | Write k data =>
      rw [PoolThreads.step]
      split
      · rename_i h request hk
        have hsame : u.holdings.set k ⟨h, request, true⟩ = u.holdings := by
          obtain ⟨hlt, hget⟩ := List.getElem?_eq_some_iff.mp hk
          rw [← hget, List.set_getElem_self]
        have hset := hu.modify hk ⟨h, request, true⟩ rfl (f := fun b => { b with data })
          (fun _ => rfl) fun b hb => by
            cases request with
            | Acquire nbytes => exact hb
            | AcquireTensorPadded channels seq m => exact hb
        rwa [hsame] at hset
      · exact hu
  | Release k =>
      rw [PoolThreads.step]
      split
      · rename_i h request hk
        exact hu.release hk
      · exact hu
  | Flush => exact hu.flush

/-- A call that goes through hands out a plain buffer of the size that it needs. -/
lemma obtainBuffer_spec (hu : Disciplined maxIdlePerSize u) (dirt : ℕ → ℕ → α) (nbytes : ℕ)
    (allocated returned : Bool) (request : Request) :
    if u.memory.pool.idle nbytes = [] ∧ allocated = false then
      u.obtainBuffer dirt nbytes allocated request returned = u
    else ∃ h b, (u.obtainBuffer dirt nbytes allocated request returned).holdings =
        ⟨h, request, returned⟩ :: u.holdings ∧
      (u.obtainBuffer dirt nbytes allocated request returned).memory.heap[h]? = some b ∧
      b.bytes = nbytes ∧ b.tensorLayout = false := by
  unfold PoolThreads.obtainBuffer
  split_ifs with hfail
  · rfl
  · obtain ⟨b, hb, hbytes, hplain⟩ := (acquire_spec dirt hu.ok hu.held nbytes).bytes_eq
    exact ⟨_, b, rfl, hb, hbytes, hplain⟩

/-- The second half of `acquire_tensor_padded` returns the buffer with its layout. -/
lemma setLayout_spec (hu : Disciplined maxIdlePerSize u) {k h : ℕ} {channels seq : ℤ} {m : ℕ}
    (hk : u.holdings[k]? = some ⟨h, .AcquireTensorPadded channels seq m, false⟩) :
    ∃ b, (u.setLayout k).holdings =
        u.holdings.set k ⟨h, .AcquireTensorPadded channels seq m, true⟩ ∧
      (u.setLayout k).memory.heap[h]? = some b ∧ b.bytes = paddedBytes channels seq m ∧
      b.tensorLayout = true ∧ b.tensorChannels = channels ∧ b.tensorSeq = seq := by
  obtain ⟨b, hb, hbytes, -⟩ := hu.met _ (List.mem_of_getElem? hk)
  refine ⟨b.withTensor channels seq, ?_, ?_, hbytes, rfl, rfl, rfl⟩
  · rw [setLayout, hk]
  · rw [setLayout, hk]
    simp [Memory.modify, hb]

end Disciplined

/-- The number of bytes that a tensor needs. -/
lemma paddedBytes_eq {channels seq : ℤ} (hc : 0 < channels ∧ channels < 2 ^ 31)
    (hs : 0 < seq ∧ seq < 2 ^ 31) (m : ℕ) :
    (paddedBytes channels seq m : ℤ) = max (2 * channels * seq) m := by
  have hcz := toSizeT_of_nonneg hc.1.le (by omega)
  have hsz := toSizeT_of_nonneg hs.1.le (by omega)
  have hlt : toSizeT channels * toSizeT seq < 2 ^ 31 * 2 ^ 31 :=
    Nat.mul_lt_mul'' (by omega) (by omega)
  rw [paddedBytes, Nat.mod_eq_of_lt (by omega), Nat.cast_max]
  push_cast
  rw [hcz, hsz]
  ring_nf

/-- **Pool discipline.**  For every limit and every sequence of steps of any callers: the idle list
of a size holds buffers of this size, at most as many as the limit, each of them once; a buffer has
one owner, and none while it is idle; a buffer from `acquire(n)` has exactly `n` bytes and no tensor
layout; and a buffer that `acquire_tensor_padded(c, s, m)` has returned has exactly
`max(2 * c * s, m)` bytes and the layout `(c, s)`.

In the state that is reached, the next call hands out such a buffer, whatever the buffer was before:
`acquire` in one step, and `acquire_tensor_padded` in two, between which the others may go on.  It
does nothing only if the pool has no buffer of the size and none can be allocated. -/
theorem pool_discipline (dirt : ℕ → ℕ → α) (maxIdlePerSize : ℕ) (steps : List (PoolStep α)) :
    let u := Runs.run (step dirt) (start maxIdlePerSize) steps
    (∀ n, (u.memory.pool.idle n).Nodup ∧ (u.memory.pool.idle n).length ≤ maxIdlePerSize ∧
      ∀ h ∈ u.memory.pool.idle n, ∃ b, u.memory.heap[h]? = some b ∧ b.bytes = n) ∧
    (u.holdings.map (·.buffer)).Nodup ∧
    (∀ x ∈ u.holdings, ∀ n, x.buffer ∉ u.memory.pool.idle n) ∧
    (∀ x ∈ u.holdings, ∀ n, x.request = .Acquire n →
      ∃ b, u.memory.heap[x.buffer]? = some b ∧ b.bytes = n ∧ b.tensorLayout = false) ∧
    (∀ x ∈ u.holdings, ∀ c s m, x.request = .AcquireTensorPadded c s m → x.returned = true →
      0 < c ∧ c < 2 ^ 31 → 0 < s ∧ s < 2 ^ 31 →
      ∃ b, u.memory.heap[x.buffer]? = some b ∧ (b.bytes : ℤ) = max (2 * c * s) m ∧
        b.tensorLayout = true ∧ b.tensorChannels = c ∧ b.tensorSeq = s) ∧
    (∀ n allocated, let u' := u.step dirt (.Acquire n allocated)
      if u.memory.pool.idle n = [] ∧ allocated = false then u' = u
      else ∃ h b, u'.holdings = ⟨h, .Acquire n, true⟩ :: u.holdings ∧
        u'.memory.heap[h]? = some b ∧ b.bytes = n ∧ b.tensorLayout = false) ∧
    (∀ c s m allocated, 0 < c ∧ c < 2 ^ 31 → 0 < s ∧ s < 2 ^ 31 →
      let u' := u.step dirt (.AcquireTensorPadded c s m allocated)
      if u.memory.pool.idle (max (2 * c * s) m).toNat = [] ∧ allocated = false then u' = u
      else ∃ h b, u'.holdings = ⟨h, .AcquireTensorPadded c s m, false⟩ :: u.holdings ∧
        u'.memory.heap[h]? = some b ∧ (b.bytes : ℤ) = max (2 * c * s) m) ∧
    (∀ k h c s m, u.holdings[k]? = some ⟨h, .AcquireTensorPadded c s m, false⟩ →
      0 < c ∧ c < 2 ^ 31 → 0 < s ∧ s < 2 ^ 31 →
      let u' := u.step dirt (.SetLayout k)
      ∃ b, u'.holdings = u.holdings.set k ⟨h, .AcquireTensorPadded c s m, true⟩ ∧
        u'.memory.heap[h]? = some b ∧ (b.bytes : ℤ) = max (2 * c * s) m ∧
        b.tensorLayout = true ∧ b.tensorChannels = c ∧ b.tensorSeq = s) := by
  intro u
  have hu : Disciplined maxIdlePerSize u := by
    refine Runs.run_induction (step dirt) (fun u s hu => hu.step dirt s) steps _ ?_
    exact ⟨rfl, ⟨by simp [start], by simp [start], by simp [start]⟩,
      ⟨List.nodup_nil, by simp [start], by simp [start]⟩, by simp [start]⟩
  refine ⟨fun n => ⟨hu.ok.idle_nodup n, hu.limit ▸ hu.ok.idle_le n, hu.ok.idle_bytes n⟩,
    hu.held.nodup, fun x hx => hu.held.not_idle _ (List.mem_map_of_mem hx), ?_, ?_,
    fun n allocated => hu.obtainBuffer_spec dirt n allocated true (.Acquire n), ?_, ?_⟩
  · intro x hx n hrequest
    obtain ⟨b, hb, hmet⟩ := hu.met x hx
    rw [hrequest] at hmet
    exact ⟨b, hb, hmet⟩
  · intro x hx c s m hrequest hreturned hc hs
    obtain ⟨b, hb, hmet⟩ := hu.met x hx
    rw [hrequest] at hmet
    obtain ⟨hbytes, hlayout⟩ := hmet
    exact ⟨b, hb, by rw [hbytes, paddedBytes_eq hc hs], hlayout hreturned⟩
  · intro c s m allocated hc hs u'
    have hbytes := paddedBytes_eq hc hs m
    have hspec := hu.obtainBuffer_spec dirt (paddedBytes c s m) allocated false
      (.AcquireTensorPadded c s m)
    rw [← hbytes, Int.toNat_natCast]
    split_ifs at hspec ⊢ with hfail
    · exact hspec
    · obtain ⟨h, b, hholdings, hb, hsize, -⟩ := hspec
      exact ⟨h, b, hholdings, hb, by rw [hsize]⟩
  · intro k h c s m hk hc hs u'
    obtain ⟨b, hholdings, hb, hsize, hlayout⟩ := hu.setLayout_spec hk
    exact ⟨b, hholdings, hb, by rw [hsize, paddedBytes_eq hc hs], hlayout⟩

/-- A plain buffer and a tensor of the same size; the tensor goes back to the pool. -/
def tensorReleased : List (PoolStep ℕ) :=
  [.Acquire 64 true, .AcquireTensorPadded 4 8 0 true, .Acquire 64 false, .SetLayout 0,
    .Write 0 id, .Release 0]

/-- The next caller gets the buffer of the tensor, as a plain one. -/
theorem pool_discipline_recycled : ∃ h b,
    let u := Runs.run (step fun _ _ => 0) (start 1) tensorReleased
    let u' := u.step (fun _ _ => 0) (.Acquire 64 false)
    u.memory.pool.idle 64 = [1] ∧ u'.holdings = ⟨h, .Acquire 64, true⟩ :: u.holdings ∧
      u'.memory.heap[h]? = some b ∧ b.bytes = 64 ∧ b.tensorLayout = false := by
  obtain ⟨-, -, -, -, -, hacquire, -⟩ := pool_discipline (fun _ _ => 0) 1 tensorReleased
  have hidle : (Runs.run (step fun _ _ => 0) (start 1) tensorReleased).memory.pool.idle 64 = [1] :=
    rfl
  have hnext := hacquire 64 false
  simp only [hidle, List.cons_ne_nil, false_and, if_false] at hnext
  obtain ⟨h, b, hnext⟩ := hnext
  exact ⟨h, b, hidle, hnext⟩

end PoolThreads

end Libane
