import Libane.Core.Shape
import Libane.Foundation.Runs

/-!
# Buffers and the buffer pool

`AneBuffer` and `BufferPool` of `buffer_manager.cpp`.  Buffers live on a heap and are named by
their index, which is never reused; owning a `unique_ptr<AneBuffer>` is knowing the index.  The
pool keeps one stack of idle buffers for each size.

Memory is modelled at the granularity of fp16 elements, of any type `α`: every copy of the
sources moves whole elements.  IOSurface creation is taken to succeed, and a fresh allocation
holds arbitrary elements, `dirt`.

* `Memory.Ok` — what the pool guarantees about its idle stacks.
* `Memory.Held` — a list of buffers that are owned outside the pool, each by one owner.
* `acquire_spec`, `acquireTensorPadded_spec`, `release_spec`, `modify_spec`, `flush_spec` — what
  each operation does to both, and to the contents of everybody else's buffers.
* `PoolUsers.call_spec` — whatever the other users of the pool do, they leave the buffers of one
  owner alone.
-/

namespace Libane

/-- `AneBuffer`.  The channel stride is left out: it is stored and never read. -/
structure AneBuffer (α : Type) where
  bytes : ℕ
  tensorLayout : Bool := false
  tensorChannels : ℤ := 0
  tensorSeq : ℤ := 0
  data : ℕ → α

namespace AneBuffer

variable {α : Type}

/-- How many bytes `copy_from` and `copy_to` move: the logical tensor when the buffer knows one,
otherwise what the caller asked for. -/
def copiedBytes (b : AneBuffer α) (nbytes : ℕ) : ℕ :=
  if b.tensorLayout then toSizeT b.tensorChannels * toSizeT b.tensorSeq * 2 % 2 ^ 64 else nbytes

/-- `copy_from`, with assertions compiled out. -/
def copyFrom (b : AneBuffer α) (src : ℕ → α) (nbytes : ℕ) : AneBuffer α :=
  { b with data := fun i => if i < b.copiedBytes nbytes / 2 then src i else b.data i }

/-- `copy_to`: the elements written to the destination. -/
def copyTo (b : AneBuffer α) (nbytes : ℕ) : List α :=
  (List.range (b.copiedBytes nbytes / 2)).map b.data

/-- The size of the IOSurface behind a buffer. -/
def surfaceBytes (b : AneBuffer α) : ℕ := max b.bytes 49152

/-- The reset of the tensor metadata in `acquire`. -/
def plain (b : AneBuffer α) : AneBuffer α :=
  { b with tensorLayout := false, tensorChannels := 0, tensorSeq := 0 }

/-- The tensor metadata that `acquire_tensor_padded` sets. -/
def withTensor (b : AneBuffer α) (channels seq : ℤ) : AneBuffer α :=
  { b with tensorLayout := true, tensorChannels := channels, tensorSeq := seq }

@[simp] lemma copyFrom_bytes (b : AneBuffer α) (src : ℕ → α) (n : ℕ) :
    (b.copyFrom src n).bytes = b.bytes := rfl

@[simp] lemma plain_bytes (b : AneBuffer α) : b.plain.bytes = b.bytes := rfl

@[simp] lemma withTensor_bytes (b : AneBuffer α) (c s : ℤ) :
    (b.withTensor c s).bytes = b.bytes := rfl

end AneBuffer

/-- The idle stacks of a `BufferPool`, one for each size. -/
structure BufferPool where
  maxIdlePerSize : ℕ
  idle : ℕ → List ℕ

/-- All buffers ever allocated, and the pool. -/
structure Memory (α : Type) where
  heap : List (AneBuffer α)
  pool : BufferPool

namespace Memory

variable {α : Type}

/-- Change one buffer in place. -/
def modify (m : Memory α) (h : ℕ) (f : AneBuffer α → AneBuffer α) : Memory α :=
  { m with heap := m.heap.modify h f }

section Operations

variable (dirt : ℕ → ℕ → α)

/-- `acquire`: the idle buffer released last under this size, or a fresh one. -/
def acquire (m : Memory α) (nbytes : ℕ) : ℕ × Memory α :=
  match m.pool.idle nbytes with
  | h :: rest =>
      (h, { heap := m.heap.modify h AneBuffer.plain
            pool := { m.pool with idle := Function.update m.pool.idle nbytes rest } })
  | [] =>
      let h := m.heap.length
      (h, { m with heap := m.heap ++ [{ bytes := nbytes, data := dirt h }] })

/-- The number of bytes `acquire_tensor_padded` asks for. -/
def paddedBytes (channels seq : ℤ) (minAllocBytes : ℕ) : ℕ :=
  max (toSizeT channels * toSizeT seq * 2 % 2 ^ 64) minAllocBytes

/-- `acquire_tensor_padded`. -/
def acquireTensorPadded (m : Memory α) (channels seq : ℤ) (minAllocBytes : ℕ) : ℕ × Memory α :=
  let (h, m₁) := m.acquire dirt (paddedBytes channels seq minAllocBytes)
  (h, m₁.modify h (·.withTensor channels seq))

end Operations

/-- `release`: back onto the stack of its size, unless that is full. -/
def release (m : Memory α) (h : ℕ) : Memory α :=
  match m.heap[h]? with
  | none => m
  | some b =>
      if (m.pool.idle b.bytes).length < m.pool.maxIdlePerSize then
        { m with pool := { m.pool with
            idle := Function.update m.pool.idle b.bytes (h :: m.pool.idle b.bytes) } }
      else m

/-- `flush`: all idle buffers are destroyed. -/
def flush (m : Memory α) : Memory α := { m with pool := { m.pool with idle := fun _ => [] } }

/-! ## The pool invariant -/

/-- What holds of the idle stacks between operations. -/
structure Ok (m : Memory α) : Prop where
  idle_bytes : ∀ n, ∀ h ∈ m.pool.idle n, ∃ b, m.heap[h]? = some b ∧ b.bytes = n
  idle_nodup : ∀ n, (m.pool.idle n).Nodup
  idle_le : ∀ n, (m.pool.idle n).length ≤ m.pool.maxIdlePerSize

/-- The buffers in the list are owned outside the pool, each by one owner. -/
structure Held (m : Memory α) (held : List ℕ) : Prop where
  nodup : held.Nodup
  lt : ∀ h ∈ held, h < m.heap.length
  not_idle : ∀ h ∈ held, ∀ n, h ∉ m.pool.idle n

/-- The contents and the layout of a buffer are the same in both memories. -/
def SameAt (m m' : Memory α) (h : ℕ) : Prop := m'.heap[h]? = m.heap[h]?

/-- The buffer has `nbytes` bytes and the layout of a tensor. -/
def LaidOut (m : Memory α) (h : ℕ) (channels seq : ℤ) (nbytes : ℕ) : Prop :=
  ∃ b, m.heap[h]? = some b ∧ b.bytes = nbytes ∧ b.tensorLayout = true ∧
    b.tensorChannels = channels ∧ b.tensorSeq = seq

/-- The logical tensor that a laid-out buffer holds. -/
def contents (m : Memory α) (h : ℕ) : Option (List α) := m.heap[h]?.map (·.copyTo 0)

lemma SameAt.laidOut {m m' : Memory α} {h : ℕ} (hs : SameAt m m' h) {channels seq : ℤ}
    {nbytes : ℕ} (hl : m.LaidOut h channels seq nbytes) : m'.LaidOut h channels seq nbytes := by
  rw [LaidOut, hs]
  exact hl

lemma SameAt.contents_eq {m m' : Memory α} {h : ℕ} (hs : SameAt m m' h) :
    m'.contents h = m.contents h := by
  rw [contents, hs, contents]

/-- An update of a buffer that changes its data only. -/
def KeepsLayout (f : AneBuffer α → AneBuffer α) : Prop :=
  ∀ b, f b = { b with data := (f b).data }

/-- Writing data keeps every layout. -/
lemma LaidOut.modify {m : Memory α} {h : ℕ} {channels seq : ℤ} {nbytes : ℕ}
    (hl : m.LaidOut h channels seq nbytes) {f : AneBuffer α → AneBuffer α} (hf : KeepsLayout f)
    (x : ℕ) : (m.modify x f).LaidOut h channels seq nbytes := by
  obtain ⟨b, hb, hrest⟩ := hl
  by_cases hx : x = h
  · refine ⟨f b, by simp [Memory.modify, hx, hb], ?_⟩
    rw [hf b]
    exact hrest
  · exact ⟨b, by rw [Memory.modify, List.getElem?_modify_ne _ _ hx, hb], hrest⟩

/-- The logical tensor after a write that covers it. -/
lemma LaidOut.contents_modify {m : Memory α} {h : ℕ} {channels seq : ℤ} {nbytes : ℕ}
    (hl : m.LaidOut h channels seq nbytes) {f : AneBuffer α → AneBuffer α} (hf : KeepsLayout f)
    {value : ℕ → α} (hv : ∀ b, b.tensorLayout = true → ∀ i < b.copiedBytes 0 / 2,
      (f b).data i = value i) :
    (m.modify h f).contents h =
      some ((List.range (toSizeT channels * toSizeT seq * 2 % 2 ^ 64 / 2)).map value) := by
  obtain ⟨b, hb, -, hlayout, rfl, rfl⟩ := hl
  have hcopied : b.copiedBytes 0 = toSizeT b.tensorChannels * toSizeT b.tensorSeq * 2 % 2 ^ 64 := by
    rw [AneBuffer.copiedBytes, if_pos hlayout]
  have hcopied' : (f b).copiedBytes 0 = b.copiedBytes 0 := by
    rw [hf b]
    rfl
  have hget : (m.modify h f).heap[h]? = some (f b) := by simp [Memory.modify, hb]
  rw [contents, hget, Option.map_some, AneBuffer.copyTo, hcopied', hcopied, ← hcopied]
  refine congrArg some (List.map_congr_left fun i hi => hv b hlayout i ?_)
  exact List.mem_range.mp hi

lemma Held.perm {m : Memory α} {held held' : List ℕ} (h : m.Held held) (hp : held.Perm held') :
    m.Held held' where
  nodup := hp.nodup_iff.mp h.nodup
  lt := fun x hx => h.lt x (hp.mem_iff.mpr hx)
  not_idle := fun x hx => h.not_idle x (hp.mem_iff.mpr hx)

lemma Held.tail {m : Memory α} {x : ℕ} {held : List ℕ} (h : m.Held (x :: held)) :
    m.Held held where
  nodup := (List.nodup_cons.mp h.nodup).2
  lt := fun y hy => h.lt y (List.mem_cons_of_mem x hy)
  not_idle := fun y hy => h.not_idle y (List.mem_cons_of_mem x hy)

lemma heap_modify_bytes {heap : List (AneBuffer α)} {f : AneBuffer α → AneBuffer α}
    (hf : ∀ b, (f b).bytes = b.bytes) {x h : ℕ} {b : AneBuffer α} (hb : heap[h]? = some b) :
    ∃ b', (heap.modify x f)[h]? = some b' ∧ b'.bytes = b.bytes := by
  rw [List.getElem?_modify, hb]
  by_cases hxh : x = h
  · exact ⟨f b, by simp [hxh], hf b⟩
  · exact ⟨b, by simp [hxh], rfl⟩

/-- Changing a buffer without resizing it disturbs neither the pool nor the owners. -/
lemma modify_spec {m : Memory α} {held : List ℕ} (hok : m.Ok) (hheld : m.Held held) (x : ℕ)
    {f : AneBuffer α → AneBuffer α} (hf : ∀ b, (f b).bytes = b.bytes) :
    (m.modify x f).Ok ∧ (m.modify x f).Held held ∧ ∀ h, h ≠ x → SameAt m (m.modify x f) h := by
  refine ⟨⟨fun n h hh => ?_, hok.idle_nodup, hok.idle_le⟩,
    ⟨hheld.nodup, fun h hh => ?_, hheld.not_idle⟩, fun h hne => ?_⟩
  · obtain ⟨b, hb, hn⟩ := hok.idle_bytes n h hh
    obtain ⟨b', hb', hbytes⟩ := heap_modify_bytes hf hb
    exact ⟨b', hb', hbytes.trans hn⟩
  · rw [modify, List.length_modify]
    exact hheld.lt h hh
  · exact List.getElem?_modify_ne _ _ hne.symm

/-- Membership in one stack after another has been replaced. -/
lemma mem_update {idle : ℕ → List ℕ} {n k h : ℕ} {stack : List ℕ} :
    h ∈ Function.update idle n stack k ↔ (k = n ∧ h ∈ stack) ∨ (k ≠ n ∧ h ∈ idle k) := by
  by_cases hk : k = n
  · subst hk; simp
  · simp [hk]

/-- What `acquire` establishes, for a call that handed out `x` and left the memory `m'`. -/
structure Acquired (m m' : Memory α) (held : List ℕ) (nbytes x : ℕ) : Prop where
  ok : m'.Ok
  owned : m'.Held (x :: held)
  same : ∀ h ∈ held, SameAt m m' h
  bytes_eq : ∃ b, m'.heap[x]? = some b ∧ b.bytes = nbytes ∧ b.tensorLayout = false

/-- Handing out a fresh buffer. -/
lemma acquired_fresh {m : Memory α} {held : List ℕ} (hok : m.Ok) (hheld : m.Held held)
    (nbytes : ℕ) (data : ℕ → α) :
    Acquired m { m with heap := m.heap ++ [{ bytes := nbytes, data := data }] } held nbytes
      m.heap.length := by
  have hget : ∀ h, h < m.heap.length →
      (m.heap ++ [({ bytes := nbytes, data := data } : AneBuffer α)])[h]? = m.heap[h]? :=
    fun h hh => List.getElem?_append_left hh
  have hnotIdle : ∀ n, m.heap.length ∉ m.pool.idle n := by
    intro n hmem
    obtain ⟨b, hb, -⟩ := hok.idle_bytes n _ hmem
    exact lt_irrefl _ (List.getElem?_eq_some_iff.mp hb).1
  exact {
    ok := {
      idle_bytes := by
        intro n h hh
        obtain ⟨b, hb, hn⟩ := hok.idle_bytes n h hh
        exact ⟨b, by rw [hget h (List.getElem?_eq_some_iff.mp hb).1, hb], hn⟩
      idle_nodup := hok.idle_nodup
      idle_le := hok.idle_le }
    owned := {
      nodup := List.nodup_cons.mpr ⟨fun hmem => lt_irrefl _ (hheld.lt _ hmem), hheld.nodup⟩
      lt := by
        intro h hh
        rw [List.length_append, List.length_singleton]
        rcases List.mem_cons.mp hh with rfl | hh
        · exact Nat.lt_succ_self _
        · exact Nat.lt_succ_of_lt (hheld.lt h hh)
      not_idle := by
        intro h hh
        rcases List.mem_cons.mp hh with rfl | hh
        · exact hnotIdle
        · exact hheld.not_idle h hh }
    same := fun h hh => hget h (hheld.lt h hh)
    bytes_eq := ⟨_, List.getElem?_concat_length, rfl, rfl⟩ }

/-- Handing out the buffer released last. -/
lemma acquired_recycled {m : Memory α} {held : List ℕ} (hok : m.Ok) (hheld : m.Held held)
    {nbytes x : ℕ} {rest : List ℕ} (hidle : m.pool.idle nbytes = x :: rest) :
    Acquired m { heap := m.heap.modify x AneBuffer.plain
                 pool := { m.pool with idle := Function.update m.pool.idle nbytes rest } }
      held nbytes x := by
  have hx : x ∈ m.pool.idle nbytes := by rw [hidle]; exact List.mem_cons_self
  obtain ⟨bx, hbx, hbytes⟩ := hok.idle_bytes nbytes x hx
  have hnodup := hok.idle_nodup nbytes
  have hlen := hok.idle_le nbytes
  rw [hidle, List.nodup_cons] at hnodup
  rw [hidle, List.length_cons] at hlen
  have hxheld : x ∉ held := fun hmem => hheld.not_idle x hmem nbytes hx
  -- what is idle afterwards was idle before, and is not the buffer handed out
  have hsub : ∀ n h, h ∈ Function.update m.pool.idle nbytes rest n →
      h ∈ m.pool.idle n ∧ h ≠ x := by
    intro n h hh
    rcases mem_update.mp hh with ⟨rfl, hrest⟩ | ⟨hn, hold⟩
    · exact ⟨by rw [hidle]; exact List.mem_cons_of_mem x hrest, fun he => hnodup.1 (he ▸ hrest)⟩
    · refine ⟨hold, fun he => hn ?_⟩
      obtain ⟨b, hb, hbn⟩ := hok.idle_bytes n h hold
      rw [he, hbx, Option.some.injEq] at hb
      rw [← hbn, ← hb, hbytes]
  exact {
    ok := {
      idle_bytes := by
        intro n h hh
        obtain ⟨b, hb, hn⟩ := hok.idle_bytes n h (hsub n h hh).1
        obtain ⟨b', hb', hbb⟩ := heap_modify_bytes (x := x) AneBuffer.plain_bytes hb
        exact ⟨b', hb', hbb.trans hn⟩
      idle_nodup := by
        intro n
        by_cases hn : n = nbytes
        · simpa [hn] using hnodup.2
        · simpa [Function.update_of_ne hn] using hok.idle_nodup n
      idle_le := by
        intro n
        by_cases hn : n = nbytes
        · simpa [hn] using Nat.le_of_succ_le hlen
        · simpa [Function.update_of_ne hn] using hok.idle_le n }
    owned := {
      nodup := List.nodup_cons.mpr ⟨hxheld, hheld.nodup⟩
      lt := by
        intro h hh
        rw [List.length_modify]
        rcases List.mem_cons.mp hh with rfl | hh
        · exact (List.getElem?_eq_some_iff.mp hbx).1
        · exact hheld.lt h hh
      not_idle := by
        intro h hh n hmem
        rcases List.mem_cons.mp hh with rfl | hh
        · exact (hsub n h hmem).2 rfl
        · exact hheld.not_idle h hh n (hsub n h hmem).1 }
    same := by
      intro h hh
      have hne : x ≠ h := fun he => hxheld (he ▸ hh)
      exact List.getElem?_modify_ne _ _ hne
    bytes_eq := ⟨bx.plain, by simp [hbx], hbytes, rfl⟩ }

/-- **Acquire.**  The pool stays in order, the caller owns a buffer that nobody else owns, of
exactly the requested size and in plain layout, and everybody else's buffers are untouched. -/
theorem acquire_spec {m : Memory α} {held : List ℕ} (dirt : ℕ → ℕ → α) (hok : m.Ok)
    (hheld : m.Held held) (nbytes : ℕ) :
    Acquired m (m.acquire dirt nbytes).2 held nbytes (m.acquire dirt nbytes).1 := by
  unfold acquire
  cases hidle : m.pool.idle nbytes with
  | nil => exact acquired_fresh hok hheld nbytes (dirt m.heap.length)
  | cons x rest => exact acquired_recycled hok hheld hidle

/-- What `acquire_tensor_padded` establishes. -/
structure TensorAcquired (m m' : Memory α) (held : List ℕ) (channels seq : ℤ)
    (minAllocBytes x : ℕ) : Prop where
  ok : m'.Ok
  owned : m'.Held (x :: held)
  same : ∀ h ∈ held, SameAt m m' h
  layout : m'.LaidOut x channels seq (paddedBytes channels seq minAllocBytes)

/-- **Acquire for a tensor.**  As `acquire`, with the layout set. -/
theorem acquireTensorPadded_spec {m : Memory α} {held : List ℕ} (dirt : ℕ → ℕ → α) (hok : m.Ok)
    (hheld : m.Held held) (channels seq : ℤ) (minAllocBytes : ℕ) :
    TensorAcquired m (m.acquireTensorPadded dirt channels seq minAllocBytes).2 held channels seq
      minAllocBytes (m.acquireTensorPadded dirt channels seq minAllocBytes).1 := by
  have hacq := acquire_spec dirt hok hheld (paddedBytes channels seq minAllocBytes)
  obtain ⟨hok₂, hheld₂, hsame₂⟩ := modify_spec hacq.ok hacq.owned
    (m.acquire dirt (paddedBytes channels seq minAllocBytes)).1
    (AneBuffer.withTensor_bytes · channels seq)
  obtain ⟨b, hb, hbytes, -⟩ := hacq.bytes_eq
  refine ⟨hok₂, hheld₂, fun h hh => ?_, b.withTensor channels seq, ?_, hbytes, rfl, rfl, rfl⟩
  · have hne : h ≠ (m.acquire dirt (paddedBytes channels seq minAllocBytes)).1 := fun he =>
      (List.nodup_cons.mp hacq.owned.nodup).1 (he ▸ hh)
    exact (hsame₂ h hne).trans (hacq.same h hh)
  · simp [acquireTensorPadded, modify, hb]

/-- **Release.**  The pool stays in order, the caller gives the buffer up, and no buffer
changes. -/
theorem release_spec {m : Memory α} {x : ℕ} {held : List ℕ} (hok : m.Ok)
    (hheld : m.Held (x :: held)) :
    (m.release x).Ok ∧ (m.release x).Held held ∧ (m.release x).heap = m.heap := by
  have hnot := hheld.not_idle x List.mem_cons_self
  have hx : x ∉ held := (List.nodup_cons.mp hheld.nodup).1
  unfold release
  split
  · exact ⟨hok, hheld.tail, rfl⟩
  rename_i b hb
  split_ifs with hroom
  swap
  · exact ⟨hok, hheld.tail, rfl⟩
  refine ⟨{ idle_bytes := ?_, idle_nodup := ?_, idle_le := ?_ },
    { nodup := hheld.tail.nodup, lt := hheld.tail.lt, not_idle := ?_ }, rfl⟩
  · intro n h (hh : h ∈ Function.update m.pool.idle b.bytes (x :: m.pool.idle b.bytes) n)
    rcases mem_update.mp hh with ⟨rfl, hstack⟩ | ⟨-, hold⟩
    · rcases List.mem_cons.mp hstack with rfl | hold
      · exact ⟨b, hb, rfl⟩
      · exact hok.idle_bytes _ h hold
    · exact hok.idle_bytes n h hold
  · intro n
    by_cases hn : n = b.bytes
    · simpa [hn] using ⟨hnot _, hok.idle_nodup _⟩
    · simpa [Function.update_of_ne hn] using hok.idle_nodup n
  · intro n
    by_cases hn : n = b.bytes
    · simpa [hn] using hroom
    · simpa [Function.update_of_ne hn] using hok.idle_le n
  · intro h hh n (hmem : h ∈ Function.update m.pool.idle b.bytes (x :: m.pool.idle b.bytes) n)
    rcases mem_update.mp hmem with ⟨rfl, hstack⟩ | ⟨-, hold⟩
    · rcases List.mem_cons.mp hstack with rfl | hold
      · exact hx hh
      · exact hheld.tail.not_idle h hh _ hold
    · exact hheld.tail.not_idle h hh n hold

/-- **Flush.**  The pool is empty, owners keep what they own. -/
lemma flush_spec {m : Memory α} {held : List ℕ} (hheld : m.Held held) :
    m.flush.Ok ∧ m.flush.Held held ∧ m.flush.heap = m.heap :=
  ⟨⟨by simp [flush], by simp [flush], by simp [flush]⟩,
    ⟨hheld.nodup, hheld.lt, by simp [flush]⟩, rfl⟩

/-- Buffers given back one after another. -/
def releaseAll (m : Memory α) (bufs : List ℕ) : Memory α := bufs.foldl release m

/-- **Release, of many.** -/
lemma releaseAll_spec {held : List ℕ} : ∀ {bufs : List ℕ} {m : Memory α}, m.Ok →
    m.Held (bufs ++ held) →
    (m.releaseAll bufs).Ok ∧ (m.releaseAll bufs).Held held ∧ (m.releaseAll bufs).heap = m.heap
  | [], _, hok, hheld => ⟨hok, hheld, rfl⟩
  | x :: bufs, m, hok, hheld => by
      obtain ⟨hok₁, hheld₁, hheap₁⟩ := release_spec hok hheld
      obtain ⟨hok₂, hheld₂, hheap₂⟩ := releaseAll_spec hok₁ hheld₁
      exact ⟨hok₂, hheld₂, hheap₂.trans hheap₁⟩

end Memory

/-! ## Other users of the pool -/

/-- What any other part of the process may do with the pool: call it, or write into a buffer that
it holds.  Buffers are named by their position among those held. -/
inductive PoolCall (α : Type) where
  | Acquire (nbytes : ℕ)
  | AcquireTensorPadded (channels seq : ℤ) (minAllocBytes : ℕ)
  | Write (k : ℕ) (data : ℕ → α)
  | Release (k : ℕ)
  | Flush

/-- The memory, and the buffers in the hands of these users. -/
structure PoolUsers (α : Type) where
  memory : Memory α
  held : List ℕ

namespace PoolUsers

variable {α : Type} (dirt : ℕ → ℕ → α)

/-- An empty pool. -/
def start (maxIdlePerSize : ℕ) : PoolUsers α :=
  { memory := { heap := [], pool := { maxIdlePerSize, idle := fun _ => [] } }, held := [] }

/-- One call. -/
def call (u : PoolUsers α) : PoolCall α → PoolUsers α
  | .Acquire nbytes =>
      { memory := (u.memory.acquire dirt nbytes).2
        held := (u.memory.acquire dirt nbytes).1 :: u.held }
  | .AcquireTensorPadded channels seq minAllocBytes =>
      { memory := (u.memory.acquireTensorPadded dirt channels seq minAllocBytes).2
        held := (u.memory.acquireTensorPadded dirt channels seq minAllocBytes).1 :: u.held }
  | .Write k data =>
      match u.held[k]? with
      | none => u
      | some h => { u with memory := u.memory.modify h ({ · with data }) }
  | .Release k =>
      match u.held[k]? with
      | none => u
      | some h => { memory := u.memory.release h, held := u.held.eraseIdx k }
  | .Flush => { u with memory := u.memory.flush }

/-- **Isolation.**  A call of these users keeps the pool in order and does not touch anybody
else's buffers. -/
theorem call_spec {u : PoolUsers α} {others : List ℕ} (hok : u.memory.Ok)
    (hheld : u.memory.Held (u.held ++ others)) (c : PoolCall α) :
    (u.call dirt c).memory.Ok ∧ (u.call dirt c).memory.Held ((u.call dirt c).held ++ others) ∧
      ∀ h ∈ others, Memory.SameAt u.memory (u.call dirt c).memory h := by
  cases c with
  | Acquire nbytes =>
      have hacq := Memory.acquire_spec dirt hok hheld nbytes
      exact ⟨hacq.ok, hacq.owned, fun h hh => hacq.same h (List.mem_append_right _ hh)⟩
  | AcquireTensorPadded channels seq minAllocBytes =>
      have hacq := Memory.acquireTensorPadded_spec dirt hok hheld channels seq minAllocBytes
      exact ⟨hacq.ok, hacq.owned, fun h hh => hacq.same h (List.mem_append_right _ hh)⟩
  | Write k data =>
      rw [call]
      cases hk : u.held[k]? with
      | none => exact ⟨hok, hheld, fun h _ => rfl⟩
      | some x =>
          obtain ⟨hok', hheld', hsame⟩ := Memory.modify_spec hok hheld x
            (f := fun b => { b with data }) (fun _ => rfl)
          have hx : x ∈ u.held := List.mem_of_getElem? hk
          refine ⟨hok', hheld', fun h hh => hsame h fun he => ?_⟩
          exact (List.nodup_append.mp hheld.nodup).2.2 x hx h hh he.symm
  | Release k =>
      rw [call]
      cases hk : u.held[k]? with
      | none => exact ⟨hok, hheld, fun h _ => rfl⟩
      | some x =>
          have hlt := (List.getElem?_eq_some_iff.mp hk).1
          have hget : u.held[k] = x := (List.getElem?_eq_some_iff.mp hk).2
          have hperm : (u.held ++ others).Perm (x :: (u.held.eraseIdx k ++ others)) := by
            rw [← List.cons_append, ← hget]
            exact (List.getElem_cons_eraseIdx_perm hlt).symm.append_right _
          obtain ⟨hok', hheld', hheap⟩ := Memory.release_spec hok (hheld.perm hperm)
          exact ⟨hok', hheld', fun h _ => by rw [Memory.SameAt, hheap]⟩
  | Flush =>
      obtain ⟨hok', hheld', hheap⟩ := Memory.flush_spec hheld
      exact ⟨hok', hheld', fun h _ => by rw [Memory.SameAt]; exact congrArg (·[h]?) hheap⟩

/-- **Pool discipline.**  In every history of the pool, it stays in order and no buffer has two
owners. -/
theorem run_spec (maxIdlePerSize : ℕ) (past : List (PoolCall α)) :
    (Runs.run (call dirt) (start maxIdlePerSize) past).memory.Ok ∧
      (Runs.run (call dirt) (start maxIdlePerSize) past).memory.Held
        (Runs.run (call dirt) (start maxIdlePerSize) past).held := by
  refine Runs.run_induction (call dirt) (I := fun u => u.memory.Ok ∧ u.memory.Held u.held)
    (fun u c hu => ?_) past _ ?_
  · have hheld : u.memory.Held (u.held ++ []) := by rw [List.append_nil]; exact hu.2
    have := call_spec dirt hu.1 hheld c
    rw [List.append_nil] at this
    exact ⟨this.1, this.2.1⟩
  · exact ⟨⟨by simp [start], by simp [start], by simp [start]⟩,
      ⟨List.nodup_nil, by simp [start], by simp [start]⟩⟩

end PoolUsers

end Libane
