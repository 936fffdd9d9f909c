import Mathlib

/-!
# Tensor shapes, and how a call can fail

`TensorShape` is the `[batch, channels, height, seq]` record of `mil_builder.hpp`, with the ANE
constraint check `TensorShape::validate` and the element counts `numel` and `bytes`.

C++ functions that can throw are modelled in `Outcome`, an `Except` whose errors are `Failure`:
the standard exceptions the sources throw, with their texts, and one constructor for the places
where the C++ abstract machine gives no meaning at all (a division by zero, a copy past the end
of a vector).  The last is kept apart because no `catch` clause can turn it back into a result.

* `TensorShape.validate_eq_ok_iff` — the constraints that a shape passing `validate` satisfies,
  packaged as the structure `TensorShape.Valid`.
* `TensorShape.Valid.numel_eq` — on a valid shape the 64-bit count is the exact product.
-/

namespace Libane

/-- How a C++ call can end other than by returning. -/
inductive Failure where
  | InvalidArgument (what : String)
  | OutOfRange (what : String)
  | RuntimeError (what : String)
  | LengthError (what : String)
  | UndefinedBehaviour (what : String)
  deriving DecidableEq, Repr

/-- The result of a call that may fail. -/
abbrev Outcome := Except Failure

/-! ## Sequencing in `Outcome` -/

/-- A sequence returns when both parts do. -/
lemma bind_eq_ok {α β : Type} {x : Outcome α} {f : α → Outcome β} {b : β} :
    (x >>= f) = .ok b ↔ ∃ a, x = .ok a ∧ f a = .ok b := by
  cases x with
  | error e => simp [bind, Except.bind]
  | ok a => simp [bind, Except.bind]

/-- A sequence fails when its first part does, or when its second part does on the value of the
first. -/
lemma bind_eq_error {α β : Type} {x : Outcome α} {f : α → Outcome β} {e : Failure} :
    (x >>= f) = .error e ↔ x = .error e ∨ ∃ a, x = .ok a ∧ f a = .error e := by
  cases x with
  | error e => simp [bind, Except.bind]
  | ok a => simp [bind, Except.bind]

/-- A first part that has returned is passed on. -/
lemma ok_bind {α β : Type} {a : α} {f : α → Outcome β} : ((.ok a : Outcome α) >>= f) = f a := rfl

@[simp] lemma pure_eq_ok_iff {α : Type} {a b : α} : (pure a : Outcome α) = .ok b ↔ a = b := by
  simp [pure, Except.pure]

@[simp] lemma pure_ne_error {α : Type} {a : α} {e : Failure} :
    (pure a : Outcome α) ≠ .error e := by
  simp [pure, Except.pure]

/-! ## Fixed-width conversions -/

/-- Conversion of a (possibly negative) `int` to `size_t`: reduction modulo `2 ^ 64`. -/
def toSizeT (i : ℤ) : ℕ := (i % 2 ^ 64).toNat

/-- `static_cast<int>` of a `size_t`: the signed 32-bit residue. -/
def toInt32 (n : ℕ) : ℤ := Int.bmod n (2 ^ 32)

lemma toSizeT_of_nonneg {i : ℤ} (h0 : 0 ≤ i) (h1 : i < 2 ^ 64) : (toSizeT i : ℤ) = i := by
  rw [toSizeT, Int.emod_eq_of_lt h0 h1]
  exact Int.toNat_of_nonneg h0

/-! ## Shapes -/

/-- `mil::TensorShape`: an ANE tensor is `[1, C, 1, S]`. -/
structure TensorShape where
  batch : ℤ := 1
  channels : ℤ := 0
  height : ℤ := 1
  seq : ℤ := 0
  deriving DecidableEq, Repr, Inhabited

namespace TensorShape

/-- `TensorShape::validate`: the checks in source order, the first violation thrown. -/
def validate (s : TensorShape) : Outcome Unit :=
  if s.batch ≠ 1 then
    .error (.InvalidArgument ("ANE: batch must be 1, got " ++ toString s.batch))
  else if s.height ≠ 1 then
    .error (.InvalidArgument ("ANE: height must be 1, got " ++ toString s.height))
  else if s.seq ≤ 0 ∨ s.seq % 16 ≠ 0 then
    .error (.InvalidArgument ("ANE: S must be > 0 and multiple of 16, got " ++ toString s.seq))
  else if s.seq > 65536 then
    .error (.InvalidArgument ("ANE: S must be ≤ 65536, got " ++ toString s.seq))
  else if s.channels ≤ 0 ∨ s.channels > 16384 then
    .error (.InvalidArgument ("ANE: C must be in [1, 16384], got " ++ toString s.channels))
  else
    .ok ()

/-- Total fp16 elements, in `size_t` arithmetic. -/
def numel (s : TensorShape) : ℕ :=
  toSizeT s.batch * toSizeT s.channels * toSizeT s.height * toSizeT s.seq % 2 ^ 64

/-- Size in bytes of the fp16 tensor, in `size_t` arithmetic. -/
def bytes (s : TensorShape) : ℕ := s.numel * 2 % 2 ^ 64

/-- The ANE constraints on a shape. -/
structure Valid (s : TensorShape) : Prop where
  batch_eq : s.batch = 1
  height_eq : s.height = 1
  seq_pos : 0 < s.seq
  seq_dvd : s.seq % 16 = 0
  seq_le : s.seq ≤ 65536
  channels_pos : 0 < s.channels
  channels_le : s.channels ≤ 16384

/-- `validate` returns normally on exactly the shapes that satisfy the ANE constraints. -/
theorem validate_eq_ok_iff {s : TensorShape} : s.validate = .ok () ↔ s.Valid := by
  constructor
  · intro h
    simp only [validate] at h
    split_ifs at h with hb hh hs hs' hc
    push Not at hb hh hs hs' hc
    exact ⟨hb, hh, hs.1, hs.2, hs', hc.1, hc.2⟩
  · intro h
    have hs : ¬ (s.seq ≤ 0 ∨ s.seq % 16 ≠ 0) := by
      have := h.seq_pos; have := h.seq_dvd; omega
    have hc : ¬ (s.channels ≤ 0 ∨ s.channels > 16384) := by
      have := h.channels_pos; have := h.channels_le; omega
    have hs' : ¬ s.seq > 65536 := by have := h.seq_le; omega
    simp only [validate, h.batch_eq, h.height_eq, ne_eq, not_true, if_false, if_neg hs, if_neg hs',
      if_neg hc]

/-- A shape that fails `validate` throws `std::invalid_argument` and nothing else. -/
lemma validate_cases (s : TensorShape) :
    s.validate = .ok () ∨ ∃ what, s.validate = .error (.InvalidArgument what) := by
  simp only [validate]
  split_ifs <;> simp

instance (s : TensorShape) : Decidable s.Valid :=
  decidable_of_iff (s.validate = .ok ()) validate_eq_ok_iff

/-- `[1, C, 1, S]` is valid when `C` and `S` are in range. -/
lemma valid_mk {c s : ℤ} (hc0 : 0 < c) (hc1 : c ≤ 16384) (hs0 : 0 < s) (hs16 : s % 16 = 0)
    (hs1 : s ≤ 65536) : Valid ⟨1, c, 1, s⟩ :=
  ⟨rfl, rfl, hs0, hs16, hs1, hc0, hc1⟩

/-- A valid shape is determined by its channel count and its sequence length. -/
lemma Valid.eq_mk {s : TensorShape} (h : s.Valid) : s = ⟨1, s.channels, 1, s.seq⟩ := by
  obtain ⟨b, c, k, q⟩ := s
  have hb : b = 1 := h.batch_eq
  have hk : k = 1 := h.height_eq
  rw [hb, hk]

/-- Two valid shapes with the same channels and the same sequence length are equal. -/
lemma Valid.ext {s t : TensorShape} (hs : s.Valid) (ht : t.Valid) (hc : s.channels = t.channels)
    (hq : s.seq = t.seq) : s = t := by
  rw [hs.eq_mk, ht.eq_mk, hc, hq]

/-- On a valid shape the `size_t` product does not wrap. -/
theorem Valid.numel_eq {s : TensorShape} (h : s.Valid) : (s.numel : ℤ) = s.channels * s.seq := by
  have hc := toSizeT_of_nonneg h.channels_pos.le (by have := h.channels_le; omega)
  have hs := toSizeT_of_nonneg h.seq_pos.le (by have := h.seq_le; omega)
  have h1 : toSizeT 1 = 1 := rfl
  have hlt : toSizeT s.channels * toSizeT s.seq < 2 ^ 64 := by
    have hc' : toSizeT s.channels ≤ 16384 := by have := h.channels_le; omega
    have hs' : toSizeT s.seq ≤ 65536 := by have := h.seq_le; omega
    calc toSizeT s.channels * toSizeT s.seq ≤ 16384 * 65536 := Nat.mul_le_mul hc' hs'
      _ < 2 ^ 64 := by norm_num
  rw [numel, h.batch_eq, h.height_eq, h1, one_mul, mul_one, Nat.mod_eq_of_lt hlt]
  push_cast
  rw [hc, hs]

/-- The dimensions of a valid shape as `size_t` values. -/
lemma Valid.sizes_le {s : TensorShape} (h : s.Valid) :
    toSizeT s.channels ≤ 16384 ∧ toSizeT s.seq ≤ 65536 := by
  have := toSizeT_of_nonneg h.channels_pos.le (by have := h.channels_le; omega)
  have := toSizeT_of_nonneg h.seq_pos.le (by have := h.seq_le; omega)
  have := h.channels_le
  have := h.seq_le
  omega

/-- The size of a valid shape, from the two dimensions that a buffer knows. -/
lemma Valid.bytes_eq {s : TensorShape} (h : s.Valid) :
    toSizeT s.channels * toSizeT s.seq * 2 % 2 ^ 64 = s.bytes ∧ s.bytes = 2 * s.numel := by
  have h1 : toSizeT 1 = 1 := rfl
  have hle : toSizeT s.channels * toSizeT s.seq ≤ 16384 * 65536 :=
    Nat.mul_le_mul h.sizes_le.1 h.sizes_le.2
  rw [bytes, numel, h.batch_eq, h.height_eq, h1, one_mul, mul_one]
  omega

/-- The element count of a valid shape, from the two dimensions that a buffer knows. -/
lemma Valid.copied_eq {s : TensorShape} (h : s.Valid) :
    toSizeT s.channels * toSizeT s.seq * 2 % 2 ^ 64 / 2 = s.numel := by
  have := h.bytes_eq
  omega

end TensorShape

end Libane
