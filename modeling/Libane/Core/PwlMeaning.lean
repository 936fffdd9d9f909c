import Libane.Core.Fp16
import Libane.Core.MilMeaning
import Libane.Foundation.Interpolation
import Mathlib.Topology.Instances.Rat

/-!
# The piecewise-linear activation is the interpolant

Over exact rational arithmetic, with a literal standing for the number it was printed from, the
select chain of `pwl_activation_fragment` interpolates the samples.

**Why extrapolation is right.**  The chain takes the line of the first segment whose upper end is
above the argument, and the last line if there is none.  Nothing is compared with the ends of the
domain, so outside of it the first and the last line go on.

* `exactFloat` — rational numbers as the floats of the builder.
* `wrapValue` — a segment around what was emitted so far, as a function.
* `pwlLoop_value` — the loop over the segments composes them.
* `pwl_activation_interpolates` — the fragment applies the interpolant to every element.
-/

namespace Libane

open MilBuilder Interpolation

/-! ## The values of the chain -/

section Chain

variable {K : Type} [Add K] [Mul K] [LT K] [DecidableLT K]

/-- `a * x + b`. -/
def segmentValue (seg : PwlSegment K) (x : K) : K := x * seg.a + seg.b

/-- The segment below its upper end, and what was emitted so far from there on. -/
def wrapValue (g : K → K) (seg : PwlSegment K) (x : K) : K :=
  if x < seg.upper then segmentValue seg x else g x

variable {C SP : ℤ} {p i : String} {x : MilTensor K} {val : String → Option (MilVal K)}

/-- The statements of the last segment. -/
lemma pwlInnermost_value {seg : PwlSegment K} (hx : x.dims.map Int.ofNat = [1, C, 1, SP])
    (hi : val i = some (.Floats x))
    (hsolve : ∀ s ∈ pwlInnermost (tensorType (shapeOf C SP)) p i seg,
      val s.var = s.sem (s.operands.map val)) :
    val (p ++ "cr" ++ toString seg.index) = some (.Floats (x.map (segmentValue seg))) := by
  simp only [pwlInnermost, List.forall_mem_cons] at hsolve
  obtain ⟨ha, hb, ht, hcr, -⟩ := hsolve
  rw [const_sem] at ha hb
  rw [op_sem] at ht hcr
  simp only [const_var, op_var, op_operands, arg, List.flatMap_cons, List.flatMap_nil, var_names,
    List.append_nil, List.singleton_append, List.map_cons, List.map_nil] at ha hb ht hcr
  have ha : val (p ++ "a" ++ toString seg.index) = some (.Number seg.a) := by
    rw [ha]
    rfl
  have hb : val (p ++ "b" ++ toString seg.index) = some (.Number seg.b) := by
    rw [hb]
    rfl
  have ht : val (p ++ "t" ++ toString seg.index) = some (.Floats (x.map (· * seg.a))) := by
    rw [ht, hi, ha]
    simp [opMeaning, MilVal.hasType, MilTensor.map, tensorType, shapeOf, hx]
  rw [hcr, ht, hb]
  simp [opMeaning, MilVal.hasType, MilTensor.map, tensorType, shapeOf, hx, segmentValue]

/-- The statements of any other segment. -/
lemma pwlWrap_value {seg : PwlSegment K} {cur : String} {g : K → K}
    (hx : x.dims.map Int.ofNat = [1, C, 1, SP]) (hi : val i = some (.Floats x))
    (hcur : val cur = some (.Floats (x.map g)))
    (hsolve : ∀ s ∈ pwlWrap (shapeOf C SP) p i cur seg, val s.var = s.sem (s.operands.map val)) :
    val (p ++ "cr" ++ toString seg.index) = some (.Floats (x.map (wrapValue g seg))) := by
  simp only [pwlWrap, List.forall_mem_cons] at hsolve
  obtain ⟨ha, hb, ht, hy, hth, hmk, hcr, -⟩ := hsolve
  rw [const_sem] at ha hb hth
  rw [op_sem] at ht hy hmk hcr
  simp only [const_var, op_var, op_operands, arg, List.flatMap_cons, List.flatMap_nil, var_names,
    List.append_nil, List.singleton_append, List.map_cons, List.map_nil] at ha hb ht hy hth hmk hcr
  have ha : val (p ++ "a" ++ toString seg.index) = some (.Number seg.a) := by
    rw [ha]
    rfl
  have hb : val (p ++ "b" ++ toString seg.index) = some (.Number seg.b) := by
    rw [hb]
    rfl
  have hth : val (p ++ "th" ++ toString seg.index) = some (.Number seg.upper) := by
    rw [hth]
    rfl
  have ht : val (p ++ "t" ++ toString seg.index) = some (.Floats (x.map (· * seg.a))) := by
    rw [ht, hi, ha]
    simp [opMeaning, MilVal.hasType, MilTensor.map, tensorType, shapeOf, hx]
  have hy : val (p ++ "y" ++ toString seg.index) =
      some (.Floats (x.map (segmentValue seg))) := by
    rw [hy, ht, hb]
    simp [opMeaning, MilVal.hasType, MilTensor.map, tensorType, shapeOf, hx, segmentValue]
  have hmk : val (p ++ "mk" ++ toString seg.index) =
      some (.Bools (x.map fun v => decide (v < seg.upper))) := by
    rw [hmk, hi, hth]
    simp [opMeaning, MilVal.hasType, MilTensor.map, boolType, shapeOf, hx]
  rw [hcr, hmk, hy, hcur]
  simp [opMeaning, MilVal.hasType, MilTensor.map, MilTensor.select, tensorType, shapeOf, hx,
    wrapValue]

/-- **The loop composes the segments.** -/
lemma pwlLoop_value (hx : x.dims.map Int.ofNat = [1, C, 1, SP]) (hi : val i = some (.Floats x)) :
    ∀ (cur : String) (segments : List (PwlSegment K)) (g : K → K),
      val cur = some (.Floats (x.map g)) →
      (∀ s ∈ (pwlLoop (shapeOf C SP) p i cur segments).1, val s.var = s.sem (s.operands.map val)) →
      val (pwlLoop (shapeOf C SP) p i cur segments).2 =
        some (.Floats (x.map (segments.foldl wrapValue g)))
  | _, [], _, hcur, _ => hcur
  | cur, seg :: rest, g, hcur, hsolve => by
      rw [pwlLoop] at hsolve
      obtain ⟨hwrap, hrest⟩ := List.forall_mem_append.mp hsolve
      exact pwlLoop_value hx hi _ rest _ (pwlWrap_value hx hi hcur hwrap) hrest

end Chain

/-! ## Exact floats -/

/-- What `printf` and streams make of numbers. -/
structure FloatTexts where
  general : ℕ → ℚ → String
  fixed : ℕ → ℚ → String
  general_chars : ∀ d v, ∀ c ∈ (general d v).toList, c ∈ floatChars
  fixed_chars : ∀ d v, ∀ c ∈ (fixed d v).toList, c ∈ floatChars

/-- Rational numbers as floats, however they are printed. -/
@[reducible]
def exactFloat (T : FloatTexts) : MilFloat ℚ where
  add := (· + ·)
  sub := (· - ·)
  mul := (· * ·)
  div := (· / ·)
  ofInt := (↑)
  ofBits := fp32Value
  belowFp16 v := |v| < 596 / 10 ^ 10
  general := T.general
  fixed := T.fixed
  general_chars := T.general_chars
  fixed_chars := T.fixed_chars

/-! ## The segments -/

section Segments

variable (T : FloatTexts) {xMin xMax : ℚ} {samples : List ℚ}

/-- The distance of the sample points. -/
def pwlStep (xMin xMax : ℚ) (n : ℕ) : ℚ := (xMax - xMin) / ((n : ℤ) - 1 : ℤ)

/-- The segment between the samples `k` and `k + 1`. -/
def pwlSegment (xMin dx : ℚ) (s : ℕ → ℚ) (k : ℕ) : PwlSegment ℚ :=
  let a := (s (k + 1) - s k) * (1 / dx)
  { index := k, a, b := s k - a * point xMin dx k, upper := point xMin dx (k + 1) }

/-- The segments of the source, over exact numbers. -/
lemma pwlSegments_exact : @pwlSegments ℚ (exactFloat T) xMin xMax samples =
    (List.range (samples.length - 1)).map
      (pwlSegment xMin (pwlStep xMin xMax samples.length) (samples.getD · 0)) := by
  refine List.ext_getElem (by simp [pwlSegments]) fun k hk hk' => ?_
  rw [List.length_map, List.length_range] at hk'
  have h₀ : samples.getD k 0 = samples[k] := List.getD_eq_getElem _ _ (by omega)
  have h₁ : samples.getD (k + 1) 0 = samples[k + 1] := List.getD_eq_getElem _ _ (by omega)
  have hone : @MilFloat.ofInt ℚ (exactFloat T) 1 = 1 := Int.cast_one
  have hcast : ∀ j : ℕ, @MilFloat.ofInt ℚ (exactFloat T) j = j := Int.cast_natCast
  simp only [pwlSegments, List.getElem_map, List.getElem_zipIdx, List.getElem_zip,
    List.getElem_tail, List.getElem_range, pwlSegment, h₀, h₁, hone, hcast, Nat.zero_add]
  rfl

lemma segmentValue_pwlSegment {xMin dx : ℚ} {s : ℕ → ℚ} {k : ℕ} :
    segmentValue (pwlSegment xMin dx s k) = secant xMin dx s k := by
  funext x
  simp only [segmentValue, pwlSegment, secant]
  ring

/-- Folding the segments from the last one down is the chain. -/
lemma foldl_wrapValue {xMin dx : ℚ} {s : ℕ → ℚ} {m : ℕ} :
    ((List.range m).map (pwlSegment xMin dx s)).reverse.foldl wrapValue (secant xMin dx s m) =
      chain xMin dx s 0 m := by
  have hfold : ∀ k, (List.range' k m).foldr (fun j g => wrapValue g (pwlSegment xMin dx s j))
      (secant xMin dx s (k + m)) = chain xMin dx s k m := by
    induction m with
    | zero => exact fun k => rfl
    | succ m ih =>
        intro k
        rw [List.range'_succ, List.foldr_cons, ← Nat.succ_add_eq_add_succ, ih (k + 1)]
        funext x
        rw [wrapValue, segmentValue_pwlSegment]
        rfl
  have hzero := hfold 0
  rw [List.foldl_reverse, List.foldr_map, List.range_eq_range']
  rwa [Nat.zero_add] at hzero

end Segments

/-! ## The fragment -/

/-- What an emitted fragment consists of. -/
lemma pwlActivationFragment_body {F : Type} [MilFloat F] {C SP : ℤ} {xMin xMax : F}
    {samples : List F} {i o : String} {f : MilFragment F}
    (h : pwlActivationFragment C SP xMin xMax samples i o = .ok f) :
    2 ≤ samples.length ∧ ∀ seg rest, (pwlSegments xMin xMax samples).reverse = seg :: rest →
      f.body = pwlInnermost (tensorType (shapeOf C SP)) (o ++ "_") i seg ++
        (pwlLoop (shapeOf C SP) (o ++ "_") i (o ++ "_" ++ "cr" ++ toString seg.index) rest).1 ++
        [op (tensorType (shapeOf C SP)) o "identity"
          [arg "x" (pwlLoop (shapeOf C SP) (o ++ "_") i
            (o ++ "_" ++ "cr" ++ toString seg.index) rest).2] (o ++ "_" ++ "pwl")] := by
  unfold pwlActivationFragment at h
  split_ifs at h with hlen
  refine ⟨not_lt.mp hlen, fun seg rest hsegments => ?_⟩
  obtain ⟨j, hlast⟩ := pwlLoop_last (shapeOf C SP) (o ++ "_") i seg.index rest
  have hne : (o ++ "_" ++ "cr" ++ toString j) ≠ o := by
    intro he
    have hlen := congrArg String.length he
    have hone : "_".length = 1 := by decide
    simp only [String.length_append, hone] at hlen
    omega
  rw [hsegments] at h
  simp only [pwlChain, hlast, if_pos hne] at h
  obtain ⟨-, rfl⟩ := checked_eq_ok_iff.mp h
  rw [hlast]

/-- The fragment applies the chain to every element. -/
lemma eval_pwlActivation {T : FloatTexts} {C SP : ℤ} {xMin xMax : ℚ} {samples : List ℚ}
    {i o : String} {f : MilFragment ℚ}
    (h : @pwlActivationFragment ℚ (exactFloat T) C SP xMin xMax samples i o = .ok f)
    (hi : i ∉ f.body.map (·.var)) {m : ℕ} (hm : samples.length = m + 2)
    {x : MilTensor ℚ} (hx : x.dims.map Int.ofNat = [1, C, 1, SP]) :
    f.eval i (.Floats x) = some (.Floats
      (x.map (chain xMin (pwlStep xMin xMax samples.length) (samples.getD · 0) 0 m))) := by
  obtain ⟨val, hval, hsolve, heval⟩ :=
    (@pwlActivationFragment_emitted ℚ (exactFloat T) _ _ _ _ _ _ _ _ h).eval_eq hi (.Floats x)
  have hsegments : (@pwlSegments ℚ (exactFloat T) xMin xMax samples).reverse =
      pwlSegment xMin (pwlStep xMin xMax samples.length) (samples.getD · 0) m ::
        ((List.range m).map (pwlSegment xMin (pwlStep xMin xMax samples.length)
          (samples.getD · 0))).reverse := by
    rw [pwlSegments_exact, show samples.length - 1 = m + 1 by omega, List.range_succ,
      List.map_append, List.reverse_append]
    rfl
  have hbody := (@pwlActivationFragment_body ℚ (exactFloat T) _ _ _ _ _ _ _ _ h).2 _ _ hsegments
  rw [hbody] at hsolve
  simp only [List.forall_mem_append, List.forall_mem_singleton] at hsolve
  obtain ⟨⟨hinner, hloop⟩, hout⟩ := hsolve
  have hlast := pwlLoop_value hx hval _ _ _ (pwlInnermost_value hx hval hinner) hloop
  rw [segmentValue_pwlSegment, foldl_wrapValue] at hlast
  rw [op_sem] at hout
  simp only [op_var, op_operands, arg, List.flatMap_cons, List.flatMap_nil, var_names,
    List.append_nil, List.map_cons, List.map_nil] at hout
  rw [heval, hout, hlast]
  simp [opMeaning, MilVal.hasType, MilTensor.map, tensorType, shapeOf, hx]

/-- **The piecewise-linear activation is the interpolant.**  For every domain, every list of at
least two samples and every shape, the emitted fragment applies one function to each element: the
one that is linear between neighbouring sample points, goes on linearly outside of the domain,
takes the samples at the points, and is continuous. -/
theorem pwl_activation_interpolates {T : FloatTexts} {C SP : ℤ} {xMin xMax : ℚ} {samples : List ℚ}
    {i o : String} {f : MilFragment ℚ} (hdomain : xMin < xMax)
    (h : @pwlActivationFragment ℚ (exactFloat T) C SP xMin xMax samples i o = .ok f)
    (hi : i ∉ f.body.map (·.var)) :
    ∃ φ : ℚ → ℚ,
      Interpolates xMin ((xMax - xMin) / (samples.length - 1)) (samples.getD · 0)
        (samples.length - 1) φ ∧
      point xMin ((xMax - xMin) / (samples.length - 1)) (samples.length - 1) = xMax ∧
      (∀ k (hk : k < samples.length),
        φ (point xMin ((xMax - xMin) / (samples.length - 1)) k) = samples[k]) ∧
      Continuous φ ∧
      ∀ x : MilTensor ℚ, x.dims.map Int.ofNat = [1, C, 1, SP] →
        f.eval i (.Floats x) = some (.Floats (x.map φ)) := by
  obtain ⟨m, hm⟩ := Nat.exists_eq_add_of_le'
    (@pwlActivationFragment_body ℚ (exactFloat T) _ _ _ _ _ _ _ _ h).1
  have hstep : pwlStep xMin xMax samples.length = (xMax - xMin) / (samples.length - 1) := by
    simp [pwlStep]
  have hpred : (samples.length : ℚ) - 1 = (m + 1 : ℕ) := by
    rw [hm]
    push_cast
    ring
  have hpos : (0 : ℚ) < (m + 1 : ℕ) := Nat.cast_pos.mpr m.succ_pos
  have hdx : 0 < (xMax - xMin) / (samples.length - 1) := by
    rw [hpred]
    exact div_pos (sub_pos.mpr hdomain) hpos
  have heval := @eval_pwlActivation T C SP xMin xMax samples i o f h hi m hm
  rw [hstep] at heval
  have hinterp : Interpolates xMin _ (samples.getD · 0) (m + 1) (chain _ _ _ 0 m) :=
    interpolates_chain hdx
  refine ⟨_, ?_, ?_, fun k hk => ?_, continuous_chain hdx 0 m, fun x hx => heval hx⟩
  · rwa [show samples.length - 1 = m + 1 by omega]
  · rw [point, hpred, show samples.length - 1 = m + 1 by omega, mul_div_cancel₀ _ hpos.ne']
    ring
  · rw [hinterp.at_point hdx (by omega)]
    exact List.getD_eq_getElem _ _ hk

/-- The numbers of the chain below, printed. -/
def smallTexts : FloatTexts where
  general _ v := if v = 0 then "0" else if v = 3 then "3" else "1"
  fixed _ v := if v = 0 then "0.0000000" else if v = 3 then "3.0000000" else "1.0000000"
  general_chars d v := by
    split_ifs <;> simp [floatChars]
  fixed_chars d v := by
    split_ifs <;> simp [floatChars]

/-- Two segments that meet at zero: beyond the domain the second one goes on. -/
theorem pwl_activation_interpolates_two : ∃ (f : MilFragment ℚ) (φ : ℚ → ℚ),
    @pwlActivationFragment ℚ (exactFloat smallTexts) 1 16 (-1) 1 [0, 1, 4] "t0" "t1" = .ok f ∧
    φ 0 = 1 ∧ φ 2 = 7 ∧
    f.eval "t0" (.Floats ⟨[1, 1, 1, 16], fun _ => 2⟩) =
      some (.Floats ⟨[1, 1, 1, 16], fun _ => φ 2⟩) := by
  have hok : @pwlActivationFragment ℚ (exactFloat smallTexts) 1 16 (-1) 1 [0, 1, 4] "t0" "t1" =
      .ok _ := rfl
  obtain ⟨φ, hinterp, -, hpoint, -, heval⟩ :=
    pwl_activation_interpolates (by norm_num) hok (by decide)
  have hzero := hpoint 1 (by norm_num)
  have htwo := hinterp.above 2 (by norm_num [point])
  refine ⟨_, φ, hok, ?_, ?_, heval ⟨[1, 1, 1, 16], fun _ => 2⟩ rfl⟩
  · norm_num [point] at hzero
    exact hzero
  · norm_num [point, secant] at htwo
    exact htwo

end Libane
