import Libane.Core.PwlMeaning
import Libane.Graph.LoweringTotal

/-!
# The domain of a piecewise-linear activation

The weight bytes of a `PWL_ACTIVATION` node are `x_min`, `x_max` and the samples.  The wrapper and
the validator count them; nobody looks at the domain.

* `libaneGraphAddPwlActivation` — the wrapper, one `addOp` with the packed floats.
* `PwlWellPosed` — the step is positive and the thresholds increase.
* `pwl_well_posed_iff` — they do exactly when the two ends are numbers in order.
-/

namespace Libane

open MilBuilder MilBackend GraphValidator

/-! ## The wrapper -/

/-- `e.what()`. -/
def Failure.what : Failure → String
  | InvalidArgument what | OutOfRange what | RuntimeError what | LengthError what
  | UndefinedBehaviour what => what

/-- The bytes of an array of `float`. -/
def packFloats (words : List UInt32) : List UInt8 := words.flatMap fun w => Bytes.toLE 4 w.toNat

/-- `libane_graph_add_pwl_activation` on a graph: the tensor or the error that is set, and the
graph.  A null pointer to the samples is the empty list. -/
def libaneGraphAddPwlActivation (g : AneGraph) (inputId : ℕ) (outputShape : TensorShape)
    (xMin xMax : UInt32) (samples : List UInt32) : Except String ℕ × AneGraph :=
  if samples.length < 2 then
    (.error "libane_graph_add_pwl_activation: need at least 2 sample points", g)
  else
    match g.addOp .PwlActivation [inputId] outputShape (packFloats (xMin :: xMax :: samples)) with
    | (.ok id, g') => (.ok id, g')
    | (.error e, g') => (.error ("libane_graph_add_pwl_activation: " ++ e.what), g')

/-! ## What the emitter is given -/

/-- The number that an fp32 pattern stands for, if any. -/
def fp32Number (w : UInt32) : Option ℚ :=
  if w.toNat / 8388608 % 256 = 255 then none else some (fp32Value w)

/-- The array `fv` of `node_to_fragment`, as patterns. -/
def pwlWords (w : List UInt8) : List UInt32 :=
  (List.range (pwlFloatCount w).toNat).map fun i =>
    UInt32.ofNat (Bytes.ofLE ((w.drop (4 * i)).take 4))

lemma floatsOf_pwlWords {F : Type} [MilFloat F] {w : List UInt8} :
    floatsOf w (pwlFloatCount w).toNat = (pwlWords w).map (MilFloat.ofBits (F := F)) := by
  rw [pwlWords, List.map_map]
  rfl

/-- **Well-posed parameters.**  Both ends of the domain are numbers, and over exact arithmetic the
step is positive and the thresholds of the emitted comparisons increase. -/
def PwlWellPosed (T : FloatTexts) (xMin xMax : UInt32) (samples : List UInt32) : Prop :=
  ∃ lo hi, fp32Number xMin = some lo ∧ fp32Number xMax = some hi ∧
    0 < pwlStep lo hi samples.length ∧
    ((@pwlSegments ℚ (exactFloat T) lo hi (samples.map fp32Value)).dropLast.map
      (·.upper)).Pairwise (· < ·)

lemma pwlStep_pos_iff {lo hi : ℚ} {n : ℕ} (hn : 2 ≤ n) : 0 < pwlStep lo hi n ↔ lo < hi := by
  have hpos : (0 : ℚ) < ((n : ℤ) - 1 : ℤ) := Int.cast_pos.mpr (by omega)
  rw [pwlStep, div_pos_iff_of_pos_right hpos, sub_pos]

/-- A positive step makes the thresholds increase. -/
lemma pwl_thresholds_increase {T : FloatTexts} {lo hi : ℚ} {samples : List ℚ}
    (hstep : 0 < pwlStep lo hi samples.length) :
    ((@pwlSegments ℚ (exactFloat T) lo hi samples).dropLast.map (·.upper)).Pairwise (· < ·) := by
  have hall : ((@pwlSegments ℚ (exactFloat T) lo hi samples).map (·.upper)).Pairwise (· < ·) := by
    rw [pwlSegments_exact, List.map_map, List.pairwise_map]
    exact List.pairwise_lt_range.imp fun hlt =>
      Interpolation.point_lt_point hstep (Nat.succ_lt_succ hlt)
  exact hall.sublist ((List.dropLast_sublist _).map _)

/-- **Well-posedness is the order of the two ends.** -/
lemma pwlWellPosed_iff {T : FloatTexts} {xMin xMax : UInt32} {samples : List UInt32}
    (hn : 2 ≤ samples.length) : PwlWellPosed T xMin xMax samples ↔
      ∃ lo hi, fp32Number xMin = some lo ∧ fp32Number xMax = some hi ∧ lo < hi := by
  refine exists_congr fun lo => exists_congr fun hi => and_congr_right fun _ =>
    and_congr_right fun _ => ?_
  rw [pwlStep_pos_iff hn, and_iff_left_iff_imp]
  intro hlt
  refine pwl_thresholds_increase ?_
  rw [List.length_map]
  exact (pwlStep_pos_iff hn).mpr hlt

/-! ## Accepted graphs -/

/-- **When the parameters are well-posed.**  For every `PWL_ACTIVATION` node of an accepted graph,
whatever call and whatever bytes it comes from: its weights are the ends of the domain and at least
two samples, the emitter is given these, and they are well-posed exactly when the ends are numbers
and the left one is below the right one. -/
theorem pwl_well_posed_iff (T : FloatTexts) (G : AcceptedGraph) {n : GraphNode}
    (hn : n ∈ G.graph.nodes) (hop : n.op = .PwlActivation) :
    ∃ xMin xMax samples, pwlWords n.weights = xMin :: xMax :: samples ∧
      (n.weights.length < 2 ^ 31 → ∀ (outS : TensorShape) (i o : String),
        @pwlFragment ℚ (exactFloat T) n outS i o =
          @pwlActivationFragment ℚ (exactFloat T) outS.channels outS.seq (fp32Value xMin)
            (fp32Value xMax) (samples.map fp32Value) i o) ∧
      (PwlWellPosed T xMin xMax samples ↔
        ∃ lo hi, fp32Number xMin = some lo ∧ fp32Number xMax = some hi ∧ lo < hi) := by
  obtain ⟨outT, -, herr⟩ := G.opErrors_eq_nil hn
  rw [opErrors, hop] at herr
  obtain ⟨-, -, h4, hcount⟩ := pwlActivationErrors_eq_nil_iff.mp (Except.ok.inj herr)
  have hlen : (pwlWords n.weights).length = (pwlFloatCount n.weights).toNat := by simp [pwlWords]
  cases hwords : pwlWords n.weights with
  | nil =>
      rw [hwords, List.length_nil] at hlen
      omega
  | cons xMin rest =>
  cases rest with
  | nil =>
      rw [hwords, List.length_singleton] at hlen
      omega
  | cons xMax samples =>
      rw [hwords, List.length_cons, List.length_cons] at hlen
      refine ⟨xMin, xMax, samples, rfl, fun hlt outS i o => ?_, pwlWellPosed_iff (by omega)⟩
      have hbounds := mt (pwl_bounds h4 hcount).mp (not_not.mpr hlt)
      have hfloats := @floatsOf_pwlWords ℚ (exactFloat T) n.weights
      rw [hwords] at hfloats
      simp only [pwlFragment]
      rw [if_neg (by omega), if_neg hbounds, hfloats]
      rfl

/-- A graph with one piecewise-linear activation of three samples. -/
def activated (xMin xMax : UInt32) : AneGraph :=
  (libaneGraphAddPwlActivation (AneGraph.build [.AddInput "x" ⟨1, 1, 1, 16⟩]) 0 ⟨1, 1, 1, 16⟩
    xMin xMax [0, 0, 0]).2.call (.MarkOutput 1 "")

/-- The domain from -1 to 1. -/
def unitDomain : AcceptedGraph where
  graph := activated 0xBF800000 0x3F800000
  built := ⟨[.AddInput "x" ⟨1, 1, 1, 16⟩, .AddOp .PwlActivation [0] ⟨1, 1, 1, 16⟩
    (packFloats [0xBF800000, 0x3F800000, 0, 0, 0]), .MarkOutput 1 ""], rfl⟩
  accepted := by decide

theorem pwl_well_posed_iff_unit : ∃ n ∈ unitDomain.graph.nodes, ∃ xMin xMax samples,
    pwlWords n.weights = xMin :: xMax :: samples ∧ PwlWellPosed smallTexts xMin xMax samples := by
  have hn : unitDomain.graph.nodes[0] ∈ unitDomain.graph.nodes := List.getElem_mem _
  obtain ⟨xMin, xMax, samples, hwords, -, hiff⟩ := pwl_well_posed_iff smallTexts unitDomain hn rfl
  have hpacked : pwlWords unitDomain.graph.nodes[0].weights =
      [0xBF800000, 0x3F800000, 0, 0, 0] := by decide
  obtain ⟨rfl, rfl, -⟩ := List.cons.inj (hwords.symm.trans hpacked) |>.imp_right List.cons.inj
  refine ⟨_, hn, _, _, samples, hwords, hiff.mpr ⟨-1, 1, ?_, ?_, by norm_num⟩⟩
  · have hbits : (0xBF800000 : UInt32).toNat = 3212836864 := rfl
    norm_num [fp32Number, fp32Value, hbits]
  · have hbits : (0x3F800000 : UInt32).toNat = 1065353216 := rfl
    norm_num [fp32Number, fp32Value, hbits]

/-- The domain from 1 to 1. -/
theorem empty_domain_accepted : validate (activated 0x3F800000 0x3F800000) = .ok [] ∧
    ∃ n ∈ (activated 0x3F800000 0x3F800000).nodes, n.op = .PwlActivation ∧
      ∃ xMin xMax samples, pwlWords n.weights = xMin :: xMax :: samples ∧
        ¬ PwlWellPosed smallTexts xMin xMax samples := by
  refine ⟨by decide, (activated 0x3F800000 0x3F800000).nodes[0], List.getElem_mem _, rfl,
    0x3F800000, 0x3F800000, [0, 0, 0], by decide, ?_⟩
  rintro ⟨lo, hi, hlo, hhi, hstep, -⟩
  obtain rfl := Option.some.inj (hlo.symm.trans hhi)
  simp [pwlStep] at hstep

end Libane
