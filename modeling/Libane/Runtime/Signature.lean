import Libane.Core.Emitted
import Libane.Runtime.AneRuntime

/-!
# Reading the signature back

`build_fused` writes a parameter as `tensor<fp16, […]> name` and the result as `-> (name)`; the two
parsers of the runtime look for `name: type`.

* `FromEmitters` — the fragments that the emitters produce for names without a colon.
* `SignatureRead` — the parsers find what was declared.
* `signature_never_read` — they never do.
-/

namespace Libane

open Names MilBuilder

/-! ## Fragments from the emitters -/

section Emitters

variable {F : Type}

/-- The fragments that the emitters produce, for names and weight files without a colon. -/
def FromEmitters [MilFloat F] (f : MilFragment F) : Prop :=
  ∃ names, ProducedFrom names f ∧ ∀ a ∈ names, Avoids ':' a

/-- Every such fragment keeps the conventions of the emitters, and its names are free of
colons. -/
lemma FromEmitters.emitted [MilFloat F] {f : MilFragment F} (h : FromEmitters f) :
    ∃ ins refs out, Emitted ins refs out f ∧
      ∀ a ∈ out :: ins ++ refs.map Prod.snd, Avoids ':' a := by
  obtain ⟨names, hproduced, havoid⟩ := h
  obtain ⟨ins, refs, out, hemit, hsub⟩ := hproduced.emitted
  exact ⟨ins, refs, out, hemit, fun a ha => havoid a (hsub ha)⟩

end Emitters

/-! ## The signature -/

variable {F : Type}

/-- The parsers find the parameters in the order of their declaration and the returned name. -/
def SignatureRead (f : MilFunction F) (text : String) : Prop :=
  extractInputParams text = f.params.map (·.varName) ∧ extractOutputVars text = [f.result]

/-- **Assembled fragments contain no colon.** -/
lemma plain_assemble [MilFloat F] {inputs : List FusedInput} {fragments : List (MilFragment F)}
    (hnames : ∀ i ∈ inputs, Avoids ':' i.varName) (hfrag : ∀ f ∈ fragments, FromEmitters f) :
    (assemble inputs fragments).Plain where
  params := fun i hi => hnames i (mem_sortInputs.mp hi)
  body := by
    intro s hs
    obtain ⟨f, hf, hs⟩ := List.mem_flatMap.mp hs
    obtain ⟨ins, refs, out, hemit, havoid⟩ := (hfrag f hf).emitted
    simp only [List.cons_append, List.forall_mem_cons, List.forall_mem_append,
      List.forall_mem_map] at havoid
    exact hemit.plain havoid.1 havoid.2.1 havoid.2.2 s hs
  result := by
    show Avoids ':' ((fragments.getLast?.map (·.outputName)).getD "")
    cases hlast : fragments.getLast? with
    | none => simp [Avoids]
    | some f =>
        obtain ⟨ins, refs, out, hemit, havoid⟩ := (hfrag f (List.mem_of_getLast? hlast)).emitted
        simpa [hemit.outputName_eq] using havoid out List.mem_cons_self

/-- **The signature is never read.**  No text that `build_fused` writes for emitted fragments
contains a colon: the parsers return no parameter and no output for it, although it declares at
least one parameter and returns a result. -/
theorem signature_never_read [MilFloat F] {inputs : List FusedInput}
    {fragments : List (MilFragment F)} {p : MilProgram}
    (hnames : ∀ i ∈ inputs, Avoids ':' i.varName) (hfrag : ∀ f ∈ fragments, FromEmitters f)
    (h : buildFused inputs fragments = .ok p) :
    ¬ SignatureRead (assemble inputs fragments) p.text ∧
      extractInputParams p.text = [] ∧ extractOutputVars p.text = [] ∧
      (assemble inputs fragments).params ≠ [] := by
  have hi : inputs ≠ [] := by
    rintro rfl
    simp [buildFused] at h
  have hf : fragments ≠ [] := by
    rintro rfl
    simp [buildFused, hi] at h
  obtain ⟨p', hp', htext⟩ := buildFused_eq hi hf
  obtain rfl : p' = p := Except.ok.inj (hp'.symm.trans h)
  have hplain : ':' ∉ p'.text.toList := by
    rw [htext]
    exact (plain_assemble hnames hfrag).render
  have hout : extractOutputVars p'.text = [] := namesInParens_eq_nil hplain
  refine ⟨fun hread => ?_, namesInParens_eq_nil hplain, hout, ?_⟩
  · simp [SignatureRead, hout] at hread
  · intro hnil
    obtain ⟨i, hmem⟩ := List.exists_mem_of_ne_nil _ hi
    have hparam : i ∈ (assemble inputs fragments).params := mem_sortInputs.mpr hmem
    simp [hnil] at hparam

/-- The fragment of a `RELU` from `t0` to `t1`. -/
lemma fromEmitters_relu {f : MilFragment Unit}
    (h : reluFragment 64 16 "t0" "t1" = .ok f) : ∀ f' ∈ [f], FromEmitters f' := by
  have hemit : (reluFragment : ℤ → ℤ → String → String → Outcome (MilFragment Unit)) ∈
      unaryEmitters := by simp [unaryEmitters]
  rintro f' hf'
  rw [List.mem_singleton.mp hf']
  exact ⟨_, .unary hemit h, by decide⟩

theorem signature_never_read_relu : ∃ (f : MilFragment Unit) (p : MilProgram),
    reluFragment 64 16 "t0" "t1" = .ok f ∧ buildFused [⟨"t0", ⟨1, 64, 1, 16⟩⟩] [f] = .ok p ∧
    extractInputParams p.text = [] := by
  have hnames : ∀ i ∈ [(⟨"t0", ⟨1, 64, 1, 16⟩⟩ : FusedInput)], Avoids ':' i.varName := by decide
  exact ⟨_, _, rfl, rfl, (signature_never_read hnames (fromEmitters_relu rfl) rfl).2.1⟩

/-- The program declares `t0` and returns `t1`; the parsers find neither. -/
theorem relu_signature_missed : ∃ (f : MilFragment Unit) (p : MilProgram),
    reluFragment 64 16 "t0" "t1" = .ok f ∧ buildFused [⟨"t0", ⟨1, 64, 1, 16⟩⟩] [f] = .ok p ∧
    (assemble [⟨"t0", ⟨1, 64, 1, 16⟩⟩] [f]).params.map (·.varName) = ["t0"] ∧
    (assemble [⟨"t0", ⟨1, 64, 1, 16⟩⟩] [f]).result = "t1" ∧
    extractInputParams p.text = [] ∧ extractOutputVars p.text = [] :=
  ⟨_, _, rfl, rfl, rfl, rfl,
    namesInParens_eq_nil (plain_assemble (by decide) (fromEmitters_relu rfl)).render,
    namesInParens_eq_nil (plain_assemble (by decide) (fromEmitters_relu rfl)).render⟩

end Libane
