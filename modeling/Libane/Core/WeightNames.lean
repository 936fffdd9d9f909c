import Libane.Core.Emitted
import Libane.Foundation.FirstOccurrences

/-!
# The weight names of a program

`build_fused` collects the `weight_file` of every fragment, while the text refers to the files
that the statements of the fragments name.  A `LAYERNORM` fragment names two files and announces
one of them.

* `weightReferences` — the files a list of statements refers to, in order.
* `references` — the files of a fragment, the announced one marked.
* `weight_names_complete_iff` — the collected names are the referenced ones, in order, exactly
  when no file name is empty and every file that is not announced with its first reference is the
  next new one to be announced.
-/

namespace Libane

open MilBuilder

variable {F : Type}

/-- The names of the weight files that statements refer to, in order. -/
def weightReferences (body : List (MilStmt F)) : List String :=
  (body.flatMap (·.files)).map (·.2)

/-- The weight files of a fragment, the first one, which its `weight_file` announces, marked. -/
def references (f : MilFragment F) : List (Bool × String) :=
  match weightReferences f.body with
  | [] => []
  | file :: more => (true, file) :: more.map (false, ·)

lemma map_references (f : MilFragment F) :
    (references f).map (·.2) = weightReferences f.body := by
  unfold references
  split
  · rename_i h
    rw [h, List.map_nil]
  · rename_i file more h
    rw [h, List.map_cons, List.map_map]
    simp [Function.comp_def]

lemma leaders_references (f : MilFragment F) :
    leaders (references f) = (weightReferences f.body).take 1 := by
  unfold references leaders
  split
  · rename_i h
    rw [h]
    rfl
  · rename_i file more h
    rw [h]
    simp

/-- The loop of `build_fused` over the fragments collects the names that are not empty. -/
lemma weightNames_eq {names : List String} {fragments : List (MilFragment F)} :
    weightNames names fragments =
      collect names ((fragments.map (·.weightFile)).filter (· ≠ "")) := by
  induction fragments generalizing names with
  | nil => rfl
  | cons f rest ih =>
      rw [weightNames, ih, List.map_cons]
      by_cases hempty : f.weightFile = ""
      · simp [hempty]
      · simp [hempty, collectOne]

section Produced

variable [MilFloat F] {inputs : List FusedInput} {fragments : List (MilFragment F)}

lemma Produced.weightFile_eq {f : MilFragment F} (h : Produced f) :
    f.weightFile = (weightReferences f.body).headD "" := by
  obtain ⟨names, hproduced⟩ := h
  obtain ⟨ins, refs, out, hemit, -⟩ := hproduced.emitted
  rw [hemit.weightFile_eq, weightReferences, hemit.refs_eq]

/-- When no referenced name is empty, the announced files are the marked ones. -/
lemma announced_eq_leaders (hprod : ∀ f ∈ fragments, Produced f)
    (hnames : "" ∉ weightReferences (assemble inputs fragments).body) :
    (fragments.map (·.weightFile)).filter (· ≠ "") = leaders (fragments.flatMap references) := by
  induction fragments with
  | nil => rfl
  | cons f rest ih =>
      simp only [assemble, weightReferences, List.flatMap_cons, List.flatMap_append,
        List.map_append, List.mem_append, not_or] at hnames ih
      have hrest := ih (fun g hg => hprod g (List.mem_cons_of_mem f hg)) hnames.2
      have hsplit : leaders ((f :: rest).flatMap references) =
          leaders (references f) ++ leaders (rest.flatMap references) := by
        simp [leaders]
      rw [hsplit, ← hrest, leaders_references, List.map_cons, List.filter_cons,
        (hprod f List.mem_cons_self).weightFile_eq]
      have hhead := hnames.1
      change "" ∉ weightReferences f.body at hhead
      cases hfiles : weightReferences f.body with
      | nil => simp
      | cons file more =>
          rw [hfiles, List.mem_cons, not_or] at hhead
          simp [Ne.symm hhead.1]

/-- **When the weight names are complete.**  For fragments of the emitters, `all_weight_names`
holds every file name that the program refers to, once and in the order of first reference, if
and only if no such name is empty and every file that a fragment refers to but does not announce
is known by then or the next new one that a later fragment announces. -/
theorem weight_names_complete_iff {p : MilProgram} (hprod : ∀ f ∈ fragments, Produced f)
    (h : buildFused inputs fragments = .ok p) :
    FirstOccurrences p.allWeightNames (weightReferences (assemble inputs fragments).body) ↔
      "" ∉ weightReferences (assemble inputs fragments).body ∧
        Announced [] (fragments.flatMap references) := by
  have hcollected : p.allWeightNames = weightNames [] fragments := by
    unfold buildFused at h
    split_ifs at h
    rw [← Except.ok.inj h]
  have hrefs : weightReferences (assemble inputs fragments).body =
      (fragments.flatMap references).map (·.2) := by
    simp only [assemble, List.map_flatMap, map_references]
    simp [weightReferences, List.flatMap_assoc, List.map_flatMap]
  rw [hcollected, weightNames_eq]
  by_cases hempty : "" ∈ weightReferences (assemble inputs fragments).body
  · refine iff_of_false (fun hfirst => ?_) fun hcond => hcond.1 hempty
    have hmem := (hfirst.mem_iff "").mpr hempty
    simp [mem_collect] at hmem
  · rw [announced_eq_leaders hprod hempty, firstOccurrences_iff, hrefs, collect_leaders_iff]
    simp [← hrefs, hempty]

end Produced

/-- The parameter of the sample programs. -/
def sampleInputs : List FusedInput := [⟨"t0", ⟨1, 64, 1, 16⟩⟩]

/-- The fragment of a `MATMUL`. -/
lemma produced_matmul {i o : String} {f : MilFragment Unit}
    (h : matmulFragment 64 64 16 i o "w0.bin" = .ok f) : Produced f := ⟨_, .matmul h⟩

/-- Two products by one matrix. -/
theorem weight_names_complete_iff_shared : ∃ (f g : MilFragment Unit) (p : MilProgram),
    matmulFragment 64 64 16 "t0" "t1" "w0.bin" = .ok f ∧
    matmulFragment 64 64 16 "t1" "t2" "w0.bin" = .ok g ∧
    buildFused sampleInputs [f, g] = .ok p ∧
    FirstOccurrences p.allWeightNames
      (weightReferences (assemble sampleInputs [f, g]).body) := by
  refine ⟨_, _, _, rfl, rfl, rfl, (weight_names_complete_iff ?_ rfl).mpr ⟨by decide, trivial⟩⟩
  simp only [List.forall_mem_cons]
  exact ⟨produced_matmul rfl, produced_matmul rfl, by simp⟩

/-- The list of a `LAYERNORM` lacks its second file. -/
theorem layernorm_beta_missing : ∃ (f : MilFragment Unit) (p : MilProgram),
    layernormFragment 64 16 "t0" "t1" "gamma.bin" "beta.bin" = .ok f ∧
    buildFused sampleInputs [f] = .ok p ∧
    weightReferences (assemble sampleInputs [f]).body = ["gamma.bin", "beta.bin"] ∧
    p.allWeightNames = ["gamma.bin"] ∧
    ¬ FirstOccurrences p.allWeightNames
      (weightReferences (assemble sampleInputs [f]).body) := by
  refine ⟨_, _, rfl, rfl, rfl, rfl, fun h => ?_⟩
  have hmem : "beta.bin" ∈ ["gamma.bin"] := (h.mem_iff "beta.bin").mpr (by decide)
  exact absurd hmem (by decide)

end Libane
