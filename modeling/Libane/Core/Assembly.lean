import Libane.Core.Fragments
import Libane.Foundation.StraightLine

/-!
# Program assembly

`MilBuilder::build_fused` joins the fragments of a group into one function: parameters sorted by
name, the statements of the fragments one after the other, and the result of the last fragment.

* `MilFunction` — the function as a list of statements, `MilFunction.render` its text.
* `assemble`, `buildFused` — the two halves of the source function, the function and the record
  around it.
* `MilFunction.SingleAssignment` — names are defined once, and before they are read.
* `MilFunction.Plain.render` — a function whose pieces contain no colon is a text without colons.
-/

namespace Libane

/-- `func main<ios18>(params) { body } -> (result);` -/
structure MilFunction (F : Type) where
  params : List FusedInput
  body : List (MilStmt F)
  result : String

namespace MilBuilder

variable {F : Type}

/-- `MilBuilder::header`. -/
def header : String :=
  "program(1.3)\n" ++
  "[buildInfo = dict<string, string>(\x7b" ++
  "\x7b\"coremlc-component-MIL\", \"3510.2.1\"\x7d, " ++
  "\x7b\"coremlc-version\", \"3505.4.1\"\x7d, " ++
  "\x7b\"coremltools-component-milinternal\", \"\"\x7d, " ++
  "\x7b\"coremltools-version\", \"9.0\"\x7d" ++
  "\x7d)]\n" ++
  "\x7b\n"

/-- The text of one parameter. -/
def param (i : FusedInput) : String := (tensorType i.shape).render ++ " " ++ i.varName

/-- `std::sort` by name, which leaves open only the order of equal names. -/
def sortInputs (inputs : List FusedInput) : List FusedInput :=
  inputs.insertionSort fun a b => a.varName ≤ b.varName

/-- The function that `build_fused` writes. -/
def assemble (inputs : List FusedInput) (fragments : List (MilFragment F)) : MilFunction F where
  params := sortInputs inputs
  body := fragments.flatMap (·.body)
  result := (fragments.getLast?.map (·.outputName)).getD ""

/-- The weight files of the fragments, in order, without repetition. -/
def weightNames : List String → List (MilFragment F) → List String
  | names, [] => names
  | names, f :: rest =>
      weightNames (if f.weightFile = "" ∨ f.weightFile ∈ names then names
        else names ++ [f.weightFile]) rest

end MilBuilder

namespace MilFunction

variable {F : Type}

/-- All names that the function defines. -/
def names (f : MilFunction F) : List String := f.params.map (·.varName) ++ f.body.map (·.var)

/-- The text of the function in its program. -/
def render [MilFloat F] (f : MilFunction F) : String :=
  MilBuilder.header ++ "    func main<ios18>(" ++
    ", ".intercalate (f.params.map MilBuilder.param) ++ ") \x7b\n" ++
    String.join (f.body.map (·.render)) ++
    "    \x7d -> (" ++ f.result ++ ");\n" ++ "\x7d\n"

/-- Every name is defined once, nothing is read before it is defined, and the result is
defined. -/
structure SingleAssignment (f : MilFunction F) : Prop where
  names_nodup : f.names.Nodup
  wellScoped : StraightLine.WellScoped MilStmt.var MilStmt.operands
    {a | a ∈ f.params.map (·.varName)} f.body
  result_mem : f.result ∈ f.names

end MilFunction

namespace MilBuilder

variable {F : Type} [MilFloat F]

/-- `MilBuilder::build_fused`. -/
def buildFused (inputs : List FusedInput) (fragments : List (MilFragment F)) :
    Outcome MilProgram :=
  if inputs.isEmpty then
    .error (.InvalidArgument "build_fused: inputs must not be empty")
  else if fragments.isEmpty then
    .error (.InvalidArgument "build_fused: fragments must not be empty")
  else
    let names := weightNames [] fragments
    .ok {
      text := (assemble inputs fragments).render
      weightName := names.headD ""
      allWeightNames := names
      inputShape := ((sortInputs inputs).head?.map (·.shape)).getD {}
      outputShape := (fragments.getLast?.map (·.outputShape)).getD {} }

end MilBuilder

/-! ## Assembled functions -/

section Assembled

open MilBuilder

variable {F : Type} {inputs : List FusedInput} {fragments : List (MilFragment F)}

/-- Sorting keeps the parameters. -/
lemma mem_sortInputs {i : FusedInput} : i ∈ sortInputs inputs ↔ i ∈ inputs :=
  List.mem_insertionSort _

lemma perm_sortInputs : (sortInputs inputs).Perm inputs := List.perm_insertionSort _ _

/-- The parameters stand in the order of their names. -/
lemma sortedNames_sortInputs : ((sortInputs inputs).map (·.varName)).Pairwise (· ≤ ·) := by
  have htotal : Std.Total fun a b : FusedInput => a.varName ≤ b.varName :=
    ⟨fun a b => le_total a.varName b.varName⟩
  have htrans : IsTrans FusedInput fun a b => a.varName ≤ b.varName :=
    ⟨fun _ _ _ => le_trans⟩
  exact List.pairwise_map.mpr (List.pairwise_insertionSort _ inputs)

/-- `build_fused` writes the assembled function, given an input and a fragment. -/
lemma buildFused_eq [MilFloat F] (hi : inputs ≠ []) (hf : fragments ≠ []) :
    ∃ p, buildFused inputs fragments = .ok p ∧ p.text = (assemble inputs fragments).render := by
  rw [buildFused, if_neg (by simpa using hi), if_neg (by simpa using hf)]
  exact ⟨_, rfl, rfl⟩

end Assembled

/-! ## Texts without colons -/

section Plain

open Names MilBuilder

variable {F : Type}

/-- No piece of the function contains a colon. -/
structure MilFunction.Plain (f : MilFunction F) : Prop where
  params : ∀ i ∈ f.params, Avoids ':' i.varName
  body : ∀ s ∈ f.body, s.Plain
  result : Avoids ':' f.result

lemma avoids_join {c : Char} : ∀ {l : List String}, (∀ s ∈ l, Avoids c s) → Avoids c (String.join l)
  | [], _ => by simp [Avoids]
  | s :: l, h => by
      rw [String.join_cons, avoids_append]
      exact ⟨h s List.mem_cons_self, avoids_join fun t ht => h t (List.mem_cons_of_mem s ht)⟩

lemma avoids_header : Avoids ':' header := by
  unfold header
  simp only [avoids_append]
  refine ⟨⟨⟨⟨⟨⟨⟨?_, ?_⟩, ?_⟩, ?_⟩, ?_⟩, ?_⟩, ?_⟩, ?_⟩ <;> simp [Avoids]

/-- **A function without colons.** -/
theorem MilFunction.Plain.render [MilFloat F] {f : MilFunction F} (h : f.Plain) :
    Avoids ':' f.render := by
  have hparams : Avoids ':' (", ".intercalate (f.params.map param)) := by
    refine avoids_intercalate (by decide) fun s hs => ?_
    obtain ⟨i, hi, rfl⟩ := List.mem_map.mp hs
    have htype : (tensorType i.shape).Plain := ⟨by decide, by decide⟩
    unfold param
    simp +decide only [avoids_append, htype.render, h.params i hi, and_true]
  have hbody : Avoids ':' (String.join (f.body.map (·.render))) := by
    refine avoids_join fun s hs => ?_
    obtain ⟨stmt, hstmt, rfl⟩ := List.mem_map.mp hs
    exact (h.body stmt hstmt).render
  unfold MilFunction.render
  simp only [avoids_append, avoids_header, hparams, hbody, h.result, and_true, true_and]
  simp [Avoids]

end Plain

end Libane
