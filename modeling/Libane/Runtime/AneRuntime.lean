import Libane.Core.BufferPool
import Libane.Foundation.Text

/-!
# The ANE runtime layer

What `ane_runtime.mm` does around the private framework: `ane_compile` reads the parameter and
output names back out of the MIL text, and `ane_execute_multi` checks the surfaces it is handed,
permutes them by those names and issues a request.

* `extractInputParams`, `extractOutputVars` — the two hand-written parsers.
* `aneCompile` — a program handle for a text that the framework accepts.
* `request` — the surfaces of a request in the order in which the hardware gets them; `none` when
  `ane_execute_multi` refuses.
-/

namespace Libane

/-! ## Names in the MIL text -/

/-- The names in front of a colon, from the first parenthesis after the first `marker` to where
`closing` finds the end. -/
def namesInParens (marker : String) (closing : List Char → Option ℕ) (text : String) :
    List String :=
  match Text.find marker.toList text.toList with
  | none => []
  | some markerPos =>
      let fromMarker := text.toList.drop markerPos
      match Text.find ['('] fromMarker with
      | none => []
      | some parenOpen =>
          let fromParen := fromMarker.drop parenOpen
          match closing fromParen with
          | none => []
          | some close =>
              (Text.namesBeforeColons ((fromParen.drop 1).take (close - 1))).map String.ofList

/-- The position of the parenthesis that closes the first one, `depth` being open already. -/
def closingParen : ℕ → List Char → Option ℕ
  | _, [] => none
  | depth, c :: cs =>
      if c = '(' then (closingParen (depth + 1) cs).map (· + 1)
      else if c = ')' then
        if depth = 1 then some 0 else (closingParen (depth - 1) cs).map (· + 1)
      else (closingParen depth cs).map (· + 1)

/-- `extract_input_params`: the names in front of a colon between `func main…(` and the next
`->`. -/
def extractInputParams (text : String) : List String :=
  namesInParens "func main" (Text.find "->".toList) text

/-- `extract_output_vars`: the names in front of a colon in the parentheses after the first
`->`. -/
def extractOutputVars (text : String) : List String := namesInParens "->" (closingParen 0) text

/-- **No colon, no names.** -/
theorem namesInParens_eq_nil {marker : String} {closing : List Char → Option ℕ} {text : String}
    (h : ':' ∉ text.toList) : namesInParens marker closing text = [] := by
  have hsig : ∀ i j k, ':' ∉ (((text.toList.drop i).drop j).drop 1).take k := fun i j k hmem =>
    h (List.mem_of_mem_drop (List.mem_of_mem_drop (List.mem_of_mem_drop
      (List.mem_of_mem_take hmem))))
  simp only [namesInParens]
  split
  · rfl
  split
  · rfl
  split
  · rfl
  rw [Text.namesBeforeColons_eq_nil (hsig _ _ _), List.map_nil]

/-! ## Program handles -/

/-- `WeightEntry`: a file name and a blob with its header. -/
structure WeightEntry where
  filename : String
  data : List UInt8
  deriving DecidableEq, Repr

/-- The client dimensions of a program loaded through `_ANEClient` (Path B). -/
structure ClientModel where
  inChannels : ℤ
  inSeq : ℤ
  outChannels : ℤ
  outSeq : ℤ
  /-- the fp32 weights of the loaded network, as bit patterns -/
  weights : List UInt32
  deriving DecidableEq, Repr

/-- `AneProgram`.  `client` is `none` for a Path A program. -/
structure AneProgram where
  milText : String := ""
  weights : List WeightEntry := []
  debugName : String := ""
  inputParamNames : List String := []
  outputVarNames : List String := []
  client : Option ClientModel := none
  deriving DecidableEq, Repr

/-- What the private framework decides: whether it is there at all, and which programs it
compiles. -/
structure AneFramework where
  available : Bool
  compiles : String → List WeightEntry → Bool

/-- `ane_compile`. -/
def aneCompile (fw : AneFramework) (milText : String) (weights : List WeightEntry)
    (debugName : String) : Option AneProgram :=
  if fw.available && fw.compiles milText weights then
    some { milText, weights, debugName
           inputParamNames := extractInputParams milText
           outputVarNames := extractOutputVars milText }
  else none

/-! ## Requests -/

/-- `alpha_indices`: the positions of the names in lexicographic order of the names. -/
def alphaIndices (names : List String) : List ℕ :=
  (List.range names.length).insertionSort fun a b => names.getD a "" ≤ names.getD b ""

/-- The reordering of constraints #3 and #13; `none` when the counts disagree. -/
def reorder {β : Type} (names : List String) (surfaces : List β) : Option (List β) :=
  if 1 < surfaces.length ∧ names ≠ [] then
    if names.length ≠ surfaces.length then none
    else some ((alphaIndices names).filterMap fun i => surfaces[i]?)
  else some surfaces

/-- The allocation size of the surface behind a buffer. -/
def allocSize {α : Type} (m : Memory α) (h : ℕ) : ℕ :=
  (m.heap[h]?.map AneBuffer.surfaceBytes).getD 0

/-- Constraints #2 and #18: all surfaces have the allocation size of the first. -/
def uniformAlloc {α : Type} (m : Memory α) : List ℕ → Bool
  | [] => true
  | s :: rest => rest.all fun t => allocSize m t = allocSize m s

/-- The checks of `ane_execute_multi`, and the surfaces of the request it then issues. -/
def request {α : Type} (m : Memory α) (program : AneProgram) (inputs outputs : List ℕ) :
    Option (List ℕ × List ℕ) :=
  if inputs = [] ∨ outputs = [] then none
  else if uniformAlloc m inputs = false then none
  else if uniformAlloc m outputs = false then none
  else do
    let ins ← reorder program.inputParamNames inputs
    let outs ← reorder program.outputVarNames outputs
    return (ins, outs)

/-- Without parameter names the inputs go out in the order in which they came. -/
lemma reorder_nil {β : Type} (surfaces : List β) : reorder [] surfaces = some surfaces := by
  simp [reorder]

/-- A single surface stays where it is. -/
lemma reorder_singleton {β : Type} (names : List String) (s : β) :
    reorder names [s] = some [s] := by
  simp [reorder]

/-- Reordering looks at positions only. -/
lemma reorder_map {β γ : Type} (names : List String) (f : β → γ) (surfaces : List β) :
    reorder names (surfaces.map f) = (reorder names surfaces).map (List.map f) := by
  simp only [reorder, List.length_map, apply_ite (Option.map (List.map f)), Option.map_none,
    Option.map_some, List.map_filterMap, List.getElem?_map]

/-- Reordering hands out nothing that it was not given. -/
lemma mem_of_reorder {β : Type} {names : List String} {surfaces out : List β}
    (h : reorder names surfaces = some out) {s : β} (hs : s ∈ out) : s ∈ surfaces := by
  unfold reorder at h
  split_ifs at h with hmany
  · obtain rfl := Option.some.inj h
    obtain ⟨i, -, hi⟩ := List.mem_filterMap.mp hs
    exact List.mem_of_getElem? hi
  · obtain rfl := Option.some.inj h
    exact hs

/-- What an issued request consists of when there is one output. -/
lemma request_eq_some {α : Type} {m : Memory α} {program : AneProgram} {inputs : List ℕ} {o : ℕ}
    {r : List ℕ × List ℕ} (h : request m program inputs [o] = some r) :
    inputs ≠ [] ∧ reorder program.inputParamNames inputs = some r.1 ∧ r.2 = [o] := by
  unfold request at h
  by_cases hnil : inputs = []
  · rw [if_pos (Or.inl hnil)] at h
    cases h
  rw [if_neg (by simpa using hnil)] at h
  split_ifs at h
  obtain ⟨ins, hins, h⟩ := Option.bind_eq_some_iff.mp h
  rw [reorder_singleton] at h
  obtain rfl : (ins, [o]) = r := by simpa using h
  exact ⟨hnil, hins, rfl⟩

end Libane
