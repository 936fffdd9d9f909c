import Libane.Core.Emitted
import Libane.Foundation.RowMajor

/-!
# What MIL statements compute

Tensors, and the operations that the fragments of `PIXEL_SHUFFLE` and `PWL_ACTIVATION` are made
of.  Numbers are exact: an `fp16(…)` literal denotes the number it was printed from.  A statement
whose operands do not fit its operation, or whose value does not have the declared type, has no
meaning.

* `MilTensor` — dimensions and elements; `reshape` keeps row-major positions, `transpose` permutes
  dimensions.
* `opMeaning`, `MilStmt.sem` — operations and statements.
* `MilFragment.eval` — the result of a fragment with one operand.
* `Emitted.eval_eq` — it is found by solving the statements as equations.
-/

namespace Libane

open RowMajor

/-! ## Values -/

/-- A tensor.  Its elements are those at indices in bounds. -/
structure MilTensor (K : Type) where
  dims : List ℕ
  elem : List ℕ → K

namespace MilTensor

variable {K L : Type}

/-- An elementwise function. -/
def map (f : K → L) (x : MilTensor K) : MilTensor L := ⟨x.dims, fun idx => f (x.elem idx)⟩

/-- Other dimensions for the same elements in the same row-major order. -/
def reshape (dims : List ℕ) (x : MilTensor K) : MilTensor K :=
  ⟨dims, fun idx => x.elem (unravel x.dims (ravel dims idx))⟩

/-- Dimension `d` of the result is dimension `perm[d]` of the operand. -/
def transpose (perm : List ℕ) (x : MilTensor K) : MilTensor K where
  dims := perm.map fun d => x.dims.getD d 0
  elem idx := x.elem ((List.range perm.length).map fun e => idx.getD (perm.idxOf e) 0)

/-- What a reshaped tensor holds at an index of the same position. -/
lemma reshape_elem {dims idx idx' : List ℕ} {x : MilTensor K}
    (hpos : ravel dims idx = ravel x.dims idx') (hidx : InBounds x.dims idx') :
    (x.reshape dims).elem idx = x.elem idx' := by
  show x.elem (unravel x.dims (ravel dims idx)) = x.elem idx'
  rw [hpos, unravel_ravel hidx]

/-- The elements of `a` where the condition holds, those of `b` elsewhere. -/
def select (cond : MilTensor Bool) (a b : MilTensor K) : MilTensor K :=
  ⟨cond.dims, fun idx => if cond.elem idx then a.elem idx else b.elem idx⟩

end MilTensor

/-- The value of a name. -/
inductive MilVal (K : Type) where
  | Ints (values : List ℤ)
  | Number (x : K)
  | Floats (x : MilTensor K)
  | Bools (x : MilTensor Bool)

/-- The value is of the declared type. -/
def MilVal.hasType {K : Type} : MilVal K → MilType → Bool
  | Ints values, .Tensor "int32" _ dims => dims = [(values.length : ℤ)]
  | Number _, .Scalar "fp16" => true
  | Floats x, .Tensor "fp16" _ dims => dims = x.dims.map Int.ofNat
  | Bools x, .Tensor "bool" _ dims => dims = x.dims.map Int.ofNat
  | _, _ => false

/-! ## Statements -/

section Statements

variable {K : Type}

/-- The value of a constant. -/
def MilValue.meaning : MilValue K → Option (MilVal K)
  | Fp16 (.Literal v) => some (.Number v)
  | Fp16 (.General _ v) => some (.Number v)
  | Int32Tensor values => some (.Ints values)
  | _ => none

variable [Add K] [Mul K] [LT K] [DecidableLT K]

/-- The value of an operation, given the names and the values of its operands. -/
def opMeaning : String → List String → List (MilVal K) → Option (MilVal K)
  | "reshape", ["shape", "x"], [.Ints shape, .Floats x] =>
      if shape.prod = (x.dims.prod : ℤ) then some (.Floats (x.reshape (shape.map Int.toNat)))
      else none
  | "transpose", ["perm", "x"], [.Ints perm, .Floats x] =>
      some (.Floats (x.transpose (perm.map Int.toNat)))
  | "mul", ["x", "y"], [.Floats x, .Number y] => some (.Floats (x.map (· * y)))
  | "add", ["x", "y"], [.Floats x, .Number y] => some (.Floats (x.map (· + y)))
  | "less", ["x", "y"], [.Floats x, .Number y] => some (.Bools (x.map fun v => decide (v < y)))
  | "select", ["cond", "a", "b"], [.Bools cond, .Floats a, .Floats b] =>
      if a.dims = cond.dims ∧ b.dims = cond.dims then some (.Floats (MilTensor.select cond a b))
      else none
  | "identity", ["x"], [.Floats x] => some (.Floats x)
  | _, _, _ => none

/-- The value that a statement defines, given the values of its operands. -/
def MilStmt.sem (s : MilStmt K) (vs : List (Option (MilVal K))) : Option (MilVal K) :=
  let value : Option (MilVal K) := match s.rhs with
    | .Const value => value.meaning
    | .Op name args => (vs.mapM id).bind (opMeaning name (args.map (·.1)))
  value.filter (·.hasType s.type)

lemma const_sem {type : MilType} {var : String} {value : MilValue K} {pad : ℕ}
    {vs : List (Option (MilVal K))} :
    (MilBuilder.const type var value pad).sem vs = value.meaning.filter (·.hasType type) := rfl

lemma op_sem {type : MilType} {var name label : String} {args : List (String × MilArg)} {pad : ℕ}
    {vs : List (Option (MilVal K))} : (MilBuilder.op type var name args label pad).sem vs =
      ((vs.mapM id).bind (opMeaning name (args.map (·.1)))).filter (·.hasType type) := rfl

/-- The result of a fragment with one operand. -/
def MilFragment.eval (f : MilFragment K) (inVar : String) (x : MilVal K) : Option (MilVal K) :=
  let env : StraightLine.Env String (Option (MilVal K)) :=
    fun a => if a = inVar then some (some x) else none
  ((StraightLine.run MilStmt.var MilStmt.operands MilStmt.sem env f.body).bind
    (· f.outputName)).join

/-- **A fragment is a system of equations.**  Its result is what the equations of its statements
give to the result name, the operand being given. -/
theorem Emitted.eval_eq {refs : List (MilType × String)} {i o : String} {f : MilFragment K}
    (h : Emitted [i] refs o f) (hi : i ∉ f.body.map (·.var)) (x : MilVal K) :
    ∃ val : String → Option (MilVal K), val i = some x ∧
      (∀ s ∈ f.body, val s.var = s.sem (s.operands.map val)) ∧ f.eval i x = val o := by
  let env : StraightLine.Env String (Option (MilVal K)) :=
    fun a => if a = i then some (some x) else none
  have hgiven : ∀ a ∈ {a | a ∈ [i]}, (env a).isSome := by
    rintro a ha
    rw [List.mem_singleton.mp ha]
    simp [env]
  obtain ⟨env', hrun⟩ : ∃ env', StraightLine.run MilStmt.var MilStmt.operands MilStmt.sem env
      f.body = some env' := h.wellScoped.run_total hgiven
  have hfree : ∀ a ∈ {a | a ∈ [i]}, a ∉ f.body.map (·.var) := by
    rintro a ha
    rwa [List.mem_singleton.mp ha]
  refine ⟨fun a => (env' a).join, ?_, fun s hs => ?_, ?_⟩
  · show (env' i).join = some x
    rw [StraightLine.run_frame hrun hi]
    simp [env]
  · obtain ⟨vs, hvs, hval⟩ := h.wellScoped.run_solves h.vars_nodup hfree hrun hs
    have hread : s.operands.map (fun a => (env' a).join) = vs := by
      rw [← Function.comp_def, ← List.map_map, StraightLine.readAll_eq_some_iff.mp hvs,
        List.map_map]
      simp [Function.comp_def]
    show (env' s.var).join = _
    rw [hval, hread, Option.join_some]
  · show ((StraightLine.run MilStmt.var MilStmt.operands MilStmt.sem env f.body).bind
      (· f.outputName)).join = (env' o).join
    rw [hrun, h.outputName_eq]
    rfl

end Statements

end Libane
