import Libane.Core.SingleOps

/-!
# Whole programs against fragments

Every function of `MilBuilder` that writes a program for one operation has a sibling that writes
the fragment for it.

* `SingleKind` — the operations, each with its program and its fragment.
* `Agree` — refused with the same message, or the same function of the operands.
* `single_op_agrees` — they agree for all shapes and names, whatever the operations of MIL are.
-/

namespace Libane

open MilBuilder MilWiring Names StraightLine

/-- The operations that have a whole program of their own. -/
inductive SingleKind where
  | Matmul | Rmsnorm | Layernorm | Scatter | GatherStatic | AvgPool | MaxPool | Sqrt | Log | Rsqrt
  | Add | Mul | Sub | RealDiv | GatherDynamic | Gelu | Silu | Softmax | Neg | Mod | Sinh | Cosh
  | Tan | Asin | Acos | LogicalAnd | LogicalOr | LogicalXor | Select | ReduceProd | Transpose
  deriving DecidableEq, Repr

namespace SingleKind

variable {F : Type} [MilFloat F]

/-- The whole program.  Only `MATMUL` looks at `OC`. -/
def program (C OC SP : ℤ) (w b : String) : SingleKind → Outcome (SingleProgram F)
  | Matmul => SingleOp.matmulConv1x1 C OC SP w
  | Rmsnorm => SingleOp.rmsnorm C SP w
  | Layernorm => SingleOp.layernorm C SP w b
  | Scatter => SingleOp.scatterStaticMask C SP w
  | GatherStatic => SingleOp.gatherStaticMask C SP w
  | AvgPool => SingleOp.avgPool C SP
  | MaxPool => SingleOp.maxPool C SP
  | Sqrt => SingleOp.sqrt C SP
  | Log => SingleOp.log C SP
  | Rsqrt => SingleOp.rsqrt C SP
  | Add => SingleOp.add C SP
  | Mul => SingleOp.mul C SP
  | Sub => SingleOp.sub C SP
  | RealDiv => SingleOp.realDiv C SP
  | GatherDynamic => SingleOp.gatherDynamicMask C SP
  | Gelu => SingleOp.gelu C SP
  | Silu => SingleOp.silu C SP
  | Softmax => SingleOp.softmax C SP
  | Neg => SingleOp.neg C SP
  | Mod => SingleOp.mod C SP
  | Sinh => SingleOp.sinh C SP
  | Cosh => SingleOp.cosh C SP
  | Tan => SingleOp.tan C SP
  | Asin => SingleOp.asin C SP
  | Acos => SingleOp.acos C SP
  | LogicalAnd => SingleOp.logicalAnd C SP
  | LogicalOr => SingleOp.logicalOr C SP
  | LogicalXor => SingleOp.logicalXor C SP
  | Select => SingleOp.select C SP
  | ReduceProd => SingleOp.reduceProd C SP
  | Transpose => SingleOp.transposeCssc C SP

/-- The fragment with operands `i`, `s` and `t`, as far as the operation has so many, and result
`o`. -/
def fragment (C OC SP : ℤ) (i s t o w b : String) : SingleKind → Outcome (MilFragment F)
  | Matmul => matmulFragment C OC SP i o w
  | Rmsnorm => rmsnormFragment C SP i o w
  | Layernorm => layernormFragment C SP i o w b
  | Scatter => scatterStaticMaskFragment C SP i s o w
  | GatherStatic => gatherStaticMaskFragment C SP i o w
  | AvgPool => avgPoolFragment C SP i o
  | MaxPool => maxPoolFragment C SP i o
  | Sqrt => sqrtFragment C SP i o
  | Log => logFragment C SP i o
  | Rsqrt => rsqrtFragment C SP i o
  | Add => addFragment C SP i s o
  | Mul => mulFragment C SP i s o
  | Sub => subFragment C SP i s o
  | RealDiv => realDivFragment C SP i s o
  | GatherDynamic => gatherDynamicMaskFragment C SP i s o
  | Gelu => geluFragment C SP i o
  | Silu => siluFragment C SP i o
  | Softmax => softmaxFragment C SP i o
  | Neg => negFragment C SP i o
  | Mod => modFragment C SP i s o
  | Sinh => sinhFragment C SP i o
  | Cosh => coshFragment C SP i o
  | Tan => tanFragment C SP i o
  | Asin => asinFragment C SP i o
  | Acos => acosFragment C SP i o
  | LogicalAnd => logicalAndFragment C SP i s o
  | LogicalOr => logicalOrFragment C SP i s o
  | LogicalXor => logicalXorFragment C SP i s o
  | Select => selectFragment C SP i s t o
  | ReduceProd => reduceProdFragment C SP i o
  | Transpose => transposeFragment C SP i o

/-- The operands that the operation has. -/
def operands (i s t : String) : SingleKind → List String
  | Scatter | Add | Mul | Sub | RealDiv | GatherDynamic | Mod | LogicalAnd | LogicalOr
  | LogicalXor => [i, s]
  | Select => [i, s, t]
  | _ => [i]

end SingleKind

/-! ## Agreement -/

section Agreement

variable {F : Type} {files files' : String → Option (List UInt8)} {ins : List String} {o : String}

/-- **Agreement.**  The program and the fragment are refused with the same error, or they have
results of the same shape and compute the same from the same operands, whatever a statement
computes from its type, its operation and the contents of its weight file. -/
def Agree (files files' : String → Option (List UInt8)) (ins : List String) :
    Outcome (SingleProgram F) → Outcome (MilFragment F) → Prop
  | .ok p, .ok f => p.outputShape = f.outputShape ∧
      ∀ (V : Type) (sem : MilCode F → List V → V) (vs : List V) (env env' : Env String V),
        (p.function.params.map (·.varName)).map env = vs.map some → ins.map env' = vs.map some →
        ∃ v, (run MilStmt.var MilStmt.operands (fun s => sem (s.code files)) env
            p.function.body).bind (· p.function.result) = some v ∧
          (run MilStmt.var MilStmt.operands (fun s => sem (s.code files')) env'
            f.body).bind (· f.outputName) = some v
  | .error e, .error e' => e = e'
  | _, _ => False

/-- The checks of a program and of a fragment fail alike. -/
lemma validated_checked {α : Type} (a : α) (f : MilFragment F) : ∀ shapes : List TensorShape,
    (∀ s ∈ shapes, s.Valid) ∨ ∃ e, validated shapes a = .error e ∧ checked shapes f = .error e
  | [] => Or.inl (by simp)
  | s :: rest => by
      rcases s.validate_cases with h | ⟨what, h⟩
      · rcases validated_checked a f rest with hrest | ⟨e, hv, hc⟩
        · refine Or.inl fun t ht => ?_
          rcases List.mem_cons.mp ht with rfl | ht
          · exact TensorShape.validate_eq_ok_iff.mp h
          · exact hrest t ht
        · refine Or.inr ⟨e, ?_, ?_⟩
          · rw [validated, h]
            exact hv
          · rw [checked, h]
            exact hc
      · refine Or.inr ⟨.InvalidArgument what, ?_, ?_⟩
        · rw [validated, h]
          rfl
        · rw [checked, h]
          rfl

/-- Names that are not the result and do not start with it are not assigned by a fragment. -/
lemma Emitted.fresh {refs : List (MilType × String)} {f : MilFragment F} {l : List String}
    (h : Emitted l refs o f) (hins : ∀ a ∈ ins, a ≠ o ∧ ∀ u, a ≠ o ++ "_" ++ u) :
    ∀ a ∈ ins, a ∉ f.body.map (·.var) := by
  intro a ha hmem
  obtain ⟨suffixes, -, hvars⟩ := h.vars
  rw [hvars, List.mem_append, List.mem_map, List.mem_singleton] at hmem
  rcases hmem with ⟨u, -, rfl⟩ | rfl
  · exact (hins _ ha).2 u rfl
  · exact (hins _ ha).1 rfl

/-- The last statement of a fragment assigns its result. -/
lemma Emitted.getLast? {refs : List (MilType × String)} {f : MilFragment F} {l : List String}
    (h : Emitted l refs o f) : (f.body.map (·.var)).getLast? = some f.outputName := by
  obtain ⟨suffixes, -, hvars⟩ := h.vars
  rw [hvars, h.outputName_eq]
  simp

/-- A program and a fragment with one wiring agree. -/
lemma agree_of_wired (ws : List (Wire (MilCode F))) {shapes : List TensorShape}
    {p : SingleProgram F} {f : MilFragment F} {l : List String} {refs : List (MilType × String)}
    (hins : ∀ a ∈ ins, a ≠ o ∧ ∀ u, a ≠ o ++ "_" ++ u)
    (hshape : p.outputShape = f.outputShape)
    (hp : Wired files (p.function.params.map (·.varName)) ws p.function.body)
    (hnames : p.function.names.Nodup)
    (hresult : (p.function.body.map (·.var)).getLast? = some p.function.result)
    (hf : ∀ f', checked shapes f = .ok f' → Wired files' ins ws f'.body ∧ Emitted l refs o f') :
    Agree files files' ins (validated shapes p) (checked shapes f) := by
  rcases validated_checked p f shapes with hvalid | ⟨e, hv, hc⟩
  · rw [validated_eq_ok_iff.mpr ⟨hvalid, rfl⟩, checked_eq_ok_iff.mpr ⟨hvalid, rfl⟩]
    obtain ⟨hwired, hemitted⟩ := hf f (checked_eq_ok_iff.mpr ⟨hvalid, rfl⟩)
    refine ⟨hshape, fun V sem vs env env' henv henv' => ?_⟩
    obtain ⟨hparams, hbody, hdisjoint⟩ := List.nodup_append.mp hnames
    obtain ⟨v, hv, hrun⟩ := run_wired_last sem hp hbody
      (fun a ha hb => hdisjoint a ha a hb rfl) henv hresult
    obtain ⟨v', hv', hrun'⟩ := run_wired_last sem hwired hemitted.vars_nodup
      (hemitted.fresh hins) henv' hemitted.getLast?
    obtain rfl : v = v' := Option.some.inj (hv.symm.trans hv')
    exact ⟨v, hrun, hrun'⟩
  · rw [hv, hc]
    rfl

/-! ## The operations -/

section Kinds

variable [MilFloat F] {i s t w b w' b' : String} {C OC SP : ℤ}

lemma matmul_agree (hw : files w = files' w')
    (hins : ∀ a ∈ [i], a ≠ o ∧ ∀ u, a ≠ o ++ "_" ++ u) :
    Agree files files' [i] (SingleOp.matmulConv1x1 C OC SP w : Outcome (SingleProgram F))
      (matmulFragment C OC SP i o w') :=
  agree_of_wired (matmulWires C OC SP (files w)) hins rfl (wiredAs_of_positions rfl rfl rfl rfl)
    (by simp [MilFunction.names]) rfl fun _ h =>
      ⟨by rw [hw]; exact matmul_wired h, matmulFragment_emitted h⟩

lemma rmsnorm_agree (hw : files w = files' w')
    (hins : ∀ a ∈ [i], a ≠ o ∧ ∀ u, a ≠ o ++ "_" ++ u) :
    Agree files files' [i] (SingleOp.rmsnorm C SP w : Outcome (SingleProgram F))
      (rmsnormFragment C SP i o w') :=
  agree_of_wired (rmsnormWires C SP (files w)) hins rfl (wiredAs_of_positions rfl rfl rfl rfl)
    (by simp [MilFunction.names]) rfl fun _ h =>
      ⟨by rw [hw]; exact rmsnorm_wired h, rmsnormFragment_emitted h⟩

lemma layernorm_agree (hw : files w = files' w') (hb : files b = files' b')
    (hins : ∀ a ∈ [i], a ≠ o ∧ ∀ u, a ≠ o ++ "_" ++ u) :
    Agree files files' [i] (SingleOp.layernorm C SP w b : Outcome (SingleProgram F))
      (layernormFragment C SP i o w' b') :=
  agree_of_wired (layernormWires C SP (files w) (files b)) hins rfl
    (wiredAs_of_positions rfl rfl rfl rfl)
    (by simp [MilFunction.names]) rfl fun _ h =>
      ⟨by rw [hw, hb]; exact layernorm_wired h, layernormFragment_emitted h⟩

lemma scatter_agree (hw : files w = files' w')
    (hins : ∀ a ∈ [i, s], a ≠ o ∧ ∀ u, a ≠ o ++ "_" ++ u) :
    Agree files files' [i, s] (SingleOp.scatterStaticMask C SP w : Outcome (SingleProgram F))
      (scatterStaticMaskFragment C SP i s o w') :=
  agree_of_wired (scatterStaticMaskWires C SP (files w)) hins rfl
    (wiredAs_of_positions rfl rfl rfl rfl)
    (by simp [MilFunction.names]) rfl fun _ h =>
      ⟨by rw [hw]; exact scatterStaticMask_wired h, scatterStaticMaskFragment_emitted h⟩

lemma gatherStatic_agree (hw : files w = files' w')
    (hins : ∀ a ∈ [i], a ≠ o ∧ ∀ u, a ≠ o ++ "_" ++ u) :
    Agree files files' [i] (SingleOp.gatherStaticMask C SP w : Outcome (SingleProgram F))
      (gatherStaticMaskFragment C SP i o w') :=
  agree_of_wired (gatherStaticMaskWires C SP (files w)) hins rfl
    (wiredAs_of_positions rfl rfl rfl rfl)
    (by simp [MilFunction.names]) rfl fun _ h =>
      ⟨by rw [hw]; exact gatherStaticMask_wired h, gatherStaticMaskFragment_emitted h⟩

lemma unary_agree {name label label' result : String} (hname : Avoids ':' name)
    (hlabel : Avoids ':' label')
    (hres : "x" ≠ result) (hins : ∀ a ∈ [i], a ≠ o ∧ ∀ u, a ≠ o ++ "_" ++ u) :
    Agree files files' [i] (SingleOp.unary name label result C SP : Outcome (SingleProgram F))
      (unaryFragment name label' C SP i o) :=
  agree_of_wired (unaryWires C SP name) hins rfl (wiredAs_of_positions rfl rfl rfl rfl)
    (by simp [MilFunction.names, hres]) rfl fun _ h =>
      ⟨unary_wired h, unaryFragment_emitted hname hlabel h⟩

lemma epsilon_agree {name label label' result : String} (hname : Avoids ':' name)
    (hlabel : Avoids ':' label')
    (hres : "x" ≠ result) (hy : result ≠ "y") (hins : ∀ a ∈ [i], a ≠ o ∧ ∀ u, a ≠ o ++ "_" ++ u) :
    Agree files files' [i] (SingleOp.epsilon name label result C SP : Outcome (SingleProgram F))
      (epsilonFragment name label' C SP i o) :=
  agree_of_wired (epsilonWires C SP name) hins rfl (wiredAs_of_positions rfl rfl rfl rfl)
    (by simp [MilFunction.names, hres, hy]) rfl fun _ h =>
      ⟨epsilon_wired h, epsilonFragment_emitted hname hlabel h⟩

lemma binary_agree {side : String} {name label label' result : String} (hname : Avoids ':' name)
    (hlabel : Avoids ':' label')
    (hx : "x" ≠ side) (hres : "x" ≠ result)
    (hside : side ≠ result) (hins : ∀ a ∈ [i, s], a ≠ o ∧ ∀ u, a ≠ o ++ "_" ++ u) :
    Agree files files' [i, s] (SingleOp.binary name label side result C SP
      : Outcome (SingleProgram F))
      (binaryFragment name label' C SP i s o) :=
  agree_of_wired (binaryWires C SP name) hins rfl (wiredAs_of_positions rfl rfl rfl rfl)
    (by simp [MilFunction.names, hx, hres, hside]) rfl fun _ h =>
      ⟨binary_wired h, binaryFragment_emitted hname hlabel h⟩

omit [MilFloat F] in
lemma add_agree (hins : ∀ a ∈ [i, s], a ≠ o ∧ ∀ u, a ≠ o ++ "_" ++ u) :
    Agree files files' [i, s] (SingleOp.add C SP : Outcome (SingleProgram F))
      (addFragment C SP i s o) :=
  agree_of_wired (binaryWires C SP "add") hins rfl (wiredAs_of_positions rfl rfl rfl rfl)
    (by simp [MilFunction.names]) rfl fun _ h =>
      ⟨binary_wired h, binaryFragment_emitted (by decide) (by decide) h⟩

lemma gelu_agree (hins : ∀ a ∈ [i], a ≠ o ∧ ∀ u, a ≠ o ++ "_" ++ u) :
    Agree files files' [i] (SingleOp.gelu C SP : Outcome (SingleProgram F))
      (geluFragment C SP i o) :=
  agree_of_wired (geluWires C SP) hins rfl (wiredAs_of_positions rfl rfl rfl rfl)
    (by simp [MilFunction.names]) rfl fun _ h => ⟨gelu_wired h, geluFragment_emitted h⟩

lemma silu_agree (hins : ∀ a ∈ [i], a ≠ o ∧ ∀ u, a ≠ o ++ "_" ++ u) :
    Agree files files' [i] (SingleOp.silu C SP : Outcome (SingleProgram F))
      (siluFragment C SP i o) :=
  agree_of_wired (siluWires C SP) hins rfl (wiredAs_of_positions rfl rfl rfl rfl)
    (by simp [MilFunction.names]) rfl fun _ h => ⟨silu_wired h, siluFragment_emitted h⟩

lemma softmax_agree (hins : ∀ a ∈ [i], a ≠ o ∧ ∀ u, a ≠ o ++ "_" ++ u) :
    Agree files files' [i] (SingleOp.softmax C SP : Outcome (SingleProgram F))
      (softmaxFragment C SP i o) :=
  agree_of_wired (softmaxWires C SP) hins rfl (wiredAs_of_positions rfl rfl rfl rfl)
    (by simp [MilFunction.names]) rfl fun _ h => ⟨softmax_wired h, softmaxFragment_emitted h⟩

lemma neg_agree (hins : ∀ a ∈ [i], a ≠ o ∧ ∀ u, a ≠ o ++ "_" ++ u) :
    Agree files files' [i] (SingleOp.neg C SP : Outcome (SingleProgram F))
      (negFragment C SP i o) :=
  agree_of_wired (negWires C SP) hins rfl (wiredAs_of_positions rfl rfl rfl rfl)
    (by simp [MilFunction.names]) rfl fun _ h => ⟨neg_wired h, negFragment_emitted h⟩

lemma mod_agree (hins : ∀ a ∈ [i, s], a ≠ o ∧ ∀ u, a ≠ o ++ "_" ++ u) :
    Agree files files' [i, s] (SingleOp.mod C SP : Outcome (SingleProgram F))
      (modFragment C SP i s o) :=
  agree_of_wired (modWires C SP) hins rfl (wiredAs_of_positions rfl rfl rfl rfl)
    (by simp [MilFunction.names]) rfl fun _ h => ⟨mod_wired h, modFragment_emitted h⟩

lemma tan_agree (hins : ∀ a ∈ [i], a ≠ o ∧ ∀ u, a ≠ o ++ "_" ++ u) :
    Agree files files' [i] (SingleOp.tan C SP : Outcome (SingleProgram F))
      (tanFragment C SP i o) :=
  agree_of_wired (tanWires C SP) hins rfl (wiredAs_of_positions rfl rfl rfl rfl)
    (by simp [MilFunction.names]) rfl fun _ h => ⟨tan_wired h, tanFragment_emitted h⟩

lemma asin_agree (hins : ∀ a ∈ [i], a ≠ o ∧ ∀ u, a ≠ o ++ "_" ++ u) :
    Agree files files' [i] (SingleOp.asin C SP : Outcome (SingleProgram F))
      (asinFragment C SP i o) :=
  agree_of_wired (asinWires C SP) hins rfl (wiredAs_of_positions rfl rfl rfl rfl)
    (by simp [MilFunction.names, SingleOp.arcRatio]) rfl fun _ h =>
      ⟨asin_wired h, asinFragment_emitted h⟩

lemma acos_agree (hins : ∀ a ∈ [i], a ≠ o ∧ ∀ u, a ≠ o ++ "_" ++ u) :
    Agree files files' [i] (SingleOp.acos C SP : Outcome (SingleProgram F))
      (acosFragment C SP i o) :=
  agree_of_wired (acosWires C SP) hins rfl (wiredAs_of_positions rfl rfl rfl rfl)
    (by simp [MilFunction.names, SingleOp.arcRatio]) rfl fun _ h =>
      ⟨acos_wired h, acosFragment_emitted h⟩

lemma logicalXor_agree (hins : ∀ a ∈ [i, s], a ≠ o ∧ ∀ u, a ≠ o ++ "_" ++ u) :
    Agree files files' [i, s] (SingleOp.logicalXor C SP : Outcome (SingleProgram F))
      (logicalXorFragment C SP i s o) :=
  agree_of_wired (logicalXorWires C SP) hins rfl (wiredAs_of_positions rfl rfl rfl rfl)
    (by simp [MilFunction.names, SingleOp.boolCasts]) rfl fun _ h =>
      ⟨logicalXor_wired h, logicalXorFragment_emitted h⟩

lemma select_agree (hins : ∀ a ∈ [i, s, t], a ≠ o ∧ ∀ u, a ≠ o ++ "_" ++ u) :
    Agree files files' [i, s, t] (SingleOp.select C SP : Outcome (SingleProgram F))
      (selectFragment C SP i s t o) :=
  agree_of_wired (selectWires C SP) hins rfl (wiredAs_of_positions rfl rfl rfl rfl)
    (by simp [MilFunction.names]) rfl fun _ h => ⟨select_wired h, selectFragment_emitted h⟩

lemma reduceProd_agree (hins : ∀ a ∈ [i], a ≠ o ∧ ∀ u, a ≠ o ++ "_" ++ u) :
    Agree files files' [i] (SingleOp.reduceProd C SP : Outcome (SingleProgram F))
      (reduceProdFragment C SP i o) :=
  agree_of_wired (reduceProdWires C SP) hins rfl (wiredAs_of_positions rfl rfl rfl rfl)
    (by simp [MilFunction.names]) rfl fun _ h => ⟨reduceProd_wired h, reduceProdFragment_emitted h⟩

lemma transpose_agree (hins : ∀ a ∈ [i], a ≠ o ∧ ∀ u, a ≠ o ++ "_" ++ u) :
    Agree files files' [i] (SingleOp.transposeCssc C SP : Outcome (SingleProgram F))
      (transposeFragment C SP i o) :=
  agree_of_wired (transposeWires C SP) hins rfl (wiredAs_of_positions rfl rfl rfl rfl)
    (by simp [MilFunction.names]) rfl fun _ h => ⟨transpose_wired h, transposeFragment_emitted h⟩

lemma sinh_agree (hins : ∀ a ∈ [i], a ≠ o ∧ ∀ u, a ≠ o ++ "_" ++ u) :
    Agree files files' [i] (SingleOp.sinh C SP : Outcome (SingleProgram F))
      (sinhFragment C SP i o) :=
  agree_of_wired (hyperbolicWires C SP "sub") hins rfl (wiredAs_of_positions rfl rfl rfl rfl)
    (by simp [MilFunction.names]) rfl fun _ h =>
      ⟨hyperbolic_wired h, hyperbolicFragment_emitted (by decide) (by decide) (by decide) h⟩

lemma cosh_agree (hins : ∀ a ∈ [i], a ≠ o ∧ ∀ u, a ≠ o ++ "_" ++ u) :
    Agree files files' [i] (SingleOp.cosh C SP : Outcome (SingleProgram F))
      (coshFragment C SP i o) :=
  agree_of_wired (hyperbolicWires C SP "add") hins rfl (wiredAs_of_positions rfl rfl rfl rfl)
    (by simp [MilFunction.names]) rfl fun _ h =>
      ⟨hyperbolic_wired h, hyperbolicFragment_emitted (by decide) (by decide) (by decide) h⟩

lemma logical_agree {name l label' : String} (hname : Avoids ':' name) (hlabel : Avoids ':' label')
    (hins : ∀ a ∈ [i, s], a ≠ o ∧ ∀ u, a ≠ o ++ "_" ++ u) :
    Agree files files' [i, s] (SingleOp.logical name l C SP : Outcome (SingleProgram F))
      (logicalFragment name label' C SP i s o) :=
  agree_of_wired (logicalWires C SP name) hins rfl (wiredAs_of_positions rfl rfl rfl rfl)
    (by simp [MilFunction.names, SingleOp.boolCasts]) rfl fun _ h =>
      ⟨logical_wired h, logicalFragment_emitted hname hlabel h⟩

/-- **Every whole program agrees with its fragment**, if no operand has the name of the fragment's
result or of one of its temporaries, which are this name, `_` and a suffix. -/
theorem single_op_agrees (k : SingleKind) (hw : files w = files' w') (hb : files b = files' b')
    (hins : ∀ a ∈ k.operands i s t, a ≠ o ∧ ∀ u, a ≠ o ++ "_" ++ u) :
    Agree files files' (k.operands i s t) (k.program C OC SP w b : Outcome (SingleProgram F))
      (k.fragment C OC SP i s t o w' b') := by
  cases k with
  | Matmul => exact matmul_agree hw hins
  | Rmsnorm => exact rmsnorm_agree hw hins
  | Layernorm => exact layernorm_agree hw hb hins
  | Scatter => exact scatter_agree hw hins
  | GatherStatic => exact gatherStatic_agree hw hins
  | AvgPool => exact unary_agree (by decide) (by decide) (by decide) hins
  | MaxPool => exact unary_agree (by decide) (by decide) (by decide) hins
  | Sqrt => exact unary_agree (by decide) (by decide) (by decide) hins
  | Log => exact epsilon_agree (by decide) (by decide) (by decide) (by decide) hins
  | Rsqrt => exact epsilon_agree (by decide) (by decide) (by decide) (by decide) hins
  | Add => exact add_agree hins
  | Mul => exact binary_agree (by decide) (by decide) (by decide) (by decide) (by decide) hins
  | Sub => exact binary_agree (by decide) (by decide) (by decide) (by decide) (by decide) hins
  | RealDiv => exact binary_agree (by decide) (by decide) (by decide) (by decide) (by decide) hins
  | GatherDynamic =>
      exact binary_agree (by decide) (by decide) (by decide) (by decide) (by decide) hins
  | Gelu => exact gelu_agree hins
  | Silu => exact silu_agree hins
  | Softmax => exact softmax_agree hins
  | Neg => exact neg_agree hins
  | Mod => exact mod_agree hins
  | Sinh => exact sinh_agree hins
  | Cosh => exact cosh_agree hins
  | Tan => exact tan_agree hins
  | Asin => exact asin_agree hins
  | Acos => exact acos_agree hins
  | LogicalAnd => exact logical_agree (by decide) (by decide) hins
  | LogicalOr => exact logical_agree (by decide) (by decide) hins
  | LogicalXor => exact logicalXor_agree hins
  | Select => exact select_agree hins
  | ReduceProd => exact reduceProd_agree hins
  | Transpose => exact transpose_agree hins

/-- The two files of a `LAYERNORM`. -/
def normFiles (gamma beta file : String) : Option (List UInt8) :=
  if file = gamma then some [0, 60] else if file = beta then some [0, 0] else none

/-- `LAYERNORM`, whose files have other names in the fragment. -/
theorem single_op_agrees_layernorm :
    Agree (normFiles "gamma.bin" "beta.bin") (normFiles "w3.bin" "w3b.bin") ["t1"]
      (SingleOp.layernorm 64 32 "gamma.bin" "beta.bin" : Outcome (SingleProgram Unit))
      (layernormFragment 64 32 "t1" "t4" "w3.bin" "w3b.bin") := by
  have hfresh : ∀ a ∈ SingleKind.Layernorm.operands "t1" "" "",
      a ≠ "t4" ∧ ∀ u, a ≠ "t4" ++ "_" ++ u := by
    intro a ha
    obtain rfl : a = "t1" := List.mem_singleton.mp ha
    exact ⟨by decide, fun u h => by simp [← String.toList_inj] at h⟩
  have h : Agree (normFiles "gamma.bin" "beta.bin") (normFiles "w3.bin" "w3b.bin")
      (SingleKind.Layernorm.operands "t1" "" "")
      (SingleKind.Layernorm.program 64 64 32 "gamma.bin" "beta.bin" : Outcome (SingleProgram Unit))
      (SingleKind.Layernorm.fragment 64 64 32 "t1" "" "" "t4" "w3.bin" "w3b.bin") :=
    single_op_agrees .Layernorm (by decide) (by decide) hfresh
  exact h

end Kinds

end Agreement

end Libane
