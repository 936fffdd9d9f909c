import Libane.Core.Assembly
import Libane.Foundation.StraightLine

/-!
# What the emitters emit

Whatever the operation, the fragment that an emitter returns obeys the conventions that let
fragments share one textual scope.  `Emitted ins refs out f` collects them: temporaries are named
after the result, nothing is read that is not an input or defined before, the weight files are
the ones in `refs`, the result is declared with the shape of the fragment, and the text brings
in no colon of its own.

The conventions are what joining fragments needs: with names taken from the result, fragments for
different tensors define different names, and a fragment that reads only its inputs can stand after
any other that defines them.  They are proved once for each emitter and used for whole groups
without a look at the emitters.

There is one lemma for every emitter; emitters that are instances of a common definition share it.
-/

namespace Libane

open Names MilBuilder

/-- The dimensions that a type declares. -/
def MilType.dims : MilType → List ℤ
  | Scalar _ => []
  | Tensor _ _ dims => dims

/-- The dimensions of a shape. -/
def TensorShape.dims (s : TensorShape) : List ℤ := [s.batch, s.channels, s.height, s.seq]

variable {F : Type}

/-- The conventions of a fragment with inputs `ins`, weight files `refs` and result `out`. -/
structure Emitted (ins : List String) (refs : List (MilType × String)) (out : String)
    (f : MilFragment F) : Prop where
  outputName_eq : f.outputName = out
  vars : ∃ suffixes : List String, suffixes.Nodup ∧
    f.body.map (·.var) = suffixes.map (out ++ "_" ++ ·) ++ [out]
  wellScoped : StraightLine.WellScoped MilStmt.var MilStmt.operands {a | a ∈ ins} f.body
  refs_eq : f.body.flatMap (·.files) = refs
  weightFile_eq : f.weightFile = (refs.map (·.2)).headD ""
  declares : f.body.getLast?.map (·.type.dims) = some f.outputShape.dims
  plain : Avoids ':' out → (∀ a ∈ ins, Avoids ':' a) → (∀ r ∈ refs, Avoids ':' r.2) →
    ∀ s ∈ f.body, s.Plain

/-- The names of a fragment are different. -/
lemma Emitted.vars_nodup {ins : List String} {refs : List (MilType × String)} {o : String}
    {f : MilFragment F} (h : Emitted ins refs o f) : (f.body.map (·.var)).Nodup := by
  obtain ⟨suffixes, hnodup, hvars⟩ := h.vars
  rw [hvars]
  refine List.nodup_append.mpr ⟨hnodup.map fun s t hst => ?_, List.nodup_singleton o, ?_⟩
  · exact (String.append_right_inj _).mp hst
  · rintro v hv w hw rfl
    obtain ⟨s, -, hs⟩ := List.mem_map.mp hv
    have hlen := congrArg String.length (hs.trans (List.mem_singleton.mp hw))
    have hone : "_".length = 1 := by decide
    simp only [String.length_append, hone] at hlen
    omega

/-! ## Statements -/

section Statements

variable {type : MilType} {var name label text : String} {args : List (String × MilArg)}
  {value : MilValue F} {pad : ℕ} {a b : String}

@[simp] lemma const_var : (const type var value pad).var = var := rfl
@[simp] lemma const_operands : (const type var value pad).operands = [] := rfl
@[simp] lemma op_var : (op type var name args label pad : MilStmt F).var = var := rfl
@[simp] lemma op_operands :
    (op type var name args label pad : MilStmt F).operands = args.flatMap (·.2.names) := rfl
@[simp] lemma op_files : (op type var name args label pad : MilStmt F).files = [] := rfl
@[simp] lemma var_names : (MilArg.Var a).names = [a] := rfl
@[simp] lemma tuple_names {l : List String} : (MilArg.Tuple l).names = l := rfl
@[simp] lemma str_names : (MilArg.Str text).names = [] := rfl

@[simp] lemma const_plain : (const type var value pad).Plain ↔
    type.Plain ∧ Avoids ':' var ∧ value.Plain :=
  ⟨fun h => ⟨h.type, h.var, h.rhs⟩, fun h => ⟨h.1, h.2.1, h.2.2, h.2.1⟩⟩

@[simp] lemma op_plain : (op type var name args label pad : MilStmt F).Plain ↔
    type.Plain ∧ Avoids ':' var ∧ (Avoids ':' name ∧ ∀ a ∈ args, Avoids ':' a.1 ∧ a.2.Plain) ∧
      Avoids ':' label :=
  ⟨fun h => ⟨h.type, h.var, h.rhs, h.label⟩, fun h => ⟨h.1, h.2.1, h.2.2.1, h.2.2.2⟩⟩

@[simp] lemma scalar_plain : (MilType.Scalar name).Plain ↔ Avoids ':' name := Iff.rfl
@[simp] lemma tensor_plain {elem sep : String} {dims : List ℤ} :
    (MilType.Tensor elem sep dims).Plain ↔ Avoids ':' elem ∧ Avoids ':' sep := Iff.rfl
@[simp] lemma var_plain : (MilArg.Var a).Plain ↔ Avoids ':' a := Iff.rfl
@[simp] lemma tuple_plain {l : List String} :
    (MilArg.Tuple l).Plain ↔ ∀ n ∈ l, Avoids ':' n := Iff.rfl
@[simp] lemma strArg_plain : (MilArg.Str text).Plain ↔ Avoids ':' text := Iff.rfl
@[simp] lemma str_plain : (MilValue.Str text : MilValue F).Plain ↔ Avoids ':' text := Iff.rfl
@[simp] lemma int32_plain {k : ℤ} : (MilValue.Int32 k : MilValue F).Plain := trivial
@[simp] lemma boolean_plain {k : Bool} : (MilValue.Boolean k : MilValue F).Plain := trivial
@[simp] lemma int32Tensor_plain {l : List ℤ} : (MilValue.Int32Tensor l : MilValue F).Plain :=
  trivial
@[simp] lemma fp16Text_plain : (fp16Text text : MilValue F).Plain ↔ Avoids ':' text := Iff.rfl
@[simp] lemma general_plain {d : ℕ} {v : F} : (MilValue.Fp16 (.General d v)).Plain := trivial
@[simp] lemma literal_plain {v : F} : (MilValue.Fp16 (.Literal v)).Plain := trivial
@[simp] lemma blobFile_plain :
    (MilValue.BlobFile type text : MilValue F).Plain ↔ type.Plain ∧ Avoids ':' text := Iff.rfl

variable {n : ℤ} {shape : TensorShape}

@[simp] lemma fp16_plain : fp16.Plain := (by decide : Avoids ':' "fp16")
@[simp] lemma int32Type_plain : int32.Plain := (by decide : Avoids ':' "int32")
@[simp] lemma bool_plain : MilBuilder.bool.Plain := (by decide : Avoids ':' "bool")
@[simp] lemma int32Vec_plain : (int32Vec n).Plain := ⟨by decide, by decide⟩
@[simp] lemma tensorType_plain : (tensorType shape).Plain := ⟨by decide, by decide⟩
@[simp] lemma boolType_plain : (boolType shape).Plain := ⟨by decide, by decide⟩
@[simp] lemma rowType_plain : (rowType n).Plain := ⟨by decide, by decide⟩
@[simp] lemma columnType_plain : (columnType n).Plain := ⟨by decide, by decide⟩

end Statements

/-! ## The emitters -/

attribute [local simp] StraightLine.WellScoped arg castArgs boolCasts arcRatio

section Emitters

variable {C SP : ℤ} {i s o file : String} {f : MilFragment F}

lemma matmulFragment_emitted {IC OC : ℤ} (h : matmulFragment IC OC SP i o file = .ok f) :
    Emitted [i] [(.Tensor "fp16" "," [OC, IC, 1, 1], file)] o f := by
  obtain ⟨-, rfl⟩ := checked_eq_ok_iff.mp h
  refine ⟨rfl, ⟨["pt", "st", "pd", "dl", "gr", "W"], by decide, rfl⟩, ?_, rfl, rfl, rfl,
    fun ho hi hr => ?_⟩
  · simp
  · simp only [List.forall_mem_singleton] at hi hr
    simp +decide [ho, hi, hr]

lemma rmsnormFragment_emitted [MilFloat F] (h : rmsnormFragment C SP i o file = .ok f) :
    Emitted [i] [(columnType C, file)] o f := by
  obtain ⟨-, rfl⟩ := checked_eq_ok_iff.mp h
  refine ⟨rfl, ⟨["sq", "ax", "kd", "ss", "invd", "ms", "eps", "mse", "nh", "rr", "xr", "w"],
    by decide, rfl⟩, ?_, rfl, rfl, rfl, fun ho hi hr => ?_⟩
  · simp
  · simp only [List.forall_mem_singleton] at hi hr
    simp +decide [ho, hi, hr]

lemma layernormFragment_emitted [MilFloat F] {beta : String}
    (h : layernormFragment C SP i o file beta = .ok f) :
    Emitted [i] [(columnType C, file), (columnType C, beta)] o f := by
  obtain ⟨-, rfl⟩ := checked_eq_ok_iff.mp h
  refine ⟨rfl, ⟨["ax", "kd", "mean", "cent", "sq", "var", "eps", "veps", "nh", "rstd", "norm", "g",
    "sc", "beta"], by decide, rfl⟩, ?_, rfl, rfl, rfl, fun ho hi hr => ?_⟩
  · simp
  · have hg := hr (columnType C, file) (by simp)
    have hb := hr (columnType C, beta) (by simp)
    simp only [List.forall_mem_singleton] at hi
    simp +decide [ho, hi, hg, hb]

lemma scatterStaticMaskFragment_emitted
    (h : scatterStaticMaskFragment C SP i s o file = .ok f) :
    Emitted [i, s] [(tensorType (shapeOf C SP), file)] o f := by
  obtain ⟨-, rfl⟩ := checked_eq_ok_iff.mp h
  refine ⟨rfl, ⟨["m", "one", "inv", "xb", "uu"], by decide, rfl⟩, ?_, rfl, rfl, rfl,
    fun ho hi hr => ?_⟩
  · simp
  · simp only [List.forall_mem_cons] at hi hr
    simp +decide [ho, hi, hr]

lemma gatherStaticMaskFragment_emitted (h : gatherStaticMaskFragment C SP i o file = .ok f) :
    Emitted [i] [(tensorType (shapeOf C SP), file)] o f := by
  obtain ⟨-, rfl⟩ := checked_eq_ok_iff.mp h
  refine ⟨rfl, ⟨["m"], by decide, rfl⟩, ?_, rfl, rfl, rfl, fun ho hi hr => ?_⟩
  · simp
  · simp only [List.forall_mem_singleton] at hi hr
    simp +decide [ho, hi, hr]

lemma unaryFragment_emitted {name label : String} (hname : Avoids ':' name)
    (hlabel : Avoids ':' label) (h : unaryFragment name label C SP i o = .ok f) :
    Emitted [i] [] o f := by
  obtain ⟨-, rfl⟩ := checked_eq_ok_iff.mp h
  refine ⟨rfl, ⟨[], by decide, rfl⟩, ?_, rfl, rfl, rfl, fun ho hi _ => ?_⟩
  · simp
  · simp only [List.forall_mem_singleton] at hi
    simp +decide [ho, hi, hname, hlabel]

lemma epsilonFragment_emitted {name label : String} (hname : Avoids ':' name)
    (hlabel : Avoids ':' label) (h : epsilonFragment name label C SP i o = .ok f) :
    Emitted [i] [] o f := by
  obtain ⟨-, rfl⟩ := checked_eq_ok_iff.mp h
  refine ⟨rfl, ⟨["eps"], by decide, rfl⟩, ?_, rfl, rfl, rfl, fun ho hi _ => ?_⟩
  · simp
  · simp only [List.forall_mem_singleton] at hi
    simp +decide [ho, hi, hname, hlabel]

lemma binaryFragment_emitted {name label : String} (hname : Avoids ':' name)
    (hlabel : Avoids ':' label) (h : binaryFragment name label C SP i s o = .ok f) :
    Emitted [i, s] [] o f := by
  obtain ⟨-, rfl⟩ := checked_eq_ok_iff.mp h
  refine ⟨rfl, ⟨[], by decide, rfl⟩, ?_, rfl, rfl, rfl, fun ho hi _ => ?_⟩
  · simp
  · simp only [List.forall_mem_cons] at hi
    simp +decide [ho, hi, hname, hlabel]

lemma geluFragment_emitted (h : geluFragment C SP i o = .ok f) : Emitted [i] [] o f := by
  obtain ⟨-, rfl⟩ := checked_eq_ok_iff.mp h
  refine ⟨rfl, ⟨["x2", "x3", "c1", "cx3", "inn", "c2", "sc", "th", "one", "onep", "half", "hx"],
    by decide, rfl⟩, ?_, rfl, rfl, rfl, fun ho hi _ => ?_⟩
  · simp
  · simp only [List.forall_mem_singleton] at hi
    simp +decide [ho, hi]

lemma siluFragment_emitted (h : siluFragment C SP i o = .ok f) : Emitted [i] [] o f := by
  obtain ⟨-, rfl⟩ := checked_eq_ok_iff.mp h
  refine ⟨rfl, ⟨["sig"], by decide, rfl⟩, ?_, rfl, rfl, rfl, fun ho hi _ => ?_⟩
  · simp
  · simp only [List.forall_mem_singleton] at hi
    simp +decide [ho, hi]

lemma softmaxFragment_emitted (h : softmaxFragment C SP i o = .ok f) : Emitted [i] [] o f := by
  obtain ⟨-, rfl⟩ := checked_eq_ok_iff.mp h
  refine ⟨rfl, ⟨["sax"], by decide, rfl⟩, ?_, rfl, rfl, rfl, fun ho hi _ => ?_⟩
  · simp
  · simp only [List.forall_mem_singleton] at hi
    simp +decide [ho, hi]

lemma negFragment_emitted (h : negFragment C SP i o = .ok f) : Emitted [i] [] o f := by
  obtain ⟨-, rfl⟩ := checked_eq_ok_iff.mp h
  refine ⟨rfl, ⟨["n1"], by decide, rfl⟩, ?_, rfl, rfl, rfl, fun ho hi _ => ?_⟩
  · simp
  · simp only [List.forall_mem_singleton] at hi
    simp +decide [ho, hi]

lemma modFragment_emitted (h : modFragment C SP i s o = .ok f) : Emitted [i, s] [] o f := by
  obtain ⟨-, rfl⟩ := checked_eq_ok_iff.mp h
  refine ⟨rfl, ⟨["q", "qy"], by decide, rfl⟩, ?_, rfl, rfl, rfl, fun ho hi _ => ?_⟩
  · simp
  · simp only [List.forall_mem_cons] at hi
    simp +decide [ho, hi]

lemma hyperbolicFragment_emitted {comb tmp : String} (hcomb : Avoids ':' comb)
    (htmp : Avoids ':' tmp) (hnew : tmp ∉ ["n1", "h", "nx", "ex", "enx"])
    (h : hyperbolicFragment comb tmp C SP i o = .ok f) : Emitted [i] [] o f := by
  obtain ⟨-, rfl⟩ := checked_eq_ok_iff.mp h
  refine ⟨rfl, ⟨["n1", "h", "nx", "ex", "enx", tmp], ?_, rfl⟩, ?_, rfl, rfl, rfl,
    fun ho hi _ => ?_⟩
  · have hstart : ["n1", "h", "nx", "ex", "enx"].Nodup := by decide
    exact (hstart.concat hnew : (["n1", "h", "nx", "ex", "enx"] ++ [tmp]).Nodup)
  · simp
  · simp only [List.forall_mem_singleton] at hi
    simp +decide [ho, hi, hcomb, htmp]

lemma tanFragment_emitted (h : tanFragment C SP i o = .ok f) : Emitted [i] [] o f := by
  obtain ⟨-, rfl⟩ := checked_eq_ok_iff.mp h
  refine ⟨rfl, ⟨["eps", "sx", "cx", "cxe"], by decide, rfl⟩, ?_, rfl, rfl, rfl,
    fun ho hi _ => ?_⟩
  · simp
  · simp only [List.forall_mem_singleton] at hi
    simp +decide [ho, hi]

lemma asinFragment_emitted (h : asinFragment C SP i o = .ok f) : Emitted [i] [] o f := by
  obtain ⟨-, rfl⟩ := checked_eq_ok_iff.mp h
  refine ⟨rfl, ⟨["one", "eps", "xsq", "d2", "d2e", "d", "r"], by decide, rfl⟩, ?_, rfl, rfl, rfl,
    fun ho hi _ => ?_⟩
  · simp
  · simp only [List.forall_mem_singleton] at hi
    simp +decide [ho, hi]

lemma acosFragment_emitted (h : acosFragment C SP i o = .ok f) : Emitted [i] [] o f := by
  obtain ⟨-, rfl⟩ := checked_eq_ok_iff.mp h
  refine ⟨rfl, ⟨["hp", "one", "eps", "xsq", "d2", "d2e", "d", "r", "asv"], by decide, rfl⟩, ?_,
    rfl, rfl, rfl, fun ho hi _ => ?_⟩
  · simp
  · simp only [List.forall_mem_singleton] at hi
    simp +decide [ho, hi]

lemma hardswishFragment_emitted (h : hardswishFragment C SP i o = .ok f) :
    Emitted [i] [] o f := by
  obtain ⟨-, rfl⟩ := checked_eq_ok_iff.mp h
  refine ⟨rfl, ⟨["c3", "c6", "inv6", "sh", "r1", "sh2", "d6", "r2", "cl", "sc"], by decide, rfl⟩,
    ?_, rfl, rfl, rfl, fun ho hi _ => ?_⟩
  · simp
  · simp only [List.forall_mem_singleton] at hi
    simp +decide [ho, hi]

lemma leakyReluFragment_emitted (h : leakyReluFragment C SP i o = .ok f) :
    Emitted [i] [] o f := by
  obtain ⟨-, rfl⟩ := checked_eq_ok_iff.mp h
  refine ⟨rfl, ⟨["alpha"], by decide, rfl⟩, ?_, rfl, rfl, rfl, fun ho hi _ => ?_⟩
  · simp
  · simp only [List.forall_mem_singleton] at hi
    simp +decide [ho, hi]

lemma eluFragment_emitted (h : eluFragment C SP i o = .ok f) : Emitted [i] [] o f := by
  obtain ⟨-, rfl⟩ := checked_eq_ok_iff.mp h
  refine ⟨rfl, ⟨["zero", "one", "mask", "ex", "em1"], by decide, rfl⟩, ?_, rfl, rfl, rfl,
    fun ho hi _ => ?_⟩
  · simp
  · simp only [List.forall_mem_singleton] at hi
    simp +decide [ho, hi]

lemma logicalFragment_emitted {name label : String} (hname : Avoids ':' name)
    (hlabel : Avoids ':' label) (h : logicalFragment name label C SP i s o = .ok f) :
    Emitted [i, s] [] o f := by
  obtain ⟨-, rfl⟩ := checked_eq_ok_iff.mp h
  refine ⟨rfl, ⟨["xb", "yb", "xf", "yf"], by decide, rfl⟩, ?_, rfl, rfl, rfl, fun ho hi _ => ?_⟩
  · simp
  · simp only [List.forall_mem_cons] at hi
    simp +decide [ho, hi, hname, hlabel]

lemma logicalXorFragment_emitted (h : logicalXorFragment C SP i s o = .ok f) :
    Emitted [i, s] [] o f := by
  obtain ⟨-, rfl⟩ := checked_eq_ok_iff.mp h
  refine ⟨rfl, ⟨["xb", "yb", "xf", "yf", "zb"], by decide, rfl⟩, ?_, rfl, rfl, rfl,
    fun ho hi _ => ?_⟩
  · simp
  · simp only [List.forall_mem_cons] at hi
    simp +decide [ho, hi]

lemma selectFragment_emitted {x y : String} (h : selectFragment C SP i x y o = .ok f) :
    Emitted [i, x, y] [] o f := by
  obtain ⟨-, rfl⟩ := checked_eq_ok_iff.mp h
  refine ⟨rfl, ⟨["cb"], by decide, rfl⟩, ?_, rfl, rfl, rfl, fun ho hi _ => ?_⟩
  · simp
  · simp only [List.forall_mem_cons] at hi
    simp +decide [ho, hi]

lemma reduceProdFragment_emitted (h : reduceProdFragment C SP i o = .ok f) :
    Emitted [i] [] o f := by
  obtain ⟨-, rfl⟩ := checked_eq_ok_iff.mp h
  refine ⟨rfl, ⟨["eps", "x", "l", "ax", "kd", "s"], by decide, rfl⟩, ?_, rfl, rfl, rfl,
    fun ho hi _ => ?_⟩
  · simp
  · simp only [List.forall_mem_singleton] at hi
    simp +decide [ho, hi]

lemma reduceFragment_emitted {name label : String} (hname : Avoids ':' name)
    (hlabel : Avoids ':' label) (h : reduceFragment name label SP i o = .ok f) :
    Emitted [i] [] o f := by
  obtain ⟨-, rfl⟩ := checked_eq_ok_iff.mp h
  refine ⟨rfl, ⟨["ax", "kd"], by decide, rfl⟩, ?_, rfl, rfl, rfl, fun ho hi _ => ?_⟩
  · simp
  · simp only [List.forall_mem_singleton] at hi
    simp +decide [ho, hi, hname, hlabel]

lemma concatFragment_emitted {in0C in1C : ℤ} (h : concatFragment in0C in1C SP i s o = .ok f) :
    Emitted [i, s] [] o f := by
  obtain ⟨-, rfl⟩ := checked_eq_ok_iff.mp h
  refine ⟨rfl, ⟨["ax", "id"], by decide, rfl⟩, ?_, rfl, rfl, rfl, fun ho hi _ => ?_⟩
  · simp
  · simp only [List.forall_mem_cons] at hi
    simp +decide [ho, hi]

lemma sliceByIndexFragment_emitted {inC inSP outC outSP : ℤ}
    (h : sliceByIndexFragment inC inSP outC outSP i o = .ok f) : Emitted [i] [] o f := by
  obtain ⟨-, -, h⟩ := bind_eq_ok.mp h
  split at h
  · cases h
  obtain ⟨-, rfl⟩ := checked_eq_ok_iff.mp h
  refine ⟨rfl, ⟨["bg", "ed", "st"], by decide, rfl⟩, ?_, rfl, rfl, rfl, fun ho hi _ => ?_⟩
  · simp
  · simp only [List.forall_mem_singleton] at hi
    simp +decide [ho, hi]

lemma transposeFragment_emitted (h : transposeFragment C SP i o = .ok f) :
    Emitted [i] [] o f := by
  obtain ⟨-, rfl⟩ := checked_eq_ok_iff.mp h
  refine ⟨rfl, ⟨["perm"], by decide, rfl⟩, ?_, rfl, rfl, rfl, fun ho hi _ => ?_⟩
  · simp
  · simp only [List.forall_mem_singleton] at hi
    simp +decide [ho, hi]

lemma reshapeFragment_emitted {inC inSP outC outSP : ℤ}
    (h : reshapeFragment inC inSP outC outSP i o = .ok f) : Emitted [i] [] o f := by
  obtain ⟨-, -, h⟩ := bind_eq_ok.mp h
  obtain ⟨-, -, h⟩ := bind_eq_ok.mp h
  split at h
  · cases h
  obtain ⟨-, rfl⟩ := checked_eq_ok_iff.mp h
  refine ⟨rfl, ⟨["shape"], by decide, rfl⟩, ?_, rfl, rfl, rfl, fun ho hi _ => ?_⟩
  · simp
  · simp only [List.forall_mem_singleton] at hi
    simp +decide [ho, hi]

lemma pixelShuffleFragment_emitted {outC inSP r : ℤ}
    (h : pixelShuffleFragment outC inSP r i o = .ok f) : Emitted [i] [] o f := by
  unfold pixelShuffleFragment at h
  split at h
  · cases h
  obtain ⟨-, rfl⟩ := checked_eq_ok_iff.mp h
  refine ⟨rfl, ⟨["sh1", "r1", "pm", "tr", "sh2"], by decide, rfl⟩, ?_, rfl, rfl, rfl,
    fun ho hi _ => ?_⟩
  · simp
  · simp only [List.forall_mem_singleton] at hi
    simp +decide [ho, hi]

end Emitters

/-! ## The piecewise-linear activation

Every segment brings its own set of temporaries, told apart by the index of the segment. -/

section Pwl

variable (shape : TensorShape) (p i : String)

/-- The stems of the temporaries of the innermost segment. -/
def innermostStems : List String := ["a", "b", "t", "cr"]

/-- The stems of the temporaries of every other segment. -/
def wrapStems : List String := ["a", "b", "t", "y", "th", "mk", "cr"]

/-- The suffixes that the segments contribute. -/
def wrapSuffixes (segments : List (PwlSegment F)) : List String :=
  segments.flatMap fun seg => wrapStems.map (· ++ toString seg.index)

lemma pwlInnermost_vars (tt : MilType) (seg : PwlSegment F) :
    (pwlInnermost tt p i seg).map (·.var) =
      (innermostStems.map (· ++ toString seg.index)).map (p ++ ·) := by
  simp [pwlInnermost, innermostStems, String.append_assoc]

/-- What the loop over the segments defines. -/
lemma pwlLoop_vars : ∀ (cur : String) (segments : List (PwlSegment F)),
    (pwlLoop shape p i cur segments).1.map (·.var) = (wrapSuffixes segments).map (p ++ ·)
  | _, [] => rfl
  | cur, seg :: rest => by
      have ih := pwlLoop_vars (p ++ "cr" ++ toString seg.index) rest
      rw [pwlLoop, List.map_append, ih]
      simp [pwlWrap, wrapSuffixes, wrapStems, String.append_assoc]

/-- **Scoping of the loop.**  Given the input and the value emitted so far, it reads nothing
undefined, and the value it ends with is defined. -/
lemma pwlLoop_wellScoped : ∀ (cur : String) (segments : List (PwlSegment F)) (D : Set String),
    i ∈ D → cur ∈ D →
    StraightLine.WellScoped MilStmt.var MilStmt.operands D (pwlLoop shape p i cur segments).1 ∧
      (pwlLoop shape p i cur segments).2 ∈
        D ∪ {a | a ∈ (pwlLoop shape p i cur segments).1.map (·.var)}
  | _, [], _, _, hcur => ⟨trivial, Or.inl hcur⟩
  | cur, seg :: rest, D, hi, hcur => by
      obtain ⟨ih, hlast⟩ := pwlLoop_wellScoped (p ++ "cr" ++ toString seg.index) rest
        (D ∪ {a | a ∈ (pwlWrap shape p i cur seg).map (·.var)}) (Or.inl hi)
        (Or.inr (by simp [pwlWrap]))
      refine ⟨StraightLine.wellScoped_append.mpr ⟨?_, ih⟩, ?_⟩
      · simp [pwlWrap, hi, hcur]
      · rw [pwlLoop, List.map_append]
        simpa [or_assoc] using hlast

lemma pwlLoop_last : ∀ (k : ℕ) (segments : List (PwlSegment F)),
    ∃ j : ℕ, (pwlLoop shape p i (p ++ "cr" ++ toString k) segments).2 = p ++ "cr" ++ toString j
  | k, [] => ⟨k, rfl⟩
  | _, seg :: rest => pwlLoop_last seg.index rest

lemma pwlLoop_files : ∀ (cur : String) (segments : List (PwlSegment F)),
    (pwlLoop shape p i cur segments).1.flatMap (·.files) = []
  | _, [] => rfl
  | _, seg :: rest => by
      rw [pwlLoop, List.flatMap_append, pwlLoop_files _ rest]
      rfl

lemma pwlLoop_plain (hp : Avoids ':' p) (hi : Avoids ':' i) :
    ∀ (cur : String) (segments : List (PwlSegment F)), Avoids ':' cur →
      ∀ s ∈ (pwlLoop shape p i cur segments).1, s.Plain
  | _, [], _ => by simp [pwlLoop]
  | cur, seg :: rest, hcur => by
      have hindex : Avoids ':' seg.index.repr := avoids_toString_nat colon_not_digit seg.index
      have ih := pwlLoop_plain hp hi (p ++ "cr" ++ toString seg.index) rest
        (by simp +decide [hp, hindex])
      have hwrap : ∀ s ∈ pwlWrap shape p i cur seg, s.Plain := by
        simp +decide [pwlWrap, hp, hi, hcur, hindex]
      rw [pwlLoop]
      intro s hs
      exact (List.mem_append.mp hs).elim (hwrap s) (ih s)

/-- The suffixes of segments with different indices do not clash. -/
lemma pwlSuffixes_nodup {k : ℕ} {segments : List (PwlSegment F)}
    (h : (k :: segments.map (·.index)).Nodup) :
    (innermostStems.map (· ++ toString k) ++ wrapSuffixes segments).Nodup := by
  have hdigit : ∀ t ∈ wrapStems, ∀ c ∈ t.toList, c.isDigit = false := by
    simp [wrapStems]
  have hsub : innermostStems ⊆ wrapStems := by decide
  have hone : ∀ (stems : List String) (j : ℕ), stems.Nodup →
      (stems.map (· ++ toString j)).Nodup := fun stems j hs =>
    hs.map fun a b hab => (String.append_left_inj _).mp hab
  have hapart : ∀ {j k : ℕ} {s t : String}, s ∈ wrapStems → t ∈ wrapStems →
      s ++ toString j = t ++ toString k → j = k := fun hs ht he =>
    (append_numeral_inj (hdigit _ hs) (hdigit _ ht) he).2
  rw [List.nodup_cons] at h
  refine List.nodup_append.mpr ⟨hone _ _ (by decide), ?_, ?_⟩
  · refine List.nodup_flatMap.mpr ⟨fun seg _ => hone _ _ (by decide), ?_⟩
    refine (List.pairwise_map.mp h.2).imp fun hne => ?_
    refine List.disjoint_left.mpr fun x hx hy => hne ?_
    obtain ⟨s, hs, rfl⟩ := List.mem_map.mp hx
    obtain ⟨t, ht, heq⟩ := List.mem_map.mp hy
    exact (hapart ht hs heq).symm
  · rintro x hx y hy rfl
    obtain ⟨s, hs, rfl⟩ := List.mem_map.mp hx
    obtain ⟨seg, hseg, hy⟩ := List.mem_flatMap.mp hy
    obtain ⟨t, ht, heq⟩ := List.mem_map.mp hy
    have := hapart ht (hsub hs) heq
    exact h.1 (this ▸ List.mem_map_of_mem hseg)

variable [MilFloat F] (xMin xMax : F) (samples : List F)

lemma pwlSegments_indices :
    (pwlSegments xMin xMax samples).map (·.index) = List.range (samples.length - 1) := by
  have hlen : (samples.zip samples.tail).length = samples.length - 1 := by simp
  have hsnd : (pwlSegments xMin xMax samples).map (·.index) =
      (samples.zip samples.tail).zipIdx.map Prod.snd := by
    rw [pwlSegments, List.map_map]
    rfl
  rw [hsnd, List.zipIdx_map_snd, hlen, List.range_eq_range']

/-- The emitter of the piecewise-linear activation, for any number of segments. -/
lemma pwlActivationFragment_emitted {xMin xMax : F} {samples : List F} {C SP : ℤ} {i o : String}
    {f : MilFragment F} (h : pwlActivationFragment C SP xMin xMax samples i o = .ok f) :
    Emitted [i] [] o f := by
  unfold pwlActivationFragment at h
  split at h
  · cases h
  rename_i hlen
  have hindices : ((pwlSegments xMin xMax samples).reverse.map (·.index)).Nodup := by
    rw [List.map_reverse, List.nodup_reverse, pwlSegments_indices]
    exact List.nodup_range
  cases hsegs : (pwlSegments xMin xMax samples).reverse with
  | nil =>
      have := congrArg List.length (pwlSegments_indices xMin xMax samples)
      rw [List.reverse_eq_nil_iff.mp hsegs, List.map_nil, List.length_nil,
        List.length_range] at this
      omega
  | cons seg rest =>
      rw [hsegs, List.map_cons] at hindices
      obtain ⟨j, hlast⟩ := pwlLoop_last (shapeOf C SP) (o ++ "_") i seg.index rest
      have hne : (o ++ "_" ++ "cr" ++ toString j) ≠ o := by
        intro he
        have hlen := congrArg String.length he
        have hone : "_".length = 1 := by decide
        simp only [String.length_append, hone] at hlen
        omega
      rw [hsegs] at h
      simp only [pwlChain, hlast, if_pos hne] at h
      obtain ⟨-, rfl⟩ := checked_eq_ok_iff.mp h
      obtain ⟨hloop, hdef⟩ := pwlLoop_wellScoped (shapeOf C SP) (o ++ "_") i
        (o ++ "_" ++ "cr" ++ toString seg.index) rest
        ({a | a ∈ [i]} ∪ {a | a ∈ (pwlInnermost (tensorType (shapeOf C SP)) (o ++ "_") i seg).map
          (·.var)}) (Or.inl (by simp)) (Or.inr (by simp [pwlInnermost]))
      rw [hlast] at hdef
      have hseg : Avoids ':' seg.index.repr := avoids_toString_nat colon_not_digit seg.index
      have hj : Avoids ':' j.repr := avoids_toString_nat colon_not_digit j
      exact {
        outputName_eq := rfl
        vars := ⟨_, pwlSuffixes_nodup hindices, by
          simp only [List.map_append, pwlInnermost_vars, pwlLoop_vars]
          rfl⟩
        wellScoped := by
          refine StraightLine.wellScoped_append.mpr
            ⟨StraightLine.wellScoped_append.mpr ⟨by simp [pwlInnermost], hloop⟩, ?_⟩
          rw [List.map_append]
          simpa [or_assoc] using hdef
        refs_eq := by
          rw [List.flatMap_append, List.flatMap_append, pwlLoop_files]
          rfl
        weightFile_eq := rfl
        declares := by
          rw [List.getLast?_append]
          rfl
        plain := fun ho hi _ => by
          rw [List.forall_mem_singleton] at hi
          have hp : Avoids ':' (o ++ "_") := by simp +decide [ho]
          have hinner : ∀ s ∈ pwlInnermost (tensorType (shapeOf C SP)) (o ++ "_") i seg,
              s.Plain := by
            simp +decide [pwlInnermost, ho, hi, hseg]
          have hrest := pwlLoop_plain (shapeOf C SP) (o ++ "_") i hp hi
            (o ++ "_" ++ "cr" ++ toString seg.index) rest (by simp +decide [ho, hseg])
          intro s hs
          rcases List.mem_append.mp hs with hs | hs
          · exact (List.mem_append.mp hs).elim (hinner s) (hrest s)
          · rw [List.mem_singleton.mp hs]
            simp +decide [ho, hj] }

end Pwl

/-! ## All emitters -/

section All

/-- The emitters with one operand that take channels and positions. -/
def unaryEmitters : List (ℤ → ℤ → String → String → Outcome (MilFragment F)) :=
  [geluFragment, siluFragment, softmaxFragment, avgPoolFragment, maxPoolFragment,
    reduceProdFragment, negFragment, sinhFragment, coshFragment, tanFragment, asinFragment,
    acosFragment, sqrtFragment, logFragment, rsqrtFragment, reduceSumFragment,
    reduceMeanFragment, reduceMaxFragment, transposeFragment, reluFragment, tanhFragment,
    sigmoidFragment, hardswishFragment, leakyReluFragment, eluFragment]

/-- The emitters with two operands. -/
def binaryEmitters : List (ℤ → ℤ → String → String → String → Outcome (MilFragment F)) :=
  [addFragment, mulFragment, subFragment, realDivFragment, modFragment, logicalAndFragment,
    logicalOrFragment, logicalXorFragment, gatherDynamicMaskFragment]

/-- The emitters that change the shape. -/
def reshapingEmitters : List (ℤ → ℤ → ℤ → ℤ → String → String → Outcome (MilFragment F)) :=
  [sliceByIndexFragment, reshapeFragment]

lemma unary_emitted : ∀ emit ∈ unaryEmitters, ∀ {C SP i o} {f : MilFragment F},
    emit C SP i o = .ok f → Emitted [i] [] o f := by
  simp only [unaryEmitters, List.forall_mem_cons]
  exact ⟨geluFragment_emitted, siluFragment_emitted, softmaxFragment_emitted,
    unaryFragment_emitted (by decide) (by decide), unaryFragment_emitted (by decide) (by decide),
    reduceProdFragment_emitted, negFragment_emitted,
    hyperbolicFragment_emitted (by decide) (by decide) (by decide),
    hyperbolicFragment_emitted (by decide) (by decide) (by decide), tanFragment_emitted,
    asinFragment_emitted, acosFragment_emitted, unaryFragment_emitted (by decide) (by decide),
    epsilonFragment_emitted (by decide) (by decide),
    epsilonFragment_emitted (by decide) (by decide),
    reduceFragment_emitted (by decide) (by decide), reduceFragment_emitted (by decide) (by decide),
    reduceFragment_emitted (by decide) (by decide), transposeFragment_emitted,
    unaryFragment_emitted (by decide) (by decide), unaryFragment_emitted (by decide) (by decide),
    unaryFragment_emitted (by decide) (by decide), hardswishFragment_emitted,
    leakyReluFragment_emitted, eluFragment_emitted, by simp⟩

lemma binary_emitted : ∀ emit ∈ binaryEmitters, ∀ {C SP i s o} {f : MilFragment F},
    emit C SP i s o = .ok f → Emitted [i, s] [] o f := by
  simp only [binaryEmitters, List.forall_mem_cons]
  exact ⟨binaryFragment_emitted (by decide) (by decide),
    binaryFragment_emitted (by decide) (by decide), binaryFragment_emitted (by decide) (by decide),
    binaryFragment_emitted (by decide) (by decide), modFragment_emitted,
    logicalFragment_emitted (by decide) (by decide),
    logicalFragment_emitted (by decide) (by decide), logicalXorFragment_emitted,
    binaryFragment_emitted (by decide) (by decide), by simp⟩

variable [MilFloat F]

/-- The fragments that the emitters produce, and the names and weight files they are called with. -/
inductive ProducedFrom : List String → MilFragment F → Prop
  | unary {emit C SP i o f} (hemit : emit ∈ unaryEmitters) (h : emit C SP i o = .ok f) :
      ProducedFrom [i, o] f
  | binary {emit C SP i s o f} (hemit : emit ∈ binaryEmitters) (h : emit C SP i s o = .ok f) :
      ProducedFrom [i, s, o] f
  | reshaping {emit inC inSP outC outSP i o f} (hemit : emit ∈ reshapingEmitters)
      (h : emit inC inSP outC outSP i o = .ok f) : ProducedFrom [i, o] f
  | matmul {IC OC SP i o file f} (h : matmulFragment IC OC SP i o file = .ok f) :
      ProducedFrom [i, o, file] f
  | rmsnorm {C SP i o scale f} (h : rmsnormFragment C SP i o scale = .ok f) :
      ProducedFrom [i, o, scale] f
  | layernorm {C SP i o gamma beta f} (h : layernormFragment C SP i o gamma beta = .ok f) :
      ProducedFrom [i, o, gamma, beta] f
  | scatterStaticMask {C SP base updates o mask f}
      (h : scatterStaticMaskFragment C SP base updates o mask = .ok f) :
      ProducedFrom [base, updates, o, mask] f
  | gatherStaticMask {C SP i o mask f} (h : gatherStaticMaskFragment C SP i o mask = .ok f) :
      ProducedFrom [i, o, mask] f
  | concat {in0C in1C SP i s o f} (h : concatFragment in0C in1C SP i s o = .ok f) :
      ProducedFrom [i, s, o] f
  | select {C SP cond x y o f} (h : selectFragment C SP cond x y o = .ok f) :
      ProducedFrom [cond, x, y, o] f
  | pixelShuffle {outC inSP r i o f} (h : pixelShuffleFragment outC inSP r i o = .ok f) :
      ProducedFrom [i, o] f
  | pwlActivation {C SP xMin xMax samples i o f}
      (h : pwlActivationFragment C SP xMin xMax samples i o = .ok f) : ProducedFrom [i, o] f

/-- The fragments that the emitters produce. -/
def Produced (f : MilFragment F) : Prop := ∃ names, ProducedFrom names f

/-- **Every fragment of an emitter keeps the conventions**, for names among those it was called
with. -/
theorem ProducedFrom.emitted {names : List String} {f : MilFragment F}
    (h : ProducedFrom names f) : ∃ ins refs out, Emitted ins refs out f ∧
      out :: ins ++ refs.map Prod.snd ⊆ names := by
  cases h with
  | unary hemit h => exact ⟨_, _, _, unary_emitted _ hemit h, by simp⟩
  | binary hemit h => exact ⟨_, _, _, binary_emitted _ hemit h, by simp⟩
  | reshaping hemit h =>
      simp only [reshapingEmitters, List.mem_cons, List.not_mem_nil, or_false] at hemit
      rcases hemit with rfl | rfl
      · exact ⟨_, _, _, sliceByIndexFragment_emitted h, by simp⟩
      · exact ⟨_, _, _, reshapeFragment_emitted h, by simp⟩
  | matmul h => exact ⟨_, _, _, matmulFragment_emitted h, by simp⟩
  | rmsnorm h => exact ⟨_, _, _, rmsnormFragment_emitted h, by simp⟩
  | layernorm h => exact ⟨_, _, _, layernormFragment_emitted h, by simp⟩
  | scatterStaticMask h => exact ⟨_, _, _, scatterStaticMaskFragment_emitted h, by simp⟩
  | gatherStaticMask h => exact ⟨_, _, _, gatherStaticMaskFragment_emitted h, by simp⟩
  | concat h => exact ⟨_, _, _, concatFragment_emitted h, by simp⟩
  | select h => exact ⟨_, _, _, selectFragment_emitted h, by simp⟩
  | pixelShuffle h => exact ⟨_, _, _, pixelShuffleFragment_emitted h, by simp⟩
  | pwlActivation h => exact ⟨_, _, _, pwlActivationFragment_emitted h, by simp⟩

end All

end Libane
