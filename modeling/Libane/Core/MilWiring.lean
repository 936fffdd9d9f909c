import Libane.Core.Emitted
import Libane.Foundation.Wiring

/-!
# Fragments without names

What an emitter emits, with positions in place of names: the operands are the first positions, and
every statement adds one.  A statement keeps its declared type and its operation, a weight constant
the contents of its file.

* `MilStmt.code` — a statement without names, label and padding.
* `…Wires` — the wirings of the emitters.
* `…_wired` — the emitted fragments have them.
-/

namespace Libane

open MilBuilder StraightLine

/-- An operand without its name. -/
inductive ArgKind where
  | Var
  | Tuple (n : ℕ)
  | Str (text : String)
  deriving DecidableEq, Repr

/-- A right-hand side without names. -/
inductive OpCode (F : Type) where
  | Const (value : MilValue F)
  | Blob (type : MilType) (content : Option (List UInt8))
  | Op (name : String) (args : List (String × ArgKind))

/-- A statement without names. -/
structure MilCode (F : Type) where
  type : MilType
  rhs : OpCode F

def MilArg.kind : MilArg → ArgKind
  | Var _ => .Var
  | Tuple names => .Tuple names.length
  | Str text => .Str text

section Codes

variable {F : Type}

/-- The statement without names, given the contents of the weight files. -/
def MilStmt.code (files : String → Option (List UInt8)) (s : MilStmt F) : MilCode F where
  type := s.type
  rhs := match s.rhs with
    | .Const (.BlobFile type file) => .Blob type (files file)
    | .Const value => .Const value
    | .Op name args => .Op name (args.map fun a => (a.1, a.2.kind))

/-- The statements have this wiring over the given names. -/
abbrev Wired (files : String → Option (List UInt8)) (ins : List String)
    (ws : List (Wire (MilCode F))) (body : List (MilStmt F)) : Prop :=
  WiredAs MilStmt.var MilStmt.operands (MilStmt.code files) ins ws body

/-! ## Wires -/

namespace MilWiring

def const (type : MilType) (value : MilValue F) : Wire (MilCode F) := ⟨⟨type, .Const value⟩, []⟩

def blob (type : MilType) (content : Option (List UInt8)) : Wire (MilCode F) :=
  ⟨⟨type, .Blob type content⟩, []⟩

/-- An operation whose operands are all names. -/
def op (type : MilType) (name : String) (keys : List String) (args : List ℕ) : Wire (MilCode F) :=
  ⟨⟨type, .Op name (keys.map (·, .Var))⟩, args⟩

def cast (type : MilType) (dtype : String) (arg : ℕ) : Wire (MilCode F) :=
  ⟨⟨type, .Op "cast" [("x", .Var), ("dtype", .Str dtype)]⟩, [arg]⟩

/-- `fp16(<text>)`. -/
def number (text : String) : Wire (MilCode F) := const MilBuilder.fp16 (fp16Text text)

section Tables

variable (C SP : ℤ)

def matmulWires (IC OC SP : ℤ) (content : Option (List UInt8)) : List (Wire (MilCode F)) := [
  const (.Scalar "string") (.Str "valid"),
  const (int32Vec 2) (.Int32Tensor [1, 1]),
  const (int32Vec 4) (.Int32Tensor [0, 0, 0, 0]),
  const (int32Vec 2) (.Int32Tensor [1, 1]),
  const int32 (.Int32 1),
  blob (.Tensor "fp16" "," [OC, IC, 1, 1]) content,
  op (tensorType (shapeOf OC SP)) "conv"
    ["dilations", "groups", "pad", "pad_type", "strides", "weight", "x"] [4, 5, 3, 1, 2, 6, 0]]

def rmsnormWires [MilFloat F] (content : Option (List UInt8)) : List (Wire (MilCode F)) :=
  let tt := tensorType (shapeOf C SP)
  let tss := rowType SP
  [op tt "mul" ["x", "y"] [0, 0],
    const (int32Vec 1) (.Int32Tensor [1]),
    const bool (.Boolean true),
    op tss "reduce_sum" ["x", "axes", "keep_dims"] [1, 2, 3],
    const MilBuilder.fp16 (.Fp16 (.General 10 (MilFloat.ofInt 1 / MilFloat.ofInt C))),
    op tss "mul" ["x", "y"] [4, 5],
    number "9.765625e-4",
    op tss "add" ["x", "y"] [6, 7],
    number "-0.5",
    op tss "pow" ["x", "y"] [8, 9],
    op tt "mul" ["x", "y"] [0, 10],
    blob (columnType C) content,
    op tt "mul" ["x", "y"] [11, 12]]

def layernormWires [MilFloat F] (gamma beta : Option (List UInt8)) : List (Wire (MilCode F)) :=
  let tss := rowType SP
  let tc : MilType := .Tensor "fp16" "," [1, C, 1, SP]
  [const (int32Vec 1) (.Int32Tensor [1]),
    const bool (.Boolean true),
    op tss "reduce_mean" ["x", "axes", "keep_dims"] [0, 1, 2],
    op tc "sub" ["x", "y"] [0, 3],
    op tc "mul" ["x", "y"] [4, 4],
    op tss "reduce_mean" ["x", "axes", "keep_dims"] [5, 1, 2],
    const MilBuilder.fp16 (.Fp16 (.General 6 (MilFloat.ofBits 0x3727C5AC))),
    op tss "add" ["x", "y"] [6, 7],
    number "-0.5",
    op tss "pow" ["x", "y"] [8, 9],
    op tc "mul" ["x", "y"] [4, 10],
    blob (columnType C) gamma,
    op tc "mul" ["x", "y"] [11, 12],
    blob (columnType C) beta,
    op tc "add" ["x", "y"] [13, 14]]

def scatterStaticMaskWires (content : Option (List UInt8)) : List (Wire (MilCode F)) :=
  let tt := tensorType (shapeOf C SP)
  [blob tt content,
    number "1.0",
    op tt "sub" ["x", "y"] [3, 2],
    op tt "mul" ["x", "y"] [0, 4],
    op tt "mul" ["x", "y"] [1, 2],
    op tt "add" ["x", "y"] [5, 6]]

def gatherStaticMaskWires (content : Option (List UInt8)) : List (Wire (MilCode F)) :=
  let tt := tensorType (shapeOf C SP)
  [blob tt content, op tt "mul" ["x", "y"] [0, 1]]

def unaryWires (name : String) : List (Wire (MilCode F)) :=
  [op (tensorType (shapeOf C SP)) name ["x"] [0]]

def epsilonWires (name : String) : List (Wire (MilCode F)) :=
  [number "0x1.0cp-17", op (tensorType (shapeOf C SP)) name ["epsilon", "x"] [1, 0]]

def binaryWires (name : String) : List (Wire (MilCode F)) :=
  [op (tensorType (shapeOf C SP)) name ["x", "y"] [0, 1]]

def geluWires : List (Wire (MilCode F)) :=
  let tt := tensorType (shapeOf C SP)
  [op tt "mul" ["x", "y"] [0, 0],
    op tt "mul" ["x", "y"] [1, 0],
    number "0.044715",
    op tt "mul" ["x", "y"] [2, 3],
    op tt "add" ["x", "y"] [0, 4],
    number "0.7979",
    op tt "mul" ["x", "y"] [5, 6],
    op tt "tanh" ["x"] [7],
    number "1.0",
    op tt "add" ["x", "y"] [8, 9],
    number "0.5",
    op tt "mul" ["x", "y"] [0, 11],
    op tt "mul" ["x", "y"] [12, 10]]

def siluWires : List (Wire (MilCode F)) :=
  let tt := tensorType (shapeOf C SP)
  [op tt "sigmoid" ["x"] [0], op tt "mul" ["x", "y"] [0, 1]]

def softmaxWires : List (Wire (MilCode F)) :=
  [const int32 (.Int32 1), op (tensorType (shapeOf C SP)) "softmax" ["axis", "x"] [1, 0]]

def negWires : List (Wire (MilCode F)) :=
  [number "-1.0", op (tensorType (shapeOf C SP)) "mul" ["x", "y"] [0, 1]]

def modWires : List (Wire (MilCode F)) :=
  let tt := tensorType (shapeOf C SP)
  [op tt "floor_div" ["x", "y"] [0, 1],
    op tt "mul" ["x", "y"] [2, 1],
    op tt "sub" ["x", "y"] [0, 3]]

def hyperbolicWires (comb : String) : List (Wire (MilCode F)) :=
  let tt := tensorType (shapeOf C SP)
  [number "-1.0",
    number "0.5",
    op tt "mul" ["x", "y"] [0, 1],
    op tt "exp" ["x"] [0],
    op tt "exp" ["x"] [3],
    op tt comb ["x", "y"] [4, 5],
    op tt "mul" ["x", "y"] [6, 2]]

def tanWires : List (Wire (MilCode F)) :=
  let tt := tensorType (shapeOf C SP)
  [number "0x1.0cp-17",
    op tt "sin" ["x"] [0],
    op tt "cos" ["x"] [0],
    op tt "add" ["x", "y"] [3, 1],
    op tt "real_div" ["x", "y"] [2, 4]]

/-- `arcRatio`, its first constant standing at position `b`. -/
def arcRatioWires (tt : MilType) (b : ℕ) : List (Wire (MilCode F)) := [
  number "1.0",
  number "0x1.0cp-17",
  op tt "mul" ["x", "y"] [0, 0],
  op tt "sub" ["x", "y"] [b, b + 2],
  op tt "add" ["x", "y"] [b + 3, b + 1],
  op tt "sqrt" ["x"] [b + 4],
  op tt "real_div" ["x", "y"] [0, b + 5]]

def asinWires : List (Wire (MilCode F)) :=
  let tt := tensorType (shapeOf C SP)
  arcRatioWires tt 1 ++ [op tt "atan" ["x"] [7]]

def acosWires : List (Wire (MilCode F)) :=
  let tt := tensorType (shapeOf C SP)
  number "1.5703125" :: arcRatioWires tt 2 ++
    [op tt "atan" ["x"] [8], op tt "sub" ["x", "y"] [1, 9]]

def boolCastsWires (s : TensorShape) : List (Wire (MilCode F)) :=
  [cast (boolType s) "bool" 0,
    cast (boolType s) "bool" 1,
    cast (tensorType s) "fp16" 2,
    cast (tensorType s) "fp16" 3]

def logicalWires (name : String) : List (Wire (MilCode F)) :=
  boolCastsWires (shapeOf C SP) ++ [op (tensorType (shapeOf C SP)) name ["x", "y"] [4, 5]]

def logicalXorWires : List (Wire (MilCode F)) :=
  boolCastsWires (shapeOf C SP) ++
    [op (boolType (shapeOf C SP)) "not_equal" ["x", "y"] [4, 5],
      cast (tensorType (shapeOf C SP)) "fp16" 6]

def selectWires : List (Wire (MilCode F)) :=
  [cast (boolType (shapeOf C SP)) "bool" 0,
    op (tensorType (shapeOf C SP)) "select" ["cond", "a", "b"] [3, 1, 2]]

def reduceProdWires : List (Wire (MilCode F)) :=
  let tin := tensorType (shapeOf C SP)
  let tout := tensorType (shapeOf 1 SP)
  [number "0x1.0cp-17",
    op tin "add" ["x", "y"] [0, 1],
    op tin "log" ["x", "epsilon"] [2, 1],
    const (int32Vec 1) (.Int32Tensor [1]),
    const bool (.Boolean true),
    op tout "reduce_sum" ["x", "axes", "keep_dims"] [3, 4, 5],
    op tout "exp" ["x"] [6]]

def transposeWires : List (Wire (MilCode F)) :=
  [const (int32Vec 4) (.Int32Tensor [0, 3, 2, 1]),
    op (tensorType (shapeOf SP C)) "transpose" ["perm", "x"] [1, 0]]

end Tables

/-! ## Emitted fragments have them -/

section Fragments

variable {files : String → Option (List UInt8)} {C SP : ℤ} {i s o file : String} {f : MilFragment F}

lemma matmul_wired {IC OC : ℤ} (h : matmulFragment IC OC SP i o file = .ok f) :
    Wired files [i] (matmulWires IC OC SP (files file)) f.body := by
  obtain ⟨-, rfl⟩ := checked_eq_ok_iff.mp h
  exact wiredAs_of_positions rfl rfl rfl rfl

lemma rmsnorm_wired [MilFloat F] (h : rmsnormFragment C SP i o file = .ok f) :
    Wired files [i] (rmsnormWires C SP (files file)) f.body := by
  obtain ⟨-, rfl⟩ := checked_eq_ok_iff.mp h
  exact wiredAs_of_positions rfl rfl rfl rfl

lemma layernorm_wired [MilFloat F] {beta : String}
    (h : layernormFragment C SP i o file beta = .ok f) :
    Wired files [i] (layernormWires C SP (files file) (files beta)) f.body := by
  obtain ⟨-, rfl⟩ := checked_eq_ok_iff.mp h
  exact wiredAs_of_positions rfl rfl rfl rfl

lemma scatterStaticMask_wired (h : scatterStaticMaskFragment C SP i s o file = .ok f) :
    Wired files [i, s] (scatterStaticMaskWires C SP (files file)) f.body := by
  obtain ⟨-, rfl⟩ := checked_eq_ok_iff.mp h
  exact wiredAs_of_positions rfl rfl rfl rfl

lemma gatherStaticMask_wired (h : gatherStaticMaskFragment C SP i o file = .ok f) :
    Wired files [i] (gatherStaticMaskWires C SP (files file)) f.body := by
  obtain ⟨-, rfl⟩ := checked_eq_ok_iff.mp h
  exact wiredAs_of_positions rfl rfl rfl rfl

lemma unary_wired {name label : String} (h : unaryFragment name label C SP i o = .ok f) :
    Wired files [i] (unaryWires C SP name) f.body := by
  obtain ⟨-, rfl⟩ := checked_eq_ok_iff.mp h
  exact wiredAs_of_positions rfl rfl rfl rfl

lemma epsilon_wired {name label : String} (h : epsilonFragment name label C SP i o = .ok f) :
    Wired files [i] (epsilonWires C SP name) f.body := by
  obtain ⟨-, rfl⟩ := checked_eq_ok_iff.mp h
  exact wiredAs_of_positions rfl rfl rfl rfl

lemma binary_wired {name label : String} (h : binaryFragment name label C SP i s o = .ok f) :
    Wired files [i, s] (binaryWires C SP name) f.body := by
  obtain ⟨-, rfl⟩ := checked_eq_ok_iff.mp h
  exact wiredAs_of_positions rfl rfl rfl rfl

lemma gelu_wired (h : geluFragment C SP i o = .ok f) :
    Wired files [i] (geluWires C SP) f.body := by
  obtain ⟨-, rfl⟩ := checked_eq_ok_iff.mp h
  exact wiredAs_of_positions rfl rfl rfl rfl

lemma silu_wired (h : siluFragment C SP i o = .ok f) :
    Wired files [i] (siluWires C SP) f.body := by
  obtain ⟨-, rfl⟩ := checked_eq_ok_iff.mp h
  exact wiredAs_of_positions rfl rfl rfl rfl

lemma softmax_wired (h : softmaxFragment C SP i o = .ok f) :
    Wired files [i] (softmaxWires C SP) f.body := by
  obtain ⟨-, rfl⟩ := checked_eq_ok_iff.mp h
  exact wiredAs_of_positions rfl rfl rfl rfl

lemma neg_wired (h : negFragment C SP i o = .ok f) :
    Wired files [i] (negWires C SP) f.body := by
  obtain ⟨-, rfl⟩ := checked_eq_ok_iff.mp h
  exact wiredAs_of_positions rfl rfl rfl rfl

lemma mod_wired (h : modFragment C SP i s o = .ok f) :
    Wired files [i, s] (modWires C SP) f.body := by
  obtain ⟨-, rfl⟩ := checked_eq_ok_iff.mp h
  exact wiredAs_of_positions rfl rfl rfl rfl

lemma hyperbolic_wired {comb tmp : String} (h : hyperbolicFragment comb tmp C SP i o = .ok f) :
    Wired files [i] (hyperbolicWires C SP comb) f.body := by
  obtain ⟨-, rfl⟩ := checked_eq_ok_iff.mp h
  exact wiredAs_of_positions rfl rfl rfl rfl

lemma tan_wired (h : tanFragment C SP i o = .ok f) :
    Wired files [i] (tanWires C SP) f.body := by
  obtain ⟨-, rfl⟩ := checked_eq_ok_iff.mp h
  exact wiredAs_of_positions rfl rfl rfl rfl

lemma asin_wired (h : asinFragment C SP i o = .ok f) :
    Wired files [i] (asinWires C SP) f.body := by
  obtain ⟨-, rfl⟩ := checked_eq_ok_iff.mp h
  exact wiredAs_of_positions rfl rfl rfl rfl

lemma acos_wired (h : acosFragment C SP i o = .ok f) :
    Wired files [i] (acosWires C SP) f.body := by
  obtain ⟨-, rfl⟩ := checked_eq_ok_iff.mp h
  exact wiredAs_of_positions rfl rfl rfl rfl

lemma logical_wired {name label : String} (h : logicalFragment name label C SP i s o = .ok f) :
    Wired files [i, s] (logicalWires C SP name) f.body := by
  obtain ⟨-, rfl⟩ := checked_eq_ok_iff.mp h
  exact wiredAs_of_positions rfl rfl rfl rfl

lemma logicalXor_wired (h : logicalXorFragment C SP i s o = .ok f) :
    Wired files [i, s] (logicalXorWires C SP) f.body := by
  obtain ⟨-, rfl⟩ := checked_eq_ok_iff.mp h
  exact wiredAs_of_positions rfl rfl rfl rfl

lemma select_wired {x y : String} (h : selectFragment C SP i x y o = .ok f) :
    Wired files [i, x, y] (selectWires C SP) f.body := by
  obtain ⟨-, rfl⟩ := checked_eq_ok_iff.mp h
  exact wiredAs_of_positions rfl rfl rfl rfl

lemma reduceProd_wired (h : reduceProdFragment C SP i o = .ok f) :
    Wired files [i] (reduceProdWires C SP) f.body := by
  obtain ⟨-, rfl⟩ := checked_eq_ok_iff.mp h
  exact wiredAs_of_positions rfl rfl rfl rfl

lemma transpose_wired (h : transposeFragment C SP i o = .ok f) :
    Wired files [i] (transposeWires C SP) f.body := by
  obtain ⟨-, rfl⟩ := checked_eq_ok_iff.mp h
  exact wiredAs_of_positions rfl rfl rfl rfl

end Fragments

end MilWiring

end Codes

end Libane
