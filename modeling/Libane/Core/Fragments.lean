import Libane.Core.MilText

/-!
# Fragment emitters

The `*_fragment` functions of `mil_builder.cpp`, one for each way the graph compiler lowers a
node.  Each checks the shapes it is given, in the order of the source, and then returns its
statements: constants and temporaries under names that start with `out_var + "_"`, the result
under `out_var` itself.

Emitters that differ in one operation or one label only are instances of a common definition.
-/

namespace Libane

namespace MilBuilder

open MilFloat

variable {F : Type}

/-! ## Building blocks -/

/-- A constant.  It is labelled with its own name. -/
def const (type : MilType) (var : String) (value : MilValue F) (pad : ℕ := 0) : MilStmt F :=
  { type, var, rhs := .Const value, label := var, pad }

/-- An operation. -/
def op (type : MilType) (var name : String) (args : List (String × MilArg)) (label : String)
    (pad : ℕ := 0) : MilStmt F :=
  { type, var, rhs := .Op name args, label, pad }

/-- An operand `name=var`. -/
def arg (name var : String) : String × MilArg := (name, .Var var)

def fp16 : MilType := .Scalar "fp16"
def int32 : MilType := .Scalar "int32"
def bool : MilType := .Scalar "bool"

/-- The type of a one-dimensional integer constant. -/
def int32Vec (n : ℤ) : MilType := .Tensor "int32" ", " [n]

/-- `fp16(<text>)`, the text being one of the source. -/
def fp16Text (text : String) : MilValue F := .Fp16 (.Text text)

/-- `tensor<bool, [1, C, 1, S]>`. -/
def boolType (s : TensorShape) : MilType := .Tensor "bool" ", " [1, s.channels, 1, s.seq]

/-- `tensor<fp16, [1,1,1,S]>`. -/
def rowType (seq : ℤ) : MilType := .Tensor "fp16" "," [1, 1, 1, seq]

/-- `tensor<fp16, [1,C,1,1]>`. -/
def columnType (channels : ℤ) : MilType := .Tensor "fp16" "," [1, channels, 1, 1]

/-- `[1, C, 1, S]`. -/
def shapeOf (channels seq : ℤ) : TensorShape := ⟨1, channels, 1, seq⟩

/-- The `validate` calls of an emitter, then its fragment. -/
def checked : List TensorShape → MilFragment F → Outcome (MilFragment F)
  | [], f => .ok f
  | s :: rest, f => do
      s.validate
      checked rest f

lemma checked_eq_ok_iff {shapes : List TensorShape} {f f' : MilFragment F} :
    checked shapes f = .ok f' ↔ (∀ s ∈ shapes, s.Valid) ∧ f = f' := by
  induction shapes with
  | nil => simp [checked]
  | cons s rest ih =>
      rcases s.validate_cases with h | ⟨what, h⟩
      · have hs := TensorShape.validate_eq_ok_iff.mp h
        have hgo : checked (s :: rest) f = checked rest f := by
          rw [checked, h]
          rfl
        rw [hgo, ih]
        simp [hs]
      · have hstop : checked (s :: rest) f = .error (.InvalidArgument what) := by
          rw [checked, h]
          rfl
        have hs : ¬ s.Valid := fun hv => by
          rw [TensorShape.validate_eq_ok_iff.mpr hv] at h
          cases h
        rw [hstop]
        simp [hs]

/-! ## Operations with weights -/

def matmulFragment (IC OC SP : ℤ) (inVar outVar weightFile : String) : Outcome (MilFragment F) :=
  let p := outVar ++ "_"
  let wtype : MilType := .Tensor "fp16" "," [OC, IC, 1, 1]
  checked [shapeOf IC SP, shapeOf OC SP] {
    body := [
      const (.Scalar "string") (p ++ "pt") (.Str "valid"),
      const (int32Vec 2) (p ++ "st") (.Int32Tensor [1, 1]),
      const (int32Vec 4) (p ++ "pd") (.Int32Tensor [0, 0, 0, 0]),
      const (int32Vec 2) (p ++ "dl") (.Int32Tensor [1, 1]),
      const int32 (p ++ "gr") (.Int32 1),
      const wtype (p ++ "W") (.BlobFile wtype weightFile),
      op (tensorType (shapeOf OC SP)) outVar "conv"
        [arg "dilations" (p ++ "dl"), arg "groups" (p ++ "gr"), arg "pad" (p ++ "pd"),
          arg "pad_type" (p ++ "pt"), arg "strides" (p ++ "st"), arg "weight" (p ++ "W"),
          arg "x" inVar] (p ++ "conv")]
    inputName := inVar
    outputName := outVar
    weightFile
    outputShape := shapeOf OC SP }

def rmsnormFragment [MilFloat F] (C SP : ℤ) (inVar outVar scaleFile : String) :
    Outcome (MilFragment F) :=
  let p := outVar ++ "_"
  let tt := tensorType (shapeOf C SP)
  let tss := rowType SP
  let invC : F := ofInt 1 / ofInt C
  checked [shapeOf C SP] {
    body := [
      op tt (p ++ "sq") "mul" [arg "x" inVar, arg "y" inVar] (p ++ "sq"),
      const (int32Vec 1) (p ++ "ax") (.Int32Tensor [1]),
      const bool (p ++ "kd") (.Boolean true),
      op tss (p ++ "ss") "reduce_sum"
        [arg "x" (p ++ "sq"), arg "axes" (p ++ "ax"), arg "keep_dims" (p ++ "kd")] (p ++ "ss"),
      const fp16 (p ++ "invd") (.Fp16 (.General 10 invC)),
      op tss (p ++ "ms") "mul" [arg "x" (p ++ "ss"), arg "y" (p ++ "invd")] (p ++ "ms"),
      const fp16 (p ++ "eps") (fp16Text "9.765625e-4"),
      op tss (p ++ "mse") "add" [arg "x" (p ++ "ms"), arg "y" (p ++ "eps")] (p ++ "mse"),
      const fp16 (p ++ "nh") (fp16Text "-0.5"),
      op tss (p ++ "rr") "pow" [arg "x" (p ++ "mse"), arg "y" (p ++ "nh")] (p ++ "rr"),
      op tt (p ++ "xr") "mul" [arg "x" inVar, arg "y" (p ++ "rr")] (p ++ "xr"),
      const (columnType C) (p ++ "w") (.BlobFile (columnType C) scaleFile),
      op tt outVar "mul" [arg "x" (p ++ "xr"), arg "y" (p ++ "w")] (p ++ "out")]
    inputName := inVar
    outputName := outVar
    weightFile := scaleFile
    outputShape := shapeOf C SP }

/-- `layernorm_fragment` with its default `eps`, `1e-5f`. -/
def layernormFragment [MilFloat F] (C SP : ℤ) (inVar outVar gammaFile betaFile : String) :
    Outcome (MilFragment F) :=
  let p := outVar ++ "_"
  let tss := rowType SP
  let tc : MilType := .Tensor "fp16" "," [1, C, 1, SP]
  let tw := columnType C
  let eps : F := ofBits 0x3727C5AC
  checked [shapeOf C SP] {
    body := [
      const (int32Vec 1) (p ++ "ax") (.Int32Tensor [1]),
      const bool (p ++ "kd") (.Boolean true),
      op tss (p ++ "mean") "reduce_mean"
        [arg "x" inVar, arg "axes" (p ++ "ax"), arg "keep_dims" (p ++ "kd")] (p ++ "mean"),
      op tc (p ++ "cent") "sub" [arg "x" inVar, arg "y" (p ++ "mean")] (p ++ "cent"),
      op tc (p ++ "sq") "mul" [arg "x" (p ++ "cent"), arg "y" (p ++ "cent")] (p ++ "sq"),
      op tss (p ++ "var") "reduce_mean"
        [arg "x" (p ++ "sq"), arg "axes" (p ++ "ax"), arg "keep_dims" (p ++ "kd")] (p ++ "var"),
      const fp16 (p ++ "eps") (.Fp16 (.General 6 eps)),
      op tss (p ++ "veps") "add" [arg "x" (p ++ "var"), arg "y" (p ++ "eps")] (p ++ "veps"),
      const fp16 (p ++ "nh") (fp16Text "-0.5"),
      op tss (p ++ "rstd") "pow" [arg "x" (p ++ "veps"), arg "y" (p ++ "nh")] (p ++ "rstd"),
      op tc (p ++ "norm") "mul" [arg "x" (p ++ "cent"), arg "y" (p ++ "rstd")] (p ++ "norm"),
      const tw (p ++ "g") (.BlobFile tw gammaFile),
      op tc (p ++ "sc") "mul" [arg "x" (p ++ "norm"), arg "y" (p ++ "g")] (p ++ "sc"),
      const tw (p ++ "beta") (.BlobFile tw betaFile),
      op tc outVar "add" [arg "x" (p ++ "sc"), arg "y" (p ++ "beta")] (p ++ "out")]
    inputName := inVar
    outputName := outVar
    weightFile := gammaFile
    outputShape := shapeOf C SP }

def scatterStaticMaskFragment (C SP : ℤ) (baseVar updatesVar outVar maskFile : String) :
    Outcome (MilFragment F) :=
  let p := outVar ++ "_"
  let tt := tensorType (shapeOf C SP)
  checked [shapeOf C SP] {
    body := [
      const tt (p ++ "m") (.BlobFile tt maskFile),
      const fp16 (p ++ "one") (fp16Text "1.0"),
      op tt (p ++ "inv") "sub" [arg "x" (p ++ "one"), arg "y" (p ++ "m")] (p ++ "inv"),
      op tt (p ++ "xb") "mul" [arg "x" baseVar, arg "y" (p ++ "inv")] (p ++ "xb"),
      op tt (p ++ "uu") "mul" [arg "x" updatesVar, arg "y" (p ++ "m")] (p ++ "uu"),
      op tt outVar "add" [arg "x" (p ++ "xb"), arg "y" (p ++ "uu")] (p ++ "out")]
    inputName := baseVar
    sideInputName := updatesVar
    outputName := outVar
    weightFile := maskFile
    outputShape := shapeOf C SP }

def gatherStaticMaskFragment (C SP : ℤ) (inVar outVar maskFile : String) :
    Outcome (MilFragment F) :=
  let p := outVar ++ "_"
  let tt := tensorType (shapeOf C SP)
  checked [shapeOf C SP] {
    body := [
      const tt (p ++ "m") (.BlobFile tt maskFile),
      op tt outVar "mul" [arg "x" inVar, arg "y" (p ++ "m")] (p ++ "out")]
    inputName := inVar
    outputName := outVar
    weightFile := maskFile
    outputShape := shapeOf C SP }

/-! ## One statement, one operand -/

/-- `out = name(x=in)`. -/
def unaryFragment (name label : String) (C SP : ℤ) (inVar outVar : String) :
    Outcome (MilFragment F) :=
  checked [shapeOf C SP] {
    body := [op (tensorType (shapeOf C SP)) outVar name [arg "x" inVar] (outVar ++ "_" ++ label)]
    inputName := inVar
    outputName := outVar
    outputShape := shapeOf C SP }

def avgPoolFragment (C SP : ℤ) (inVar outVar : String) : Outcome (MilFragment F) :=
  unaryFragment "identity" "avg_pool_lowered" C SP inVar outVar

def maxPoolFragment (C SP : ℤ) (inVar outVar : String) : Outcome (MilFragment F) :=
  unaryFragment "identity" "max_pool_lowered" C SP inVar outVar

def sqrtFragment (C SP : ℤ) (inVar outVar : String) : Outcome (MilFragment F) :=
  unaryFragment "sqrt" "sqrt" C SP inVar outVar

def reluFragment (C SP : ℤ) (inVar outVar : String) : Outcome (MilFragment F) :=
  unaryFragment "relu" "relu" C SP inVar outVar

def tanhFragment (C SP : ℤ) (inVar outVar : String) : Outcome (MilFragment F) :=
  unaryFragment "tanh" "tanh" C SP inVar outVar

def sigmoidFragment (C SP : ℤ) (inVar outVar : String) : Outcome (MilFragment F) :=
  unaryFragment "sigmoid" "sig" C SP inVar outVar

/-- `out = name(epsilon=eps, x=in)`. -/
def epsilonFragment (name label : String) (C SP : ℤ) (inVar outVar : String) :
    Outcome (MilFragment F) :=
  let p := outVar ++ "_"
  checked [shapeOf C SP] {
    body := [
      const fp16 (p ++ "eps") (fp16Text "0x1.0cp-17"),
      op (tensorType (shapeOf C SP)) outVar name [arg "epsilon" (p ++ "eps"), arg "x" inVar]
        (p ++ label)]
    inputName := inVar
    outputName := outVar
    outputShape := shapeOf C SP }

def logFragment (C SP : ℤ) (inVar outVar : String) : Outcome (MilFragment F) :=
  epsilonFragment "log" "log" C SP inVar outVar

def rsqrtFragment (C SP : ℤ) (inVar outVar : String) : Outcome (MilFragment F) :=
  epsilonFragment "rsqrt" "rsqrt" C SP inVar outVar

/-! ## One statement, two operands -/

/-- `out = name(x=in, y=side)`. -/
def binaryFragment (name label : String) (C SP : ℤ) (inVar sideVar outVar : String) :
    Outcome (MilFragment F) :=
  checked [shapeOf C SP] {
    body := [op (tensorType (shapeOf C SP)) outVar name [arg "x" inVar, arg "y" sideVar]
      (outVar ++ "_" ++ label)]
    inputName := inVar
    sideInputName := sideVar
    outputName := outVar
    outputShape := shapeOf C SP }

def addFragment (C SP : ℤ) (inVar sideVar outVar : String) : Outcome (MilFragment F) :=
  binaryFragment "add" "add" C SP inVar sideVar outVar

def mulFragment (C SP : ℤ) (inVar sideVar outVar : String) : Outcome (MilFragment F) :=
  binaryFragment "mul" "mul" C SP inVar sideVar outVar

def subFragment (C SP : ℤ) (inVar sideVar outVar : String) : Outcome (MilFragment F) :=
  binaryFragment "sub" "sub" C SP inVar sideVar outVar

def realDivFragment (C SP : ℤ) (inVar sideVar outVar : String) : Outcome (MilFragment F) :=
  binaryFragment "real_div" "rdiv" C SP inVar sideVar outVar

def gatherDynamicMaskFragment (C SP : ℤ) (inVar maskVar outVar : String) :
    Outcome (MilFragment F) :=
  binaryFragment "mul" "out" C SP inVar maskVar outVar

/-! ## Activations and elementwise functions -/

def geluFragment (C SP : ℤ) (inVar outVar : String) : Outcome (MilFragment F) :=
  let p := outVar ++ "_"
  let tt := tensorType (shapeOf C SP)
  checked [shapeOf C SP] {
    body := [
      op tt (p ++ "x2") "mul" [arg "x" inVar, arg "y" inVar] (p ++ "x2"),
      op tt (p ++ "x3") "mul" [arg "x" (p ++ "x2"), arg "y" inVar] (p ++ "x3"),
      const fp16 (p ++ "c1") (fp16Text "0.044715"),
      op tt (p ++ "cx3") "mul" [arg "x" (p ++ "x3"), arg "y" (p ++ "c1")] (p ++ "cx3"),
      op tt (p ++ "inn") "add" [arg "x" inVar, arg "y" (p ++ "cx3")] (p ++ "inn"),
      const fp16 (p ++ "c2") (fp16Text "0.7979"),
      op tt (p ++ "sc") "mul" [arg "x" (p ++ "inn"), arg "y" (p ++ "c2")] (p ++ "sc"),
      op tt (p ++ "th") "tanh" [arg "x" (p ++ "sc")] (p ++ "th"),
      const fp16 (p ++ "one") (fp16Text "1.0"),
      op tt (p ++ "onep") "add" [arg "x" (p ++ "th"), arg "y" (p ++ "one")] (p ++ "onep"),
      const fp16 (p ++ "half") (fp16Text "0.5"),
      op tt (p ++ "hx") "mul" [arg "x" inVar, arg "y" (p ++ "half")] (p ++ "hx"),
      op tt outVar "mul" [arg "x" (p ++ "hx"), arg "y" (p ++ "onep")] (p ++ "gelu")]
    inputName := inVar
    outputName := outVar
    outputShape := shapeOf C SP }

def siluFragment (C SP : ℤ) (inVar outVar : String) : Outcome (MilFragment F) :=
  let p := outVar ++ "_"
  let tt := tensorType (shapeOf C SP)
  checked [shapeOf C SP] {
    body := [
      op tt (p ++ "sig") "sigmoid" [arg "x" inVar] (p ++ "sig"),
      op tt outVar "mul" [arg "x" inVar, arg "y" (p ++ "sig")] (p ++ "silu")]
    inputName := inVar
    outputName := outVar
    outputShape := shapeOf C SP }

def softmaxFragment (C SP : ℤ) (inVar outVar : String) : Outcome (MilFragment F) :=
  let p := outVar ++ "_"
  checked [shapeOf C SP] {
    body := [
      const int32 (p ++ "sax") (.Int32 1),
      op (tensorType (shapeOf C SP)) outVar "softmax" [arg "axis" (p ++ "sax"), arg "x" inVar]
        (p ++ "sm")]
    inputName := inVar
    outputName := outVar
    outputShape := shapeOf C SP }

def negFragment (C SP : ℤ) (inVar outVar : String) : Outcome (MilFragment F) :=
  let p := outVar ++ "_"
  checked [shapeOf C SP] {
    body := [
      const fp16 (p ++ "n1") (fp16Text "-1.0"),
      op (tensorType (shapeOf C SP)) outVar "mul" [arg "x" inVar, arg "y" (p ++ "n1")]
        (p ++ "out")]
    inputName := inVar
    outputName := outVar
    outputShape := shapeOf C SP }

def modFragment (C SP : ℤ) (inVar sideVar outVar : String) : Outcome (MilFragment F) :=
  let p := outVar ++ "_"
  let tt := tensorType (shapeOf C SP)
  checked [shapeOf C SP] {
    body := [
      op tt (p ++ "q") "floor_div" [arg "x" inVar, arg "y" sideVar] (p ++ "q"),
      op tt (p ++ "qy") "mul" [arg "x" (p ++ "q"), arg "y" sideVar] (p ++ "qy"),
      op tt outVar "sub" [arg "x" inVar, arg "y" (p ++ "qy")] (p ++ "out")]
    inputName := inVar
    sideInputName := sideVar
    outputName := outVar
    outputShape := shapeOf C SP }

/-- `sinh` and `cosh`: `comb` combines `exp x` and `exp (-x)` under the name `tmp`. -/
def hyperbolicFragment (comb tmp : String) (C SP : ℤ) (inVar outVar : String) :
    Outcome (MilFragment F) :=
  let p := outVar ++ "_"
  let tt := tensorType (shapeOf C SP)
  checked [shapeOf C SP] {
    body := [
      const fp16 (p ++ "n1") (fp16Text "-1.0"),
      const fp16 (p ++ "h") (fp16Text "0.5"),
      op tt (p ++ "nx") "mul" [arg "x" inVar, arg "y" (p ++ "n1")] (p ++ "nx"),
      op tt (p ++ "ex") "exp" [arg "x" inVar] (p ++ "ex"),
      op tt (p ++ "enx") "exp" [arg "x" (p ++ "nx")] (p ++ "enx"),
      op tt (p ++ tmp) comb [arg "x" (p ++ "ex"), arg "y" (p ++ "enx")] (p ++ tmp),
      op tt outVar "mul" [arg "x" (p ++ tmp), arg "y" (p ++ "h")] (p ++ "out")]
    inputName := inVar
    outputName := outVar
    outputShape := shapeOf C SP }

def sinhFragment (C SP : ℤ) (inVar outVar : String) : Outcome (MilFragment F) :=
  hyperbolicFragment "sub" "d" C SP inVar outVar

def coshFragment (C SP : ℤ) (inVar outVar : String) : Outcome (MilFragment F) :=
  hyperbolicFragment "add" "s" C SP inVar outVar

def tanFragment (C SP : ℤ) (inVar outVar : String) : Outcome (MilFragment F) :=
  let p := outVar ++ "_"
  let tt := tensorType (shapeOf C SP)
  checked [shapeOf C SP] {
    body := [
      const fp16 (p ++ "eps") (fp16Text "0x1.0cp-17"),
      op tt (p ++ "sx") "sin" [arg "x" inVar] (p ++ "sx"),
      op tt (p ++ "cx") "cos" [arg "x" inVar] (p ++ "cx"),
      op tt (p ++ "cxe") "add" [arg "x" (p ++ "cx"), arg "y" (p ++ "eps")] (p ++ "cxe"),
      op tt outVar "real_div" [arg "x" (p ++ "sx"), arg "y" (p ++ "cxe")] (p ++ "out")]
    inputName := inVar
    outputName := outVar
    outputShape := shapeOf C SP }

/-- What `asin` and `acos` have in common: `x / sqrt(1 - x * x + eps)` under the name `r`. -/
def arcRatio (tt : MilType) (p inVar : String) : List (MilStmt F) := [
  const fp16 (p ++ "one") (fp16Text "1.0"),
  const fp16 (p ++ "eps") (fp16Text "0x1.0cp-17"),
  op tt (p ++ "xsq") "mul" [arg "x" inVar, arg "y" inVar] (p ++ "xsq"),
  op tt (p ++ "d2") "sub" [arg "x" (p ++ "one"), arg "y" (p ++ "xsq")] (p ++ "d2"),
  op tt (p ++ "d2e") "add" [arg "x" (p ++ "d2"), arg "y" (p ++ "eps")] (p ++ "d2e"),
  op tt (p ++ "d") "sqrt" [arg "x" (p ++ "d2e")] (p ++ "d"),
  op tt (p ++ "r") "real_div" [arg "x" inVar, arg "y" (p ++ "d")] (p ++ "r")]

def asinFragment (C SP : ℤ) (inVar outVar : String) : Outcome (MilFragment F) :=
  let p := outVar ++ "_"
  let tt := tensorType (shapeOf C SP)
  checked [shapeOf C SP] {
    body := arcRatio tt p inVar ++ [
      op tt outVar "atan" [arg "x" (p ++ "r")] (p ++ "out")]
    inputName := inVar
    outputName := outVar
    outputShape := shapeOf C SP }

def acosFragment (C SP : ℤ) (inVar outVar : String) : Outcome (MilFragment F) :=
  let p := outVar ++ "_"
  let tt := tensorType (shapeOf C SP)
  checked [shapeOf C SP] {
    body := const fp16 (p ++ "hp") (fp16Text "1.5703125") :: arcRatio tt p inVar ++ [
      op tt (p ++ "asv") "atan" [arg "x" (p ++ "r")] (p ++ "asv"),
      op tt outVar "sub" [arg "x" (p ++ "hp"), arg "y" (p ++ "asv")] (p ++ "out")]
    inputName := inVar
    outputName := outVar
    outputShape := shapeOf C SP }

/-- `HardSwish`, through `clamp(y, 0, 6) = relu(y) - relu(y - 6)`. -/
def hardswishFragment (C SP : ℤ) (inVar outVar : String) : Outcome (MilFragment F) :=
  let p := outVar ++ "_"
  let tt := tensorType (shapeOf C SP)
  checked [shapeOf C SP] {
    body := [
      const fp16 (p ++ "c3") (fp16Text "3.0") 2,
      const fp16 (p ++ "c6") (fp16Text "6.0") 2,
      const fp16 (p ++ "inv6") (fp16Text "0.16667"),
      op tt (p ++ "sh") "add" [arg "x" inVar, arg "y" (p ++ "c3")] (p ++ "sh") 1,
      op tt (p ++ "r1") "relu" [arg "x" (p ++ "sh")] (p ++ "r1") 1,
      op tt (p ++ "sh2") "add" [arg "x" inVar, arg "y" (p ++ "c3")] (p ++ "sh2"),
      op tt (p ++ "d6") "sub" [arg "x" (p ++ "sh2"), arg "y" (p ++ "c6")] (p ++ "d6") 1,
      op tt (p ++ "r2") "relu" [arg "x" (p ++ "d6")] (p ++ "r2") 1,
      op tt (p ++ "cl") "sub" [arg "x" (p ++ "r1"), arg "y" (p ++ "r2")] (p ++ "cl") 1,
      op tt (p ++ "sc") "mul" [arg "x" (p ++ "cl"), arg "y" (p ++ "inv6")] (p ++ "sc") 1,
      op tt outVar "mul" [arg "x" inVar, arg "y" (p ++ "sc")] (p ++ "hsw")]
    inputName := inVar
    outputName := outVar
    outputShape := shapeOf C SP }

def leakyReluFragment (C SP : ℤ) (inVar outVar : String) : Outcome (MilFragment F) :=
  let p := outVar ++ "_"
  checked [shapeOf C SP] {
    body := [
      const fp16 (p ++ "alpha") (fp16Text "0.01"),
      op (tensorType (shapeOf C SP)) outVar "leaky_relu"
        [arg "alpha" (p ++ "alpha"), arg "x" inVar] (p ++ "lrelu")]
    inputName := inVar
    outputName := outVar
    outputShape := shapeOf C SP }

/-- `ELU` with `alpha = 1`. -/
def eluFragment (C SP : ℤ) (inVar outVar : String) : Outcome (MilFragment F) :=
  let p := outVar ++ "_"
  let tt := tensorType (shapeOf C SP)
  checked [shapeOf C SP] {
    body := [
      const fp16 (p ++ "zero") (fp16Text "0.0"),
      const fp16 (p ++ "one") (fp16Text "1.0") 1,
      op (boolType (shapeOf C SP)) (p ++ "mask") "greater"
        [arg "x" inVar, arg "y" (p ++ "zero")] (p ++ "mask"),
      op tt (p ++ "ex") "exp" [arg "x" inVar] (p ++ "ex") 2,
      op tt (p ++ "em1") "sub" [arg "x" (p ++ "ex"), arg "y" (p ++ "one")] (p ++ "em1") 1,
      op tt outVar "select" [arg "cond" (p ++ "mask"), arg "a" inVar, arg "b" (p ++ "em1")]
        (p ++ "elu")]
    inputName := inVar
    outputName := outVar
    outputShape := shapeOf C SP }

/-! ## Logical operations and selection -/

/-- `cast(x=var, dtype=string("…"))`. -/
def castArgs (var dtype : String) : List (String × MilArg) := [arg "x" var, ("dtype", .Str dtype)]

/-- Both operands cast to `bool` and back. -/
def boolCasts (s : TensorShape) (p inVar sideVar : String) : List (MilStmt F) := [
  op (boolType s) (p ++ "xb") "cast" (castArgs inVar "bool") (p ++ "xb"),
  op (boolType s) (p ++ "yb") "cast" (castArgs sideVar "bool") (p ++ "yb"),
  op (tensorType s) (p ++ "xf") "cast" (castArgs (p ++ "xb") "fp16") (p ++ "xf"),
  op (tensorType s) (p ++ "yf") "cast" (castArgs (p ++ "yb") "fp16") (p ++ "yf")]

/-- `AND` and `OR`: one operation on the casts. -/
def logicalFragment (name label : String) (C SP : ℤ) (inVar sideVar outVar : String) :
    Outcome (MilFragment F) :=
  let p := outVar ++ "_"
  checked [shapeOf C SP] {
    body := boolCasts (shapeOf C SP) p inVar sideVar ++ [
      op (tensorType (shapeOf C SP)) outVar name [arg "x" (p ++ "xf"), arg "y" (p ++ "yf")]
        (p ++ label)]
    inputName := inVar
    sideInputName := sideVar
    outputName := outVar
    outputShape := shapeOf C SP }

def logicalAndFragment (C SP : ℤ) (inVar sideVar outVar : String) : Outcome (MilFragment F) :=
  logicalFragment "mul" "and" C SP inVar sideVar outVar

def logicalOrFragment (C SP : ℤ) (inVar sideVar outVar : String) : Outcome (MilFragment F) :=
  logicalFragment "maximum" "or" C SP inVar sideVar outVar

def logicalXorFragment (C SP : ℤ) (inVar sideVar outVar : String) : Outcome (MilFragment F) :=
  let p := outVar ++ "_"
  checked [shapeOf C SP] {
    body := boolCasts (shapeOf C SP) p inVar sideVar ++ [
      op (boolType (shapeOf C SP)) (p ++ "zb") "not_equal"
        [arg "x" (p ++ "xf"), arg "y" (p ++ "yf")] (p ++ "zb"),
      op (tensorType (shapeOf C SP)) outVar "cast" (castArgs (p ++ "zb") "fp16") (p ++ "xor")]
    inputName := inVar
    sideInputName := sideVar
    outputName := outVar
    outputShape := shapeOf C SP }

def selectFragment (C SP : ℤ) (condVar xVar yVar outVar : String) : Outcome (MilFragment F) :=
  let p := outVar ++ "_"
  checked [shapeOf C SP] {
    body := [
      op (boolType (shapeOf C SP)) (p ++ "cb") "cast" (castArgs condVar "bool") (p ++ "cb"),
      op (tensorType (shapeOf C SP)) outVar "select"
        [arg "cond" (p ++ "cb"), arg "a" xVar, arg "b" yVar] (p ++ "sel")]
    inputName := condVar
    sideInputName := xVar
    outputName := outVar
    outputShape := shapeOf C SP }

/-! ## Reductions -/

def reduceProdFragment (C SP : ℤ) (inVar outVar : String) : Outcome (MilFragment F) :=
  let p := outVar ++ "_"
  let tin := tensorType (shapeOf C SP)
  let tout := tensorType (shapeOf 1 SP)
  checked [shapeOf C SP, shapeOf 1 SP] {
    body := [
      const fp16 (p ++ "eps") (fp16Text "0x1.0cp-17"),
      op tin (p ++ "x") "add" [arg "x" inVar, arg "y" (p ++ "eps")] (p ++ "x"),
      op tin (p ++ "l") "log" [arg "x" (p ++ "x"), arg "epsilon" (p ++ "eps")] (p ++ "l"),
      const (int32Vec 1) (p ++ "ax") (.Int32Tensor [1]),
      const bool (p ++ "kd") (.Boolean true),
      op tout (p ++ "s") "reduce_sum"
        [arg "x" (p ++ "l"), arg "axes" (p ++ "ax"), arg "keep_dims" (p ++ "kd")] (p ++ "s"),
      op tout outVar "exp" [arg "x" (p ++ "s")] (p ++ "out")]
    inputName := inVar
    outputName := outVar
    outputShape := shapeOf 1 SP }

/-- A reduction over the channels.  The channel count of the input is not looked at. -/
def reduceFragment (name label : String) (SP : ℤ) (inVar outVar : String) :
    Outcome (MilFragment F) :=
  let p := outVar ++ "_"
  checked [shapeOf 1 SP] {
    body := [
      const (int32Vec 1) (p ++ "ax") (.Int32Tensor [1]),
      const bool (p ++ "kd") (.Boolean true),
      op (tensorType (shapeOf 1 SP)) outVar name
        [arg "x" inVar, arg "axes" (p ++ "ax"), arg "keep_dims" (p ++ "kd")] (p ++ label)]
    inputName := inVar
    outputName := outVar
    outputShape := shapeOf 1 SP }

def reduceSumFragment (_inC SP : ℤ) (inVar outVar : String) : Outcome (MilFragment F) :=
  reduceFragment "reduce_sum" "rs" SP inVar outVar

def reduceMeanFragment (_inC SP : ℤ) (inVar outVar : String) : Outcome (MilFragment F) :=
  reduceFragment "reduce_mean" "rm" SP inVar outVar

def reduceMaxFragment (_inC SP : ℤ) (inVar outVar : String) : Outcome (MilFragment F) :=
  reduceFragment "reduce_max" "rmax" SP inVar outVar

/-! ## Shape operations -/

def concatFragment (in0C in1C SP : ℤ) (inVar sideVar outVar : String) : Outcome (MilFragment F) :=
  let p := outVar ++ "_"
  checked [shapeOf (in0C + in1C) SP] {
    body := [
      const int32 (p ++ "ax") (.Int32 1),
      const bool (p ++ "id") (.Boolean false),
      op (tensorType (shapeOf (in0C + in1C) SP)) outVar "concat"
        [arg "axis" (p ++ "ax"), arg "interleave" (p ++ "id"), ("values", .Tuple [inVar, sideVar])]
        (p ++ "cat")]
    inputName := inVar
    sideInputName := sideVar
    outputName := outVar
    outputShape := shapeOf (in0C + in1C) SP }

def sliceByIndexFragment (inC inSP outC outSP : ℤ) (inVar outVar : String) :
    Outcome (MilFragment F) := do
  (shapeOf outC outSP).validate
  if outC > inC ∨ outSP > inSP then
    .error (.InvalidArgument "slice_by_index_fragment: output shape must be <= input shape")
  else
    let p := outVar ++ "_"
    checked [] {
      body := [
        const (int32Vec 4) (p ++ "bg") (.Int32Tensor [0, 0, 0, 0]),
        const (int32Vec 4) (p ++ "ed") (.Int32Tensor [1, outC, 1, outSP]),
        const (int32Vec 4) (p ++ "st") (.Int32Tensor [1, 1, 1, 1]),
        op (tensorType (shapeOf outC outSP)) outVar "slice_by_index"
          [arg "begin" (p ++ "bg"), arg "end" (p ++ "ed"), arg "strides" (p ++ "st"),
            arg "x" inVar] (p ++ "sbi")]
      inputName := inVar
      outputName := outVar
      outputShape := shapeOf outC outSP }

def transposeFragment (C SP : ℤ) (inVar outVar : String) : Outcome (MilFragment F) :=
  let p := outVar ++ "_"
  checked [shapeOf C SP, shapeOf SP C] {
    body := [
      const (int32Vec 4) (p ++ "perm") (.Int32Tensor [0, 3, 2, 1]),
      op (tensorType (shapeOf SP C)) outVar "transpose" [arg "perm" (p ++ "perm"), arg "x" inVar]
        (p ++ "tr")]
    inputName := inVar
    outputName := outVar
    outputShape := shapeOf SP C }

def reshapeFragment (inC inSP outC outSP : ℤ) (inVar outVar : String) :
    Outcome (MilFragment F) := do
  (shapeOf inC inSP).validate
  (shapeOf outC outSP).validate
  if (shapeOf inC inSP).numel ≠ (shapeOf outC outSP).numel then
    .error (.InvalidArgument
      "reshape_fragment: input and output must have identical element counts")
  else
    let p := outVar ++ "_"
    checked [] {
      body := [
        const (int32Vec 4) (p ++ "shape") (.Int32Tensor [1, outC, 1, outSP]),
        op (tensorType (shapeOf outC outSP)) outVar "reshape"
          [arg "shape" (p ++ "shape"), arg "x" inVar] (p ++ "rs")]
      inputName := inVar
      outputName := outVar
      outputShape := shapeOf outC outSP }

/-- Depth to space: reshape, transpose, reshape. -/
def pixelShuffleFragment (outC inSP r : ℤ) (inVar outVar : String) : Outcome (MilFragment F) :=
  if r ≤ 0 then
    .error (.InvalidArgument "pixel_shuffle_fragment: upscale_factor must be > 0")
  else
    let p := outVar ++ "_"
    checked [shapeOf (outC * r) inSP, shapeOf outC (inSP * r)] {
      body := [
        const (int32Vec 4) (p ++ "sh1") (.Int32Tensor [1, outC, r, inSP]),
        op (.Tensor "fp16" ", " [1, outC, r, inSP]) (p ++ "r1") "reshape"
          [arg "shape" (p ++ "sh1"), arg "x" inVar] (p ++ "r1"),
        const (int32Vec 4) (p ++ "pm") (.Int32Tensor [0, 1, 3, 2]),
        op (.Tensor "fp16" ", " [1, outC, inSP, r]) (p ++ "tr") "transpose"
          [arg "perm" (p ++ "pm"), arg "x" (p ++ "r1")] (p ++ "tr"),
        const (int32Vec 4) (p ++ "sh2") (.Int32Tensor [1, outC, 1, inSP * r]),
        op (tensorType (shapeOf outC (inSP * r))) outVar "reshape"
          [arg "shape" (p ++ "sh2"), arg "x" (p ++ "tr")] (p ++ "ps")]
      inputName := inVar
      outputName := outVar
      outputShape := shapeOf outC (inSP * r) }

/-! ## Piecewise-linear activation -/

/-- One segment of the interpolant: `a * x + b` up to `upper`. -/
structure PwlSegment (F : Type) where
  index : ℕ
  a : F
  b : F
  upper : F

section Pwl

variable [MilFloat F]

/-- The segments between consecutive samples. -/
def pwlSegments (xMin xMax : F) (samples : List F) : List (PwlSegment F) :=
  let dx := (xMax - xMin) / ofInt ((samples.length : ℤ) - 1)
  let dxInv := ofInt 1 / dx
  (samples.zip samples.tail).zipIdx.map fun ((s, s'), i) =>
    let a := (s' - s) * dxInv
    { index := i, a, b := s - a * (xMin + ofInt i * dx), upper := xMin + ofInt (i + 1) * dx }

/-- The innermost segment, the last one. -/
def pwlInnermost (tt : MilType) (p inVar : String) (seg : PwlSegment F) : List (MilStmt F) :=
  let i := toString seg.index
  [const fp16 (p ++ "a" ++ i) (.Fp16 (.Literal seg.a)),
    const fp16 (p ++ "b" ++ i) (.Fp16 (.Literal seg.b)),
    op tt (p ++ "t" ++ i) "mul" [arg "x" inVar, arg "y" (p ++ "a" ++ i)] (p ++ "t" ++ i),
    op tt (p ++ "cr" ++ i) "add" [arg "x" (p ++ "t" ++ i), arg "y" (p ++ "b" ++ i)]
      (p ++ "cr" ++ i)]

/-- A segment around what was emitted so far, `cur`. -/
def pwlWrap (s : TensorShape) (p inVar cur : String) (seg : PwlSegment F) : List (MilStmt F) :=
  let tt := tensorType s
  let i := toString seg.index
  [const fp16 (p ++ "a" ++ i) (.Fp16 (.Literal seg.a)),
    const fp16 (p ++ "b" ++ i) (.Fp16 (.Literal seg.b)),
    op tt (p ++ "t" ++ i) "mul" [arg "x" inVar, arg "y" (p ++ "a" ++ i)] (p ++ "t" ++ i),
    op tt (p ++ "y" ++ i) "add" [arg "x" (p ++ "t" ++ i), arg "y" (p ++ "b" ++ i)]
      (p ++ "y" ++ i),
    const fp16 (p ++ "th" ++ i) (.Fp16 (.Literal seg.upper)),
    op (boolType s) (p ++ "mk" ++ i) "less" [arg "x" inVar, arg "y" (p ++ "th" ++ i)]
      (p ++ "mk" ++ i),
    op tt (p ++ "cr" ++ i) "select"
      [arg "cond" (p ++ "mk" ++ i), arg "a" (p ++ "y" ++ i), arg "b" cur] (p ++ "cr" ++ i)]

/-- The loop over the remaining segments, from the last but one down: the statements, and the name
of the outermost value. -/
def pwlLoop (s : TensorShape) (p inVar : String) :
    String → List (PwlSegment F) → List (MilStmt F) × String
  | cur, [] => ([], cur)
  | cur, seg :: rest =>
      let (stmts, last) := pwlLoop s p inVar (p ++ "cr" ++ toString seg.index) rest
      (pwlWrap s p inVar cur seg ++ stmts, last)

/-- The whole select chain, for segments listed from the last to the first. -/
def pwlChain (s : TensorShape) (p inVar : String) :
    List (PwlSegment F) → List (MilStmt F) × String
  | [] => ([], p)
  | seg :: rest =>
      let (stmts, last) := pwlLoop s p inVar (p ++ "cr" ++ toString seg.index) rest
      (pwlInnermost (tensorType s) p inVar seg ++ stmts, last)

def pwlActivationFragment (C SP : ℤ) (xMin xMax : F) (samples : List F)
    (inVar outVar : String) : Outcome (MilFragment F) :=
  if samples.length < 2 then
    .error (.InvalidArgument "pwl_activation_fragment: need at least 2 sample points")
  else
    let p := outVar ++ "_"
    let (stmts, cur) := pwlChain (shapeOf C SP) p inVar (pwlSegments xMin xMax samples).reverse
    checked [shapeOf C SP] {
      body := stmts ++
        if cur ≠ outVar then
          [op (tensorType (shapeOf C SP)) outVar "identity" [arg "x" cur] (p ++ "pwl")]
        else []
      inputName := inVar
      outputName := outVar
      outputShape := shapeOf C SP }

end Pwl

end MilBuilder

end Libane
