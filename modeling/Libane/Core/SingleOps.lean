import Libane.Core.Assembly
import Libane.Core.MilWiring

/-!
# Whole programs for single operations

The functions of `MilBuilder` that write a program for one operation, which `libane_compile` hands
to the hardware.  They were written before the fragment emitters of the graph path and repeat them
under other names.

* `SingleProgram` — a program with the record around it.
* `MilBuilder::matmul_conv1x1`, … — the source functions, in the namespace `SingleOp`.
-/

namespace Libane

open MilBuilder StraightLine

/-- A whole program: its function, its text and its shapes. -/
structure SingleProgram (F : Type) where
  function : MilFunction F
  text : String
  weightName : String := ""
  inputShape : TensorShape
  outputShape : TensorShape

/-- The `validate` calls of a function, then its result. -/
def validated {α : Type} : List TensorShape → α → Outcome α
  | [], a => .ok a
  | s :: rest, a => do
      s.validate
      validated rest a

/-- A result passes when all the shapes are valid. -/
lemma validated_eq_ok_iff {α : Type} {a b : α} : ∀ {shapes : List TensorShape},
    validated shapes a = .ok b ↔ (∀ s ∈ shapes, s.Valid) ∧ b = a
  | [] => by simp [validated, eq_comm]
  | s :: rest => by
      rw [validated, bind_eq_ok, List.forall_mem_cons, and_assoc]
      constructor
      · rintro ⟨_, hs, hrest⟩
        exact ⟨TensorShape.validate_eq_ok_iff.mp hs, validated_eq_ok_iff.mp hrest⟩
      · rintro ⟨hs, hrest⟩
        exact ⟨(), TensorShape.validate_eq_ok_iff.mpr hs, validated_eq_ok_iff.mpr hrest⟩

namespace SingleOp

variable {F : Type} [MilFloat F]

/-- A program whose text is that of its function. -/
def program (shapes : List TensorShape) (params : List FusedInput) (body : List (MilStmt F))
    (result : String) (inputShape outputShape : TensorShape) (weightName : String := "") :
    Outcome (SingleProgram F) :=
  let function : MilFunction F := { params, body, result }
  validated shapes { function, text := function.render, weightName, inputShape, outputShape }

/-! ## Operations with weights -/

def matmulConv1x1 (IC OC SP : ℤ) (weightFile : String) : Outcome (SingleProgram F) :=
  let wtype : MilType := .Tensor "fp16" "," [OC, IC, 1, 1]
  program [shapeOf IC SP, shapeOf OC SP] [⟨"x", shapeOf IC SP⟩] [
    const (.Scalar "string") "pt" (.Str "valid"),
    const (int32Vec 2) "st" (.Int32Tensor [1, 1]),
    const (int32Vec 4) "pd" (.Int32Tensor [0, 0, 0, 0]),
    const (int32Vec 2) "dl" (.Int32Tensor [1, 1]),
    const int32 "gr" (.Int32 1),
    const wtype "W" (.BlobFile wtype weightFile),
    op (tensorType (shapeOf OC SP)) "y" "conv"
      [arg "dilations" "dl", arg "groups" "gr", arg "pad" "pd", arg "pad_type" "pt",
        arg "strides" "st", arg "weight" "W", arg "x" "x"] "y"]
    "y" (shapeOf IC SP) (shapeOf OC SP) weightFile

def rmsnorm (C SP : ℤ) (scaleFile : String) : Outcome (SingleProgram F) :=
  let tt := tensorType (shapeOf C SP)
  let tss := rowType SP
  program [shapeOf C SP] [⟨"x", shapeOf C SP⟩] [
    op tt "rms_sq" "mul" [arg "x" "x", arg "y" "x"] "rms_sq",
    const (int32Vec 1) "rms_ax" (.Int32Tensor [1]),
    const bool "rms_kd" (.Boolean true),
    op tss "rms_ss" "reduce_sum" [arg "x" "rms_sq", arg "axes" "rms_ax", arg "keep_dims" "rms_kd"]
      "rms_ss",
    const fp16 "rms_invd" (.Fp16 (.General 10 (MilFloat.ofInt 1 / MilFloat.ofInt C))),
    op tss "rms_ms" "mul" [arg "x" "rms_ss", arg "y" "rms_invd"] "rms_ms",
    const fp16 "rms_eps" (fp16Text "9.765625e-4"),
    op tss "rms_mse" "add" [arg "x" "rms_ms", arg "y" "rms_eps"] "rms_mse",
    const fp16 "rms_nhalf" (fp16Text "-0.5"),
    op tss "rms_rrms" "pow" [arg "x" "rms_mse", arg "y" "rms_nhalf"] "rms_rrms",
    op tt "rms_xr" "mul" [arg "x" "x", arg "y" "rms_rrms"] "rms_xr",
    const (columnType C) "rms_w" (.BlobFile (columnType C) scaleFile),
    op tt "out" "mul" [arg "x" "rms_xr", arg "y" "rms_w"] "out"]
    "out" (shapeOf C SP) (shapeOf C SP) scaleFile

/-- `layernorm` with its default `eps`, `1e-5f`. -/
def layernorm (C SP : ℤ) (gammaFile betaFile : String) : Outcome (SingleProgram F) :=
  let tss := rowType SP
  let tc : MilType := .Tensor "fp16" "," [1, C, 1, SP]
  let tw := columnType C
  program [shapeOf C SP] [⟨"x", shapeOf C SP⟩] [
    const (int32Vec 1) "ln_ax" (.Int32Tensor [1]),
    const bool "ln_kd" (.Boolean true),
    op tss "ln_mean" "reduce_mean" [arg "x" "x", arg "axes" "ln_ax", arg "keep_dims" "ln_kd"]
      "ln_mean",
    op tc "ln_cent" "sub" [arg "x" "x", arg "y" "ln_mean"] "ln_cent",
    op tc "ln_sq" "mul" [arg "x" "ln_cent", arg "y" "ln_cent"] "ln_sq",
    op tss "ln_var" "reduce_mean" [arg "x" "ln_sq", arg "axes" "ln_ax", arg "keep_dims" "ln_kd"]
      "ln_var",
    const fp16 "ln_eps" (.Fp16 (.General 6 (MilFloat.ofBits 0x3727C5AC))),
    op tss "ln_veps" "add" [arg "x" "ln_var", arg "y" "ln_eps"] "ln_veps",
    const fp16 "ln_nhalf" (fp16Text "-0.5"),
    op tss "ln_rstd" "pow" [arg "x" "ln_veps", arg "y" "ln_nhalf"] "ln_rstd",
    op tc "ln_norm" "mul" [arg "x" "ln_cent", arg "y" "ln_rstd"] "ln_norm",
    const tw "ln_g" (.BlobFile tw gammaFile),
    op tc "ln_scaled" "mul" [arg "x" "ln_norm", arg "y" "ln_g"] "ln_scaled",
    const tw "ln_beta" (.BlobFile tw betaFile),
    op tc "out" "add" [arg "x" "ln_scaled", arg "y" "ln_beta"] "out"]
    "out" (shapeOf C SP) (shapeOf C SP) gammaFile

def scatterStaticMask (C SP : ℤ) (maskFile : String) : Outcome (SingleProgram F) :=
  let tt := tensorType (shapeOf C SP)
  program [shapeOf C SP] [⟨"base", shapeOf C SP⟩, ⟨"updates", shapeOf C SP⟩] [
    const tt "m" (.BlobFile tt maskFile),
    const fp16 "one" (fp16Text "1.0"),
    op tt "inv" "sub" [arg "x" "one", arg "y" "m"] "inv",
    op tt "xb" "mul" [arg "x" "base", arg "y" "inv"] "xb",
    op tt "uu" "mul" [arg "x" "updates", arg "y" "m"] "uu",
    op tt "out" "add" [arg "x" "xb", arg "y" "uu"] "out"]
    "out" (shapeOf C SP) (shapeOf C SP) maskFile

def gatherStaticMask (C SP : ℤ) (maskFile : String) : Outcome (SingleProgram F) :=
  let tt := tensorType (shapeOf C SP)
  program [shapeOf C SP] [⟨"x", shapeOf C SP⟩] [
    const tt "m" (.BlobFile tt maskFile),
    op tt "out" "mul" [arg "x" "x", arg "y" "m"] "out"]
    "out" (shapeOf C SP) (shapeOf C SP) maskFile

/-! ## One statement -/

/-- `result = name(x=x)`. -/
def unary (name label result : String) (C SP : ℤ) : Outcome (SingleProgram F) :=
  program [shapeOf C SP] [⟨"x", shapeOf C SP⟩]
    [op (tensorType (shapeOf C SP)) result name [arg "x" "x"] label]
    result (shapeOf C SP) (shapeOf C SP)

def avgPool (C SP : ℤ) : Outcome (SingleProgram F) := unary "identity" "avg_pool_lowered" "y" C SP

def maxPool (C SP : ℤ) : Outcome (SingleProgram F) := unary "identity" "max_pool_lowered" "y" C SP

def sqrt (C SP : ℤ) : Outcome (SingleProgram F) := unary "sqrt" "sqrt" "y" C SP

/-- `y = name(epsilon=eps, x=x)`. -/
def epsilon (name label eps : String) (C SP : ℤ) : Outcome (SingleProgram F) :=
  program [shapeOf C SP] [⟨"x", shapeOf C SP⟩] [
    const fp16 eps (fp16Text "0x1.0cp-17"),
    op (tensorType (shapeOf C SP)) "y" name [arg "epsilon" eps, arg "x" "x"] label]
    "y" (shapeOf C SP) (shapeOf C SP)

def log (C SP : ℤ) : Outcome (SingleProgram F) := epsilon "log" "log" "lg_eps" C SP

def rsqrt (C SP : ℤ) : Outcome (SingleProgram F) := epsilon "rsqrt" "rsqrt" "rs_eps" C SP

/-- `result = name(x=x, y=side)`. -/
def binary (name label side result : String) (C SP : ℤ) : Outcome (SingleProgram F) :=
  program [shapeOf C SP] [⟨"x", shapeOf C SP⟩, ⟨side, shapeOf C SP⟩]
    [op (tensorType (shapeOf C SP)) result name [arg "x" "x", arg "y" side] label]
    result (shapeOf C SP) (shapeOf C SP)

/-- Its text has blanks around the signs of equality. -/
def add (C SP : ℤ) : Outcome (SingleProgram F) :=
  let tt := tensorType (shapeOf C SP)
  validated [shapeOf C SP] {
    function := {
      params := [⟨"x", shapeOf C SP⟩, ⟨"y", shapeOf C SP⟩]
      body := [op tt "z" "add" [arg "x" "x", arg "y" "y"] "add"]
      result := "z" }
    text := header ++ "    func main<ios18>(" ++ tt.render ++ " x, " ++ tt.render ++ " y) \x7b\n" ++
      "        " ++ tt.render ++ " z = add(x = x, y = y)[name=string(\"add\")];\n" ++
      "    \x7d -> (z);\n" ++ "\x7d\n"
    inputShape := shapeOf C SP
    outputShape := shapeOf C SP }

def mul (C SP : ℤ) : Outcome (SingleProgram F) := binary "mul" "mul" "y" "z" C SP

def sub (C SP : ℤ) : Outcome (SingleProgram F) := binary "sub" "sub" "y" "z" C SP

def realDiv (C SP : ℤ) : Outcome (SingleProgram F) := binary "real_div" "real_div" "y" "z" C SP

def gatherDynamicMask (C SP : ℤ) : Outcome (SingleProgram F) := binary "mul" "out" "mask" "out" C SP

/-! ## Activations and elementwise functions -/

def gelu (C SP : ℤ) : Outcome (SingleProgram F) :=
  let tt := tensorType (shapeOf C SP)
  program [shapeOf C SP] [⟨"x", shapeOf C SP⟩] [
    op tt "g_x2" "mul" [arg "x" "x", arg "y" "x"] "g_x2",
    op tt "g_x3" "mul" [arg "x" "g_x2", arg "y" "x"] "g_x3",
    const fp16 "g_c1" (fp16Text "0.044715"),
    op tt "g_cx3" "mul" [arg "x" "g_x3", arg "y" "g_c1"] "g_cx3",
    op tt "g_inner" "add" [arg "x" "x", arg "y" "g_cx3"] "g_inner",
    const fp16 "g_c2" (fp16Text "0.7979"),
    op tt "g_scaled" "mul" [arg "x" "g_inner", arg "y" "g_c2"] "g_scaled",
    op tt "g_th" "tanh" [arg "x" "g_scaled"] "g_th",
    const fp16 "g_one" (fp16Text "1.0"),
    op tt "g_onep" "add" [arg "x" "g_th", arg "y" "g_one"] "g_onep",
    const fp16 "g_half" (fp16Text "0.5"),
    op tt "g_hx" "mul" [arg "x" "x", arg "y" "g_half"] "g_hx",
    op tt "y" "mul" [arg "x" "g_hx", arg "y" "g_onep"] "y"]
    "y" (shapeOf C SP) (shapeOf C SP)

def silu (C SP : ℤ) : Outcome (SingleProgram F) :=
  let tt := tensorType (shapeOf C SP)
  program [shapeOf C SP] [⟨"x", shapeOf C SP⟩] [
    op tt "sig" "sigmoid" [arg "x" "x"] "sig",
    op tt "y" "mul" [arg "x" "x", arg "y" "sig"] "silu"]
    "y" (shapeOf C SP) (shapeOf C SP)

def softmax (C SP : ℤ) : Outcome (SingleProgram F) :=
  program [shapeOf C SP] [⟨"x", shapeOf C SP⟩] [
    const int32 "sm_ax" (.Int32 1),
    op (tensorType (shapeOf C SP)) "y" "softmax" [arg "axis" "sm_ax", arg "x" "x"] "sm"]
    "y" (shapeOf C SP) (shapeOf C SP)

def neg (C SP : ℤ) : Outcome (SingleProgram F) :=
  program [shapeOf C SP] [⟨"x", shapeOf C SP⟩] [
    const fp16 "n1" (fp16Text "-1.0"),
    op (tensorType (shapeOf C SP)) "out" "mul" [arg "x" "x", arg "y" "n1"] "out"]
    "out" (shapeOf C SP) (shapeOf C SP)

def mod (C SP : ℤ) : Outcome (SingleProgram F) :=
  let tt := tensorType (shapeOf C SP)
  program [shapeOf C SP] [⟨"x", shapeOf C SP⟩, ⟨"y", shapeOf C SP⟩] [
    op tt "q" "floor_div" [arg "x" "x", arg "y" "y"] "q",
    op tt "qy" "mul" [arg "x" "q", arg "y" "y"] "qy",
    op tt "out" "sub" [arg "x" "x", arg "y" "qy"] "out"]
    "out" (shapeOf C SP) (shapeOf C SP)

/-- `sinh` and `cosh`: `comb` combines `exp x` and `exp (-x)` under the name `tmp`. -/
def hyperbolic (comb tmp : String) (C SP : ℤ) : Outcome (SingleProgram F) :=
  let tt := tensorType (shapeOf C SP)
  program [shapeOf C SP] [⟨"x", shapeOf C SP⟩] [
    const fp16 "n1" (fp16Text "-1.0"),
    const fp16 "h" (fp16Text "0.5"),
    op tt "nx" "mul" [arg "x" "x", arg "y" "n1"] "nx",
    op tt "ex" "exp" [arg "x" "x"] "ex",
    op tt "enx" "exp" [arg "x" "nx"] "enx",
    op tt tmp comb [arg "x" "ex", arg "y" "enx"] tmp,
    op tt "out" "mul" [arg "x" tmp, arg "y" "h"] "out"]
    "out" (shapeOf C SP) (shapeOf C SP)

def sinh (C SP : ℤ) : Outcome (SingleProgram F) := hyperbolic "sub" "d" C SP

def cosh (C SP : ℤ) : Outcome (SingleProgram F) := hyperbolic "add" "s" C SP

def tan (C SP : ℤ) : Outcome (SingleProgram F) :=
  let tt := tensorType (shapeOf C SP)
  program [shapeOf C SP] [⟨"x", shapeOf C SP⟩] [
    const fp16 "teps" (fp16Text "0x1.0cp-17"),
    op tt "sx" "sin" [arg "x" "x"] "sx",
    op tt "cx" "cos" [arg "x" "x"] "cx",
    op tt "cxe" "add" [arg "x" "cx", arg "y" "teps"] "cxe",
    op tt "out" "real_div" [arg "x" "sx", arg "y" "cxe"] "out"]
    "out" (shapeOf C SP) (shapeOf C SP)

/-- What `asin` and `acos` have in common. -/
def arcRatio (tt : MilType) : List (MilStmt F) := [
  const fp16 "one" (fp16Text "1.0"),
  const fp16 "ae" (fp16Text "0x1.0cp-17"),
  op tt "xsq" "mul" [arg "x" "x", arg "y" "x"] "xsq",
  op tt "den2" "sub" [arg "x" "one", arg "y" "xsq"] "den2",
  op tt "den2e" "add" [arg "x" "den2", arg "y" "ae"] "den2e",
  op tt "den" "sqrt" [arg "x" "den2e"] "den",
  op tt "ratio" "real_div" [arg "x" "x", arg "y" "den"] "ratio"]

def asin (C SP : ℤ) : Outcome (SingleProgram F) :=
  let tt := tensorType (shapeOf C SP)
  program [shapeOf C SP] [⟨"x", shapeOf C SP⟩]
    (arcRatio tt ++ [op tt "out" "atan" [arg "x" "ratio"] "out"])
    "out" (shapeOf C SP) (shapeOf C SP)

def acos (C SP : ℤ) : Outcome (SingleProgram F) :=
  let tt := tensorType (shapeOf C SP)
  program [shapeOf C SP] [⟨"x", shapeOf C SP⟩]
    (const fp16 "hp" (fp16Text "1.5703125") :: arcRatio tt ++ [
      op tt "asv" "atan" [arg "x" "ratio"] "asv",
      op tt "out" "sub" [arg "x" "hp", arg "y" "asv"] "out"])
    "out" (shapeOf C SP) (shapeOf C SP)

/-! ## Logical operations, reductions and shapes -/

/-- Both operands cast to `bool` and back; `l` begins the labels. -/
def boolCasts (s : TensorShape) (l : String) : List (MilStmt F) := [
  op (boolType s) "xb" "cast" (castArgs "x" "bool") (l ++ "_xb"),
  op (boolType s) "yb" "cast" (castArgs "y" "bool") (l ++ "_yb"),
  op (tensorType s) "xf" "cast" (castArgs "xb" "fp16") (l ++ "_xf"),
  op (tensorType s) "yf" "cast" (castArgs "yb" "fp16") (l ++ "_yf")]

/-- `AND` and `OR`: one operation on the casts. -/
def logical (name l : String) (C SP : ℤ) : Outcome (SingleProgram F) :=
  program [shapeOf C SP] [⟨"x", shapeOf C SP⟩, ⟨"y", shapeOf C SP⟩]
    (boolCasts (shapeOf C SP) l ++
      [op (tensorType (shapeOf C SP)) "z" name [arg "x" "xf", arg "y" "yf"] (l ++ "_out")])
    "z" (shapeOf C SP) (shapeOf C SP)

def logicalAnd (C SP : ℤ) : Outcome (SingleProgram F) := logical "mul" "lnd" C SP

def logicalOr (C SP : ℤ) : Outcome (SingleProgram F) := logical "maximum" "lor" C SP

def logicalXor (C SP : ℤ) : Outcome (SingleProgram F) :=
  program [shapeOf C SP] [⟨"x", shapeOf C SP⟩, ⟨"y", shapeOf C SP⟩]
    (boolCasts (shapeOf C SP) "lxr" ++ [
      op (boolType (shapeOf C SP)) "zb" "not_equal" [arg "x" "xf", arg "y" "yf"] "lxr_zb",
      op (tensorType (shapeOf C SP)) "z" "cast" (castArgs "zb" "fp16") "lxr_out"])
    "z" (shapeOf C SP) (shapeOf C SP)

def select (C SP : ℤ) : Outcome (SingleProgram F) :=
  program [shapeOf C SP] [⟨"c", shapeOf C SP⟩, ⟨"x", shapeOf C SP⟩, ⟨"y", shapeOf C SP⟩] [
    op (boolType (shapeOf C SP)) "cb" "cast" (castArgs "c" "bool") "sel_cb",
    op (tensorType (shapeOf C SP)) "z" "select" [arg "cond" "cb", arg "a" "x", arg "b" "y"]
      "sel_out"]
    "z" (shapeOf C SP) (shapeOf C SP)

def reduceProd (C SP : ℤ) : Outcome (SingleProgram F) :=
  let tin := tensorType (shapeOf C SP)
  let tout := tensorType (shapeOf 1 SP)
  program [shapeOf C SP, shapeOf 1 SP] [⟨"x", shapeOf C SP⟩] [
    const fp16 "rp_eps" (fp16Text "0x1.0cp-17"),
    op tin "rp_x" "add" [arg "x" "x", arg "y" "rp_eps"] "rp_x",
    op tin "rp_l" "log" [arg "x" "rp_x", arg "epsilon" "rp_eps"] "rp_l",
    const (int32Vec 1) "rp_ax" (.Int32Tensor [1]),
    const bool "rp_kd" (.Boolean true),
    op tout "rp_s" "reduce_sum" [arg "x" "rp_l", arg "axes" "rp_ax", arg "keep_dims" "rp_kd"]
      "rp_s",
    op tout "y" "exp" [arg "x" "rp_s"] "rp_out"]
    "y" (shapeOf C SP) (shapeOf 1 SP)

def transposeCssc (C SP : ℤ) : Outcome (SingleProgram F) :=
  program [shapeOf C SP, shapeOf SP C] [⟨"x", shapeOf C SP⟩] [
    const (int32Vec 4) "perm" (.Int32Tensor [0, 3, 2, 1]),
    op (tensorType (shapeOf SP C)) "y" "transpose" [arg "perm" "perm", arg "x" "x"] "tr"]
    "y" (shapeOf C SP) (shapeOf SP C)

end SingleOp

end Libane
