import Libane.Core.Shape
import Libane.Foundation.Names

/-!
# MIL text

The pieces of MIL text that `mil_builder.cpp` puts together: types, values, statements, fragments
and whole programs, each with its exact rendering.  A statement of the sources is one line,

    `        <type> <var> = <op>(<name>=<operand>, …)[name=string("<label>")];`

or a `const()` whose attributes carry the value.

C++ `float` is a type `F` of class `MilFloat`: its arithmetic, and the texts that `printf` and
streams make of it.

* `MilStmt.render`, `MilType.render`, `MilValue.render` — the texts.
* `fp16Lit` — the literal of a piecewise-linear coefficient, without an exponent.
* `MilStmt.operands`, `MilStmt.files` — the names a statement reads, the weight files it refers
  to.
* `MilStmt.Plain` — no piece of the statement contains a colon; then neither does the line.
-/

namespace Libane

/-! ## Floats -/

/-- The characters of a number that `printf` or a stream writes. -/
def floatChars : List Char :=
  ['0', '1', '2', '3', '4', '5', '6', '7', '8', '9', '+', '-', '.', 'e', 'i', 'n', 'f', 'a']

/-- The operations on `float` that the builder uses. -/
class MilFloat (F : Type) extends Add F, Sub F, Mul F, Div F where
  ofInt : ℤ → F
  ofBits : UInt32 → F
  /-- `std::abs(v) < 5.96e-8f` -/
  belowFp16 : F → Bool
  /-- `%.<digits>g`, which is also what a stream writes at this precision -/
  general : ℕ → F → String
  /-- `std::fixed` with this many decimals -/
  fixed : ℕ → F → String
  general_chars : ∀ d v, ∀ c ∈ (general d v).toList, c ∈ floatChars
  fixed_chars : ∀ d v, ∀ c ∈ (fixed d v).toList, c ∈ floatChars

/-- A stand-in for the floats of a program that has none. -/
instance : MilFloat Unit where
  add _ _ := ()
  sub _ _ := ()
  mul _ _ := ()
  div _ _ := ()
  ofInt _ := ()
  ofBits _ := ()
  belowFp16 _ := true
  general _ _ := "0"
  fixed _ _ := "0"
  general_chars := by simp [floatChars]
  fixed_chars := by simp [floatChars]

open MilFloat

section Literals

variable {F : Type} [MilFloat F]

/-- Trailing zeros go, except one right after the decimal point. -/
def trimZeros (s : List Char) : List Char :=
  let kept := s.rdropWhile (· = '0')
  if '.' ∉ s then s
  else if kept.getLast? = some '.' then s.take (kept.length + 1)
  else kept

/-- The `fp16_lit` of `pwl_activation_fragment`. -/
def fp16Lit (v : F) : String :=
  if belowFp16 v then "0.0"
  else
    let s := general 6 v
    if 'e' ∈ s.toList ∨ 'E' ∈ s.toList then String.ofList (trimZeros (fixed 7 v).toList)
    else if '.' ∉ s.toList then s ++ ".0"
    else s

lemma mem_of_mem_trimZeros {s : List Char} {c : Char} (h : c ∈ trimZeros s) : c ∈ s := by
  have hkept : ∀ c ∈ s.rdropWhile (· = '0'), c ∈ s :=
    fun _ hc => (List.rdropWhile_prefix _ _).subset hc
  simp only [trimZeros] at h
  by_cases hdot : '.' ∈ s
  · rw [if_neg (not_not.mpr hdot)] at h
    by_cases hlast : (s.rdropWhile (· = '0')).getLast? = some '.'
    · rw [if_pos hlast] at h
      exact List.mem_of_mem_take h
    · rw [if_neg hlast] at h
      exact hkept c h
  · rwa [if_pos hdot] at h

lemma zero_chars : ∀ c ∈ "0.0".toList, c ∈ floatChars := by simp [floatChars]

/-- A literal consists of characters of numbers. -/
lemma fp16Lit_chars (v : F) : ∀ c ∈ (fp16Lit v).toList, c ∈ floatChars := by
  intro c hc
  simp only [fp16Lit] at hc
  by_cases htiny : belowFp16 v = true
  · rw [if_pos htiny] at hc
    exact zero_chars c hc
  rw [if_neg htiny] at hc
  by_cases hexp : 'e' ∈ (general 6 v).toList ∨ 'E' ∈ (general 6 v).toList
  · rw [if_pos hexp, String.toList_ofList] at hc
    exact fixed_chars 7 v c (mem_of_mem_trimZeros hc)
  rw [if_neg hexp] at hc
  by_cases hdot : '.' ∈ (general 6 v).toList
  · rw [if_neg (not_not.mpr hdot)] at hc
    exact general_chars 6 v c hc
  · rw [if_pos hdot, String.toList_append, List.mem_append] at hc
    refine hc.elim (general_chars 6 v c) fun hc => zero_chars c ?_
    rcases List.mem_cons.mp hc with rfl | hc
    · decide
    · rw [List.mem_singleton.mp hc]
      decide

end Literals

/-! ## Types and values -/

/-- A MIL type.  The sources write the dimensions of a tensor with and without blanks. -/
inductive MilType where
  | Scalar (name : String)
  | Tensor (elem sep : String) (dims : List ℤ)
  deriving DecidableEq, Repr

namespace MilType

def render : MilType → String
  | Scalar name => name
  | Tensor elem sep dims =>
      "tensor<" ++ elem ++ ", [" ++ sep.intercalate (dims.map toString) ++ "]>"

/-- How many elements the type declares. -/
def elements : MilType → ℤ
  | Scalar _ => 1
  | Tensor _ _ dims => dims.prod

end MilType

/-- `MilBuilder::tensor_type`. -/
def tensorType (s : TensorShape) : MilType :=
  .Tensor "fp16" ", " [s.batch, s.channels, s.height, s.seq]

/-- The number inside an `fp16(…)` literal: a text of the source, a float printed with so many
digits, or one printed by `fp16_lit`. -/
inductive Fp16Number (F : Type) where
  | Text (text : String)
  | General (digits : ℕ) (v : F)
  | Literal (v : F)

/-- The value of a constant. -/
inductive MilValue (F : Type) where
  | Str (text : String)
  | Int32 (value : ℤ)
  | Boolean (value : Bool)
  | Fp16 (number : Fp16Number F)
  | Int32Tensor (values : List ℤ)
  | BlobFile (type : MilType) (file : String)

/-- An operand: a name, a tuple of names, or an inline string. -/
inductive MilArg where
  | Var (name : String)
  | Tuple (names : List String)
  | Str (text : String)
  deriving DecidableEq, Repr

/-- The right-hand side of a statement. -/
inductive MilRhs (F : Type) where
  | Const (value : MilValue F)
  | Op (op : String) (args : List (String × MilArg))

/-- A statement.  `pad` is the number of blanks by which the source aligns it. -/
structure MilStmt (F : Type) where
  type : MilType
  var : String
  rhs : MilRhs F
  label : String
  pad : ℕ := 0

section Rendering

variable {F : Type} [MilFloat F]

def Fp16Number.render : Fp16Number F → String
  | Text text => text
  | General digits v => general digits v
  | Literal v => fp16Lit v

def MilValue.render : MilValue F → String
  | Str text => "string(\"" ++ text ++ "\")"
  | Int32 value => "int32(" ++ toString value ++ ")"
  | Boolean value => "bool(" ++ (if value then "true" else "false") ++ ")"
  | Fp16 number => "fp16(" ++ number.render ++ ")"
  | Int32Tensor values => "tensor<int32, [" ++ toString values.length ++ "]>([" ++
      ",".intercalate (values.map toString) ++ "])"
  | BlobFile type file => type.render ++ "(BLOBFILE(path=string(\"@model_path/weights/" ++ file ++
      "\"), offset=uint64(64)))"

def MilArg.render : MilArg → String
  | Var name => name
  | Tuple names => "(" ++ ", ".intercalate names ++ ")"
  | Str text => "string(\"" ++ text ++ "\")"

/-- Blanks for alignment. -/
def blanks (n : ℕ) : String := String.ofList (List.replicate n ' ')

def MilStmt.render (s : MilStmt F) : String :=
  "        " ++ s.type.render ++ " " ++ s.var ++ blanks s.pad ++ " = " ++
    match s.rhs with
    | .Const value => "const()[name=string(\"" ++ s.label ++ "\"), " ++ blanks s.pad ++ "val=" ++
        value.render ++ "];\n"
    | .Op op args => op ++ "(" ++
        ", ".intercalate (args.map fun (name, arg) => name ++ "=" ++ arg.render) ++
        ")[name=string(\"" ++ s.label ++ "\")];\n"

end Rendering

/-! ## What a statement refers to -/

section References

variable {F : Type}

/-- The names in an operand. -/
def MilArg.names : MilArg → List String
  | Var name => [name]
  | Tuple names => names
  | Str _ => []

/-- The names a statement reads. -/
def MilStmt.operands (s : MilStmt F) : List String :=
  match s.rhs with
  | .Const _ => []
  | .Op _ args => args.flatMap fun (_, arg) => arg.names

/-- The weight files a statement refers to, with the types declared for their contents. -/
def MilStmt.files (s : MilStmt F) : List (MilType × String) :=
  match s.rhs with
  | .Const (.BlobFile type file) => [(type, file)]
  | _ => []

end References

/-! ## Fragments and programs -/

/-- `MilFragment`. -/
structure MilFragment (F : Type) where
  body : List (MilStmt F)
  inputName : String
  outputName : String
  sideInputName : String := ""
  weightFile : String := ""
  outputShape : TensorShape

/-- `FusedInput`. -/
structure FusedInput where
  varName : String
  shape : TensorShape
  deriving DecidableEq, Repr

/-- `MilProgram`. -/
structure MilProgram where
  text : String
  weightName : String := ""
  allWeightNames : List String := []
  inputShape : TensorShape
  outputShape : TensorShape
  deriving DecidableEq, Repr

/-! ## Texts without colons

The parsers of `ane_runtime.mm` look for colons.  A line has none when its pieces have none. -/

section Plain

open Names

variable {F : Type}

/-- No piece of the type contains a colon. -/
def MilType.Plain : MilType → Prop
  | Scalar name => Avoids ':' name
  | Tensor elem sep _ => Avoids ':' elem ∧ Avoids ':' sep

/-- The number is written without a colon; only the texts of the source need a look. -/
def Fp16Number.Plain : Fp16Number F → Prop
  | Text text => Avoids ':' text
  | General _ _ => True
  | Literal _ => True

/-- No piece of the value contains a colon. -/
def MilValue.Plain : MilValue F → Prop
  | Str text => Avoids ':' text
  | Int32 _ => True
  | Boolean _ => True
  | Fp16 number => number.Plain
  | Int32Tensor _ => True
  | BlobFile type file => type.Plain ∧ Avoids ':' file

/-- No piece of the operand contains a colon. -/
def MilArg.Plain : MilArg → Prop
  | Var name => Avoids ':' name
  | Tuple names => ∀ n ∈ names, Avoids ':' n
  | Str text => Avoids ':' text

/-- No piece of the right-hand side contains a colon. -/
def MilRhs.Plain : MilRhs F → Prop
  | Const value => value.Plain
  | Op op args => Avoids ':' op ∧ ∀ a ∈ args, Avoids ':' a.1 ∧ a.2.Plain

/-- No piece of the statement contains a colon. -/
structure MilStmt.Plain (s : MilStmt F) : Prop where
  type : s.type.Plain
  var : Avoids ':' s.var
  rhs : s.rhs.Plain
  label : Avoids ':' s.label

lemma colon_not_digit : (':' : Char).isDigit = false := by decide

lemma avoids_of_chars {s : String} (h : ∀ c ∈ s.toList, c ∈ floatChars) : Avoids ':' s :=
  fun hm => absurd (h ':' hm) (by decide)

lemma avoids_intercalate_toString {sep : String} (hsep : Avoids ':' sep) (l : List ℤ) :
    Avoids ':' (sep.intercalate (l.map toString)) := by
  refine avoids_intercalate hsep fun s hs => ?_
  obtain ⟨i, -, rfl⟩ := List.mem_map.mp hs
  exact avoids_toString_int colon_not_digit (by decide) i

lemma avoids_blanks (n : ℕ) : Avoids ':' (blanks n) := by
  rw [blanks, avoids_ofList]
  intro h
  exact absurd (List.eq_of_mem_replicate h) (by decide)

lemma MilType.Plain.render {t : MilType} (h : t.Plain) : Avoids ':' t.render := by
  cases t with
  | Scalar name => exact h
  | Tensor elem sep dims =>
      simp +decide only [MilType.render, avoids_append, h.1, avoids_intercalate_toString h.2,
        and_true]

variable [MilFloat F]

lemma Fp16Number.Plain.render {n : Fp16Number F} (h : n.Plain) : Avoids ':' n.render := by
  cases n with
  | Text text => exact h
  | General digits v => exact avoids_of_chars (MilFloat.general_chars digits v)
  | Literal v => exact avoids_of_chars (fp16Lit_chars v)

lemma MilValue.Plain.render {v : MilValue F} (h : v.Plain) : Avoids ':' v.render := by
  cases v with
  | Str text =>
      have ht : Avoids ':' text := h
      unfold MilValue.render
      simp +decide only [avoids_append, ht, and_true]
  | Int32 value =>
      have hv : Avoids ':' (toString value) :=
        avoids_toString_int colon_not_digit (by decide) value
      unfold MilValue.render
      simp +decide only [avoids_append, hv, and_true]
  | Boolean value =>
      have hv : Avoids ':' (if value then "true" else "false") := by cases value <;> decide
      unfold MilValue.render
      simp +decide only [avoids_append, hv, and_true]
  | Fp16 number =>
      have hn : Avoids ':' number.render := Fp16Number.Plain.render h
      unfold MilValue.render
      simp +decide only [avoids_append, hn, and_true]
  | Int32Tensor values =>
      have hlength : Avoids ':' (toString values.length) := avoids_toString_nat colon_not_digit _
      have hvalues := avoids_intercalate_toString (by decide : Avoids ':' ",") values
      unfold MilValue.render
      simp +decide only [avoids_append, hlength, hvalues, and_true]
  | BlobFile type file =>
      have htype := h.1.render
      have hfile := h.2
      unfold MilValue.render
      simp +decide only [avoids_append, htype, hfile, and_true]

lemma MilArg.Plain.render {a : MilArg} (h : a.Plain) : Avoids ':' a.render := by
  cases a with
  | Var name => exact h
  | Tuple names =>
      have hn : Avoids ':' (", ".intercalate names) := avoids_intercalate (by decide) h
      unfold MilArg.render
      simp +decide only [avoids_append, hn, and_true]
  | Str text =>
      have ht : Avoids ':' text := h
      unfold MilArg.render
      simp +decide only [avoids_append, ht, and_true]

/-- **A line without colons.** -/
lemma MilStmt.Plain.render {s : MilStmt F} (h : s.Plain) : Avoids ':' s.render := by
  obtain ⟨type, var, rhs, label, pad⟩ := s
  have htype := h.type.render
  have hvar : Avoids ':' var := h.var
  have hlabel : Avoids ':' label := h.label
  cases rhs with
  | Const value =>
      have hvalue : Avoids ':' value.render := MilValue.Plain.render h.rhs
      unfold MilStmt.render
      simp +decide only [avoids_append, htype, hvar, hlabel, hvalue, avoids_blanks, and_true]
  | Op op args =>
      have hop : Avoids ':' op := h.rhs.1
      have hargs : Avoids ':' (", ".intercalate
          (args.map fun (name, arg) => name ++ "=" ++ arg.render)) := by
        refine avoids_intercalate (by decide) fun t ht => ?_
        obtain ⟨⟨name, arg⟩, hmem, rfl⟩ := List.mem_map.mp ht
        have harg := h.rhs.2 _ hmem
        have hrender := harg.2.render
        simp +decide only [avoids_append, harg.1, hrender, and_true]
      unfold MilStmt.render
      simp +decide only [avoids_append, htype, hvar, hlabel, hop, hargs, avoids_blanks, and_true]

end Plain

end Libane
