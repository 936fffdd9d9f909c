import Libane.Foundation.Bytes
import Libane.Foundation.Patching
import Libane.Graph.Graph

/-!
# The HWX emitter

`hwx_emitter.cpp`: a cache of compiled HWX files by tensor shape, a cache of the five words that
make out an operation, and the patcher that turns the file of one operation into that of another.
A file is a list of bytes, as `std::vector<uint8_t>`; a read or write through a pointer past its
end has no meaning.

* `patchOp` — the patcher.
* `captureFromModelDir`, `emit` — the two caches in use.  What the search for a file in a
  directory finds is an argument.
* `patchOp_eq` — what the patcher does to a valid file.
* `configOf`, `relocated` — its results without the checks of every access.
* `emit_in_bounds_iff` — when the patcher stays inside the buffer.
-/

namespace Libane

open Bytes Patching

/-- `HwxEmitter::OpConfig`. -/
structure HwxEmitter.OpConfig where
  programSize : UInt32 := 0
  stageFlags : UInt32 := 0
  opcode : UInt32 := 0
  extraConfig : UInt32 := 0
  numWords : UInt32 := 0
  deriving DecidableEq, Repr

/-- `HwxEmitter`. -/
structure HwxEmitter where
  shapeCache : AList fun _ : ℤ × ℤ => List UInt8 := ∅
  opCfgCache : AList fun _ : ℤ => HwxEmitter.OpConfig := ∅

namespace HwxEmitter

/-! ## Format constants -/

def kBeeffaceMagic : UInt32 := 0xBEEFFACE
def kTextSectSizeOff : ℕ := 0x0208
def kConstVmaddrOff : ℕ := 0x0250
def kConstFileoffOff : ℕ := 0x0260
def kTdInstrCntOff : ℕ := 0x0AE4
def kTextFileOff : ℕ := 0x4000
def kConstAlign : ℕ := 64
def kConstSize : ℕ := 0x4000
def kTextVmBase : ℕ := 0x30008000
def kPPProgramSize : ℕ := 0x4010
def kPPStageFlags : ℕ := 0x4030
def kPPOpcode : ℕ := 0x404C
def kPPExtraConfig : ℕ := 0x405C
def kMinHwxSize : ℕ := kTextFileOff + 0x60
def kLcEnd : ℕ := kTextFileOff

/-! ## Reading and writing -/

/-- The `w` bytes at `off`. -/
def readBytes (hwx : List UInt8) (off w : ℕ) : Outcome (List UInt8) :=
  if off + w ≤ hwx.length then .ok (slice off w hwx)
  else .error (.UndefinedBehaviour "read past the end of the buffer")

/-- The bytes `bs` at `off`. -/
def writeBytes (hwx : List UInt8) (off : ℕ) (bs : List UInt8) : Outcome (List UInt8) :=
  if off + bs.length ≤ hwx.length then .ok (put off bs hwx)
  else .error (.UndefinedBehaviour "write past the end of the buffer")

def rd32 (hwx : List UInt8) (off : ℕ) : Outcome UInt32 := do
  return UInt32.ofNat (ofLE (← readBytes hwx off 4))

def rd64 (hwx : List UInt8) (off : ℕ) : Outcome UInt64 := do
  return UInt64.ofNat (ofLE (← readBytes hwx off 8))

def wr32 (hwx : List UInt8) (off : ℕ) (v : UInt32) : Outcome (List UInt8) :=
  writeBytes hwx off (toLE 4 v.toNat)

def wr64 (hwx : List UInt8) (off : ℕ) (v : UInt64) : Outcome (List UInt8) :=
  writeBytes hwx off (toLE 8 v.toNat)

/-- `std::fill` with zeros, from `first` up to `last`. -/
def fillZero (hwx : List UInt8) (first last : ℕ) : Outcome (List UInt8) :=
  writeBytes hwx first (List.replicate (last - first) 0)

/-! ## The patcher -/

/-- `num_words * 4`, in 32-bit arithmetic. -/
def OpConfig.textBytes (cfg : OpConfig) : ℕ := (cfg.numWords * 4).toNat

/-- The file offset of `__const` behind a `__text` of this size; the mask rounds down to a multiple
of `kConstAlign`. -/
def constOffset (text : ℕ) : ℕ :=
  (kTextFileOff + text + kConstAlign - 1) / kConstAlign * kConstAlign

/-- The address of `__const` for its file offset. -/
def constVm (off : ℕ) : UInt64 := UInt64.ofNat (kTextVmBase + (off - kTextFileOff))

/-- `valid_hwx`. -/
def validHwx (hwx : List UInt8) : Outcome Bool :=
  if hwx.length < kMinHwxSize then .ok false
  else do return (← rd32 hwx 0) = kBeeffaceMagic

/-- `extract_op_config`. -/
def extractOpConfig (hwx : List UInt8) : Outcome OpConfig :=
  if hwx.length < kMinHwxSize then .ok {}
  else do
    return {
      programSize := ← rd32 hwx kPPProgramSize
      stageFlags := ← rd32 hwx kPPStageFlags
      opcode := ← rd32 hwx kPPOpcode
      extraConfig := ← rd32 hwx kPPExtraConfig
      numWords := UInt32.ofNat ((← rd64 hwx kTextSectSizeOff) / 4).toNat }

/-- The search for the old `__const` address in the load commands, from `i` on. -/
def replaceVm (oldVm newVm : List UInt8) : ℕ → ℕ → List UInt8 → Outcome (List UInt8)
  | 0, _, hwx => .ok hwx
  | n + 1, i, hwx =>
      if i + 8 ≤ kLcEnd then do
        if (← readBytes hwx i 8) = oldVm then
          replaceVm oldVm newVm n (i + 8) (← writeBytes hwx i newVm)
        else replaceVm oldVm newVm n (i + 1) hwx
      else .ok hwx

/-- Save `__const`, if the file holds all of it. -/
def saveConst (hwx : List UInt8) (oldConst : ℕ) : Outcome (List UInt8) :=
  if oldConst + kConstSize ≤ hwx.length then readBytes hwx oldConst kConstSize else .ok []

/-- `resize(needed, 0)`, if the buffer is smaller. -/
def growTo (hwx : List UInt8) (needed : ℕ) : List UInt8 :=
  hwx ++ List.replicate (needed - hwx.length) 0

/-- Zero the old `__text` tail if shrinking. -/
def clearTail (hwx : List UInt8) (oldText newText : ℕ) : Outcome (List UInt8) :=
  if newText < oldText then fillZero hwx (kTextFileOff + newText) (kTextFileOff + oldText)
  else .ok hwx

/-- Move `__const` to its new offset. -/
def moveConst (hwx constData : List UInt8) (oldConst newConst : ℕ) : Outcome (List UInt8) :=
  if oldConst ≠ newConst ∧ constData ≠ [] then do
    let hwx ← fillZero hwx oldConst (oldConst + kConstSize)
    writeBytes hwx newConst constData
  else .ok hwx

/-- `patch_op`. -/
def patchOp (hwx : List UInt8) (newCfg oldCfg : OpConfig) : Outcome (List UInt8) := do
  if (← validHwx hwx) = false then return hwx
  let hwx ← wr32 hwx kPPProgramSize newCfg.programSize
  let hwx ← wr32 hwx kPPStageFlags newCfg.stageFlags
  let hwx ← wr32 hwx kPPOpcode newCfg.opcode
  let hwx ← wr32 hwx kPPExtraConfig newCfg.extraConfig
  if newCfg.numWords = oldCfg.numWords then return hwx
  let oldConst := constOffset oldCfg.textBytes
  let newConst := constOffset newCfg.textBytes
  let constData ← saveConst hwx oldConst
  let hwx := growTo hwx (newConst + kConstSize)
  let hwx ← clearTail hwx oldCfg.textBytes newCfg.textBytes
  let hwx ← moveConst hwx constData oldConst newConst
  let hwx ← wr64 hwx kTextSectSizeOff (UInt64.ofNat newCfg.textBytes)
  let hwx ← wr64 hwx kConstVmaddrOff (constVm newConst)
  let hwx ← wr32 hwx kConstFileoffOff (UInt32.ofNat newConst)
  let hwx ← replaceVm (toLE 8 (constVm oldConst).toNat) (toLE 8 (constVm newConst).toNat) kLcEnd
    0x20 hwx
  wr32 hwx kTdInstrCntOff newCfg.numWords

/-! ## The caches -/

/-- `read_hwx_from_dir`, for the bytes of the first file that the search finds, if it finds one and
can read it. -/
def readHwxFromDir (found : Option (List UInt8)) : Outcome (List UInt8) :=
  match found with
  | none => .ok []
  | some data => do
      if (← validHwx data) = false then return []
      else return data

/-- `capture_from_model_dir`. -/
def captureFromModelDir (e : HwxEmitter) (found : Option (List UInt8)) (channels seq : ℤ)
    (op : LibaneOp) : Outcome (Bool × HwxEmitter) := do
  let hwx ← readHwxFromDir found
  if hwx = [] then return (false, e)
  let e : HwxEmitter :=
    if (channels, seq) ∈ e.shapeCache then e
    else { e with shapeCache := e.shapeCache.insert (channels, seq) hwx }
  if op.code ∈ e.opCfgCache then return (true, e)
  let cfg ← extractOpConfig hwx
  return (true, { e with opCfgCache := e.opCfgCache.insert op.code cfg })

/-- `emit`. -/
def emit (e : HwxEmitter) (channels seq : ℤ) (op : LibaneOp) : Outcome (List UInt8) :=
  match e.shapeCache.lookup (channels, seq), e.opCfgCache.lookup op.code with
  | some tmpl, some newCfg => do
      let oldCfg ← extractOpConfig tmpl
      patchOp tmpl newCfg oldCfg
  | _, _ => .ok []

/-! ## What the patcher does -/

section Pure

variable {hwx b : List UInt8} {off w first last : ℕ} {newCfg oldCfg : OpConfig}

lemma readBytes_eq (h : off + w ≤ hwx.length) : readBytes hwx off w = .ok (slice off w hwx) :=
  if_pos h

lemma writeBytes_eq {bs : List UInt8} (h : off + bs.length ≤ hwx.length) :
    writeBytes hwx off bs = .ok (put off bs hwx) := if_pos h

lemma rd32_eq (h : off + 4 ≤ hwx.length) :
    rd32 hwx off = .ok (UInt32.ofNat (ofLE (slice off 4 hwx))) := by
  rw [rd32, readBytes_eq h]
  rfl

lemma rd64_eq (h : off + 8 ≤ hwx.length) :
    rd64 hwx off = .ok (UInt64.ofNat (ofLE (slice off 8 hwx))) := by
  rw [rd64, readBytes_eq h]
  rfl

lemma wr32_eq {v : UInt32} (h : off + 4 ≤ hwx.length) :
    wr32 hwx off v = .ok (put off (toLE 4 v.toNat) hwx) := writeBytes_eq (by simpa using h)

lemma wr64_eq {v : UInt64} (h : off + 8 ≤ hwx.length) :
    wr64 hwx off v = .ok (put off (toLE 8 v.toNat) hwx) := writeBytes_eq (by simpa using h)

lemma fillZero_eq (hle : first ≤ last) (h : last ≤ hwx.length) :
    fillZero hwx first last = .ok (put first (List.replicate (last - first) 0) hwx) :=
  writeBytes_eq (by rw [List.length_replicate]; omega)

/-- The search stays inside the load commands. -/
lemma replaceVm_eq {oldVm newVm : List UInt8} (hold : oldVm.length = 8) (hnew : newVm.length = 8) :
    ∀ {n i : ℕ} {hwx : List UInt8}, kLcEnd ≤ hwx.length →
      replaceVm oldVm newVm n i hwx = .ok (replaceFrom oldVm newVm kLcEnd n i hwx)
  | 0, _, _, _ => rfl
  | n + 1, i, hwx, h => by
      rw [replaceVm, replaceFrom, hold]
      by_cases hi : i + 8 ≤ kLcEnd
      · rw [if_pos hi, if_pos hi, readBytes_eq (by omega), ok_bind]
        split_ifs with hocc
        · have hput : i + newVm.length ≤ hwx.length := by omega
          have hlen := length_put hput
          rw [writeBytes_eq hput, ok_bind, replaceVm_eq hold hnew (by omega)]
        · exact replaceVm_eq hold hnew h
      · rw [if_neg hi, if_neg hi]

/-- The test of a file. -/
lemma validHwx_eq_ok_true_iff : validHwx hwx = .ok true ↔
    kMinHwxSize ≤ hwx.length ∧ UInt32.ofNat (ofLE (slice 0 4 hwx)) = kBeeffaceMagic := by
  rw [validHwx]
  split_ifs with h
  · simp only [Except.ok.injEq, Bool.false_eq_true, false_iff, not_and]
    omega
  · have hmin := not_lt.mp h
    rw [rd32_eq (by simp only [kMinHwxSize] at hmin; omega), ok_bind, and_iff_right hmin]
    simp only [pure_eq_ok_iff, decide_eq_true_eq]

/-- The words of a file that make out its operation. -/
def configOf (hwx : List UInt8) : OpConfig where
  programSize := UInt32.ofNat (ofLE (slice kPPProgramSize 4 hwx))
  stageFlags := UInt32.ofNat (ofLE (slice kPPStageFlags 4 hwx))
  opcode := UInt32.ofNat (ofLE (slice kPPOpcode 4 hwx))
  extraConfig := UInt32.ofNat (ofLE (slice kPPExtraConfig 4 hwx))
  numWords := UInt32.ofNat (UInt64.ofNat (ofLE (slice kTextSectSizeOff 8 hwx)) / 4).toNat

lemma extractOpConfig_eq (h : kMinHwxSize ≤ hwx.length) :
    extractOpConfig hwx = .ok (configOf hwx) := by
  simp only [kMinHwxSize, kTextFileOff] at h
  rw [extractOpConfig, if_neg (by simp only [kMinHwxSize, kTextFileOff]; omega)]
  rw [rd32_eq (by simp only [kPPProgramSize]; omega), ok_bind,
    rd32_eq (by simp only [kPPStageFlags]; omega), ok_bind,
    rd32_eq (by simp only [kPPOpcode]; omega), ok_bind,
    rd32_eq (by simp only [kPPExtraConfig]; omega), ok_bind,
    rd64_eq (by simp only [kTextSectSizeOff]; omega), ok_bind]
  rfl

/-- The file with other words for its operation. -/
def patchWords (cfg : OpConfig) (hwx : List UInt8) : List UInt8 :=
  put kPPExtraConfig (toLE 4 cfg.extraConfig.toNat) (put kPPOpcode (toLE 4 cfg.opcode.toNat)
    (put kPPStageFlags (toLE 4 cfg.stageFlags.toNat)
      (put kPPProgramSize (toLE 4 cfg.programSize.toNat) hwx)))

/-- Zeros in the place of the end of a longer `__text`. -/
def cleared (oldText newText : ℕ) (b : List UInt8) : List UInt8 :=
  if newText < oldText then
    put (kTextFileOff + newText)
      (List.replicate (kTextFileOff + oldText - (kTextFileOff + newText)) 0) b
  else b

/-- `__const` at this offset, if the file holds all of it. -/
def savedConst (b : List UInt8) (off : ℕ) : List UInt8 :=
  if off + kConstSize ≤ b.length then slice off kConstSize b else []

/-- `__const` of the file `b₀` at its new offset. -/
def movedConst (oldText newText : ℕ) (b₀ b : List UInt8) : List UInt8 :=
  if constOffset oldText ≠ constOffset newText ∧ constOffset oldText + kConstSize ≤ b₀.length then
    put (constOffset newText) (slice (constOffset oldText) kConstSize b₀)
      (put (constOffset oldText)
        (List.replicate (constOffset oldText + kConstSize - constOffset oldText) 0) b)
  else b

/-- The section headers for the new layout. -/
def rewritten (newText : ℕ) (b : List UInt8) : List UInt8 :=
  put kConstFileoffOff (toLE 4 (UInt32.ofNat (constOffset newText)).toNat)
    (put kConstVmaddrOff (toLE 8 (constVm (constOffset newText)).toNat)
      (put kTextSectSizeOff (toLE 8 (UInt64.ofNat newText).toNat) b))

/-- The load commands with the new address of `__const`. -/
def readdressed (oldText newText : ℕ) (b : List UInt8) : List UInt8 :=
  replaceFrom (toLE 8 (constVm (constOffset oldText)).toNat)
    (toLE 8 (constVm (constOffset newText)).toNat) kLcEnd kLcEnd 0x20 b

/-- The file after a change of the layout. -/
def relocated (newCfg oldCfg : OpConfig) (b : List UInt8) : List UInt8 :=
  put kTdInstrCntOff (toLE 4 newCfg.numWords.toNat)
    (readdressed oldCfg.textBytes newCfg.textBytes (rewritten newCfg.textBytes
      (movedConst oldCfg.textBytes newCfg.textBytes b
        (cleared oldCfg.textBytes newCfg.textBytes
          (growTo b (constOffset newCfg.textBytes + kConstSize))))))

lemma length_put_toLE {n : ℕ} (h : off + w ≤ b.length) :
    (put off (toLE w n) b).length = b.length := length_put (by simpa using h)

lemma length_growTo (needed : ℕ) : (growTo b needed).length = max b.length needed := by
  rw [growTo, List.length_append, List.length_replicate]
  omega

lemma le_constOffset (text : ℕ) : kTextFileOff + text ≤ constOffset text := by
  simp only [constOffset, kTextFileOff, kConstAlign]
  omega

/-- Writing the words of the operation. -/
lemma wr32_words {α : Type} (f : List UInt8 → Outcome α) (cfg : OpConfig)
    (h : kMinHwxSize ≤ hwx.length) :
    (do
      let hwx ← wr32 hwx kPPProgramSize cfg.programSize
      let hwx ← wr32 hwx kPPStageFlags cfg.stageFlags
      let hwx ← wr32 hwx kPPOpcode cfg.opcode
      let hwx ← wr32 hwx kPPExtraConfig cfg.extraConfig
      f hwx) = f (patchWords cfg hwx) ∧ (patchWords cfg hwx).length = hwx.length := by
  have hmin : 0x4060 ≤ hwx.length := h
  obtain ⟨h₁, h₁'⟩ : kPPProgramSize + 4 ≤ hwx.length ∧ kPPStageFlags + 4 ≤ hwx.length := by
    simp only [kPPProgramSize, kPPStageFlags]
    omega
  obtain ⟨h₂, h₂'⟩ : kPPOpcode + 4 ≤ hwx.length ∧ kPPExtraConfig + 4 ≤ hwx.length := by
    simp only [kPPOpcode, kPPExtraConfig]
    omega
  have l₁ := length_put_toLE (n := cfg.programSize.toNat) h₁
  have l₂ := length_put_toLE (n := cfg.stageFlags.toNat) (l₁.symm ▸ h₁')
  have l₃ := length_put_toLE (n := cfg.opcode.toNat) ((l₂.trans l₁).symm ▸ h₂)
  have l₄ := length_put_toLE (n := cfg.extraConfig.toNat) ((l₃.trans (l₂.trans l₁)).symm ▸ h₂')
  refine ⟨?_, l₄.trans (l₃.trans (l₂.trans l₁))⟩
  rw [wr32_eq h₁, ok_bind, wr32_eq (by omega), ok_bind, wr32_eq (by omega), ok_bind,
    wr32_eq (by omega), ok_bind]
  rfl

lemma length_cleared {oldText newText : ℕ}
    (h : newText < oldText → kTextFileOff + oldText ≤ b.length) :
    (cleared oldText newText b).length = b.length := by
  rw [cleared]
  split_ifs with hlt
  · exact length_put (by rw [List.length_replicate]; have := h hlt; omega)
  · rfl

lemma clearTail_eq {oldText newText : ℕ}
    (h : newText < oldText → kTextFileOff + oldText ≤ b.length) :
    clearTail b oldText newText = .ok (cleared oldText newText b) := by
  rw [clearTail, cleared]
  split_ifs with hlt
  · exact fillZero_eq (by omega) (h hlt)
  · rfl

lemma saveConst_eq : saveConst b off = .ok (savedConst b off) := by
  rw [saveConst, savedConst]
  split_ifs with h
  · exact readBytes_eq h
  · rfl

lemma savedConst_ne_nil : savedConst b off ≠ [] ↔ off + kConstSize ≤ b.length := by
  rw [savedConst]
  split_ifs with h
  · have hlen := length_slice h
    refine iff_of_true (fun hnil => ?_) h
    rw [hnil] at hlen
    exact absurd hlen (by decide)
  · exact iff_of_false (not_not.mpr rfl) h

/-- The move of `__const` stays inside the buffer that was grown for it. -/
lemma moveConst_eq {oldText newText : ℕ} {b₀ : List UInt8} (hle : b₀.length ≤ b.length)
    (hroom : constOffset newText + kConstSize ≤ b.length) :
    moveConst b (savedConst b₀ (constOffset oldText)) (constOffset oldText) (constOffset newText) =
        .ok (movedConst oldText newText b₀ b) ∧
      (movedConst oldText newText b₀ b).length = b.length := by
  simp only [moveConst, movedConst, savedConst_ne_nil]
  split_ifs with h
  · obtain ⟨hne, hfit⟩ := h
    have hfill : constOffset oldText + kConstSize ≤ b.length := by omega
    have hlen : (put (constOffset oldText) (List.replicate
        (constOffset oldText + kConstSize - constOffset oldText) 0) b).length = b.length :=
      length_put (by rw [List.length_replicate]; omega)
    have hsaved : (slice (constOffset oldText) kConstSize b₀).length = kConstSize :=
    length_slice hfit
    rw [fillZero_eq (by omega) hfill, ok_bind, savedConst, if_pos hfit, writeBytes_eq (by omega)]
    exact ⟨rfl, (length_put (by omega)).trans hlen⟩
  · exact ⟨rfl, rfl⟩

/-- Writing the section headers, the load commands and the word count. -/
lemma wr_headers {oldText newText : ℕ} (numWords : UInt32) (h : kLcEnd ≤ b.length) :
    (do
      let hwx ← wr64 b kTextSectSizeOff (UInt64.ofNat newText)
      let hwx ← wr64 hwx kConstVmaddrOff (constVm (constOffset newText))
      let hwx ← wr32 hwx kConstFileoffOff (UInt32.ofNat (constOffset newText))
      let hwx ← replaceVm (toLE 8 (constVm (constOffset oldText)).toNat)
        (toLE 8 (constVm (constOffset newText)).toNat) kLcEnd 0x20 hwx
      wr32 hwx kTdInstrCntOff numWords) =
      .ok (put kTdInstrCntOff (toLE 4 numWords.toNat)
        (readdressed oldText newText (rewritten newText b))) ∧
    (rewritten newText b).length = b.length ∧
    (readdressed oldText newText (rewritten newText b)).length = b.length := by
  have hlc : 0x4000 ≤ b.length := h
  obtain ⟨h₁, h₂⟩ : kTextSectSizeOff + 8 ≤ b.length ∧ kConstVmaddrOff + 8 ≤ b.length := by
    simp only [kTextSectSizeOff, kConstVmaddrOff]
    omega
  obtain ⟨h₃, h₄⟩ : kConstFileoffOff + 4 ≤ b.length ∧ kTdInstrCntOff + 4 ≤ b.length := by
    simp only [kConstFileoffOff, kTdInstrCntOff]
    omega
  have l₁ := length_put_toLE (n := (UInt64.ofNat newText).toNat) h₁
  have l₂ := length_put_toLE (n := (constVm (constOffset newText)).toNat) (l₁.symm ▸ h₂)
  have l₃ := length_put_toLE (n := (UInt32.ofNat (constOffset newText)).toNat)
    ((l₂.trans l₁).symm ▸ h₃)
  have hrew : (rewritten newText b).length = b.length := l₃.trans (l₂.trans l₁)
  have hread : (readdressed oldText newText (rewritten newText b)).length = b.length :=
    (length_replaceFrom (by simp) (by omega)).trans hrew
  refine ⟨?_, hrew, hread⟩
  rw [wr64_eq h₁, ok_bind, wr64_eq (by omega), ok_bind, wr32_eq (by omega), ok_bind]
  show (replaceVm _ _ kLcEnd 0x20 (rewritten newText b) >>= fun hwx => wr32 hwx _ _) = _
  rw [replaceVm_eq (length_toLE _ _) (length_toLE _ _) (by omega), ok_bind]
  exact wr32_eq (hread.symm ▸ h₄)

/-- **The patcher on a valid file.**  It writes the words of the operation; for another number of
words it changes the layout, unless the old `__text` ends outside the buffer. -/
theorem patchOp_eq (hv : validHwx hwx = .ok true) : patchOp hwx newCfg oldCfg =
    if newCfg.numWords = oldCfg.numWords then .ok (patchWords newCfg hwx)
    else if newCfg.textBytes < oldCfg.textBytes ∧
        max hwx.length (constOffset newCfg.textBytes + kConstSize) <
          kTextFileOff + oldCfg.textBytes then
      .error (.UndefinedBehaviour "write past the end of the buffer")
    else .ok (relocated newCfg oldCfg (patchWords newCfg hwx)) := by
  have hmin : 0x4060 ≤ hwx.length := (validHwx_eq_ok_true_iff.mp hv).1
  have hlen := (wr32_words Except.ok newCfg hmin).2
  rw [patchOp, hv, ok_bind, if_neg (by simp)]
  rw [(wr32_words _ newCfg hmin).1]
  split_ifs with hwords hout
  · rfl
  · dsimp only
    rw [saveConst_eq, ok_bind, clearTail, if_pos hout.1, fillZero, writeBytes, if_neg]
    · rfl
    · rw [List.length_replicate, length_growTo, hlen]
      omega
  · have hgrow := length_growTo (b := patchWords newCfg hwx)
      (constOffset newCfg.textBytes + kConstSize)
    have hin : newCfg.textBytes < oldCfg.textBytes → kTextFileOff + oldCfg.textBytes ≤
        (growTo (patchWords newCfg hwx) (constOffset newCfg.textBytes + kConstSize)).length := by
      omega
    have hclear := length_cleared hin
    obtain ⟨hmove, hmoved⟩ := @moveConst_eq
      (cleared oldCfg.textBytes newCfg.textBytes
        (growTo (patchWords newCfg hwx) (constOffset newCfg.textBytes + kConstSize)))
      oldCfg.textBytes newCfg.textBytes (patchWords newCfg hwx) (by omega) (by omega)
    dsimp only
    rw [saveConst_eq, ok_bind, clearTail_eq hin, ok_bind, hmove, ok_bind]
    exact (wr_headers newCfg.numWords (by simp only [kLcEnd, kTextFileOff]; omega)).1

end Pure

/-! ## Staying inside the buffer -/

section Bounds

variable {e : HwxEmitter} {tmpl other : List UInt8} {channels seq : ℤ} {op : LibaneOp}
  {cfg : OpConfig}

/-- The size of `__text` that the patcher works with: the header field without its last two bits,
in 32 bits. -/
def headerText (hwx : List UInt8) : ℕ := ofLE (slice kTextSectSizeOff 8 hwx) / 4 * 4 % 2 ^ 32

lemma textBytes_configOf (h : kMinHwxSize ≤ tmpl.length) :
    (configOf tmpl).textBytes = headerText tmpl := by
  have hmin : 0x4060 ≤ tmpl.length := h
  have hlen : (slice kTextSectSizeOff 8 tmpl).length = 8 :=
    length_slice (by simp only [kTextSectSizeOff]; omega)
  have hlt := ofLE_lt (slice kTextSectSizeOff 8 tmpl)
  rw [hlen] at hlt
  simp only [configOf, OpConfig.textBytes, headerText, UInt32.toNat_mul, UInt32.toNat_ofNat',
    UInt64.toNat_div, UInt64.toNat_ofNat']
  simp
  omega

/-- `emit` with both entries in the caches. -/
lemma emit_eq (hv : validHwx tmpl = .ok true)
    (hshape : e.shapeCache.lookup (channels, seq) = some tmpl)
    (hcfg : e.opCfgCache.lookup op.code = some cfg) :
    e.emit channels seq op = patchOp tmpl cfg (configOf tmpl) := by
  rw [HwxEmitter.emit, hshape, hcfg]
  simp only [extractOpConfig_eq (validHwx_eq_ok_true_iff.mp hv).1, ok_bind]

/-- **When the patcher stays inside the buffer.**  For a valid template and the operation of a
valid file, every access of `emit` lies inside the buffer if and only if the `__text` of the
template is not longer than that of the file, or ends inside the template or inside the buffer that
the new layout needs. -/
theorem emit_in_bounds_iff (htmpl : validHwx tmpl = .ok true) (hother : validHwx other = .ok true)
    (hshape : e.shapeCache.lookup (channels, seq) = some tmpl)
    (hextract : extractOpConfig other = .ok cfg)
    (hcfg : e.opCfgCache.lookup op.code = some cfg) :
    (∃ r, e.emit channels seq op = .ok r) ↔
      (headerText tmpl ≤ headerText other ∨ kTextFileOff + headerText tmpl ≤
        max tmpl.length (constOffset (headerText other) + kConstSize)) := by
  have hmin := (validHwx_eq_ok_true_iff.mp hother).1
  obtain rfl : configOf other = cfg := Except.ok.inj ((extractOpConfig_eq hmin).symm.trans hextract)
  rw [emit_eq htmpl hshape hcfg, patchOp_eq htmpl, textBytes_configOf hmin,
    textBytes_configOf (validHwx_eq_ok_true_iff.mp htmpl).1]
  split_ifs with hwords hout
  · have hsame : headerText tmpl = headerText other := by
      rw [← textBytes_configOf hmin, ← textBytes_configOf (validHwx_eq_ok_true_iff.mp htmpl).1,
        OpConfig.textBytes, OpConfig.textBytes, hwords]
    exact iff_of_true ⟨_, rfl⟩ (Or.inl hsame.le)
  · refine iff_of_false (by simp) ?_
    omega
  · exact iff_of_true ⟨_, rfl⟩ (by omega)

/-- A file of the smallest size with nothing but the magic number and a size of `__text`. -/
def bareHwx (text : ℕ) : List UInt8 :=
  toLE 4 0xBEEFFACE ++ List.replicate 0x204 0 ++ toLE 8 text ++ List.replicate 0x3E50 0

lemma length_bareHwx (text : ℕ) : (bareHwx text).length = 0x4060 := by
  simp only [bareHwx, List.length_append, length_toLE, List.length_replicate]

lemma validHwx_bareHwx (text : ℕ) : validHwx (bareHwx text) = .ok true := by
  refine validHwx_eq_ok_true_iff.mpr ⟨(length_bareHwx text).ge, ?_⟩
  have hmagic : slice 0 4 (bareHwx text) = toLE 4 0xBEEFFACE := by
    rw [bareHwx, List.append_assoc, List.append_assoc]
    exact slice_append (a := []) (b := toLE 4 0xBEEFFACE) rfl (length_toLE 4 0xBEEFFACE)
  rw [hmagic, ofLE_toLE]
  rfl

lemma headerText_bareHwx {text : ℕ} (h : text < 2 ^ 32) (hdvd : 4 ∣ text) :
    headerText (bareHwx text) = text := by
  have hsize : slice kTextSectSizeOff 8 (bareHwx text) = toLE 8 text := by
    refine slice_append ?_ (length_toLE _ _)
    simp only [List.length_append, length_toLE, List.length_replicate, kTextSectSizeOff]
  rw [headerText, hsize, ofLE_toLE]
  omega

/-- An emitter after the capture of one file for `TANH` and of another one for `RELU`. -/
def twoCaptures (tmpl other : List UInt8) : Outcome HwxEmitter := do
  let (_, e) ← captureFromModelDir {} (some tmpl) 64 512 .Tanh
  let (_, e) ← captureFromModelDir e (some other) 32 512 .Relu
  return e

/-- A capture of a valid file. -/
lemma captureFromModelDir_eq (hv : validHwx tmpl = .ok true) :
    e.captureFromModelDir (some tmpl) channels seq op = .ok (true, {
      shapeCache := if (channels, seq) ∈ e.shapeCache then e.shapeCache
        else e.shapeCache.insert (channels, seq) tmpl
      opCfgCache := if op.code ∈ e.opCfgCache then e.opCfgCache
        else e.opCfgCache.insert op.code (configOf tmpl) }) := by
  have hmin := (validHwx_eq_ok_true_iff.mp hv).1
  have hne : tmpl ≠ [] := by
    rintro rfl
    exact absurd hmin (by decide)
  have hread : readHwxFromDir (some tmpl) = .ok tmpl := by
    rw [readHwxFromDir, hv, ok_bind, if_neg (by simp)]
    rfl
  rw [captureFromModelDir, hread, ok_bind, if_neg hne, extractOpConfig_eq hmin]
  by_cases hs : (channels, seq) ∈ e.shapeCache <;> by_cases ho : op.code ∈ e.opCfgCache <;>
    simp [hs, ho]

lemma twoCaptures_eq (htmpl : validHwx tmpl = .ok true) (hother : validHwx other = .ok true) :
    ∃ e, twoCaptures tmpl other = .ok e ∧ e.shapeCache.lookup (64, 512) = some tmpl ∧
      e.opCfgCache.lookup LibaneOp.Relu.code = some (configOf other) := by
  rw [twoCaptures, captureFromModelDir_eq htmpl, ok_bind]
  dsimp only
  rw [captureFromModelDir_eq hother, ok_bind]
  refine ⟨_, rfl, ?_, ?_⟩
  · simp [-AList.insert_empty, AList.lookup_insert_ne]
  · simp [-AList.insert_empty, LibaneOp.code]

theorem emit_in_bounds_iff_bare : ∃ e, twoCaptures (bareHwx 0x60) (bareHwx 0x80) = .ok e ∧
    ∃ r, e.emit 64 512 .Relu = .ok r := by
  have ht := validHwx_bareHwx 0x60
  have ho := validHwx_bareHwx 0x80
  obtain ⟨e, he, hshape, hcfg⟩ := twoCaptures_eq ht ho
  refine ⟨e, he, (emit_in_bounds_iff ht ho hshape
    (extractOpConfig_eq (validHwx_eq_ok_true_iff.mp ho).1) hcfg).mpr (Or.inl ?_)⟩
  rw [headerText_bareHwx (by norm_num) (by norm_num),
    headerText_bareHwx (by norm_num) (by norm_num)]
  norm_num

/-- A template of 16480 bytes whose header gives `__text` 32768 bytes, and a file whose `__text` has
96 bytes: the zeros run past the end of the buffer. -/
theorem shrinking_leaves_buffer : ∃ e, twoCaptures (bareHwx 0x8000) (bareHwx 0x60) = .ok e ∧
    e.emit 64 512 .Relu =
      .error (.UndefinedBehaviour "write past the end of the buffer") := by
  have ht := validHwx_bareHwx 0x8000
  have ho := validHwx_bareHwx 0x60
  obtain ⟨e, he, hshape, hcfg⟩ := twoCaptures_eq ht ho
  have htext := textBytes_configOf (length_bareHwx 0x8000).ge
  have hother := textBytes_configOf (length_bareHwx 0x60).ge
  rw [headerText_bareHwx (by norm_num) (by norm_num)] at htext hother
  refine ⟨e, he, ?_⟩
  rw [emit_eq ht hshape hcfg, patchOp_eq ht, if_neg, if_pos]
  · rw [htext, hother, length_bareHwx]
    decide
  · intro hwords
    have hsame : (configOf (bareHwx 0x60)).textBytes = (configOf (bareHwx 0x8000)).textBytes := by
      rw [OpConfig.textBytes, hwords, OpConfig.textBytes]
    omega

end Bounds

end HwxEmitter

end Libane
