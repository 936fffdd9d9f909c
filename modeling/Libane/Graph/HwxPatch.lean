import Libane.Foundation.Runs
import Libane.Graph.HwxEmitter

/-!
# Cross-patched files

A well-formed HWX file is patched into one for the operation of another well-formed file.  When the
operations differ in size, the patcher rewrites the words of the operation, clears the end of
`__text`, moves `__const` and rewrites the section headers.  Last, it replaces the old address of
`__const` by the new one wherever it stands in the load commands.

**The search.**  The last step looks at every byte offset, not only where the format has addresses,
so it may find the eight bytes where no address is meant.  Inside the section headers this is nearly
impossible: an address has a byte of `0x80` or more with `0x00` and `0x30` after it, and the other
fields are sizes and offsets below `2 ^ 15` (`not_occurs_text`, `not_occurs_const`).  It remains
possible at the last byte of a field, where the address begins and goes on into bytes that nothing
is known about.  Addresses of `__const` differ in their two lowest bytes only, so such an occurrence
changes the last byte of the field and nothing else in it; and since an address is a multiple of 64,
it may change that byte from zero to zero.  `Straddles` is what is left: an occurrence across the
end of the `__text` offset or of the `__const` alignment, and a new address with another last byte.

**Why the exception is exact.**  `headed_readdressed_iff` says that the headers are in order after
the search if and only if nothing straddles; `patchOp_spec` has the rest of the patch, which never
goes wrong on well-formed files.  `emit_cross_patched` combines them for `emit` after any captures,
where the template was captured for the shape and the words for the operation, in general from
different files.
-/

namespace Libane

open Bytes Patching Runs

namespace HwxEmitter

/-! ## Well-formed files -/

/-- The size of `__text` in the section header. -/
def textSize (hwx : List UInt8) : ℕ := ofLE (slice kTextSectSizeOff 8 hwx)

/-- The contents of `__const`. -/
def constBytes (hwx : List UInt8) : List UInt8 := slice (constOffset (textSize hwx)) kConstSize hwx

/-- A file with the magic number, the section headers of `__text` and `__const` where the format
has them, and all of `__const`. -/
structure WellFormed (hwx : List UInt8) : Prop where
  valid : validHwx hwx = .ok true
  textAddr : ofLE (slice 0x200 8 hwx) = 0x30008000
  textSize_dvd : 4 ∣ textSize hwx
  textSize_ge : 0x60 ≤ textSize hwx
  textSize_lt : textSize hwx < 0x3000
  textOff : ofLE (slice 0x210 4 hwx) = 0x4000
  constAddr : ofLE (slice kConstVmaddrOff 8 hwx) =
    0x30008000 + (constOffset (textSize hwx) - 0x4000)
  constSize : ofLE (slice 0x258 8 hwx) = 0x4000
  constOff : ofLE (slice kConstFileoffOff 4 hwx) = constOffset (textSize hwx)
  constAlign : ofLE (slice 0x264 4 hwx) < 48
  long : constOffset (textSize hwx) + 0x4000 ≤ hwx.length

/-- A well-formed file. -/
structure HwxFile where
  bytes : List UInt8
  wf : WellFormed bytes

/-- The address of `__const` also stands across the end of the `__text` offset or of the `__const`
alignment in the section headers, and the patcher replaces it there by an address with another last
byte. -/
def Straddles (tmpl : List UInt8) (cfg : OpConfig) : Prop :=
  cfg.numWords ≠ (configOf tmpl).numWords ∧ constOffset cfg.textBytes % 256 ≠ 0 ∧
    ∃ i ∈ [0x213, 0x267], slice i 8 tmpl = slice kConstVmaddrOff 8 tmpl

section Sizes

variable {hwx : List UInt8} {text : ℕ}

lemma constOffset_eq (text : ℕ) : constOffset text = 0x4000 + (text + 63) / 64 * 64 := by
  simp only [constOffset, kTextFileOff, kConstAlign]
  omega

lemma WellFormed.length_ge (h : WellFormed hwx) : 0x8080 ≤ hwx.length := by
  have hlong := h.long
  have hge := h.textSize_ge
  rw [constOffset_eq] at hlong
  omega

lemma WellFormed.textBytes (h : WellFormed hwx) : (configOf hwx).textBytes = textSize hwx := by
  have hdvd := h.textSize_dvd
  have hlt := h.textSize_lt
  rw [textBytes_configOf (validHwx_eq_ok_true_iff.mp h.valid).1, headerText]
  change textSize hwx / 4 * 4 % 2 ^ 32 = _
  omega

lemma WellFormed.numWords (h : WellFormed hwx) :
    (configOf hwx).numWords.toNat * 4 = textSize hwx := by
  have hlt := h.textSize_lt
  have hdvd := h.textSize_dvd
  have heq : (configOf hwx).numWords = UInt32.ofNat (UInt64.ofNat (textSize hwx) / 4).toNat := rfl
  rw [heq]
  simp only [UInt32.toNat_ofNat', UInt64.toNat_div, UInt64.toNat_ofNat', UInt64.reduceToNat]
  omega

end Sizes

/-! ## The search in the load commands -/

section Search

/-- The value of a byte. -/
def byteAt (b : List UInt8) (k : ℕ) : ℕ := (b.getD k 0).toNat

variable {b : List UInt8} {off w n i j s t a : ℕ}

lemma byteAt_of_slice (h : slice off w b = toLE w n) (hi : i < w) :
    byteAt b (off + i) = n / 256 ^ i % 256 := by
  rw [byteAt, List.getD_eq_getElem?_getD, getElem?_of_slice_eq h hi, getElem?_toLE n hi,
    Option.getD_some, UInt8.toNat_ofNat']
  omega

/-- Two lists of one length have the same elements where they have the same bytes. -/
lemma getElem?_of_byteAt {d : List UInt8} {k : ℕ} (hlen : d.length = b.length)
    (h : byteAt d k = byteAt b k) : d[k]? = b[k]? := by
  by_cases hk : k < b.length
  · have hk' : k < d.length := by omega
    rw [byteAt, byteAt, List.getD_eq_getElem?_getD, List.getD_eq_getElem?_getD,
      List.getElem?_eq_getElem hk, List.getElem?_eq_getElem hk', Option.getD_some,
      Option.getD_some] at h
    rw [List.getElem?_eq_getElem hk, List.getElem?_eq_getElem hk', UInt8.toNat_inj.mp h]
  · rw [List.getElem?_eq_none (by omega), List.getElem?_eq_none (by omega)]

lemma byteAt_four (h : slice off 4 b = toLE 4 n) : byteAt b off = n % 256 ∧
    byteAt b (off + 1) = n / 256 % 256 ∧ byteAt b (off + 2) = n / 65536 % 256 ∧
    byteAt b (off + 3) = n / 16777216 % 256 :=
  ⟨by simpa using byteAt_of_slice (i := 0) h (by norm_num),
    byteAt_of_slice (i := 1) h (by norm_num), byteAt_of_slice (i := 2) h (by norm_num),
    byteAt_of_slice (i := 3) h (by norm_num)⟩

/-- The upper half of a field of eight bytes is zero when its number has four. -/
lemma byteAt_eight (hn : n < 2 ^ 32) (h : slice off 8 b = toLE 8 n) : byteAt b off = n % 256 ∧
    byteAt b (off + 1) = n / 256 % 256 ∧ byteAt b (off + 2) = n / 65536 % 256 ∧
    byteAt b (off + 3) = n / 16777216 % 256 ∧ byteAt b (off + 4) = 0 ∧ byteAt b (off + 5) = 0 ∧
    byteAt b (off + 6) = 0 ∧ byteAt b (off + 7) = 0 := by
  have hhigh : ∀ i, 4 ≤ i → n / 256 ^ i = 0 := fun i hi =>
    Nat.div_eq_of_lt (hn.trans_le (by
      calc 2 ^ 32 = 256 ^ 4 := by norm_num
        _ ≤ 256 ^ i := Nat.pow_le_pow_right (by norm_num) hi))
  have hzero : ∀ i, 4 ≤ i → i < 8 → byteAt b (off + i) = 0 := fun i hi hi' => by
    rw [byteAt_of_slice h hi', hhigh i hi]
  exact ⟨by simpa using byteAt_of_slice (i := 0) h (by norm_num),
    byteAt_of_slice (i := 1) h (by norm_num), byteAt_of_slice (i := 2) h (by norm_num),
    byteAt_of_slice (i := 3) h (by norm_num), hzero 4 (by norm_num) (by norm_num),
    hzero 5 (by norm_num) (by norm_num), hzero 6 (by norm_num) (by norm_num),
    hzero 7 (by norm_num) (by norm_num)⟩

/-- The address does not occur in the header of `__text`, up to its last byte: of the bytes there
only two can be `0x80` or more. -/
lemma not_occurs_text (hs : s < 0x4000) (hpos : 0 < s) (hn : n < 0x3000)
    (haddr : slice 0x200 8 b = toLE 8 0x30008000) (hsize : slice 0x208 8 b = toLE 8 n)
    (hoff : slice 0x210 4 b = toLE 4 0x4000) (hj : 0x1FF ≤ j) (hj' : j < 0x213) :
    slice j 8 b ≠ toLE 8 (0x30008000 + s) := by
  intro h
  have hocc := byteAt_eight (by omega) h
  have haddr' := byteAt_eight (by norm_num) haddr
  have hsize' := byteAt_eight (by omega) hsize
  have hoff' := byteAt_four hoff
  norm_num at haddr' hsize' hoff'
  interval_cases j <;> simp only [Nat.reduceAdd] at hocc <;> omega

/-- Nor in the header of `__const`, up to the last byte of the alignment, except at its own
place. -/
lemma not_occurs_const (hs : s < 0x4000) (hdvd : 64 ∣ s) (ht : t < 0x4000) (htdvd : 64 ∣ t)
    (ha : a < 48) (haddr : slice 0x250 8 b = toLE 8 (0x30008000 + t))
    (hsize : slice 0x258 8 b = toLE 8 0x4000) (hoff : slice 0x260 4 b = toLE 4 (0x4000 + t))
    (halign : slice 0x264 4 b = toLE 4 a) (hj : 0x24F ≤ j) (hj' : j < 0x267) (hne : j ≠ 0x250) :
    slice j 8 b ≠ toLE 8 (0x30008000 + s) := by
  intro h
  have hocc := byteAt_eight (by omega) h
  have haddr' := byteAt_eight (by omega) haddr
  have hsize' := byteAt_eight (by norm_num) hsize
  have hoff' := byteAt_four hoff
  have halign' := byteAt_four halign
  norm_num at haddr' hsize' hoff' halign'
  interval_cases j <;> simp only [Nat.reduceAdd] at hocc <;> omega

end Search

/-- The distance of `__const` from the start of `__text`. -/
def constShift (text : ℕ) : ℕ := (text + 63) / 64 * 64

/-- The section headers for a `__text` of this size. -/
structure Headed (text align : ℕ) (b : List UInt8) : Prop where
  textAddr : slice 0x200 8 b = toLE 8 0x30008000
  textSize : slice 0x208 8 b = toLE 8 text
  textOff : slice 0x210 4 b = toLE 4 0x4000
  constAddr : slice 0x250 8 b = toLE 8 (0x30008000 + constShift text)
  constSize : slice 0x258 8 b = toLE 8 0x4000
  constOff : slice 0x260 4 b = toLE 4 (0x4000 + constShift text)
  constAlign : slice 0x264 4 b = toLE 4 align

section Readdressed

variable {R : List UInt8} {oldText newText align : ℕ}

lemma constShift_spec {text : ℕ} (hge : 0x60 ≤ text) (hlt : text < 0x3000) :
    64 ∣ constShift text ∧ 0 < constShift text ∧ constShift text < 0x4000 := by
  simp only [constShift]
  omega

lemma constVm_toNat {text : ℕ} (hlt : text < 0x3000) :
    (constVm (constOffset text)).toNat = 0x30008000 + constShift text := by
  simp only [constVm, UInt64.toNat_ofNat', constOffset_eq, kTextVmBase, kTextFileOff, constShift]
  omega

/-- The addresses differ in their two lowest bytes only. -/
lemma getElem?_vm_eq {s t i : ℕ} (hs : s < 0x4000) (ht : t < 0x4000) (hi : 2 ≤ i) (hi' : i < 8) :
    (toLE 8 (0x30008000 + s))[i]? = (toLE 8 (0x30008000 + t))[i]? := by
  have hdiv : ∀ u < 0x4000, (0x30008000 + u) / 256 ^ i = 0x3000 / 256 ^ (i - 2) := fun u hu => by
    obtain ⟨k, rfl⟩ := Nat.exists_eq_add_of_le hi
    rw [pow_add, ← Nat.div_div_eq_div_mul, Nat.add_sub_cancel_left]
    congr 1
    omega
  rw [getElem?_toLE _ hi', getElem?_toLE _ hi', hdiv s hs, hdiv t ht]

/-- **What the search changes.**  A byte stays unless the old address stands at it or at the byte
before it. -/
lemma getElem?_readdressed (hR : kLcEnd ≤ R.length) (hold : oldText < 0x3000)
    (hnew : newText < 0x3000) (k : ℕ) :
    (readdressed oldText newText R)[k]? = R[k]? ∨ ∃ j, (j = k ∨ j + 1 = k) ∧
      slice j 8 R = toLE 8 (0x30008000 + constShift oldText) ∧
      (readdressed oldText newText R)[k]? =
        (toLE 8 (0x30008000 + constShift newText))[k - j]? := by
  rw [readdressed, constVm_toNat hold, constVm_toNat hnew]
  have hs : constShift oldText < 0x4000 := by simp only [constShift]; omega
  have ht : constShift newText < 0x4000 := by simp only [constShift]; omega
  have hlen : (toLE 8 (0x30008000 + constShift newText)).length =
      (toLE 8 (0x30008000 + constShift oldText)).length := by simp
  rcases getElem?_replaceFrom hlen hR k with hk | ⟨j, -, hjk, hkj, -, hocc, hk⟩
  · exact Or.inl hk
  · rw [length_toLE] at hkj hocc
    by_cases hnear : k - j < 2
    · exact Or.inr ⟨j, by omega, hocc, hk⟩
    · left
      have hbyte := getElem?_of_slice_eq hocc (k := k - j) (by omega)
      rw [Nat.add_sub_cancel' hjk] at hbyte
      rw [hk, hbyte]
      exact getElem?_vm_eq ht hs (by omega) (by omega)

/-- An occurrence away from earlier ones is replaced. -/
lemma getElem?_readdressed_of_occurs (hR : kLcEnd ≤ R.length) (hold : oldText < 0x3000)
    (hnew : newText < 0x3000) {j : ℕ} (hj : 0x20 ≤ j) (hj' : j + 8 ≤ kLcEnd)
    (hocc : slice j 8 R = toLE 8 (0x30008000 + constShift oldText))
    (hfree : ∀ l, l < j → j < l + 8 → slice l 8 R ≠ toLE 8 (0x30008000 + constShift oldText)) :
    (readdressed oldText newText R)[j]? = some (UInt8.ofNat (constShift newText % 256)) := by
  have hlen : (toLE 8 (0x30008000 + constShift newText)).length =
      (toLE 8 (0x30008000 + constShift oldText)).length := by simp
  rw [readdressed, constVm_toNat hold, constVm_toNat hnew,
    getElem?_replaceFrom_of_occurs hlen (j := j) (by simp) (by simpa using hj') hR hj (by omega)
      (by simpa using hocc) (fun l _ hl hl' => by simpa using hfree l hl (by simpa using hl'))
      le_rfl (by simp), Nat.sub_self, getElem?_toLE _ (by norm_num)]
  congr 2
  omega

/-- The old address stands across the end of a header field, where another last byte would
change the field. -/
def StraddlesAt (oldText newText : ℕ) (R : List UInt8) : Prop :=
  constShift newText % 256 ≠ 0 ∧
    ∃ i ∈ [0x213, 0x267], slice i 8 R = toLE 8 (0x30008000 + constShift oldText)

section Headers

variable (h : Headed newText align R) (hR : kLcEnd ≤ R.length) (hold : 0x60 ≤ oldText)
  (hold' : oldText < 0x3000) (hnew : 0x60 ≤ newText) (hnew' : newText < 0x3000) (ha : align < 48)

include h hR hold hold' hnew hnew' ha

/-- The bytes of the headers stay, except for two. -/
lemma getElem?_readdressed_header {k : ℕ}
    (hk : 0x200 ≤ k ∧ k < 0x213 ∨ 0x250 ≤ k ∧ k < 0x267) :
    (readdressed oldText newText R)[k]? = R[k]? := by
  obtain ⟨hsdvd, hspos, hslt⟩ := constShift_spec hold hold'
  obtain ⟨htdvd, -, htlt⟩ := constShift_spec hnew hnew'
  rcases getElem?_readdressed hR hold' hnew' k with heq | ⟨j, hj, hocc, heq⟩
  · exact heq
  · rcases hk with ⟨hk, hk'⟩ | ⟨hk, hk'⟩
    · exact absurd hocc (not_occurs_text hslt hspos hnew' h.textAddr h.textSize h.textOff (by omega)
        (by omega))
    · by_cases hown : j = 0x250
      · subst hown
        have hbyte := getElem?_of_slice_eq h.constAddr (k := k - 0x250) (by omega)
        rw [Nat.add_sub_cancel' hk] at hbyte
        rw [heq, hbyte]
      · exact absurd hocc (not_occurs_const hslt hsdvd htlt htdvd ha h.constAddr h.constSize
          h.constOff h.constAlign (by omega) (by omega) hown)

/-- The fields stay, except for the last bytes of two. -/
lemma slice_readdressed {off w : ℕ}
    (hoff : 0x200 ≤ off ∧ off + w ≤ 0x213 ∨ 0x250 ≤ off ∧ off + w ≤ 0x267) :
    slice off w (readdressed oldText newText R) = slice off w R :=
  slice_congr fun k hk hk' => getElem?_readdressed_header h hR hold hold' hnew hnew' ha (by omega)

/-- The last byte of such a field. -/
lemma getElem?_readdressed_last {k : ℕ} (hk : k = 0x213 ∨ k = 0x267) (hzero : byteAt R k = 0) :
    (byteAt (readdressed oldText newText R) k ≠ 0 ↔ constShift newText % 256 ≠ 0 ∧
      slice k 8 R = toLE 8 (0x30008000 + constShift oldText)) := by
  obtain ⟨hsdvd, hspos, hslt⟩ := constShift_spec hold hold'
  obtain ⟨htdvd, -, htlt⟩ := constShift_spec hnew hnew'
  constructor
  · intro hne
    rcases getElem?_readdressed hR hold' hnew' k with heq | ⟨j, hj, hocc, heq⟩
    · rw [byteAt, List.getD_eq_getElem?_getD, heq, ← List.getD_eq_getElem?_getD] at hne
      exact absurd hzero hne
    · rcases hj with rfl | hj
      · rw [byteAt, List.getD_eq_getElem?_getD, heq, Nat.sub_self, getElem?_toLE _ (by norm_num),
          Option.getD_some, UInt8.toNat_ofNat'] at hne
        refine ⟨fun hz => hne ?_, hocc⟩
        omega
      · rcases hk with rfl | rfl
        · exact absurd hocc (not_occurs_text hslt hspos hnew' h.textAddr h.textSize h.textOff
            (by omega) (by omega))
        · exact absurd hocc (not_occurs_const hslt hsdvd htlt htdvd ha h.constAddr h.constSize
            h.constOff h.constAlign (by omega) (by omega) (by omega))
  · rintro ⟨hne, hocc⟩
    have hlast := getElem?_readdressed_of_occurs hR hold' hnew' (j := k) (by omega)
      (by simp only [kLcEnd, kTextFileOff]; omega) hocc (fun l hl hl' => ?_)
    · rw [byteAt, List.getD_eq_getElem?_getD, hlast, Option.getD_some, UInt8.toNat_ofNat']
      omega
    · rcases hk with rfl | rfl
      · exact not_occurs_text hslt hspos hnew' h.textAddr h.textSize h.textOff (by omega) (by omega)
      · exact not_occurs_const hslt hsdvd htlt htdvd ha h.constAddr h.constSize h.constOff
          h.constAlign (by omega) (by omega) (by omega)

/-- **The headers after the search.**  They are in order unless the old address stands across the
end of a field. -/
theorem headed_readdressed_iff : (∃ a < 48, Headed newText a (readdressed oldText newText R)) ↔
    ¬ StraddlesAt oldText newText R := by
  have hlen : (readdressed oldText newText R).length = R.length := length_replaceFrom (by simp) hR
  have hlast := fun k hk => @getElem?_readdressed_last R oldText newText align h hR hold hold' hnew
    hnew' ha k hk
  have hslice := fun off w hoff => @slice_readdressed R oldText newText align h hR hold hold' hnew
    hnew' ha off w hoff
  have htop := (byteAt_four h.textOff).2.2.2
  have htop' := (byteAt_four h.constAlign).2.2.2
  norm_num at htop htop'
  rw [Nat.div_eq_of_lt (by omega)] at htop'
  constructor
  · rintro ⟨a, ha', hr⟩ ⟨hne, i, hi, hocc⟩
    have hr₁ := (byteAt_four hr.textOff).2.2.2
    have hr₂ := (byteAt_four hr.constAlign).2.2.2
    norm_num at hr₁ hr₂
    rw [Nat.div_eq_of_lt (by omega)] at hr₂
    simp only [List.mem_cons, List.not_mem_nil, or_false] at hi
    rcases hi with rfl | rfl
    · exact (hlast _ (Or.inl rfl) htop).mpr ⟨hne, hocc⟩ hr₁
    · exact (hlast _ (Or.inr rfl) htop').mpr ⟨hne, hocc⟩ hr₂
  · intro hfree
    have hbyte : ∀ k, k = 0x213 ∨ k = 0x267 → byteAt R k = 0 →
        (readdressed oldText newText R)[k]? = R[k]? := by
      intro k hk hzero
      have hr : byteAt (readdressed oldText newText R) k = 0 := by
        by_contra hne
        obtain ⟨hshift, hocc⟩ := (hlast k hk hzero).mp hne
        exact hfree ⟨hshift, k, by rcases hk with rfl | rfl <;> simp, hocc⟩
      exact getElem?_of_byteAt hlen (hr.trans hzero.symm)
    refine ⟨align, ha, ?_⟩
    exact {
      textAddr := (hslice _ _ (by omega)).trans h.textAddr
      textSize := (hslice _ _ (by omega)).trans h.textSize
      textOff := (slice_succ_congr (hslice 0x210 3 (by omega)) (hbyte _ (Or.inl rfl) htop)).trans
        h.textOff
      constAddr := (hslice _ _ (by omega)).trans h.constAddr
      constSize := (hslice _ _ (by omega)).trans h.constSize
      constOff := (hslice _ _ (by omega)).trans h.constOff
      constAlign := (slice_succ_congr (hslice 0x264 3 (by omega)) (hbyte _ (Or.inr rfl)
        htop')).trans h.constAlign }

end Headers

end Readdressed

/-! ## Headers of well-formed files -/

section Headed

variable {b d hwx : List UInt8} {off w n text align : ℕ}

lemma slice_eq_toLE (h : ofLE (slice off w b) = n) (hlen : off + w ≤ b.length) :
    slice off w b = toLE w n := by
  have hself := toLE_ofLE (slice off w b)
  rwa [length_slice hlen, h, eq_comm] at hself

lemma ofLE_eq (h : slice off w b = toLE w n) (hn : n < 256 ^ w) : ofLE (slice off w b) = n := by
  rw [h, ofLE_toLE, Nat.mod_eq_of_lt hn]

/-- The headers of a well-formed file. -/
lemma WellFormed.headed (h : WellFormed hwx) :
    Headed (textSize hwx) (ofLE (slice 0x264 4 hwx)) hwx := by
  have hlen := h.length_ge
  have haddr : ofLE (slice 0x250 8 hwx) = _ := h.constAddr
  have hoff : ofLE (slice 0x260 4 hwx) = _ := h.constOff
  rw [constOffset_eq, Nat.add_sub_cancel_left] at haddr
  rw [constOffset_eq] at hoff
  exact {
    textAddr := slice_eq_toLE h.textAddr (by omega)
    textSize := slice_eq_toLE rfl (by omega)
    textOff := slice_eq_toLE h.textOff (by omega)
    constAddr := slice_eq_toLE haddr (by omega)
    constSize := slice_eq_toLE h.constSize (by omega)
    constOff := slice_eq_toLE hoff (by omega)
    constAlign := slice_eq_toLE rfl (by omega) }

lemma Headed.textSize_eq (h : Headed text align hwx) (hlt : text < 0x3000) :
    HwxEmitter.textSize hwx = text :=
  ofLE_eq h.textSize (by omega)

/-- A valid file with the headers and enough room is well formed. -/
lemma Headed.wellFormed (h : Headed text align hwx) (hvalid : validHwx hwx = .ok true)
    (hdvd : 4 ∣ text) (hge : 0x60 ≤ text) (hlt : text < 0x3000) (ha : align < 48)
    (hlong : constOffset text + kConstSize ≤ hwx.length) : WellFormed hwx := by
  have htext := h.textSize_eq hlt
  have hshift := constShift_spec hge hlt
  exact {
    valid := hvalid
    textAddr := ofLE_eq h.textAddr (by norm_num)
    textSize_dvd := htext.symm ▸ hdvd
    textSize_ge := htext.symm ▸ hge
    textSize_lt := htext.symm ▸ hlt
    textOff := ofLE_eq h.textOff (by norm_num)
    constAddr := by
      rw [htext, constOffset_eq, Nat.add_sub_cancel_left]
      exact ofLE_eq h.constAddr (by norm_num; omega)
    constSize := ofLE_eq h.constSize (by norm_num)
    constOff := by
      rw [htext, constOffset_eq]
      exact ofLE_eq h.constOff (by norm_num; omega)
    constAlign := (ofLE_eq h.constAlign (by norm_num; omega)).trans_lt ha
    long := htext.symm ▸ hlong }

/-- Headers are a matter of 104 bytes. -/
lemma Headed.congr (h : Headed text align b)
    (hsame : ∀ k, 0x200 ≤ k → k < 0x268 → d[k]? = b[k]?) : Headed text align d := by
  have hslice : ∀ off w, 0x200 ≤ off → off + w ≤ 0x268 → slice off w d = slice off w b :=
    fun off w hoff hw => slice_congr fun k hk hk' => hsame k (by omega) (by omega)
  exact {
    textAddr := (hslice _ _ (by omega) (by omega)).trans h.textAddr
    textSize := (hslice _ _ (by omega) (by omega)).trans h.textSize
    textOff := (hslice _ _ (by omega) (by omega)).trans h.textOff
    constAddr := (hslice _ _ (by omega) (by omega)).trans h.constAddr
    constSize := (hslice _ _ (by omega) (by omega)).trans h.constSize
    constOff := (hslice _ _ (by omega) (by omega)).trans h.constOff
    constAlign := (hslice _ _ (by omega) (by omega)).trans h.constAlign }

/-- The test of a file looks at its length and at its first four bytes. -/
lemma validHwx_congr (h : validHwx b = .ok true) (hlen : b.length ≤ d.length)
    (hsame : ∀ k < 4, d[k]? = b[k]?) : validHwx d = .ok true := by
  obtain ⟨hmin, hmagic⟩ := validHwx_eq_ok_true_iff.mp h
  have hslice : slice 0 4 d = slice 0 4 b := slice_congr fun k _ hk => hsame k (by omega)
  exact validHwx_eq_ok_true_iff.mpr ⟨hmin.trans hlen, hslice ▸ hmagic⟩

end Headed

/-! ## Numbers in a file -/

section Numbers

variable {b : List UInt8} {off i k v w n : ℕ}

lemma slice_put_toLE (h : off + w ≤ b.length) : slice off w (put off (toLE w n) b) = toLE w n := by
  have hself : slice off (toLE w n).length (put off (toLE w n) b) = toLE w n :=
    slice_put_self (by simpa using h)
  rwa [length_toLE] at hself

lemma slice_put_toLE_of_disjoint (h : off + w ≤ b.length) (hd : off + w ≤ i ∨ i + v ≤ off) :
    slice i v (put off (toLE w n) b) = slice i v b :=
  slice_put_of_disjoint (by simpa using h) (by simpa using hd)

lemma getElem?_put_toLE (h : off + w ≤ b.length) (hk : k < off ∨ off + w ≤ k) :
    (put off (toLE w n) b)[k]? = b[k]? := by
  rw [getElem?_put (by simpa using h), if_neg (by rw [length_toLE]; omega)]

lemma slice_toLE_skip : slice (off + w) v (toLE w n ++ b) = slice off v b :=
  slice_skip w (length_toLE w n)

lemma slice_toLE_head : slice 0 w (toLE w n ++ b) = toLE w n := slice_head (length_toLE w n)

end Numbers

/-! ## The words of the operation -/

section Words

variable {hwx : List UInt8} {cfg : OpConfig}

lemma ofNat_ofLE_toLE (v : UInt32) : UInt32.ofNat (ofLE (toLE 4 v.toNat)) = v := by
  have hlt : v.toNat < 256 ^ 4 := v.toNat_lt
  rw [ofLE_toLE, Nat.mod_eq_of_lt hlt, UInt32.ofNat_toNat]

/-- Each of the four words fits into the file as it is then. -/
lemma words_fit (h : kMinHwxSize ≤ hwx.length) {w₁ w₂ w₃ : ℕ} :
    kPPProgramSize + 4 ≤ hwx.length ∧
      kPPStageFlags + 4 ≤ (put kPPProgramSize (toLE 4 w₁) hwx).length ∧
      kPPOpcode + 4 ≤
        (put kPPStageFlags (toLE 4 w₂) (put kPPProgramSize (toLE 4 w₁) hwx)).length ∧
      kPPExtraConfig + 4 ≤ (put kPPOpcode (toLE 4 w₃)
        (put kPPStageFlags (toLE 4 w₂) (put kPPProgramSize (toLE 4 w₁) hwx))).length := by
  have hmin : 0x4060 ≤ hwx.length := h
  simp only [kPPProgramSize, kPPStageFlags, kPPOpcode, kPPExtraConfig]
  have l₁ : (put 0x4010 (toLE 4 w₁) hwx).length = hwx.length := length_put_toLE (by omega)
  have l₂ : (put 0x4030 (toLE 4 w₂) (put 0x4010 (toLE 4 w₁) hwx)).length = _ :=
    length_put_toLE (by omega)
  have l₃ : (put 0x404C (toLE 4 w₃) (put 0x4030 (toLE 4 w₂)
      (put 0x4010 (toLE 4 w₁) hwx))).length = _ := length_put_toLE (by omega)
  omega

/-- The words are written at their places. -/
lemma slice_patchWords (h : kMinHwxSize ≤ hwx.length) :
    slice kPPProgramSize 4 (patchWords cfg hwx) = toLE 4 cfg.programSize.toNat ∧
      slice kPPStageFlags 4 (patchWords cfg hwx) = toLE 4 cfg.stageFlags.toNat ∧
      slice kPPOpcode 4 (patchWords cfg hwx) = toLE 4 cfg.opcode.toNat ∧
      slice kPPExtraConfig 4 (patchWords cfg hwx) = toLE 4 cfg.extraConfig.toNat := by
  obtain ⟨f₁, f₂, f₃, f₄⟩ := @words_fit hwx h cfg.programSize.toNat cfg.stageFlags.toNat
    cfg.opcode.toNat
  rw [patchWords]
  refine ⟨?_, ?_, ?_, slice_put_toLE f₄⟩
  · rw [slice_put_toLE_of_disjoint f₄ (by decide), slice_put_toLE_of_disjoint f₃ (by decide),
      slice_put_toLE_of_disjoint f₂ (by decide), slice_put_toLE f₁]
  · rw [slice_put_toLE_of_disjoint f₄ (by decide), slice_put_toLE_of_disjoint f₃ (by decide),
      slice_put_toLE f₂]
  · rw [slice_put_toLE_of_disjoint f₄ (by decide), slice_put_toLE f₃]

/-- All other bytes stay. -/
lemma getElem?_patchWords (h : kMinHwxSize ≤ hwx.length) {k : ℕ} (hk : k < 0x4010 ∨ 0x4060 ≤ k) :
    (patchWords cfg hwx)[k]? = hwx[k]? := by
  obtain ⟨f₁, f₂, f₃, f₄⟩ := @words_fit hwx h cfg.programSize.toNat cfg.stageFlags.toNat
    cfg.opcode.toNat
  simp only [kPPProgramSize, kPPStageFlags, kPPOpcode, kPPExtraConfig] at f₁ f₂ f₃ f₄
  simp only [patchWords, kPPProgramSize, kPPStageFlags, kPPOpcode, kPPExtraConfig]
  rw [getElem?_put_toLE f₄ (by omega), getElem?_put_toLE f₃ (by omega),
    getElem?_put_toLE f₂ (by omega), getElem?_put_toLE f₁ (by omega)]

/-- The words of a file, written over it. -/
lemma patchWords_configOf (h : kMinHwxSize ≤ hwx.length) : patchWords (configOf hwx) hwx = hwx := by
  have hmin : 0x4060 ≤ hwx.length := h
  have hword : ∀ off, off + 4 ≤ 0x4060 →
      put off (toLE 4 (UInt32.ofNat (ofLE (slice off 4 hwx))).toNat) hwx = hwx := fun off hoff => by
    have hlen : (slice off 4 hwx).length = 4 := length_slice (by omega)
    have hlt := ofLE_lt (slice off 4 hwx)
    have hself := toLE_ofLE (slice off 4 hwx)
    rw [hlen] at hlt hself
    have hlt' : ofLE (slice off 4 hwx) < 2 ^ 32 := hlt
    rw [UInt32.toNat_ofNat', Nat.mod_eq_of_lt hlt', hself]
    exact put_slice_self (by omega)
  simp only [patchWords, configOf]
  rw [hword _ (by decide), hword _ (by decide), hword _ (by decide), hword _ (by decide)]

end Words

/-! ## The layout change -/

section Layout

variable {tmpl b b₀ : List UInt8} {cfg : OpConfig} {oldText newText needed k : ℕ}

lemma getElem?_growTo (hk : k < b.length) : (growTo b needed)[k]? = b[k]? := by
  rw [growTo, List.getElem?_append_left hk]

/-- Clearing the end of `__text` touches nothing else. -/
lemma getElem?_cleared (hb : newText < oldText → 0x4000 + oldText ≤ b.length)
    (hk : k < 0x4000 + newText ∨ 0x4000 + oldText ≤ k) :
    (cleared oldText newText b)[k]? = b[k]? := by
  rw [cleared]
  split_ifs with hlt
  · have hlen := hb hlt
    rw [getElem?_put (by simp only [List.length_replicate, kTextFileOff]; omega), if_neg]
    simp only [List.length_replicate, kTextFileOff]
    omega
  · rfl

/-- The move of `__const` touches nothing before the two places. -/
lemma getElem?_movedConst (hle : b₀.length ≤ b.length)
    (hroom : constOffset newText + kConstSize ≤ b.length) (hk : k < constOffset oldText)
    (hk' : k < constOffset newText) : (movedConst oldText newText b₀ b)[k]? = b[k]? := by
  rw [movedConst]
  split_ifs with hmove
  · have hfill : (put (constOffset oldText) (List.replicate
        (constOffset oldText + kConstSize - constOffset oldText) 0) b).length = b.length :=
      length_put (by rw [List.length_replicate]; omega)
    have hsaved : (slice (constOffset oldText) kConstSize b₀).length = kConstSize :=
      length_slice hmove.2
    rw [getElem?_put (by omega), if_neg (by omega),
      getElem?_put (by rw [List.length_replicate]; omega), if_neg (by omega)]
  · rfl

/-- `__const` arrives whole. -/
lemma slice_movedConst (hfit : constOffset oldText + kConstSize ≤ b₀.length)
    (hle : b₀.length ≤ b.length) (hroom : constOffset newText + kConstSize ≤ b.length)
    (hkeep : constOffset oldText = constOffset newText →
      slice (constOffset newText) kConstSize b = slice (constOffset oldText) kConstSize b₀) :
    slice (constOffset newText) kConstSize (movedConst oldText newText b₀ b) =
      slice (constOffset oldText) kConstSize b₀ := by
  rw [movedConst]
  split_ifs with hmove
  · have hfill : (put (constOffset oldText) (List.replicate
        (constOffset oldText + kConstSize - constOffset oldText) 0) b).length = b.length :=
      length_put (by rw [List.length_replicate]; omega)
    have hsaved : (slice (constOffset oldText) kConstSize b₀).length = kConstSize :=
      length_slice hfit
    have hself : slice (constOffset newText) (slice (constOffset oldText) kConstSize b₀).length
        (put (constOffset newText) (slice (constOffset oldText) kConstSize b₀)
          (put (constOffset oldText) (List.replicate
            (constOffset oldText + kConstSize - constOffset oldText) 0) b)) = _ :=
      slice_put_self (by omega)
    rwa [hsaved] at hself
  · exact hkeep (by by_contra hne; exact hmove ⟨hne, hfit⟩)

/-- Each of the three header fields fits. -/
lemma headers_fit (hb : 0x4000 ≤ b.length) {w₁ w₂ : ℕ} :
    kTextSectSizeOff + 8 ≤ b.length ∧
      kConstVmaddrOff + 8 ≤ (put kTextSectSizeOff (toLE 8 w₁) b).length ∧
      kConstFileoffOff + 4 ≤
        (put kConstVmaddrOff (toLE 8 w₂) (put kTextSectSizeOff (toLE 8 w₁) b)).length := by
  simp only [kTextSectSizeOff, kConstVmaddrOff, kConstFileoffOff]
  have l₁ : (put 0x208 (toLE 8 w₁) b).length = b.length := length_put_toLE (by omega)
  have l₂ : (put 0x250 (toLE 8 w₂) (put 0x208 (toLE 8 w₁) b)).length = _ :=
    length_put_toLE (by omega)
  omega

/-- The rewritten headers change nothing else. -/
lemma getElem?_rewritten (hb : 0x4000 ≤ b.length) (hk : k < 0x208 ∨ 0x210 ≤ k ∧ k < 0x250 ∨
    0x258 ≤ k ∧ k < 0x260 ∨ 0x264 ≤ k) : (rewritten newText b)[k]? = b[k]? := by
  obtain ⟨f₁, f₂, f₃⟩ := @headers_fit b hb (UInt64.ofNat newText).toNat
    (constVm (constOffset newText)).toNat
  simp only [kTextSectSizeOff, kConstVmaddrOff, kConstFileoffOff] at f₁ f₂ f₃
  simp only [rewritten, kTextSectSizeOff, kConstVmaddrOff, kConstFileoffOff]
  rw [getElem?_put_toLE f₃ (by omega), getElem?_put_toLE f₂ (by omega),
    getElem?_put_toLE f₁ (by omega)]

/-- The section headers are written at their places. -/
lemma slice_rewritten (hb : 0x4000 ≤ b.length) (hlt : newText < 0x3000) :
    slice 0x208 8 (rewritten newText b) = toLE 8 newText ∧
      slice 0x250 8 (rewritten newText b) = toLE 8 (0x30008000 + constShift newText) ∧
      slice 0x260 4 (rewritten newText b) = toLE 4 (0x4000 + constShift newText) := by
  obtain ⟨f₁, f₂, f₃⟩ := @headers_fit b hb (UInt64.ofNat newText).toNat
    (constVm (constOffset newText)).toNat
  have htext : (UInt64.ofNat newText).toNat = newText := by
    rw [UInt64.toNat_ofNat', Nat.mod_eq_of_lt (by omega)]
  have hoff : (UInt32.ofNat (constOffset newText)).toNat = 0x4000 + constShift newText := by
    rw [UInt32.toNat_ofNat', constOffset_eq, constShift, Nat.mod_eq_of_lt (by omega)]
  rw [rewritten, hoff, htext]
  rw [htext] at f₂ f₃
  rw [constVm_toNat hlt] at f₃ ⊢
  refine ⟨?_, ?_, slice_put_toLE f₃⟩
  · rw [slice_put_toLE_of_disjoint f₃ (by decide), slice_put_toLE_of_disjoint f₂ (by decide)]
    exact slice_put_toLE f₁
  · rw [slice_put_toLE_of_disjoint f₃ (by decide)]
    exact slice_put_toLE f₂

/-- The search stays before `__text`, and behind the magic number. -/
lemma getElem?_readdressed_of_ge (hb : kLcEnd ≤ b.length) (hk : k < 0x20 ∨ kLcEnd ≤ k) :
    (readdressed oldText newText b)[k]? = b[k]? := by
  have hlen : (toLE 8 (constVm (constOffset newText)).toNat).length =
      (toLE 8 (constVm (constOffset oldText)).toNat).length := by simp
  rw [readdressed]
  rcases getElem?_replaceFrom hlen hb k with heq | ⟨j, hj, hjk, hkj, hstop, -⟩
  · exact heq
  · omega

end Layout

/-! ## One file patched with the operation of another -/

section Pair

variable {tmpl src : List UInt8} (ht : WellFormed tmpl) (hs : WellFormed src)

/-- The file before its headers are rewritten. -/
def moved (tmpl src : List UInt8) : List UInt8 :=
  movedConst (textSize tmpl) (textSize src) (patchWords (configOf src) tmpl)
    (cleared (textSize tmpl) (textSize src)
      (growTo (patchWords (configOf src) tmpl) (constOffset (textSize src) + kConstSize)))

include ht hs

/-- What the move of `__const` leaves in place. -/
lemma moved_spec : (moved tmpl src).length =
      max tmpl.length (constOffset (textSize src) + kConstSize) ∧
    (∀ k < 0x4000, (moved tmpl src)[k]? = tmpl[k]?) ∧
    (∀ k, 0x4000 ≤ k → k < 0x4060 →
      (moved tmpl src)[k]? = (patchWords (configOf src) tmpl)[k]?) ∧
    slice (constOffset (textSize src)) kConstSize (moved tmpl src) = constBytes tmpl := by
  have hmin : kMinHwxSize ≤ tmpl.length := (validHwx_eq_ok_true_iff.mp ht.valid).1
  have hlen : (patchWords (configOf src) tmpl).length = tmpl.length :=
    (wr32_words Except.ok (configOf src) hmin).2
  have hlong : constOffset (textSize tmpl) + kConstSize ≤ tmpl.length := ht.long
  have hn := ht.textSize_ge
  have hs' := hs.textSize_ge
  have hle := le_constOffset (textSize tmpl)
  have hle' := le_constOffset (textSize src)
  simp only [kTextFileOff] at hle hle'
  -- the lengths of the stages
  have hgrow := length_growTo (b := patchWords (configOf src) tmpl)
    (constOffset (textSize src) + kConstSize)
  have hin : textSize src < textSize tmpl → 0x4000 + textSize tmpl ≤
      (growTo (patchWords (configOf src) tmpl)
        (constOffset (textSize src) + kConstSize)).length := by omega
  have hclear := length_cleared hin
  have hmove := (@moveConst_eq (cleared (textSize tmpl) (textSize src)
    (growTo (patchWords (configOf src) tmpl) (constOffset (textSize src) + kConstSize)))
    (textSize tmpl) (textSize src) (patchWords (configOf src) tmpl) (by omega) (by omega)).2
  -- the bytes before the two places of `__const`
  have hbefore : ∀ k < 0x4060, (moved tmpl src)[k]? = (patchWords (configOf src) tmpl)[k]? := by
    intro k hk
    rw [moved, getElem?_movedConst (by omega) (by omega) (by omega) (by omega),
      getElem?_cleared hin (by omega), getElem?_growTo (by omega)]
  refine ⟨by rw [moved, hmove, hclear, hgrow, hlen], fun k hk => ?_, fun k _ hk => hbefore k hk, ?_⟩
  · rw [hbefore k (by omega), getElem?_patchWords hmin (by omega)]
  · have hword : slice (constOffset (textSize tmpl)) kConstSize (patchWords (configOf src) tmpl) =
        constBytes tmpl :=
      slice_congr fun k hk _ => getElem?_patchWords hmin (by omega)
    rw [moved, ← hword]
    refine slice_movedConst (by omega) (by omega) (by omega) fun heq => ?_
    have hstay : slice (constOffset (textSize src)) kConstSize (cleared (textSize tmpl)
        (textSize src) (growTo (patchWords (configOf src) tmpl)
          (constOffset (textSize src) + kConstSize))) =
        slice (constOffset (textSize src)) kConstSize (patchWords (configOf src) tmpl) :=
      slice_congr fun k hk hk' => by
        rw [getElem?_cleared hin (by omega), getElem?_growTo (by omega)]
    rw [hstay, heq]

/-- The file with another layout, its headers and all. -/
lemma relocated_spec : ∃ R r : List UInt8,
    relocated (configOf src) (configOf tmpl) (patchWords (configOf src) tmpl) = r ∧
    Headed (textSize src) (ofLE (slice 0x264 4 tmpl)) R ∧ kLcEnd ≤ R.length ∧
    (∀ i ∈ [0x213, 0x267], slice i 8 R = slice i 8 tmpl) ∧
    r.length = max tmpl.length (constOffset (textSize src) + kConstSize) ∧
    (∀ k, 0x200 ≤ k → k < 0x268 →
      r[k]? = (readdressed (textSize tmpl) (textSize src) R)[k]?) ∧
    (∀ k < 4, r[k]? = tmpl[k]?) ∧
    (∀ k, 0x4000 ≤ k → r[k]? = (moved tmpl src)[k]?) := by
  obtain ⟨hlen, hbefore, -, -⟩ := moved_spec ht hs
  have hmin := ht.length_ge
  have hhead := ht.headed
  have hlt := hs.textSize_lt
  have hM : 0x4000 ≤ (moved tmpl src).length := by omega
  obtain ⟨hrewrite, hR, hr⟩ := @wr_headers (moved tmpl src) (textSize tmpl) (textSize src)
    (configOf src).numWords hM
  obtain ⟨hsize, haddr, hoff⟩ := slice_rewritten hM hlt
  have hfield : ∀ off w, off + w ≤ 0x208 ∨ 0x210 ≤ off ∧ off + w ≤ 0x250 ∨
      0x258 ≤ off ∧ off + w ≤ 0x260 ∨ 0x264 ≤ off ∧ off + w ≤ 0x4000 →
      slice off w (rewritten (textSize src) (moved tmpl src)) = slice off w tmpl :=
    fun off w h => slice_congr fun k hk hk' => by
      rw [getElem?_rewritten hM (by omega), hbefore k (by omega)]
  have hput : ∀ k, k < 0xAE4 ∨ 0xAE8 ≤ k →
      (put kTdInstrCntOff (toLE 4 (configOf src).numWords.toNat) (readdressed (textSize tmpl)
        (textSize src) (rewritten (textSize src) (moved tmpl src))))[k]? =
      (readdressed (textSize tmpl) (textSize src)
        (rewritten (textSize src) (moved tmpl src)))[k]? := fun k hk => by
    simp only [kTdInstrCntOff]
    rw [getElem?_put (by rw [length_toLE]; omega), if_neg (by rw [length_toLE]; omega)]
  have hLc : kLcEnd ≤ (rewritten (textSize src) (moved tmpl src)).length := by
    rw [hR]
    exact hM
  refine ⟨rewritten (textSize src) (moved tmpl src), _, rfl, ?_, hLc, ?_, ?_, ?_, ?_, ?_⟩
  · exact {
      textAddr := (hfield _ _ (by omega)).trans hhead.textAddr
      textSize := hsize
      textOff := (hfield _ _ (by omega)).trans hhead.textOff
      constAddr := haddr
      constSize := (hfield _ _ (by omega)).trans hhead.constSize
      constOff := hoff
      constAlign := (hfield _ _ (by omega)).trans hhead.constAlign }
  · intro i hi
    simp only [List.mem_cons, List.not_mem_nil, or_false] at hi
    rcases hi with rfl | rfl <;> exact hfield _ _ (by omega)
  all_goals rw [relocated, hs.textBytes, ht.textBytes]
  · have hfit : kTdInstrCntOff + 4 ≤ (readdressed (textSize tmpl) (textSize src)
        (rewritten (textSize src) (moved tmpl src))).length := by
      simp only [kTdInstrCntOff]
      omega
    exact (length_put_toLE hfit).trans (hr.trans hlen)
  · exact fun k _ hk => hput k (by omega)
  · intro k hk
    refine (hput k (by omega)).trans ?_
    rw [getElem?_readdressed_of_ge hLc (by omega), getElem?_rewritten hM (by omega),
      hbefore k (by omega)]
  · intro k hk
    refine (hput k (by omega)).trans ?_
    rw [getElem?_readdressed_of_ge hLc (Or.inr hk), getElem?_rewritten hM (by omega)]

omit hs in
/-- The words of the operation, when the words and the size of `__text` are those of `src`. -/
lemma configOf_eq {r : List UInt8} (hwords : ∀ k, 0x4000 ≤ k → k < 0x4060 →
    r[k]? = (patchWords (configOf src) tmpl)[k]?) (htext : textSize r = textSize src) :
    configOf r = configOf src := by
  have hmin : kMinHwxSize ≤ tmpl.length := (validHwx_eq_ok_true_iff.mp ht.valid).1
  obtain ⟨w₁, w₂, w₃, w₄⟩ := @slice_patchWords tmpl (configOf src) hmin
  have hword : ∀ off, 0x4000 ≤ off → off + 4 ≤ 0x4060 →
      slice off 4 r = slice off 4 (patchWords (configOf src) tmpl) := fun off hoff hoff' =>
    slice_congr fun k hk hk' => hwords k (by omega) (by omega)
  have hnum : (configOf r).numWords = (configOf src).numWords := by
    show UInt32.ofNat (UInt64.ofNat (textSize r) / 4).toNat = _
    rw [htext]
    rfl
  have h₁ : (configOf r).programSize = (configOf src).programSize := by
    show UInt32.ofNat (ofLE (slice kPPProgramSize 4 r)) = _
    rw [hword _ (by decide) (by decide), w₁, ofNat_ofLE_toLE]
  have h₂ : (configOf r).stageFlags = (configOf src).stageFlags := by
    show UInt32.ofNat (ofLE (slice kPPStageFlags 4 r)) = _
    rw [hword _ (by decide) (by decide), w₂, ofNat_ofLE_toLE]
  have h₃ : (configOf r).opcode = (configOf src).opcode := by
    show UInt32.ofNat (ofLE (slice kPPOpcode 4 r)) = _
    rw [hword _ (by decide) (by decide), w₃, ofNat_ofLE_toLE]
  have h₄ : (configOf r).extraConfig = (configOf src).extraConfig := by
    show UInt32.ofNat (ofLE (slice kPPExtraConfig 4 r)) = _
    rw [hword _ (by decide) (by decide), w₄, ofNat_ofLE_toLE]
  exact OpConfig.mk.injEq .. |>.mpr ⟨h₁, h₂, h₃, h₄, hnum⟩

/-- **One patch.**  The result has the words of `src` and the `__const` of `tmpl`; it is well formed
unless an address straddles a header field. -/
theorem patchOp_spec : ∃ r, patchOp tmpl (configOf src) (configOf tmpl) = .ok r ∧
    r.length ≠ 0 ∧ kMinHwxSize ≤ r.length ∧ configOf r = configOf src ∧
    constBytes r = constBytes tmpl ∧ (WellFormed r ↔ ¬ Straddles tmpl (configOf src)) := by
  have hmin : kMinHwxSize ≤ tmpl.length := (validHwx_eq_ok_true_iff.mp ht.valid).1
  have hmin' : 0x4060 ≤ tmpl.length := hmin
  have hlong := ht.long
  have hle := le_constOffset (textSize tmpl)
  simp only [kTextFileOff] at hle
  rw [patchOp_eq ht.valid]
  by_cases hwords : (configOf src).numWords = (configOf tmpl).numWords
  · rw [if_pos hwords]
    have hlen : (patchWords (configOf src) tmpl).length = tmpl.length :=
      (wr32_words Except.ok (configOf src) hmin).2
    have hsame : ∀ k, k < 0x4010 ∨ 0x4060 ≤ k →
        (patchWords (configOf src) tmpl)[k]? = tmpl[k]? := fun k hk => getElem?_patchWords hmin hk
    have hsize : textSize src = textSize tmpl := by
      rw [← hs.numWords, ← ht.numWords, hwords]
    have hhead : Headed (textSize tmpl) (ofLE (slice 0x264 4 tmpl))
        (patchWords (configOf src) tmpl) := ht.headed.congr fun k _ hk => hsame k (by omega)
    have htext := hhead.textSize_eq ht.textSize_lt
    have hvalid : validHwx (patchWords (configOf src) tmpl) = .ok true :=
      validHwx_congr ht.valid hlen.ge fun k hk => hsame k (by omega)
    have hge := ht.textSize_ge
    refine ⟨_, rfl, by omega, by omega, configOf_eq ht (fun _ _ _ => rfl) (htext.trans hsize.symm),
      ?_, iff_of_true ?_ fun h => h.1 hwords⟩
    · rw [constBytes, htext]
      exact slice_congr fun k hk _ => hsame k (by omega)
    · exact hhead.wellFormed hvalid ht.textSize_dvd hge ht.textSize_lt ht.constAlign
        (by rw [hlen]; exact hlong)
  · rw [if_neg hwords, if_neg (by rw [hs.textBytes, ht.textBytes]; simp only [kTextFileOff]; omega)]
    obtain ⟨R, r, hr, hR, hRlen, hocc, hlen, hhdr, hmagic, hafter⟩ := relocated_spec ht hs
    obtain ⟨-, -, hword, hconst⟩ := moved_spec ht hs
    rw [hr]
    have hsearch := headed_readdressed_iff hR hRlen ht.textSize_ge ht.textSize_lt hs.textSize_ge
      hs.textSize_lt ht.constAlign
    have hfield : slice 0x208 8 (readdressed (textSize tmpl) (textSize src) R) = slice 0x208 8 R :=
      slice_readdressed hR hRlen ht.textSize_ge ht.textSize_lt hs.textSize_ge hs.textSize_lt
        ht.constAlign (by omega)
    have hsize : slice 0x208 8 r = toLE 8 (textSize src) := by
      rw [← hR.textSize, ← hfield]
      exact slice_congr fun k hk hk' => hhdr k (by omega) (by omega)
    have hlt := hs.textSize_lt
    have htext : textSize r = textSize src := ofLE_eq hsize (by omega)
    have hge := hs.textSize_ge
    have hle' := le_constOffset (textSize src)
    simp only [kTextFileOff] at hle'
    refine ⟨r, rfl, by omega, by omega, configOf_eq ht (fun k hk hk' =>
      (hafter k hk).trans (hword k hk hk')) htext, ?_, ?_⟩
    · rw [constBytes, htext, ← hconst]
      exact slice_congr fun k hk _ => hafter k (by omega)
    · have hstraddle : Straddles tmpl (configOf src) ↔
          StraddlesAt (textSize tmpl) (textSize src) R := by
        have hshift : constOffset (textSize src) % 256 = constShift (textSize src) % 256 := by
          rw [constOffset_eq, constShift]
          omega
        rw [Straddles, StraddlesAt, and_iff_right hwords, hs.textBytes, hshift]
        refine and_congr_right fun _ => exists_congr fun i => and_congr_right fun hi => ?_
        rw [hocc i hi, ← ht.headed.constAddr]
        rfl
      rw [hstraddle, ← hsearch]
      constructor
      · intro hwf
        have hhead := hwf.headed
        rw [htext] at hhead
        exact ⟨_, hwf.constAlign, hhead.congr fun k hk hk' => (hhdr k hk hk').symm⟩
      · rintro ⟨a, ha, hhead⟩
        exact (hhead.congr hhdr).wellFormed (validHwx_congr ht.valid (by omega) hmagic)
          hs.textSize_dvd hge hlt ha (by omega)

end Pair

/-! ## Captures -/

/-- A capture of a well-formed file. -/
structure Capture where
  file : HwxFile
  channels : ℤ
  seq : ℤ
  op : LibaneOp

/-- One capture. -/
def capture (e : HwxEmitter) (c : Capture) : Outcome HwxEmitter := do
  let (_, e) ← e.captureFromModelDir (some c.file.bytes) c.channels c.seq c.op
  return e

/-- The caches hold well-formed files, and the words of such files. -/
structure FromFiles (e : HwxEmitter) : Prop where
  shapes : ∀ key tmpl, e.shapeCache.lookup key = some tmpl → WellFormed tmpl
  ops : ∀ code cfg, e.opCfgCache.lookup code = some cfg → ∃ f : HwxFile, cfg = configOf f.bytes

lemma FromFiles.capture {e : HwxEmitter} (h : FromFiles e) (c : Capture) :
    ∃ e', HwxEmitter.capture e c = .ok e' ∧ FromFiles e' := by
  rw [HwxEmitter.capture, captureFromModelDir_eq c.file.wf.valid, ok_bind]
  refine ⟨_, rfl, fun key tmpl hkey => ?_, fun code cfg hcode => ?_⟩
  · by_cases hmem : (c.channels, c.seq) ∈ e.shapeCache
    · rw [if_pos hmem] at hkey
      exact h.shapes key tmpl hkey
    · rw [if_neg hmem] at hkey
      by_cases heq : key = (c.channels, c.seq)
      · rw [heq, AList.lookup_insert, Option.some.injEq] at hkey
        exact hkey ▸ c.file.wf
      · rw [AList.lookup_insert_ne heq] at hkey
        exact h.shapes key tmpl hkey
  · by_cases hmem : c.op.code ∈ e.opCfgCache
    · rw [if_pos hmem] at hcode
      exact h.ops code cfg hcode
    · rw [if_neg hmem] at hcode
      by_cases heq : code = c.op.code
      · rw [heq, AList.lookup_insert, Option.some.injEq] at hcode
        exact ⟨c.file, hcode.symm⟩
      · rw [AList.lookup_insert_ne heq] at hcode
        exact h.ops code cfg hcode

/-- **Cross-patching.**  After any captures of well-formed files, `emit` answers with a file exactly
when shape and operation are cached.  The file has the cached words of the operation and the
`__const` of the template, it is the template if the words come from there, and it is well formed
exactly when the address of `__const` straddles no header field of the template. -/
theorem emit_cross_patched (captures : List Capture) :
    ∃ e, runM capture {} captures = .ok e ∧ ∀ channels seq op, ∃ r,
      e.emit channels seq op = .ok r ∧
      (r ≠ [] ↔ (e.shapeCache.lookup (channels, seq)).isSome ∧
        (e.opCfgCache.lookup op.code).isSome) ∧
      ∀ tmpl cfg, e.shapeCache.lookup (channels, seq) = some tmpl →
        e.opCfgCache.lookup op.code = some cfg →
        extractOpConfig r = .ok cfg ∧ constBytes r = constBytes tmpl ∧
        (WellFormed r ↔ ¬ Straddles tmpl cfg) ∧ (extractOpConfig tmpl = .ok cfg → r = tmpl) := by
  obtain ⟨e, hrun, hfiles⟩ := runM_induction capture (I := FromFiles) (fun e c h => h.capture c)
    captures {} ⟨fun _ _ h => by simp at h, fun _ _ h => by simp at h⟩
  refine ⟨e, hrun, fun channels seq op => ?_⟩
  cases hshape : e.shapeCache.lookup (channels, seq) with
  | none => exact ⟨[], by rw [emit, hshape], by simp, by simp⟩
  | some tmpl =>
      cases hop : e.opCfgCache.lookup op.code with
      | none => exact ⟨[], by rw [emit, hshape, hop], by simp, by simp⟩
      | some cfg =>
          have ht := hfiles.shapes _ _ hshape
          obtain ⟨src, rfl⟩ := hfiles.ops _ _ hop
          obtain ⟨r, hr, hne, hmin, hcfg, hconst, hwf⟩ := patchOp_spec ht src.wf
          refine ⟨r, (emit_eq ht.valid hshape hop).trans hr, ?_, ?_⟩
          · simpa using hne
          · rintro _ _ ⟨⟩ ⟨⟩
            refine ⟨(extractOpConfig_eq hmin).trans (congrArg _ hcfg), hconst, hwf, fun hsame => ?_⟩
            have hmin' := (validHwx_eq_ok_true_iff.mp ht.valid).1
            have hself : configOf tmpl = configOf src.bytes :=
              Except.ok.inj ((extractOpConfig_eq hmin').symm.trans hsame)
            rw [patchOp_eq ht.valid, if_pos (by rw [hself]), ← hself,
              patchWords_configOf hmin'] at hr
            exact (Except.ok.inj hr).symm

/-- A file with the section headers and zeros otherwise; `textAlign` stands behind the offset of
`__text`. -/
def sampleHwx (text textAlign : ℕ) : List UInt8 :=
  toLE 4 0xBEEFFACE ++ (List.replicate 0x1FC 0 ++ (toLE 8 0x30008000 ++ (toLE 8 text ++
    (toLE 4 0x4000 ++ (toLE 4 textAlign ++ (List.replicate 0x38 0 ++
      (toLE 8 (0x30008000 + constShift text) ++ (toLE 8 0x4000 ++
        (toLE 4 (0x4000 + constShift text) ++ (toLE 4 0 ++
          List.replicate (0x7D98 + constShift text) 0))))))))))

/-- A part of the sample from the section headers on. -/
lemma slice_sampleHwx_skip {off w : ℕ} {b : List UInt8} : slice (off + 0x200) w
    (toLE 4 0xBEEFFACE ++ (List.replicate 0x1FC 0 ++ b)) = slice off w b := by
  have hsum : off + 0x200 = off + 0x1FC + 4 := by omega
  rw [hsum, slice_toLE_skip, slice_skip 0x1FC List.length_replicate]

lemma headed_sampleHwx (text textAlign : ℕ) : Headed text 0 (sampleHwx text textAlign) := by
  have htext : ∀ {off w : ℕ} {n₁ n₂ n₃ : ℕ} {b : List UInt8}, slice (off + 4 + 8 + 8) w
      (toLE 8 n₁ ++ (toLE 8 n₂ ++ (toLE 4 n₃ ++ b))) = slice off w b := fun {off w n₁ n₂ n₃ b} =>
    slice_toLE_skip.trans (slice_toLE_skip.trans slice_toLE_skip)
  have hconst : ∀ {off w n : ℕ} {b : List UInt8},
      slice (off + 0x38 + 4) w (toLE 4 n ++ (List.replicate 0x38 0 ++ b)) = slice off w b :=
    fun {off w n b} => slice_toLE_skip.trans (slice_skip 0x38 List.length_replicate)
  exact {
    textAddr := slice_sampleHwx_skip.trans slice_toLE_head
    textSize := slice_sampleHwx_skip.trans ((slice_toLE_skip (w := 8)).trans slice_toLE_head)
    textOff := slice_sampleHwx_skip.trans
      ((slice_toLE_skip (w := 8)).trans ((slice_toLE_skip (w := 8)).trans slice_toLE_head))
    constAddr := slice_sampleHwx_skip.trans (htext.trans (hconst.trans slice_toLE_head))
    constSize := slice_sampleHwx_skip.trans (htext.trans (hconst.trans
      ((slice_toLE_skip (w := 8)).trans slice_toLE_head)))
    constOff := slice_sampleHwx_skip.trans (htext.trans (hconst.trans
      ((slice_toLE_skip (w := 8)).trans ((slice_toLE_skip (w := 8)).trans slice_toLE_head))))
    constAlign := slice_sampleHwx_skip.trans (htext.trans (hconst.trans
      ((slice_toLE_skip (w := 8)).trans ((slice_toLE_skip (w := 8)).trans
        ((slice_toLE_skip (w := 4)).trans slice_toLE_head))))) }

lemma length_sampleHwx (text textAlign : ℕ) :
    (sampleHwx text textAlign).length = 0x8000 + constShift text := by
  simp only [sampleHwx, List.length_append, length_toLE, List.length_replicate]
  omega

/-- The sample is a well-formed file. -/
lemma wellFormed_sampleHwx (text textAlign : ℕ) (hdvd : 4 ∣ text) (hge : 0x60 ≤ text)
    (hlt : text < 0x3000) : WellFormed (sampleHwx text textAlign) := by
  have hmagic : slice 0 4 (sampleHwx text textAlign) = toLE 4 0xBEEFFACE :=
    slice_head (length_toLE _ _)
  refine (headed_sampleHwx text textAlign).wellFormed (validHwx_eq_ok_true_iff.mpr ⟨?_, ?_⟩) hdvd
    hge hlt (by norm_num) ?_
  · simp only [length_sampleHwx, kMinHwxSize, kTextFileOff]
    omega
  · rw [hmagic, ofLE_toLE]
    rfl
  · rw [length_sampleHwx, constOffset_eq, kConstSize, constShift]
    omega

/-- The eight bytes from the last byte of the offset of `__text` on. -/
lemma slice_sampleHwx (text : ℕ) : slice 0x213 8 (sampleHwx text 0x00300081) =
    toLE 8 0x30008100 :=
  slice_sampleHwx_skip.trans
    ((slice_toLE_skip (w := 8)).trans ((slice_toLE_skip (w := 8)).trans rfl))

/-- A pair of files whose patch is not well formed. -/
lemma exists_broken (tmpl src : HwxFile) (h : Straddles tmpl.bytes (configOf src.bytes)) :
    ∃ e r, runM capture {} [⟨tmpl, 64, 512, .Tanh⟩, ⟨src, 32, 512, .Relu⟩] = .ok e ∧
      e.emit 64 512 .Relu = .ok r ∧ ¬ WellFormed r := by
  obtain ⟨e, he, hshape, hcfg⟩ := twoCaptures_eq tmpl.wf.valid src.wf.valid
  obtain ⟨r, hr, -, -, -, -, hwf⟩ := patchOp_spec tmpl.wf src.wf
  refine ⟨e, r, ?_, (emit_eq tmpl.wf.valid hshape hcfg).trans hr, fun hr => hwf.mp hr h⟩
  rw [twoCaptures, captureFromModelDir_eq tmpl.wf.valid, ok_bind] at he
  dsimp only at he
  rw [captureFromModelDir_eq src.wf.valid] at he
  rw [runM_cons, capture, captureFromModelDir_eq tmpl.wf.valid, ok_bind]
  show runM capture _ [_] = _
  rw [runM_cons, capture, captureFromModelDir_eq src.wf.valid]
  exact he

/-- A `__text` of 256 bytes puts `__const` at `0x30008100`; with `0x00300081` behind the offset of
`__text`, these bytes also stand from the last byte of that offset on.  For an operation with 320
bytes the patcher turns the offset from `0x4000` into `0x40004000`. -/
theorem straddling_breaks_header : ∃ (tmpl src : HwxFile) (e : HwxEmitter) (r : List UInt8),
    runM capture {} [⟨tmpl, 64, 512, .Tanh⟩, ⟨src, 32, 512, .Relu⟩] = .ok e ∧
      e.emit 64 512 .Relu = .ok r ∧ ¬ WellFormed r := by
  have htmpl := wellFormed_sampleHwx 0x100 0x00300081 (by norm_num) (by norm_num) (by norm_num)
  have hsrc := wellFormed_sampleHwx 0x140 0 (by norm_num) (by norm_num) (by norm_num)
  have hsize : textSize (sampleHwx 0x100 0x00300081) = 0x100 :=
    (headed_sampleHwx _ _).textSize_eq (by norm_num)
  have hsize' : textSize (sampleHwx 0x140 0) = 0x140 :=
    (headed_sampleHwx _ _).textSize_eq (by norm_num)
  refine ⟨⟨_, htmpl⟩, ⟨_, hsrc⟩, exists_broken _ _ ⟨fun hwords => ?_, ?_, 0x213, by simp, ?_⟩⟩
  · have h₁ := htmpl.numWords
    have h₂ := hsrc.numWords
    rw [hwords, h₁, hsize, hsize'] at h₂
    omega
  · rw [hsrc.textBytes, hsize']
    decide
  · exact (slice_sampleHwx 0x100).trans (headed_sampleHwx 0x100 0x00300081).constAddr.symm

end HwxEmitter

end Libane
