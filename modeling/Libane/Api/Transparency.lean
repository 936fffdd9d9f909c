import Libane.Api.Programs

/-!
# What the cache hands out

Two entry points file their programs under keys of one type and build them differently.

`libane_matmul_f16` stores its weights by way of fp32, `libane_compile` stores them as they are, and
the keys of the two do not differ.  Whoever asks second gets what the first one has built.  Entries
are never changed, so it is enough to know for which request each was made (`Sound` has it), and
then to compare two requests with one key.  The hash is a hypothesis: two matrices with one hash are
taken for each other.

* `Made` — an entry that was made for a request.
* `Interchangeable` — requests with one key that build the same.
* `cached_programs` — what a request finds in the cache, in every interleaving.
* `cached_programs_own` — when that is always what the request would have built.
-/

namespace Libane

open Bytes MilBuilder Names Runs WeightBlob

section Builds

variable {F : Type} [MilFloat F]

/-! ## Texts -/

/-- The text of a function with one parameter begins with the channels of that parameter. -/
lemma render_channels (f : MilFunction F) {x : String} {K S : ℤ}
    (hparams : f.params = [⟨x, shapeOf K S⟩]) : ∃ rest, f.render.toList =
      (header.toList ++ "    func main<ios18>(tensor<fp16, [1, ".toList) ++
        ((toString K).toList ++ ',' :: rest) := by
  have hparam : ", ".intercalate (f.params.map param) =
      "tensor<fp16, [1, " ++ (toString K ++ (", 1, " ++ toString S ++ "]> " ++ x)) := by
    rw [hparams]
    show "tensor<" ++ "fp16" ++ ", [" ++ (toString (1 : ℤ) ++ ", " ++ toString K ++ ", " ++
      toString (1 : ℤ) ++ ", " ++ toString S) ++ "]>" ++ " " ++ x = _
    apply String.toList_inj.mp
    simp [String.toList_append, show Int.repr 1 = "1" from rfl]
  obtain ⟨tail, htail⟩ : ∃ tail : String, f.render =
      header ++ "    func main<ios18>(" ++ ", ".intercalate (f.params.map param) ++ tail :=
    ⟨") \x7b\n" ++ String.join (f.body.map (·.render)) ++ "    \x7d -> (" ++ f.result ++ ");\n" ++
      "\x7d\n", by simp only [MilFunction.render, String.append_assoc]⟩
  refine ⟨" 1, ".toList ++ (toString S).toList ++ "]> ".toList ++ x.toList ++ tail.toList, ?_⟩
  rw [htail, hparam]
  simp [String.toList_append]

/-- The texts of two matmuls that take differently many channels differ. -/
lemma matmul_channels_inj {K K' N S : ℤ} (hK : 0 < K) (hK' : 0 < K')
    {p p' : SingleProgram F} (h : SingleOp.matmulConv1x1 K N S "weight.bin" = .ok p)
    (h' : SingleOp.matmulConv1x1 K' N S "weight.bin" = .ok p') (htext : p.text = p'.text) :
    K = K' := by
  obtain ⟨n, rfl⟩ := Int.eq_ofNat_of_zero_le hK.le
  obtain ⟨n', rfl⟩ := Int.eq_ofNat_of_zero_le hK'.le
  obtain ⟨rest, hrest⟩ := render_channels p.function (K := n) (S := S) (x := "x")
    (by rw [(validated_eq_ok_iff.mp h).2])
  obtain ⟨rest', hrest'⟩ := render_channels p'.function (K := n') (S := S) (x := "x")
    (by rw [(validated_eq_ok_iff.mp h').2])
  have hp : p.text = p.function.render := by rw [(validated_eq_ok_iff.mp h).2]
  have hp' : p'.text = p'.function.render := by rw [(validated_eq_ok_iff.mp h').2]
  rw [← hp, htext, hp', hrest'] at hrest
  have := numeral_append_inj (by decide) (by decide) (List.append_cancel_left hrest)
  exact congrArg _ this.1.symm

end Builds

/-! ## Interchangeable requests -/

/-- A matrix that is square, and that is its own transpose once its subnormal numbers are
flushed. -/
def MatmulRequest.SelfTransposed (q : MatmulRequest) : Prop :=
  q.K = q.N ∧ transpose q.K.toNat q.N.toNat (q.B.map flush) = q.B

namespace ProgramRequest

/-- The entry is one that was made for the request: what it holds is what the request builds. -/
def Made (F : Type) [MilFloat F] (r : ProgramRequest) (e : EntryPtr) : Prop :=
  ∃ b p, r.build F = .ok b ∧ e.entry = r.entry b p ∧ ∀ q, p = some q → q.program = r.program b

/-- Requests of one entry point, or a matrix that both entry points store alike. -/
def Interchangeable : ProgramRequest → ProgramRequest → Prop
  | Compile _ _ _, Compile _ _ _ => True
  | Matmul _, Matmul _ => True
  | Compile _ _ _, Matmul q => q.SelfTransposed
  | Matmul q, Compile _ _ _ => q.SelfTransposed

variable {F : Type} [MilFloat F] {q q' : MatmulRequest} {b : Build}

/-- The program of a matmul. -/
lemma exists_matmulConv1x1 {K N S : ℤ} (hK : (shapeOf K S).Valid) (hN : (shapeOf N S).Valid) :
    ∃ p : SingleProgram F, SingleOp.matmulConv1x1 K N S "weight.bin" = .ok p ∧
      p.weightName = "weight.bin" :=
  ⟨_, validated_eq_ok_iff.mpr ⟨by simpa using ⟨hK, hN⟩, rfl⟩, rfl⟩

lemma valid_of_matmulConv1x1 {K N S : ℤ} {p : SingleProgram F}
    (h : SingleOp.matmulConv1x1 K N S "weight.bin" = .ok p) :
    (shapeOf K S).Valid ∧ (shapeOf N S).Valid ∧ p.weightName = "weight.bin" := by
  obtain ⟨hvalid, rfl⟩ := validated_eq_ok_iff.mp h
  simp only [List.forall_mem_cons] at hvalid
  exact ⟨hvalid.1, hvalid.2.1, rfl⟩

/-- What a matmul builds. -/
lemma build_matmul_eq_ok_iff : (Matmul q).build F = .ok b ↔
    ∃ p : SingleProgram F, SingleOp.matmulConv1x1 q.K q.N q.M "weight.bin" = .ok p ∧
      b = ⟨p.text, [⟨"weight.bin", matmulWeights q.B q.K q.N⟩]⟩ := by
  rw [build]
  constructor
  · intro h
    cases hp : (SingleOp.matmulConv1x1 q.K q.N q.M "weight.bin" : Outcome (SingleProgram F)) with
    | error e => rw [hp] at h; cases h
    | ok p =>
        rw [hp] at h
        refine ⟨p, rfl, ?_⟩
        rw [← Except.ok.inj h, (valid_of_matmulConv1x1 hp).2.2]
  · rintro ⟨p, hp, rfl⟩
    rw [hp, ← (valid_of_matmulConv1x1 hp).2.2]
    rfl

lemma fromFp16_ne_nil (weights : List UInt8) : fromFp16 weights ≠ [] := by
  intro h
  have := length_makeBlob weights
  rw [show makeBlob weights = [] from h, kDataOffset, List.length_nil] at this
  omega

/-- What `libane_compile` builds for a matmul. -/
lemma build_compile_eq_ok_iff {N M : ℤ} {weights : List UInt8} (hw : weights ≠ []) :
    (Compile .Matmul ⟨1, N, 1, M, 4⟩ weights).build F = .ok b ↔
    ∃ p : SingleProgram F, SingleOp.matmulConv1x1 N N M "weight.bin" = .ok p ∧
      b = ⟨p.text, [⟨"weight.bin", fromFp16 weights⟩]⟩ := by
  have hblob : (Compile .Matmul ⟨1, N, 1, M, 4⟩ weights).blob = fromFp16 weights := if_neg hw
  have hshape : toMilShape ⟨1, N, 1, M, 4⟩ = ⟨1, N, 1, M⟩ := by simp [toMilShape]
  rw [build]
  simp only [hshape, hblob, buildProgram]
  constructor
  · intro h
    cases hp : (SingleOp.matmulConv1x1 N N M "weight.bin" : Outcome (SingleProgram F)) with
    | error e =>
        rw [hp] at h
        cases h
    | ok p =>
        rw [hp] at h
        refine ⟨p, rfl, ?_⟩
        rw [← Except.ok.inj h, (valid_of_matmulConv1x1 hp).2.2,
          if_pos ⟨by decide, fromFp16_ne_nil weights⟩]
  · rintro ⟨p, hp, rfl⟩
    have hname := (valid_of_matmulConv1x1 hp).2.2
    have hcond : p.weightName ≠ "" ∧ fromFp16 weights ≠ [] :=
      ⟨by rw [hname]; decide, fromFp16_ne_nil weights⟩
    rw [hp]
    show Except.ok (Build.mk p.text (if p.weightName ≠ "" ∧ fromFp16 weights ≠ [] then _ else _))
      = _
    rw [if_pos hcond, hname]

lemma valid_of_build_compile {N M : ℤ} {weights : List UInt8}
    (h : (Compile .Matmul ⟨1, N, 1, M, 4⟩ weights).build F = .ok b) : (shapeOf N M).Valid := by
  have hshape : toMilShape ⟨1, N, 1, M, 4⟩ = ⟨1, N, 1, M⟩ := by simp [toMilShape]
  rw [build] at h
  simp only [hshape, buildProgram] at h
  cases hp : (SingleOp.matmulConv1x1 N N M "weight.bin" : Outcome (SingleProgram F)) with
  | error e =>
      rw [hp] at h
      cases h
  | ok p => exact (valid_of_matmulConv1x1 hp).1

/-- The two blobs of a matrix. -/
lemma blobs_eq_iff : fromFp16 (ofHalves q.B) = matmulWeights q.B q.K q.N ↔
    transpose q.K.toNat q.N.toNat (q.B.map flush) = q.B := by
  have hround : (q.B.map promote).map fp32ToFp16 = q.B.map flush := by
    rw [List.map_map]
    exact List.map_congr_left fun h _ => fp32ToFp16_promote h
  rw [fromFp16, matmulWeights, fromFp32, hround, if_pos rfl, makeBlob_injective.eq_iff,
    ofHalves_injective.eq_iff, eq_comm]

lemma ofHalves_ne_nil (hK : 0 < q.K) (hN : 0 < q.N) : ofHalves q.B ≠ [] := by
  intro h
  have hlen : q.B.length = 0 := by
    have := length_ofHalves q.B
    rw [h, List.length_nil] at this
    omega
  have hpos : 0 < q.K.toNat * q.N.toNat := Nat.mul_pos (by omega) (by omega)
  rw [← q.sized, hlen] at hpos
  exact lt_irrefl _ hpos

/-- **Two ways to build a matmul.**  Under one key they agree when the matrix is square and its
own transpose, as far as it is stored. -/
lemma build_mixed_iff (hN : (shapeOf q.N q.M).Valid) :
    (Compile .Matmul ⟨1, q.N, 1, q.M, 4⟩ (ofHalves q.B)).build F = (Matmul q).build F ∧
      (∃ b, (Matmul q).build F = .ok b) ↔ q.SelfTransposed := by
  constructor
  · rintro ⟨heq, b, hb⟩
    obtain ⟨p, hp, hbp⟩ := build_matmul_eq_ok_iff.mp hb
    have hK := (valid_of_matmulConv1x1 hp).1.channels_pos
    obtain ⟨p', hp', hbp'⟩ :=
      (build_compile_eq_ok_iff (ofHalves_ne_nil hK hN.channels_pos)).mp (heq.trans hb)
    rw [hbp, Build.mk.injEq, List.cons.injEq, WeightEntry.mk.injEq] at hbp'
    obtain ⟨htext, ⟨-, hblob⟩, -⟩ := hbp'
    exact ⟨matmul_channels_inj hK hN.channels_pos hp hp' htext, blobs_eq_iff.mp hblob.symm⟩
  · rintro ⟨hsquare, hself⟩
    have hK : (shapeOf q.K q.M).Valid := hsquare ▸ hN
    obtain ⟨p, hp, -⟩ := exists_matmulConv1x1 (F := F) hK hN
    have hb := build_matmul_eq_ok_iff.mpr ⟨p, hp, rfl⟩
    refine ⟨?_, _, hb⟩
    rw [hb, build_compile_eq_ok_iff (ofHalves_ne_nil hK.channels_pos hN.channels_pos)]
    refine ⟨p, ?_, ?_⟩
    · rw [← hsquare] at hp ⊢
      exact hp
    · rw [blobs_eq_iff.mpr hself]

/-- Requests of one entry point under one key are the same request. -/
lemma eq_of_key (hkey : (Matmul q).key = (Matmul q').key) (hB : ofHalves q.B = ofHalves q'.B)
    (hK : 0 < q'.K) (hN : 0 < q'.N) : q = q' := by
  have hshape := congrArg CacheKey.shape hkey
  simp only [key, shape, LibaneShape.mk.injEq, true_and, and_true] at hshape
  obtain ⟨M, K, N, B, sized⟩ := q
  obtain ⟨M', K', N', B', sized'⟩ := q'
  obtain ⟨rfl, rfl⟩ := hshape
  obtain rfl := ofHalves_injective hB
  have hpos : 0 < N.toNat := by simpa using hN
  have hcount : K.toNat * N.toNat = K'.toNat * N.toNat := by rw [← sized, ← sized']
  have heq : K.toNat = K'.toNat := Nat.eq_of_mul_eq_mul_right hpos hcount
  have hpos' : 0 < K'.toNat := by simpa using hK
  obtain rfl : K = K' := by omega
  rfl

/-- **One key.**  Of two requests with the same key and the same weights, one of which builds
something, the other builds the same exactly when they are interchangeable. -/
theorem build_eq_iff {r r' : ProgramRequest} (hkey : r.key = r'.key)
    (hweights : r.weights = r'.weights) {b' : Build} (hb' : r'.build F = .ok b') :
    r.build F = .ok b' ↔ Interchangeable r r' := by
  have hop := congrArg CacheKey.op hkey
  have hshape := congrArg CacheKey.shape hkey
  cases r with
  | Compile op shape w =>
      cases r' with
      | Compile op' shape' w' =>
          obtain rfl : op = op' := hop
          obtain rfl : shape = shape' := hshape
          obtain rfl : w = w' := hweights
          exact iff_of_true hb' trivial
      | Matmul q =>
          obtain rfl : op = .Matmul := hop
          obtain rfl : shape = ⟨1, q.N, 1, q.M, 4⟩ := hshape
          obtain rfl : w = ofHalves q.B := hweights
          obtain ⟨p, hp, -⟩ := build_matmul_eq_ok_iff.mp hb'
          rw [← hb']
          exact ⟨fun h => (build_mixed_iff (valid_of_matmulConv1x1 hp).2.1).mp ⟨h, b', hb'⟩,
            fun h => ((build_mixed_iff (valid_of_matmulConv1x1 hp).2.1).mpr h).1⟩
  | Matmul q =>
      cases r' with
      | Matmul q' =>
          obtain ⟨p, hp, -⟩ := build_matmul_eq_ok_iff.mp hb'
          obtain ⟨hK, hN, -⟩ := valid_of_matmulConv1x1 hp
          obtain rfl := eq_of_key hkey hweights hK.channels_pos hN.channels_pos
          exact iff_of_true hb' trivial
      | Compile op shape w =>
          obtain rfl : .Matmul = op := hop
          obtain rfl : ⟨1, q.N, 1, q.M, 4⟩ = shape := hshape
          obtain rfl : ofHalves q.B = w := hweights
          have hN := valid_of_build_compile hb'
          refine ⟨fun h => (build_mixed_iff hN).mp ⟨hb'.trans h.symm, b', h⟩, fun h => ?_⟩
          rw [← ((build_mixed_iff hN).mpr h).1]
          exact hb'

end ProgramRequest

/-! ## All interleavings -/

namespace Session

variable {F : Type} [MilFloat F]

/-- **What the cache hands out.**  Suppose the hash tells the weights of the requests apart.  In
every interleaving, every entry that anyone owns was made for a request of the run with the same
key.  Whoever asks for that key gets what the own request would have built if and only if the two
requests came through the same entry point, or the matrix is stored alike by both. -/
theorem cached_programs (maxBytes : UInt64) (available : Bool) (reason : String)
    (moves : List Move)
    (h : Along (Session.turn F) Behaved (init maxBytes available reason) moves)
    (hhash : ∀ r r', Asked moves r → Asked moves r' →
      computeHash r.blob = computeHash r'.blob → r.weights = r'.weights) :
    ∃ w, runM (Session.turn F) (init maxBytes available reason) moves = .ok w ∧
      ∀ e ∈ w.owners, ∃ r', Asked moves r' ∧ r'.Made F e ∧
        ∀ r, Asked moves r → r.key = e.entry.key →
          (r.build F = r'.build F ↔ r.Interchangeable r') := by
  obtain ⟨w, hw, hsound⟩ := runM_sound h
  refine ⟨w, hw, fun e he => ?_⟩
  obtain ⟨r', b, p, hr', hb, hentry, hp, -⟩ := hsound.made e (hsound.owners_mem e he)
  refine ⟨r', hr', ⟨b, p, hb, hentry, hp⟩, fun r hr hkey => ?_⟩
  rw [hentry] at hkey
  rw [hb]
  exact ProgramRequest.build_eq_iff hkey
    (hhash r r' hr hr' (congrArg CacheKey.weightHash hkey)) hb

theorem cached_programs_matmul :
    ∃ w, runM (Session.turn Unit) (init 1000000 true "") sharedMatmul = .ok w ∧
      ∀ e ∈ w.owners, ∃ r', Asked sharedMatmul r' ∧ r'.Made Unit e ∧
        ∀ r, Asked sharedMatmul r → r.key = e.entry.key →
          (r.build Unit = r'.build Unit ↔ r.Interchangeable r') := by
  have hone : ∀ r, Asked sharedMatmul r → r.weights = ofHalves numbers := by
    rintro r ⟨m, hm, hr⟩
    simp only [sharedMatmul, List.mem_cons, List.not_mem_nil, or_false] at hm
    rcases hm with rfl | rfl | rfl | rfl | rfl | rfl | rfl | rfl | rfl | rfl | rfl <;>
      cases hr <;> rfl
  exact cached_programs 1000000 true "" sharedMatmul (by decide +kernel)
    fun r r' hr hr' _ => (hone r hr).trans (hone r' hr').symm

/-- **When the cache is transparent.**  Suppose the hash tells the weights of the requests apart,
and requests with one key came through the same entry point or have a matrix that both store alike.
Then in every interleaving, whatever program a request finds under its key has the text and the
weights that the request would have built. -/
theorem cached_programs_own (maxBytes : UInt64) (available : Bool) (reason : String)
    (moves : List Move)
    (h : Along (Session.turn F) Behaved (init maxBytes available reason) moves)
    (hhash : ∀ r r', Asked moves r → Asked moves r' →
      computeHash r.blob = computeHash r'.blob → r.weights = r'.weights)
    (hsame : ∀ r r', Asked moves r → Asked moves r' → r.key = r'.key → r.Interchangeable r') :
    ∃ w, runM (Session.turn F) (init maxBytes available reason) moves = .ok w ∧
      ∀ e ∈ w.owners, ∀ p, e.entry.backendHandle = some p → ∀ r, Asked moves r →
        r.key = e.entry.key → ∃ b, r.build F = .ok b ∧ p.program.milText = b.text ∧
          p.program.weights = b.weights := by
  obtain ⟨w, hw, hsound⟩ := runM_sound h
  refine ⟨w, hw, fun e he p hp r hr hkey => ?_⟩
  obtain ⟨r', b, p', hr', hb, hentry, hprogram, -⟩ := hsound.made e (hsound.owners_mem e he)
  rw [hentry] at hkey hp
  have hweights := hhash r r' hr hr' (congrArg CacheKey.weightHash hkey)
  refine ⟨b, (ProgramRequest.build_eq_iff hkey hweights hb).mpr (hsame r r' hr hr' hkey), ?_⟩
  rw [hprogram p hp]
  exact ⟨rfl, rfl⟩

/-- A matrix that is its own transpose. -/
def ones : List UInt16 := List.replicate 64 0x3c00

/-- It is compiled by one thread and multiplied by another one. -/
def onesMatmul : List Move :=
  let compile : ApiCall := .Request (.Compile .Matmul ⟨1, 8, 1, 16, 4⟩ (ofHalves ones))
  let multiply : ApiCall := .Request (.Matmul ⟨16, 8, 8, ones, rfl⟩)
  [(0, compile, none), (0, compile, none), (0, compile, none), (0, compile, none),
    (1, multiply, none), (1, multiply, none), (1, multiply, none), (1, multiply, none)]

theorem cached_programs_own_ones :
    ∃ w, runM (Session.turn Unit) (init 1000000 true "") onesMatmul = .ok w ∧
      ∀ e ∈ w.owners, ∀ p, e.entry.backendHandle = some p → ∀ r, Asked onesMatmul r →
        r.key = e.entry.key → ∃ b, r.build Unit = .ok b ∧ p.program.milText = b.text ∧
          p.program.weights = b.weights := by
  have hself : (⟨16, 8, 8, ones, rfl⟩ : MatmulRequest).SelfTransposed := by
    unfold MatmulRequest.SelfTransposed
    decide +kernel
  have htwo : ∀ r, Asked onesMatmul r →
      r = .Compile .Matmul ⟨1, 8, 1, 16, 4⟩ (ofHalves ones) ∨
        r = .Matmul ⟨16, 8, 8, ones, rfl⟩ := by
    rintro r ⟨m, hm, hr⟩
    simp only [onesMatmul, List.mem_cons, List.not_mem_nil, or_false] at hm
    rcases hm with rfl | rfl | rfl | rfl | rfl | rfl | rfl | rfl <;> cases hr <;> simp
  refine cached_programs_own 1000000 true "" onesMatmul (by decide +kernel)
    (fun r r' hr hr' _ => ?_) fun r r' hr hr' _ => ?_
  · rcases htwo r hr with rfl | rfl <;> rcases htwo r' hr' with rfl | rfl <;> rfl
  · rcases htwo r hr with rfl | rfl <;> rcases htwo r' hr' with rfl | rfl
    · trivial
    · exact hself
    · exact hself
    · trivial

/-- A `libane_matmul_f16` is about to execute what `libane_compile` has built for the same matrix,
with other weights than its own. -/
theorem matmul_finds_other_weights :
    (ProgramRequest.Matmul ⟨16, 8, 8, numbers, rfl⟩).key =
        (ProgramRequest.Compile .Matmul ⟨1, 8, 1, 16, 4⟩ (ofHalves numbers)).key ∧
      ∃ w b p, runM (Session.turn Unit) (init 1000000 true "") (sharedMatmul.take 8) = .ok w ∧
        (ProgramRequest.Matmul ⟨16, 8, 8, numbers, rfl⟩).build Unit = .ok b ∧
        w.executed (1, .CacheFlush, none) = some p ∧
        p.program.weights.map (·.data) ≠ b.weights.map (·.data) := by
  have hbehaved : Along (Session.turn Unit) Behaved (init 1000000 true "")
      (sharedMatmul.take 8) := by
    decide +kernel
  obtain ⟨w, hw, -⟩ := runM_sound hbehaved
  obtain ⟨program, hprogram, -⟩ := ProgramRequest.exists_matmulConv1x1 (F := Unit) (K := 8)
    (N := 8) (S := 16) (by decide) (by decide)
  have hb := ProgramRequest.build_matmul_eq_ok_iff (q := ⟨16, 8, 8, numbers, rfl⟩).mpr
    ⟨program, hprogram, rfl⟩
  have hstate : ∀ v ∈ (runM (Session.turn Unit) (init 1000000 true "")
        (sharedMatmul.take 8)).toOption,
      ∃ p ∈ v.executed (1, .CacheFlush, none),
        p.program.weights.map (·.data) ≠ [matmulWeights numbers 8 8] := by
    decide +kernel
  obtain ⟨p, hp, hne⟩ := hstate w (by rw [hw]; rfl)
  exact ⟨by decide +kernel, w, _, p, hw, hb, hp, hne⟩

end Session

end Libane
