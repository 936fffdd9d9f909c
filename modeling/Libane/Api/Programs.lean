import Libane.Api.Lifecycle

/-!
# The programs behind the handles

A program is compiled once, may be unloaded and loaded again any number of times, and is freed with
its entry.

**Existence.**  `programs_live_while_owned` is about all runs of well-behaved callers: nothing
happens to a program that does not exist, and it is freed when the last owner of its entry is gone.

**Being loaded** is another matter, because `libane_delta_reload` unloads a program under the
handles of all threads before it loads it again.  `Supplied` says that every program that is held
is loaded or about to be, and is kept as long as the framework loads what it has unloaded
(`ReloadsGoThrough`).  A program is never executed while it is unloaded if besides no one executes
what another one reloads (`Undisturbed`).  When a reload fails, handles are left with a program that
is not loaded: `handles_executable` says what states they can be in, and `failed_reload_stays` that
compiling again does not help while the cache has the entry.
-/

namespace Libane

open CompileCache Lifetimes Runs

namespace Session

variable {F : Type} [MilFloat F] {S : ProgramRequest → Prop} {w v : Session} {m : Move}
  {p : LoadedProgram}

/-! ## Reloads -/

/-- A call is between the two halves of a reload of the program. -/
def Reloading (w : Session) (p : LoadedProgram) : Prop :=
  ∃ ph ∈ w.running.values, ∃ r ∈ ph.reload, r.2 = p

instance (w : Session) : DecidablePred w.Reloading := fun _ =>
  inferInstanceAs (Decidable (∃ _ ∈ w.running.values, _))

/-- The framework does not refuse to load a program again. -/
def ReloadsGoThrough (w : Session) (m : Move) : Prop :=
  ∀ ph ∈ w.running.lookup m.1, ph.reload.isSome → m.2.2 = none

instance : DecidableRel ReloadsGoThrough := fun _ _ =>
  inferInstanceAs (Decidable (∀ _ ∈ _, _))

/-- No one executes a program while another one reloads it. -/
def Undisturbed (w : Session) (m : Move) : Prop := ∀ p ∈ w.executed m, ¬ w.Reloading p

instance : DecidableRel Undisturbed := fun _ _ => inferInstanceAs (Decidable (∀ _ ∈ _, _))

lemma reloading_iff : w.Reloading p ↔ ∃ t h, w.running.lookup t = some (.Reload h p) := by
  constructor
  · rintro ⟨ph, hph, ⟨h, q⟩, hr, rfl⟩
    obtain ⟨t, ht⟩ := Table.lookup_of_mem_values hph
    cases ph <;> cases hr
    exact ⟨t, h, ht⟩
  · rintro ⟨t, h, ht⟩
    exact ⟨_, Table.mem_values_of_lookup ht, (h, p), rfl, rfl⟩

/-- A reload goes on, unless it is its thread that makes the step. -/
lemma Reloading.stays (h : w.Reloading p) (hframe : Frame m.1 w v)
    (hother : ∀ k, w.running.lookup m.1 ≠ some (.Reload k p)) : v.Reloading p := by
  obtain ⟨t, k, ht⟩ := reloading_iff.mp h
  have htm : t ≠ m.1 := by
    rintro rfl
    exact hother k ht
  exact reloading_iff.mpr ⟨t, k, (hframe.running t htm).trans ht⟩

/-- Every program that is held is loaded, or is being reloaded. -/
def Supplied (w : Session) : Prop :=
  ∀ e ∈ w.objects, ∀ p, e.entry.backendHandle = some p → Loaded w.log p ∨ w.Reloading p

/-- **A step** whose reload goes through. -/
lemma Effect.supplied (heffect : Effect w m v) (hframe : Frame m.1 w v)
    (hgo : ReloadsGoThrough w m) (h : Supplied w) : Supplied v := by
  intro e he p hp
  cases heffect with
  | nothing hobjects hlog hphase =>
      rw [hobjects] at he
      rw [hlog]
      exact (h e he p hp).imp_right fun hre =>
        hre.stays hframe fun k hk => hphase k p hk (hgo _ hk rfl)
  | makes r b loads hphase hloads heq =>
      rw [heq] at he ⊢
      rcases List.mem_cons.mp he with rfl | he
      · cases loads with
        | true => exact Or.inl (Or.inl (Option.some.inj hp))
        | false => cases hp
      · refine (h e he p hp).imp (fun hloaded => ?_) fun hre =>
          hre.stays (heq ▸ hframe) (by simp [hphase])
        cases loads with
        | true => exact Or.inr hloaded
        | false => exact hloaded
  | uses q hexecuted hobjects hlog =>
      rw [hobjects] at he
      rw [hlog]
      refine (h e he p hp).imp_right fun hre => hre.stays hframe fun k => ?_
      rcases executed_spec hexecuted with ⟨_, hrun⟩ | ⟨hidle, -⟩
      · simp [hrun]
      · simp [hidle]
  | unloads k q hidle hcall hphase hobjects hlog =>
      rw [hobjects] at he
      rw [hlog]
      by_cases hqp : q = p
      · exact Or.inr (reloading_iff.mpr ⟨m.1, k, hqp ▸ hphase⟩)
      · exact (h e he p hp).imp (⟨hqp, ·⟩) fun hre => hre.stays hframe (by simp [hidle])
  | loads k q hphase hobjects hlog =>
      rw [hobjects] at he
      rw [hlog]
      by_cases hqp : q = p
      · exact Or.inl (Or.inl hqp)
      · exact (h e he p hp).imp Or.inr fun hre => hre.stays hframe (by simp [hphase, hqp])

/-- What is destroyed is not what the others hold. -/
lemma Loose.supplied_settle (hv : Loose F S v) (h : Supplied v) : Supplied v.settle := by
  intro e he p hp
  refine (h e (List.mem_filter.mp he).1 p hp).imp_left fun hloaded => hloaded.map_free ?_
  have halive : Alive v.settle.log p := (hv.settle.tracks.alive_iff p).mpr
    (List.mem_filterMap.mpr ⟨e, he, by rw [(hv.settle.made e he).released_eq, hp]⟩)
  exact fun hin => halive.2 (List.mem_append_left _ (List.mem_map_of_mem hin))

/-- What is executed is held. -/
lemma Loose.held_of_executed (h : Loose F S w) (hp : w.executed m = some p) :
    ∃ e ∈ w.objects, e.entry.backendHandle = some p := by
  rcases executed_spec hp with ⟨e, hrun⟩ | ⟨-, k, e, hk, he⟩
  · have hmem := Table.mem_values_of_lookup hrun
    exact ⟨e, h.held_mem _ hmem e rfl, h.known _ hmem⟩
  · exact ⟨e, h.handles_mem e (Table.mem_values_of_lookup hk), he⟩

/-- A step that executes no program that is being reloaded. -/
lemma Effect.usedLoaded (heffect : Effect w m v) (hw : Loose F S w)
    (hundisturbed : Undisturbed w m) (h : Supplied w) (hused : UsedLoaded w.log) :
    UsedLoaded v.log := by
  cases heffect with
  | nothing hobjects hlog hphase => rwa [hlog]
  | makes r b loads hphase hloads heq =>
      rw [heq]
      cases loads with
      | true => exact hused
      | false => exact hused
  | uses p hexecuted hobjects hlog =>
      rw [hlog]
      obtain ⟨e, he, hp⟩ := hw.held_of_executed hexecuted
      exact ⟨(h e he p hp).resolve_right (hundisturbed p hexecuted), hused⟩
  | unloads k p hidle hcall hphase hobjects hlog => rwa [hlog]
  | loads k p hphase hobjects hlog => rwa [hlog]

/-! ## Lifetimes -/

/-- What was compiled is freed if and only if nobody owns its entry. -/
lemma Sound.count_free (h : Sound F S w) (hp : .Make p ∈ w.log) : w.log.count (.Free p) =
    if ∃ e ∈ w.owners, e.entry.backendHandle = some p then 0 else 1 := by
  rw [h.tracks.count_free hp]
  refine if_congr ?_ rfl rfl
  rw [← h.alive_iff, h.tracks.alive_iff]

/-- **Programs live while they are owned.**  In every interleaving of the calls of any number of
threads that do not use a handle after its release: no call fails, nothing happens to a program
before it is compiled or after it has been freed, and a program that was compiled has been freed
once if the list and the map of the cache, the handles and the calls in progress do not own its
entry any more, and otherwise never.  If every reload goes through, and no one executes a program
that another one reloads, then programs are executed only while they are loaded. -/
theorem programs_live_while_owned (maxBytes : UInt64) (available : Bool) (reason : String)
    (moves : List Move)
    (h : Along (Session.turn F) Behaved (init maxBytes available reason) moves) :
    ∃ w, runM (Session.turn F) (init maxBytes available reason) moves = .ok w ∧ Legal w.log ∧
      (∀ p, .Make p ∈ w.log → w.log.count (.Free p) =
        if ∃ e ∈ w.owners, e.entry.backendHandle = some p then 0 else 1) ∧
      (Along (Session.turn F) (fun w m => ReloadsGoThrough w m ∧ Undisturbed w m)
        (init maxBytes available reason) moves → UsedLoaded w.log) := by
  obtain ⟨w, hw, hsound⟩ := runM_sound h
  refine ⟨w, hw, hsound.tracks.legal, fun p hp => hsound.count_free hp, fun hreloads => ?_⟩
  obtain ⟨w', hw', -, hused⟩ := runM_keeps (I := fun w => Supplied w ∧ UsedLoaded w.log)
    (fun w m v hw hv hframe heffect hm hI => by
      have hsupplied := heffect.supplied hframe hm.1 hI.1
      have hused := heffect.usedLoaded hw.toLoose hm.2 hI.1 hI.2
      exact ⟨hv.supplied_settle hsupplied, hused.map_free⟩)
    h hreloads ⟨fun o ho => absurd ho List.not_mem_nil, trivial⟩
  rw [hw, Except.ok.injEq] at hw'
  exact hw' ▸ hused

/-- A matrix of eight by eight numbers. -/
def numbers : List UInt16 := (List.range 64).map fun i => UInt16.ofNat (0x3c00 + i)

/-- One thread compiles a matmul, executes it and loads it again.  Meanwhile another thread
multiplies by the same matrix, and finds the program in the cache. -/
def sharedMatmul : List Move :=
  let compile : ApiCall := .Request (.Compile .Matmul ⟨1, 8, 1, 16, 4⟩ (Bytes.ofHalves numbers))
  let multiply : ApiCall := .Request (.Matmul ⟨16, 8, 8, numbers, rfl⟩)
  [(0, compile, none), (0, compile, none), (0, compile, none), (0, compile, none),
    (1, multiply, none), (0, .Execute (some 0), none), (1, multiply, none), (1, multiply, none),
    (1, multiply, none), (0, .DeltaReload (some 0), none), (0, .DeltaReload (some 0), none)]

/-- The last owners leave. -/
def lastOwners : List Move := [(1, .CacheFlush, none), (0, .Release (some 0), none)]

/-- The program was compiled, used by both threads, unloaded, loaded and freed. -/
theorem programs_live_while_owned_matmul :
    ∃ w, runM (Session.turn Unit) (init 1000000 true "") (sharedMatmul ++ lastOwners) = .ok w ∧
      w.log.length = 6 ∧ Legal w.log ∧ UsedLoaded w.log ∧
      ∀ p, .Make p ∈ w.log → w.log.count (.Free p) = 1 := by
  obtain ⟨w, hw, hlegal, hfreed, hused⟩ := programs_live_while_owned (F := Unit) 1000000 true ""
    (sharedMatmul ++ lastOwners) (by decide +kernel)
  have hstate : ∀ v ∈ (runM (Session.turn Unit) (init 1000000 true "")
      (sharedMatmul ++ lastOwners)).toOption, v.owners.isEmpty ∧ v.log.length = 6 := by
    decide +kernel
  obtain ⟨hnone, hlength⟩ := hstate w (by rw [hw]; rfl)
  refine ⟨w, hw, hlength, hlegal, hused (by decide +kernel), fun p hp => ?_⟩
  rw [hfreed p hp, List.isEmpty_iff.mp hnone]
  exact if_neg (by simp)

/-- Only a reload unloads a program. -/
lemma Effect.unload_notMem (heffect : Effect w m v) (hcall : ∀ h, m.2.1 ≠ .DeltaReload h)
    (h : ∀ p, .Unload p ∉ w.log) (p : LoadedProgram) : .Unload p ∉ v.log := by
  have hp := h p
  cases heffect with
  | nothing hobjects hlog hphase => rwa [hlog]
  | makes r b loads hphase hloads heq =>
      rw [heq]
      cases loads with
      | true => simpa [allocate, goOn] using hp
      | false => exact hp
  | uses q hexecuted hobjects hlog => simpa [hlog] using hp
  | unloads k q hidle hcall' hphase hobjects hlog => exact absurd hcall' (hcall _)
  | loads k q hphase hobjects hlog => simpa [hlog] using hp

/-- **Without reloads** programs live while they are owned, and every one that is executed is
loaded: in every interleaving of the other calls, a program that was compiled has been freed once if
nobody owns its entry any more, and otherwise never, and nothing happens to it afterwards. -/
theorem programs_freed_once (maxBytes : UInt64) (available : Bool) (reason : String)
    (moves : List Move)
    (h : Along (Session.turn F) Behaved (init maxBytes available reason) moves)
    (hcalls : ∀ m ∈ moves, ∀ h, m.2.1 ≠ .DeltaReload h) :
    ∃ w, runM (Session.turn F) (init maxBytes available reason) moves = .ok w ∧ Legal w.log ∧
      UsedLoaded w.log ∧ ∀ p, .Make p ∈ w.log → w.log.count (.Free p) =
        if ∃ e ∈ w.owners, e.entry.backendHandle = some p then 0 else 1 := by
  obtain ⟨w, hw, hsound⟩ := runM_sound h
  obtain ⟨w', hw', hloaded⟩ := runM_keeps (I := fun w => ∀ p, .Unload p ∉ w.log)
    (P := fun _ m => ∀ h, m.2.1 ≠ .DeltaReload h)
    (fun w m v _ _ _ heffect hcall hI p => by
      simpa [settle, Lifetimes.collect] using heffect.unload_notMem hcall hI p)
    h (h.imp _ fun _ m hm _ => hcalls m hm) (fun p => List.not_mem_nil)
  rw [hw, Except.ok.injEq] at hw'
  subst hw'
  exact ⟨w, hw, hsound.tracks.legal, hsound.tracks.legal.usedLoaded hloaded,
    fun p hp => hsound.count_free hp⟩

theorem programs_freed_once_matmul :
    ∃ w, runM (Session.turn Unit) (init 1000000 true "") (sharedMatmul.take 9 ++ lastOwners) =
        .ok w ∧ Legal w.log ∧ UsedLoaded w.log ∧
      ∀ p, .Make p ∈ w.log → w.log.count (.Free p) =
        if ∃ e ∈ w.owners, e.entry.backendHandle = some p then 0 else 1 :=
  programs_freed_once 1000000 true "" _ (by decide +kernel) (by simp [sharedMatmul, lastOwners])

/-! ## Handles -/

/-- A handle that `libane_execute` does not turn away, and whose program is loaded. -/
def Executable (w : Session) (e : EntryPtr) : Prop :=
  e.entry.isAne = true ∧ ∃ p, e.entry.backendHandle = some p ∧ Alive w.log p ∧ Loaded w.log p

/-- A handle that `libane_execute` does not turn away, although its program has been unloaded, and
not been loaded since. -/
def LeftUnloaded (w : Session) (e : EntryPtr) : Prop :=
  e.entry.isAne = true ∧ ∃ p, e.entry.backendHandle = some p ∧ Alive w.log p ∧ Suspended w.log p

lemma LeftUnloaded.not_executable {e : EntryPtr} (h : LeftUnloaded w e) : ¬ Executable w e := by
  rintro ⟨-, p, hp, -, hloaded⟩
  obtain ⟨-, q, hq, -, hsuspended⟩ := h
  obtain rfl := Option.some.inj (hp.symm.trans hq)
  exact hsuspended.not_loaded hloaded

/-- The framework accepts the programs of matmuls. -/
def MatmulAccepted (w : Session) (m : Move) : Prop :=
  ∀ ph ∈ w.running.lookup m.1, ph.buildsMatmul → m.2.2 = none

instance : DecidableRel MatmulAccepted := fun _ _ => inferInstanceAs (Decidable (∀ _ ∈ _, _))

/-- No entry without a program is made while the framework accepts the matmuls. -/
lemma Effect.programs (heffect : Effect w m v) (haccepted : MatmulAccepted w m)
    (hall : ∀ o ∈ w.objects, o.entry.backendHandle ≠ none) :
    ∀ o ∈ v.objects, o.entry.backendHandle ≠ none := by
  cases heffect with
  | makes r b loads hphase hloads heq =>
      intro o ho
      rw [heq] at ho
      rcases List.mem_cons.mp ho with rfl | ho
      · cases loads with
        | true => simp [ProgramRequest.entry]
        | false =>
            obtain ⟨q, rfl, hverdict⟩ := hloads rfl
            exact absurd (haccepted _ hphase rfl) hverdict
      · exact hall o ho
  | nothing hobjects | uses _ _ hobjects | unloads _ _ _ _ _ hobjects | loads _ _ _ hobjects =>
      rwa [hobjects]

/-- The entry of a handle has a program, or it was left by a matmul. -/
lemma Sound.program_or (h : Sound F S w) {e : EntryPtr} (he : e ∈ w.handles.values) :
    (∃ p, e.entry.isAne = true ∧ e.entry.backendHandle = some p ∧ Alive w.log p) ∨
      e.entry.backendHandle = none ∧ ∃ q, S (.Matmul q) ∧
        e.entry.key = (ProgramRequest.Matmul q).key := by
  have hmade := h.made e (h.handles_mem e he)
  cases hp : e.entry.backendHandle with
  | some p =>
      refine Or.inl ⟨p, by rw [hmade.isAne_eq, hp]; rfl, rfl, (h.alive_iff p).mpr ⟨e, ?_, hp⟩⟩
      simp only [owners, List.mem_append]
      exact Or.inl (Or.inr he)
  | none =>
      obtain ⟨r, b, p, hr, -, hentry, -, hnone⟩ := hmade
      have hpnone : p = none := by
        rw [hentry] at hp
        exact hp
      obtain ⟨q, rfl⟩ := hnone hpnone
      exact Or.inr ⟨rfl, q, hr, by rw [hentry]; rfl⟩

/-- **While the framework accepts the matmuls**, every handle has a program, and `libane_execute`
executes it. -/
theorem handles_keep_programs (maxBytes : UInt64) (available : Bool) (reason : String)
    (moves : List Move)
    (h : Along (Session.turn F) Behaved (init maxBytes available reason) moves)
    (haccepted : Along (Session.turn F) MatmulAccepted (init maxBytes available reason) moves) :
    ∃ w, runM (Session.turn F) (init maxBytes available reason) moves = .ok w ∧
      ∀ k e, w.handles.lookup k = some e → e.entry.isAne = true ∧
        ∃ p, e.entry.backendHandle = some p ∧ ∀ t verdict,
          w.start t verdict (.Execute (some k)) =
            .ok (w.execute t "ANE execute failed: " verdict p) := by
  obtain ⟨w, hw, hsound⟩ := runM_sound h
  obtain ⟨w', hw', hall⟩ := runM_keeps (I := fun w => ∀ o ∈ w.objects, o.entry.backendHandle ≠ none)
    (fun w m v _ _ _ heffect hm hI o ho => heffect.programs hm hI o (List.mem_filter.mp ho).1)
    h haccepted (fun o ho => absurd ho List.not_mem_nil)
  rw [hw, Except.ok.injEq] at hw'
  subst hw'
  refine ⟨w, hw, fun k e hk => ?_⟩
  have he := Table.mem_values_of_lookup hk
  rcases hsound.program_or he with ⟨p, hane, hp, -⟩ | hnone
  · exact ⟨hane, p, hp, fun t verdict => by simp only [start, onHandle, hk, hane, hp]⟩
  · exact absurd hnone.1 (hall e (hsound.handles_mem e he))

theorem handles_keep_programs_matmul : ∃ w e p,
    runM (Session.turn Unit) (init 1000000 true "") sharedMatmul = .ok w ∧
      w.handles.lookup 0 = some e ∧ e.entry.backendHandle = some p ∧
      w.start 2 none (.Execute (some 0)) = .ok (w.execute 2 "ANE execute failed: " none p) := by
  obtain ⟨w, hw, hall⟩ := handles_keep_programs (F := Unit) 1000000 true "" sharedMatmul
    (by decide +kernel) (by decide +kernel)
  have hstate : ∀ v ∈ (runM (Session.turn Unit) (init 1000000 true "") sharedMatmul).toOption,
      (v.handles.lookup 0).isSome := by
    decide +kernel
  obtain ⟨e, he⟩ := Option.isSome_iff_exists.mp (hstate w (by rw [hw]; rfl))
  obtain ⟨-, p, hp, hexecute⟩ := hall 0 e he
  exact ⟨w, e, p, hw, he, hp, hexecute 2 none⟩

/-- The framework refuses the program of a matmul, and then the same matrix is compiled. -/
def refusedMatmul : List Move :=
  let compile : ApiCall := .Request (.Compile .Matmul ⟨1, 8, 1, 16, 4⟩ (Bytes.ofHalves numbers))
  let multiply : ApiCall := .Request (.Matmul ⟨16, 8, 8, numbers, rfl⟩)
  [(0, multiply, none), (0, multiply, none), (0, multiply, none), (0, multiply, some "refused"),
    (0, multiply, none), (0, compile, none), (0, compile, none)]

/-- The handle that is returned cannot be executed. -/
theorem refused_matmul_unavailable : ∃ w e,
    Along (Session.turn Unit) Behaved (init 1000000 true "") refusedMatmul ∧
      runM (Session.turn Unit) (init 1000000 true "") refusedMatmul = .ok w ∧
      w.handles.lookup 0 = some e ∧ e.entry.isAne = false ∧
      w.start 0 none (.Execute (some 0)) =
        .ok (w.fail 0 "libane_execute: no ANE program available" (.Status .ErrUnavailable)) := by
  have hbehaved : Along (Session.turn Unit) Behaved (init 1000000 true "") refusedMatmul := by
    decide +kernel
  obtain ⟨w, hw, -⟩ := runM_sound hbehaved
  have hstate : ∀ v ∈ (runM (Session.turn Unit) (init 1000000 true "") refusedMatmul).toOption,
      ∃ e ∈ v.handles.lookup 0, e.entry.isAne = false := by
    decide +kernel
  obtain ⟨e, he, hane⟩ := hstate w (by rw [hw]; rfl)
  exact ⟨w, e, hbehaved, hw, he, hane, by simp only [start, onHandle, Option.mem_def.mp he, hane]⟩

/-! ## After a failed reload -/

/-- A step that hands out what a cached entry holds, as it stands. -/
lemma Sound.leftUnloaded (h : Sound F S w) {n : LruNode CacheKey LoadedProgram}
    (hn : n ∈ w.cache.lru) (hp : n.shared.entry.backendHandle = some p)
    (hsuspended : Suspended w.log p) : LeftUnloaded w n.shared := by
  have hmade := h.made _ (h.lru_mem n hn)
  refine ⟨by rw [hmade.isAne_eq, hp]; rfl, p, hp, (h.alive_iff p).mpr ⟨n.shared, ?_, hp⟩,
    hsuspended⟩
  simp only [owners, List.mem_append, List.mem_map]
  exact Or.inl (Or.inl (Or.inl ⟨n, hn, rfl⟩))

lemma Sound.of_turn (h : Sound F S w) (heq : w.turn F m = .ok v) (hbehaved : Behaved w m)
    (hasks : Asks S m) : Sound F S v := by
  obtain ⟨u, -, heq', -, hu, -⟩ := h.turn hbehaved hasks
  exact Except.ok.inj (heq'.symm.trans heq) ▸ hu

/-- A state that is reached is sound, whatever will be requested next. -/
lemma sound_of_runM {maxBytes : UInt64} {available : Bool} {reason : String} {moves : List Move}
    (h : Along (Session.turn F) Behaved (init maxBytes available reason) moves)
    (hw : runM (Session.turn F) (init maxBytes available reason) moves = .ok w) :
    Sound F (fun _ => True) w := by
  obtain ⟨u, hu, hsound⟩ := runM_induction_along (Session.turn F) (I := Sound F fun _ => True)
    (fun w m hw hm => by
      obtain ⟨v, -, heq, -, hv, -⟩ := hw.turn hm (by rw [Asks]; split <;> trivial)
      exact ⟨_, heq, hv⟩)
    moves _ (sound_init maxBytes available reason) h
  exact Except.ok.inj (hu.symm.trans hw) ▸ hsound

/-- A reload that the framework refuses leaves the program unloaded. -/
lemma Sound.refusedReload (h : Sound F S w) {t k : ℕ} {e : EntryPtr}
    (hidle : w.running.lookup t = none) (hk : w.handles.lookup k = some e)
    (hp : e.entry.backendHandle = some p)
    (hother : ∀ ph ∈ w.running.values, ∀ r ∈ ph.reload, r.1 ≠ k) (text : String) :
    ∃ v, runM (Session.turn F) w [(t, .DeltaReload (some k), none),
        (t, .DeltaReload (some k), some text)] = .ok v ∧ Sound F S v ∧
      v.running.lookup t = none ∧ v.Permits (.Release (some k)) ∧ v.cache = w.cache ∧
      v.nextHandle = w.nextHandle ∧ Suspended v.log p := by
  have hane : e.entry.isAne = true := by
    rw [(h.made e (h.handles_mem e (Table.mem_values_of_lookup hk))).isAne_eq, hp]
    rfl
  have hunload : w.turn F (t, .DeltaReload (some k), none) = .ok (settle (w.unload t k p)) := by
    simp only [Session.turn, advance, hidle, start, onHandle, hk, hane, hp]
    rfl
  have hphase : (settle (w.unload t k p)).running.lookup t = some (.Reload k p) :=
    AList.lookup_insert w.running
  have hrefused : (settle (w.unload t k p)).turn F (t, .DeltaReload (some k), some text) =
      .ok (settle ((settle (w.unload t k p)).fail t ("libane_delta_reload failed: " ++ text)
        (.Status .ErrExecuteFailed))) := by
    simp only [Session.turn, advance, hphase, proceed]
    rfl
  have hunloaded := h.of_turn hunload (fun _ => by simp [Permits, hk]) trivial
  have hsuspended : Suspended (w.unload t k p).log p :=
    ⟨[], w.log, rfl, List.not_mem_nil, List.not_mem_nil⟩
  refine ⟨_, ?_, hunloaded.of_turn hrefused ?_ trivial, AList.lookup_erase t _, ⟨?_, ?_⟩, rfl, rfl,
    hsuspended.map_free.map_free⟩
  · rw [runM_cons, hunload, ok_bind, runM_cons, hrefused]
    rfl
  · exact fun hnone => by
      rw [hphase] at hnone
      cases hnone
  · exact Option.isSome_iff_exists.mpr ⟨e, hk⟩
  · -- the thread has left its reload, and the others are where they were
    intro ph hph
    obtain ⟨s, hs⟩ := Table.lookup_of_mem_values hph
    replace hs : ((w.running.insert t (.Reload k p)).erase t).lookup s = some ph := hs
    by_cases hst : s = t
    · rw [hst, AList.lookup_erase] at hs
      cases hs
    · rw [AList.lookup_erase_ne hst, AList.lookup_insert_ne hst] at hs
      exact hother ph (Table.mem_values_of_lookup hs)

/-- A release leaves the cache as it is. -/
lemma turn_release {t k : ℕ} (hidle : w.running.lookup t = none)
    (hpermits : w.Permits (.Release (some k))) :
    ∃ v, w.turn F (t, .Release (some k), none) = .ok v ∧ v.running.lookup t = none ∧
      v.cache = w.cache ∧ v.nextHandle = w.nextHandle ∧
      ∀ p, Suspended w.log p → Suspended v.log p := by
  obtain ⟨e, hk⟩ := Option.isSome_iff_exists.mp hpermits.1
  refine ⟨settle { w.finish t .Done with handles := w.handles.erase k }, ?_,
    AList.lookup_erase t w.running, rfl, rfl, fun p hp => hp.map_free⟩
  simp only [turn, advance, hidle, start, hk]
  rfl

/-- A request whose key is in the cache is about to be promoted. -/
lemma turn_lookUp {t : ℕ} {op : LibaneOp} {shape : LibaneShape} {weights : List UInt8}
    {n : LruNode CacheKey LoadedProgram} (h : w.cache.InStep) (hn : n ∈ w.cache.lru)
    (hkey : n.key = (ProgramRequest.Compile op shape weights).key)
    (hidle : w.running.lookup t = none) :
    ∃ v, w.turn F (t, .Request (.Compile op shape weights), none) = .ok v ∧
      v.running.lookup t = some (.Promote (.Compile op shape weights)) ∧
      v.cache.lru = w.cache.lru ∧ v.nextHandle = w.nextHandle ∧ v.answers = w.answers ∧
      ∀ p, Suspended w.log p → Suspended v.log p := by
  have hlookup := (h.lookup_iff _ ⟨n.addr, n.shared⟩).mpr ⟨n, hn, hkey, rfl⟩
  refine ⟨settle (goOn { w with cache := { w.cache with hits := w.cache.hits + 1 } } t
    (.Promote (.Compile op shape weights))), ?_, AList.lookup_insert w.running, rfl, rfl, rfl,
    fun p hp => hp.map_free⟩
  simp only [turn, advance, hidle, start, lookUp, getLookup, hlookup]
  rfl

/-- The promoted entry is handed out. -/
lemma turn_promote {t : ℕ} {op : LibaneOp} {shape : LibaneShape} {weights : List UInt8}
    {n : LruNode CacheKey LoadedProgram} (h : w.cache.InStep) (hn : n ∈ w.cache.lru)
    (hkey : n.key = (ProgramRequest.Compile op shape weights).key)
    (hph : w.running.lookup t = some (.Promote (.Compile op shape weights))) (call : ApiCall) :
    ∃ v, w.turn F (t, call, none) = .ok v ∧ v.handles.lookup w.nextHandle = some n.shared ∧
      n ∈ v.cache.lru ∧ v.answers = (t, .Handle (some w.nextHandle)) :: w.answers ∧
      ∀ p, Suspended w.log p → Suspended v.log p := by
  rcases h.getPromote n.key with ⟨-, hnone⟩ | ⟨n', hn', hkey', heq⟩
  · exact absurd rfl (hnone n hn)
  · obtain rfl : n' = n := List.inj_on_of_nodup_map h.keys_nodup hn' hn hkey'
    refine ⟨settle (handOut { w with
        cache := { w.cache with lru := n' :: w.cache.lru.filter fun m => m.key ≠ n'.key } }
      t n'.shared), ?_, AList.lookup_insert w.handles, List.mem_cons_self, rfl,
      fun p hp => hp.map_free⟩
    simp only [turn, advance, hph, proceed, ← hkey, heq, ok_bind]
    rfl

/-- **A failed reload stays.**  `libane.h` tells the caller of a reload that has failed to release
the handle and to compile again.  But as long as the entry is in the cache, a thread that does so
gets the same entry, whose program has not been loaded since. -/
theorem failed_reload_stays (maxBytes : UInt64) (available : Bool) (reason : String)
    (moves : List Move)
    (h : Along (Session.turn F) Behaved (init maxBytes available reason) moves)
    (hw : runM (Session.turn F) (init maxBytes available reason) moves = .ok w)
    {n : LruNode CacheKey LoadedProgram} (hn : n ∈ w.cache.lru)
    (hp : n.shared.entry.backendHandle = some p) {t k : ℕ} (hidle : w.running.lookup t = none)
    (hk : w.handles.lookup k = some n.shared)
    (hother : ∀ ph ∈ w.running.values, ∀ r ∈ ph.reload, r.1 ≠ k) {op : LibaneOp}
    {shape : LibaneShape} {weights : List UInt8}
    (hkey : n.key = (ProgramRequest.Compile op shape weights).key) (text : String) :
    ∃ w', runM (Session.turn F) w [(t, .DeltaReload (some k), none),
        (t, .DeltaReload (some k), some text), (t, .Release (some k), none),
        (t, .Request (.Compile op shape weights), none),
        (t, .Request (.Compile op shape weights), none)] = .ok w' ∧
      w'.handles.lookup w.nextHandle = some n.shared ∧ LeftUnloaded w' n.shared ∧
      ¬ Executable w' n.shared := by
  have hsound := sound_of_runM h hw
  obtain ⟨w₁, hreload, hsound₁, hidle₁, hpermits, hcache₁, hnext₁, hsuspended⟩ :=
    hsound.refusedReload hidle hk hp hother text
  rw [← hcache₁] at hn
  obtain ⟨w₂, hrelease, hidle₂, hcache₂, hnext₂, hlog₂⟩ := turn_release (F := F) hidle₁ hpermits
  have hsound₂ := hsound₁.of_turn hrelease (fun _ => hpermits) trivial
  rw [← hcache₂] at hn
  obtain ⟨w₃, hlookUp, hphase, hlru, hnext₃, -, hlog₃⟩ :=
    turn_lookUp (F := F) hsound₂.inStep hn hkey hidle₂
  have hsound₃ := hsound₂.of_turn hlookUp (fun _ => trivial) trivial
  rw [← hlru] at hn
  obtain ⟨w₄, hpromote, hhandle, hcached, -, hlog₄⟩ := turn_promote (F := F) hsound₃.inStep hn hkey
    hphase (.Request (.Compile op shape weights))
  have hsound₄ := hsound₃.of_turn hpromote (fun _ => trivial) trivial
  have hleft := hsound₄.leftUnloaded hcached hp (hlog₄ p (hlog₃ p (hlog₂ p hsuspended)))
  refine ⟨w₄, ?_, ?_, hleft, hleft.not_executable⟩
  · show runM (Session.turn F) w ([_, _] ++ [_, _, _]) = _
    rw [runM_append, hreload, ok_bind, runM_cons, hrelease, ok_bind, runM_cons, hlookUp, ok_bind,
      runM_cons, hpromote]
    rfl
  · rw [← hnext₁, ← hnext₂, ← hnext₃]
    exact hhandle

theorem failed_reload_stays_matmul : ∃ w w' e,
    runM (Session.turn Unit) (init 1000000 true "") (sharedMatmul.take 6) = .ok w ∧
    runM (Session.turn Unit) w [(0, .DeltaReload (some 0), none),
      (0, .DeltaReload (some 0), some "ane_delta_reload: load failed: unknown"),
      (0, .Release (some 0), none),
      (0, .Request (.Compile .Matmul ⟨1, 8, 1, 16, 4⟩ (Bytes.ofHalves numbers)), none),
      (0, .Request (.Compile .Matmul ⟨1, 8, 1, 16, 4⟩ (Bytes.ofHalves numbers)), none)] = .ok w' ∧
    w'.handles.lookup w.nextHandle = some e ∧ LeftUnloaded w' e ∧ ¬ Executable w' e := by
  have hbehaved : Along (Session.turn Unit) Behaved (init 1000000 true "")
      (sharedMatmul.take 6) := by decide +kernel
  obtain ⟨w, hw, hsound⟩ := runM_sound hbehaved
  have hstate : ∀ v ∈ (runM (Session.turn Unit) (init 1000000 true "")
        (sharedMatmul.take 6)).toOption,
      v.running.lookup 0 = none ∧ (∀ ph ∈ v.running.values, ∀ r ∈ ph.reload, r.1 ≠ 0) ∧
      ∃ n ∈ v.cache.lru, ∃ e ∈ v.handles.lookup 0, e.id = n.shared.id ∧
        n.shared.entry.backendHandle.isSome ∧
        n.key = (ProgramRequest.Compile .Matmul ⟨1, 8, 1, 16, 4⟩ (Bytes.ofHalves numbers)).key := by
    decide +kernel
  obtain ⟨hidle, hother, n, hn, e, he, hid, hsome, hkey⟩ := hstate w (by rw [hw]; rfl)
  obtain ⟨p, hp⟩ := Option.isSome_iff_exists.mp hsome
  obtain rfl : e = n.shared := List.inj_on_of_nodup_map hsound.ids_nodup
    (hsound.handles_mem e (Table.mem_values_of_lookup he)) (hsound.lru_mem n hn) hid
  obtain ⟨w', hw', hhandle, hleft⟩ := failed_reload_stays 1000000 true "" _ hbehaved hw hn hp hidle
    he hother hkey "ane_delta_reload: load failed: unknown"
  exact ⟨w, w', n.shared, hw, hw', hhandle, hleft⟩

end Session

end Libane
