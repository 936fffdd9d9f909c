import Libane.Api.Programs

/-!
# The CPU override

`libane_set_backend("cpu")` keeps `libane_compile` and `libane_matmul_f16` from loading new
programs.  It does not look at what is cached: `libane_compile` asks the cache first, and
`libane_execute` and `libane_delta_reload` do not ask for the backend at all.

So the result does not say that nothing is executed, and an old program may be loaded again.  It
says that the set of programs does not grow.  Calls that have passed their check before the override
was set may still be on the way to the framework, which is why there must be none at the beginning.

* `Phase.Unchecked` — a call that has not been told yet that it may use the hardware.
* `Quiet` — the invariant: nothing new has been loaded, and nothing is owned that was not there.
* `cpu_override_loads_nothing` — what follows for all interleavings.
* `compile_under_override_iff` — `libane_compile` returns null exactly when nothing is cached.
-/

namespace Libane

open CompileCache Lifetimes Runs

/-- A call that has not passed its check of the backend; a reload has none. -/
def Phase.Unchecked : Phase → Prop
  | Promote (.Compile _ _ _) | Missed (.Compile _ _ _) | Reload _ _ => True
  | _ => False

instance : DecidablePred Phase.Unchecked
  | .Promote (.Compile _ _ _) | .Missed (.Compile _ _ _) | .Reload _ _ => isTrue trivial
  | .Promote (.Matmul _) | .Missed (.Matmul _) | .Keyed _ | .Built _ _ | .Store _ _ | .Run _ _ =>
      isFalse id

namespace Session

/-- The move does not set the backend. -/
def KeepsBackend (m : Move) : Prop := ∀ backend, m.2.1 ≠ .SetBackend backend

/-- Since `w₀` nothing new has been loaded, under the override. -/
structure Quiet (w₀ w : Session) : Prop where
  forced : w.forced = .Cpu
  unchecked : ∀ ph ∈ w.running.values, ph.Unchecked
  objects : ∀ o ∈ w.objects, o ∈ w₀.objects
  makes : ∀ p, .Make p ∈ w.log → .Make p ∈ w₀.log

variable {F : Type} [MilFloat F] {w₀ w w' : Session} {t : ℕ}

lemma Quiet.useAne (h : Quiet w₀ w) : w.useAne = false := by
  rw [Session.useAne, h.forced]

lemma Quiet.goOn (h : Quiet w₀ w) {ph : Phase} (hph : ph.Unchecked) : Quiet w₀ (w.goOn t ph) :=
  { h with
    unchecked := fun q hq => (Table.mem_values_of_insert hq).elim
      (fun heq => heq ▸ hph) (h.unchecked q) }

lemma Quiet.finish (h : Quiet w₀ w) (a : Answer) : Quiet w₀ (w.finish t a) :=
  { h with unchecked := fun q hq => h.unchecked q (Table.mem_values_of_erase hq) }

lemma Quiet.fail (h : Quiet w₀ w) (text : String) (a : Answer) : Quiet w₀ (w.fail t text a) :=
  { h.finish (t := t) a with }

lemma Quiet.handOut (h : Quiet w₀ w) (e : EntryPtr) : Quiet w₀ (w.handOut t e) :=
  { h.finish (t := t) (.Handle (some w.nextHandle)) with }

lemma Quiet.withCache (h : Quiet w₀ w) (c : CompileCache CacheKey LoadedProgram) :
    Quiet w₀ { w with cache := c } :=
  { h with }

lemma Quiet.record (h : Quiet w₀ w) {event : Event LoadedProgram}
    (hevent : ∀ p, event ≠ .Make p) : Quiet w₀ (w.record event) :=
  { h with makes := fun q hq => h.makes q ((List.mem_cons.mp hq).resolve_left fun heq =>
      hevent q heq.symm) }

lemma Quiet.execute (h : Quiet w₀ w) (failure : String) (verdict : Option String)
    (p : LoadedProgram) : Quiet w₀ (w.execute t failure verdict p) := by
  have hused : Quiet w₀ (w.record (.Use p)) := h.record (by simp)
  cases verdict with
  | none => exact hused.finish _
  | some text => exact hused.fail _ _

lemma Quiet.unload (h : Quiet w₀ w) (k : ℕ) (p : LoadedProgram) : Quiet w₀ (w.unload t k p) := by
  have hunloaded : Quiet w₀ (w.record (.Unload p)) := h.record (by simp)
  exact hunloaded.goOn trivial

lemma Quiet.lookUp (h : Quiet w₀ w) (op : LibaneOp) (shape : LibaneShape) (weights : List UInt8) :
    Quiet w₀ (w.lookUp t (.Compile op shape weights)) := by
  rw [Session.lookUp]
  cases w.cache.getLookup (ProgramRequest.Compile op shape weights).key with
  | mk hit cache =>
      cases hit with
      | true => exact (h.withCache cache).goOn trivial
      | false => exact (h.withCache cache).goOn trivial

lemma Quiet.onHandle (h : Quiet w₀ w) {null unavailable : String}
    {rest : ℕ → LoadedProgram → Session} (hrest : ∀ k p, Quiet w₀ (rest k p)) {hd : Option ℕ}
    (hw' : w.onHandle t null unavailable rest hd = .ok w') : Quiet w₀ w' := by
  cases hd with
  | none =>
      rw [← Except.ok.inj hw']
      exact h.fail _ _
  | some k =>
      rw [Session.onHandle] at hw'
      cases hk : w.handles.lookup k with
      | none =>
          rw [hk] at hw'
          cases hw'
      | some e =>
          rw [hk] at hw'
          simp only at hw'
          split at hw'
          · rw [← Except.ok.inj hw']
            exact hrest _ _
          · rw [← Except.ok.inj hw']
            exact h.fail _ _

/-- The first step of a call. -/
lemma Quiet.start (h : Quiet w₀ w) {m : Move} (hkeeps : KeepsBackend m)
    (hw' : w.start m.1 m.2.2 m.2.1 = .ok w') : Quiet w₀ w' := by
  obtain ⟨t, call, verdict⟩ := m
  cases call with
  | Request r =>
      cases r with
      | Compile op shape weights =>
          rw [← Except.ok.inj hw']
          exact h.lookUp op shape weights
      | Matmul r =>
          rw [Session.start, h.useAne] at hw'
          split_ifs at hw' with hargs hane
          · rw [← Except.ok.inj hw']
            exact h.fail _ _
          · exact absurd hane.1 (by decide)
          · rw [← Except.ok.inj hw']
            exact h.finish _
  | Execute hd => exact h.onHandle (fun _ p => h.execute _ _ p) hw'
  | Execute2 hd => exact h.onHandle (fun _ p => h.execute _ _ p) hw'
  | DeltaReload hd => exact h.onHandle (fun k p => h.unload k p) hw'
  | Release hd =>
      cases hd with
      | none =>
          rw [← Except.ok.inj hw']
          exact h.finish _
      | some k =>
          rw [Session.start] at hw'
          cases hk : w.handles.lookup k with
          | none =>
              rw [hk] at hw'
              cases hw'
          | some e =>
              rw [hk] at hw'
              rw [← Except.ok.inj hw']
              exact { h.finish (t := t) .Done with }
  | CacheFlush =>
      rw [← Except.ok.inj hw']
      exact (h.finish _).withCache _
  | SetBackend backend => exact absurd rfl (hkeeps backend)

/-- The next step of a call in progress. -/
lemma Quiet.proceed (h : Quiet w₀ w) {m : Move} {ph : Phase}
    (hph : w.running.lookup m.1 = some ph) (hw' : w.proceed F m.1 m.2.2 ph = .ok w') :
    Quiet w₀ w' := by
  have hunchecked := h.unchecked ph (Table.mem_values_of_lookup hph)
  cases ph with
  | Promote r =>
      cases r with
      | Matmul q => exact hunchecked.elim
      | Compile op shape weights =>
          rw [Session.proceed] at hw'
          obtain ⟨⟨e, cache⟩, -, hw'⟩ := bind_eq_ok.mp hw'
          cases e with
          | none =>
              rw [← pure_eq_ok_iff.mp hw']
              exact (h.withCache cache).goOn trivial
          | some e =>
              rw [← pure_eq_ok_iff.mp hw']
              exact (h.withCache cache).handOut e
  | Missed r =>
      cases r with
      | Matmul q => exact hunchecked.elim
      | Compile op shape weights =>
          rw [← Except.ok.inj hw', Session.translate]
          cases (toMilShape shape).validate with
          | error e => exact h.fail _ _
          | ok _ =>
              rw [h.useAne]
              exact h.fail _ _
  | Keyed r => exact hunchecked.elim
  | Built r b => exact hunchecked.elim
  | Store r e => exact hunchecked.elim
  | Run p e => exact hunchecked.elim
  | Reload k p =>
      obtain ⟨t, call, verdict⟩ := m
      cases verdict with
      | none =>
          have hloaded : Quiet w₀ (w.record (.Load p)) := h.record (by simp)
          rw [← Except.ok.inj hw']
          exact hloaded.finish _
      | some text =>
          rw [← Except.ok.inj hw']
          exact h.fail _ _

lemma Quiet.turn (h : Quiet w₀ w) {m : Move} (hkeeps : KeepsBackend m)
    (hw' : w.turn F m = .ok w') : Quiet w₀ w' := by
  obtain ⟨v, hv, hw'⟩ := bind_eq_ok.mp hw'
  have hquiet : Quiet w₀ v := by
    rw [Session.advance] at hv
    cases hph : w.running.lookup m.1 with
    | some ph =>
        rw [hph] at hv
        exact h.proceed hph hv
    | none =>
        rw [hph] at hv
        exact h.start hkeeps hv
  rw [← pure_eq_ok_iff.mp hw']
  exact { hquiet with
    objects := fun o ho => hquiet.objects o (List.mem_filter.mp ho).1
    makes := fun p hp => by
      refine hquiet.makes p ((List.mem_append.mp hp).resolve_left fun hp => ?_)
      obtain ⟨q, -, heq⟩ := List.mem_map.mp hp
      cases heq }

/-- **The override loads nothing new.**  When the backend is forced to `"cpu"` and no call in
progress has passed its check of the backend, then in every interleaving that does not set the
backend again no new program is loaded, and every entry that anyone owns afterwards, and so every
handle that `libane_compile` returns, is one that was owned already. -/
theorem cpu_override_loads_nothing (maxBytes : UInt64) (available : Bool) (reason : String)
    (before after : List Move)
    (h : Along (Session.turn F) Behaved (init maxBytes available reason) (before ++ after))
    (hw₀ : runM (Session.turn F) (init maxBytes available reason) before = .ok w₀)
    (hcpu : w₀.forced = .Cpu) (hunchecked : ∀ ph ∈ w₀.running.values, ph.Unchecked)
    (hkeeps : ∀ m ∈ after, KeepsBackend m) :
    ∃ w, runM (Session.turn F) (init maxBytes available reason) (before ++ after) = .ok w ∧
      (∀ p, .Make p ∈ w.log → .Make p ∈ w₀.log) ∧ ∀ e ∈ w.owners, e ∈ w₀.owners := by
  obtain ⟨w, hw, hsound⟩ := runM_sound h
  obtain ⟨v, hv, hsound₀⟩ := runM_sound (h.earlier _)
  obtain rfl : v = w₀ := Except.ok.inj (hv.symm.trans hw₀)
  have hafter : runM (Session.turn F) v after = .ok w := by
    rw [runM_append, hw₀] at hw
    exact hw
  have hquiet : Quiet v w := runM_invariant (Session.turn F) (P := KeepsBackend)
    (fun s m s' hs hm hs' => hs.turn hm hs') after v w
    ⟨hcpu, hunchecked, fun o ho => ho, fun p hp => hp⟩ hkeeps hafter
  exact ⟨w, hw, hquiet.makes, fun e he =>
    hsound₀.owned_mem e (hquiet.objects e (hsound.owners_mem e he))⟩

/-- The matmul has been compiled, and then the override is set. -/
def beforeOverride : List Move := sharedMatmul ++ [(1, .SetBackend (some "cpu"), none)]

/-- Under the override a thread asks again for what has been compiled, executes it, and leaves. -/
def underOverride : List Move :=
  let compile : ApiCall := .Request (.Compile .Matmul ⟨1, 8, 1, 16, 4⟩ (Bytes.ofHalves numbers))
  [(2, compile, none), (2, compile, none), (2, .Execute2 (some 1), none),
    (2, .Release (some 1), none), (1, .CacheFlush, none), (0, .Release (some 0), none)]

theorem cpu_override_loads_nothing_matmul : ∃ w₀ w,
    runM (Session.turn Unit) (init 1000000 true "") beforeOverride = .ok w₀ ∧
    runM (Session.turn Unit) (init 1000000 true "") (beforeOverride ++ underOverride) = .ok w ∧
    (∀ p, .Make p ∈ w.log → .Make p ∈ w₀.log) ∧ ∀ e ∈ w.owners, e ∈ w₀.owners := by
  have hbehaved : Along (Session.turn Unit) Behaved (init 1000000 true "")
      (beforeOverride ++ underOverride) := by
    decide +kernel
  obtain ⟨w₀, hw₀, -⟩ := runM_sound (hbehaved.earlier _)
  have hstate : ∀ v ∈ (runM (Session.turn Unit) (init 1000000 true "") beforeOverride).toOption,
      v.forced = .Cpu ∧ ∀ ph ∈ v.running.values, ph.Unchecked := by
    decide +kernel
  obtain ⟨hcpu, hunchecked⟩ := hstate w₀ (by rw [hw₀]; rfl)
  obtain ⟨w, hw, hmakes, howners⟩ := cpu_override_loads_nothing (F := Unit) 1000000 true "" _
    underOverride hbehaved hw₀ hcpu hunchecked (by simp [underOverride, KeepsBackend])
  exact ⟨w₀, w, hw₀, hw, hmakes, howners⟩

/-! ## What is cached -/

/-- A `libane_compile` that found nothing returns null under the override. -/
lemma turn_missed {op : LibaneOp} {shape : LibaneShape} {weights : List UInt8}
    (hcpu : w.forced = .Cpu)
    (hph : w.running.lookup t = some (.Missed (.Compile op shape weights))) (call : ApiCall) :
    ∃ v, w.turn F (t, call, none) = .ok v ∧ v.answers = (t, .Handle none) :: w.answers := by
  have huse : w.useAne = false := by rw [useAne, hcpu]
  refine ⟨settle (w.translate F t (.Compile op shape weights)), ?_, ?_⟩
  · simp only [turn, advance, hph, proceed]
    rfl
  · show (w.translate F t (.Compile op shape weights)).answers = _
    rw [translate]
    cases (toMilShape shape).validate with
    | error e => rfl
    | ok _ =>
        simp only [huse]
        rfl

/-- **The override asks the cache first.**  Under the override a `libane_compile` returns null if
and only if the cache has no entry for the request, whatever was called before. -/
theorem compile_under_override_iff (maxBytes : UInt64) (available : Bool) (reason : String)
    (moves : List Move)
    (h : Along (Session.turn F) Behaved (init maxBytes available reason) moves)
    (hw : runM (Session.turn F) (init maxBytes available reason) moves = .ok w)
    (hcpu : w.forced = .Cpu) (hidle : w.running.lookup t = none) (op : LibaneOp)
    (shape : LibaneShape) (weights : List UInt8) :
    ∃ v a, runM (Session.turn F) w [(t, .Request (.Compile op shape weights), none),
        (t, .Request (.Compile op shape weights), none)] = .ok v ∧
      v.answers = (t, .Handle a) :: w.answers ∧
      (a = none ↔ w.cache.map.lookup (ProgramRequest.Compile op shape weights).key = none) := by
  have hsound := sound_of_runM h hw
  cases hkey : w.cache.map.lookup (ProgramRequest.Compile op shape weights).key with
  | none =>
      obtain ⟨v, hlookUp, hphase, hforced, hsame⟩ : ∃ v,
          w.turn F (t, .Request (.Compile op shape weights), none) = .ok v ∧
          v.running.lookup t = some (.Missed (.Compile op shape weights)) ∧ v.forced = .Cpu ∧
          v.answers = w.answers := by
        refine ⟨settle (goOn { w with cache := { w.cache with misses := w.cache.misses + 1 } } t
          (.Missed (.Compile op shape weights))), ?_, AList.lookup_insert w.running, hcpu, rfl⟩
        simp only [turn, advance, hidle, start, lookUp, getLookup, hkey]
        rfl
      obtain ⟨v', hmissed, hanswers⟩ := turn_missed (F := F) hforced hphase
        (.Request (.Compile op shape weights))
      refine ⟨v', none, ?_, hsame ▸ hanswers, iff_of_true rfl rfl⟩
      rw [runM_cons, hlookUp, ok_bind, runM_cons, hmissed]
      rfl
  | some x =>
      obtain ⟨n, hn, hnkey, -⟩ := (hsound.inStep.lookup_iff _ x).mp hkey
      obtain ⟨v, hlookUp, hphase, hlru, -, hsame, -⟩ :=
        turn_lookUp (F := F) hsound.inStep hn hnkey hidle
      have hv := hsound.of_turn hlookUp (fun _ => trivial) trivial
      obtain ⟨v', hpromote, -, -, hanswers, -⟩ := turn_promote (F := F) hv.inStep (hlru ▸ hn) hnkey
        hphase (.Request (.Compile op shape weights))
      refine ⟨v', some v.nextHandle, ?_, hsame ▸ hanswers, iff_of_false (by simp) (by simp)⟩
      rw [runM_cons, hlookUp, ok_bind, runM_cons, hpromote]
      rfl

theorem compile_under_override_iff_softmax : ∃ w v,
    runM (Session.turn Unit) (init 1000000 true "") beforeOverride = .ok w ∧
    runM (Session.turn Unit) w [(2, .Request (.Compile .Softmax ⟨1, 8, 1, 16, 4⟩ []), none),
      (2, .Request (.Compile .Softmax ⟨1, 8, 1, 16, 4⟩ []), none)] = .ok v ∧
    v.answers = (2, .Handle none) :: w.answers := by
  have hbehaved : Along (Session.turn Unit) Behaved (init 1000000 true "") beforeOverride := by
    decide +kernel
  obtain ⟨w, hw, -⟩ := runM_sound hbehaved
  have hstate : ∀ v ∈ (runM (Session.turn Unit) (init 1000000 true "") beforeOverride).toOption,
      v.forced = .Cpu ∧ (v.running.lookup 2).isNone ∧
        (v.cache.map.lookup
          (ProgramRequest.Compile .Softmax ⟨1, 8, 1, 16, 4⟩ []).key).isNone := by
    decide +kernel
  obtain ⟨hcpu, hidle, hkey⟩ := hstate w (by rw [hw]; rfl)
  obtain ⟨v, a, hv, hanswers, hiff⟩ := compile_under_override_iff (F := Unit) 1000000 true ""
    beforeOverride hbehaved hw hcpu (Option.isNone_iff_eq_none.mp hidle) .Softmax
    ⟨1, 8, 1, 16, 4⟩ []
  obtain rfl := hiff.mpr (Option.isNone_iff_eq_none.mp hkey)
  exact ⟨w, v, hw, hv, hanswers⟩

/-- What is cached is handed out under the override. -/
theorem cached_under_override : ∃ w e,
    runM (Session.turn Unit) (init 1000000 true "") (beforeOverride ++ underOverride.take 2) =
        .ok w ∧
      w.forced = .Cpu ∧ w.answers.head? = some (2, .Handle (some 1)) ∧
      w.handles.lookup 1 = some e ∧ e.entry.isAne = true := by
  have hbehaved : Along (Session.turn Unit) Behaved (init 1000000 true "")
      (beforeOverride ++ underOverride.take 2) := by
    decide +kernel
  obtain ⟨w, hw, -⟩ := runM_sound hbehaved
  have hstate : ∀ v ∈ (runM (Session.turn Unit) (init 1000000 true "")
        (beforeOverride ++ underOverride.take 2)).toOption,
      v.forced = .Cpu ∧ v.answers.head? = some (2, .Handle (some 1)) ∧
        ∃ e ∈ v.handles.lookup 1, e.entry.isAne = true := by
    decide +kernel
  obtain ⟨hcpu, hanswer, e, he, hane⟩ := hstate w (by rw [hw]; rfl)
  exact ⟨w, e, hw, hcpu, hanswer, he, hane⟩

end Session

end Libane
