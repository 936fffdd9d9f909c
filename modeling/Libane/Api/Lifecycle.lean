import Libane.Api.Frames

/-!
# The invariant of the process

A program exists as long as the entry that holds it, and an entry as long as someone owns it.  To
see that no step uses what has been freed, one has to know where entries are mentioned: in the
cache, under handles, in the local variables of calls.

**Between the steps.**  `Loose` says that whatever is mentioned anywhere exists.  It is kept by an
`advance`, which may leave entries behind that nobody owns, and so it does not say that what exists
is owned; `Sound` adds this, and holds after `settle`.  `Behaved` is what is asked of the callers:
they use a handle only until they release it, and do not release it while they reload it.

**Steps.**  `Effect` is the inversion of a step, as far as programs are concerned: it makes one,
uses, unloads or loads one, or does nothing to any.  `Loose.advance` shows that a step of a
well-behaved caller succeeds, keeps the invariant and has such an effect.  `runM_sound` is what
follows for runs, and `runM_keeps` adds an invariant that can be seen from the effects.
-/

namespace Libane

open CompileCache Lifetimes Runs

/-! ## Where entries come from -/

section Origins

variable (F : Type) [MilFloat F] (S : ProgramRequest → Prop)

/-- The entry was made for one of these requests: it holds a program built for it, or it was left
by a matmul whose program the framework has refused. -/
def MadeFor (e : EntryPtr) : Prop :=
  ∃ r b p, S r ∧ r.build F = .ok b ∧ e.entry = r.entry b p ∧
    (∀ q, p = some q → q.program = r.program b) ∧ (p = none → ∃ m, r = .Matmul m)

/-- The request of a call in progress is one of these, and its program is the one it builds. -/
def Phase.Known : Phase → Prop
  | Keyed r | Promote r | Missed r => S r
  | Built r b => S r ∧ r.build F = .ok b
  | Store _ _ => True
  | Run p e => e.entry.backendHandle = some p
  | Reload _ _ => True

variable {F S}

/-- An entry releases exactly what it holds. -/
lemma MadeFor.released_eq {e : EntryPtr} (h : MadeFor F S e) :
    released e = e.entry.backendHandle := by
  obtain ⟨r, b, p, -, -, he, -⟩ := h
  rw [released, he]
  cases p <;> rfl

lemma MadeFor.isAne_eq {e : EntryPtr} (h : MadeFor F S e) :
    e.entry.isAne = e.entry.backendHandle.isSome := by
  obtain ⟨r, b, p, -, -, he, -⟩ := h
  rw [he]
  rfl

end Origins

namespace Phase

/-- The handle that the call reloads, and its program. -/
def reload : Phase → Option (ℕ × LoadedProgram)
  | Reload h p => some (h, p)
  | _ => none

/-- A `libane_matmul_f16` about to call `ane_compile`. -/
def buildsMatmul : Phase → Bool
  | Built (.Matmul _) _ => true
  | _ => false

end Phase

/-! ## The invariant -/

namespace Session

variable (F : Type) [MilFloat F] (S : ProgramRequest → Prop)

/-- **Between the steps.**  The cache is in step, what is owned exists, and the programs that exist
are those of the entries that exist. -/
structure Loose (w : Session) : Prop where
  inStep : w.cache.InStep
  lru_mem : ∀ n ∈ w.cache.lru, n.shared ∈ w.objects
  handles_mem : ∀ e ∈ w.handles.values, e ∈ w.objects
  held_mem : ∀ ph ∈ w.running.values, ∀ e, ph.held = some e → e ∈ w.objects
  known : ∀ ph ∈ w.running.values, ph.Known F S
  made : ∀ o ∈ w.objects, MadeFor F S o
  ids_nodup : (w.objects.map (·.id)).Nodup
  ids_lt : ∀ o ∈ w.objects, o.id < w.nextObject
  tracks : Tracks w.log (w.objects.filterMap released)
  programs_lt : ∀ p, .Make p ∈ w.log ∨ .Free p ∈ w.log → p.id < w.nextProgram
  handles_lt : ∀ h e, w.handles.lookup h = some e → h < w.nextHandle
  reloads : ∀ h p, .Reload h p ∈ w.running.values →
    ∃ e, w.handles.lookup h = some e ∧ e.entry.backendHandle = some p

/-- A caller may use and release the handles that have not been released, but not release one
that is being reloaded. -/
def Permits (w : Session) : ApiCall → Prop
  | .Execute (some h) | .Execute2 (some h) | .DeltaReload (some h) => (w.handles.lookup h).isSome
  | .Release (some h) =>
      (w.handles.lookup h).isSome ∧ ∀ ph ∈ w.running.values, ∀ r ∈ ph.reload, r.1 ≠ h
  | _ => True

instance (w : Session) : DecidablePred w.Permits
  | .Execute (some _) | .Execute2 (some _) | .DeltaReload (some _) =>
      inferInstanceAs (Decidable (_ = true))
  | .Release (some _) => inferInstanceAs (Decidable (_ ∧ _))
  | .Request _ | .Execute none | .Execute2 none | .DeltaReload none | .Release none
  | .CacheFlush | .SetBackend _ => isTrue trivial

/-- The caller does only what is permitted. -/
def Behaved (w : Session) (m : Move) : Prop :=
  w.running.lookup m.1 = none → w.Permits m.2.1

instance : DecidableRel Behaved := fun _ _ => inferInstanceAs (Decidable (_ → _))

/-- The request that a move makes. -/
def Asks (S : ProgramRequest → Prop) (m : Move) : Prop :=
  match m.2.1 with
  | .Request r => S r
  | _ => True

variable {F S} {w : Session} {t : ℕ}

/-- What is owned exists. -/
lemma Loose.owners_mem (h : Loose F S w) : ∀ e ∈ w.owners, e ∈ w.objects := by
  intro e he
  simp only [owners, List.mem_append, List.mem_map, List.mem_filterMap] at he
  rcases he with ((⟨n, hn, rfl⟩ | ⟨⟨key, v⟩, hv, rfl⟩) | he) | ⟨ph, hph, he⟩
  · exact h.lru_mem n hn
  · obtain ⟨n, hn, -, rfl⟩ := (h.inStep.lookup_iff key v).mp (AList.mem_lookup_iff.mpr hv)
    exact h.lru_mem n hn
  · exact h.handles_mem e he
  · exact h.held_mem ph hph e he

/-! ## The parts of a step -/

/-- The call goes on; only a reload has to say which handle it reloads. -/
lemma Loose.goOn (h : Loose F S w) {ph : Phase} (hheld : ∀ e, ph.held = some e → e ∈ w.objects)
    (hknown : ph.Known F S) (hreload : ∀ k p, ph = .Reload k p →
      ∃ e, w.handles.lookup k = some e ∧ e.entry.backendHandle = some p := by simp) :
    Loose F S (w.goOn t ph) :=
  { h with
    held_mem := fun q hq => (Table.mem_values_of_insert hq).elim
      (fun heq => heq ▸ hheld) (h.held_mem q)
    known := fun q hq => (Table.mem_values_of_insert hq).elim
      (fun heq => heq ▸ hknown) (h.known q)
    reloads := fun k p hq => (Table.mem_values_of_insert hq).elim
      (fun heq => hreload k p heq.symm) (h.reloads k p) }

lemma Loose.finish (h : Loose F S w) (a : Answer) : Loose F S (w.finish t a) :=
  { h with
    held_mem := fun q hq => h.held_mem q (Table.mem_values_of_erase hq)
    known := fun q hq => h.known q (Table.mem_values_of_erase hq)
    reloads := fun k p hq => h.reloads k p (Table.mem_values_of_erase hq) }

lemma Loose.fail (h : Loose F S w) (text : String) (a : Answer) :
    Loose F S (w.fail t text a) :=
  { h.finish (t := t) a with }

lemma Loose.handOut (h : Loose F S w) {e : EntryPtr} (he : e ∈ w.objects) :
    Loose F S (w.handOut t e) := by
  have hfinish := h.finish (t := t) (.Handle (some w.nextHandle))
  exact { hfinish with
    handles_mem := fun q hq => (Table.mem_values_of_insert hq).elim
      (fun heq => heq ▸ he) (h.handles_mem q)
    handles_lt := fun k q hq => by
      have hq : (w.handles.insert w.nextHandle e).lookup k = some q := hq
      show k < w.nextHandle + 1
      rw [Table.lookup_insert_cases] at hq
      split_ifs at hq with hk
      · omega
      · exact (h.handles_lt k q hq).trans (Nat.lt_succ_self _)
    reloads := fun k p hq => by
      obtain ⟨q, hk, hp⟩ := hfinish.reloads k p hq
      exact ⟨q, (AList.lookup_insert_ne (h.handles_lt k q hk).ne).trans hk, hp⟩ }

lemma Loose.withCache (h : Loose F S w) {c : CompileCache CacheKey LoadedProgram}
    (hc : c.InStep) (hlru : ∀ n ∈ c.lru, n.shared ∈ w.objects) :
    Loose F S { w with cache := c } :=
  { h with inStep := hc, lru_mem := hlru }

/-- A program may be used, unloaded and loaded while its entry exists. -/
lemma Loose.record (h : Loose F S w) {p : LoadedProgram} {e : EntryPtr} (he : e ∈ w.objects)
    (hp : e.entry.backendHandle = some p) {event : Event LoadedProgram}
    (hevent : event = .Use p ∨ event = .Unload p ∨ event = .Load p) :
    Loose F S (w.record event) := by
  have hheld : p ∈ w.objects.filterMap released :=
    List.mem_filterMap.mpr ⟨e, he, by rw [(h.made e he).released_eq, hp]⟩
  exact { h with
    tracks := by
      rcases hevent with rfl | rfl | rfl
      · exact h.tracks.use hheld
      · exact h.tracks.unload hheld
      · exact h.tracks.load hheld
    programs_lt := fun q hq => h.programs_lt q (by
      rcases hevent with rfl | rfl | rfl <;> simpa [Session.record] using hq) }

lemma Loose.lookUp (h : Loose F S w) {r : ProgramRequest} (hr : S r) :
    Loose F S (w.lookUp t r) := by
  have hlru : (w.cache.getLookup r.key).2.lru = w.cache.lru := by
    rw [getLookup]
    cases w.cache.map.lookup r.key <;> rfl
  have hcache := h.withCache (h.inStep.getLookup r.key) (by rw [hlru]; exact h.lru_mem)
  cases hget : w.cache.getLookup r.key with
  | mk hit cache =>
      rw [Session.lookUp, hget]
      rw [hget] at hcache
      cases hit with
      | true => exact hcache.goOn (by simp [Phase.held]) hr
      | false => exact hcache.goOn (by simp [Phase.held]) hr

lemma Loose.obtained (h : Loose F S w) (r : ProgramRequest) {e : EntryPtr}
    (he : e ∈ w.objects) : Loose F S (w.obtained t r e) := by
  cases r with
  | Compile op shape weights => exact h.handOut he
  | Matmul m =>
      rw [Session.obtained]
      split
      · next p _ hp =>
          refine h.goOn (fun e' he' => ?_) hp
          rw [← Option.some.inj he']
          exact he
      · exact h.finish _

lemma Loose.translate (h : Loose F S w) {r : ProgramRequest} (hr : S r) :
    Loose F S (w.translate F t r) := by
  cases r with
  | Compile op shape weights =>
      rw [Session.translate]
      cases (toMilShape shape).validate with
      | error e => exact h.fail _ _
      | ok _ =>
          show Loose F S (if w.useAne = true then _ else _)
          split
          · cases hb : ProgramRequest.build F (.Compile op shape weights) with
            | error text => exact h.fail _ _
            | ok b => exact h.goOn (by simp [Phase.held]) ⟨hr, hb⟩
          · exact h.fail _ _
  | Matmul m =>
      rw [Session.translate]
      cases hb : ProgramRequest.build F (.Matmul m) with
      | error text => exact h.finish _
      | ok b => exact h.goOn (by simp [Phase.held]) ⟨hr, hb⟩

/-- A new entry.  Without a program it must be that of a matmul. -/
lemma Loose.allocate (h : Loose F S w) {r : ProgramRequest} {b : Build} (hr : S r)
    (hb : r.build F = .ok b) {loads : Bool} (hloads : loads = false → ∃ m, r = .Matmul m) :
    Loose F S (w.allocate t r b loads) := by
  obtain ⟨p, hp⟩ : ∃ p : Option LoadedProgram,
      (if loads then some ⟨w.nextProgram, r.program b⟩ else none) = p := ⟨_, rfl⟩
  have hnew : MadeFor F S ⟨w.nextObject, r.entry b p⟩ := by
    refine ⟨r, b, p, hr, hb, rfl, fun q hq => ?_, fun hnone => ?_⟩
    · cases loads with
      | true => rw [← Option.some.inj (hp.trans hq)]
      | false => cases hp.trans hq
    · cases loads with
      | true => cases hp.trans hnone
      | false => exact hloads rfl
  have hfresh : ∀ q : LoadedProgram, q.id = w.nextProgram →
      .Make q ∉ w.log ∧ .Free q ∉ w.log := fun q hq =>
    ⟨fun hin => absurd (h.programs_lt q (Or.inl hin)) (by omega),
      fun hin => absurd (h.programs_lt q (Or.inr hin)) (by omega)⟩
  have hmem : ∀ o ∈ w.objects, o ∈ (⟨w.nextObject, r.entry b p⟩ : EntryPtr) :: w.objects :=
    fun o ho => List.mem_cons_of_mem _ ho
  rw [Session.allocate, hp]
  refine Loose.goOn ?_ (fun e he => ?_) trivial
  · exact {
      inStep := h.inStep
      lru_mem := fun n hn => hmem _ (h.lru_mem n hn)
      handles_mem := fun e he => hmem _ (h.handles_mem e he)
      held_mem := fun ph hph e he => hmem _ (h.held_mem ph hph e he)
      known := h.known
      made := fun o ho => (List.mem_cons.mp ho).elim (fun heq => heq ▸ hnew) (h.made o)
      ids_nodup := by
        refine List.nodup_cons.mpr ⟨fun hin => ?_, h.ids_nodup⟩
        obtain ⟨o, ho, hid⟩ := List.mem_map.mp hin
        exact absurd (h.ids_lt o ho) (by rw [show o.id = w.nextObject from hid]; exact lt_irrefl _)
      ids_lt := fun o ho => by
        rcases List.mem_cons.mp ho with rfl | ho
        · exact Nat.lt_succ_self _
        · exact (h.ids_lt o ho).trans (Nat.lt_succ_self _)
      tracks := by
        rw [List.filterMap_cons, hnew.released_eq]
        cases loads with
        | true =>
            obtain rfl := hp
            exact h.tracks.make (hfresh _ rfl).1 (hfresh _ rfl).2
        | false =>
            obtain rfl := hp
            exact h.tracks
      programs_lt := fun q hq => by
        cases loads with
        | true =>
            rcases hq with hq | hq
            · rcases List.mem_cons.mp hq with heq | hq
              · obtain rfl := Event.Make.inj heq
                exact Nat.lt_succ_self _
              · exact (h.programs_lt q (Or.inl hq)).trans (Nat.lt_succ_self _)
            · rcases List.mem_cons.mp hq with heq | hq
              · cases heq
              · exact (h.programs_lt q (Or.inr hq)).trans (Nat.lt_succ_self _)
        | false => exact (h.programs_lt q hq).trans (Nat.lt_succ_self _)
      handles_lt := h.handles_lt
      reloads := h.reloads }
  · rw [← Option.some.inj he]
    exact List.mem_cons_self

/-- A call on a handle that has not been released fails, or goes on with its program. -/
lemma onHandle_spec {null unavailable : String} {rest : ℕ → LoadedProgram → Session}
    {hd : Option ℕ} (hlive : ∀ k, hd = some k → (w.handles.lookup k).isSome) :
    ∃ w', w.onHandle t null unavailable rest hd = .ok w' ∧
      ((∃ text a, w' = w.fail t text a) ∨ ∃ k e p, hd = some k ∧ w.handles.lookup k = some e ∧
        e.entry.backendHandle = some p ∧ w' = rest k p) := by
  cases hd with
  | none => exact ⟨_, rfl, Or.inl ⟨_, _, rfl⟩⟩
  | some k =>
      rw [onHandle]
      cases hk : w.handles.lookup k with
      | none => exact absurd (hlive k rfl) (by simp [hk])
      | some e =>
          simp only
          split
          · next p _ hp => exact ⟨_, rfl, Or.inr ⟨k, e, p, rfl, hk, hp, rfl⟩⟩
          · exact ⟨_, rfl, Or.inl ⟨_, _, rfl⟩⟩

/-! ## Steps -/

/-- The program that the move executes. -/
def executed (w : Session) (m : Move) : Option LoadedProgram :=
  match w.running.lookup m.1 with
  | some (.Run p _) => some p
  | some _ => none
  | none =>
      match m.2.1 with
      | .Execute (some h) | .Execute2 (some h) =>
          (w.handles.lookup h).bind (·.entry.backendHandle)
      | _ => none

/-- A program that is executed is that of a matmul in progress or of a handle. -/
lemma executed_spec {m : Move} {p : LoadedProgram} (h : w.executed m = some p) :
    (∃ e, w.running.lookup m.1 = some (.Run p e)) ∨ w.running.lookup m.1 = none ∧
      ∃ h e, w.handles.lookup h = some e ∧ e.entry.backendHandle = some p := by
  rw [executed] at h
  cases hph : w.running.lookup m.1 with
  | some ph =>
      rw [hph] at h
      cases ph <;> cases h
      exact Or.inl ⟨_, rfl⟩
  | none =>
      rw [hph] at h
      simp only at h
      split at h
      · obtain ⟨e, he, hp⟩ := Option.bind_eq_some_iff.mp h
        exact Or.inr ⟨rfl, _, e, he, hp⟩
      · obtain ⟨e, he, hp⟩ := Option.bind_eq_some_iff.mp h
        exact Or.inr ⟨rfl, _, e, he, hp⟩
      · cases h

/-- **What a step does to programs.**  A failed reload does nothing in its second half, and a new
entry without a program is that of a matmul that the framework refuses. -/
inductive Effect (w : Session) (m : Move) (w' : Session) : Prop where
  | nothing (hobjects : w'.objects = w.objects) (hlog : w'.log = w.log)
      (hphase : ∀ h p, w.running.lookup m.1 = some (.Reload h p) → m.2.2 ≠ none)
  | makes (r : ProgramRequest) (b : Build) (loads : Bool)
      (hphase : w.running.lookup m.1 = some (.Built r b))
      (hloads : loads = false → ∃ q, r = .Matmul q ∧ m.2.2 ≠ none)
      (heq : w' = w.allocate m.1 r b loads)
  | uses (p : LoadedProgram) (hexecuted : w.executed m = some p) (hobjects : w'.objects = w.objects)
      (hlog : w'.log = .Use p :: w.log)
  | unloads (h : ℕ) (p : LoadedProgram) (hidle : w.running.lookup m.1 = none)
      (hcall : m.2.1 = .DeltaReload (some h))
      (hphase : w'.running.lookup m.1 = some (.Reload h p)) (hobjects : w'.objects = w.objects)
      (hlog : w'.log = .Unload p :: w.log)
  | loads (h : ℕ) (p : LoadedProgram) (hphase : w.running.lookup m.1 = some (.Reload h p))
      (hobjects : w'.objects = w.objects) (hlog : w'.log = .Load p :: w.log)

/-- A step of a thread that is not in a call, and that does nothing to programs. -/
lemma Effect.of_idle {w' : Session} {m : Move} (hidle : w.running.lookup m.1 = none)
    (hobjects : w'.objects = w.objects) (hlog : w'.log = w.log) : Effect w m w' :=
  .nothing hobjects hlog fun h p hph => by
    rw [hidle] at hph
    cases hph

/-- A step of a thread that is in a call, but not in a reload, and that does nothing to
programs. -/
lemma Effect.of_phase {w' : Session} {m : Move} {ph : Phase}
    (hph : w.running.lookup m.1 = some ph) (hnot : ∀ h p, ph ≠ .Reload h p)
    (hobjects : w'.objects = w.objects) (hlog : w'.log = w.log) : Effect w m w' :=
  .nothing hobjects hlog fun h p hph' => by
    rw [hph] at hph'
    exact absurd (Option.some.inj hph') (hnot h p)

/-- The execution of the program of a handle. -/
lemma Loose.execute (h : Loose F S w) {p : LoadedProgram} {e : EntryPtr} (he : e ∈ w.objects)
    (hp : e.entry.backendHandle = some p) (failure : String) (verdict : Option String) :
    Loose F S (w.execute t failure verdict p) := by
  have hused := h.record he hp (Or.inl rfl)
  cases verdict with
  | none => exact hused.finish _
  | some text => exact hused.fail _ _

/-- The first step of a call that executes the program of a handle. -/
lemma Loose.startExecute (h : Loose F S w) {m : Move} (hidle : w.running.lookup m.1 = none)
    {hd : Option ℕ} (hcall : m.2.1 = .Execute hd ∨ m.2.1 = .Execute2 hd)
    (hlive : ∀ k, hd = some k → (w.handles.lookup k).isSome) (null unavailable failure : String) :
    ∃ w', w.onHandle m.1 null unavailable (fun _ p => w.execute m.1 failure m.2.2 p) hd = .ok w' ∧
      Loose F S w' ∧ Effect w m w' := by
  obtain ⟨w', hw', ⟨text, a, rfl⟩ | ⟨k, e, p, rfl, hk, hp, rfl⟩⟩ := onHandle_spec hlive
  · exact ⟨_, hw', h.fail _ _, .of_idle hidle rfl rfl⟩
  · refine ⟨_, hw', h.execute (h.handles_mem e (Table.mem_values_of_lookup hk)) hp _ _,
      .uses p ?_ ?_ ?_⟩
    · rcases hcall with hcall | hcall <;> simp [executed, hidle, hcall, hk, hp]
    · cases m.2.2 <;> rfl
    · cases m.2.2 <;> rfl

/-- The first step of a call. -/
lemma Loose.start (h : Loose F S w) {m : Move} (hidle : w.running.lookup m.1 = none)
    (hbehaved : Behaved w m) (hasks : Asks S m) :
    ∃ w', w.start m.1 m.2.2 m.2.1 = .ok w' ∧ Loose F S w' ∧ Effect w m w' := by
  obtain ⟨t, call, verdict⟩ := m
  have hlive := hbehaved hidle
  cases call with
  | Request r =>
      cases r with
      | Compile op shape weights => exact ⟨_, rfl, h.lookUp hasks, .of_idle hidle rfl rfl⟩
      | Matmul r =>
          rw [Session.start]
          split_ifs
          · exact ⟨_, rfl, h.fail _ _, .of_idle hidle rfl rfl⟩
          · exact ⟨_, rfl, h.goOn (by simp [Phase.held]) hasks, .of_idle hidle rfl rfl⟩
          · exact ⟨_, rfl, h.finish _, .of_idle hidle rfl rfl⟩
  | Execute hd =>
      exact h.startExecute hidle (Or.inl rfl) (fun k hk => by subst hk; exact hlive) _ _ _
  | Execute2 hd =>
      exact h.startExecute hidle (Or.inr rfl) (fun k hk => by subst hk; exact hlive) _ _ _
  | DeltaReload hd =>
      have hspec := @onHandle_spec w t "libane_delta_reload: null handle"
        "libane_delta_reload: handle is not ANE-compiled" (fun k p => w.unload t k p) hd
        fun k hk => by subst hk; exact hlive
      obtain ⟨w', hw', ⟨text, a, rfl⟩ | ⟨k, e, p, rfl, hk, hp, rfl⟩⟩ := hspec
      · exact ⟨_, hw', h.fail _ _, .of_idle hidle rfl rfl⟩
      · have he := h.handles_mem e (Table.mem_values_of_lookup hk)
        refine ⟨_, hw', (h.record he hp (Or.inr (Or.inl rfl))).goOn (by simp [Phase.held]) trivial
          fun k' p' heq => ?_, .unloads k p hidle rfl (AList.lookup_insert _) rfl rfl⟩
        obtain ⟨rfl, rfl⟩ := Phase.Reload.inj heq
        exact ⟨e, hk, hp⟩
  | Release hd =>
      cases hd with
      | none => exact ⟨_, rfl, h.finish _, .of_idle hidle rfl rfl⟩
      | some k =>
          rw [Session.start]
          cases hk : w.handles.lookup k with
          | none => exact absurd hlive.1 (by simp [hk])
          | some e =>
              have hfinish := h.finish (t := t) .Done
              refine ⟨_, rfl, ?_, .of_idle hidle rfl rfl⟩
              exact { hfinish with
                handles_mem := fun e he => h.handles_mem e (Table.mem_values_of_erase he)
                handles_lt := fun j q hq => by
                  have hq : (w.handles.erase k).lookup j = some q := hq
                  by_cases hjk : j = k
                  · rw [hjk, AList.lookup_erase] at hq
                    cases hq
                  · rw [AList.lookup_erase_ne hjk] at hq
                    exact h.handles_lt j q hq
                reloads := fun j p hq => by
                  have hq := Table.mem_values_of_erase hq
                  obtain ⟨q, hj, hp⟩ := h.reloads j p hq
                  have hjk : j ≠ k := hlive.2 _ hq (j, p) rfl
                  exact ⟨q, (AList.lookup_erase_ne hjk).trans hj, hp⟩ }
  | CacheFlush =>
      exact ⟨_, rfl, (h.finish _).withCache (inStep_flush _)
        (fun n hn => absurd hn List.not_mem_nil), .of_idle hidle rfl rfl⟩
  | SetBackend backend =>
      have hfinish := h.finish (t := t) .Done
      cases backend with
      | none => exact ⟨_, rfl, { hfinish with }, .of_idle hidle rfl rfl⟩
      | some name =>
          rw [Session.start]
          simp only
          split_ifs
          · exact ⟨_, rfl, { hfinish with }, .of_idle hidle rfl rfl⟩
          · exact ⟨_, rfl, { hfinish with }, .of_idle hidle rfl rfl⟩
          · exact ⟨_, rfl, h.fail _ _, .of_idle hidle rfl rfl⟩

/-- Handing out an entry does nothing to programs. -/
lemma obtained_same (r : ProgramRequest) (e : EntryPtr) :
    (w.obtained t r e).objects = w.objects ∧ (w.obtained t r e).log = w.log := by
  cases r with
  | Compile op shape weights => exact ⟨rfl, rfl⟩
  | Matmul m =>
      rw [obtained]
      split <;> exact ⟨rfl, rfl⟩

/-- Nor does the translation. -/
lemma translate_same (r : ProgramRequest) :
    (w.translate F t r).objects = w.objects ∧ (w.translate F t r).log = w.log := by
  cases r with
  | Compile op shape weights =>
      rw [translate]
      cases (toMilShape shape).validate with
      | error e => exact ⟨rfl, rfl⟩
      | ok _ =>
          simp only
          split
          · cases ProgramRequest.build F (.Compile op shape weights) <;> exact ⟨rfl, rfl⟩
          · exact ⟨rfl, rfl⟩
  | Matmul m =>
      rw [translate]
      cases ProgramRequest.build F (.Matmul m) <;> exact ⟨rfl, rfl⟩

/-- The next step of a call in progress. -/
lemma Loose.proceed (h : Loose F S w) {m : Move} {ph : Phase}
    (hph : w.running.lookup m.1 = some ph) :
    ∃ w', w.proceed F m.1 m.2.2 ph = .ok w' ∧ Loose F S w' ∧ Effect w m w' := by
  obtain ⟨t, call, verdict⟩ := m
  have hmem := Table.mem_values_of_lookup hph
  have hknown := h.known ph hmem
  cases ph with
  | Keyed r => exact ⟨_, rfl, h.lookUp hknown, .of_phase hph (by simp) rfl rfl⟩
  | Promote r =>
      rcases h.inStep.getPromote r.key with ⟨heq, -⟩ | ⟨n, hn, hkey, heq⟩
      · simp only [Session.proceed, heq, ok_bind]
        exact ⟨_, rfl, (h.withCache h.inStep h.lru_mem).goOn (by simp [Phase.held]) hknown,
          .of_phase hph (by simp) rfl rfl⟩
      · simp only [Session.proceed, heq, ok_bind]
        have hperm := moved_perm h.inStep hn
        rw [hkey] at hperm
        refine ⟨_, rfl, Loose.obtained (h.withCache (h.inStep.reordered hperm) fun k hk =>
          h.lru_mem k (hperm.mem_iff.mp hk)) r (h.lru_mem n hn), .of_phase hph (by simp) ?_ ?_⟩
        · exact (obtained_same r n.shared).1
        · exact (obtained_same r n.shared).2
  | Missed r =>
      exact ⟨_, rfl, h.translate hknown,
        .of_phase hph (by simp) (translate_same r).1 (translate_same r).2⟩
  | Built r b =>
      obtain ⟨hr, hb⟩ := hknown
      cases r with
      | Compile op shape weights =>
          have htext : b.text ≠ "" := by
            rw [ProgramRequest.build] at hb
            cases hp : buildProgram F (toMilShape shape).channels (toMilShape shape).seq op with
            | error text => rw [hp] at hb; cases hb
            | ok p =>
                rw [hp] at hb
                rw [← Except.ok.inj hb]
                exact text_ne_of_buildProgram hp
          simp only [Session.proceed, compileBuilt, if_neg htext]
          cases verdict with
          | some text => exact ⟨_, rfl, h.fail _ _, .of_phase hph (by simp) rfl rfl⟩
          | none => exact ⟨_, rfl, h.allocate hr hb (by simp), .makes _ b true hph (by simp) rfl⟩
      | Matmul q =>
          refine ⟨_, rfl, h.allocate hr hb fun _ => ⟨q, rfl⟩, .makes _ b _ hph (fun hl => ?_) rfl⟩
          exact ⟨q, rfl, by cases verdict <;> simp at hl ⊢⟩
  | Store r e =>
      obtain ⟨d, heq, hd⟩ := h.inStep.put e
      simp only [Session.proceed, heq, ok_bind]
      have he := h.held_mem _ hmem e rfl
      refine ⟨_, rfl, Loose.obtained (h.withCache hd.inStep fun n hn => ?_) r he,
        .of_phase hph (by simp) (obtained_same r e).1 (obtained_same r e).2⟩
      obtain ⟨n', kept, hlru, rfl, hkept, -⟩ := hd.lru_eq
      rw [hlru] at hn
      rcases List.mem_cons.mp hn with rfl | hn
      · exact he
      · exact h.lru_mem n (List.mem_filter.mp (hkept.subset hn)).1
  | Run p e =>
      have he := h.held_mem _ hmem e rfl
      exact ⟨_, rfl, (h.record he hknown (Or.inl rfl)).finish _,
        .uses p (by simp [executed, hph]) rfl rfl⟩
  | Reload k p =>
      obtain ⟨e, hk, hp⟩ := h.reloads k p hmem
      have he := h.handles_mem e (Table.mem_values_of_lookup hk)
      cases verdict with
      | none =>
          exact ⟨_, rfl, (h.record he hp (Or.inr (Or.inr rfl))).finish _,
            .loads k p hph rfl rfl⟩
      | some text => exact ⟨_, rfl, h.fail _ _, .nothing rfl rfl (by simp)⟩

/-- **A step** of a well-behaved caller succeeds. -/
theorem Loose.advance (h : Loose F S w) {m : Move} (hbehaved : Behaved w m) (hasks : Asks S m) :
    ∃ w', w.advance F m = .ok w' ∧ Loose F S w' ∧ Effect w m w' := by
  rw [Session.advance]
  cases hph : w.running.lookup m.1 with
  | some ph => exact h.proceed hph
  | none => exact h.start hph hbehaved hasks

/-! ## Destruction -/

lemma owned_iff {e : EntryPtr} : w.owned e = true ↔ ∃ o ∈ w.owners, o.id = e.id := by
  simp [owned]

/-- Destruction takes only what nobody owns. -/
lemma Loose.settle (h : Loose F S w) : Loose F S w.settle := by
  have hkeep : ∀ e ∈ w.objects, e ∈ w.owners → e ∈ w.settle.objects := fun e he howns =>
    List.mem_filter.mpr ⟨he, owned_iff.mpr ⟨e, howns, rfl⟩⟩
  have hsub : w.settle.objects.Sublist w.objects := List.filter_sublist
  have hfree : ∀ p, .Free p ∈ w.settle.log → .Free p ∈ w.log ∨
      p ∈ w.objects.filterMap released := fun p hp => by
    rcases List.mem_append.mp hp with hp | hp
    · obtain ⟨q, hq, heq⟩ := List.mem_map.mp hp
      obtain rfl := Event.Free.inj heq
      obtain ⟨o, ho, ho'⟩ := List.mem_filterMap.mp (List.mem_reverse.mp hq)
      exact Or.inr (List.mem_filterMap.mpr ⟨o, (List.mem_filter.mp ho).1, ho'⟩)
    · exact Or.inl hp
  exact {
    inStep := h.inStep
    lru_mem := fun n hn => hkeep _ (h.lru_mem n hn) (by
      simp only [owners, List.mem_append, List.mem_map]
      exact Or.inl (Or.inl (Or.inl ⟨n, hn, rfl⟩)))
    handles_mem := fun e he => hkeep _ (h.handles_mem e he) (by
      simp only [owners, List.mem_append]
      exact Or.inl (Or.inr he))
    held_mem := fun ph hph e he => hkeep _ (h.held_mem ph hph e he) (by
      simp only [owners, List.mem_append, List.mem_filterMap]
      exact Or.inr ⟨ph, hph, he⟩)
    known := h.known
    made := fun o ho => h.made o (hsub.subset ho)
    ids_nodup := h.ids_nodup.sublist (hsub.map _)
    ids_lt := fun o ho => h.ids_lt o (hsub.subset ho)
    tracks := h.tracks.collect w.owned released
    programs_lt := fun p hp => by
      rcases hp with hp | hp
      · rcases List.mem_append.mp hp with hp | hp
        · obtain ⟨q, -, heq⟩ := List.mem_map.mp hp
          cases heq
        · exact h.programs_lt p (Or.inl hp)
      · rcases hfree p hp with hp | hp
        · exact h.programs_lt p (Or.inr hp)
        · exact h.programs_lt p (Or.inl ((h.tracks.alive_iff p).mpr hp).1)
    handles_lt := h.handles_lt
    reloads := h.reloads }

/-- After the destruction, what exists is owned. -/
lemma Loose.settled_owned (h : Loose F S w) : ∀ o ∈ w.settle.objects, o ∈ w.settle.owners := by
  intro o ho
  obtain ⟨hobj, howned⟩ := List.mem_filter.mp ho
  obtain ⟨e, he, hid⟩ := owned_iff.mp howned
  have heq : e = o := List.inj_on_of_nodup_map h.ids_nodup (h.owners_mem e he) hobj hid
  exact heq ▸ he

/-! ## Runs -/

variable (F S) in
/-- **After every step** the invariant holds, and what exists is owned. -/
structure Sound (w : Session) : Prop extends Loose F S w where
  owned_mem : ∀ o ∈ w.objects, o ∈ w.owners

lemma Sound.turn (h : Sound F S w) {m : Move} (hbehaved : Behaved w m) (hasks : Asks S m) :
    ∃ v, w.advance F m = .ok v ∧ w.turn F m = .ok v.settle ∧ Loose F S v ∧ Sound F S v.settle ∧
      Effect w m v := by
  obtain ⟨v, heq, hv, heffect⟩ := h.toLoose.advance hbehaved hasks
  refine ⟨v, heq, ?_, hv, ⟨hv.settle, hv.settled_owned⟩, heffect⟩
  rw [Session.turn, heq]
  rfl

lemma sound_init (maxBytes : UInt64) (available : Bool) (reason : String) :
    Sound F S (init maxBytes available reason) where
  inStep := inStep_empty maxBytes
  lru_mem := fun n hn => absurd hn List.not_mem_nil
  handles_mem := fun e he => absurd he List.not_mem_nil
  held_mem := fun ph hph => absurd hph List.not_mem_nil
  known := fun ph hph => absurd hph List.not_mem_nil
  made := fun o ho => absurd ho List.not_mem_nil
  ids_nodup := List.nodup_nil
  ids_lt := fun o ho => absurd ho List.not_mem_nil
  tracks := Tracks.nil
  programs_lt := fun p hp => by simp [init] at hp
  handles_lt := fun h e hh => by cases hh
  reloads := fun h p hp => absurd hp List.not_mem_nil
  owned_mem := fun o ho => absurd ho List.not_mem_nil

/-- The requests of a run. -/
def Asked (moves : List Move) (r : ProgramRequest) : Prop := ∃ m ∈ moves, m.2.1 = .Request r

lemma asks_of_mem {moves : List Move} {m : Move} (hm : m ∈ moves) : Asks (Asked moves) m := by
  rw [Asks]
  split
  · next r hr => exact ⟨m, hm, hr⟩
  · trivial

/-- Every run of well-behaved callers goes on and stays sound. -/
theorem runM_sound {maxBytes : UInt64} {available : Bool} {reason : String} {moves : List Move}
    (h : Along (Session.turn F) Behaved (init maxBytes available reason) moves) :
    ∃ w, runM (Session.turn F) (init maxBytes available reason) moves = .ok w ∧
      Sound F (Asked moves) w :=
  runM_induction_along (Session.turn F) (P := fun w m => Behaved w m ∧ Asks (Asked moves) m)
    (fun w m hw hm => by
      obtain ⟨v, -, heq, -, hv, -⟩ := hw.turn hm.1 hm.2
      exact ⟨_, heq, hv⟩)
    moves _ (sound_init maxBytes available reason)
    (h.imp _ fun w m hm hb => ⟨hb, asks_of_mem hm⟩)

/-- **A further invariant** of the runs whose steps meet a further condition. -/
theorem runM_keeps {I : Session → Prop} {P : Session → Move → Prop} {maxBytes : UInt64}
    {available : Bool} {reason : String} {moves : List Move}
    (hkeep : ∀ w m v, Sound F (Asked moves) w → Loose F (Asked moves) v → Frame m.1 w v →
      Effect w m v → P w m → I w → I v.settle)
    (h : Along (Session.turn F) Behaved (init maxBytes available reason) moves)
    (hP : Along (Session.turn F) P (init maxBytes available reason) moves)
    (hinit : I (init maxBytes available reason)) :
    ∃ w, runM (Session.turn F) (init maxBytes available reason) moves = .ok w ∧ I w := by
  obtain ⟨w, hw, -, hI⟩ := runM_induction_along (Session.turn F)
    (I := fun w => Sound F (Asked moves) w ∧ I w)
    (P := fun w m => (Behaved w m ∧ Asks (Asked moves) m) ∧ P w m)
    (fun w m hI hm => by
      obtain ⟨v, hadvance, hturn, hv, hsettled, heffect⟩ := hI.1.turn hm.1.1 hm.1.2
      exact ⟨_, hturn, hsettled, hkeep w m v hI.1 hv (frame_advance hadvance) heffect hm.2 hI.2⟩)
    moves _ ⟨sound_init maxBytes available reason, hinit⟩
    (Along.and _ (h.imp _ fun w m hm hb => ⟨hb, asks_of_mem hm⟩) hP)
  exact ⟨w, hw, hI⟩

/-- What an owner holds exists, and what exists is held by an owner. -/
lemma Sound.alive_iff (h : Sound F S w) (p : LoadedProgram) :
    Alive w.log p ↔ ∃ e ∈ w.owners, e.entry.backendHandle = some p := by
  rw [h.tracks.alive_iff, List.mem_filterMap]
  constructor
  · rintro ⟨o, ho, hp⟩
    exact ⟨o, h.owned_mem o ho, by rw [← hp, (h.made o ho).released_eq]⟩
  · rintro ⟨e, he, hp⟩
    have hobj := h.owners_mem e he
    exact ⟨e, hobj, by rw [(h.made e hobj).released_eq, hp]⟩

end Session

end Libane
