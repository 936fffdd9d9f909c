import Libane.Api.Session

/-!
# What a step leaves alone

Threads meet in the cache, in the table of handles and in the programs.  Everything else of a call
is its own: no step changes where another thread stands, or the text of its last error.

**Locality.**  `Frame` says this of one step.  It also says what the step reports: either the call
goes on, and its thread has the text it had, or it returns.  A failure leaves a text, which is never
empty; a success leaves the text of the last failure.  `frame_advance` proves it for all steps.

**Errors.**  `errors_stay_with_threads` is what follows for a whole run: what a thread reads as its
last error is decided by its own calls.
-/

namespace Libane

open CompileCache GraphValidator Runs

/-- The caller is told that the call has failed. -/
def Answer.Failed : Answer → Prop
  | Handle none => True
  | Status s => s ≠ .Ok
  | _ => False

namespace Session

/-- A step of thread `t`. -/
structure Frame (t : ℕ) (w w' : Session) : Prop where
  running : ∀ s ≠ t, w'.running.lookup s = w.running.lookup s
  lastError : ∀ s ≠ t, w'.lastError s = w.lastError s
  reports : w'.answers = w.answers ∧ w'.lastError t = w.lastError t ∨
    ∃ a, w'.answers = (t, a) :: w.answers ∧
      (w'.lastError t = w.lastError t ∧ ¬ a.Failed ∨
        w'.lastError t ≠ [] ∧ (a.Failed ∨ a = .Done))

variable {F : Type} [MilFloat F] {w w' : Session} {t : ℕ}

/-! ## Texts -/

lemma append_ne_empty {a b : String} (h : a ≠ "") : a ++ b ≠ "" := fun heq =>
  h (String.append_eq_empty_iff.mp heq).1

lemma errorBytes_ne_nil {text : String} (h : text ≠ "") : errorBytes text ≠ [] := by
  intro hnil
  refine h (String.utf8ByteSize_eq_zero_iff.mp ?_)
  have hdata : text.toUTF8.data.toList = [] := by simpa [errorBytes] using hnil
  exact congrArg List.length hdata

/-- Every error of the `switch` has a text. -/
lemma text_ne_of_buildProgram_error {C S : ℤ} {op : LibaneOp} {text : String}
    (h : buildProgram F C S op = .error text) : text ≠ "" := by
  have hcaught : ∀ {p : Outcome (SingleProgram F)}, caught F p = .error text → text ≠ "" := by
    intro p hp
    cases p with
    | ok p => cases hp
    | error e =>
        rw [← Except.error.inj hp]
        exact append_ne_empty (by simp)
  cases op <;> first | exact hcaught h | (rw [← Except.error.inj h]; simp)

/-! ## The parts of a step -/

lemma frame_goOn (ph : Phase) : Frame t w (w.goOn t ph) where
  running := fun _ hs => AList.lookup_insert_ne hs
  lastError := fun _ _ => rfl
  reports := Or.inl ⟨rfl, rfl⟩

lemma frame_finish {a : Answer} (ha : ¬ a.Failed) : Frame t w (w.finish t a) where
  running := fun _ hs => AList.lookup_erase_ne hs
  lastError := fun _ _ => rfl
  reports := Or.inr ⟨a, rfl, Or.inl ⟨rfl, ha⟩⟩

lemma frame_fail {text : String} (htext : text ≠ "") {a : Answer} (ha : a.Failed ∨ a = .Done) :
    Frame t w (w.fail t text a) where
  running := fun _ hs => AList.lookup_erase_ne hs
  lastError := fun _ hs => Function.update_of_ne hs _ _
  reports := by
    refine Or.inr ⟨a, rfl, Or.inr ⟨?_, ha⟩⟩
    show Function.update w.lastError t (errorBytes text) t ≠ []
    rw [Function.update_self]
    exact errorBytes_ne_nil htext

lemma frame_lookUp (r : ProgramRequest) : Frame t w (w.lookUp t r) := by
  rw [lookUp]
  cases w.cache.getLookup r.key with
  | mk hit cache =>
      exact { frame_goOn (t := t) (w := w) (if hit then .Promote r else .Missed r) with }

lemma frame_obtained (r : ProgramRequest) (e : EntryPtr) : Frame t w (w.obtained t r e) := by
  cases r with
  | Compile op shape weights =>
      exact { frame_finish (t := t) (w := w) (a := .Handle (some w.nextHandle)) id with }
  | Matmul m =>
      rw [obtained]
      split
      · exact frame_goOn _
      · exact frame_finish id

lemma frame_translate (r : ProgramRequest) : Frame t w (w.translate F t r) := by
  cases r with
  | Compile op shape weights =>
      rw [translate]
      cases (toMilShape shape).validate with
      | error e => exact frame_fail (append_ne_empty (by simp)) (Or.inl trivial)
      | ok _ =>
          show Frame t w (if w.useAne = true then _ else _)
          split
          · cases hb : ProgramRequest.build F (.Compile op shape weights) with
            | error text =>
                refine frame_fail ?_ (Or.inl trivial)
                rw [ProgramRequest.build] at hb
                cases hp : buildProgram F (toMilShape shape).channels (toMilShape shape).seq op with
                | error text' =>
                    rw [hp] at hb
                    rw [← Except.error.inj hb]
                    exact text_ne_of_buildProgram_error hp
                | ok p =>
                    rw [hp] at hb
                    cases hb
            | ok b => exact frame_goOn _
          · exact frame_fail (append_ne_empty (by simp)) (Or.inl trivial)
  | Matmul m =>
      rw [translate]
      cases ProgramRequest.build F (.Matmul m) with
      | error text => exact frame_finish id
      | ok b => exact frame_goOn _

lemma frame_allocate (r : ProgramRequest) (b : Build) (loads : Bool) :
    Frame t w (w.allocate t r b loads) :=
  { frame_goOn (t := t) (w := w) (.Store r ⟨w.nextObject, r.entry b
      (if loads then some ⟨w.nextProgram, r.program b⟩ else none)⟩) with }

lemma frame_compileBuilt (r : ProgramRequest) (b : Build) (verdict : Option String) :
    Frame t w (w.compileBuilt t r b verdict) := by
  cases r with
  | Compile op shape weights =>
      show Frame t w (if b.text = "" then _ else _)
      split
      · exact frame_allocate _ _ _
      · cases verdict with
        | none => exact frame_allocate _ _ _
        | some text => exact frame_fail (append_ne_empty (by simp)) (Or.inl trivial)
  | Matmul m => exact frame_allocate _ _ _

lemma frame_execute {failure : String} (hfailure : failure ≠ "") (verdict : Option String)
    (p : LoadedProgram) : Frame t w (w.execute t failure verdict p) := by
  cases verdict with
  | none => exact { frame_finish (t := t) (w := w) (a := .Status .Ok) (fun h => h rfl) with }
  | some text =>
      exact { frame_fail (t := t) (w := w) (append_ne_empty (b := text) hfailure)
        (a := .Status .ErrExecuteFailed) (Or.inl (by simp [Answer.Failed])) with }

lemma frame_unload (h : ℕ) (p : LoadedProgram) : Frame t w (w.unload t h p) :=
  { frame_goOn (t := t) (w := w) (.Reload h p) with }

lemma frame_onHandle {null unavailable : String} (hnull : null ≠ "")
    (hunavailable : unavailable ≠ "") {rest : ℕ → LoadedProgram → Session}
    (hrest : ∀ h p, Frame t w (rest h p)) {h : Option ℕ}
    (hw' : w.onHandle t null unavailable rest h = .ok w') : Frame t w w' := by
  cases h with
  | none =>
      rw [← Except.ok.inj hw']
      exact frame_fail hnull (Or.inl (by simp [Answer.Failed]))
  | some h =>
      rw [onHandle] at hw'
      cases hh : w.handles.lookup h with
      | none =>
          rw [hh] at hw'
          cases hw'
      | some e =>
          rw [hh] at hw'
          simp only at hw'
          split at hw'
          · rw [← Except.ok.inj hw']
            exact hrest _ _
          · rw [← Except.ok.inj hw']
            exact frame_fail hunavailable (Or.inl (by simp [Answer.Failed]))

/-! ## Steps -/

lemma frame_start {call : ApiCall} {verdict : Option String}
    (hw' : w.start t verdict call = .ok w') : Frame t w w' := by
  cases call with
  | Request r =>
      cases r with
      | Compile op shape weights =>
          rw [← Except.ok.inj hw']
          exact frame_lookUp _
      | Matmul r =>
          rw [start] at hw'
          split_ifs at hw'
          · rw [← Except.ok.inj hw']
            exact frame_fail (by simp) (Or.inl (by simp [Answer.Failed]))
          · rw [← Except.ok.inj hw']
            exact frame_goOn _
          · rw [← Except.ok.inj hw']
            exact frame_finish id
  | Execute h =>
      exact frame_onHandle (by simp) (by simp) (fun _ p => frame_execute (by simp) _ p) hw'
  | Execute2 h =>
      exact frame_onHandle (by simp) (by simp) (fun _ p => frame_execute (by simp) _ p) hw'
  | DeltaReload h => exact frame_onHandle (by simp) (by simp) (fun h p => frame_unload h p) hw'
  | Release h =>
      cases h with
      | none =>
          rw [← Except.ok.inj hw']
          exact frame_finish id
      | some h =>
          rw [start] at hw'
          cases hh : w.handles.lookup h with
          | none =>
              rw [hh] at hw'
              cases hw'
          | some e =>
              rw [hh] at hw'
              rw [← Except.ok.inj hw']
              exact { frame_finish (t := t) (w := w) (a := .Done) id with }
  | CacheFlush =>
      rw [← Except.ok.inj hw']
      exact { frame_finish (t := t) (w := w) (a := .Done) id with }
  | SetBackend backend =>
      cases backend with
      | none =>
          rw [← Except.ok.inj hw']
          exact { frame_finish (t := t) (w := w) (a := .Done) id with }
      | some name =>
          rw [start] at hw'
          simp only at hw'
          split_ifs at hw'
          · rw [← Except.ok.inj hw']
            exact { frame_finish (t := t) (w := w) (a := .Done) id with }
          · rw [← Except.ok.inj hw']
            exact { frame_finish (t := t) (w := w) (a := .Done) id with }
          · rw [← Except.ok.inj hw']
            exact frame_fail (by simp) (Or.inr rfl)

lemma frame_proceed {verdict : Option String} {ph : Phase}
    (hw' : w.proceed F t verdict ph = .ok w') : Frame t w w' := by
  cases ph with
  | Keyed r =>
      rw [← Except.ok.inj hw']
      exact frame_lookUp _
  | Promote r =>
      obtain ⟨⟨e, cache⟩, -, hw'⟩ := bind_eq_ok.mp hw'
      cases e with
      | none =>
          rw [← pure_eq_ok_iff.mp hw']
          exact { frame_goOn (t := t) (w := w) (.Missed r) with }
      | some e =>
          rw [← pure_eq_ok_iff.mp hw']
          exact { frame_obtained (t := t) (w := { w with cache }) r e with }
  | Missed r =>
      rw [← Except.ok.inj hw']
      exact frame_translate _
  | Built r b =>
      rw [← Except.ok.inj hw']
      exact frame_compileBuilt _ _ _
  | Store r e =>
      obtain ⟨⟨_, cache⟩, -, hw'⟩ := bind_eq_ok.mp hw'
      rw [← pure_eq_ok_iff.mp hw']
      exact { frame_obtained (t := t) (w := { w with cache }) r e with }
  | Run p e =>
      rw [← Except.ok.inj hw']
      exact { frame_finish (t := t) (w := w) (a := .Matmul verdict.isNone) id with }
  | Reload h p =>
      cases verdict with
      | none =>
          rw [← Except.ok.inj hw']
          exact { frame_finish (t := t) (w := w) (a := .Status .Ok) (fun h => h rfl) with }
      | some text =>
          rw [← Except.ok.inj hw']
          exact frame_fail (append_ne_empty (by simp)) (Or.inl (by simp [Answer.Failed]))

/-- **A step of a thread** is its own. -/
theorem frame_advance {m : Move} (hw' : w.advance F m = .ok w') : Frame m.1 w w' := by
  rw [advance] at hw'
  cases hph : w.running.lookup m.1 with
  | some ph =>
      rw [hph] at hw'
      exact frame_proceed hw'
  | none =>
      rw [hph] at hw'
      exact frame_start hw'

/-! ## Errors -/

/-- **Errors stay with their threads.**  Let the process go from one state to another, in any
interleaving.  A thread one of whose calls has failed in the meantime has an error text, and a
thread none of whose calls has failed has the text that it had, whatever the others have done; the
functions without a result are left out of this, since `libane_set_backend` sets a text for a name
it does not know. -/
theorem errors_stay_with_threads {w₀ : Session} {moves : List Move}
    (hrun : runM (Session.turn F) w₀ moves = .ok w) :
    ∃ returned, w.answers = returned ++ w₀.answers ∧ ∀ t,
      ((∃ a, (t, a) ∈ returned ∧ a.Failed) → w.lastError t ≠ []) ∧
      ((∀ a, (t, a) ∈ returned → ¬ a.Failed ∧ a ≠ .Done) → w.lastError t = w₀.lastError t) := by
  refine runM_invariant (Session.turn F) (P := fun _ => True) (I := fun w =>
    ∃ returned, w.answers = returned ++ w₀.answers ∧ ∀ t,
      ((∃ a, (t, a) ∈ returned ∧ a.Failed) → w.lastError t ≠ []) ∧
      ((∀ a, (t, a) ∈ returned → ¬ a.Failed ∧ a ≠ .Done) → w.lastError t = w₀.lastError t))
    (fun w m w' hw _ hw' => ?_) moves w₀ w ⟨[], rfl, fun t => ⟨by simp, fun _ => rfl⟩⟩
    (fun _ _ => trivial) hrun
  obtain ⟨returned, hanswers, hall⟩ := hw
  obtain ⟨v, hv, hw'⟩ := bind_eq_ok.mp hw'
  have hframe := frame_advance hv
  rw [← pure_eq_ok_iff.mp hw']
  show ∃ returned, v.answers = returned ++ w₀.answers ∧ ∀ t,
    ((∃ a, (t, a) ∈ returned ∧ a.Failed) → v.lastError t ≠ []) ∧
    ((∀ a, (t, a) ∈ returned → ¬ a.Failed ∧ a ≠ .Done) → v.lastError t = w₀.lastError t)
  rcases hframe.reports with ⟨hsame, herror⟩ | ⟨a, hmore, herror⟩
  · refine ⟨returned, hsame.trans hanswers, fun t => ?_⟩
    have heq : v.lastError t = w.lastError t := by
      by_cases ht : t = m.1
      · exact ht ▸ herror
      · exact hframe.lastError t ht
    rw [heq]
    exact hall t
  · refine ⟨(m.1, a) :: returned, by rw [hmore, hanswers, List.cons_append], fun t => ?_⟩
    by_cases ht : t = m.1
    · subst ht
      rcases herror with ⟨hsame, hnot⟩ | ⟨hne, hfailed⟩
      · rw [hsame]
        refine ⟨fun ⟨b, hb, hbfailed⟩ => (hall m.1).1 ⟨b, ?_, hbfailed⟩,
          fun hnone => (hall m.1).2 fun b hb => hnone b (List.mem_cons_of_mem _ hb)⟩
        refine (List.mem_cons.mp hb).resolve_left fun heq => hnot ?_
        rwa [← (Prod.mk.inj heq).2]
      · refine ⟨fun _ => hne, fun hnone => ?_⟩
        obtain ⟨hnot, hdone⟩ := hnone a List.mem_cons_self
        exact (hfailed.elim hnot hdone).elim
    · have hmem : ∀ b, (t, b) ∈ (m.1, a) :: returned ↔ (t, b) ∈ returned := by simp [ht]
      rw [hframe.lastError t ht]
      simp only [hmem]
      exact hall t

/-- One thread executes a null handle, while another one multiplies two numbers on the CPU. -/
def executeNull : List Move :=
  [(0, .Execute none, none), (1, .Request (.Matmul ⟨1, 1, 1, [0x3c00], rfl⟩), none),
    (0, .CacheFlush, none)]

theorem errors_stay_with_threads_null : ∃ w,
    runM (Session.turn Unit) (init 1000000 true "") executeNull = .ok w ∧
      w.lastError 0 ≠ [] ∧ w.lastError 1 = [] := by
  obtain ⟨w, hw, hanswers⟩ : ∃ w, runM (Session.turn Unit) (init 1000000 true "") executeNull =
      .ok w ∧ w.answers = [(0, .Done), (1, .Matmul false), (0, .Status .ErrInvalidArg)] :=
    ⟨_, rfl, rfl⟩
  obtain ⟨returned, hreturned, hall⟩ := errors_stay_with_threads hw
  obtain rfl : returned = [(0, .Done), (1, .Matmul false), (0, .Status .ErrInvalidArg)] := by
    rw [hanswers] at hreturned
    simpa [init] using hreturned.symm
  exact ⟨w, hw, (hall 0).1 ⟨.Status .ErrInvalidArg, by simp, by simp [Answer.Failed]⟩,
    (hall 1).2 fun a ha => by
      obtain rfl : a = .Matmul false := by simpa using ha
      exact ⟨id, by simp⟩⟩

end Session

end Libane
