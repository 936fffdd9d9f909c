import Libane.Api.Requests
import Libane.Foundation.Lifetimes
import Libane.Foundation.Runs
import Libane.Foundation.Tables

/-!
# The life of the process

`libane_compile`, `libane_matmul_f16`, `libane_execute`, `libane_execute2`,
`libane_delta_reload`, `libane_release`, `libane_cache_flush` and `libane_set_backend`, called from
any number of threads.

**Who owns a program.**  A cache entry is a shared object; its owners are the list and the map of
the cache, the handles, and the local variables of the calls in progress (`owners`).  Its
destructor frees its program, and runs as soon as the last owner is gone.  So a step is an
`advance`, which only moves owners around, followed by `settle`, which destroys what has none left,
and `turn` is the two together.

**What is one step.**  A call is a sequence of steps: each takes one critical section of the
cache, reads the backend override once, or makes one call of the framework, which may refuse.
Between two steps of one thread the others may do anything; a `Phase` has the local variables that
the call takes with it.  `libane_delta_reload` makes two calls of the framework, so others can find
the program unloaded between them, and a reload that the framework refuses leaves it so.

**What is recorded.**  `log` has what happens to each program, and `lastError` the error text of
each thread; no step reads them.  A move says whose turn it is, which call this thread begins if it
is not in one, and what the framework answers.
-/

namespace Libane

open CompileCache GraphValidator Lifetimes

/-- A `shared_ptr<CacheEntry>` of the program cache. -/
abbrev EntryPtr := SharedEntry CacheKey LoadedProgram

/-- `g_force_backend`. -/
inductive ForceBackend where
  | Auto
  | Ane
  | Cpu
  deriving DecidableEq, Repr

/-- Where a call in progress stands. -/
inductive Phase where
  /-- about to look up its key -/
  | Keyed (r : ProgramRequest)
  /-- between the two critical sections of `get` -/
  | Promote (r : ProgramRequest)
  /-- without an entry -/
  | Missed (r : ProgramRequest)
  /-- about to call `ane_compile` -/
  | Built (r : ProgramRequest) (b : Build)
  /-- about to put a new entry into the cache -/
  | Store (r : ProgramRequest) (e : EntryPtr)
  /-- in `libane_matmul_f16`, about to execute a program -/
  | Run (p : LoadedProgram) (e : EntryPtr)
  /-- in `libane_delta_reload`, about to load the program of its handle again -/
  | Reload (h : ℕ) (p : LoadedProgram)

/-- The entry that the local variables of a call own.  `libane_delta_reload` has a reference, which
owns nothing. -/
def Phase.held : Phase → Option EntryPtr
  | Store _ e => some e
  | Run _ e => some e
  | _ => none

/-- The calls.  A null handle, or a handle with another argument that is null, is `none`. -/
inductive ApiCall where
  | Request (r : ProgramRequest)
  | Execute (h : Option ℕ)
  | Execute2 (h : Option ℕ)
  | DeltaReload (h : Option ℕ)
  | Release (h : Option ℕ)
  | CacheFlush
  | SetBackend (backend : Option String)

/-- `libane_status_t`, as far as it is used here. -/
inductive Status where
  | Ok
  | ErrUnavailable
  | ErrExecuteFailed
  | ErrInvalidArg
  deriving DecidableEq, Repr

/-- What a call returns.  `libane_matmul_f16` returns the same on both of its paths; `Done` is the
return of a function without a result. -/
inductive Answer where
  | Handle (h : Option ℕ)
  | Status (s : Status)
  | Matmul (onAne : Bool)
  | Done
  deriving DecidableEq, Repr

/-- The state of the process.  `objects` are the entries that have not been destroyed, and `log`
says what has happened to the programs, the latest first. -/
structure Session where
  cache : CompileCache CacheKey LoadedProgram
  available : Bool
  fallbackReason : String
  forced : ForceBackend := .Auto
  running : Table Phase := ∅
  handles : Table EntryPtr := ∅
  objects : List EntryPtr := []
  log : List (Event LoadedProgram) := []
  lastError : ℕ → List UInt8 := fun _ => []
  answers : List (ℕ × Answer) := []
  nextObject : ℕ := 0
  nextProgram : ℕ := 0
  nextHandle : ℕ := 0

/-- What the destructor of an entry frees. -/
def released (e : EntryPtr) : Option LoadedProgram :=
  if e.entry.releaseFn then e.entry.backendHandle else none

namespace Session

/-! ## Owners -/

/-- The owners of entries. -/
def owners (w : Session) : List EntryPtr :=
  w.cache.lru.map (·.shared) ++ w.cache.map.entries.map (·.2.entry) ++ w.handles.values ++
    w.running.values.filterMap Phase.held

/-- The entry has an owner. -/
def owned (w : Session) (e : EntryPtr) : Bool := (w.owners.map (·.id)).contains e.id

/-- The entries that have lost their last owner are destroyed. -/
def settle (w : Session) : Session :=
  { w with objects := (Lifetimes.collect w.owned released w.objects w.log).1
           log := (Lifetimes.collect w.owned released w.objects w.log).2 }

/-! ## Steps -/

/-- `use_ane`. -/
def useAne (w : Session) : Bool :=
  match w.forced with
  | .Cpu => false
  | _ => w.available

/-- The call goes on. -/
def goOn (w : Session) (t : ℕ) (ph : Phase) : Session := { w with running := w.running.insert t ph }

/-- The call returns. -/
def finish (w : Session) (t : ℕ) (a : Answer) : Session :=
  { w with running := w.running.erase t, answers := (t, a) :: w.answers }

/-- What `set_error` leaves in the 512 bytes of `tl_last_error`. -/
def errorBytes (text : String) : List UInt8 := text.toUTF8.data.toList.take 511

/-- The call sets the error of its thread and returns. -/
def fail (w : Session) (t : ℕ) (text : String) (a : Answer) : Session :=
  { w.finish t a with lastError := Function.update w.lastError t (errorBytes text) }

/-- A new handle for an entry. -/
def handOut (w : Session) (t : ℕ) (e : EntryPtr) : Session :=
  { w.finish t (.Handle (some w.nextHandle)) with
    handles := w.handles.insert w.nextHandle e
    nextHandle := w.nextHandle + 1 }

/-- Something happens to a program. -/
def record (w : Session) (event : Event LoadedProgram) : Session :=
  { w with log := event :: w.log }

/-- The first critical section of `get`. -/
def lookUp (w : Session) (t : ℕ) (r : ProgramRequest) : Session :=
  let (hit, cache) := w.cache.getLookup r.key
  goOn { w with cache } t (if hit then .Promote r else .Missed r)

/-- `get` or `put` has returned an entry. -/
def obtained (w : Session) (t : ℕ) (r : ProgramRequest) (e : EntryPtr) : Session :=
  match r with
  | .Compile _ _ _ => w.handOut t e
  | .Matmul _ =>
      match e.entry.isAne, e.entry.backendHandle with
      | true, some p => w.goOn t (.Run p e)
      | _, _ => w.finish t (.Matmul false)

/-- The request is translated into a program.  `libane_compile` checks the shape and the backend
first, and reports what goes wrong. -/
def translate (F : Type) [MilFloat F] (w : Session) (t : ℕ) (r : ProgramRequest) : Session :=
  match r with
  | .Compile _ shape _ =>
      match (toMilShape shape).validate with
      | .error e => w.fail t ("Invalid shape: " ++ what e) (.Handle none)
      | .ok () =>
          if w.useAne then
            match r.build F with
            | .error text => w.fail t text (.Handle none)
            | .ok b => w.goOn t (.Built r b)
          else w.fail t ("ANE unavailable: " ++ w.fallbackReason) (.Handle none)
  | .Matmul _ =>
      match r.build F with
      | .error _ => w.finish t (.Matmul false)
      | .ok b => w.goOn t (.Built r b)

/-- A new entry, with a program that the framework has loaded or without one. -/
def allocate (w : Session) (t : ℕ) (r : ProgramRequest) (b : Build) (loads : Bool) : Session :=
  let p : LoadedProgram := ⟨w.nextProgram, r.program b⟩
  let e : EntryPtr := ⟨w.nextObject, r.entry b (if loads then some p else none)⟩
  goOn { w with
    objects := e :: w.objects
    log := if loads then .Make p :: w.log else w.log
    nextObject := w.nextObject + 1
    nextProgram := w.nextProgram + 1 } t (.Store r e)

/-- `ane_compile` and what follows.  `verdict` is the error of the framework, if it refuses. -/
def compileBuilt (w : Session) (t : ℕ) (r : ProgramRequest) (b : Build) (verdict : Option String) :
    Session :=
  match r with
  | .Compile _ _ _ =>
      if b.text = "" then w.allocate t r b false
      else
        match verdict with
        | some text => w.fail t ("ANE compile failed: " ++ text) (.Handle none)
        | none => w.allocate t r b true
  | .Matmul _ => w.allocate t r b verdict.isNone

/-- The next step of a call in progress. -/
def proceed (F : Type) [MilFloat F] (w : Session) (t : ℕ) (verdict : Option String) :
    Phase → Outcome Session
  | .Keyed r => .ok (w.lookUp t r)
  | .Promote r => do
      let (e, cache) ← w.cache.getPromote r.key
      match e with
      | none => return goOn { w with cache } t (.Missed r)
      | some e => return obtained { w with cache } t r e
  | .Missed r => .ok (w.translate F t r)
  | .Built r b => .ok (w.compileBuilt t r b verdict)
  | .Store r e => do
      let (_, cache) ← w.cache.put (some e)
      return obtained { w with cache } t r e
  | .Run p _ => .ok ((w.record (.Use p)).finish t (.Matmul verdict.isNone))
  | .Reload _ p =>
      match verdict with
      | none => .ok ((w.record (.Load p)).finish t (.Status .Ok))
      | some text =>
          .ok (w.fail t ("libane_delta_reload failed: " ++ text) (.Status .ErrExecuteFailed))

/-- A call on a handle, which goes on with its program.  Using a handle that has been released is
undefined behaviour. -/
def onHandle (w : Session) (t : ℕ) (null unavailable : String)
    (rest : ℕ → LoadedProgram → Session) : Option ℕ → Outcome Session
  | none => .ok (w.fail t null (.Status .ErrInvalidArg))
  | some h =>
      match w.handles.lookup h with
      | none => .error (.UndefinedBehaviour "use of a released handle")
      | some e =>
          match e.entry.isAne, e.entry.backendHandle with
          | true, some p => .ok (rest h p)
          | _, _ => .ok (w.fail t unavailable (.Status .ErrUnavailable))

/-- The program is executed, and the call returns. -/
def execute (w : Session) (t : ℕ) (failure : String) (verdict : Option String)
    (p : LoadedProgram) : Session :=
  match verdict with
  | none => (w.record (.Use p)).finish t (.Status .Ok)
  | some text => (w.record (.Use p)).fail t (failure ++ text) (.Status .ErrExecuteFailed)

/-- The first half of a reload.  Errors of the framework are ignored here. -/
def unload (w : Session) (t h : ℕ) (p : LoadedProgram) : Session :=
  (w.record (.Unload p)).goOn t (.Reload h p)

/-- The first step of a call. -/
def start (w : Session) (t : ℕ) (verdict : Option String) : ApiCall → Outcome Session
  | .Request (.Compile op shape weights) => .ok (w.lookUp t (.Compile op shape weights))
  | .Request (.Matmul r) =>
      if r.M ≤ 0 ∨ r.K ≤ 0 ∨ r.N ≤ 0 then
        .ok (w.fail t "libane_matmul_f16: invalid arguments" (.Status .ErrInvalidArg))
      else if w.useAne = true ∧ r.ShapesOk then .ok (w.goOn t (.Keyed (.Matmul r)))
      else .ok (w.finish t (.Matmul false))
  | .Execute h => w.onHandle t "libane_execute: null argument"
      "libane_execute: no ANE program available"
      (fun _ p => w.execute t "ANE execute failed: " verdict p) h
  | .Execute2 h => w.onHandle t "libane_execute2: null argument"
      "libane_execute2: no ANE program available"
      (fun _ p => w.execute t "ANE execute2 failed: " verdict p) h
  | .DeltaReload h => w.onHandle t "libane_delta_reload: null handle"
      "libane_delta_reload: handle is not ANE-compiled" (fun h p => w.unload t h p) h
  | .Release none => .ok (w.finish t .Done)
  | .Release (some h) =>
      match w.handles.lookup h with
      | none => .error (.UndefinedBehaviour "use of a released handle")
      | some _ => .ok { w.finish t .Done with handles := w.handles.erase h }
  | .CacheFlush => .ok { w.finish t .Done with cache := w.cache.flush }
  | .SetBackend backend =>
      match backend with
      | none => .ok { w.finish t .Done with forced := .Auto }
      | some name =>
          if name = "ane" then .ok { w.finish t .Done with forced := .Ane }
          else if name = "cpu" then .ok { w.finish t .Done with forced := .Cpu }
          else .ok (w.fail t ("Unknown backend '" ++ name ++ "', use 'ane', 'cpu', or NULL") .Done)

/-- A thread, the call it makes when it is not in one, and the verdict of the framework on the
program that the step hands to it. -/
abbrev Move := ℕ × ApiCall × Option String

/-- The next step of a thread. -/
def advance (F : Type) [MilFloat F] (w : Session) (m : Move) : Outcome Session :=
  match w.running.lookup m.1 with
  | some ph => w.proceed F m.1 m.2.2 ph
  | none => w.start m.1 m.2.2 m.2.1

/-- A step, and what it destroys. -/
def turn (F : Type) [MilFloat F] (w : Session) (m : Move) : Outcome Session := do
  let w' ← w.advance F m
  return w'.settle

/-- The beginning. -/
def init (maxBytes : UInt64) (available : Bool) (fallbackReason : String) : Session :=
  { cache := { maxBytes }, available, fallbackReason }

end Session

end Libane
