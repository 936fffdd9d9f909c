import Mathlib

/-!
# Lifetimes of resources

A resource is made, and is loaded then.  As long as it exists it can be unloaded, loaded again and
used, and in the end it is freed.  A log has these events, the latest first.

**Existence.**  A log is `Legal` when a resource is made once, and nothing happens to it before it
is made or after it has been freed.  `Tracks` is the bookkeeping for it: it names the resources that
exist at the end.  Objects hold resources, and an object that no one owns any more is destroyed,
which frees what it holds: `collect`, and `Tracks.collect`.

**Being loaded.**  A legal log may use a resource that has been unloaded and not been loaded again.
Whether it is loaded is decided by the latest event that made, loaded, unloaded or freed it
(`Loaded`); an existing resource that is not loaded is `Suspended`.  `UsedLoaded` logs use
resources only while they are loaded.  Freeing other resources changes none of this.
-/

namespace Lifetimes

/-- What happens to a resource. -/
inductive Event (R : Type*) where
  | Make (r : R)
  | Use (r : R)
  | Unload (r : R)
  | Load (r : R)
  | Free (r : R)
  deriving DecidableEq

variable {R : Type*}

/-! ## Existence -/

/-- Made, and not freed since. -/
def Alive (log : List (Event R)) (r : R) : Prop := .Make r ∈ log ∧ .Free r ∉ log

/-- **Legal logs**, the latest event first. -/
def Legal : List (Event R) → Prop
  | [] => True
  | .Make r :: past => .Make r ∉ past ∧ .Free r ∉ past ∧ Legal past
  | .Use r :: past | .Unload r :: past | .Load r :: past | .Free r :: past =>
      Alive past r ∧ Legal past

lemma Legal.tail {e : Event R} {past : List (Event R)} (h : Legal (e :: past)) : Legal past := by
  cases e with
  | Make r => exact h.2.2
  | Use r => exact h.2
  | Unload r => exact h.2
  | Load r => exact h.2
  | Free r => exact h.2

/-- **Nothing is freed twice.** -/
theorem Legal.freed_once [DecidableEq R] : ∀ {log : List (Event R)}, Legal log → ∀ r,
    log.count (.Free r) ≤ 1
  | [], _, r => by simp
  | e :: past, h, r => by
      have ih := h.tail.freed_once r
      rw [List.count_cons]
      split
      · next heq =>
          obtain rfl : e = .Free r := by simpa using heq
          rw [List.count_eq_zero_of_not_mem h.1.2]
      · simpa using ih

/-- **Bookkeeping.**  These resources are the ones that exist at the end of the log. -/
structure Tracks (log : List (Event R)) (held : List R) : Prop where
  legal : Legal log
  nodup : held.Nodup
  alive_iff : ∀ r, Alive log r ↔ r ∈ held

namespace Tracks

variable {log : List (Event R)} {held held' : List R} {r : R}

lemma nil : Tracks ([] : List (Event R)) [] :=
  ⟨trivial, List.nodup_nil, fun r => by simp [Alive]⟩

lemma perm (h : Tracks log held) (hperm : held.Perm held') : Tracks log held' :=
  ⟨h.legal, hperm.nodup_iff.mp h.nodup, fun r => (h.alive_iff r).trans hperm.mem_iff⟩

/-- A resource that is new to the log. -/
lemma make (h : Tracks log held) (hmake : .Make r ∉ log) (hfree : .Free r ∉ log) :
    Tracks (.Make r :: log) (r :: held) where
  legal := ⟨hmake, hfree, h.legal⟩
  nodup := List.nodup_cons.mpr ⟨fun hr => hmake ((h.alive_iff r).mpr hr).1, h.nodup⟩
  alive_iff := fun s => by
    have hs := h.alive_iff s
    by_cases heq : s = r
    · subst heq
      simp [Alive, hfree]
    · simp [Alive, heq] at hs ⊢
      exact hs

lemma use (h : Tracks log held) (hr : r ∈ held) : Tracks (.Use r :: log) held where
  legal := ⟨(h.alive_iff r).mpr hr, h.legal⟩
  nodup := h.nodup
  alive_iff := fun s => by simpa [Alive] using h.alive_iff s

lemma unload (h : Tracks log held) (hr : r ∈ held) : Tracks (.Unload r :: log) held where
  legal := ⟨(h.alive_iff r).mpr hr, h.legal⟩
  nodup := h.nodup
  alive_iff := fun s => by simpa [Alive] using h.alive_iff s

lemma load (h : Tracks log held) (hr : r ∈ held) : Tracks (.Load r :: log) held where
  legal := ⟨(h.alive_iff r).mpr hr, h.legal⟩
  nodup := h.nodup
  alive_iff := fun s => by simpa [Alive] using h.alive_iff s

lemma free (h : Tracks log (r :: held)) : Tracks (.Free r :: log) held where
  legal := ⟨(h.alive_iff r).mpr List.mem_cons_self, h.legal⟩
  nodup := (List.nodup_cons.mp h.nodup).2
  alive_iff := fun s => by
    have hs := h.alive_iff s
    have hnot := (List.nodup_cons.mp h.nodup).1
    by_cases heq : s = r
    · subst heq
      simp [Alive, hnot]
    · simp [Alive, heq] at hs ⊢
      exact hs

/-- One resource after the other is freed. -/
lemma freeAll : ∀ {gone : List R} {log : List (Event R)}, Tracks log (gone ++ held) →
    Tracks (gone.reverse.map .Free ++ log) held
  | [], _, h => h
  | r :: gone, log, h => by
      have := freeAll (free (r := r) h)
      simpa using this

/-- What was made is freed if and only if it is held no more. -/
lemma count_free [DecidableEq R] (h : Tracks log held) (hmake : .Make r ∈ log) :
    log.count (.Free r) = if r ∈ held then 0 else 1 := by
  have halive := h.alive_iff r
  split
  · next hr => exact List.count_eq_zero_of_not_mem (halive.mpr hr).2
  · next hr =>
      have hfree : .Free r ∈ log := by
        by_contra hnot
        exact hr (halive.mp ⟨hmake, hnot⟩)
      exact le_antisymm (h.legal.freed_once r) (List.one_le_count_iff.mpr hfree)

end Tracks

/-! ## Being loaded -/

/-- The latest event that made, loaded, unloaded or freed the resource made or loaded it. -/
def Loaded : List (Event R) → R → Prop
  | [], _ => False
  | .Make s :: past, r | .Load s :: past, r => s = r ∨ Loaded past r
  | .Unload s :: past, r | .Free s :: past, r => s ≠ r ∧ Loaded past r
  | .Use _ :: past, r => Loaded past r

/-- The resource was unloaded, and neither made nor loaded since. -/
def Suspended (log : List (Event R)) (r : R) : Prop :=
  ∃ later past, log = later ++ .Unload r :: past ∧ .Make r ∉ later ∧ .Load r ∉ later

/-- Resources are used only while they are loaded. -/
def UsedLoaded : List (Event R) → Prop
  | [] => True
  | .Use r :: past => Loaded past r ∧ UsedLoaded past
  | _ :: past => UsedLoaded past

section Loading

variable {log : List (Event R)} {r : R}

lemma Suspended.cons (h : Suspended log r) {e : Event R} (hmake : e ≠ .Make r)
    (hload : e ≠ .Load r) : Suspended (e :: log) r := by
  obtain ⟨later, past, rfl, hnoMake, hnoLoad⟩ := h
  exact ⟨e :: later, past, rfl,
    fun hin => (List.mem_cons.mp hin).elim (fun heq => hmake heq.symm) hnoMake,
    fun hin => (List.mem_cons.mp hin).elim (fun heq => hload heq.symm) hnoLoad⟩

lemma Suspended.map_free {gone : List R} (h : Suspended log r) :
    Suspended (gone.map .Free ++ log) r := by
  induction gone with
  | nil => exact h
  | cons s gone ih => exact ih.cons (by simp) (by simp)

/-- **What exists** is loaded, or it was unloaded and is not loaded yet. -/
theorem Alive.loaded_or_suspended : ∀ {log : List (Event R)}, Alive log r →
    Loaded log r ∨ Suspended log r
  | [], h => absurd h.1 List.not_mem_nil
  | e :: past, h => by
      by_cases hmade : e = .Make r
      · exact Or.inl (hmade ▸ Or.inl rfl)
      have hpast : Alive past r :=
        ⟨(List.mem_cons.mp h.1).resolve_left (Ne.symm hmade), List.not_mem_of_not_mem_cons h.2⟩
      have ih := hpast.loaded_or_suspended
      cases e with
      | Make s => exact ih.imp Or.inr (·.cons hmade (by simp))
      | Use s => exact ih.imp id (·.cons (by simp) (by simp))
      | Load s =>
          by_cases hs : s = r
          · exact Or.inl (Or.inl hs)
          · exact ih.imp Or.inr (·.cons (by simp) (by simpa using hs))
      | Unload s =>
          by_cases hs : s = r
          · exact Or.inr ⟨[], past, by rw [hs]; rfl, List.not_mem_nil, List.not_mem_nil⟩
          · exact ih.imp (⟨hs, ·⟩) (·.cons (by simp) (by simp))
      | Free s =>
          have hs : s ≠ r := fun heq => h.2 (heq ▸ List.mem_cons_self)
          exact ih.imp (⟨hs, ·⟩) (·.cons (by simp) (by simp))

/-- What is suspended is not loaded. -/
lemma Suspended.not_loaded (h : Suspended log r) : ¬ Loaded log r := by
  obtain ⟨later, past, rfl, hmake, hload⟩ := h
  induction later with
  | nil => exact fun hloaded => hloaded.1 rfl
  | cons e later ih =>
      have hpast := ih (List.not_mem_of_not_mem_cons hmake) (List.not_mem_of_not_mem_cons hload)
      cases e with
      | Make s =>
          exact fun hloaded => hloaded.elim (fun heq => hmake (heq ▸ List.mem_cons_self)) hpast
      | Load s =>
          exact fun hloaded => hloaded.elim (fun heq => hload (heq ▸ List.mem_cons_self)) hpast
      | Use s => exact hpast
      | Unload s => exact fun hloaded => hpast hloaded.2
      | Free s => exact fun hloaded => hpast hloaded.2

lemma Alive.loaded (h : Alive log r) (hno : .Unload r ∉ log) : Loaded log r := by
  refine h.loaded_or_suspended.resolve_right ?_
  rintro ⟨later, past, rfl, -⟩
  exact hno (List.mem_append_right later List.mem_cons_self)

/-- Where nothing is unloaded, everything is loaded when it is used. -/
theorem Legal.usedLoaded : ∀ {log : List (Event R)}, Legal log → (∀ r, .Unload r ∉ log) →
    UsedLoaded log
  | [], _, _ => trivial
  | e :: past, h, hno => by
      have hpast : ∀ r, .Unload r ∉ past := fun r hin => hno r (List.mem_cons_of_mem e hin)
      have ih := h.tail.usedLoaded hpast
      cases e with
      | Use r => exact ⟨h.1.loaded (hpast r), ih⟩
      | Make r => exact ih
      | Unload r => exact ih
      | Load r => exact ih
      | Free r => exact ih

/-- Freeing other resources leaves a resource loaded. -/
lemma Loaded.map_free {gone : List R} (hgone : r ∉ gone) (h : Loaded log r) :
    Loaded (gone.map .Free ++ log) r := by
  induction gone with
  | nil => exact h
  | cons s gone ih =>
      exact ⟨fun heq => hgone (heq ▸ List.mem_cons_self),
        ih (List.not_mem_of_not_mem_cons hgone)⟩

lemma UsedLoaded.map_free {gone : List R} (h : UsedLoaded log) :
    UsedLoaded (gone.map .Free ++ log) := by
  induction gone with
  | nil => exact h
  | cons s gone ih => exact ih

end Loading

/-! ## Shared objects -/

section Objects

variable {O : Type*} (owned : O → Bool) (resource : O → Option R)

/-- The objects that still have an owner, and the log with the resources of the others freed. -/
def collect (objects : List O) (log : List (Event R)) : List O × List (Event R) :=
  (objects.filter owned,
    ((objects.filter fun o => !owned o).filterMap resource).reverse.map .Free ++ log)

/-- **Destruction.**  Freeing what the objects without an owner hold leaves what the others
hold. -/
theorem Tracks.collect {objects : List O} {log : List (Event R)}
    (h : Tracks log (objects.filterMap resource)) :
    Tracks (collect owned resource objects log).2
      ((collect owned resource objects log).1.filterMap resource) := by
  refine Tracks.freeAll (h.perm ?_)
  have hsplit := (List.filter_append_perm (fun o => !owned o) objects).symm
  simp only [Bool.not_not] at hsplit
  rw [← List.filterMap_append]
  exact hsplit.filterMap resource

end Objects

end Lifetimes
