import Mathlib.Data.Fintype.Card
import Mathlib.Data.Fintype.EquivFin
import Mathlib.Data.Fintype.Sets
import Mathlib.Logic.Relation

/-!
# Cycles of a relation

* `HasCycle` — some element leads back to itself.
* `not_hasCycle_of_acc` — elements reached only by descending chains lie on no cycle.
* `acc_of_not_hasCycle` — over finitely many elements the absence of cycles is enough for
  accessibility.
* `hasCycle_iff` — the two together: a finite relation has a cycle if and only if it has an
  inaccessible element.
-/

namespace Libane

open Relation

variable {α : Type*} {r : α → α → Prop}

/-- Some element leads back to itself. -/
def HasCycle (r : α → α → Prop) : Prop := ∃ a, TransGen r a a

/-- An accessible element does not lead back to itself. -/
lemma not_transGen_self {a : α} (h : Acc r a) : ¬ TransGen r a a := by
  rw [← acc_transGen_iff] at h
  induction h with
  | intro a _ ih => exact fun hcycle => ih a hcycle hcycle

/-- Without inaccessible elements there are no cycles. -/
theorem not_hasCycle_of_acc (h : ∀ a, Acc r a) : ¬ HasCycle r := by
  rintro ⟨a, hcycle⟩
  exact not_transGen_self (h a) hcycle

/-- When only the elements of a finite set have successors, the absence of cycles makes every
element accessible. -/
theorem acc_of_not_hasCycle {s : Finset α} (hs : ∀ a b, r a b → a ∈ s) (h : ¬ HasCycle r) :
    ∀ a, Acc r a := by
  let reaches : s → s → Prop := fun a b => TransGen r a b
  have : IsTrans s reaches := ⟨fun _ _ _ => TransGen.trans⟩
  have : Std.Irrefl reaches := ⟨fun a hcycle => h ⟨a, hcycle⟩⟩
  have hwf : WellFounded reaches := Finite.wellFounded_of_trans_of_irrefl reaches
  have hmem : ∀ a : s, Acc r a := fun a => by
    induction a using hwf.induction with
    | _ a ih => exact Acc.intro _ fun b hb => ih ⟨b, hs b a hb⟩ (TransGen.single hb)
  exact fun a => Acc.intro a fun b hb => hmem ⟨b, hs b a hb⟩

/-- **Cycles are inaccessible elements.** -/
theorem hasCycle_iff {s : Finset α} (hs : ∀ a b, r a b → a ∈ s) :
    HasCycle r ↔ ∃ a, ¬ Acc r a := by
  rw [← not_iff_not, not_exists]
  constructor
  · intro h a
    exact not_not.mpr (acc_of_not_hasCycle hs h a)
  · intro h
    exact not_hasCycle_of_acc fun a => not_not.mp (h a)

end Libane
