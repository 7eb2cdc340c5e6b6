/-
Relations that can be followed for ever.

Following a relation from a point ends, whichever way one goes, exactly when the
point is accessible.  Where the points that can be come to are finitely many, the
only way to go on for ever is to come round: a point is accessible exactly when no
ring can be reached from it.
-/
import Mathlib.Logic.Relation
import Mathlib.Order.Preorder.Finite
import Mathlib.Order.WellFounded

universe u

namespace Descent

open Relation

variable {α : Type u} {r : α → α → Prop}

/-- A path runs through its points in order. -/
theorem transGen_of_path {f : Nat → α} (hf : ∀ n, r (f n) (f (n + 1))) {i j : Nat} (hij : i < j) :
    TransGen r (f i) (f j) := by
  induction j with
  | zero => exact absurd hij (Nat.not_lt_zero i)
  | succ j ih =>
      rcases Nat.lt_or_ge i j with hlt | hge
      · exact (ih hlt).tail (hf j)
      · rw [show i = j by omega]
        exact TransGen.single (hf j)

/-- From a point that is not accessible there is a path without an end. -/
theorem exists_path_of_not_acc {a : α} (h : ¬ Acc (fun b a => r a b) a) :
    ∃ f : Nat → α, f 0 = a ∧ ∀ n, r (f n) (f (n + 1)) :=
  not_acc_iff_exists_descending_chain.mp h

/-- What can be reached from an accessible point is accessible. -/
theorem acc_of_reachable {a b : α} (hab : ReflTransGen r a b) (h : Acc (fun b a => r a b) a) :
    Acc (fun b a => r a b) b := by
  induction hab with
  | refl => exact h
  | tail _ hbc ih => exact ih.inv hbc

/-- No ring goes through an accessible point. -/
theorem not_ring_of_acc {a : α} (h : Acc (fun b a => r a b) a) : ¬ TransGen r a a := by
  induction h with
  | intro a _ ih =>
      intro hring
      obtain ⟨b, hab, hba⟩ := TransGen.head'_iff.mp hring
      exact ih b hab (TransGen.tail' hba hab)

/--
**Without a ring in reach, every path ends**, where the points that can be come to
are finitely many.
-/
theorem acc_iff_no_ring (hfinite : {b | ∃ a, r a b}.Finite) {a : α} :
    Acc (fun b a => r a b) a ↔ ∀ b, ReflTransGen r a b → ¬ TransGen r b b := by
  refine ⟨?_, ?_⟩
  · intro h b hab
    exact not_ring_of_acc (acc_of_reachable hab h)
  · intro h
    by_contra hnot
    obtain ⟨f, rfl, hf⟩ := exists_path_of_not_acc hnot
    -- the path stays among finitely many points, so it meets one of them twice
    have hcome : ∀ n, f (n + 1) ∈ {b | ∃ a, r a b} := fun n => ⟨f n, hf n⟩
    obtain ⟨i, j, hij, heq⟩ := Set.Finite.exists_lt_map_eq_of_forall_mem hcome hfinite
    have hring := transGen_of_path hf (show i + 1 < j + 1 by omega)
    have hreach := (transGen_of_path hf (show 0 < i + 1 by omega)).to_reflTransGen
    refine h _ hreach ?_
    rw [show f (j + 1) = f (i + 1) from heq.symm] at hring
    exact hring

end Descent
