/-
Finite maps.

A map is what it answers, so two maps are equal when they answer alike; that only
finitely many keys are bound is carried by the value.
-/
import Mathlib.Data.Set.Finite.Basic
import Mathlib.Logic.Function.Basic

universe u v

/-- A map that binds finitely many keys. -/
structure FiniteMap (κ : Type u) (α : Type v) where
  get : κ → Option α
  finite : {k | get k ≠ none}.Finite

namespace FiniteMap

variable {κ : Type u} {α : Type v}

@[ext] theorem ext {m m' : FiniteMap κ α} (h : ∀ k, m.get k = m'.get k) : m = m' := by
  obtain ⟨get, finite⟩ := m
  obtain ⟨get', finite'⟩ := m'
  have hget : get = get' := funext h
  subst hget
  rfl

/-- No key is bound. -/
def empty : FiniteMap κ α where
  get _ := none
  finite := by simp

/-- Drop the bindings that fail a test. -/
def keep (p : α → Bool) (m : FiniteMap κ α) : FiniteMap κ α where
  get k := (m.get k).filter p
  finite := by
    refine m.finite.subset fun k hk hnone => hk ?_
    rw [hnone]
    rfl

@[simp] theorem get_keep (p : α → Bool) (m : FiniteMap κ α) (k : κ) :
    (m.keep p).get k = (m.get k).filter p := rfl

variable [DecidableEq κ]

/-- Bind a key, whatever it was bound to. -/
def set (m : FiniteMap κ α) (k : κ) (a : α) : FiniteMap κ α where
  get := Function.update m.get k (some a)
  finite := by
    refine (m.finite.insert k).subset fun k' hk' => ?_
    by_cases hk : k' = k
    · exact Or.inl hk
    · refine Or.inr ?_
      simpa [Function.update_of_ne hk] using hk'

@[simp] theorem get_set (m : FiniteMap κ α) (k k' : κ) (a : α) :
    (m.set k a).get k' = if k' = k then some a else m.get k' := by
  show Function.update m.get k (some a) k' = _
  by_cases hk : k' = k
  · rw [hk, Function.update_self, if_pos rfl]
  · rw [Function.update_of_ne hk, if_neg hk]

/-- Bind a key unless it is bound. -/
def bindNew (m : FiniteMap κ α) (k : κ) (a : α) : FiniteMap κ α :=
  if (m.get k).isSome then m else m.set k a

theorem get_bindNew (m : FiniteMap κ α) (k k' : κ) (a : α) :
    (m.bindNew k a).get k' = if k' = k then some ((m.get k).getD a) else m.get k' := by
  unfold bindNew
  by_cases hk : k' = k
  · subst hk
    rcases hm : m.get k' with _ | b <;> simp [hm]
  · rcases hm : m.get k with _ | b <;> simp [hk]

end FiniteMap
