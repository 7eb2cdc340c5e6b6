/-
Queues in a ring of slots.

A queue is kept in `n` slots by where its front is and how many slots it takes up;
indices wrap, so `slot` takes any number.  `queued` reads the queue from its front.
Whatever has wrapped however often, writing the slot after the last is adding at
the end, and moving the front on is taking from the start.
-/
import Mathlib.Algebra.GroupWithZero.Nat
import Mathlib.Data.List.Range
import Mathlib.Logic.Function.Basic

universe u

namespace RingBuffer

variable {n : Nat} [NeZero n] {α : Type u}

/-- The slot a wrapping index stands for. -/
def slot (n : Nat) [NeZero n] (i : Nat) : Fin n := Fin.ofNat n i

/-- The queue of `size` slots from `front` on. -/
def queued (slots : Fin n → α) (front size : Nat) : List α :=
  (List.range size).map fun k => slots (slot n (front + k))

theorem slot_eq_of_mod {i j : Nat} (h : i % n = j % n) : slot n i = slot n j := by
  unfold slot
  exact Fin.ext h

/-- Within one turn of the ring, indices stand for different slots. -/
theorem slot_ne {front i j : Nat} (hij : i < j) (hj : j < i + n) :
    slot n (front + i) ≠ slot n (front + j) := by
  intro h
  have hmod : (front + j) % n = (front + i) % n := (congrArg Fin.val h).symm
  have hzero : (front + j - (front + i)) % n = 0 := Nat.sub_mod_eq_zero_of_mod_eq hmod
  have hsub : front + j - (front + i) = j - i := by omega
  rw [hsub, Nat.mod_eq_of_lt (by omega)] at hzero
  omega

/-- Adding at the end of a queue that leaves room. -/
theorem queued_push (slots : Fin n → α) (front : Nat) {size : Nat} (hsize : size < n) (a : α) :
    queued (Function.update slots (slot n (front + size)) a) front (size + 1)
      = queued slots front size ++ [a] := by
  unfold queued
  rw [List.range_succ, List.map_append, List.map_singleton, Function.update_self]
  congr 1
  refine List.map_congr_left fun k hk => ?_
  rw [Function.update_of_ne (slot_ne (List.mem_range.mp hk) (by omega))]

/-- Taking from the start of a queue that is not empty. -/
theorem queued_pop (slots : Fin n → α) (front size : Nat) :
    queued slots front (size + 1)
      = slots (slot n front) :: queued slots ((front + 1) % n) size := by
  unfold queued
  rw [List.range_succ_eq_map, List.map_cons, List.map_map, Nat.add_zero]
  congr 1
  refine List.map_congr_left fun k _ => congrArg slots (slot_eq_of_mod ?_)
  show (front + (k + 1)) % n = _
  rw [Nat.mod_add_mod, Nat.add_assoc, Nat.add_comm 1 k]

end RingBuffer
