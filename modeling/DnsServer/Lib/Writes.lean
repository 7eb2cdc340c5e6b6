/-
Writes into a buffer.

A write is an index and what is put there.  What a list of writes leaves is the
last write at each index, and nothing where none was made; so it tells both what a
buffer holds afterwards and which indices were touched.  A piece of code that
fills a stretch of a buffer `Lays` a list there, in whatever order it goes about
it, and stretches side by side lay what they lay together; so do stretches of which
one is written over the end of another.
-/

universe u

namespace Writes

variable {α : Type u}

/-- `memcpy` to an offset. -/
def copyAt : Nat → List α → List (Nat × α)
  | _, [] => []
  | offset, x :: xs => (offset, x) :: copyAt (offset + 1) xs

/-- What the writes leave at an index. -/
def written : List (Nat × α) → Nat → Option α
  | [], _ => none
  | w :: ws, i => (written ws i).or (if w.1 = i then some w.2 else none)

/-- Every write is at an index below the size. -/
def Inside (size : Nat) (ws : List (Nat × α)) : Prop := ∀ w ∈ ws, w.1 < size

/-- The writes leave this list from an index on, and nothing elsewhere. -/
def Lays (start : Nat) (xs : List α) (ws : List (Nat × α)) : Prop :=
  ∀ i, written ws i = if start ≤ i then xs[i - start]? else none

/-- Lists put together behind each other, each with a terminator that the next one takes the
place of. -/
def concatAt (stop : α) : Nat → List (List α) → List (Nat × α)
  | _, [] => []
  | start, xs :: rest => copyAt start (xs ++ [stop]) ++ concatAt stop (start + xs.length) rest

theorem written_append (ws ws' : List (Nat × α)) (i : Nat) :
    written (ws ++ ws') i = (written ws' i).or (written ws i) := by
  induction ws with
  | nil => simp [written]
  | cons w ws ih => rw [List.cons_append, written, ih, written, Option.or_assoc]

theorem written_singleton (w : Nat × α) (i : Nat) :
    written [w] i = if w.1 = i then some w.2 else none := rfl

theorem written_eq_none_iff {ws : List (Nat × α)} {i : Nat} :
    written ws i = none ↔ ∀ w ∈ ws, w.1 ≠ i := by
  induction ws with
  | nil => simp [written]
  | cons w ws ih =>
      rw [written, Option.or_eq_none_iff, ih, List.forall_mem_cons, and_comm]
      simp

theorem inside_append_iff {size : Nat} {ws ws' : List (Nat × α)} :
    Inside size (ws ++ ws') ↔ Inside size ws ∧ Inside size ws' := by
  unfold Inside
  exact List.forall_mem_append

theorem inside_nil (size : Nat) : Inside size ([] : List (Nat × α)) := by
  intro w hw
  simp at hw

/-- Being inside is leaving nothing from the size on. -/
theorem inside_iff_written {size : Nat} {ws : List (Nat × α)} :
    Inside size ws ↔ ∀ i, size ≤ i → written ws i = none := by
  refine ⟨?_, ?_⟩
  · intro h i hi
    apply written_eq_none_iff.mpr
    intro w hw heq
    have := h w hw
    omega
  · intro h w hw
    rcases Nat.lt_or_ge w.1 size with hlt | hout
    · exact hlt
    · exact absurd rfl (written_eq_none_iff.mp (h w.1 hout) w hw)

theorem lays_copyAt (start : Nat) (xs : List α) : Lays start xs (copyAt start xs) := by
  intro i
  induction xs generalizing start with
  | nil => simp [copyAt, written]
  | cons x xs ih =>
      rw [copyAt, written, ih]
      rcases Nat.lt_trichotomy i start with hlt | rfl | hgt
      · rw [if_neg (by omega), if_neg (by omega), if_neg (by omega)]
        rfl
      · rw [if_neg (by omega), if_pos rfl, if_pos (Nat.le_refl i), Nat.sub_self]
        rfl
      · rw [if_pos (by omega), if_neg (by omega), if_pos (by omega), Option.or_none,
          show i - start = i - (start + 1) + 1 by omega, List.getElem?_cons_succ]

/-- A stretch written over the end of another, and at least as far. -/
theorem Lays.overwrite {start next : Nat} {xs zs ys : List α} {ws ws' : List (Nat × α)}
    (h : Lays start (xs ++ zs) ws) (h' : Lays next ys ws') (hnext : next = start + xs.length)
    (hover : zs.length ≤ ys.length) : Lays start (xs ++ ys) (ws ++ ws') := by
  subst hnext
  intro i
  rw [written_append, h i, h' i, List.getElem?_append, List.getElem?_append]
  by_cases hstart : start ≤ i
  · rw [if_pos hstart, if_pos hstart]
    by_cases hxs : i - start < xs.length
    · rw [if_neg (by omega), if_pos hxs, if_pos hxs]
      rfl
    · rw [if_pos (by omega), if_neg hxs, if_neg hxs, Nat.sub_add_eq]
      by_cases hys : i - start - xs.length < ys.length
      · rw [List.getElem?_eq_getElem hys]
        rfl
      · rw [@List.getElem?_eq_none _ zs _ (by omega), Option.or_none]
  · rw [if_neg hstart, if_neg hstart, if_neg (by omega)]
    rfl

/-- Two stretches side by side. -/
theorem Lays.append {start next : Nat} {xs ys : List α} {ws ws' : List (Nat × α)}
    (h : Lays start xs ws) (h' : Lays next ys ws') (hnext : next = start + xs.length) :
    Lays start (xs ++ ys) (ws ++ ws') := by
  have h0 : Lays start (xs ++ []) ws := by
    rw [List.append_nil]
    exact h
  exact h0.overwrite h' hnext (Nat.zero_le _)

/-- What lays a stretch is inside exactly when the stretch is. -/
theorem Lays.inside_iff {size start : Nat} {xs : List α} {ws : List (Nat × α)}
    (h : Lays start xs ws) (hpos : 0 < xs.length) :
    Inside size ws ↔ start + xs.length ≤ size := by
  rw [inside_iff_written]
  refine ⟨?_, ?_⟩
  · intro hin
    rcases Nat.lt_or_ge size (start + xs.length) with hout | hle
    · have hnone := hin (start + (xs.length - 1)) (by omega)
      rw [h, if_pos (by omega), List.getElem?_eq_none_iff] at hnone
      omega
    · exact hle
  · intro hle i hi
    rw [h, if_pos (by omega), List.getElem?_eq_none (by omega)]

/-- What is put together has one terminator, at its end. -/
theorem lays_concatAt (stop : α) {parts : List (List α)} (hne : parts ≠ []) :
    ∀ start, Lays start (parts.flatten ++ [stop]) (concatAt stop start parts) := by
  induction parts with
  | nil => exact absurd rfl hne
  | cons xs rest ih =>
      intro start
      rw [concatAt, List.flatten_cons]
      by_cases hrest : rest = []
      · subst hrest
        rw [concatAt, List.append_nil, List.flatten_nil, List.append_nil]
        exact lays_copyAt start _
      · rw [List.append_assoc]
        refine Lays.overwrite (lays_copyAt start _) (ih hrest _) rfl ?_
        rw [List.length_append, List.length_singleton]
        omega

/-- It is inside exactly when there is room for all the lists and the terminator. -/
theorem inside_concatAt_iff (stop : α) {parts : List (List α)} (hne : parts ≠ []) {size : Nat} :
    Inside size (concatAt stop 0 parts) ↔ parts.flatten.length + 1 ≤ size := by
  rw [(lays_concatAt stop hne 0).inside_iff (by simp)]
  rw [Nat.zero_add, List.length_append, List.length_singleton]

end Writes
