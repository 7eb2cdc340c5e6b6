/-
A table of descriptors.

Things are numbered as they are opened, and each is given a descriptor that stands for
nothing at the time.  Closing a descriptor closes the thing it stands for; the same number
may then be given to a later one.  A descriptor that stands for nothing can still be
handed to `close`, which is remembered, because in a program it is a mistake.

What was given to a thing never changes, so what a program knows of a descriptor goes on
being true of the thing, whoever holds the number later; and a descriptor stands for a
thing exactly if it was given to it and the thing has not been closed.
-/
import Mathlib.Data.List.Nodup

structure DescriptorTable where
  /-- The descriptor each thing was given, in the order they were opened. -/
  given : List Nat
  /-- What an open descriptor stands for. -/
  table : Nat → Option Nat
  /-- The things that were closed, in order. -/
  closed : List Nat
  /-- DescriptorTable that were closed while they stood for nothing, in order. -/
  missed : List Nat
  stands : ∀ fd c, table fd = some c ↔ given[c]? = some fd ∧ c ∉ closed
  nodup : closed.Nodup
  were : ∀ c ∈ closed, c < given.length

namespace DescriptorTable

variable {d : DescriptorTable} {fd c : Nat}

/-- Nothing has been opened. -/
def empty : DescriptorTable :=
  { given := [], table := fun _ => none, closed := [], missed := []
    stands := by simp
    nodup := List.nodup_nil
    were := by simp }

/-! ### Opening and closing -/

theorem stands_opened (d : DescriptorTable) (hfree : d.table fd = none) (fd' c : Nat) :
    Function.update d.table fd (some d.given.length) fd' = some c ↔
      (d.given ++ [fd])[c]? = some fd' ∧ c ∉ d.closed := by
  have hnew : d.given.length ∉ d.closed := fun h => Nat.lt_irrefl _ (d.were _ h)
  have hbelow : ∀ {fd c}, d.table fd = some c → c < d.given.length := fun h =>
    (List.getElem?_eq_some_iff.mp ((d.stands _ _).mp h).1).1
  rw [List.getElem?_append]
  by_cases hfd : fd' = fd
  · subst hfd
    rw [Function.update_self, Option.some.injEq]
    by_cases hlt : c < d.given.length
    · rw [if_pos hlt, ← d.stands fd' c, hfree]
      exact ⟨fun h => absurd h (Nat.ne_of_gt hlt), fun h => by cases h⟩
    · rw [if_neg hlt, List.getElem?_singleton]
      refine ⟨fun h => ?_, fun h => ?_⟩
      · subst h
        exact ⟨by rw [Nat.sub_self, if_pos rfl], hnew⟩
      · by_cases hat : c - d.given.length = 0
        · exact Nat.le_antisymm (Nat.le_of_not_lt hlt) (Nat.le_of_sub_eq_zero hat)
        · rw [if_neg hat] at h
          cases h.1
  · rw [Function.update_of_ne hfd]
    by_cases hlt : c < d.given.length
    · rw [if_pos hlt, d.stands]
    · rw [if_neg hlt, List.getElem?_singleton]
      refine ⟨fun h => absurd (hbelow h) hlt, fun h => ?_⟩
      split at h
      · exact absurd (Option.some.inj h.1).symm hfd
      · cases h.1

/-- The next thing is opened at a descriptor that stands for nothing. -/
def opened (d : DescriptorTable) (fd : Nat) (hfree : d.table fd = none) : DescriptorTable :=
  { d with
    given := d.given ++ [fd]
    table := Function.update d.table fd (some d.given.length)
    stands := d.stands_opened hfree
    were := fun c hc => by
      rw [List.length_append]
      exact Nat.lt_of_lt_of_le (d.were c hc) (Nat.le_add_right _ _) }

theorem stands_shut (d : DescriptorTable) (hopen : d.table fd = some c) (fd' c' : Nat) :
    Function.update d.table fd none fd' = some c' ↔
      d.given[c']? = some fd' ∧ c' ∉ d.closed ++ [c] := by
  have hgiven := (d.stands fd c).mp hopen
  rw [List.mem_append, List.mem_singleton, not_or]
  by_cases hfd : fd' = fd
  · rw [hfd, Function.update_self]
    refine ⟨fun h => (by cases h), fun h => ?_⟩
    have hsame : d.table fd = some c' := (d.stands fd c').mpr ⟨h.1, h.2.1⟩
    rw [hopen, Option.some.injEq] at hsame
    exact absurd hsame.symm h.2.2
  · rw [Function.update_of_ne hfd, d.stands fd' c']
    refine ⟨fun h => ⟨h.1, h.2, ?_⟩, fun h => ⟨h.1, h.2.1⟩⟩
    rintro rfl
    rw [hgiven.1, Option.some.injEq] at h
    exact hfd h.1.symm

/-- A descriptor is closed that stands for this. -/
def shut (d : DescriptorTable) (fd c : Nat) (hopen : d.table fd = some c) : DescriptorTable :=
  { d with
    table := Function.update d.table fd none
    closed := d.closed ++ [c]
    stands := d.stands_shut hopen
    nodup := by
      refine List.nodup_append.mpr ⟨d.nodup, List.nodup_singleton c, ?_⟩
      intro a ha b hb heq
      rw [heq, List.mem_singleton.mp hb] at ha
      exact ((d.stands fd c).mp hopen).2 ha
    were := by
      intro a ha
      rcases List.mem_append.mp ha with hold | hnew
      · exact d.were a hold
      · rw [List.mem_singleton.mp hnew]
        exact (List.getElem?_eq_some_iff.mp ((d.stands fd c).mp hopen).1).1 }

/-- `close(fd)`. -/
def close (d : DescriptorTable) (fd : Nat) : DescriptorTable :=
  match h : d.table fd with
  | some c => d.shut fd c h
  | none => { d with missed := d.missed ++ [fd] }

theorem close_eq (h : d.table fd = some c) : d.close fd = d.shut fd c h := by
  unfold close
  split
  · rename_i c' h'
    rw [h, Option.some.injEq] at h'
    subst h'
    rfl
  · rename_i h'
    rw [h] at h'
    cases h'

@[simp] theorem given_close (d : DescriptorTable) (fd : Nat) : (d.close fd).given = d.given := by
  unfold close
  split
  · rfl
  · rfl

/-- What was given stays given. -/
theorem given_opened (hfree : d.table fd = none) {fd' : Nat} (h : d.given[c]? = some fd') :
    (d.opened fd hfree).given[c]? = some fd' := by
  show (d.given ++ [fd])[c]? = some fd'
  rw [List.getElem?_append_left (List.getElem?_eq_some_iff.mp h).1]
  exact h

theorem given_opened_self (hfree : d.table fd = none) :
    (d.opened fd hfree).given[d.given.length]? = some fd := List.getElem?_concat_length

/-- A thing was opened exactly if it is open now or was closed. -/
theorem lt_iff_open_or_closed (d : DescriptorTable) (c : Nat) :
    c < d.given.length ↔ (∃ fd, d.table fd = some c) ∨ c ∈ d.closed := by
  refine ⟨fun hlt => ?_, fun h => ?_⟩
  · by_cases hc : c ∈ d.closed
    · exact Or.inr hc
    · exact Or.inl ⟨d.given[c], (d.stands _ c).mpr ⟨List.getElem?_eq_getElem hlt, hc⟩⟩
  · rcases h with ⟨fd, hfd⟩ | hc
    · exact (List.getElem?_eq_some_iff.mp ((d.stands fd c).mp hfd).1).1
    · exact d.were c hc

end DescriptorTable
