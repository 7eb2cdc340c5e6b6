/-
What an allocator has given out and taken back.

Addresses are given out in order and never twice, so what has been given out is a
number and what has been taken back is a list.  The ledger is valid when nothing was
taken back twice or before it was given out; what is still out is then what was given
out less what came back.

A program owns some of what is out: its data is made of it.  What is out and owned by
nothing can never come back, and it stays so as long as only what is owned is given
back.
-/
import Mathlib.Data.List.Nodup

structure Ledger where
  /-- The next address; those below it have been given out. -/
  issued : Nat
  /-- The addresses given back, in order. -/
  freed : List Nat

namespace Ledger

variable {l : Ledger} {a : Nat} {as owned : List Nat}

structure Valid (l : Ledger) : Prop where
  nodup : l.freed.Nodup
  issued : ∀ a ∈ l.freed, a < l.issued

/-- The addresses that are out. -/
def live (l : Ledger) : List Nat := (List.range l.issued).filter fun a => decide (a ∉ l.freed)

/-- The addresses that are out and not among these. -/
def unowned (l : Ledger) (owned : List Nat) : List Nat :=
  l.live.filter fun a => decide (a ∉ owned)

/-- So many more given out. -/
def issue (l : Ledger) (n : Nat) : Ledger := { l with issued := l.issued + n }

def takeBack (l : Ledger) (as : List Nat) : Ledger := { l with freed := l.freed ++ as }

theorem mem_live : a ∈ l.live ↔ a < l.issued ∧ a ∉ l.freed := by
  unfold live
  rw [List.mem_filter, List.mem_range, decide_eq_true_eq]

theorem nodup_live : l.live.Nodup := List.nodup_range.filter _

/-! ### Validity -/

theorem Valid.issue (h : l.Valid) (n : Nat) : (l.issue n).Valid :=
  ⟨h.nodup, fun a ha => Nat.lt_of_lt_of_le (h.issued a ha) (Nat.le_add_right _ _)⟩

/-- What is out may be given back, once. -/
theorem Valid.takeBack (h : l.Valid) (hnodup : as.Nodup) (hlive : ∀ a ∈ as, a ∈ l.live) :
    (l.takeBack as).Valid := by
  refine ⟨List.nodup_append.mpr ⟨h.nodup, hnodup, ?_⟩, ?_⟩
  · intro a ha b hb heq
    rw [heq] at ha
    exact (mem_live.mp (hlive b hb)).2 ha
  · intro a ha
    rcases List.mem_append.mp ha with hold | hnew
    · exact h.issued a hold
    · exact (mem_live.mp (hlive a hnew)).1

/-! ### Counting -/

/-- Of distinct addresses among others, the others are all but so many. -/
theorem length_without (hnodup : owned.Nodup) (has : as.Nodup) (hsub : ∀ a ∈ owned, a ∈ as) :
    (as.filter fun a => decide (a ∉ owned)).length + owned.length = as.length := by
  have hperm : (as.filter fun a => decide (a ∈ owned)).Perm owned := by
    refine (List.perm_ext_iff_of_nodup (has.filter _) hnodup).mpr fun a => ?_
    rw [List.mem_filter, decide_eq_true_eq]
    exact ⟨fun h => h.2, fun h => ⟨hsub a h, h⟩⟩
  have hsplit := List.length_eq_length_filter_add (l := as) fun a => decide (a ∈ owned)
  rw [hperm.length_eq] at hsplit
  have hrest : (as.filter fun a => decide (a ∉ owned)) = as.filter fun a => !decide (a ∈ owned) :=
    List.filter_congr fun a _ => decide_not
  rw [hrest]
  omega

/-- **What was given out is out or came back.** -/
theorem Valid.length_live (h : l.Valid) : l.live.length + l.freed.length = l.issued := by
  have hcount := length_without h.nodup List.nodup_range
    fun a ha => List.mem_range.mpr (h.issued a ha)
  rw [List.length_range] at hcount
  exact hcount

theorem length_unowned (hnodup : owned.Nodup) (hlive : ∀ a ∈ owned, a ∈ l.live) :
    (l.unowned owned).length + owned.length = l.live.length :=
  length_without hnodup nodup_live hlive

end Ledger
