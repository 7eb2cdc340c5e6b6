/-
Lists linked through the next fields of their nodes.

What the nodes' fields say is a function from a node to its next field, or nothing
where the node is not there to be read.  A list of nodes is laid out when each
one's field is the node after it.  Taking a node out is a write to the field of the
node before it, and what is left is the list without that node.

A cursor is between two nodes of a list, or at an end: it knows the node before and
the node after, and nothing else.  It stays where it is when nodes are put in front
or taken out, as long as those two are not touched.
-/
import Mathlib.Data.List.Nodup
import Mathlib.Logic.Function.Basic

universe u

namespace LinkedList

variable {α : Type u}

/-- Each node's next field is the node after it. -/
def Linked (next : α → Option (Option α)) : List α → Prop
  | [] => True
  | a :: as => next a = some as.head? ∧ Linked next as

/-- A node is come to from a pointer by following the next fields. -/
inductive ComesTo (next : α → Option (Option α)) : Option α → α → Prop
  | here (a : α) : ComesTo next (some a) a
  | next {a b : α} {q : Option α} (h : next b = some q) (hrest : ComesTo next q a) :
      ComesTo next (some b) a

/-- The cursor is after one node and before another. -/
def Between (previous following : Option α) (as : List α) : Prop :=
  ∃ pre suf, as = pre ++ suf ∧ previous = pre.getLast? ∧ following = suf.head?

variable {next next' : α → Option (Option α)} {a b : α} {as pre suf : List α}
  {previous following : Option α}

/-! ### Following the fields -/

theorem Linked.congr (h : Linked next as) (hsame : ∀ a ∈ as, next' a = next a) :
    Linked next' as := by
  induction as with
  | nil => trivial
  | cons a as ih =>
      refine ⟨?_, ih h.2 fun b hb => hsame b (List.mem_cons_of_mem a hb)⟩
      rw [hsame a List.mem_cons_self]
      exact h.1

theorem Linked.right (h : Linked next (pre ++ suf)) : Linked next suf := by
  induction pre with
  | nil => exact h
  | cons a pre ih => exact ih h.2

theorem Linked.next_eq (h : Linked next (pre ++ a :: suf)) : next a = some suf.head? :=
  (Linked.right h).1

theorem Linked.next_mem (h : Linked next as) (ha : a ∈ as) (hnext : next a = some (some b)) :
    b ∈ as := by
  obtain ⟨pre, suf, rfl⟩ := List.append_of_mem ha
  rw [h.next_eq, Option.some.injEq] at hnext
  exact List.mem_append_right pre (List.mem_cons_of_mem a (List.mem_of_mem_head? hnext))

/-- The fields lead from a node in one way only. -/
theorem Linked.unique : ∀ {as bs : List α}, Linked next as → Linked next bs →
    as.head? = bs.head? → as = bs := by
  intro as
  induction as with
  | nil =>
      intro bs _ _ hhead
      exact (List.head?_eq_none_iff.mp hhead.symm).symm
  | cons a as ih =>
      intro bs has hbs hhead
      rcases bs with _ | ⟨b, bs⟩
      · simp at hhead
      · rw [List.head?_cons, List.head?_cons, Option.some.injEq] at hhead
        subst hhead
        have hfollowing : some as.head? = some bs.head? := has.1.symm.trans hbs.1
        rw [ih has.2 hbs.2 (Option.some.inj hfollowing)]

/-- A list that comes to an end goes through no node twice. -/
theorem Linked.nodup (h : Linked next as) : as.Nodup := by
  induction as with
  | nil => exact List.nodup_nil
  | cons a as ih =>
      refine List.nodup_cons.mpr ⟨?_, ih h.2⟩
      intro hmem
      -- from its second place on the list would be the whole list
      obtain ⟨pre, suf, rfl⟩ := List.append_of_mem hmem
      have heq : a :: suf = a :: (pre ++ a :: suf) := Linked.unique h.2.right h rfl
      have hlength := congrArg List.length heq
      simp only [List.length_cons, List.length_append] at hlength
      omega

/-- What is come to from the first node of a list are its nodes. -/
theorem comesTo_iff_mem (h : Linked next as) : ComesTo next as.head? a ↔ a ∈ as := by
  induction as with
  | nil =>
      refine ⟨fun hreach => ?_, fun hmem => absurd hmem List.not_mem_nil⟩
      rcases hreach
  | cons b as ih =>
      rw [List.head?_cons, List.mem_cons, ← ih h.2]
      refine ⟨?_, ?_⟩
      · intro hreach
        rcases hreach with _ | ⟨hb, hrest⟩
        · exact Or.inl rfl
        · rw [h.1, Option.some.injEq] at hb
          rw [hb]
          exact Or.inr hrest
      · intro hcase
        rcases hcase with rfl | hrest
        · exact ComesTo.here a
        · exact ComesTo.next h.1 hrest

/-! ### The cursor -/

theorem Between.start : Between none as.head? as := ⟨[], as, rfl, rfl, rfl⟩

theorem Between.mem_following (h : Between previous (some a) as) : a ∈ as := by
  obtain ⟨pre, suf, rfl, -, hfollowing⟩ := h
  exact List.mem_append_right pre (List.mem_of_mem_head? hfollowing.symm)

theorem Between.mem_previous (h : Between (some a) following as) : a ∈ as := by
  obtain ⟨pre, suf, rfl, hprevious, -⟩ := h
  exact List.mem_append_left suf (List.mem_of_getLast? hprevious.symm)

theorem Between.split (h : Between previous (some a) as) :
    ∃ pre suf, as = pre ++ a :: suf ∧ previous = pre.getLast? := by
  obtain ⟨pre, suf, rfl, hprevious, hfollowing⟩ := h
  rcases suf with _ | ⟨b, suf⟩
  · simp at hfollowing
  · rw [List.head?_cons, Option.some.injEq] at hfollowing
    rw [hfollowing]
    exact ⟨pre, suf, rfl, hprevious⟩

/-- The field of the node before the cursor is the node after it. -/
theorem Linked.next_between (h : Linked next as) (hbetween : Between (some a) following as) :
    next a = some following := by
  obtain ⟨pre, suf, rfl, hprevious, hfollowing⟩ := hbetween
  obtain ⟨init, rfl⟩ := List.getLast?_eq_some_iff.mp hprevious.symm
  rw [List.append_assoc] at h
  rw [h.next_eq, hfollowing]
  rfl

/-- Past a node, the cursor is before the node its field names. -/
theorem Between.advance (h : Between previous (some a) as) (hlist : Linked next as)
    (hnext : next a = some following) : Between (some a) following as := by
  obtain ⟨pre, suf, rfl, -⟩ := h.split
  refine ⟨pre ++ [a], suf, by simp, by simp, ?_⟩
  rw [hlist.next_eq, Option.some.injEq] at hnext
  exact hnext.symm

/-- A node put in front is behind a cursor that is past some node. -/
theorem Between.cons (h : Between previous following as) (hprevious : previous ≠ none) (a : α) :
    Between previous following (a :: as) := by
  obtain ⟨pre, suf, rfl, rfl, rfl⟩ := h
  have hpre : pre ≠ [] := fun hnil => hprevious (by rw [hnil]; rfl)
  refine ⟨a :: pre, suf, rfl, ?_, rfl⟩
  rw [List.getLast?_cons_of_ne_nil hpre]

variable [DecidableEq α]

theorem head?_filter_ne (h : as.head? ≠ some b) :
    (as.filter fun c => c ≠ b).head? = as.head? := by
  rcases as with _ | ⟨a, as⟩
  · rfl
  · have hne : a ≠ b := fun heq => h (by rw [heq]; rfl)
    rw [List.filter_cons_of_pos (by simpa using hne)]
    rfl

theorem getLast?_filter_ne (h : as.getLast? ≠ some b) :
    (as.filter fun c => c ≠ b).getLast? = as.getLast? := by
  rw [List.getLast?_eq_head?_reverse, List.getLast?_eq_head?_reverse, ← List.filter_reverse]
  refine head?_filter_ne ?_
  rw [← List.getLast?_eq_head?_reverse]
  exact h

/-- A cursor does not see a node taken out that is neither before nor after it. -/
theorem Between.remove (h : Between previous following as) (hprevious : previous ≠ some b)
    (hfollowing : following ≠ some b) :
    Between previous following (as.filter fun c => c ≠ b) := by
  obtain ⟨pre, suf, rfl, rfl, rfl⟩ := h
  refine ⟨_, _, List.filter_append _ _, ?_, ?_⟩
  · exact (getLast?_filter_ne hprevious).symm
  · exact (head?_filter_ne hfollowing).symm

/-! ### Taking a node out -/

theorem filter_ne_of_not_mem (h : b ∉ as) : as.filter (fun c => c ≠ b) = as := by
  refine List.filter_eq_self.mpr ?_
  intro c hc
  have hne : c ≠ b := fun heq => h (heq ▸ hc)
  simpa using hne

theorem filter_split (h : (pre ++ b :: suf).Nodup) :
    (pre ++ b :: suf).filter (fun c => c ≠ b) = pre ++ suf := by
  rw [List.nodup_append] at h
  obtain ⟨-, hsuf, hdisjoint⟩ := h
  have hb : b ∉ suf := (List.nodup_cons.mp hsuf).1
  have hpre : b ∉ pre := fun hmem => hdisjoint b hmem b List.mem_cons_self rfl
  rw [List.filter_append, filter_ne_of_not_mem hpre, List.filter_cons_of_neg (by simp),
    filter_ne_of_not_mem hb]

/-- Where the cursor is when the node after it has been taken out. -/
theorem Between.taken (h : Between previous (some b) as) (hnodup : as.Nodup)
    (hlist : Linked next as) (hnext : next b = some following) :
    Between previous following (as.filter fun c => c ≠ b) := by
  obtain ⟨pre, suf, rfl, hprevious⟩ := h.split
  rw [filter_split hnodup]
  refine ⟨pre, suf, rfl, hprevious, ?_⟩
  rw [hlist.next_eq, Option.some.injEq] at hnext
  exact hnext.symm

/-- The first node is taken out by taking the pointer to it on. -/
theorem Linked.removeFirst (h : Linked next as) (hnodup : as.Nodup)
    (hfirst : Between none (some b) as) (hnext : next b = some following) :
    following = (as.filter fun c => c ≠ b).head? ∧ Linked next (as.filter fun c => c ≠ b) := by
  obtain ⟨pre, suf, rfl, hprevious⟩ := hfirst.split
  have hpre : pre = [] := List.getLast?_eq_none_iff.mp hprevious.symm
  subst hpre
  rw [filter_split hnodup]
  rw [h.next_eq, Option.some.injEq] at hnext
  exact ⟨hnext.symm, h.2⟩

theorem Linked.relink (h : Linked next (pre ++ a :: b :: suf))
    (hnodup : (pre ++ a :: b :: suf).Nodup) :
    Linked (Function.update next a (some suf.head?)) (pre ++ a :: suf) := by
  induction pre with
  | nil =>
      refine ⟨Function.update_self _ _ _, h.2.2.congr ?_⟩
      intro c hc
      refine Function.update_of_ne ?_ _ _
      intro heq
      exact (List.nodup_cons.mp hnodup).1 (by rw [← heq]; exact List.mem_cons_of_mem b hc)
  | cons c pre ih =>
      obtain ⟨hnotMem, hnodup'⟩ := List.nodup_cons.mp hnodup
      refine ⟨?_, ih h.2 hnodup'⟩
      have hne : c ≠ a := by
        intro heq
        exact hnotMem (by rw [heq]; exact List.mem_append_right _ List.mem_cons_self)
      rw [Function.update_of_ne hne, h.1]
      rcases pre with _ | ⟨d, pre⟩
      · rfl
      · rfl

/-- Any other is taken out by the write to the field before it. -/
theorem Linked.remove (h : Linked next as) (hnodup : as.Nodup)
    (hbetween : Between (some a) (some b) as) (hnext : next b = some following) :
    (as.filter fun c => c ≠ b).head? = as.head? ∧
      Linked (Function.update next a (some following)) (as.filter fun c => c ≠ b) := by
  obtain ⟨pre, suf, rfl, hprevious⟩ := hbetween.split
  rw [filter_split hnodup]
  rw [h.next_eq, Option.some.injEq] at hnext
  subst hnext
  obtain ⟨init, rfl⟩ := List.getLast?_eq_some_iff.mp hprevious.symm
  rw [List.append_assoc] at h hnodup
  rw [List.append_assoc]
  refine ⟨?_, h.relink hnodup⟩
  rcases init with _ | ⟨c, init⟩
  · rfl
  · rfl

end LinkedList
