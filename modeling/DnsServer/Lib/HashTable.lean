/-
Hash tables with chaining.

A table is a list of entries for each bucket; an entry carries its key.  Nothing is
assumed of the hash function, so every collision is covered.  A table is `Valid`
when each entry lies in its key's bucket and no bucket holds a key twice, and then
no key occurs twice anywhere, because equal keys hash alike.

The three operations are an insertion at the head of a bucket, a filter of every
bucket, and a change to the entry of one key.  Each keeps the table valid, and each
does to the map the table stands for what its name says.
-/
import DnsServer.Lib.FiniteMap
import Mathlib.Data.List.FinRange
import Mathlib.Data.List.Nodup

universe u v

/-- The entries of each bucket. -/
abbrev HashTable (n : Nat) (ε : Type u) := Fin n → List ε

namespace HashTable

variable {n : Nat} {ε : Type u} {κ : Type v} {key : ε → κ} {hash : κ → Fin n}

/-- Every entry in its bucket, and no key twice in one. -/
structure Valid (key : ε → κ) (hash : κ → Fin n) (t : HashTable n ε) : Prop where
  placed : ∀ i, ∀ e ∈ t i, hash (key e) = i
  nodup : ∀ i, ((t i).map key).Nodup

/-- All entries, bucket by bucket. -/
def entries (t : HashTable n ε) : List ε := (List.finRange n).flatMap t

theorem mem_entries {t : HashTable n ε} {e : ε} : e ∈ entries t ↔ ∃ i, e ∈ t i := by
  simp [entries, List.mem_flatMap]

/-- No bucket holds anything. -/
def empty : HashTable n ε := fun _ => []

theorem valid_empty : Valid key hash (empty : HashTable n ε) :=
  ⟨fun i e he => by simp [empty] at he, fun i => by simp [empty]⟩

/-- **In a valid table no key occurs twice**, in one bucket or in two. -/
theorem Valid.nodup_entries {t : HashTable n ε} (h : Valid key hash t) :
    ((entries t).map key).Nodup := by
  rw [entries, List.map_flatMap, List.nodup_flatMap]
  refine ⟨fun i _ => h.nodup i, ?_⟩
  refine (List.nodup_finRange n).imp fun {i j} hij => ?_
  intro k hi hj
  obtain ⟨e, he, rfl⟩ := List.mem_map.mp hi
  obtain ⟨e', he', hkey⟩ := List.mem_map.mp hj
  exact hij (by rw [← h.placed i e he, ← h.placed j e' he', hkey])

/-- Drop the entries that fail a test. -/
def keep (p : ε → Bool) (t : HashTable n ε) : HashTable n ε := fun i => (t i).filter p

theorem Valid.keep {t : HashTable n ε} (h : Valid key hash t) (p : ε → Bool) :
    Valid key hash (keep p t) :=
  ⟨fun i e he => h.placed i e (List.mem_filter.mp he).1,
    fun i => ((List.filter_sublist (l := t i)).map key).nodup (h.nodup i)⟩

variable [DecidableEq κ]

/-- The entry of a key: the first in its bucket. -/
def find (key : ε → κ) (hash : κ → Fin n) (t : HashTable n ε) (k : κ) : Option ε :=
  (t (hash k)).find? (fun e => key e = k)

/-- Put an entry at the head of its bucket, unless its key is there. -/
def insertNew (key : ε → κ) (hash : κ → Fin n) (e : ε) (t : HashTable n ε) : HashTable n ε :=
  if (find key hash t (key e)).isSome then t
  else Function.update t (hash (key e)) (e :: t (hash (key e)))

/-- Change the first entry of a key in a list. -/
def modifyFirst (key : ε → κ) (k : κ) (f : ε → ε) : List ε → List ε
  | [] => []
  | e :: es => if key e = k then f e :: es else e :: modifyFirst key k f es

/-- Change the entry of a key. -/
def modify (key : ε → κ) (hash : κ → Fin n) (k : κ) (f : ε → ε) (t : HashTable n ε) :
    HashTable n ε :=
  Function.update t (hash k) (modifyFirst key k f (t (hash k)))

theorem find_eq_some {t : HashTable n ε} {k : κ} {e : ε} (h : find key hash t k = some e) :
    e ∈ t (hash k) ∧ key e = k :=
  ⟨List.mem_of_find?_eq_some h, by simpa using List.find?_some h⟩

/-- In a valid table, an entry is the one its key is found by. -/
theorem Valid.find_of_mem {t : HashTable n ε} (h : Valid key hash t) {i : Fin n} {e : ε}
    (he : e ∈ t i) : find key hash t (key e) = some e := by
  have hi := h.placed i e he
  subst hi
  rcases hf : find key hash t (key e) with _ | e'
  · have hnone := List.find?_eq_none.mp hf e he
    simp at hnone
  · obtain ⟨he', hkey⟩ := find_eq_some hf
    rw [Option.some.injEq]
    exact List.inj_on_of_nodup_map (h.nodup _) he' he hkey

/-! ### What is in a table after each operation -/

theorem mem_insertNew {t : HashTable n ε} {e e' : ε} {i : Fin n}
    (h : e' ∈ insertNew key hash e t i) : e' = e ∨ e' ∈ t i := by
  unfold insertNew at h
  split at h
  · exact Or.inr h
  · by_cases hi : i = hash (key e)
    · subst hi
      rw [Function.update_self] at h
      exact List.mem_cons.mp h
    · rw [Function.update_of_ne hi] at h
      exact Or.inr h

theorem mem_modifyFirst {f : ε → ε} {k : κ} {es : List ε} {e : ε}
    (h : e ∈ modifyFirst key k f es) : e ∈ es ∨ ∃ e' ∈ es, key e' = k ∧ e = f e' := by
  induction es with
  | nil => exact Or.inl h
  | cons e' es ih =>
      unfold modifyFirst at h
      split at h
      · rename_i hk
        rcases List.mem_cons.mp h with rfl | hmem
        · exact Or.inr ⟨e', List.mem_cons_self, hk, rfl⟩
        · exact Or.inl (List.mem_cons_of_mem _ hmem)
      · rcases List.mem_cons.mp h with rfl | hmem
        · exact Or.inl List.mem_cons_self
        · rcases ih hmem with hold | ⟨e'', he'', hk, heq⟩
          · exact Or.inl (List.mem_cons_of_mem _ hold)
          · exact Or.inr ⟨e'', List.mem_cons_of_mem _ he'', hk, heq⟩

theorem mem_modify {f : ε → ε} {k : κ} {t : HashTable n ε} {i : Fin n} {e : ε}
    (h : e ∈ modify key hash k f t i) : e ∈ t i ∨ ∃ e' ∈ t i, key e' = k ∧ e = f e' := by
  unfold modify at h
  by_cases hi : i = hash k
  · subst hi
    rw [Function.update_self] at h
    exact mem_modifyFirst h
  · rw [Function.update_of_ne hi] at h
    exact Or.inl h

/-! ### The operations keep a table valid -/

theorem Valid.insertNew {t : HashTable n ε} (h : Valid key hash t) (e : ε) :
    Valid key hash (insertNew key hash e t) := by
  unfold HashTable.insertNew
  split
  · exact h
  · rename_i hnew
    refine ⟨?_, ?_⟩
    · intro i e' he'
      by_cases hi : i = hash (key e)
      · subst hi
        rw [Function.update_self] at he'
        rcases List.mem_cons.mp he' with rfl | hmem
        · rfl
        · exact h.placed _ e' hmem
      · rw [Function.update_of_ne hi] at he'
        exact h.placed i e' he'
    · intro i
      by_cases hi : i = hash (key e)
      · subst hi
        rw [Function.update_self, List.map_cons, List.nodup_cons]
        refine ⟨fun hmem => hnew ?_, h.nodup _⟩
        obtain ⟨e', he', hkey⟩ := List.mem_map.mp hmem
        rw [← hkey, h.find_of_mem he']
        rfl
      · rw [Function.update_of_ne hi]
        exact h.nodup i

theorem map_modifyFirst {f : ε → ε} (hf : ∀ e, key (f e) = key e) (k : κ) (es : List ε) :
    (modifyFirst key k f es).map key = es.map key := by
  induction es with
  | nil => rfl
  | cons e es ih =>
      unfold modifyFirst
      split
      · simp [hf]
      · simp [ih]

theorem modifyFirst_of_not_mem {f : ε → ε} {k : κ} {es : List ε}
    (h : es.find? (fun e => key e = k) = none) : modifyFirst key k f es = es := by
  induction es with
  | nil => rfl
  | cons e es ih =>
      have hall := List.find?_eq_none.mp h
      have hne : ¬ key e = k := by simpa using hall e List.mem_cons_self
      rw [List.find?_cons_of_neg (by simpa using hne)] at h
      rw [modifyFirst, if_neg hne, ih h]

theorem Valid.modify {t : HashTable n ε} (h : Valid key hash t) {f : ε → ε}
    (hf : ∀ e, key (f e) = key e) (k : κ) : Valid key hash (modify key hash k f t) := by
  refine ⟨?_, ?_⟩
  · intro i e he
    rcases mem_modify he with hold | ⟨e', he', -, rfl⟩
    · exact h.placed i e hold
    · rw [hf]
      exact h.placed i e' he'
  · intro i
    unfold HashTable.modify
    by_cases hi : i = hash k
    · subst hi
      rw [Function.update_self, map_modifyFirst hf]
      exact h.nodup _
    · rw [Function.update_of_ne hi]
      exact h.nodup i

theorem modify_of_not_found {f : ε → ε} {k : κ} {t : HashTable n ε}
    (h : find key hash t k = none) : modify key hash k f t = t := by
  unfold modify
  rw [modifyFirst_of_not_mem h, Function.update_eq_self]

/-! ### What is found after each operation -/

theorem find_insertNew (t : HashTable n ε) (e : ε) (k : κ) :
    find key hash (insertNew key hash e t) k
      = if k = key e then some ((find key hash t k).getD e) else find key hash t k := by
  unfold insertNew
  by_cases hk : k = key e
  · subst hk
    rw [if_pos rfl]
    rcases hf : find key hash t (key e) with _ | e'
    · simp [find]
    · simp [hf]
  · rw [if_neg hk]
    split
    · rfl
    · unfold find
      by_cases hi : hash k = hash (key e)
      · have hne : ¬ key e = k := fun h => hk h.symm
        rw [hi, Function.update_self, List.find?_cons_of_neg (by simpa using hne)]
      · rw [Function.update_of_ne hi]

/-- What is not in a table is not there when entries have been dropped. -/
theorem find_keep_none {t : HashTable n ε} {p : ε → Bool} {k : κ} (h : find key hash t k = none) :
    find key hash (keep p t) k = none := by
  refine List.find?_eq_none.mpr fun e he => ?_
  exact List.find?_eq_none.mp h e (List.mem_filter.mp he).1

/-- What is found in a table and passes the test is found when the others are dropped. -/
theorem find_keep_some {t : HashTable n ε} {p : ε → Bool} {k : κ} {e : ε}
    (h : find key hash t k = some e) (hp : p e = true) :
    find key hash (keep p t) k = some e := by
  unfold find at h
  obtain ⟨hkey, front, back, hsplit, hfront⟩ := List.find?_eq_some_iff_append.mp h
  unfold find keep
  have hnone : (front.filter p).find? (fun e => key e = k) = none := by
    refine List.find?_eq_none.mpr fun e' he' => ?_
    simpa using hfront e' (List.mem_filter.mp he').1
  rw [hsplit, List.filter_append, List.filter_cons_of_pos hp, List.find?_append, hnone,
    Option.none_or]
  exact List.find?_cons_of_pos hkey

theorem find_keep {t : HashTable n ε} (h : Valid key hash t) (p : ε → Bool) (k : κ) :
    find key hash (keep p t) k = (find key hash t k).filter p := by
  rcases hf : find key hash t k with _ | e
  · rw [Option.filter_none]
    exact find_keep_none hf
  · by_cases hp : p e = true
    · rw [Option.filter_some, if_pos hp]
      exact find_keep_some hf hp
    · rw [Option.filter_some, if_neg hp]
      -- whatever else is found by this key would be the entry dropped
      obtain ⟨he, hkey⟩ := find_eq_some hf
      subst hkey
      refine List.find?_eq_none.mpr fun e' he' hk' => hp ?_
      obtain ⟨hmem, hp'⟩ := List.mem_filter.mp he'
      have heq : e' = e := List.inj_on_of_nodup_map (h.nodup _) hmem he (by simpa using hk')
      rw [← heq]
      exact hp'

theorem find_modifyFirst {f : ε → ε} (hf : ∀ e, key (f e) = key e) (k k' : κ) (es : List ε) :
    (modifyFirst key k f es).find? (fun e => key e = k')
      = if k' = k then (es.find? (fun e => key e = k')).map f
        else es.find? (fun e => key e = k') := by
  induction es with
  | nil => simp [modifyFirst]
  | cons e es ih =>
      unfold modifyFirst
      by_cases hk : key e = k
      · rw [if_pos hk]
        by_cases hk' : k' = k
        · subst hk'
          rw [List.find?_cons_of_pos (by simpa [hf] using hk),
            List.find?_cons_of_pos (by simpa using hk)]
          simp
        · have hne : ¬ key e = k' := fun h => hk' (h.symm.trans hk)
          rw [List.find?_cons_of_neg (by simpa [hf] using hne),
            List.find?_cons_of_neg (by simpa using hne), if_neg hk']
      · rw [if_neg hk]
        by_cases hk' : key e = k'
        · have hne : ¬ k' = k := fun h => hk (hk'.trans h)
          rw [List.find?_cons_of_pos (by simpa using hk'),
            List.find?_cons_of_pos (by simpa using hk'), if_neg hne]
        · rw [List.find?_cons_of_neg (by simpa using hk'),
            List.find?_cons_of_neg (by simpa using hk'), ih]

theorem find_modify {f : ε → ε} (hf : ∀ e, key (f e) = key e) (t : HashTable n ε) (k k' : κ) :
    find key hash (modify key hash k f t) k'
      = if k' = k then (find key hash t k').map f else find key hash t k' := by
  unfold find modify
  by_cases hi : hash k' = hash k
  · rw [hi, Function.update_self, find_modifyFirst hf]
  · have hne : ¬ k' = k := fun h => hi (congrArg hash h)
    rw [Function.update_of_ne hi, if_neg hne]

/-! ### The map a table stands for -/

/-- Each key's entry, as the value `val` makes of it. -/
def toMap {α : Type u} (key : ε → κ) (hash : κ → Fin n) (val : ε → α) (t : HashTable n ε) :
    FiniteMap κ α where
  get k := (find key hash t k).map val
  finite := by
    refine (List.finite_toSet ((entries t).map key)).subset fun k hk => ?_
    rcases hf : find key hash t k with _ | e
    · simp [hf] at hk
    · obtain ⟨he, rfl⟩ := find_eq_some hf
      exact List.mem_map.mpr ⟨e, mem_entries.mpr ⟨_, he⟩, rfl⟩

@[simp] theorem get_toMap {α : Type u} (val : ε → α) (t : HashTable n ε) (k : κ) :
    (toMap key hash val t).get k = (find key hash t k).map val := rfl

end HashTable
