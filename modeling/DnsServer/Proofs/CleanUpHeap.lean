/-
What the cleaning does to the heap.

One turn of the loop takes the entry at the cursor out of its list, frees its three
blocks, and changes no other block but for a link.  The cursor is between the entries
kept and the entries still to be looked at, which is why the pointer to the entry
before must stay when one is taken out.

A turn never touches what was freed: what is freed is in no list, and the turn reads
the listed entries only and the entry it has just taken out.
-/
import DnsServer.Proofs.Cache
import DnsServer.Proofs.CacheHeap
import Mathlib.Data.Fintype.Order

namespace DnsServer

open Call LinkedList

namespace CacheHeap

variable {s s₁ : CacheHeap} {lists : Fin maxCache → List Nat} {i : Fin maxCache} {a : Nat}
  {fields : HeapEntry} {now : Int}

/-! ### The loop -/

/-- A turn at an expired entry takes it out and frees it, and the entry before stays. -/
theorem Holds.turn {pre suf : List Nat} (h : s.Holds lists) (hsplit : lists i = pre ++ a :: suf)
    (hfields : s.blocks a = .entry fields) (hexpired : now - fields.timestamp ≥ fields.ttl) :
    ∃ s₁, s₁.Holds (Function.update lists i (pre ++ suf)) ∧ Cleans s s₁ [a] ∧
      ∀ fuel, cleanUpChain now i (fuel + 1) s pre.getLast? (some a)
        = cleanUpChain now i fuel s₁ pre.getLast? suf.head? := by
  have hmem : a ∈ lists i := by
    rw [hsplit]
    exact List.mem_append_right pre List.mem_cons_self
  have hnodup := (h.linked i).nodup
  rw [hsplit] at hnodup
  obtain ⟨s₁, hunlink, hholds, hfrees, hblock, hsame⟩ := h.unlink hsplit hfields
  have hparts : ∀ b, s₁.parts b = s.parts b := fun b => Block.parts_congr (hsame b)
  obtain ⟨hdomain, hrecord⟩ := h.strings i a hmem fields hfields
  have hfree : s₁.freeEntry a = done ((s.parts a).foldl release s₁) := by
    rw [← hparts a]
    refine freeEntry_eq (by rw [hblock]; exact hfields) ?_ ?_ ?_
    · rw [hparts]
      exact h.apart i a hmem
    · rw [Block.asString_congr (hsame _)]
      exact hdomain
    · rw [Block.asString_congr (hsame _)]
      exact hrecord
  refine ⟨(s.parts a).foldl release s₁, ?_, ?_, ?_⟩
  · refine hholds.releases ?_
    intro j c hc b hb hfreed
    rw [hparts] at hb
    -- a block of a listed entry and of the one taken out: they would be one entry
    have heq := h.own j i c a b (mem_of_taken hsplit hc) hmem hb hfreed
    subst heq
    have hj := h.disjoint j i c (mem_of_taken hsplit hc) hmem
    subst hj
    rw [Function.update_self] at hc
    exact (List.nodup_cons.mp (List.nodup_middle.mp hnodup)).1 hc
  · refine ⟨?_, ?_, ?_⟩
    · rw [releases_frees, hfrees, List.flatMap_singleton]
    · intro b hb
      rw [List.flatMap_singleton] at hb
      rw [releases_blocks, if_pos hb]
    · intro b hb
      rw [List.flatMap_singleton] at hb
      rw [releases_blocks, if_neg hb]
      exact hsame b
  · intro fuel
    obtain ⟨bytes, hbytes⟩ := Option.ne_none_iff_exists'.mp hdomain
    have hprinted : s.readString fields.domainName = done bytes := by
      unfold readString
      rw [hbytes]
    have hread : s₁.read a = done fields := read_eq (by rw [hblock]; exact hfields)
    rw [cleanUpChain, read_eq hfields, done_bind, if_pos hexpired, hprinted, done_bind, hunlink,
      done_bind, hread, done_bind, hfree, done_bind, h.next_eq hsplit hfields]

/-- A turn at any other entry takes the cursor past it. -/
theorem Holds.pass {pre suf : List Nat} (h : s.Holds lists) (hsplit : lists i = pre ++ a :: suf)
    (hfields : s.blocks a = .entry fields) (hfresh : ¬ now - fields.timestamp ≥ fields.ttl)
    (fuel : Nat) :
    cleanUpChain now i (fuel + 1) s pre.getLast? (some a)
      = cleanUpChain now i fuel s (pre ++ [a]).getLast? suf.head? := by
  rw [cleanUpChain, read_eq hfields, done_bind, if_neg hfresh, List.getLast?_concat,
    h.next_eq hsplit hfields]

theorem expired_entry (hfields : s.blocks a = .entry fields) :
    s.expired now a = decide (now - fields.timestamp ≥ fields.ttl) := by
  unfold expired
  rw [hfields]
  rfl

/-- **The loop over a bucket** leaves of it what was kept and what has not expired, in order. -/
theorem Holds.chain {suf : List Nat} : ∀ {s : CacheHeap} {lists : Fin maxCache → List Nat}
    {pre : List Nat}, s.Holds lists → lists i = pre ++ suf →
    ∃ s₁, (∀ fuel, suf.length ≤ fuel →
        cleanUpChain now i (fuel + 1) s pre.getLast? suf.head? = done s₁) ∧
      s₁.Holds (Function.update lists i (pre ++ suf.filter fun a => !s.expired now a)) ∧
      Cleans s s₁ (suf.filter (s.expired now)) := by
  induction suf with
  | nil =>
      intro s lists pre h hsplit
      refine ⟨s, fun fuel _ => rfl, ?_, Cleans.refl s⟩
      rw [List.filter_nil, ← hsplit, Function.update_eq_self]
      exact h
  | cons a suf ih =>
      intro s lists pre h hsplit
      obtain ⟨fields, hfields⟩ : ∃ fields, s.blocks a = .entry fields := by
        refine @Holds.isEntry s lists i a h ?_
        rw [hsplit]
        exact List.mem_append_right pre List.mem_cons_self
      by_cases hexpired : now - fields.timestamp ≥ fields.ttl
      · have hhead : s.expired now a = true := by
          rw [expired_entry hfields]
          exact decide_eq_true hexpired
        obtain ⟨s₁, hholds, hcleans, hturn⟩ := h.turn hsplit hfields hexpired
        obtain ⟨s₂, hrun, hholds₂, hcleans₂⟩ := ih hholds (Function.update_self i _ lists)
        have halive : ∀ b ∈ suf, s₁.blocks b ≠ .freed := by
          intro b hb
          refine @Holds.not_freed s₁ _ i b hholds ?_
          rw [Function.update_self]
          exact List.mem_append_right pre hb
        have hsame : ∀ b ∈ suf, s₁.expired now b = s.expired now b :=
          fun b hb => hcleans.expired_eq (halive b hb)
        rw [List.filter_congr hsame] at hcleans₂
        rw [List.filter_congr fun b hb => congrArg not (hsame b hb), Function.update_idem]
          at hholds₂
        refine ⟨s₂, ?_, ?_, ?_⟩
        · intro fuel hfuel
          obtain ⟨fuel, rfl⟩ : ∃ f, fuel = f + 1 := Nat.exists_eq_add_one_of_ne_zero (by
            rw [List.length_cons] at hfuel
            omega)
          rw [List.head?_cons, hturn]
          exact hrun fuel (by simpa using hfuel)
        · rw [List.filter_cons_of_neg (by simpa using hhead)]
          exact hholds₂
        · rw [List.filter_cons_of_pos hhead]
          exact hcleans.trans hcleans₂ fun b hb => halive b (List.mem_filter.mp hb).1
      · have hhead : s.expired now a = false := by
          rw [expired_entry hfields]
          exact decide_eq_false hexpired
        obtain ⟨s₁, hrun, hholds, hcleans⟩ := @ih s lists (pre ++ [a]) h (by simpa using hsplit)
        refine ⟨s₁, ?_, ?_, ?_⟩
        · intro fuel hfuel
          obtain ⟨fuel, rfl⟩ : ∃ f, fuel = f + 1 := Nat.exists_eq_add_one_of_ne_zero (by
            rw [List.length_cons] at hfuel
            omega)
          rw [List.head?_cons, h.pass hsplit hfields hexpired]
          exact hrun fuel (by simpa using hfuel)
        · rw [List.filter_cons_of_pos (by simpa using hhead)]
          rw [List.append_assoc] at hholds
          exact hholds
        · rw [List.filter_cons_of_neg (by simpa using hhead)]
          exact hcleans

/-- The loop over a bucket, from its head. -/
theorem Holds.bucket (h : s.Holds lists) (i : Fin maxCache) (now : Int) :
    ∃ s₁, (∀ fuel, (lists i).length ≤ fuel →
        cleanUpChain now i (fuel + 1) s none (s.buckets i) = done s₁) ∧
      s₁.Holds (Function.update lists i ((lists i).filter fun a => !s.expired now a)) ∧
      Cleans s s₁ ((lists i).filter (s.expired now)) := by
  rw [h.head i]
  exact @Holds.chain i now (lists i) s lists [] h rfl

/-- The loop over the buckets, as far as these. -/
theorem Holds.buckets {is : List (Fin maxCache)} : is.Nodup → ∀ {s : CacheHeap}
    {lists : Fin maxCache → List Nat}, s.Holds lists →
    ∃ s₁, (∀ fuel, (∀ i, (lists i).length ≤ fuel) →
        is.foldlM (fun s i => cleanUpChain now i (fuel + 1) s none (s.buckets i)) s = done s₁) ∧
      s₁.Holds (fun i => if i ∈ is then (lists i).filter (fun a => !s.expired now a)
        else lists i) ∧
      Cleans s s₁ (is.flatMap fun i => (lists i).filter (s.expired now)) := by
  induction is with
  | nil =>
      intro _ s lists h
      exact ⟨s, fun fuel _ => rfl, by simpa using h, Cleans.refl s⟩
  | cons i is ih =>
      intro hnodup s lists h
      obtain ⟨hnot, hnodup⟩ := List.nodup_cons.mp hnodup
      obtain ⟨s₁, hrun, hholds, hcleans⟩ := h.bucket i now
      obtain ⟨s₂, hrun₂, hholds₂, hcleans₂⟩ := ih hnodup hholds
      have hne : ∀ j ∈ is, j ≠ i := fun j hj heq => hnot (heq ▸ hj)
      have halive : ∀ j ∈ is, ∀ a ∈ lists j, s₁.blocks a ≠ .freed := by
        intro j hj a ha
        refine @Holds.not_freed s₁ _ j a hholds ?_
        rw [Function.update_of_ne (hne j hj)]
        exact ha
      have hsame : ∀ j ∈ is, ∀ a ∈ lists j, s₁.expired now a = s.expired now a :=
        fun j hj a ha => hcleans.expired_eq (halive j hj a ha)
      refine ⟨s₂, ?_, ?_, ?_⟩
      · intro fuel hfuel
        rw [List.foldlM_cons, hrun fuel (hfuel i), done_bind]
        refine hrun₂ fuel fun j => ?_
        by_cases hj : j = i
        · subst hj
          rw [Function.update_self]
          exact Nat.le_trans (List.length_filter_le _ _) (hfuel j)
        · rw [Function.update_of_ne hj]
          exact hfuel j
      · refine hholds₂.congr fun j => ?_
        by_cases hj : j ∈ is
        · rw [if_pos hj, if_pos (List.mem_cons_of_mem i hj), Function.update_of_ne (hne j hj)]
          exact List.filter_congr fun a ha => congrArg not (hsame j hj a ha)
        · rw [if_neg hj]
          by_cases hi : j = i
          · subst hi
            rw [if_pos List.mem_cons_self, Function.update_self]
          · rw [if_neg (by rw [List.mem_cons]; tauto), Function.update_of_ne hi]
      · have hgone : ∀ kept : List Nat,
            is.flatMap (fun j => (Function.update lists i kept j).filter (s₁.expired now))
              = is.flatMap fun j => (lists j).filter (s.expired now) := by
          intro kept
          refine List.flatMap_congr fun j hj => ?_
          rw [Function.update_of_ne (hne j hj)]
          exact List.filter_congr (hsame j hj)
        rw [hgone] at hcleans₂
        rw [List.flatMap_cons]
        refine hcleans.trans hcleans₂ ?_
        intro a ha
        obtain ⟨j, hj, ha⟩ := List.mem_flatMap.mp ha
        exact halive j hj a (List.mem_filter.mp ha).1

/-! ### The cleaning -/

/-- The entries that have lived their time, bucket by bucket. -/
def expiredEntries (s : CacheHeap) (lists : Fin maxCache → List Nat) (now : Int) : List Nat :=
  (List.finRange maxCache).flatMap fun i => (lists i).filter (s.expired now)

/-- The cleaning returns, with the lists without their expired entries. -/
theorem Holds.cleanUp (h : s.Holds lists) (now : Int) :
    ∃ s₁, Settles (fun fuel => dnsCacheCleanUp fuel now s) (done s₁) ∧
      s₁.Holds (fun i => (lists i).filter fun a => !s.expired now a) ∧
      Cleans s s₁ (s.expiredEntries lists now) := by
  obtain ⟨s₁, hrun, hholds, hcleans⟩ :=
    @Holds.buckets now (List.finRange maxCache) (List.nodup_finRange _) s lists h
  obtain ⟨longest, hlongest⟩ := Finite.exists_le fun i => (lists i).length
  refine ⟨s₁, ⟨longest + 1, fun fuel hfuel => ?_⟩, ?_, hcleans⟩
  · obtain ⟨fuel, rfl⟩ : ∃ f, fuel = f + 1 := ⟨fuel - 1, by omega⟩
    exact hrun fuel fun i => Nat.le_trans (hlongest i) (by omega)
  · exact hholds.congr fun i => if_pos (List.mem_finRange i)

theorem Holds.nodup_expiredEntries (h : s.Holds lists) : (s.expiredEntries lists now).Nodup := by
  refine List.nodup_flatMap.mpr ⟨fun i _ => (h.linked i).nodup.filter _, ?_⟩
  refine (List.nodup_finRange maxCache).imp fun {i j} hij => ?_
  intro a hi hj
  exact hij (h.disjoint i j a (List.mem_filter.mp hi).1 (List.mem_filter.mp hj).1)

/-- No two of the blocks freed are one. -/
theorem Holds.nodup_freed (h : s.Holds lists) :
    ((s.expiredEntries lists now).flatMap s.parts).Nodup := by
  have hlisted : ∀ a ∈ s.expiredEntries lists now, ∃ i, a ∈ lists i := by
    intro a ha
    obtain ⟨i, -, hi⟩ := List.mem_flatMap.mp ha
    exact ⟨i, (List.mem_filter.mp hi).1⟩
  refine List.nodup_flatMap.mpr ⟨?_, ?_⟩
  · intro a ha
    obtain ⟨i, hi⟩ := hlisted a ha
    exact h.apart i a hi
  · refine List.Pairwise.imp_of_mem ?_ h.nodup_expiredEntries
    intro a b ha hb hne x hxa hxb
    obtain ⟨i, hi⟩ := hlisted a ha
    obtain ⟨j, hj⟩ := hlisted b hb
    exact hne (h.own i j a b x hi hj hxa hxb)

/-- Each bucket is its list without the expired entries, in order, the others with their fields
but for `next`; of each expired entry the two strings and the entry have been freed, once, and
nothing else has been freed or changed, links apart; and no pointer in the cache leads to what
has been freed. -/
structure CleanedUp (s s₁ : CacheHeap) (lists : Fin maxCache → List Nat) (now : Int) : Prop where
  holds : s₁.Holds fun i => (lists i).filter fun a => !s.expired now a
  kept : ∀ i, ∀ a ∈ lists i, s.expired now a = false →
    ∃ fields next, s.blocks a = .entry fields ∧ s₁.blocks a = .entry { fields with next }
  frees : s₁.frees = s.frees ++ (s.expiredEntries lists now).flatMap s.parts
  once : ((s.expiredEntries lists now).flatMap s.parts).Nodup
  others : ∀ b, b ∉ (s.expiredEntries lists now).flatMap s.parts →
    (s₁.blocks b).unlinked = (s.blocks b).unlinked
  unreachable : ∀ i a, ComesTo s₁.next (s₁.buckets i) a → s₁.blocks a ≠ .freed

/--
**Eviction unlinks exactly the expired entries.**  On every heap whose buckets are disjoint
lists of entries with strings of their own, whatever the clock, the cleaning comes to its end,
without an access to anything freed, and leaves the heap cleaned up.
-/
theorem cleanUp_unlinks_expired (s : CacheHeap) (lists : Fin maxCache → List Nat)
    (h : s.Holds lists) (now : Int) :
    ∃ s₁, Settles (fun fuel => dnsCacheCleanUp fuel now s) (done s₁) ∧
      CleanedUp s s₁ lists now := by
  obtain ⟨s₁, hsettles, hholds, hcleans⟩ := h.cleanUp now
  refine ⟨s₁, hsettles, hholds, ?_, hcleans.frees, h.nodup_freed, hcleans.kept, ?_⟩
  · intro i a ha hfresh
    obtain ⟨fields, hfields⟩ := h.isEntry ha
    have hkept : a ∈ (lists i).filter fun a => !s.expired now a :=
      List.mem_filter.mpr ⟨ha, by rw [hfresh]; rfl⟩
    have halive := @Holds.not_freed s₁ _ i a hholds hkept
    obtain ⟨next, hblock⟩ := Block.entry_of_unlinked (hcleans.alive halive) hfields
    exact ⟨fields, next, hfields, hblock⟩
  · intro i a hreach
    rw [hholds.head i] at hreach
    exact hholds.not_freed ((comesTo_iff_mem (hholds.linked i)).mp hreach)

/-- Three entries in one bucket, of which the first and the last have expired at 60. -/
def exampleHeap : CacheHeap where
  buckets i := if i.val = 0 then some 0 else none
  blocks
    | 0 => .entry { domainName := 1, recordValue := 2, ttl := 50, timestamp := 0, next := some 3 }
    | 1 => .string (ascii "one.test")
    | 2 => .string (ascii "1.1.1.1")
    | 3 => .entry { domainName := 4, recordValue := 5, ttl := 50, timestamp := 30, next := some 6 }
    | 4 => .string (ascii "two.test")
    | 5 => .string (ascii "2.2.2.2")
    | 6 => .entry { domainName := 7, recordValue := 8, ttl := 50, timestamp := 10, next := none }
    | 7 => .string (ascii "three.test")
    | 8 => .string (ascii "3.3.3.3")
    | _ => .unused
  frees := []

def exampleLists (i : Fin maxCache) : List Nat := if i.val = 0 then [0, 3, 6] else []

theorem exampleLists_mem (ha : a ∈ exampleLists i) : i.val = 0 ∧ (a = 0 ∨ a = 3 ∨ a = 6) := by
  unfold exampleLists at ha
  by_cases hi : i.val = 0
  · rw [if_pos hi] at ha
    exact ⟨hi, by simpa using ha⟩
  · rw [if_neg hi] at ha
    exact absurd ha List.not_mem_nil

theorem exampleHeap_holds : exampleHeap.Holds exampleLists := by
  refine ⟨?_, ?_, ?_, ?_, ?_, ?_⟩
  · intro i
    show (if i.val = 0 then some 0 else none) = (exampleLists i).head?
    unfold exampleLists
    split <;> rfl
  · intro i
    unfold exampleLists
    split
    · exact ⟨rfl, rfl, rfl, trivial⟩
    · trivial
  · intro i j a hi hj
    exact Fin.ext ((exampleLists_mem hi).1.trans (exampleLists_mem hj).1.symm)
  · intro i a ha fields hfields
    rcases (exampleLists_mem ha).2 with rfl | rfl | rfl
    all_goals
      cases hfields
      exact ⟨Option.some_ne_none _, Option.some_ne_none _⟩
  · intro i a ha
    rcases (exampleLists_mem ha).2 with rfl | rfl | rfl
    all_goals simp [parts, exampleHeap, Block.parts]
  · intro i j a b x ha hb hxa hxb
    rcases (exampleLists_mem ha).2 with rfl | rfl | rfl
    all_goals
      rcases (exampleLists_mem hb).2 with rfl | rfl | rfl
      all_goals
        simp only [parts, exampleHeap, Block.parts, List.mem_cons, List.not_mem_nil, or_false]
          at hxa hxb
        omega

theorem cleanUp_unlinks_expired_example :
    ∃ s₁, Settles (fun fuel => dnsCacheCleanUp fuel 60 exampleHeap) (done s₁) ∧
      CleanedUp exampleHeap s₁ exampleLists 60 :=
  cleanUp_unlinks_expired exampleHeap exampleLists exampleHeap_holds 60

/-! ### The cleaning of the lists is the cleaning of the cache -/

/-- The entry, with its strings. -/
def contents (s : CacheHeap) (a : Nat) : Option CacheEntry := do
  let fields ← (s.blocks a).asEntry
  let domainName ← (s.blocks fields.domainName).asString
  let recordValue ← (s.blocks fields.recordValue).asString
  return { domainName, recordValue, ttl := fields.ttl, timestamp := fields.timestamp }

/-- The heap holds lists whose entries are the cache's. -/
def Represents (s : CacheHeap) (lists : Fin maxCache → List Nat) (cache : DNSCache) : Prop :=
  s.Holds lists ∧ ∀ i, (lists i).map s.contents = (cache.buckets i).map some

theorem expired_of_contents {e : CacheEntry} (h : s.contents a = some e) :
    s.expired now a = decide (now - e.timestamp ≥ e.ttl) := by
  unfold contents at h
  obtain ⟨fields, hfields, h⟩ := Option.bind_eq_some_iff.mp h
  obtain ⟨domainName, -, h⟩ := Option.bind_eq_some_iff.mp h
  obtain ⟨recordValue, -, h⟩ := Option.bind_eq_some_iff.mp h
  rw [expired_entry (Block.asEntry_eq_some_iff.mp hfields), ← Option.some.inj h]

theorem contents_of_unlinked (hfields : s.blocks a = .entry fields)
    (hsame : ∀ b ∈ s.parts a, (s₁.blocks b).unlinked = (s.blocks b).unlinked) :
    s₁.contents a = s.contents a := by
  have hparts := parts_entry hfields
  have hstring : ∀ b ∈ s.parts a, (s₁.blocks b).asString = (s.blocks b).asString :=
    fun b hb => Block.asString_congr (hsame b hb)
  obtain ⟨next, hblock⟩ := Block.entry_of_unlinked (hsame a (by rw [hparts]; simp)) hfields
  have hdomain := hstring fields.domainName (by rw [hparts]; simp)
  have hrecord := hstring fields.recordValue (by rw [hparts]; simp)
  unfold contents
  rw [hfields, hblock]
  simp only [Block.asEntry, Option.bind_eq_bind, Option.bind_some, hdomain, hrecord]

theorem filter_contents {as : List Nat} : ∀ {bucket : List CacheEntry},
    as.map s.contents = bucket.map some →
    (as.filter fun a => !s.expired now a).map s.contents = (cleanUpBucket now bucket).map some := by
  induction as with
  | nil =>
      intro bucket h
      rcases bucket with _ | ⟨e, bucket⟩
      · rfl
      · simp at h
  | cons a as ih =>
      intro bucket h
      rcases bucket with _ | ⟨e, bucket⟩
      · simp at h
      · rw [List.map_cons, List.map_cons, List.cons.injEq] at h
        obtain ⟨ha, has⟩ := h
        unfold cleanUpBucket
        by_cases hexpired : now - e.timestamp ≥ e.ttl
        · rw [if_pos hexpired, List.filter_cons_of_neg]
          · exact ih has
          · rw [expired_of_contents ha, decide_eq_true hexpired]
            simp
        · rw [if_neg hexpired, List.filter_cons_of_pos, List.map_cons, List.map_cons, ha, ih has]
          rw [expired_of_contents ha, decide_eq_false hexpired]
          rfl

/-- **The heap refines the cache**: cleaned, it represents the cache cleaned. -/
theorem represents_cleanUp {cache : DNSCache} (h : s.Represents lists cache) (now : Int) :
    ∃ s₁, Settles (fun fuel => dnsCacheCleanUp fuel now s) (done s₁) ∧
      s₁.Represents (fun i => (lists i).filter fun a => !s.expired now a)
        (DnsServer.dnsCacheCleanUp now cache) := by
  obtain ⟨hholds, hcontents⟩ := h
  obtain ⟨s₁, hsettles, hholds₁, hcleans⟩ := hholds.cleanUp now
  refine ⟨s₁, hsettles, hholds₁, fun i => ?_⟩
  show _ = (cleanUpBucket now (cache.buckets i)).map some
  rw [← filter_contents (hcontents i)]
  refine List.map_congr_left fun a ha => ?_
  obtain ⟨hmem, hfresh⟩ := List.mem_filter.mp ha
  obtain ⟨fields, hfields⟩ := hholds.isEntry hmem
  refine contents_of_unlinked hfields fun b hb => hcleans.kept b ?_
  intro hgone
  -- what is freed is of an expired entry, and no other has it
  obtain ⟨c, hc, hbc⟩ := List.mem_flatMap.mp hgone
  obtain ⟨j, -, hc⟩ := List.mem_flatMap.mp hc
  obtain ⟨hcmem, hcexpired⟩ := List.mem_filter.mp hc
  have heq := hholds.own i j a c b hmem hcmem hb hbc
  rw [← heq] at hcexpired
  rw [hcexpired] at hfresh
  exact absurd hfresh (by simp)

end CacheHeap

end DnsServer
