/-
Lists of cache entries on the heap.

Each bucket is a list of entries laid out through their `next` fields, and every entry
has its own two strings: `Holds` says so.  It depends on the blocks only up to the
links, so it is kept by the unlinking of an entry, which writes one link, and by the
freeing of anything the listed entries are not made of.
-/
import DnsServer.Code.CleanUpHeap
import DnsServer.Lib.LinkedList

namespace DnsServer

open Call LinkedList

/-! ### Blocks, but for their links -/

namespace Block

variable {block block' : Block} {fields : HeapEntry} {a : Nat} {now : Int}

/-- The block without the field that links it. -/
def unlinked : Block → Block
  | .entry fields => .entry { fields with next := none }
  | block => block

/-- What the entry at an address is made of, in the order in which it is freed. -/
def parts (a : Nat) : Block → List Nat
  | .entry fields => [fields.domainName, fields.recordValue, a]
  | _ => []

/-- The entry has lived its time. -/
def expired (now : Int) : Block → Bool
  | .entry fields => decide (now - fields.timestamp ≥ fields.ttl)
  | _ => false

theorem parts_unlinked : block.unlinked.parts a = block.parts a := by cases block <;> rfl

theorem expired_unlinked : block.unlinked.expired now = block.expired now := by
  cases block <;> rfl

theorem asString_unlinked : block.unlinked.asString = block.asString := by cases block <;> rfl

theorem parts_congr (h : block'.unlinked = block.unlinked) : block'.parts a = block.parts a := by
  rw [← parts_unlinked, h, parts_unlinked]

theorem expired_congr (h : block'.unlinked = block.unlinked) :
    block'.expired now = block.expired now := by
  rw [← expired_unlinked, h, expired_unlinked]

theorem asString_congr (h : block'.unlinked = block.unlinked) :
    block'.asString = block.asString := by
  rw [← asString_unlinked, h, asString_unlinked]

theorem asEntry_eq_some_iff : block.asEntry = some fields ↔ block = .entry fields := by
  cases block <;> simp [asEntry]

theorem unlinked_eq_freed_iff : block.unlinked = .freed ↔ block = .freed := by
  cases block <;> simp [unlinked]

/-- Where blocks differ in a link only, an entry is an entry still. -/
theorem entry_of_unlinked (h : block'.unlinked = block.unlinked) (hentry : block = .entry fields) :
    ∃ next, block' = .entry { fields with next } := by
  subst hentry
  rcases block' with _ | fields' | _ | _
  · simp [unlinked] at h
  · refine ⟨fields'.next, ?_⟩
    simp only [unlinked, entry.injEq, HeapEntry.mk.injEq, and_true] at h
    obtain ⟨hdomain, hrecord, httl, htime⟩ := h
    rw [← hdomain, ← hrecord, ← httl, ← htime]
  · simp [unlinked] at h
  · simp [unlinked] at h

end Block

namespace CacheHeap

variable {s s₁ s₂ : CacheHeap} {lists : Fin maxCache → List Nat} {i : Fin maxCache}
  {a b entry : Nat} {fields : HeapEntry} {now : Int}

/-- The next field of an entry. -/
def next (s : CacheHeap) (a : Nat) : Option (Option Nat) :=
  (s.blocks a).asEntry.map HeapEntry.next

def parts (s : CacheHeap) (a : Nat) : List Nat := (s.blocks a).parts a

def expired (s : CacheHeap) (now : Int) (a : Nat) : Bool := (s.blocks a).expired now

theorem parts_entry (h : s.blocks a = .entry fields) :
    s.parts a = [fields.domainName, fields.recordValue, a] := by
  unfold parts
  rw [h]
  rfl

/-- The buckets are these lists of entries, disjoint, and every entry has strings of its own. -/
structure Holds (s : CacheHeap) (lists : Fin maxCache → List Nat) : Prop where
  head : ∀ i, s.buckets i = (lists i).head?
  linked : ∀ i, Linked s.next (lists i)
  disjoint : ∀ i j a, a ∈ lists i → a ∈ lists j → i = j
  strings : ∀ i, ∀ a ∈ lists i, ∀ fields, s.blocks a = .entry fields →
    (s.blocks fields.domainName).asString ≠ none ∧ (s.blocks fields.recordValue).asString ≠ none
  apart : ∀ i, ∀ a ∈ lists i, (s.parts a).Nodup
  own : ∀ i j a b x, a ∈ lists i → b ∈ lists j → x ∈ s.parts a → x ∈ s.parts b → a = b

namespace Holds

theorem isEntry (h : s.Holds lists) (ha : a ∈ lists i) : ∃ fields, s.blocks a = .entry fields := by
  obtain ⟨pre, suf, hsplit⟩ := List.append_of_mem ha
  have hlinked := h.linked i
  rw [hsplit] at hlinked
  obtain ⟨fields, hfields, -⟩ := Option.map_eq_some_iff.mp hlinked.next_eq
  exact ⟨fields, Block.asEntry_eq_some_iff.mp hfields⟩

theorem mem_parts (h : s.Holds lists) (ha : a ∈ lists i) : a ∈ s.parts a := by
  obtain ⟨fields, hfields⟩ := h.isEntry ha
  rw [parts_entry hfields]
  simp

theorem congr {lists₁ : Fin maxCache → List Nat} (h : s.Holds lists)
    (heq : ∀ i, lists i = lists₁ i) : s.Holds lists₁ := by
  rw [← funext heq]
  exact h

/-- Lists within these, laid out where nothing they are made of has changed but for links. -/
theorem of_unlinked {lists₁ : Fin maxCache → List Nat} (h : s.Holds lists)
    (hsub : ∀ i, ∀ a ∈ lists₁ i, a ∈ lists i)
    (hsame : ∀ i, ∀ a ∈ lists₁ i, ∀ b ∈ s.parts a,
      (s₁.blocks b).unlinked = (s.blocks b).unlinked)
    (hhead : ∀ i, s₁.buckets i = (lists₁ i).head?) (hlinked : ∀ i, Linked s₁.next (lists₁ i)) :
    s₁.Holds lists₁ := by
  have hparts : ∀ i, ∀ a ∈ lists₁ i, s₁.parts a = s.parts a :=
    fun i a ha => Block.parts_congr (hsame i a ha a (h.mem_parts (hsub i a ha)))
  refine ⟨hhead, hlinked, ?_, ?_, ?_, ?_⟩
  · intro i j a hi hj
    exact h.disjoint i j a (hsub i a hi) (hsub j a hj)
  · intro i a ha fields₁ hfields₁
    obtain ⟨fields, hfields⟩ := h.isEntry (hsub i a ha)
    obtain ⟨next, hblock⟩ :=
      Block.entry_of_unlinked (hsame i a ha a (h.mem_parts (hsub i a ha))) hfields
    rw [hfields₁, Block.entry.injEq] at hblock
    subst hblock
    have hmem : fields.domainName ∈ s.parts a ∧ fields.recordValue ∈ s.parts a := by
      rw [parts_entry hfields]
      simp
    rw [Block.asString_congr (hsame i a ha _ hmem.1), Block.asString_congr (hsame i a ha _ hmem.2)]
    exact h.strings i a (hsub i a ha) fields hfields
  · intro i a ha
    rw [hparts i a ha]
    exact h.apart i a (hsub i a ha)
  · intro i j a b x ha hb hxa hxb
    rw [hparts i a ha] at hxa
    rw [hparts j b hb] at hxb
    exact h.own i j a b x (hsub i a ha) (hsub j b hb) hxa hxb

end Holds

/-! ### Freeing -/

theorem blocks_release : (s.release a).blocks b = if b = a then .freed else s.blocks b := by
  show Function.update s.blocks a .freed b = _
  rw [Function.update_apply]

theorem releases_blocks {addresses : List Nat} : ∀ {s : CacheHeap},
    (addresses.foldl release s).blocks b = if b ∈ addresses then .freed else s.blocks b := by
  induction addresses with
  | nil => intro s; simp
  | cons a addresses ih =>
      intro s
      rw [List.foldl_cons, ih, blocks_release]
      by_cases hmem : b ∈ addresses
      · rw [if_pos hmem, if_pos (List.mem_cons_of_mem a hmem)]
      · rw [if_neg hmem]
        by_cases heq : b = a
        · rw [if_pos heq, if_pos (by rw [heq]; exact List.mem_cons_self)]
        · rw [if_neg heq, if_neg (by rw [List.mem_cons]; tauto)]

theorem releases_frees {addresses : List Nat} : ∀ {s : CacheHeap},
    (addresses.foldl release s).frees = s.frees ++ addresses := by
  induction addresses with
  | nil => intro s; simp
  | cons a addresses ih =>
      intro s
      rw [List.foldl_cons, ih]
      simp [release]

theorem releases_buckets {addresses : List Nat} : ∀ {s : CacheHeap},
    (addresses.foldl release s).buckets = s.buckets := by
  induction addresses with
  | nil => intro s; rfl
  | cons a addresses ih => intro s; exact ih

/-- The lists are kept when what they are made of is not freed. -/
theorem Holds.releases {addresses : List Nat} (h : s.Holds lists)
    (hfree : ∀ i, ∀ a ∈ lists i, ∀ b ∈ s.parts a, b ∉ addresses) :
    (addresses.foldl release s).Holds lists := by
  refine h.of_unlinked (fun i a ha => ha) ?_ ?_ ?_
  · intro i a ha b hb
    rw [releases_blocks, if_neg (hfree i a ha b hb)]
  · intro i
    rw [releases_buckets]
    exact h.head i
  · intro i
    refine (h.linked i).congr fun a ha => ?_
    unfold next
    rw [releases_blocks, if_neg (hfree i a ha a (h.mem_parts ha))]

theorem free_eq (h : (∃ fields, s.blocks a = .entry fields) ∨ (s.blocks a).asString ≠ none) :
    s.free a = done (s.release a) := by
  unfold free
  rcases hblock : s.blocks a with _ | fields | bytes | _
  · rw [hblock] at h
    simp [Block.asString] at h
  · rfl
  · rfl
  · rw [hblock] at h
    simp [Block.asString] at h

theorem read_eq (h : s.blocks a = .entry fields) : s.read a = done fields := by
  unfold read
  rw [h]
  rfl

/-- An entry with strings of its own is freed with them. -/
theorem freeEntry_eq (h : s.blocks a = .entry fields) (hparts : (s.parts a).Nodup)
    (hdomain : (s.blocks fields.domainName).asString ≠ none)
    (hrecord : (s.blocks fields.recordValue).asString ≠ none) :
    s.freeEntry a = done ((s.parts a).foldl release s) := by
  rw [parts_entry h] at hparts ⊢
  simp only [List.nodup_cons, List.mem_cons, List.not_mem_nil, or_false, not_or] at hparts
  obtain ⟨⟨hne, hda⟩, hra, -⟩ := hparts
  have h₁ : (s.release fields.domainName).blocks a = .entry fields := by
    rw [blocks_release, if_neg (Ne.symm hda)]
    exact h
  have hrecord₁ : ((s.release fields.domainName).blocks fields.recordValue).asString ≠ none := by
    rw [blocks_release, if_neg (Ne.symm hne)]
    exact hrecord
  have h₂ : ((s.release fields.domainName).release fields.recordValue).blocks a
      = .entry fields := by
    rw [blocks_release, if_neg (Ne.symm hra)]
    exact h₁
  unfold freeEntry
  rw [read_eq h, done_bind, free_eq (Or.inr hdomain), done_bind, read_eq h₁, done_bind,
    free_eq (Or.inr hrecord₁), done_bind, free_eq (Or.inl ⟨fields, h₂⟩)]
  rfl

/-! ### Unlinking -/

theorem Holds.next_eq {pre suf : List Nat} (h : s.Holds lists)
    (hsplit : lists i = pre ++ a :: suf) (hfields : s.blocks a = .entry fields) :
    fields.next = suf.head? := by
  have hlinked := h.linked i
  rw [hsplit] at hlinked
  have hfollowing := hlinked.next_eq
  unfold next at hfollowing
  rw [hfields] at hfollowing
  exact Option.some.inj hfollowing

/-- What is in the lists without an entry is in the lists. -/
theorem mem_of_taken {pre suf : List Nat} (hsplit : lists i = pre ++ a :: suf) {j : Fin maxCache}
    (hb : b ∈ Function.update lists i (pre ++ suf) j) : b ∈ lists j := by
  by_cases hj : j = i
  · subst hj
    rw [Function.update_self] at hb
    rw [hsplit]
    rcases List.mem_append.mp hb with hpre | hsuf
    · exact List.mem_append_left _ hpre
    · exact List.mem_append_right pre (List.mem_cons_of_mem a hsuf)
  · rw [Function.update_of_ne hj] at hb
    exact hb

/-- The first entry of a bucket is taken out by a write to the bucket. -/
theorem Holds.unlinkHead {suf : List Nat} (h : s.Holds lists) (hsplit : lists i = a :: suf)
    (hfields : s.blocks a = .entry fields) :
    CacheHeap.Holds { s with buckets := Function.update s.buckets i fields.next }
      (Function.update lists i suf) := by
  have hsplit' : lists i = [] ++ a :: suf := hsplit
  refine h.of_unlinked (fun j b hb => mem_of_taken hsplit' hb) (fun _ _ _ _ _ => rfl) ?_ ?_
  · intro j
    show Function.update s.buckets i fields.next j = _
    by_cases hj : j = i
    · subst hj
      rw [Function.update_self, Function.update_self]
      exact h.next_eq hsplit' hfields
    · rw [Function.update_of_ne hj, Function.update_of_ne hj]
      exact h.head j
  · intro j
    by_cases hj : j = i
    · subst hj
      have hlinked := h.linked j
      rw [hsplit] at hlinked
      rw [Function.update_self]
      exact hlinked.2
    · rw [Function.update_of_ne hj]
      exact h.linked j

theorem unlinked_put {next : Option Nat} (h : s.blocks a = .entry fields) (b : Nat) :
    ((s.put a (.entry { fields with next })).blocks b).unlinked = (s.blocks b).unlinked := by
  show (Function.update s.blocks a _ b).unlinked = _
  by_cases hb : b = a
  · rw [hb, Function.update_self, h]
    rfl
  · rw [Function.update_of_ne hb]

theorem next_put {next : Option Nat} :
    (s.put a (.entry { fields with next })).next = Function.update s.next a (some next) := by
  funext b
  show (Function.update s.blocks a _ b).asEntry.map HeapEntry.next = _
  by_cases hb : b = a
  · rw [hb, Function.update_self, Function.update_self]
    rfl
  · rw [Function.update_of_ne hb, Function.update_of_ne hb]
    rfl

/-- Any other is taken out by a write to the field of the entry before it. -/
theorem Holds.unlinkAfter {front suf : List Nat} {previous : Nat} {fields₁ : HeapEntry}
    (h : s.Holds lists) (hsplit : lists i = front ++ previous :: a :: suf)
    (hfields : s.blocks a = .entry fields) (hfields₁ : s.blocks previous = .entry fields₁) :
    (s.put previous (.entry { fields₁ with next := fields.next })).Holds
      (Function.update lists i (front ++ previous :: suf)) := by
  have hlinked := h.linked i
  rw [hsplit] at hlinked
  have hsplit' : lists i = (front ++ [previous]) ++ a :: suf := by
    rw [hsplit, List.append_assoc]
    rfl
  have hlists : front ++ previous :: suf = (front ++ [previous]) ++ suf := by
    rw [List.append_assoc]
    rfl
  refine h.of_unlinked ?_ (fun _ _ _ b _ => unlinked_put hfields₁ b) ?_ ?_
  · intro j b hb
    rw [hlists] at hb
    exact mem_of_taken hsplit' hb
  · intro j
    show s.buckets j = _
    rw [h.head j]
    by_cases hj : j = i
    · subst hj
      rw [Function.update_self, hsplit]
      rcases front with _ | ⟨c, front⟩
      · rfl
      · rfl
    · rw [Function.update_of_ne hj]
  · intro j
    rw [next_put, h.next_eq hsplit' hfields]
    by_cases hj : j = i
    · subst hj
      rw [Function.update_self]
      exact hlinked.relink hlinked.nodup
    · rw [Function.update_of_ne hj]
      refine (h.linked j).congr fun b hb => Function.update_of_ne ?_ _ _
      intro heq
      subst heq
      exact hj (h.disjoint j i b hb (by rw [hsplit]; simp))

/-- The entry after the cursor is taken out of its list, and only links change. -/
theorem Holds.unlink {pre suf : List Nat} (h : s.Holds lists) (hsplit : lists i = pre ++ a :: suf)
    (hfields : s.blocks a = .entry fields) :
    ∃ s₁, s.unlink i pre.getLast? fields.next = done s₁ ∧
      s₁.Holds (Function.update lists i (pre ++ suf)) ∧ s₁.frees = s.frees ∧
      s₁.blocks a = s.blocks a ∧ ∀ b, (s₁.blocks b).unlinked = (s.blocks b).unlinked := by
  rcases List.eq_nil_or_concat pre with rfl | ⟨front, previous, rfl⟩
  · exact ⟨_, rfl, h.unlinkHead hsplit hfields, rfl, rfl, fun b => rfl⟩
  · rw [List.concat_eq_append] at hsplit ⊢
    rw [List.append_assoc] at hsplit
    have hprevious : previous ∈ lists i := by
      rw [hsplit]
      simp
    obtain ⟨fields₁, hfields₁⟩ := h.isEntry hprevious
    refine ⟨s.put previous (.entry { fields₁ with next := fields.next }), ?_, ?_, rfl, ?_,
      unlinked_put hfields₁⟩
    · rw [List.getLast?_concat]
      show (s.read previous >>= _) = _
      rw [read_eq hfields₁]
      rfl
    · rw [List.append_assoc]
      exact h.unlinkAfter hsplit hfields hfields₁
    · refine Function.update_of_ne ?_ _ _
      intro heq
      subst heq
      have hnodup := (h.linked i).nodup
      rw [hsplit] at hnodup
      simp [List.nodup_append] at hnodup

/-! ### What has been cleaned -/

/-- The parts of these entries have been freed, in this order, and of no other block has more
changed than a link. -/
structure Cleans (s s₁ : CacheHeap) (gone : List Nat) : Prop where
  frees : s₁.frees = s.frees ++ gone.flatMap s.parts
  freed : ∀ b ∈ gone.flatMap s.parts, s₁.blocks b = .freed
  kept : ∀ b, b ∉ gone.flatMap s.parts → (s₁.blocks b).unlinked = (s.blocks b).unlinked

namespace Cleans

variable {gone gone₁ : List Nat}

theorem refl (s : CacheHeap) : Cleans s s [] :=
  ⟨by simp, fun b hb => by simp at hb, fun b _ => rfl⟩

/-- What is there afterwards was not freed. -/
theorem alive (h : Cleans s s₁ gone) (ha : s₁.blocks a ≠ .freed) :
    (s₁.blocks a).unlinked = (s.blocks a).unlinked :=
  h.kept a fun hmem => ha (h.freed a hmem)

theorem parts_eq (h : Cleans s s₁ gone) (ha : s₁.blocks a ≠ .freed) : s₁.parts a = s.parts a :=
  Block.parts_congr (h.alive ha)

theorem expired_eq (h : Cleans s s₁ gone) (ha : s₁.blocks a ≠ .freed) :
    s₁.expired now a = s.expired now a :=
  Block.expired_congr (h.alive ha)

theorem trans (h : Cleans s s₁ gone) (h₁ : Cleans s₁ s₂ gone₁)
    (halive : ∀ a ∈ gone₁, s₁.blocks a ≠ .freed) : Cleans s s₂ (gone ++ gone₁) := by
  have hparts : gone₁.flatMap s₁.parts = gone₁.flatMap s.parts :=
    List.flatMap_congr fun a ha => h.parts_eq (halive a ha)
  obtain ⟨hfrees₁, hfreed₁, hkept₁⟩ := h₁
  rw [hparts] at hfrees₁ hfreed₁ hkept₁
  refine ⟨?_, ?_, ?_⟩
  · rw [hfrees₁, h.frees, List.flatMap_append, List.append_assoc]
  · intro b hb
    by_cases hlater : b ∈ gone₁.flatMap s.parts
    · exact hfreed₁ b hlater
    · rw [List.flatMap_append, List.mem_append] at hb
      have hfreed := h.freed b (hb.resolve_right hlater)
      have hsame := hkept₁ b hlater
      rw [hfreed] at hsame
      exact Block.unlinked_eq_freed_iff.mp hsame
  · intro b hb
    rw [List.flatMap_append, List.mem_append, not_or] at hb
    rw [hkept₁ b hb.2, h.kept b hb.1]

end Cleans

theorem Holds.not_freed (h : s.Holds lists) (ha : a ∈ lists i) : s.blocks a ≠ .freed := by
  obtain ⟨fields, hfields⟩ := h.isEntry ha
  rw [hfields]
  simp

end CacheHeap

end DnsServer
