/-
A heap of blocks.

A heap is the ledger of an allocator, which is valid, and what each block holds.  Only
a block that is out can be read or freed; anything else is undefined, so a call on the
heap that is never undefined follows no stale pointer and frees nothing twice.

`Changes` is what such calls are reasoned with.  It says which of the blocks that were out
are gone, that the others hold what they held, and how many new ones there are.  Changes
add up, an allocation is one block more, and freeing a block that was not there before
takes one off.  A call that gives back all it took is a change of nothing, whatever was
in the heap it ran in.  `Leaves` also says what the new blocks hold.
-/
import DnsServer.Lib.Ledger
import DnsServer.Lib.Loop
import Mathlib.Logic.Function.Basic

universe u

structure Heap (β : Type u) where
  ledger : Ledger
  contents : Nat → β
  valid : ledger.Valid

namespace Heap

variable {β : Type u} {s s' s₁ s₂ : Heap β} {a b n k : Nat} {block : β}

/-- The addresses that are out. -/
def live (s : Heap β) : List Nat := s.ledger.live

/-- The address the next block gets. -/
def fresh (s : Heap β) : Nat := s.ledger.issued

/-- Nothing has been given out. -/
def empty (contents : Nat → β) : Heap β :=
  { ledger := { issued := 0, freed := [] }
    contents
    valid := ⟨List.nodup_nil, fun _ h => absurd h List.not_mem_nil⟩ }

/-- A new block, by address. -/
def malloc (s : Heap β) (block : β) : Nat × Heap β :=
  (s.fresh,
    { ledger := s.ledger.issue 1
      contents := Function.update s.contents s.fresh block
      valid := s.valid.issue 1 })

/-- A new block where there is room for one, or the null pointer. -/
def mallocIf (s : Heap β) (room : Bool) (block : β) : Option Nat × Heap β :=
  if room then (some s.fresh, (s.malloc block).2) else (none, s)

def read (s : Heap β) (a : Nat) : Call β :=
  if a ∈ s.live then .done (s.contents a) else .undefined

def free (s : Heap β) (a : Nat) : Call (Heap β) :=
  if h : a ∈ s.live then
    .done
      { ledger := s.ledger.takeBack [a]
        contents := s.contents
        valid := s.valid.takeBack (List.nodup_singleton a) fun b hb => by
          rw [List.mem_singleton.mp hb]
          exact h }
  else .undefined

def write (s : Heap β) (a : Nat) (block : β) : Call (Heap β) :=
  if a ∈ s.live then .done { s with contents := Function.update s.contents a block }
  else .undefined

/-- `if (p) free(p)`. -/
def freePointer (s : Heap β) : Option Nat → Call (Heap β)
  | none => .done s
  | some a => s.free a

/-- A block is out and holds this. -/
def Has (s : Heap β) (a : Nat) (block : β) : Prop := a ∈ s.live ∧ s.contents a = block

theorem Has.read_eq (h : s.Has a block) : s.read a = .done block := by
  unfold read
  rw [if_pos h.1, h.2]

/-! ### One operation -/

theorem fresh_not_live : s.fresh ∉ s.live :=
  fun h => Nat.lt_irrefl _ (Ledger.mem_live.mp h).1

theorem mem_live_malloc : a ∈ (s.malloc block).2.live ↔ a = s.fresh ∨ a ∈ s.live := by
  unfold live
  rw [Ledger.mem_live, Ledger.mem_live]
  show a < s.ledger.issued + 1 ∧ a ∉ s.ledger.freed ↔ a = s.ledger.issued ∨ _
  constructor
  · intro h
    obtain ⟨hlt, hfreed⟩ := h
    rcases Nat.lt_succ_iff_lt_or_eq.mp hlt with hlt | heq
    · exact Or.inr ⟨hlt, hfreed⟩
    · exact Or.inl heq
  · intro h
    rcases h with rfl | ⟨hlt, hfreed⟩
    · exact ⟨Nat.lt_succ_self _, fun hmem => Nat.lt_irrefl _ (s.valid.issued _ hmem)⟩
    · exact ⟨Nat.lt_succ_of_lt hlt, hfreed⟩

theorem length_live_malloc : (s.malloc block).2.live.length = s.live.length + 1 := by
  have hbefore := s.valid.length_live
  have hafter := (s.malloc block).2.valid.length_live
  have hissued : (s.malloc block).2.ledger.issued = s.ledger.issued + 1 := rfl
  have hfreed : (s.malloc block).2.ledger.freed = s.ledger.freed := rfl
  rw [hissued, hfreed] at hafter
  unfold live
  omega

theorem has_malloc : (s.malloc block).2.Has s.fresh block :=
  ⟨mem_live_malloc.mpr (Or.inl rfl), Function.update_self _ _ _⟩

/-- What freeing a block that is out comes to. -/
theorem free_eq (ha : a ∈ s.live) :
    ∃ s', s.free a = .done s' ∧ s'.contents = s.contents ∧ s'.fresh = s.fresh ∧
      (∀ b, b ∈ s'.live ↔ b ∈ s.live ∧ b ≠ a) ∧ s'.live.length + 1 = s.live.length := by
  refine ⟨_, dif_pos ha, rfl, rfl, fun b => ?_, ?_⟩
  · unfold live
    rw [Ledger.mem_live, Ledger.mem_live]
    show b < s.ledger.issued ∧ b ∉ s.ledger.freed ++ [a] ↔ _
    rw [List.mem_append, List.mem_singleton, not_or, and_assoc]
  · have hbefore := s.valid.length_live
    have hafter := (s.valid.takeBack (List.nodup_singleton a) fun b hb => by
      rw [List.mem_singleton.mp hb]; exact ha).length_live
    have hfreed : (s.ledger.takeBack [a]).freed.length = s.ledger.freed.length + 1 := by
      show (s.ledger.freed ++ [a]).length = _
      rw [List.length_append, List.length_singleton]
    have hissued : (s.ledger.takeBack [a]).issued = s.ledger.issued := rfl
    rw [hissued, hfreed] at hafter
    show (s.ledger.takeBack [a]).live.length + 1 = s.ledger.live.length
    omega

/-! ### Changes -/

/-- What a call did to the heap: of the blocks that were out all but those that are gone are out
and hold what they held, and there are so many new ones. -/
structure Changes (s s' : Heap β) (gone : List Nat) (n : Nat) : Prop where
  keeps : ∀ a block, a ∉ gone → s.Has a block → s'.Has a block
  were : ∀ a ∈ gone, a ∈ s.live
  away : ∀ a ∈ gone, a ∉ s'.live
  fresh : s.fresh ≤ s'.fresh
  stays : ∀ a, a < s.fresh → a ∉ s.live → a ∉ s'.live
  length : s'.live.length + gone.length = s.live.length + n

namespace Changes

variable {gone gone₁ : List Nat}

theorem refl (s : Heap β) : s.Changes s [] 0 :=
  ⟨fun _ _ _ h => h, fun _ h => absurd h List.not_mem_nil, fun _ h => absurd h List.not_mem_nil,
    Nat.le_refl _, fun _ _ h => h, rfl⟩

theorem trans (h : s.Changes s₁ gone n) (h₁ : s₁.Changes s₂ gone₁ k)
    (hwere : ∀ a ∈ gone₁, a ∈ s.live) : s.Changes s₂ (gone ++ gone₁) (n + k) := by
  refine ⟨fun a block ha hhas => ?_, fun a ha => ?_, fun a ha => ?_, h.fresh.trans h₁.fresh,
    fun a hlt ha => ?_, ?_⟩
  · rw [List.mem_append, not_or] at ha
    exact h₁.keeps a block ha.2 (h.keeps a block ha.1 hhas)
  · exact (List.mem_append.mp ha).elim (h.were a) (hwere a)
  · rcases List.mem_append.mp ha with hold | hnew
    · have hlt : a < s.fresh := (Ledger.mem_live.mp (h.were a hold)).1
      exact h₁.stays a (Nat.lt_of_lt_of_le hlt h.fresh) (h.away a hold)
    · exact h₁.away a hnew
  · exact h₁.stays a (Nat.lt_of_lt_of_le hlt h.fresh) (h.stays a hlt ha)
  · have hfirst := h.length
    have hsecond := h₁.length
    rw [List.length_append]
    omega

/-- The same where the second call frees nothing that was there before the first. -/
theorem andThen (h : s.Changes s₁ gone n) (h₁ : s₁.Changes s₂ [] k) :
    s.Changes s₂ gone (n + k) := by
  have hboth := h.trans h₁ fun a ha => absurd ha List.not_mem_nil
  rw [List.append_nil] at hboth
  exact hboth

theorem live (h : s.Changes s' [] n) (ha : a ∈ s.live) : a ∈ s'.live :=
  (h.keeps a _ List.not_mem_nil ⟨ha, rfl⟩).1

end Changes

theorem changes_malloc (s : Heap β) (block : β) : s.Changes (s.malloc block).2 [] 1 := by
  refine ⟨fun a block' _ h => ⟨mem_live_malloc.mpr (Or.inr h.1), ?_⟩,
    fun _ h => absurd h List.not_mem_nil, fun _ h => absurd h List.not_mem_nil,
    Nat.le_succ _, fun a hlt ha hmem => ?_, length_live_malloc⟩
  · have hne : a ≠ s.fresh := fun heq => fresh_not_live (heq ▸ h.1)
    show Function.update s.contents s.fresh block a = block'
    rw [Function.update_of_ne hne, h.2]
  · rcases mem_live_malloc.mp hmem with rfl | hlive
    · exact Nat.lt_irrefl _ hlt
    · exact ha hlive

/-- Freeing what was there. -/
theorem changes_free (ha : a ∈ s.live) : ∃ s', s.free a = .done s' ∧ s.Changes s' [a] 0 := by
  obtain ⟨s', hfree, hcontents, hfresh, hlives, hlength⟩ := free_eq ha
  refine ⟨s', hfree, fun b block hne hb => ⟨?_, ?_⟩, fun b hb => ?_, fun b hb => ?_, ?_,
    fun b _ hb hmem => ?_, hlength⟩
  · exact (hlives b).mpr ⟨hb.1, fun heq => hne (List.mem_singleton.mpr heq)⟩
  · rw [hcontents]
    exact hb.2
  · rw [List.mem_singleton.mp hb]
    exact ha
  · rw [List.mem_singleton.mp hb]
    exact fun hmem => ((hlives a).mp hmem).2 rfl
  · exact Nat.le_of_eq hfresh.symm
  · exact hb ((hlives b).mp hmem).1

/-- Freeing what is new takes one off. -/
theorem Changes.free {gone : List Nat} (h : s.Changes s₁ gone (n + 1)) (hlive : a ∈ s₁.live)
    (hnew : a ∉ s.live) :
    ∃ s₂, s₁.free a = .done s₂ ∧ s.Changes s₂ gone n ∧
      ∀ b block, b ≠ a → s₁.Has b block → s₂.Has b block := by
  obtain ⟨s₂, hfree, hcontents, hfresh, hlives, hlength⟩ := free_eq hlive
  have hkeeps : ∀ b block, b ≠ a → s₁.Has b block → s₂.Has b block := by
    intro b block hne hb
    refine ⟨(hlives b).mpr ⟨hb.1, hne⟩, ?_⟩
    rw [hcontents]
    exact hb.2
  refine ⟨s₂, hfree, ⟨fun b block hgone hb => ?_, h.were, fun b hb hmem => ?_, ?_,
    fun b hlt hb hmem => ?_, ?_⟩, hkeeps⟩
  · exact hkeeps b block (fun heq => hnew (heq ▸ hb.1)) (h.keeps b block hgone hb)
  · exact h.away b hb ((hlives b).mp hmem).1
  · rw [hfresh]
    exact h.fresh
  · exact h.stays b hlt hb ((hlives b).mp hmem).1
  · have hgrown := h.length
    omega

/-- Writing to what is new. -/
theorem Changes.write {gone : List Nat} (h : s.Changes s₁ gone n) (hlive : a ∈ s₁.live)
    (hnew : a ∉ s.live) (block : β) :
    ∃ s₂, s₁.write a block = .done s₂ ∧ s.Changes s₂ gone n ∧ s₂.Has a block ∧
      ∀ b block', b ≠ a → s₁.Has b block' → s₂.Has b block' := by
  have hkeeps : ∀ b block', b ≠ a → s₁.Has b block' →
      Heap.Has { s₁ with contents := Function.update s₁.contents a block } b block' := by
    intro b block' hne hb
    refine ⟨hb.1, ?_⟩
    show Function.update s₁.contents a block b = block'
    rw [Function.update_of_ne hne, hb.2]
  refine ⟨_, if_pos hlive, ⟨fun b block' hgone hb => ?_, h.were, h.away, h.fresh, h.stays,
    h.length⟩, ⟨hlive, Function.update_self _ _ _⟩, hkeeps⟩
  exact hkeeps b block' (fun heq => hnew (heq ▸ hb.1)) (h.keeps b block' hgone hb)

/-! ### What is left -/

/-- The new blocks hold these. -/
structure Leaves (s s' : Heap β) (gone : List Nat) (blocks : List β) : Prop where
  changes : s.Changes s' gone blocks.length
  left : ∃ as : List Nat, as.Nodup ∧ (∀ a ∈ as, a ∉ s.live ∧ a ∈ s'.live) ∧
    as.map s'.contents = blocks

namespace Leaves

variable {gone gone₁ : List Nat} {blocks blocks₁ : List β}

theorem of_changes (h : s.Changes s' gone 0) : s.Leaves s' gone [] :=
  ⟨h, [], List.nodup_nil, fun _ ha => absurd ha List.not_mem_nil, rfl⟩

theorem of_has (h : s.Changes s' gone 1) (hnew : a ∉ s.live) (hhas : s'.Has a block) :
    s.Leaves s' gone [block] := by
  refine ⟨h, [a], List.nodup_singleton a, fun b hb => ?_, congrArg (fun block => [block]) hhas.2⟩
  rw [List.mem_singleton.mp hb]
  exact ⟨hnew, hhas.1⟩

/-- What the first call left the second does not free, for it was not there before the first. -/
theorem trans (h : s.Leaves s₁ gone blocks) (h₁ : s₁.Leaves s₂ gone₁ blocks₁)
    (hwere : ∀ a ∈ gone₁, a ∈ s.live) :
    s.Leaves s₂ (gone ++ gone₁) (blocks ++ blocks₁) := by
  obtain ⟨as, hnodup, has, hblocks⟩ := h.left
  obtain ⟨as₁, hnodup₁, has₁, hblocks₁⟩ := h₁.left
  have hkept : ∀ a ∈ as, s₂.Has a (s₁.contents a) := fun a ha =>
    h₁.changes.keeps a _ (fun hgone => (has a ha).1 (hwere a hgone)) ⟨(has a ha).2, rfl⟩
  have hnew₁ : ∀ a ∈ as₁, a ∉ s.live := by
    intro a ha hlive
    have hlt : a < s.fresh := (Ledger.mem_live.mp hlive).1
    exact h₁.changes.stays a (Nat.lt_of_lt_of_le hlt h.changes.fresh) (has₁ a ha).1 (has₁ a ha).2
  refine ⟨by rw [List.length_append]; exact h.changes.trans h₁.changes hwere, as ++ as₁,
    List.nodup_append.mpr ⟨hnodup, hnodup₁, fun a ha b hb heq => ?_⟩, fun a ha => ?_, ?_⟩
  · exact (has₁ b hb).1 (heq ▸ (has a ha).2)
  · rcases List.mem_append.mp ha with ha | ha
    · exact ⟨(has a ha).1, (hkept a ha).1⟩
    · exact ⟨hnew₁ a ha, (has₁ a ha).2⟩
  · rw [List.map_append, hblocks₁, List.map_congr_left fun a ha => (hkept a ha).2, hblocks]

/-- The same where the second call frees nothing that was there before the first. -/
theorem andThen (h : s.Leaves s₁ gone blocks) (h₁ : s₁.Leaves s₂ [] blocks₁) :
    s.Leaves s₂ gone (blocks ++ blocks₁) := by
  have hboth := h.trans h₁ fun a ha => absurd ha List.not_mem_nil
  rw [List.append_nil] at hboth
  exact hboth

end Leaves

end Heap
