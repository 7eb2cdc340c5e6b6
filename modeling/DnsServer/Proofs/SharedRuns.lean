/-
Runs of the shared cache in which no worker spoils another's lists.

`Kept` puts together what the buckets hold, what each worker relies on, and that the
nodes workers have to themselves are in no list and are not shared.  Every step that
meets the condition keeps it, and what the buckets hold then is known from the links
and unlinks alone.
-/
import DnsServer.Proofs.SharedCache
import Mathlib.Data.List.Induction

namespace DnsServer

open LinkedList Runs

variable {κ : Type}

/-! ### The view after a write -/

section Writes

variable {s : SharedCache κ} {a x : Nat} {cell : Cell} {node node' : CacheNode}

theorem SharedCache.node_of_live (h : s.heap a = .live node) : s.node a = some node := by
  unfold SharedCache.node
  rw [h]
  rfl

theorem SharedCache.view_record (h : s.node a = some node) :
    s.view.record a = node.recordValue := by
  show (s.node a).bind CacheNode.recordValue = _
  rw [h]
  rfl

theorem SharedCache.node_write : (s.write x cell).node x = cell.node := by
  show (Function.update s.heap x cell x).node = _
  rw [Function.update_self]

theorem SharedCache.node_write_of_ne (hne : a ≠ x) : (s.write x cell).node a = s.node a := by
  show (Function.update s.heap x cell a).node = (s.heap a).node
  rw [Function.update_of_ne hne]

theorem SharedCache.same_write (hne : a ≠ x) : s.view.Same (s.write x cell).view a := by
  refine ⟨?_, ?_, ?_⟩
  · show ((s.write x cell).node a).bind CacheNode.domainName = _
    rw [SharedCache.node_write_of_ne hne]
    rfl
  · show ((s.write x cell).node a).bind CacheNode.recordValue = _
    rw [SharedCache.node_write_of_ne hne]
    rfl
  · show ((s.write x cell).node a).map CacheNode.next = _
    rw [SharedCache.node_write_of_ne hne]
    rfl

/-! The write of one field leaves the others as they were. -/

theorem SharedCache.view_write_domain (hnode : s.heap x = .live node)
    (hdomain : node'.domainName = node.domainName) :
    (s.write x (.live node')).view.domain = s.view.domain := by
  funext a
  by_cases heq : a = x
  · rw [heq, SharedCache.view_domain SharedCache.node_write,
      SharedCache.view_domain (SharedCache.node_of_live hnode), hdomain]
  · exact (SharedCache.same_write heq).domain

theorem SharedCache.view_write_record (hnode : s.heap x = .live node)
    (hrecord : node'.recordValue = node.recordValue) :
    (s.write x (.live node')).view.record = s.view.record := by
  funext a
  by_cases heq : a = x
  · rw [heq, SharedCache.view_record SharedCache.node_write,
      SharedCache.view_record (SharedCache.node_of_live hnode), hrecord]
  · exact (SharedCache.same_write heq).record

theorem SharedCache.view_write_next :
    (s.write x (.live node')).view.next = Function.update s.view.next x (some node'.next) := by
  funext a
  by_cases heq : a = x
  · rw [heq, SharedCache.view_next SharedCache.node_write, Function.update_self]
  · rw [Function.update_of_ne heq]
    exact (SharedCache.same_write heq).next

theorem SharedCache.view_write_times (hnode : s.heap x = .live node)
    (hdomain : node'.domainName = node.domainName) (hrecord : node'.recordValue = node.recordValue)
    (hnext : node'.next = node.next) : (s.write x (.live node')).view = s.view := by
  have hold : some node.next = s.view.next x :=
    (SharedCache.view_next (SharedCache.node_of_live hnode)).symm
  refine View.ext (SharedCache.view_write_domain hnode hdomain)
    (SharedCache.view_write_record hnode hrecord) ?_
  rw [SharedCache.view_write_next, hnext, hold, Function.update_eq_self]

end Writes

/-! ### Every worker's part -/

/-- What a worker relies on, and its own node is in no list. -/
structure SharedCache.View.Fits (v : SharedCache.View) (lists : Fin maxCache → List Nat)
    (phase : CachePhase) : Prop where
  knows : v.Knows lists phase
  offList : ∀ a, phase.owned = some a → ∀ i, a ∉ lists i

structure SharedCache.Kept (s : SharedCache κ) (lists : Fin maxCache → List Nat) : Prop where
  laid : s.view.Laid s.buckets lists
  fits : ∀ k, s.view.Fits lists (s.workers k)
  apart : ∀ j k a, (s.workers j).owned = some a → (s.workers k).owned = some a → j = k

namespace SharedCache

variable {s s' : SharedCache κ} {lists : Fin maxCache → List Nat} {event : SharedEvent κ} {k : κ}
  {a x : Nat} {cell : Cell} {phase : CachePhase}

theorem Kept.start (h : SharedStart s) : s.Kept fun _ => [] := by
  refine ⟨⟨h.buckets, fun _ => trivial, ?_, fun _ => List.nodup_nil⟩, ?_, ?_⟩
  · intro i a ha
    exact absurd ha List.not_mem_nil
  · intro k
    rw [h.workers k]
    exact ⟨trivial, fun _ _ _ => List.not_mem_nil⟩
  · intro j k a hj
    rw [h.workers j] at hj
    simp [CachePhase.owned] at hj

/-- The node of a worker's own is there: it can still be freed. -/
theorem View.Knows.owned_next {v : View} (h : v.Knows lists phase) (howned : phase.owned = some a) :
    v.next a ≠ none := by
  cases phase <;>
  simp only [CachePhase.owned, Option.some.injEq, reduceCtorEq] at howned
  case addHead | respondRefused =>
    rw [← howned]
    exact h.next
  case cleanAdvance =>
    obtain ⟨⟨d, hwhole⟩, -⟩ := h
    rw [← howned]
    exact hwhole.next
  case cleanFreeDomain =>
    obtain ⟨⟨d, hwhole⟩, -⟩ := h
    rw [← howned]
    exact hwhole.next
  case cleanFreeRecord =>
    rw [← howned]
    exact h.2.1
  case cleanFreeNode =>
    rw [← howned]
    exact h.1
  all_goals
    rw [← howned]
    exact h.1.next

theorem view_next_unused (h : s.heap a = .unused) : s.view.next a = none := by
  show (s.node a).map CacheNode.next = none
  unfold SharedCache.node
  rw [h]
  rfl

/-- A node that has just been allocated is in no list, and no worker's own. -/
theorem Kept.unused (h : s.Kept lists) (hunused : s.heap a = .unused) :
    (∀ i, a ∉ lists i) ∧ ∀ k, (s.workers k).owned ≠ some a := by
  have hnext := view_next_unused hunused
  refine ⟨?_, ?_⟩
  · intro i ha
    obtain ⟨d, hwhole, -⟩ := h.laid.whole i a ha
    exact hwhole.next hnext
  · intro k howned
    exact (h.fits k).knows.owned_next howned hnext

theorem Kept.knowsAt (h : s.Kept lists) (hat : s.workers k = phase) :
    s.view.Knows lists phase := by
  rw [← hat]
  exact (h.fits k).knows

/-- A worker's own node is in no list, and not another's. -/
theorem Kept.own (h : s.Kept lists) (hat : s.workers k = phase) (howned : phase.owned = some x) :
    (∀ i, x ∉ lists i) ∧ ∀ j, j ≠ k → (s.workers j).owned ≠ some x := by
  rw [← hat] at howned
  exact ⟨(h.fits k).offList x howned, fun j hj hsame => hj (h.apart j k x hsame howned)⟩

variable [DecidableEq κ]

/-- One worker goes on, and the others still fit. -/
theorem Kept.update (h : s.Kept lists) {lists' : Fin maxCache → List Nat}
    (hworkers : s'.workers = Function.update s.workers k phase)
    (hlaid : s'.view.Laid s'.buckets lists') (hfits : s'.view.Fits lists' phase)
    (hothers : ∀ j, j ≠ k → s'.view.Fits lists' (s.workers j))
    (hapart : ∀ a, phase.owned = some a → ∀ j, j ≠ k → (s.workers j).owned ≠ some a) :
    s'.Kept lists' := by
  refine ⟨hlaid, ?_, ?_⟩
  · rw [hworkers]
    exact (Function.forall_update_iff s.workers fun _ phase => s'.view.Fits lists' phase).mpr
      ⟨hfits, hothers⟩
  · intro i j a hi hj
    rw [hworkers] at hi hj
    refine @update_unique _ _ _ (fun phase : CachePhase => phase.owned = some a) _ _ _ ?_ ?_
      i j hi hj
    · exact fun i j => h.apart i j a
    · exact fun ha j hj => hapart a ha j hj

theorem Kept.goTo (h : s.Kept lists) (hleads : s.view.Leads lists (s.workers k) phase) :
    (s.goTo k phase).Kept lists := by
  refine h.update rfl h.laid ⟨hleads.knows, ?_⟩ (fun j _ => h.fits j) ?_
  · intro a ha
    exact (h.fits k).offList a (hleads.owned a ha)
  · intro a ha j hj howned
    exact hj (h.apart j k a howned (hleads.owned a ha))

/-- A write to a node's times, which no list and no worker depends on. -/
theorem Kept.writeTimes (h : s.Kept lists) {node node' : CacheNode} (hnode : s.heap x = .live node)
    (hdomain : node'.domainName = node.domainName) (hrecord : node'.recordValue = node.recordValue)
    (hnext : node'.next = node.next) (hleads : s.view.Leads lists (s.workers k) phase) :
    ((s.write x (.live node')).goTo k phase).Kept lists := by
  have hview := view_write_times hnode hdomain hrecord hnext
  have hkept : (s.write x (.live node')).Kept lists := by
    refine ⟨?_, ?_, h.apart⟩
    · rw [hview]
      exact h.laid
    · rw [hview]
      exact h.fits
  refine hkept.goTo ?_
  rw [hview]
  exact hleads

/-- A worker writes to a node of its own. -/
theorem Kept.writeOwn (h : s.Kept lists) (hoff : ∀ i, x ∉ lists i)
    (hothers : ∀ j, j ≠ k → (s.workers j).owned ≠ some x)
    (hknows : (s.write x cell).view.Knows lists phase)
    (howned : phase.owned = none ∨ phase.owned = some x) :
    ((s.write x cell).goTo k phase).Kept lists := by
  have hown : ∀ a, phase.owned = some a → a = x := by
    intro a ha
    rcases howned with hnone | hsome
    · rw [hnone] at ha
      simp at ha
    · rw [hsome, Option.some.injEq] at ha
      exact ha.symm
  have hlisted : ∀ i, ∀ a ∈ lists i, s.view.Same (s.write x cell).view a := by
    intro i a ha
    refine same_write ?_
    intro heq
    rw [heq] at ha
    exact hoff i ha
  refine h.update rfl (h.laid.same hlisted) ⟨hknows, ?_⟩ ?_ ?_
  · intro a ha
    rw [hown a ha]
    exact hoff
  · intro j hj
    refine ⟨(h.fits j).knows.same ?_ (fun i a ha => (hlisted i a ha).domain) ?_, (h.fits j).offList⟩
    · intro a ha
      refine same_write ?_
      intro heq
      rw [heq] at ha
      exact hothers j hj ha
    · intro d i previous entry following test hat
      have hat' := (h.fits j).knows
      rw [hat] at hat'
      exact (hlisted i entry hat'.1.mem_following).next
  · intro a ha
    rw [hown a ha]
    exact hothers

/-- The others see a link, and the node is no longer the worker's own. -/
theorem Kept.link (h : s.Kept lists) {d : Bytes} (hat : s.workers k = .addLink d a)
    (hnot : ∀ j, j ≠ k → ¬ (s.workers j).overtaken (hashFunction d) d) :
    SharedCache.Kept
      { s.goTo k (.addPrint d a) with
        buckets := Function.update s.buckets (hashFunction d) (some a) }
      (Function.update lists (hashFunction d) (a :: lists (hashFunction d))) := by
  have hknows := h.knowsAt hat
  have howned : (s.workers k).owned = some a := by
    rw [hat]
    rfl
  refine h.update rfl (h.laid.link hknows.1 hknows.2.1 hknows.2.2) ⟨?_, ?_⟩ ?_ ?_
  · show a ∈ Function.update lists _ _ _
    rw [Function.update_self]
    exact List.mem_cons_self
  · intro b hb
    simp [CachePhase.owned] at hb
  · intro j hj
    refine ⟨(h.fits j).knows.link hknows.1.domain (hnot j hj), ?_⟩
    intro b hb i
    refine @View.update_lists _ (fun nodes => b ∉ nodes) _ _ _ ((h.fits j).offList b hb i) ?_
    intro heq hmem
    rcases List.mem_cons.mp hmem with rfl | hrest
    · exact hj (h.apart j k b hb howned)
    · exact (h.fits j).offList b hb _ hrest
  · intro b hb
    simp [CachePhase.owned] at hb

/-- The others see a node taken out, and the worker has it to itself. -/
theorem Kept.unlink (h : s.Kept lists) {d : Bytes} {i : Fin maxCache}
    {previous following : Option Nat} {entry : Nat} {test : ExpiredTest}
    (hat : s.workers k = .cleanUnlink d i previous entry following test)
    (hnot : ∀ j, j ≠ k → entry ∉ (s.workers j).pointers s.view.next)
    (hworkers : s'.workers = Function.update s.workers k (.cleanAdvance d i previous entry test))
    (hlaid : s'.view.Laid s'.buckets
      (Function.update lists i ((lists i).filter fun b => b ≠ entry)))
    (hdomain : s'.view.domain = s.view.domain) (hrecord : s'.view.record = s.view.record)
    (hentry : s'.view.next entry = some following)
    (hnext : ∀ b, s'.view.next b = s.view.next b ∨ previous = some b) :
    s'.Kept (Function.update lists i ((lists i).filter fun b => b ≠ entry)) := by
  obtain ⟨hbetween, hfield⟩ := h.knowsAt hat
  have hlisted : entry ∈ lists i := hbetween.mem_following
  have hprevious : ∀ b, (∀ j, b ∉ lists j) → s'.view.next b = s.view.next b := by
    intro b hb
    rcases hnext b with hsame | heq
    · exact hsame
    · rw [heq] at hbetween
      exact absurd hbetween.mem_previous (hb i)
  have hout : ∀ j, entry ∉ Function.update lists i ((lists i).filter fun b => b ≠ entry) j := by
    intro j
    by_cases heq : i = j
    · rw [← heq, Function.update_self]
      simp
    · rw [Function.update_of_ne (Ne.symm heq)]
      intro hmem
      exact heq (h.laid.bucket_eq hlisted hmem)
  refine h.update hworkers hlaid ⟨⟨?_, following, hentry, ?_⟩, ?_⟩ ?_ ?_
  · obtain ⟨d', hwhole, -⟩ := h.laid.whole i entry hlisted
    refine ⟨d', ?_, ?_, ?_⟩
    · rw [hdomain]
      exact hwhole.domain
    · rw [hrecord]
      exact hwhole.record
    · rw [hentry]
      exact Option.some_ne_none _
  · rw [Function.update_self]
    exact hbetween.taken (h.laid.nodup i) (h.laid.follows i) hfield
  · intro b hb
    rw [← Option.some.inj hb]
    exact hout
  · intro j hj
    have hpointers := hnot j hj
    have hfits := h.fits j
    refine ⟨(hfits.knows.unlink i hpointers).same ?_ ?_ ?_, ?_⟩
    · intro b hb
      exact ⟨by rw [hdomain], by rw [hrecord], hprevious b (hfits.offList b hb)⟩
    · intro _ b _
      rw [hdomain]
    · intro d' i' previous' entry' following' test' hat'
      rcases hnext entry' with hsame | heq
      · exact hsame
      -- the worker is about to take out the node before, and would have the entry as its next
      · rw [heq] at hbetween
        have hknows := hfits.knows
        rw [hat'] at hknows hpointers
        have hafter := hknows.2
        rw [(h.laid.follows i).next_between hbetween, Option.some.injEq] at hafter
        refine absurd ?_ hpointers
        rw [← hafter]
        simp [CachePhase.pointers]
    · intro b hb j'
      refine @View.update_lists _ (fun nodes => b ∉ nodes) _ _ _ (hfits.offList b hb j') ?_
      intro _ hmem
      exact hfits.offList b hb i (List.mem_of_mem_filter hmem)
  · intro b hb j hj howned
    rw [← Option.some.inj hb] at howned
    exact (h.fits j).offList entry howned i hlisted

/-- One step, with the lists it makes. -/
theorem Kept.step (h : s.Kept lists) (hstep : SharedStep s event s')
    (hguard : s.Undisturbed event) : s'.Kept (event.lists lists) := by
  rcases hstep with @⟨k, a, d, value, hat, hunused⟩ | hat | hread |
    @⟨k, d, a, node, now, hat, hnode⟩ | @⟨k, d, a, node, hat, hnode⟩ |
    @⟨k, d, a, next, node, hat, hnode⟩ | hat |
    @⟨k, d, i, entry, next, test, hat⟩ |
    @⟨k, d, i, previous, entry, next, test, node, hat, hnode⟩ |
    @⟨k, d, i, previous, entry, temp, test, node, hat, hnode, hdomain⟩ |
    @⟨k, d, i, previous, entry, temp, test, node, hat, hnode, hrecord⟩ |
    @⟨k, d, i, previous, entry, temp, test, node, hat, hnode⟩ |
    @⟨k, d, entry, node, now, hat, hnode⟩
  case startAdd =>
    obtain ⟨hoff, howned⟩ := h.unused hunused
    refine h.writeOwn hoff (fun j _ => howned j) ⟨?_, ?_, ?_⟩ ?_
    · rw [view_domain node_write]
    · rw [view_record node_write]
      exact Option.some_ne_none value
    · rw [view_next node_write]
      exact Option.some_ne_none none
    · exact Or.inr rfl
  case startLookup => exact h.goTo (leads_none rfl trivial)
  case read => exact h.goTo (leads_read h.laid hread (h.fits _).knows)
  case timestamp =>
    have hknows := h.knowsAt hat
    refine h.writeTimes hnode rfl rfl rfl ?_
    rw [hat]
    exact ⟨hknows, fun _ ha => ha⟩
  case ttl =>
    have hknows := h.knowsAt hat
    refine h.writeTimes hnode rfl rfl rfl ?_
    rw [hat]
    exact ⟨hknows, fun _ ha => ha⟩
  case setNext =>
    obtain ⟨hwhole, habsent, hhead⟩ := h.knowsAt hat
    obtain ⟨hoff, hothers⟩ := h.own hat rfl
    have hdomain := @view_write_domain _ s a node { node with next } hnode rfl
    have hrecord := @view_write_record _ s a node { node with next } hnode rfl
    have hfield : (s.write a (.live { node with next })).view.next a = some next := by
      rw [view_write_next, Function.update_self]
    refine h.writeOwn hoff hothers ⟨⟨?_, ?_, ?_⟩, ?_, ?_⟩ ?_
    · rw [hdomain]
      exact hwhole.domain
    · rw [hrecord]
      exact hwhole.record
    · rw [hfield]
      exact Option.some_ne_none next
    · exact habsent.same fun b _ => by rw [hdomain]
    · rw [hfield, hhead]
    · exact Or.inr rfl
  case link => exact h.link hat hguard
  case unlinkHead =>
    have hknows := h.knowsAt hat
    exact h.unlink hat hguard rfl (h.laid.unlinkFirst hknows.1 hknows.2) rfl rfl hknows.2
      fun _ => Or.inl rfl
  case unlink =>
    have hknows := h.knowsAt hat
    have hdomain := @view_write_domain _ s previous node { node with next } hnode rfl
    have hrecord := @view_write_record _ s previous node { node with next } hnode rfl
    have hnext := @view_write_next _ s previous { node with next }
    refine h.unlink hat hguard rfl (h.laid.unlinkNext hknows.1 hknows.2 hdomain hrecord hnext)
      hdomain hrecord ?_ ?_
    · refine (congrFun hnext entry).trans ?_
      by_cases heq : entry = previous
      · rw [heq, Function.update_self]
      · rw [Function.update_of_ne heq]
        exact hknows.2
    · intro b
      by_cases heq : b = previous
      · exact Or.inr (by rw [heq])
      · exact Or.inl ((congrFun hnext b).trans (Function.update_of_ne heq _ _))
  case freeDomain =>
    obtain ⟨⟨d', hwhole⟩, hbetween⟩ := h.knowsAt hat
    obtain ⟨hoff, hothers⟩ := h.own hat rfl
    refine h.writeOwn hoff hothers ⟨?_, ?_, hbetween⟩ ?_
    · rw [view_record node_write, ← view_record (node_of_live hnode)]
      exact hwhole.record
    · rw [view_next node_write]
      exact Option.some_ne_none _
    · exact Or.inr rfl
  case freeRecord =>
    have hknows := h.knowsAt hat
    obtain ⟨hoff, hothers⟩ := h.own hat rfl
    refine h.writeOwn hoff hothers ⟨?_, hknows.2.2⟩ ?_
    · rw [view_next node_write]
      exact Option.some_ne_none _
    · exact Or.inr rfl
  case freeNode =>
    have hknows := h.knowsAt hat
    obtain ⟨hoff, hothers⟩ := h.own hat rfl
    have hleads := @leads_cleanFrom (s.write temp .freed).view lists .idle d test.now i previous
      entry fun _ _ => hknows.2
    refine h.writeOwn hoff hothers hleads.knows (Or.inl ?_)
    refine Option.eq_none_iff_forall_ne_some.mpr fun b hb => ?_
    have hidle := hleads.owned b hb
    simp [CachePhase.owned] at hidle
  case touch =>
    have hknows := h.knowsAt hat
    refine h.writeTimes hnode rfl rfl rfl ?_
    rw [hat]
    exact ⟨hknows, fun _ ha => ha⟩

end SharedCache

/-! ### No worker is stuck -/

def SharedEvent.worker : SharedEvent κ → κ
  | .link k _ _ => k
  | .unlink k _ _ _ => k
  | .other k => k

namespace SharedCache

/-- The worker's next step reads, writes or frees what has been freed. -/
def Stuck [DecidableEq κ] (s : SharedCache κ) (k : κ) : Prop :=
  ∀ event s', SharedStep s event s' → event.worker ≠ k

variable {s : SharedCache κ} {lists : Fin maxCache → List Nat} {a : Nat} {d : Bytes}

theorem live_of_next (h : s.view.next a ≠ none) : ∃ node, s.heap a = .live node := by
  rcases hcell : s.heap a with _ | node | _
  · exact absurd (view_next_unused hcell) h
  · exact ⟨node, rfl⟩
  · refine absurd ?_ h
    show (s.node a).map CacheNode.next = none
    unfold SharedCache.node
    rw [hcell]
    rfl

/-- A whole node can be read, with its strings. -/
theorem View.Whole.live (h : s.view.Whole d a) :
    ∃ node record, s.heap a = .live node ∧ s.node a = some node ∧ node.domainName = some d ∧
      node.recordValue = some record := by
  obtain ⟨node, hnode⟩ := live_of_next h.next
  have hread := node_of_live hnode
  have hrecord := h.record
  rw [view_record hread] at hrecord
  obtain ⟨record, hrecord⟩ := Option.ne_none_iff_exists'.mp hrecord
  refine ⟨node, record, hnode, hread, ?_, hrecord⟩
  rw [← view_domain hread]
  exact h.domain

theorem Kept.live (h : s.Kept lists) {i : Fin maxCache} (ha : a ∈ lists i) :
    ∃ d node record, s.heap a = .live node ∧ s.node a = some node ∧ node.domainName = some d ∧
      node.recordValue = some record := by
  obtain ⟨d, hwhole, -⟩ := h.laid.whole i a ha
  exact ⟨d, hwhole.live⟩

/-- Whatever a worker needs next is there. -/
theorem Kept.goesOn [DecidableEq κ] (h : s.Kept lists) (k : κ) : ¬ s.Stuck k := by
  intro hstuck
  have hread : s.read 0 (s.workers k) = none := by
    rcases hphase : s.read 0 (s.workers k) with _ | phase
    · rfl
    · exact absurd rfl (hstuck _ _ (SharedStep.read hphase))
  have hknows := (h.fits k).knows
  rcases hat : s.workers k <;> rw [hat] at hknows hread <;>
    simp only [SharedCache.read, Option.bind_eq_bind, Option.pure_def] at hread
  case idle => exact hstuck _ _ (@SharedStep.startLookup _ _ s k [] 0 hat) rfl
  case addCompare =>
    obtain ⟨d, node, record, -, hnode, hdomain, -⟩ := h.live hknows.2.mem
    rw [hnode, Option.bind_some, hdomain, Option.bind_some] at hread
    split at hread <;> simp at hread
  case addNext =>
    obtain ⟨d, node, record, -, hnode, -, -⟩ := h.live hknows.2.1.mem
    rw [hnode, Option.bind_some] at hread
    simp at hread
  case addTimestamp =>
    obtain ⟨node, record, hnode, -⟩ := hknows.1.live
    exact hstuck _ _ (@SharedStep.timestamp _ _ s k _ _ node 0 hat hnode) rfl
  case addTtl =>
    obtain ⟨node, record, hnode, -⟩ := hknows.1.live
    exact hstuck _ _ (SharedStep.ttl hat hnode) rfl
  case addSetNext =>
    obtain ⟨node, record, hnode, -⟩ := hknows.1.live
    exact hstuck _ _ (SharedStep.setNext hat hnode) rfl
  case addLink => exact hstuck _ _ (SharedStep.link hat) rfl
  case addPrint | printStrings | lookPrint =>
    obtain ⟨d, node, record, -, hnode, hdomain, hrecord⟩ := h.live hknows
    rw [hnode, Option.bind_some, hdomain, Option.bind_some, hrecord, Option.bind_some] at hread
    simp at hread
  case respondAdded | lookCopy =>
    obtain ⟨d, node, record, -, hnode, -, hrecord⟩ := h.live hknows
    rw [hnode, Option.bind_some, hrecord, Option.bind_some] at hread
    simp at hread
  case respondRefused =>
    obtain ⟨node, record, -, hnode, -, hrecord⟩ := hknows.live
    rw [hnode, Option.bind_some, hrecord, Option.bind_some] at hread
    simp at hread
  case printRead =>
    obtain ⟨d, node, record, -, hnode, -, -⟩ := h.live hknows
    rw [hnode, Option.bind_some] at hread
    split at hread <;> simp at hread
  case printNext | cleanKeep | lookNext | lookReturn =>
    obtain ⟨d, node, record, -, hnode, -, -⟩ := h.live hknows
    rw [hnode, Option.bind_some] at hread
    simp at hread
  case cleanTest => split at hread <;> simp at hread
  case cleanCheck =>
    obtain ⟨d, node, record, -, hnode, -, -⟩ := h.live hknows.mem_following
    rw [hnode, Option.bind_some] at hread
    split at hread <;> simp at hread
  case cleanPrint =>
    obtain ⟨d, node, record, -, hnode, hdomain, -⟩ := h.live hknows.mem_following
    rw [hnode, Option.bind_some, hdomain, Option.bind_some] at hread
    simp at hread
  case cleanRead =>
    obtain ⟨d, node, record, -, hnode, -, -⟩ := h.live hknows.mem_following
    rw [hnode, Option.bind_some] at hread
    simp at hread
  case cleanUnlink d i previous entry following test =>
    rcases previous with _ | previous
    · exact hstuck _ _ (SharedStep.unlinkHead hat) rfl
    · obtain ⟨d, node, record, hnode, -⟩ := h.live hknows.1.mem_previous
      exact hstuck _ _ (SharedStep.unlink hat hnode) rfl
  case cleanAdvance =>
    obtain ⟨⟨d, hwhole⟩, -⟩ := hknows
    obtain ⟨node, record, -, hnode, -⟩ := hwhole.live
    rw [hnode, Option.bind_some] at hread
    simp at hread
  case cleanFreeDomain =>
    obtain ⟨⟨d, hwhole⟩, -⟩ := hknows
    obtain ⟨node, record, hnode, -, hdomain, -⟩ := hwhole.live
    have hthere : node.domainName ≠ none := by
      rw [hdomain]
      exact Option.some_ne_none d
    exact hstuck _ _ (SharedStep.freeDomain hat hnode hthere) rfl
  case cleanFreeRecord =>
    obtain ⟨node, hnode⟩ := live_of_next hknows.2.1
    have hthere := hknows.1
    rw [view_record (node_of_live hnode)] at hthere
    exact hstuck _ _ (SharedStep.freeRecord hat hnode hthere) rfl
  case cleanFreeNode =>
    obtain ⟨node, hnode⟩ := live_of_next hknows.1
    exact hstuck _ _ (SharedStep.freeNode hat hnode) rfl
  case lookCompare =>
    obtain ⟨d, node, record, -, hnode, hdomain, -⟩ := h.live hknows
    rw [hnode, Option.bind_some, hdomain, Option.bind_some] at hread
    split at hread <;> simp at hread
  case lookTouch =>
    obtain ⟨d, node, record, hnode, -⟩ := h.live hknows
    exact hstuck _ _ (@SharedStep.touch _ _ s k _ _ node 0 hat hnode) rfl
  all_goals simp at hread

/-! ### Runs -/

/-- The lists the links and the unlinks have made. -/
def listsAfter (events : List (SharedEvent κ)) : Fin maxCache → List Nat :=
  events.foldl SharedEvent.lists fun _ => []

theorem Kept.of_trace [DecidableEq κ] {events : List (SharedEvent κ)}
    (h : Trace SharedStart (Guarded SharedStep Undisturbed) events s) :
    s.Kept (listsAfter events) := by
  refine @Trace.inv _ _ _ _ (fun events s => s.Kept (listsAfter events))
    (fun s hs => Kept.start hs) ?_ _ _ h
  intro events s event s' hs hstep
  unfold listsAfter
  rw [List.foldl_append]
  exact hs.step hstep.1 hstep.2

/-- A node that was linked is in its list until it is unlinked. -/
theorem mem_listsAfter {events : List (SharedEvent κ)} {k : κ}
    (h : SharedEvent.link k d a ∈ events) :
    a ∈ listsAfter events (hashFunction d) ∨
      ∃ k' test, SharedEvent.unlink k' (hashFunction d) a test ∈ events := by
  induction events using List.reverseRecOn with
  | nil => exact absurd h List.not_mem_nil
  | append_singleton events event ih =>
      have hafter : listsAfter (events ++ [event]) = event.lists (listsAfter events) := by
        unfold listsAfter
        rw [List.foldl_append]
        rfl
      rw [hafter]
      by_cases hlast : event = .link k d a
      · rw [hlast]
        refine Or.inl ?_
        show a ∈ Function.update (listsAfter events) (hashFunction d) (a :: _) (hashFunction d)
        rw [Function.update_self]
        exact List.mem_cons_self
      · have hbefore : SharedEvent.link k d a ∈ events := by
          rcases List.mem_append.mp h with hmem | hmem
          · exact hmem
          · exact absurd (List.mem_singleton.mp hmem).symm hlast
        rcases ih hbefore with hmem | ⟨k', test, hmem⟩
        · rcases event with ⟨k', d', b⟩ | ⟨k', i, b, test⟩ | k'
          · refine Or.inl ?_
            refine @View.update_lists _ (fun nodes => a ∈ nodes) _ _ _ hmem ?_
            intro heq
            rw [heq]
            exact List.mem_cons_of_mem b hmem
          · by_cases hout : i = hashFunction d ∧ b = a
            · refine Or.inr ⟨k', test, List.mem_append_right _ ?_⟩
              rw [hout.1, hout.2]
              exact List.mem_singleton_self _
            · refine Or.inl ?_
              refine @View.update_lists _ (fun nodes => a ∈ nodes) _ _ _ hmem ?_
              intro heq
              have hne : a ≠ b := fun hab => hout ⟨heq, hab.symm⟩
              rw [heq]
              simpa using ⟨hmem, hne⟩
          · exact Or.inl hmem
        · exact Or.inr ⟨k', test, List.mem_append_left _ hmem⟩

/-- The node can be come to from the head of its bucket. -/
def InBucket (s : SharedCache κ) (i : Fin maxCache) (a : Nat) : Prop :=
  ComesTo s.view.next (s.buckets i) a

theorem Kept.inBucket_iff (h : s.Kept lists) {i : Fin maxCache} :
    s.InBucket i a ↔ a ∈ lists i := by
  unfold InBucket
  rw [h.laid.head i]
  exact comesTo_iff_mem (h.laid.follows i)

/-- A domain is in the cache once. -/
theorem Kept.once (h : s.Kept lists) {i j : Fin maxCache} {b : Nat} (ha : a ∈ lists i)
    (hb : b ∈ lists j) (hsame : s.view.domain a = s.view.domain b) : a = b := by
  obtain ⟨d, hwhole, hd⟩ := h.laid.whole i a ha
  obtain ⟨d', hwhole', hd'⟩ := h.laid.whole j b hb
  rw [hwhole.domain, hwhole'.domain, Option.some.injEq] at hsame
  have hbucket : i = j := by
    rw [← hd, ← hd', hsame]
  subst hbucket
  refine List.inj_on_of_nodup_map (h.laid.distinct i) ha hb ?_
  rw [hwhole.domain, hwhole'.domain, hsame]

/--
**Workers that share the cache.**  In every run in which no node is linked where that
comes too late for another worker, and none is unlinked that another has a pointer to,
no worker ever comes to a node or a string that has been freed, to read it, write it
or free it again; each bucket is a list that ends; no domain is in the cache twice;
and a node that was linked can be come to from its bucket until a cleaning that found
it expired unlinks it.
-/
theorem cache_survives [DecidableEq κ] (events : List (SharedEvent κ)) (s : SharedCache κ)
    (h : Trace SharedStart (Guarded SharedStep Undisturbed) events s) :
    (∀ k, ¬ s.Stuck k) ∧
    (∀ i, ∃ nodes, s.buckets i = nodes.head? ∧ Linked s.view.next nodes) ∧
    (∀ i j a b, s.InBucket i a → s.InBucket j b → s.view.domain a = s.view.domain b → a = b) ∧
    (∀ k d a, .link k d a ∈ events → s.InBucket (hashFunction d) a ∨
      ∃ k' test, .unlink k' (hashFunction d) a test ∈ events) := by
  have hkept := Kept.of_trace h
  refine ⟨hkept.goesOn, ?_, ?_, ?_⟩
  · intro i
    exact ⟨_, hkept.laid.head i, hkept.laid.follows i⟩
  · intro i j a b ha hb hsame
    exact hkept.once (hkept.inBucket_iff.mp ha) (hkept.inBucket_iff.mp hb) hsame
  · intro k d a hlink
    rw [hkept.inBucket_iff]
    exact mem_listsAfter hlink

/-! ### Adding entries -/

/-- Workers are numbered, and none has used the cache. -/
def emptyShared : SharedCache Nat :=
  { buckets := fun _ => none, heap := fun _ => .unused, workers := fun _ => .idle }

theorem emptyShared_start : SharedStart emptyShared := ⟨fun _ => rfl, fun _ => rfl, fun _ => rfl⟩

theorem workers_goTo [DecidableEq κ] (s : SharedCache κ) (k : κ) (phase : CachePhase) :
    (s.goTo k phase).workers k = phase := by
  show Function.update s.workers k phase k = phase
  rw [Function.update_self]

section Adding

variable {guard : SharedCache Nat → SharedEvent Nat → Prop} {events : List (SharedEvent Nat)}
  {s : SharedCache Nat} {k a : Nat} {d : Bytes}

/-- A worker makes an entry and finds its bucket empty. -/
theorem adds_scanned (hguard : ∀ s k, guard s (.other k))
    (h : Trace SharedStart (Guarded SharedStep guard) events s) (hat : s.workers k = .idle)
    (hunused : s.heap a = .unused) (hempty : s.buckets (hashFunction d) = none) :
    ∃ s' node, Trace SharedStart (Guarded SharedStep guard) (events ++ [.other k, .other k]) s' ∧
      s'.buckets = s.buckets ∧ s'.workers = Function.update s.workers k (.addTimestamp d a) ∧
      s'.heap = Function.update s.heap a (.live node) ∧ node.domainName = some d := by
  have h₁ := Trace.step h ⟨@SharedStep.startAdd _ _ s k a d [] hat hunused, hguard _ _⟩
  have h₂ := Trace.step h₁ ⟨@SharedStep.read _ _ _ k 0 (.addTimestamp d a) (by
    rw [workers_goTo]
    show some (addFrom d a (s.buckets (hashFunction d))) = _
    rw [hempty]
    rfl), hguard _ _⟩
  rw [List.append_assoc] at h₂
  refine ⟨_, _, h₂, rfl, ?_, rfl, rfl⟩
  exact Function.update_idem _ _ _

/-- A worker that keeps its entry has its fields set, and is about to link it. -/
theorem adds_filled (hguard : ∀ s k, guard s (.other k))
    (h : Trace SharedStart (Guarded SharedStep guard) events s)
    (hat : s.workers k = .addTimestamp d a) {node : CacheNode} (hnode : s.heap a = .live node)
    (hdomain : node.domainName = some d) :
    ∃ s' node', Trace SharedStart (Guarded SharedStep guard)
        (events ++ [.other k, .other k, .other k, .other k]) s' ∧
      s'.buckets = s.buckets ∧ s'.workers = Function.update s.workers k (.addLink d a) ∧
      s'.heap = Function.update s.heap a (.live node') ∧ node'.domainName = some d ∧
      node'.next = s.buckets (hashFunction d) := by
  have h₁ := Trace.step h ⟨@SharedStep.timestamp _ _ s k d a node 0 hat hnode, hguard _ _⟩
  have h₂ := Trace.step h₁ ⟨@SharedStep.ttl _ _ _ k d a _ (Function.update_self _ _ _)
    (Function.update_self _ _ _), hguard _ _⟩
  have h₃ := Trace.step h₂ ⟨@SharedStep.read _ _ _ k 0
    (.addSetNext d a (s.buckets (hashFunction d))) (by
      rw [workers_goTo]
      rfl), hguard _ _⟩
  have h₄ := Trace.step h₃ ⟨@SharedStep.setNext _ _ _ k d a _ _ (Function.update_self _ _ _)
    (Function.update_self _ _ _), hguard _ _⟩
  rw [List.append_assoc, List.append_assoc, List.append_assoc] at h₄
  refine ⟨_, { node with timestamp := 0, ttl := ttlValueCache, next := s.buckets _ }, h₄, rfl,
    ?_, ?_, hdomain, rfl⟩
  · simp only [goTo, write, Function.update_idem]
  · simp only [goTo, write, Function.update_idem]

theorem adds_linked (hguard : guard s (.link k d a))
    (h : Trace SharedStart (Guarded SharedStep guard) events s) (hat : s.workers k = .addLink d a) :
    ∃ s', Trace SharedStart (Guarded SharedStep guard) (events ++ [.link k d a]) s' ∧
      s'.buckets = Function.update s.buckets (hashFunction d) (some a) ∧
      s'.workers = Function.update s.workers k (.addPrint d a) ∧ s'.heap = s.heap :=
  ⟨_, Trace.step h ⟨SharedStep.link hat, hguard⟩, rfl, rfl, rfl⟩

end Adding

/-- Two domains, of two buckets. -/
def sharedDomain : Bytes := ascii "example.com"

def otherDomain : Bytes := ascii "example.org"

theorem otherDomain_apart : hashFunction otherDomain ≠ hashFunction sharedDomain := by decide

/-- Two workers add an entry each at the same time, and both are about to link it. -/
theorem cache_survives_both : ∃ (events : List (SharedEvent Nat)) (s : SharedCache Nat),
    SharedEvent.link 0 sharedDomain 0 ∈ events ∧ SharedEvent.link 1 otherDomain 1 ∈ events ∧
      (∀ k, ¬ s.Stuck k) ∧ s.InBucket (hashFunction sharedDomain) 0 ∧
      s.InBucket (hashFunction otherDomain) 1 := by
  have hguard : ∀ (s : SharedCache Nat) k, s.Undisturbed (.other k) := fun _ _ => trivial
  have h₀ := @Trace.start _ _ _ (Guarded SharedStep Undisturbed) _ emptyShared_start
  obtain ⟨s₁, node₀, h₁, hbuckets₁, hworkers₁, hheap₁, hdomain₀⟩ :=
    @adds_scanned _ _ _ 0 0 sharedDomain hguard h₀ rfl rfl rfl
  obtain ⟨s₂, node₁, h₂, hbuckets₂, hworkers₂, hheap₂, hdomain₁⟩ :=
    @adds_scanned _ _ _ 1 1 otherDomain hguard h₁
      (by rw [hworkers₁, Function.update_of_ne (by decide)]; rfl)
      (by rw [hheap₁, Function.update_of_ne (by decide)]; rfl) (by rw [hbuckets₁]; rfl)
  obtain ⟨s₃, node₀', h₃, -, hworkers₃, hheap₃, -, -⟩ :=
    @adds_filled _ _ _ 0 0 sharedDomain hguard h₂
      (by rw [hworkers₂, Function.update_of_ne (by decide), hworkers₁, Function.update_self])
      node₀ (by rw [hheap₂, Function.update_of_ne (by decide), hheap₁, Function.update_self])
      hdomain₀
  obtain ⟨s₄, node₁', h₄, -, hworkers₄, -, -, -⟩ :=
    @adds_filled _ _ _ 1 1 otherDomain hguard h₃
      (by rw [hworkers₃, Function.update_of_ne (by decide), hworkers₂, Function.update_self])
      node₁ (by rw [hheap₃, Function.update_of_ne (by decide), hheap₂, Function.update_self])
      hdomain₁
  have hphases : ∀ j, s₄.workers j = if j = 1 then .addLink otherDomain 1
      else if j = 0 then .addLink sharedDomain 0 else .idle := by
    intro j
    rw [hworkers₄, hworkers₃, hworkers₂, hworkers₁]
    by_cases hone : j = 1
    · simp [hone]
    · by_cases hzero : j = 0
      · simp [hzero]
      · simp [hone, hzero, emptyShared]
  have hlink₀ : s₄.Undisturbed (.link 0 sharedDomain 0) := by
    intro j hj
    rw [hphases j, if_neg hj]
    split
    · exact otherDomain_apart
    · exact id
  obtain ⟨s₅, h₅, -, hworkers₅, -⟩ := @adds_linked _ _ _ 0 0 sharedDomain hlink₀ h₄
    (by rw [hphases 0]; rfl)
  have hlink₁ : s₅.Undisturbed (.link 1 otherDomain 1) := by
    intro j hj
    rw [hworkers₅, Function.update_apply]
    split
    · exact id
    · rename_i hzero
      rw [hphases j, if_neg hj, if_neg hzero]
      exact id
  obtain ⟨s₆, h₆, -⟩ := @adds_linked _ _ _ 1 1 otherDomain hlink₁ h₅
    (by rw [hworkers₅, Function.update_of_ne (by decide), hphases 1]; rfl)
  obtain ⟨hgoesOn, -, -, hlinked⟩ := cache_survives _ _ h₆
  have hmem₀ := List.mem_append_left [SharedEvent.link 1 otherDomain 1]
    (List.mem_append_right (([] : List (SharedEvent Nat)) ++ [.other 0, .other 0] ++
      [.other 1, .other 1] ++ [.other 0, .other 0, .other 0, .other 0] ++
      [.other 1, .other 1, .other 1, .other 1])
      (List.mem_singleton_self (SharedEvent.link 0 sharedDomain 0)))
  refine ⟨_, s₆, hmem₀, List.mem_append_right _ (List.mem_singleton_self _), hgoesOn, ?_, ?_⟩
  · rcases hlinked 0 sharedDomain 0 hmem₀ with hin | ⟨k', test, hunlink⟩
    · exact hin
    · simp at hunlink
  · rcases hlinked 1 otherDomain 1 (List.mem_append_right _ (List.mem_singleton_self _)) with
      hin | ⟨k', test, hunlink⟩
    · exact hin
    · simp at hunlink

/-- Two workers look for a domain before either has linked an entry of it, and both link one. -/
theorem cache_doubles : ∃ (events : List (SharedEvent Nat)) (s : SharedCache Nat),
    Trace SharedStart SharedStep events s ∧
    s.InBucket (hashFunction sharedDomain) 0 ∧ s.InBucket (hashFunction sharedDomain) 1 ∧
    s.view.domain 0 = some sharedDomain ∧ s.view.domain 1 = some sharedDomain := by
  have h₀ := @Trace.start _ _ _ (Guarded SharedStep fun _ _ => True) _ emptyShared_start
  obtain ⟨s₁, node₀, h₁, hbuckets₁, hworkers₁, hheap₁, hdomain₀⟩ :=
    @adds_scanned _ _ _ 0 0 sharedDomain (fun _ _ => trivial) h₀ rfl rfl rfl
  obtain ⟨s₂, node₁, h₂, hbuckets₂, hworkers₂, hheap₂, hdomain₁⟩ :=
    @adds_scanned _ _ _ 1 1 sharedDomain (fun _ _ => trivial) h₁
      (by rw [hworkers₁, Function.update_of_ne (by decide)]; rfl)
      (by rw [hheap₁, Function.update_of_ne (by decide)]; rfl) (by rw [hbuckets₁]; rfl)
  obtain ⟨s₃, node₀', h₃, hbuckets₃, hworkers₃, hheap₃, hdomain₀', hnext₀⟩ :=
    @adds_filled _ _ _ 0 0 sharedDomain (fun _ _ => trivial) h₂
      (by rw [hworkers₂, Function.update_of_ne (by decide), hworkers₁, Function.update_self])
      node₀ (by rw [hheap₂, Function.update_of_ne (by decide), hheap₁, Function.update_self])
      hdomain₀
  obtain ⟨s₄, h₄, hbuckets₄, hworkers₄, hheap₄⟩ :=
    @adds_linked _ _ _ 0 0 sharedDomain trivial h₃ (by rw [hworkers₃, Function.update_self])
  obtain ⟨s₅, node₁', h₅, hbuckets₅, hworkers₅, hheap₅, hdomain₁', hnext₁⟩ :=
    @adds_filled _ _ _ 1 1 sharedDomain (fun _ _ => trivial) h₄
      (by rw [hworkers₄, Function.update_of_ne (by decide), hworkers₃,
        Function.update_of_ne (by decide), hworkers₂, Function.update_self])
      node₁ (by rw [hheap₄, hheap₃, Function.update_of_ne (by decide), hheap₂,
        Function.update_self]) hdomain₁
  obtain ⟨s₆, h₆, hbuckets₆, -, hheap₆⟩ :=
    @adds_linked _ _ _ 1 1 sharedDomain trivial h₅ (by rw [hworkers₅, Function.update_self])
  rw [hbuckets₄, Function.update_self] at hnext₁
  have hhead : s₆.buckets (hashFunction sharedDomain) = some 1 := by
    rw [hbuckets₆, Function.update_self]
  have hlive₁ : s₆.node 1 = some node₁' := node_of_live (by
    rw [hheap₆, hheap₅, Function.update_self])
  have hlive₀ : s₆.node 0 = some node₀' := node_of_live (by
    rw [hheap₆, hheap₅, Function.update_of_ne (by decide), hheap₄, hheap₃, Function.update_self])
  refine ⟨_, s₆, h₆.of_guarded, ?_, ?_, ?_, ?_⟩
  · unfold InBucket
    rw [hhead]
    refine ComesTo.next (view_next hlive₁) ?_
    rw [hnext₁]
    exact ComesTo.here 0
  · unfold InBucket
    rw [hhead]
    exact ComesTo.here 1
  · exact (view_domain hlive₀).trans hdomain₀'
  · exact (view_domain hlive₁).trans hdomain₁'

end SharedCache

end DnsServer
