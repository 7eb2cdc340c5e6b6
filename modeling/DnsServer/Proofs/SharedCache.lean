/-
Workers that do not spoil each other's lists.

A worker in the middle of an operation relies on what it has read: that the node it
is at is in its bucket, that the nodes it has passed are of other domains, that the
head it will link to is still the head, that it is still between the same two nodes.
`Knows` says what each phase relies on.  Only two steps of another worker can make
it false: taking out a node it has a pointer to, and putting one at the head of a
bucket whose head, or whose domain, it has already looked at.  In a run without such
steps everything relied on stays true, and the lists with it.
-/
import DnsServer.Code.SharedCache
import DnsServer.Lib.LinkedList
import DnsServer.Lib.Runs

namespace DnsServer

open LinkedList Runs

variable {κ : Type}

/-! ### The condition -/

/-- The nodes a worker has pointers to. -/
def CachePhase.pointers (next : Nat → Option (Option Nat)) : CachePhase → List Nat
  | .addCompare _ _ head => [head]
  | .addNext _ _ head => [head]
  | .addSetNext _ _ head => head.toList
  | .addLink _ a => ((next a).getD none).toList
  | .addPrint _ a => [a]
  | .respondAdded _ a => [a]
  | .printRead _ _ _ entry => [entry]
  | .printStrings _ _ _ entry => [entry]
  | .printNext _ _ _ entry => [entry]
  | .cleanCheck _ _ _ previous entry => entry :: previous.toList
  | .cleanKeep _ _ _ entry => [entry]
  | .cleanPrint _ _ previous entry _ => entry :: previous.toList
  | .cleanRead _ _ previous entry _ => entry :: previous.toList
  | .cleanUnlink _ _ previous entry following _ =>
      entry :: (previous.toList ++ following.toList)
  | .cleanAdvance _ _ previous temp _ =>
      temp :: (previous.toList ++ ((next temp).getD none).toList)
  | .cleanFreeDomain _ _ previous temp entry _ => temp :: (previous.toList ++ entry.toList)
  | .cleanFreeRecord _ _ previous temp entry _ => temp :: (previous.toList ++ entry.toList)
  | .cleanFreeNode _ _ previous temp entry _ => temp :: (previous.toList ++ entry.toList)
  | .lookCompare _ entry => [entry]
  | .lookNext _ entry => [entry]
  | .lookTouch _ entry => [entry]
  | .lookPrint _ entry => [entry]
  | .lookReturn _ entry => [entry]
  | .lookCopy _ entry => [entry]
  | _ => []

/-- A node of this domain, put at the head of its bucket, comes too late for the worker: it has
begun to look for the domain there, has read the head it will link to, or will write the
head because it has seen nothing it keeps. -/
def CachePhase.overtaken (i : Fin maxCache) (d : Bytes) : CachePhase → Prop
  | .addCompare d' _ _ => d' = d
  | .addNext d' _ _ => d' = d
  | .addTimestamp d' _ => d' = d
  | .addTtl d' _ => d' = d
  | .addReadHead d' _ => d' = d
  | .addSetNext d' _ _ => hashFunction d' = i
  | .addLink d' _ => hashFunction d' = i
  | .cleanCheck _ _ i' previous _ => i' = i ∧ previous = none
  | .cleanPrint _ i' previous _ _ => i' = i ∧ previous = none
  | .cleanRead _ i' previous _ _ => i' = i ∧ previous = none
  | .cleanUnlink _ i' previous _ _ _ => i' = i ∧ previous = none
  | .cleanAdvance _ i' previous _ _ => i' = i ∧ previous = none
  | .cleanFreeDomain _ i' previous _ _ _ => i' = i ∧ previous = none
  | .cleanFreeRecord _ i' previous _ _ _ => i' = i ∧ previous = none
  | .cleanFreeNode _ i' previous _ _ _ => i' = i ∧ previous = none
  | _ => False

namespace SharedCache

/-- What the lists depend on: the strings of each node, and its next field. -/
@[ext]
structure View where
  domain : Nat → Option Bytes
  record : Nat → Option Bytes
  next : Nat → Option (Option Nat)

def view (s : SharedCache κ) : View :=
  { domain := fun a => (s.node a).bind CacheNode.domainName
    record := fun a => (s.node a).bind CacheNode.recordValue
    next := fun a => (s.node a).map CacheNode.next }

/-- A node is put in a bucket only when that comes too late for no other worker, and taken out
only when no other worker has a pointer to it. -/
def Undisturbed (s : SharedCache κ) : SharedEvent κ → Prop
  | .link k d _ => ∀ j, j ≠ k → ¬ (s.workers j).overtaken (hashFunction d) d
  | .unlink k _ a _ => ∀ j, j ≠ k → a ∉ (s.workers j).pointers s.view.next
  | .other _ => True

end SharedCache

/-! ### What the workers rely on -/

/-- The node a worker has to itself: the one it is adding, or has taken out. -/
def CachePhase.owned : CachePhase → Option Nat
  | .addHead _ a => some a
  | .addCompare _ a _ => some a
  | .addNext _ a _ => some a
  | .addTimestamp _ a => some a
  | .addTtl _ a => some a
  | .addReadHead _ a => some a
  | .addSetNext _ a _ => some a
  | .addLink _ a => some a
  | .respondRefused _ a => some a
  | .cleanAdvance _ _ _ temp _ => some temp
  | .cleanFreeDomain _ _ _ temp _ _ => some temp
  | .cleanFreeRecord _ _ _ temp _ _ => some temp
  | .cleanFreeNode _ _ _ temp _ _ => some temp
  | _ => none

namespace SharedCache.View

/-- A node with nothing freed. -/
structure Whole (v : View) (d : Bytes) (a : Nat) : Prop where
  domain : v.domain a = some d
  record : v.record a ≠ none
  next : v.next a ≠ none

/-- No node of the list is of the domain. -/
def Absent (v : View) (d : Bytes) (nodes : List Nat) : Prop := ∀ b ∈ nodes, v.domain b ≠ some d

/-- The node is in the list, and none before it is of the domain. -/
def Passed (v : View) (d : Bytes) (head : Nat) (nodes : List Nat) : Prop :=
  ∃ pre suf, nodes = pre ++ head :: suf ∧ v.Absent d pre

/-- The buckets hold these lists: their nodes are there, in their domains' bucket, and no domain
is there twice. -/
structure Laid (v : View) (buckets : Fin maxCache → Option Nat)
    (lists : Fin maxCache → List Nat) : Prop where
  head : ∀ i, buckets i = (lists i).head?
  follows : ∀ i, Linked v.next (lists i)
  whole : ∀ i, ∀ a ∈ lists i, ∃ d, v.Whole d a ∧ hashFunction d = i
  distinct : ∀ i, ((lists i).map v.domain).Nodup

/-- What a worker relies on in each phase. -/
def Knows (v : View) (lists : Fin maxCache → List Nat) : CachePhase → Prop
  | .addHead d a => v.Whole d a
  | .addCompare d a head => v.Whole d a ∧ v.Passed d head (lists (hashFunction d))
  | .addNext d a head =>
      v.Whole d a ∧ v.Passed d head (lists (hashFunction d)) ∧ v.domain head ≠ some d
  | .addTimestamp d a => v.Whole d a ∧ v.Absent d (lists (hashFunction d))
  | .addTtl d a => v.Whole d a ∧ v.Absent d (lists (hashFunction d))
  | .addReadHead d a => v.Whole d a ∧ v.Absent d (lists (hashFunction d))
  | .addSetNext d a next =>
      v.Whole d a ∧ v.Absent d (lists (hashFunction d)) ∧ next = (lists (hashFunction d)).head?
  | .addLink d a =>
      v.Whole d a ∧ v.Absent d (lists (hashFunction d)) ∧
        v.next a = some (lists (hashFunction d)).head?
  | .addPrint d a => a ∈ lists (hashFunction d)
  | .respondAdded d a => a ∈ lists (hashFunction d)
  | .respondRefused d a => v.Whole d a
  | .printRead _ _ i entry => entry ∈ lists i
  | .printStrings _ _ i entry => entry ∈ lists i
  | .printNext _ _ i entry => entry ∈ lists i
  | .cleanCheck _ _ i previous entry => Between previous (some entry) (lists i)
  | .cleanKeep _ _ i entry => entry ∈ lists i
  | .cleanPrint _ i previous entry _ => Between previous (some entry) (lists i)
  | .cleanRead _ i previous entry _ => Between previous (some entry) (lists i)
  | .cleanUnlink _ i previous entry next _ =>
      Between previous (some entry) (lists i) ∧ v.next entry = some next
  | .cleanAdvance _ i previous temp _ =>
      (∃ d, v.Whole d temp) ∧
        ∃ next, v.next temp = some next ∧ Between previous next (lists i)
  | .cleanFreeDomain _ i previous temp entry _ =>
      (∃ d, v.Whole d temp) ∧ Between previous entry (lists i)
  | .cleanFreeRecord _ i previous temp entry _ =>
      v.record temp ≠ none ∧ v.next temp ≠ none ∧ Between previous entry (lists i)
  | .cleanFreeNode _ i previous temp entry _ =>
      v.next temp ≠ none ∧ Between previous entry (lists i)
  | .lookCompare d entry => entry ∈ lists (hashFunction d)
  | .lookNext d entry => entry ∈ lists (hashFunction d)
  | .lookTouch d entry => entry ∈ lists (hashFunction d)
  | .lookPrint d entry => entry ∈ lists (hashFunction d)
  | .lookReturn d entry => entry ∈ lists (hashFunction d)
  | .lookCopy d entry => entry ∈ lists (hashFunction d)
  | _ => True

end SharedCache.View

/-! ### Steps that only read -/

/-- A phase a worker may go to: what it relies on is true, and no node is the worker's own that
was not before. -/
structure SharedCache.View.Leads (v : SharedCache.View) (lists : Fin maxCache → List Nat)
    (phase phase' : CachePhase) : Prop where
  knows : v.Knows lists phase'
  owned : ∀ a, phase'.owned = some a → phase.owned = some a

section Reading

variable {s : SharedCache κ} {v : SharedCache.View} {lists : Fin maxCache → List Nat}
  {phase phase' : CachePhase}

theorem SharedCache.view_next {a : Nat} {node : CacheNode} (h : s.node a = some node) :
    s.view.next a = some node.next := by
  show (s.node a).map CacheNode.next = _
  rw [h]
  rfl

theorem SharedCache.view_domain {a : Nat} {node : CacheNode} (h : s.node a = some node) :
    s.view.domain a = node.domainName := by
  show (s.node a).bind CacheNode.domainName = _
  rw [h]
  rfl

theorem leads_none (hnone : phase'.owned = none) (h : v.Knows lists phase') :
    v.Leads lists phase phase' := by
  refine ⟨h, ?_⟩
  intro a ha
  rw [hnone] at ha
  simp at ha

theorem leads_addFrom {d : Bytes} {a : Nat} {pre suf : List Nat} (howned : phase.owned = some a)
    (hwhole : v.Whole d a) (habsent : v.Absent d pre) (heq : lists (hashFunction d) = pre ++ suf) :
    v.Leads lists phase (addFrom d a suf.head?) := by
  rcases suf with _ | ⟨head, suf⟩
  · rw [List.append_nil] at heq
    refine ⟨⟨hwhole, ?_⟩, fun b hb => howned.trans hb⟩
    rw [heq]
    exact habsent
  · exact ⟨⟨hwhole, pre, suf, heq, habsent⟩, fun b hb => howned.trans hb⟩

theorem leads_printFrom {d : Bytes} {now : Int} {i : Fin maxCache} {q : Option Nat}
    (h : ∀ entry, q = some entry → entry ∈ lists i) :
    v.Leads lists phase (printFrom d now i q) := by
  rcases q with _ | entry
  · unfold printFrom
    dsimp only
    split <;> exact leads_none rfl trivial
  · exact leads_none rfl (h entry rfl)

theorem leads_cleanFrom {d : Bytes} {now : Int} {i : Fin maxCache} {previous q : Option Nat}
    (h : ∀ entry, q = some entry → Between previous q (lists i)) :
    v.Leads lists phase (cleanFrom d now i previous q) := by
  rcases q with _ | entry
  · unfold cleanFrom
    dsimp only
    split <;> exact leads_none rfl trivial
  · exact leads_none rfl (h entry rfl)

theorem leads_lookFrom {d : Bytes} {q : Option Nat}
    (h : ∀ entry, q = some entry → entry ∈ lists (hashFunction d)) :
    v.Leads lists phase (lookFrom d q) := by
  rcases q with _ | entry
  · exact leads_none rfl trivial
  · exact leads_none rfl (h entry rfl)

/-- Past a node without the domain, the domain is not in what has been passed. -/
theorem leads_addNext (hlaid : s.view.Laid s.buckets lists) {d : Bytes} {a head : Nat}
    {node : CacheNode} (hnode : s.node head = some node)
    (h : s.view.Knows lists (.addNext d a head)) :
    s.view.Leads lists (.addNext d a head) (addFrom d a node.next) := by
  obtain ⟨hwhole, ⟨pre, suf, heq, habsent⟩, hne⟩ := h
  have hfollows := hlaid.follows (hashFunction d)
  rw [heq] at hfollows
  have hafter : node.next = suf.head? := by
    have hfield := hfollows.next_eq
    rw [SharedCache.view_next hnode, Option.some.injEq] at hfield
    exact hfield
  have hpassed : s.view.Absent d (pre ++ [head]) := by
    intro b hb
    rcases List.mem_append.mp hb with hpre | hlast
    · exact habsent b hpre
    · rw [List.mem_singleton.mp hlast]
      exact hne
  rw [hafter]
  refine leads_addFrom rfl hwhole hpassed ?_
  rw [heq, List.append_assoc]
  rfl

/-- A step that only reads leads to what the next phase relies on. -/
theorem leads_read (hlaid : s.view.Laid s.buckets lists) {clock : Int}
    (hread : s.read clock phase = some phase') (h : s.view.Knows lists phase) :
    s.view.Leads lists phase phase' := by
  have hhead : ∀ i entry, s.buckets i = some entry → entry ∈ lists i := by
    intro i entry heq
    rw [hlaid.head] at heq
    exact List.mem_of_mem_head? heq
  have hnext : ∀ i entry node following, entry ∈ lists i → s.node entry = some node →
      node.next = some following → following ∈ lists i := by
    intro i entry node following hmem hnode heq
    exact (hlaid.follows i).next_mem hmem (by rw [SharedCache.view_next hnode, heq])
  rcases phase with _ | ⟨d, a⟩ | ⟨d, a, head⟩ | ⟨d, a, head⟩ | _ | _ | ⟨d, a⟩ | _ | _ | ⟨d, a⟩ |
    ⟨d, a⟩ | _ | ⟨d, now, i⟩ | ⟨d, now, i, entry⟩ | ⟨d, now, i, entry⟩ | ⟨d, now, i, entry⟩ | ⟨d⟩ |
    ⟨d, now, i⟩ | ⟨d, now, i⟩ | ⟨d, now, i, previous, entry⟩ | ⟨d, now, i, entry⟩ |
    ⟨d, i, previous, entry, test⟩ | ⟨d, i, previous, entry, test⟩ | _ |
    ⟨d, i, previous, temp, test⟩ | _ | _ | _ | ⟨d⟩ | ⟨d, entry⟩ | ⟨d, entry⟩ | _ | ⟨d, entry⟩ |
    ⟨d, entry⟩ | _ <;>
  simp only [SharedCache.read, Option.bind_eq_bind, Option.bind_eq_some_iff, Option.pure_def,
    Option.some.injEq, reduceCtorEq] at hread
  case addHead =>
    rw [← hread, hlaid.head]
    exact leads_addFrom rfl h (fun b hb => absurd hb List.not_mem_nil) rfl
  case addCompare =>
    obtain ⟨node, hnode, domainName, hdomain, hgoes⟩ := hread
    by_cases heq : domainName = d
    · rw [if_pos heq, Option.some.injEq] at hgoes
      rw [← hgoes]
      exact ⟨h.1, fun _ ha => ha⟩
    · rw [if_neg heq, Option.some.injEq] at hgoes
      rw [← hgoes]
      refine ⟨⟨h.1, h.2, ?_⟩, fun _ ha => ha⟩
      rw [SharedCache.view_domain hnode, hdomain, Ne, Option.some.injEq]
      exact heq
  case addNext =>
    obtain ⟨node, hnode, hgoes⟩ := hread
    rw [← hgoes]
    exact leads_addNext hlaid hnode h
  case addReadHead =>
    rw [← hread]
    exact ⟨⟨h.1, h.2, hlaid.head _⟩, fun _ ha => ha⟩
  case addPrint =>
    obtain ⟨node, -, -, -, -, -, hgoes⟩ := hread
    rw [← hgoes]
    exact leads_none rfl h
  case respondAdded | respondRefused | lookCopy =>
    obtain ⟨node, -, -, -, hgoes⟩ := hread
    rw [← hgoes]
    exact leads_none rfl trivial
  case printHead =>
    rw [← hread]
    exact leads_printFrom fun entry heq => hhead i entry heq
  case printRead =>
    obtain ⟨node, -, hgoes⟩ := hread
    split at hgoes
    · rw [Option.some.injEq] at hgoes
      rw [← hgoes]
      exact leads_none rfl h
    · rw [Option.some.injEq] at hgoes
      rw [← hgoes]
      exact leads_none rfl h
  case printStrings =>
    obtain ⟨node, -, -, -, -, -, hgoes⟩ := hread
    rw [← hgoes]
    exact leads_none rfl h
  case printNext =>
    obtain ⟨node, hnode, hgoes⟩ := hread
    rw [← hgoes]
    exact leads_printFrom fun following heq => hnext i entry node following h hnode heq
  case cleanStart =>
    rw [← hread]
    exact leads_none rfl trivial
  case cleanTest =>
    split at hread
    · rw [Option.some.injEq] at hread
      rw [← hread]
      exact leads_none rfl trivial
    · rw [Option.some.injEq] at hread
      rw [← hread]
      exact leads_cleanFrom fun entry heq => by simp at heq
  case cleanHead =>
    rw [← hread, hlaid.head]
    exact leads_cleanFrom fun _ _ => Between.start
  case cleanCheck =>
    obtain ⟨node, -, hgoes⟩ := hread
    split at hgoes
    · rw [Option.some.injEq] at hgoes
      rw [← hgoes]
      exact leads_none rfl h
    · rw [Option.some.injEq] at hgoes
      rw [← hgoes]
      exact leads_none rfl h.mem_following
  case cleanKeep =>
    obtain ⟨node, hnode, hgoes⟩ := hread
    rw [← hgoes]
    obtain ⟨pre, suf, heq⟩ := List.append_of_mem h
    have hbetween : Between pre.getLast? (some entry) (lists i) :=
      ⟨pre, entry :: suf, heq, rfl, rfl⟩
    exact leads_cleanFrom fun _ _ =>
      hbetween.advance (hlaid.follows i) (SharedCache.view_next hnode)
  case cleanPrint =>
    obtain ⟨node, -, -, -, hgoes⟩ := hread
    rw [← hgoes]
    exact leads_none rfl h
  case cleanRead =>
    obtain ⟨node, hnode, hgoes⟩ := hread
    rw [← hgoes]
    exact leads_none rfl ⟨h, SharedCache.view_next hnode⟩
  case cleanAdvance =>
    obtain ⟨node, hnode, hgoes⟩ := hread
    obtain ⟨hwhole, following, hfield, hbetween⟩ := h
    rw [SharedCache.view_next hnode, Option.some.injEq] at hfield
    rw [← hgoes, hfield]
    exact ⟨⟨hwhole, hbetween⟩, fun _ ha => ha⟩
  case lookHead =>
    rw [← hread]
    exact leads_lookFrom fun entry heq => hhead _ entry heq
  case lookCompare =>
    obtain ⟨node, -, domainName, -, hgoes⟩ := hread
    split at hgoes
    · rw [Option.some.injEq] at hgoes
      rw [← hgoes]
      exact leads_none rfl h
    · rw [Option.some.injEq] at hgoes
      rw [← hgoes]
      exact leads_none rfl h
  case lookNext =>
    obtain ⟨node, hnode, hgoes⟩ := hread
    rw [← hgoes]
    exact leads_lookFrom fun following heq => hnext _ entry node following h hnode heq
  case lookPrint =>
    obtain ⟨node, -, -, -, -, -, hgoes⟩ := hread
    rw [← hgoes]
    exact leads_none rfl h
  case lookReturn =>
    obtain ⟨node, -, hgoes⟩ := hread
    rw [← hgoes]
    exact leads_none rfl h

end Reading

/-! ### Steps of other workers -/

/-- The lists after a step: the entries in each bucket, the newest first. -/
def SharedEvent.lists (lists : Fin maxCache → List Nat) :
    SharedEvent κ → Fin maxCache → List Nat
  | .link _ d a => Function.update lists (hashFunction d) (a :: lists (hashFunction d))
  | .unlink _ i a _ => Function.update lists i ((lists i).filter fun b => b ≠ a)
  | .other _ => lists

namespace SharedCache.View

/-- Nothing of the node has changed. -/
structure Same (v v' : View) (a : Nat) : Prop where
  domain : v'.domain a = v.domain a
  record : v'.record a = v.record a
  next : v'.next a = v.next a

section Frames

variable {v v' : View} {lists : Fin maxCache → List Nat} {phase : CachePhase}
  {buckets : Fin maxCache → Option Nat} {d : Bytes} {a b head : Nat} {nodes : List Nat}

theorem Whole.same (h : v.Whole d a) (hsame : v.Same v' a) : v'.Whole d a := by
  refine ⟨?_, ?_, ?_⟩
  · rw [hsame.domain]
    exact h.domain
  · rw [hsame.record]
    exact h.record
  · rw [hsame.next]
    exact h.next

theorem Absent.same (h : v.Absent d nodes) (hdomain : ∀ b ∈ nodes, v'.domain b = v.domain b) :
    v'.Absent d nodes := by
  intro b hb
  rw [hdomain b hb]
  exact h b hb

theorem Passed.same (h : v.Passed d head nodes)
    (hdomain : ∀ b ∈ nodes, v'.domain b = v.domain b) : v'.Passed d head nodes := by
  obtain ⟨pre, suf, rfl, habsent⟩ := h
  exact ⟨pre, suf, rfl, habsent.same fun b hb => hdomain b (List.mem_append_left _ hb)⟩

theorem Passed.mem (h : v.Passed d head nodes) : head ∈ nodes := by
  obtain ⟨pre, suf, rfl, -⟩ := h
  exact List.mem_append_right _ List.mem_cons_self

theorem Absent.cons (h : v.Absent d nodes) (hne : v.domain a ≠ some d) :
    v.Absent d (a :: nodes) := by
  intro b hb
  rcases List.mem_cons.mp hb with rfl | hrest
  · exact hne
  · exact h b hrest

theorem Passed.cons (h : v.Passed d head nodes) (hne : v.domain a ≠ some d) :
    v.Passed d head (a :: nodes) := by
  obtain ⟨pre, suf, rfl, habsent⟩ := h
  exact ⟨a :: pre, suf, rfl, habsent.cons hne⟩

theorem Absent.filter (h : v.Absent d nodes) (p : Nat → Bool) : v.Absent d (nodes.filter p) :=
  fun b hb => h b (List.mem_of_mem_filter hb)

theorem Passed.filter (h : v.Passed d head nodes) {p : Nat → Bool} (hhead : p head = true) :
    v.Passed d head (nodes.filter p) := by
  obtain ⟨pre, suf, rfl, habsent⟩ := h
  refine ⟨pre.filter p, suf.filter p, ?_, habsent.filter p⟩
  rw [List.filter_append, List.filter_cons_of_pos hhead]

/-- What a worker relies on is still so when its own node is as it was, and so are the domains
in the lists and the field it is about to copy. -/
theorem Knows.same (h : v.Knows lists phase)
    (howned : ∀ a, phase.owned = some a → v.Same v' a)
    (hdomain : ∀ i, ∀ b ∈ lists i, v'.domain b = v.domain b)
    (hnext : ∀ d i previous entry following test,
      phase = .cleanUnlink d i previous entry following test → v'.next entry = v.next entry) :
    v'.Knows lists phase := by
  cases phase
  case addHead | respondRefused => exact h.same (howned _ rfl)
  case addCompare => exact ⟨h.1.same (howned _ rfl), h.2.same (hdomain _)⟩
  case addNext =>
    refine ⟨h.1.same (howned _ rfl), h.2.1.same (hdomain _), ?_⟩
    rw [hdomain _ _ h.2.1.mem]
    exact h.2.2
  case addTimestamp | addTtl | addReadHead =>
    exact ⟨h.1.same (howned _ rfl), h.2.same (hdomain _)⟩
  case addSetNext => exact ⟨h.1.same (howned _ rfl), h.2.1.same (hdomain _), h.2.2⟩
  case addLink =>
    refine ⟨h.1.same (howned _ rfl), h.2.1.same (hdomain _), ?_⟩
    rw [(howned _ rfl).next]
    exact h.2.2
  case cleanUnlink =>
    refine ⟨h.1, ?_⟩
    rw [hnext _ _ _ _ _ _ rfl]
    exact h.2
  case cleanAdvance =>
    obtain ⟨⟨d, hwhole⟩, following, hfield, hbetween⟩ := h
    refine ⟨⟨d, hwhole.same (howned _ rfl)⟩, following, ?_, hbetween⟩
    rw [(howned _ rfl).next]
    exact hfield
  case cleanFreeDomain =>
    obtain ⟨⟨d, hwhole⟩, hbetween⟩ := h
    exact ⟨⟨d, hwhole.same (howned _ rfl)⟩, hbetween⟩
  case cleanFreeRecord =>
    refine ⟨?_, ?_, h.2.2⟩
    · rw [(howned _ rfl).record]
      exact h.1
    · rw [(howned _ rfl).next]
      exact h.2.1
  case cleanFreeNode =>
    refine ⟨?_, h.2⟩
    rw [(howned _ rfl).next]
    exact h.1
  all_goals exact h

/-- Of a list that may have changed, what is so before and after. -/
theorem update_lists {P : List Nat → Prop} {i j : Fin maxCache} {nodes : List Nat}
    (hold : P (lists j)) (hnew : i = j → P nodes) : P (Function.update lists i nodes j) := by
  by_cases heq : i = j
  · subst heq
    rw [Function.update_self]
    exact hnew rfl
  · rw [Function.update_of_ne (Ne.symm heq)]
    exact hold

/-- A node put in front comes too late for no worker it does not overtake. -/
theorem Knows.link (h : v.Knows lists phase) (hdomain : v.domain a = some d)
    (hnot : ¬ phase.overtaken (hashFunction d) d) :
    v.Knows (Function.update lists (hashFunction d) (a :: lists (hashFunction d))) phase := by
  have hne : ∀ d', ¬ d' = d → v.domain a ≠ some d' := by
    intro d' hd heq
    rw [hdomain, Option.some.injEq] at heq
    exact hd heq.symm
  generalize hi : hashFunction d = i at *
  have hmem : ∀ {j b}, b ∈ lists j → b ∈ Function.update lists i (a :: lists i) j := by
    intro j b hb
    refine @update_lists _ (fun nodes => b ∈ nodes) _ _ _ hb ?_
    rintro rfl
    exact List.mem_cons_of_mem a hb
  have hpassed : ∀ {d' head}, ¬ d' = d → v.Passed d' head (lists (hashFunction d')) →
      v.Passed d' head (Function.update lists i (a :: lists i) (hashFunction d')) := by
    intro d' head hd hold
    refine @update_lists _ (v.Passed d' head) _ _ _ hold ?_
    rintro rfl
    exact hold.cons (hne d' hd)
  have habsent : ∀ {d'}, ¬ d' = d → v.Absent d' (lists (hashFunction d')) →
      v.Absent d' (Function.update lists i (a :: lists i) (hashFunction d')) := by
    intro d' hd hold
    refine @update_lists _ (v.Absent d') _ _ _ hold ?_
    rintro rfl
    exact hold.cons (hne d' hd)
  have hbetween : ∀ {j previous following}, ¬ (j = i ∧ previous = none) →
      Between previous following (lists j) →
      Between previous following (Function.update lists i (a :: lists i) j) := by
    intro j previous following hj hold
    refine @update_lists _ (Between previous following) _ _ _ hold ?_
    rintro rfl
    exact hold.cons (fun hnone => hj ⟨rfl, hnone⟩) a
  cases phase
  case addCompare => exact ⟨h.1, hpassed hnot h.2⟩
  case addNext => exact ⟨h.1, hpassed hnot h.2.1, h.2.2⟩
  case addTimestamp | addTtl | addReadHead => exact ⟨h.1, habsent hnot h.2⟩
  case addSetNext | addLink =>
    show _ ∧ _ ∧ _
    rw [Function.update_of_ne hnot]
    exact h
  case addPrint | respondAdded | printRead | printStrings | printNext | cleanKeep | lookCompare |
      lookNext | lookTouch | lookPrint | lookReturn | lookCopy =>
    exact hmem h
  case cleanCheck | cleanPrint | cleanRead => exact hbetween hnot h
  case cleanUnlink => exact ⟨hbetween hnot h.1, h.2⟩
  case cleanAdvance =>
    obtain ⟨hwhole, following, hfield, hold⟩ := h
    exact ⟨hwhole, following, hfield, hbetween hnot hold⟩
  case cleanFreeDomain => exact ⟨h.1, hbetween hnot h.2⟩
  case cleanFreeRecord => exact ⟨h.1, h.2.1, hbetween hnot h.2.2⟩
  case cleanFreeNode => exact ⟨h.1, hbetween hnot h.2⟩
  all_goals exact h

/-- A worker does not see a node taken out that it has no pointer to. -/
theorem Knows.unlink (h : v.Knows lists phase) (i : Fin maxCache)
    (hnot : b ∉ phase.pointers v.next) :
    v.Knows (Function.update lists i ((lists i).filter fun c => c ≠ b)) phase := by
  have hmem : ∀ {j c}, ¬ b = c → c ∈ lists j →
      c ∈ Function.update lists i ((lists i).filter fun c => c ≠ b) j := by
    intro j c hne hc
    refine @update_lists _ (fun nodes => c ∈ nodes) _ _ _ hc ?_
    rintro rfl
    simpa using ⟨hc, Ne.symm hne⟩
  have hpassed : ∀ {d head}, ¬ b = head → v.Passed d head (lists (hashFunction d)) →
      v.Passed d head (Function.update lists i ((lists i).filter fun c => c ≠ b)
        (hashFunction d)) := by
    intro d head hne hold
    refine @update_lists _ (v.Passed d head) _ _ _ hold ?_
    rintro rfl
    exact hold.filter (by simpa using Ne.symm hne)
  have habsent : ∀ {d}, v.Absent d (lists (hashFunction d)) → v.Absent d
      (Function.update lists i ((lists i).filter fun c => c ≠ b) (hashFunction d)) := by
    intro d hold
    refine @update_lists _ (v.Absent d) _ _ _ hold ?_
    rintro rfl
    exact hold.filter _
  have hhead : ∀ {j}, ¬ (lists j).head? = some b →
      (Function.update lists i ((lists i).filter fun c => c ≠ b) j).head? = (lists j).head? := by
    intro j hq
    refine @update_lists _ (fun nodes => nodes.head? = (lists j).head?) _ _ _ rfl ?_
    rintro rfl
    exact head?_filter_ne hq
  have hbetween : ∀ {j previous following}, ¬ previous = some b → ¬ following = some b →
      Between previous following (lists j) → Between previous following
        (Function.update lists i ((lists i).filter fun c => c ≠ b) j) := by
    intro j previous following hprevious hfollowing hold
    refine @update_lists _ (Between previous following) _ _ _ hold ?_
    rintro rfl
    exact hold.remove hprevious hfollowing
  have hother : ∀ {c}, ¬ b = c → ¬ some c = some b := by
    intro c hne heq
    exact hne (Option.some.inj heq).symm
  cases phase <;>
  simp only [CachePhase.pointers, List.mem_cons, List.mem_append, Option.mem_toList, not_or,
    List.not_mem_nil, not_false_eq_true, and_true] at hnot
  case addCompare => exact ⟨h.1, hpassed hnot h.2⟩
  case addNext => exact ⟨h.1, hpassed hnot h.2.1, h.2.2⟩
  case addTimestamp | addTtl | addReadHead => exact ⟨h.1, habsent h.2⟩
  case addSetNext =>
    refine ⟨h.1, habsent h.2.1, ?_⟩
    rw [hhead (by rw [← h.2.2]; exact hnot)]
    exact h.2.2
  case addLink =>
    rw [h.2.2] at hnot
    refine ⟨h.1, habsent h.2.1, ?_⟩
    rw [hhead hnot]
    exact h.2.2
  case addPrint | respondAdded | printRead | printStrings | printNext | cleanKeep | lookCompare |
      lookNext | lookTouch | lookPrint | lookReturn | lookCopy =>
    exact hmem hnot h
  case cleanCheck | cleanPrint | cleanRead => exact hbetween hnot.2 (hother hnot.1) h
  case cleanUnlink => exact ⟨hbetween hnot.2.1 (hother hnot.1) h.1, h.2⟩
  case cleanAdvance =>
    obtain ⟨hwhole, following, hfield, hold⟩ := h
    rw [hfield] at hnot
    exact ⟨hwhole, following, hfield, hbetween hnot.2.1 hnot.2.2 hold⟩
  case cleanFreeDomain => exact ⟨h.1, hbetween hnot.2.1 hnot.2.2 h.2⟩
  case cleanFreeRecord => exact ⟨h.1, h.2.1, hbetween hnot.2.1 hnot.2.2 h.2.2⟩
  case cleanFreeNode => exact ⟨h.1, hbetween hnot.2.1 hnot.2.2 h.2⟩
  all_goals exact h

/-! ### The lists -/

theorem Laid.nodup (h : v.Laid buckets lists) (i : Fin maxCache) : (lists i).Nodup :=
  (h.distinct i).of_map _

/-- A node is in one bucket only. -/
theorem Laid.bucket_eq (h : v.Laid buckets lists) {i j : Fin maxCache} (hi : a ∈ lists i)
    (hj : a ∈ lists j) : i = j := by
  obtain ⟨d, hwhole, hd⟩ := h.whole i a hi
  obtain ⟨d', hwhole', hd'⟩ := h.whole j a hj
  have heq : d = d' := by
    rw [← Option.some.injEq, ← hwhole.domain, hwhole'.domain]
  rw [← hd, ← hd', heq]

theorem Laid.same (h : v.Laid buckets lists) (hsame : ∀ i, ∀ a ∈ lists i, v.Same v' a) :
    v'.Laid buckets lists := by
  refine ⟨h.head, ?_, ?_, ?_⟩
  · intro i
    exact (h.follows i).congr fun a ha => (hsame i a ha).next
  · intro i a ha
    obtain ⟨d, hwhole, hd⟩ := h.whole i a ha
    exact ⟨d, hwhole.same (hsame i a ha), hd⟩
  · intro i
    rw [List.map_congr_left fun a ha => (hsame i a ha).domain]
    exact h.distinct i

/-- A bucket whose list changes, and the others as they were. -/
theorem Laid.update (h : v.Laid buckets lists) (i : Fin maxCache) {q : Option Nat}
    (hsame : ∀ j, i ≠ j → ∀ a ∈ lists j, v.Same v' a) (hhead : q = nodes.head?)
    (hfollows : Linked v'.next nodes)
    (hwhole : ∀ a ∈ nodes, ∃ d, v'.Whole d a ∧ hashFunction d = i)
    (hdistinct : (nodes.map v'.domain).Nodup) :
    v'.Laid (Function.update buckets i q) (Function.update lists i nodes) := by
  have hcases : ∀ {P : Fin maxCache → Option Nat → List Nat → Prop} j, P i q nodes →
      (i ≠ j → P j (buckets j) (lists j)) →
      P j (Function.update buckets i q j) (Function.update lists i nodes j) := by
    intro P j hnew hold
    by_cases heq : i = j
    · subst heq
      rw [Function.update_self, Function.update_self]
      exact hnew
    · rw [Function.update_of_ne (Ne.symm heq), Function.update_of_ne (Ne.symm heq)]
      exact hold heq
  refine ⟨?_, ?_, ?_, ?_⟩
  · intro j
    exact @hcases (fun _ q nodes => q = nodes.head?) j hhead fun _ => h.head j
  · intro j
    exact @hcases (fun _ _ nodes => Linked v'.next nodes) j hfollows fun hne =>
      (h.follows j).congr fun a ha => (hsame j hne a ha).next
  · intro j
    refine @hcases (fun j _ nodes => ∀ a ∈ nodes, ∃ d, v'.Whole d a ∧ hashFunction d = j) j
      hwhole ?_
    intro hne a ha
    obtain ⟨d, hold, hd⟩ := h.whole j a ha
    exact ⟨d, hold.same (hsame j hne a ha), hd⟩
  · intro j
    refine @hcases (fun _ _ nodes => (nodes.map v'.domain).Nodup) j hdistinct ?_
    intro hne
    rw [List.map_congr_left fun a ha => (hsame j hne a ha).domain]
    exact h.distinct j

theorem Same.refl (v : View) (a : Nat) : v.Same v a := ⟨rfl, rfl, rfl⟩

theorem Laid.link (h : v.Laid buckets lists) (hwhole : v.Whole d a)
    (habsent : v.Absent d (lists (hashFunction d)))
    (hfield : v.next a = some (lists (hashFunction d)).head?) :
    v.Laid (Function.update buckets (hashFunction d) (some a))
      (Function.update lists (hashFunction d) (a :: lists (hashFunction d))) := by
  refine h.update _ (fun _ _ a _ => Same.refl v a) rfl ⟨hfield, h.follows _⟩ ?_ ?_
  · intro b hb
    rcases List.mem_cons.mp hb with rfl | hrest
    · exact ⟨d, hwhole, rfl⟩
    · exact h.whole _ b hrest
  · rw [List.map_cons, List.nodup_cons]
    refine ⟨?_, h.distinct _⟩
    intro hmem
    obtain ⟨b, hb, heq⟩ := List.mem_map.mp hmem
    refine habsent b hb ?_
    rw [heq]
    exact hwhole.domain

/-- A node taken out, by a change of the fields that leaves the list without it. -/
theorem Laid.unlink (h : v.Laid buckets lists) (i : Fin maxCache) {q : Option Nat}
    (hdomain : v'.domain = v.domain) (hrecord : v'.record = v.record)
    (hnext : ∀ a, v.next a ≠ none → v'.next a ≠ none)
    (hothers : ∀ j, i ≠ j → ∀ a ∈ lists j, v'.next a = v.next a)
    (hhead : q = ((lists i).filter fun c => c ≠ b).head?)
    (hfollows : Linked v'.next ((lists i).filter fun c => c ≠ b)) :
    v'.Laid (Function.update buckets i q)
      (Function.update lists i ((lists i).filter fun c => c ≠ b)) := by
  refine h.update i ?_ hhead hfollows ?_ ?_
  · intro j hne a ha
    exact ⟨by rw [hdomain], by rw [hrecord], hothers j hne a ha⟩
  · intro a ha
    obtain ⟨d, hwhole, hd⟩ := h.whole i a (List.mem_of_mem_filter ha)
    refine ⟨d, ⟨?_, ?_, hnext a hwhole.next⟩, hd⟩
    · rw [hdomain]
      exact hwhole.domain
    · rw [hrecord]
      exact hwhole.record
  · rw [hdomain]
    exact (h.distinct i).sublist (List.filter_sublist.map _)

theorem Laid.unlinkFirst (h : v.Laid buckets lists) {i : Fin maxCache} {following : Option Nat}
    (hfirst : Between none (some b) (lists i)) (hfield : v.next b = some following) :
    v.Laid (Function.update buckets i following)
      (Function.update lists i ((lists i).filter fun c => c ≠ b)) := by
  obtain ⟨hhead, hfollows⟩ := (h.follows i).removeFirst (h.nodup i) hfirst hfield
  exact h.unlink i rfl rfl (fun _ hne => hne) (fun _ _ _ _ => rfl) hhead hfollows

theorem Laid.unlinkNext (h : v.Laid buckets lists) {i : Fin maxCache} {following : Option Nat}
    (hbetween : Between (some a) (some b) (lists i)) (hfield : v.next b = some following)
    (hdomain : v'.domain = v.domain) (hrecord : v'.record = v.record)
    (hnext : v'.next = Function.update v.next a (some following)) :
    v'.Laid buckets (Function.update lists i ((lists i).filter fun c => c ≠ b)) := by
  obtain ⟨hhead, hfollows⟩ := (h.follows i).remove (h.nodup i) hbetween hfield
  rw [← Function.update_eq_self i buckets]
  refine h.unlink i hdomain hrecord ?_ ?_ ?_ ?_
  · intro c hc
    rw [hnext]
    by_cases heq : c = a
    · rw [heq, Function.update_self]
      exact Option.some_ne_none _
    · rw [Function.update_of_ne heq]
      exact hc
  · intro j hne c hc
    rw [hnext]
    refine Function.update_of_ne ?_ _ _
    intro heq
    rw [heq] at hc
    exact hne (h.bucket_eq hbetween.mem_previous hc)
  · rw [hhead]
    exact h.head i
  · rw [hnext]
    exact hfollows

end Frames
end SharedCache.View
end DnsServer
