/-
Walking a bucket on the heap.

A walk reads an entry, its two strings, and the pointer to the next.  Where the entries
from the pointer on are laid out as a list, and their contents are those of a list of
cache entries, a walk by address comes to what the loop over the list comes to: the test
for a domain, the lines printed, and the lookup, whose one write changes the contents of
the entry it writes to and of no other.
-/
import DnsServer.Code.CacheMemory
import DnsServer.Proofs.CleanUpHeap

namespace DnsServer

open Call LinkedList

namespace CacheHeap

variable {s s₁ : CacheHeap} {a b : Nat} {as : List Nat} {fields fields' : HeapEntry}
  {e : CacheEntry} {d : Bytes} {now : Int} {bucket : List CacheEntry}

/-! ### Contents -/

theorem readString_eq {bytes : Bytes} (h : (s.blocks a).asString = some bytes) :
    s.readString a = done bytes := by
  unfold readString
  rw [h]

/-- An entry's contents are its fields and what its two strings hold. -/
theorem contents_eq_some_iff : s.contents a = some e ↔
    ∃ fields, s.blocks a = .entry fields ∧ fields.ttl = e.ttl ∧ fields.timestamp = e.timestamp ∧
      (s.blocks fields.domainName).asString = some e.domainName ∧
      (s.blocks fields.recordValue).asString = some e.recordValue := by
  unfold contents
  constructor
  · intro h
    obtain ⟨fields, hfields, h⟩ := Option.bind_eq_some_iff.mp h
    obtain ⟨domainName, hdomain, h⟩ := Option.bind_eq_some_iff.mp h
    obtain ⟨recordValue, hrecord, h⟩ := Option.bind_eq_some_iff.mp h
    rw [← Option.some.inj h]
    exact ⟨fields, Block.asEntry_eq_some_iff.mp hfields, rfl, rfl, hdomain, hrecord⟩
  · intro h
    obtain ⟨fields, hfields, httl, htime, hdomain, hrecord⟩ := h
    rw [hfields]
    simp only [Block.asEntry, Option.bind_eq_bind, Option.bind_some, hdomain, hrecord, httl, htime]
    rfl

/-- A write to an entry changes no string. -/
theorem asString_put (h : s.blocks a = .entry fields) (fields' : HeapEntry) (b : Nat) :
    ((s.put a (.entry fields')).blocks b).asString = (s.blocks b).asString := by
  show (Function.update s.blocks a _ b).asString = _
  by_cases hb : b = a
  · rw [hb, Function.update_self, h]
    rfl
  · rw [Function.update_of_ne hb]

/-- A write to an entry changes the contents of no other. -/
theorem contents_put_of_ne (h : s.blocks a = .entry fields) (fields' : HeapEntry) (hne : b ≠ a) :
    (s.put a (.entry fields')).contents b = s.contents b := by
  have hblock : (s.put a (.entry fields')).blocks b = s.blocks b := Function.update_of_ne hne _ _
  unfold contents
  simp only [hblock, asString_put h]

/-- The contents of an entry whose times and link are written. -/
theorem contents_put_self (h : s.contents a = some e) (hfields : s.blocks a = .entry fields)
    (ttl timestamp : Int) (next : Option Nat) :
    (s.put a (.entry { fields with ttl, timestamp, next })).contents a
      = some { e with ttl, timestamp } := by
  obtain ⟨fields', hfields', -, -, hdomain, hrecord⟩ := contents_eq_some_iff.mp h
  rw [hfields, Block.entry.injEq] at hfields'
  subst hfields'
  refine contents_eq_some_iff.mpr
    ⟨{ fields with ttl, timestamp, next }, Function.update_self _ _ _, rfl, rfl, ?_, ?_⟩
  · rw [asString_put hfields]
    exact hdomain
  · rw [asString_put hfields]
    exact hrecord

/-! ### The first entry of a walk -/

/-- The entries from a pointer on, as a walk finds them. -/
structure Chain (s : CacheHeap) (as : List Nat) (bucket : List CacheEntry) : Prop where
  linked : Linked s.next as
  contents : as.map s.contents = bucket.map some

namespace Chain

theorem cons_inv (h : s.Chain (a :: as) bucket) :
    ∃ e rest, bucket = e :: rest ∧ s.contents a = some e ∧ s.Chain as rest := by
  have hcontents := h.contents
  rcases bucket with _ | ⟨e, rest⟩
  · simp at hcontents
  · rw [List.map_cons, List.map_cons, List.cons.injEq] at hcontents
    exact ⟨e, rest, rfl, hcontents.1, h.linked.2, hcontents.2⟩

theorem nil_inv (h : s.Chain [] bucket) : bucket = [] := by
  have hcontents := h.contents
  rw [List.map_nil] at hcontents
  exact List.map_eq_nil_iff.mp hcontents.symm

/-- What reading the first entry and its strings gives. -/
theorem head (h : s.Chain (a :: as) (e :: bucket)) :
    ∃ fields, s.blocks a = .entry fields ∧ s.read a = done fields ∧
      s.readString fields.domainName = done e.domainName ∧
      s.readString fields.recordValue = done e.recordValue ∧
      fields.ttl = e.ttl ∧ fields.timestamp = e.timestamp ∧ fields.next = as.head? := by
  obtain ⟨e', rest, heq, hcontents, -⟩ := h.cons_inv
  rw [List.cons.injEq] at heq
  obtain ⟨rfl, rfl⟩ := heq
  obtain ⟨fields, hfields, httl, htime, hdomain, hrecord⟩ := contents_eq_some_iff.mp hcontents
  refine ⟨fields, hfields, read_eq hfields, readString_eq hdomain, readString_eq hrecord, httl,
    htime, ?_⟩
  have hnext := h.linked.1
  unfold next at hnext
  rw [hfields] at hnext
  exact Option.some.inj hnext

end Chain

/-! ### The walks -/

/-- The loop of `addCacheEntry`. -/
theorem settles_bucketHolds (h : s.Chain as bucket) (d : Bytes) :
    Settles (fun fuel => s.bucketHolds d fuel as.head?)
      (done (DnsServer.bucketHolds d bucket)) := by
  induction as generalizing bucket with
  | nil =>
      rw [h.nil_inv]
      exact (Settles.done false).succ fun fuel => rfl
  | cons a as ih =>
      obtain ⟨e, rest, rfl, -, hrest⟩ := h.cons_inv
      obtain ⟨fields, -, hread, hdomain, -, -, -, hnext⟩ := h.head
      unfold DnsServer.bucketHolds
      by_cases hname : e.domainName = d
      · rw [if_pos hname]
        refine (Settles.done true).succ fun fuel => ?_
        rw [List.head?_cons, bucketHolds, hread, done_bind, hdomain, done_bind, if_pos hname]
        rfl
      · rw [if_neg hname]
        refine (ih hrest).succ fun fuel => ?_
        rw [List.head?_cons, bucketHolds, hread, done_bind, hdomain, done_bind, if_neg hname, hnext]

/-- The loop of `printDNSCache` over a bucket. -/
theorem settles_printChain (h : s.Chain as bucket) (now : Int) :
    Settles (fun fuel => s.printChain now fuel as.head?)
      (done (bucket.filterMap (cacheLine now))) := by
  induction as generalizing bucket with
  | nil =>
      rw [h.nil_inv]
      exact (Settles.done []).succ fun fuel => rfl
  | cons a as ih =>
      obtain ⟨e, rest, rfl, -, hrest⟩ := h.cons_inv
      obtain ⟨fields, -, hread, hdomain, hrecord, httl, htime, hnext⟩ := h.head
      by_cases hleft : e.ttl - (now - e.timestamp) > 0
      · have hline : cacheLine now e = some
            { domainName := e.domainName, recordValue := e.recordValue
              timeLeft := e.ttl - (now - e.timestamp) } := if_pos hleft
        rw [List.filterMap_cons_some hline]
        refine ((ih hrest).andThen
          (g := fun _ lines => done ({ domainName := e.domainName, recordValue := e.recordValue
                                       timeLeft := e.ttl - (now - e.timestamp) } :: lines))
          (Settles.done _)).succ fun fuel => ?_
        rw [List.head?_cons, printChain, hread, done_bind, httl, htime, if_pos hleft, hdomain,
          done_bind, hrecord, done_bind, hnext]
        rfl
      · rw [List.filterMap_cons_none (by unfold cacheLine; exact if_neg hleft)]
        refine (ih hrest).succ fun fuel => ?_
        rw [List.head?_cons, printChain, hread, done_bind, httl, htime, if_neg hleft, hnext]

/-- What the loop of `lookupDNSCache` does to the heap: nothing, or one write. -/
inductive LooksUp (s : CacheHeap) (now : Int) (d : Bytes) (as : List Nat)
    (bucket : List CacheEntry) : CacheHeap → Option Nat → Prop
  | missed (h : DnsServer.lookupBucket now d bucket = none) : LooksUp s now d as bucket s none
  | hit {a : Nat} {fields : HeapEntry} {bucket' : List CacheEntry} {value : Bytes}
      (h : DnsServer.lookupBucket now d bucket = some (bucket', value)) (hmem : a ∈ as)
      (hfields : s.blocks a = .entry fields)
      (hvalue : (s.blocks fields.recordValue).asString = some value)
      (hcontents : as.map (s.put a (.entry { fields with timestamp := now })).contents
        = bucket'.map some) :
      LooksUp s now d as bucket (s.put a (.entry { fields with timestamp := now }))
        (some fields.recordValue)

theorem map_contents_put (h : s.blocks a = .entry fields) (fields' : HeapEntry) (ha : a ∉ as) :
    as.map (s.put a (.entry fields')).contents = as.map s.contents :=
  List.map_congr_left fun _ hb => contents_put_of_ne h fields' fun heq => ha (heq ▸ hb)

/-- The loop of `lookupDNSCache`. -/
theorem settles_lookupChain (h : s.Chain as bucket) (now : Int) (d : Bytes) :
    ∃ s₁ found, Settles (fun fuel => s.lookupChain now d fuel as.head?) (done (s₁, found)) ∧
      LooksUp s now d as bucket s₁ found := by
  induction as generalizing bucket with
  | nil =>
      rw [h.nil_inv]
      exact ⟨s, none, (Settles.done _).succ fun fuel => rfl, LooksUp.missed rfl⟩
  | cons a as ih =>
      obtain ⟨e, rest, rfl, hcontents, hrest⟩ := h.cons_inv
      obtain ⟨fields, hfields, hread, hdomain, hrecord, httl, htime, hnext⟩ := h.head
      have ha : a ∉ as := (List.nodup_cons.mp h.linked.nodup).1
      by_cases hname : e.domainName = d
      · have hput := asString_put hfields { fields with timestamp := now }
        obtain ⟨fields', hfields', -, -, hdomain', hrecord'⟩ := contents_eq_some_iff.mp hcontents
        rw [hfields, Block.entry.injEq] at hfields'
        subst hfields'
        refine ⟨s.put a (.entry { fields with timestamp := now }), some fields.recordValue, ?_, ?_⟩
        · refine (Settles.done _).succ fun fuel => ?_
          rw [List.head?_cons, lookupChain, hread, done_bind, hdomain, done_bind, if_pos hname]
          simp only [readString_eq ((hput fields.domainName).trans hdomain'),
            readString_eq ((hput fields.recordValue).trans hrecord'), done_bind, pure_eq]
        · have hfound : DnsServer.lookupBucket now d (e :: rest)
              = some ({ e with timestamp := now } :: rest, e.recordValue) := if_pos hname
          refine LooksUp.hit hfound List.mem_cons_self hfields hrecord' ?_
          have hself := contents_put_self hcontents hfields fields.ttl now fields.next
          rw [List.map_cons, List.map_cons, map_contents_put hfields _ ha, hrest.contents, hself,
            httl]
      · obtain ⟨s₁, found, hsettles, hlooks⟩ := ih hrest
        refine ⟨s₁, found, hsettles.succ fun fuel => ?_, ?_⟩
        · rw [List.head?_cons, lookupChain, hread, done_bind, hdomain, done_bind, if_neg hname,
            hnext]
        · have hstep : DnsServer.lookupBucket now d (e :: rest)
              = (DnsServer.lookupBucket now d rest).map fun found => (e :: found.1, found.2) :=
            if_neg hname
          rcases hlooks with hmissed | ⟨hfound, hmem, hfields₁, hvalue, hafter⟩
          · exact LooksUp.missed (by rw [hstep, hmissed]; rfl)
          · refine LooksUp.hit (by rw [hstep, hfound]; rfl) (List.mem_cons_of_mem a hmem) hfields₁
              hvalue ?_
            have hne : ∀ c, c ∈ as → a ≠ c := fun c hc heq => ha (heq ▸ hc)
            rw [List.map_cons, List.map_cons, hafter, contents_put_of_ne hfields₁ _ (hne _ hmem),
              hcontents]

end CacheHeap

end DnsServer
