/-
When parsing ends.

The loop of `dns_read_name` declares a count of the jumps it makes and never
looks at it.  A label uses up room in the destination, but a pointer uses up
nothing, so what the loop needs is that the pointers it meets come to an end.
They point into a finite part of memory; so either they do, or they run in a
ring, and a loop that has reached a ring of pointers never leaves it.

`Follows` is the part of memory a name leads through, and `LeadsToRing` says that
it leads into such a ring.  The parser comes back exactly when neither of the
names it follows does: the question's, and the one after the question when there
is an answer to parse.
-/
import Mathlib.Data.Set.Finite.Basic
import DnsServer.Proofs.Response

namespace DnsServer

open Loop Call

variable {data : Memory} {maxLen : Nat}

/-! ### Pointers -/

/-- Where the pointer at a position points. -/
def jump (data : Memory) (p : Nat) : Nat := jumpOffset (data p) (data (p + 1))

/-- The pointers from a position lead back to it, and nothing but pointers is on the way. -/
def PointerRing (data : Memory) (p : Nat) : Prop :=
  ∃ n, 0 < n ∧ (jump data)^[n] p = p ∧ ∀ k, isPointer (data ((jump data)^[k] p)) = true

/-- The positions a name leads to, with the text its labels have taken up so far. -/
inductive Follows (data : Memory) (maxLen start : Nat) : Nat → Nat → Prop
  | start : Follows data maxLen start start 0
  | label {p used : Nat} (h : Follows data maxLen start p used) (hne : data p ≠ 0)
      (hptr : isPointer (data p) = false) (hroom : used + (data p).toNat + 1 < maxLen) :
      Follows data maxLen start (p + 1 + (data p).toNat) (used + (data p).toNat + 1)
  | pointer {p used : Nat} (h : Follows data maxLen start p used)
      (hptr : isPointer (data p) = true) : Follows data maxLen start (jump data p) used

/-- The name at a position leads into a ring of pointers. -/
def LeadsToRing (data : Memory) (maxLen start : Nat) : Prop :=
  ∃ p used, Follows data maxLen start p used ∧ PointerRing data p

theorem jumpOffset_lt (b c : UInt8) : jumpOffset b c < 16384 := by
  have hb : (b &&& 0x3F).toNat ≤ 63 := by
    rw [UInt8.toNat_and]
    exact Nat.and_le_right
  have hc := c.toNat_lt
  have hshift : (b &&& 0x3F).toNat <<< 8 < 2 ^ 14 := by
    rw [Nat.shiftLeft_eq]
    omega
  exact Nat.or_lt_two_pow hshift (by omega)

theorem PointerRing.next {p : Nat} (h : PointerRing data p) : PointerRing data (jump data p) := by
  obtain ⟨n, hpos, hback, hall⟩ := h
  refine ⟨n, hpos, ?_, ?_⟩
  · rw [← Function.iterate_succ_apply, Function.iterate_succ_apply', hback]
  · intro k
    rw [← Function.iterate_succ_apply]
    exact hall (k + 1)

theorem PointerRing.isPointer {p : Nat} (h : PointerRing data p) : isPointer (data p) = true := by
  obtain ⟨-, -, -, hall⟩ := h
  exact hall 0

/-- A name that stays among pointers leads into a ring of them. -/
theorem leadsToRing_of_pointers {start p used : Nat} (h : Follows data maxLen start p used)
    (hall : ∀ k, isPointer (data ((jump data)^[k] p)) = true) : LeadsToRing data maxLen start := by
  have hfollows : ∀ k, Follows data maxLen start ((jump data)^[k] p) used := by
    intro k
    induction k with
    | zero => exact h
    | succ k ih =>
        rw [Function.iterate_succ_apply']
        exact Follows.pointer ih (hall k)
  obtain ⟨k, n, hpos, hback⟩ := exists_ring_of_finite (jump data) (Set.finite_lt_nat 16384)
    (fun a => jumpOffset_lt _ _) p
  refine ⟨_, used, hfollows k, n, hpos, hback, ?_⟩
  intro i
  rw [← Function.iterate_add_apply]
  exact hall (i + k)

/-! ### The loop -/

/-- The loop goes wherever the name leads. -/
theorem exists_visits_of_follows {start p used : Nat} {s : ReadState} (hs : s.dataPtr = start)
    (hdest : s.dest = []) (h : Follows data maxLen start p used) :
    ∃ t, Visits (readNameBody data maxLen) s t ∧ t.dataPtr = p ∧ t.dest.length = used := by
  induction h with
  | start => exact ⟨s, Visits.start s, hs, by rw [hdest]; rfl⟩
  | label _ hne hptr hroom ih =>
      obtain ⟨t, hvisits, rfl, rfl⟩ := ih
      refine ⟨readNameLabel data t, Visits.again hvisits ?_, rfl, length_dest_label t⟩
      rw [readNameBody_label hne hptr, if_neg (by omega)]
  | pointer _ hptr ih =>
      obtain ⟨t, hvisits, rfl, rfl⟩ := ih
      exact ⟨_, Visits.again hvisits (readNameBody_pointer hptr), rfl, rfl⟩

theorem not_ends_of_ring {s : ReadState} (h : PointerRing data s.dataPtr) :
    ¬ Ends (readNameBody data maxLen) s := by
  have hstays : ∀ t : ReadState, PointerRing data t.dataPtr →
      ∃ t', readNameBody data maxLen t = .again t' ∧ PointerRing data t'.dataPtr :=
    fun t ht => ⟨_, readNameBody_pointer ht.isPointer, ht.next⟩
  exact @not_ends_of_trap _ _ _ (fun t => PointerRing data t.dataPtr) hstays s h

/-- Off the pointers, the loop ends if it ends from every state that has less room. -/
theorem ends_of_octet {start : Nat} {s : ReadState}
    (hfollows : Follows data maxLen start s.dataPtr s.dest.length)
    (hptr : isPointer (data s.dataPtr) = false)
    (hless : ∀ t : ReadState, maxLen - t.dest.length < maxLen - s.dest.length →
      Follows data maxLen start t.dataPtr t.dest.length → Ends (readNameBody data maxLen) t) :
    Ends (readNameBody data maxLen) s := by
  rcases readNameBody_cases data maxLen s with
    ⟨-, hturn⟩ | ⟨hyes, -⟩ | ⟨-, -, -, hturn⟩ | ⟨hne, -, hroom, hturn⟩
  · exact ⟨_, Leaves.leave hturn⟩
  · rw [hptr] at hyes
    simp at hyes
  · exact ⟨_, Leaves.leave hturn⟩
  · have hlen : (readNameLabel data s).dest.length = _ := length_dest_label s
    have hnext : Follows data maxLen start (readNameLabel data s).dataPtr
        (readNameLabel data s).dest.length := by
      rw [hlen]
      exact Follows.label hfollows hne hptr hroom
    obtain ⟨r, hr⟩ := hless (readNameLabel data s) (by omega) hnext
    exact ⟨r, Leaves.again hturn hr⟩

/-- Where no ring is met, the loop ends: every label leaves less room than before. -/
theorem ends_of_not_leadsToRing {start : Nat} (hring : ¬ LeadsToRing data maxLen start) :
    ∀ (room : Nat) (s : ReadState), maxLen - s.dest.length = room →
      Follows data maxLen start s.dataPtr s.dest.length → Ends (readNameBody data maxLen) s := by
  intro room
  induction room using Nat.strong_induction_on with
  | _ room ih =>
      -- the pointers from a position come to an end after `k` of them
      have hpointers : ∀ (k : Nat) (s : ReadState), maxLen - s.dest.length = room →
          Follows data maxLen start s.dataPtr s.dest.length →
          isPointer (data ((jump data)^[k] s.dataPtr)) = false →
          Ends (readNameBody data maxLen) s := by
        intro k
        induction k with
        | zero =>
            intro s hroom hfollows hk
            exact ends_of_octet hfollows hk fun t hlt ht => ih _ (by omega) t rfl ht
        | succ k ihk =>
            intro s hroom hfollows hk
            by_cases hptr : isPointer (data s.dataPtr) = true
            · rw [Function.iterate_succ_apply] at hk
              obtain ⟨r, hr⟩ :=
                ihk (readNamePointer data s) hroom (Follows.pointer hfollows hptr) hk
              exact ⟨r, Leaves.again (readNameBody_pointer hptr) hr⟩
            · exact ends_of_octet hfollows (by simpa using hptr)
                fun t hlt ht => ih _ (by omega) t rfl ht
      intro s hroom hfollows
      by_contra hno
      refine hring (leadsToRing_of_pointers hfollows fun k => ?_)
      by_contra hk
      exact hno (hpointers k s hroom hfollows (by simpa using hk))

/-- **Reading a name ends exactly when the name leads into no ring of pointers.** -/
theorem dnsReadName_returns_iff {offset : UInt16} :
    Returns (fun fuel => dnsReadName fuel data offset maxLen) ↔
      ¬ LeadsToRing data maxLen offset.toNat := by
  unfold dnsReadName
  rw [returns_ofRun_iff]
  refine ⟨?_, ?_⟩
  · intro hends hring
    obtain ⟨p, used, hfollows, hp⟩ := hring
    obtain ⟨t, hvisits, rfl, -⟩ :=
      exists_visits_of_follows (s := readNameStart offset) rfl rfl hfollows
    exact not_ends_of_ring hp ((ends_iff_of_visits hvisits).mp hends)
  · intro hring
    exact ends_of_not_leadsToRing hring _ (readNameStart offset) rfl Follows.start

/-! ### The parser -/

/-- The header announces an answer: its count, at byte 6, is not zero. -/
theorem ancount_pos_iff : 0 < (dnsHeaderParse data).ancount ↔ data 6 ≠ 0 ∨ data 7 ≠ 0 := by
  have hcount : (dnsHeaderParse data).ancount.toNat = (data 6).toNat * 256 + (data 7).toNat := by
    show (ntohs (load16 data 6)).toNat = _
    rw [toNat_ntohs_load16]
    simp [slice, Endian.ofBeBytes, Endian.ofLeBytes]
    omega
  have hzero : ∀ b : UInt8, b ≠ 0 ↔ 0 < b.toNat := by
    intro b
    rw [Nat.pos_iff_ne_zero, ne_eq, ne_eq, ← UInt8.toNat_inj]
    rfl
  rw [hzero, hzero, UInt16.lt_iff_toNat_lt, hcount]
  show 0 < _ ↔ _
  omega

theorem readName_returns_iff {p : Nat} (hp : p ≤ 4096) :
    Returns (fun fuel => dnsReadName fuel data (UInt16.ofNat p) nameBufferSize) ↔
      ¬ LeadsToRing data nameBufferSize p := by
  rw [dnsReadName_returns_iff, UInt16.toNat_ofNat', Nat.mod_eq_of_lt (by omega)]

theorem returns_done {α : Type} (x : α) : Returns (fun _ => done x) := ⟨0, by simp⟩

theorem dnsQuestionParse_returns_iff {al : Alloc} :
    Returns (fun fuel => dnsQuestionParse fuel al data headerSize) ↔
      ¬ LeadsToRing data nameBufferSize headerSize := by
  simp only [dnsQuestionParse_eq]
  rw [Returns.bind_iff (g := fun _ r => done (questionAfter al data r)) (dnsReadName_mono _ _ _)
    fun _ => Mono.const _, readName_returns_iff (by decide)]
  exact ⟨fun h => h.1, fun h => ⟨h, fun r _ => returns_done _⟩⟩

/-- Parsing the answer skips the question's name and reads the one after it. -/
theorem dnsAnswerParse_returns_iff {al : Alloc} {ls : List Bytes} {f : Nat}
    (hname : NameAt data.contents headerSize ls f) (hroom : (dotted ls).length < nameBufferSize) :
    Returns (fun fuel => dnsAnswerParse fuel al data) ↔
      ¬ LeadsToRing data nameBufferSize (f + 4) := by
  obtain ⟨hnat, hfle⟩ := nameAt_end_small (by decide) hname hroom
  have hp : f + 4 ≤ 4096 := by unfold headerSize at hfle; omega
  have hskip : Settles (fun fuel => dnsReadName fuel data (UInt16.ofNat headerSize)
      nameBufferSize) (done (some (UInt16.ofNat f, joined ls ++ [0]))) :=
    (readName_settles_iff (by decide)).mpr ⟨ls, f, hname, hroom, rfl⟩
  have hrest : Returns (fun fuel => answerAt fuel al data
      (some (UInt16.ofNat f, joined ls ++ [0]))) ↔ ¬ LeadsToRing data nameBufferSize (f + 4) := by
    simp only [answerAt, hnat]
    rw [Returns.bind_iff (g := fun _ r => done (answerAfter al data r)) (dnsReadName_mono _ _ _)
      fun _ => Mono.const _, readName_returns_iff hp]
    exact ⟨fun h => h.1, fun h => ⟨h, fun r _ => returns_done _⟩⟩
  simp only [dnsAnswerParse_eq]
  rw [Returns.bind_iff (dnsReadName_mono _ _ _) (answerAt_mono al data), ← hrest]
  refine ⟨fun h => h.2 _ hskip, fun h => ⟨hskip.returns (by simp), fun r hr => ?_⟩⟩
  have heq := Settles.unique hr hskip
  simp only [done.injEq] at heq
  rw [heq]
  exact h

/-- After the question, what ends or does not is the parsing of the answer. -/
theorem packetAfter_returns_iff {al : Alloc} {pkt₀ : DnsPacket} {v : DnsQuestion × Nat}
    {ls : List Bytes} {f : Nat} (hname : NameAt data.contents headerSize ls f)
    (hroom : (dotted ls).length < nameBufferSize) (han : 0 < (dnsHeaderParse data).ancount) :
    Returns (fun fuel => packetAfter fuel al pkt₀ data (some v)) ↔
      ¬ LeadsToRing data nameBufferSize (f + 4) := by
  simp only [packetAfter, if_pos han]
  rw [Returns.bind_iff (g := fun _ a => done (Option.map _ a)) (dnsAnswerParse_mono al data)
    fun _ => Mono.const _, dnsAnswerParse_returns_iff hname hroom]
  exact ⟨fun h => h.1, fun h => ⟨h, fun a _ => returns_done _⟩⟩

/-- A question whose name leads into a ring is never parsed. -/
theorem not_returns_of_question {al : Alloc} {pkt₀ : DnsPacket}
    (hring : LeadsToRing data nameBufferSize headerSize) :
    ¬ Returns (fun fuel => dnsRequestParse fuel al pkt₀ data) := by
  simp only [dnsRequestParse_eq]
  rw [Returns.bind_iff (dnsQuestionParse_mono al data headerSize) (packetAfter_mono al pkt₀ data)]
  intro h
  exact dnsQuestionParse_returns_iff.mp h.1 hring

/--
**When parsing ends.**  The parser comes back exactly when the question's name leads
into no ring of pointers, and neither does the name after the question when that
name was accepted, copied, and followed by an answer.
-/
theorem dnsRequestParse_returns_iff (al : Alloc) (pkt₀ : DnsPacket) (data : Memory) :
    Returns (fun fuel => dnsRequestParse fuel al pkt₀ data) ↔
      ¬ LeadsToRing data nameBufferSize headerSize ∧
      (al 0 = true → data 6 ≠ 0 ∨ data 7 ≠ 0 →
        ∀ ls f, NameAt data.contents headerSize ls f → (dotted ls).length < nameBufferSize →
          ¬ LeadsToRing data nameBufferSize (f + 4)) := by
  simp only [dnsRequestParse_eq]
  rw [Returns.bind_iff (dnsQuestionParse_mono al data headerSize) (packetAfter_mono al pkt₀ data),
    dnsQuestionParse_returns_iff, ← ancount_pos_iff]
  refine and_congr_right fun _ => ⟨fun h hal han ls f hname hroom => ?_, fun h r hr => ?_⟩
  · obtain ⟨q, hq⟩ := questionReads_exists hname hroom
    have hrest := h _ ((dnsQuestionParse_settles_iff (by decide)).mpr ⟨hal, hq⟩)
    exact (packetAfter_returns_iff hname hroom han).mp hrest
  · cases r with
    | none => exact returns_done _
    | some v =>
        obtain ⟨q, e⟩ := v
        by_cases han : 0 < (dnsHeaderParse data).ancount
        · obtain ⟨hal, ls, f, hname, hroom, -⟩ :=
            (dnsQuestionParse_settles_iff (by decide)).mp hr
          exact (packetAfter_returns_iff hname hroom han).mpr (h hal han ls f hname hroom)
        · simp only [packetAfter, if_neg han]
          exact returns_done _

/-- A name that is a pointer to itself: the parser never comes back from it. -/
def selfPointer : Bytes := responseHeader.wire ++ [0xC0, 12]

theorem dnsRequestParse_selfPointer :
    ¬ Returns (fun fuel => dnsRequestParse fuel allocOk zeroPacket
      (recvBuffer selfPointer fun _ => 0)) := by
  refine not_returns_of_question ⟨headerSize, 0, Follows.start, 1, Nat.one_pos, rfl, fun k => ?_⟩
  induction k with
  | zero => rfl
  | succ k ih => exact ih

end DnsServer
