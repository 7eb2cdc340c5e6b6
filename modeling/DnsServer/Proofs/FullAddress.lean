/-
Which record an address is taken from.

`handle_dns_response` looks at the number of answers and at the type of the first, and
copies four bytes of its data.  Neither the class nor the length is looked at, so the
four bytes are the record's address only where the record is one of the Internet's and
has four.  With fewer it reads past them: into the NUL the parser put there when one is
missing, and past the allocation when more are.
-/
import DnsServer.Proofs.Forward

namespace DnsServer

open Call

/-! ### What is read and stored -/

/-- The bytes the parser allocated for the data, its NUL, and what lies behind them. -/
def DnsAnswer.rdataMemory (a : DnsAnswer) (beyond : Memory) : Memory :=
  Memory.ofBytes (a.rdata ++ [0]) beyond

/-- Bytes at the start of a memory are what `memcpy` takes there. -/
theorem slice_ofBytes {bs : Bytes} {n : Nat} (hn : n ≤ bs.length) (rest : Memory) :
    slice (Memory.ofBytes bs rest) 0 n = bs.take n := by
  have hholds : HoldsAt (Memory.ofBytes bs rest).contents 0 (bs.take n) := by
    have hall := holdsAt_ofBytes bs rest
    rw [← List.take_append_drop n bs, holdsAt_append, List.take_append_drop] at hall
    exact hall.1
  rw [holdsAt_contents, List.length_take, Nat.min_eq_left hn] at hholds
  exact hholds

/-- The handler stores what its accesses say as long as they stay in the allocation. -/
theorem handleDnsResponse_eq_access (response : DnsPacket) (ipStorage : Bytes) (beyond : Memory) :
    handleDnsResponse response ipStorage
      = let access := handleDnsResponseAccess response (response.answer.rdataMemory beyond)
        if ∀ i ∈ access.reads, i < response.answer.rdata.length + 1 then
          done (access.stores.getD ipStorage)
        else undefined := by
  unfold handleDnsResponse handleDnsResponseAccess
  by_cases hanswer : 0 < response.header.ancount ∧ response.answer.type = dnsTypeA
  · simp only [if_pos hanswer, Option.getD_some]
    by_cases hshort : (response.answer.rdata ++ [0]).length < 4
    · have hlast : 3 ∈ List.range 4 := by simp
      rw [if_pos hshort, if_neg]
      intro hall
      have hbound := hall 3 hlast
      rw [List.length_append, List.length_singleton] at hshort
      omega
    · rw [if_neg hshort, if_pos]
      · unfold DnsAnswer.rdataMemory
        rw [slice_ofBytes (by omega)]
      · intro i hi
        have hi := List.mem_range.mp hi
        rw [List.length_append, List.length_singleton] at hshort
        omega
  · simp only [if_neg hanswer]
    simp

/-! ### The record -/

/-- An address is stored only from a record of type A, class IN and length 4, it is that record's
data in dotted form, and nothing is read past the data. -/
structure FromFullRecord (response : DnsPacket) (access : ResponseAccess) : Prop where
  record : ∀ ip, access.stores = some ip → response.answer.type = dnsTypeA ∧
    response.answer.rclass = dnsClassIn ∧ response.answer.rdlength = 4 ∧
    ip = inetNtop response.answer.rdata
  inside : ∀ i ∈ access.reads, i < response.answer.rdlength.toNat

theorem fromFullRecord_iff {response : DnsPacket} {beyond : Memory}
    (hlen : 0 < response.header.ancount →
      response.answer.rdata.length = response.answer.rdlength.toNat) :
    FromFullRecord response
        (handleDnsResponseAccess response (response.answer.rdataMemory beyond)) ↔
      (0 < response.header.ancount → response.answer.type = dnsTypeA →
        response.answer.rclass = dnsClassIn ∧ response.answer.rdlength = 4) := by
  unfold handleDnsResponseAccess
  refine ⟨?_, ?_⟩
  · intro h han htype
    rw [if_pos ⟨han, htype⟩] at h
    obtain ⟨-, hclass, hlength, -⟩ := h.record _ rfl
    exact ⟨hclass, hlength⟩
  · intro h
    by_cases hanswer : 0 < response.header.ancount ∧ response.answer.type = dnsTypeA
    · rw [if_pos hanswer]
      obtain ⟨hclass, hlength⟩ := h hanswer.1 hanswer.2
      have hfour : response.answer.rdata.length = 4 := by
        rw [hlen hanswer.1, hlength]
        rfl
      refine ⟨?_, ?_⟩
      · intro ip hip
        rw [Option.some.injEq] at hip
        refine ⟨hanswer.2, hclass, hlength, ?_⟩
        unfold DnsAnswer.rdataMemory at hip
        rw [slice_ofBytes (by rw [List.length_append]; omega), ← hfour, List.take_left] at hip
        exact hip.symm
      · intro i hi
        rw [hlength]
        exact List.mem_range.mp hi
    · rw [if_neg hanswer]
      exact ⟨fun ip hip => by simp at hip, fun i hi => absurd hi List.not_mem_nil⟩

/--
**An address is taken from a full A record exactly when the response's first record, if it has
type A, has class IN and four bytes of data.**  This is so for every datagram accepted as the
response, whatever lies in memory.
-/
theorem full_record_iff (al : Alloc) (beyond : Memory) (queryId : UInt16) (pkt₀ : DnsPacket)
    (datagram : Bytes) (response : DnsPacket)
    (h : Settles (fun fuel => waitTurn fuel al beyond queryId pkt₀ datagram)
      (done (some response))) :
    (∀ behind, FromFullRecord response
        (handleDnsResponseAccess response (response.answer.rdataMemory behind))) ↔
      (0 < response.header.ancount → response.answer.type = dnsTypeA →
        response.answer.rclass = dnsClassIn ∧ response.answer.rdlength = 4) := by
  obtain ⟨-, ⟨-, e, -, hanswer⟩, -, -, -⟩ := waitTurn_accepts_iff.mp h
  have hlen : 0 < response.header.ancount →
      response.answer.rdata.length = response.answer.rdlength.toNat := by
    intro han
    obtain ⟨ls, f, -, -, -, -, hlen⟩ := hanswer han
    exact hlen
  refine ⟨fun hall => (fromFullRecord_iff hlen).mp (hall fun _ => 0), fun hfull behind => ?_⟩
  exact (fromFullRecord_iff hlen).mpr hfull

/-! ### Records that are not full -/

/-- A response to query 7 about `example.com` with this record, its type A and its owner
compressed. -/
def responseWith (rclass rdlength : UInt16) (rdata : Bytes) : Bytes :=
  responseHeader.wire ++ encodeLabels exampleCom.raw ++ [0, 1, 0, 1] ++ [0xC0, 12, 0, 1] ++
    Endian.beBytes 2 rclass.toNat ++ [0, 0, 0, 60] ++ Endian.beBytes 2 rdlength.toNat ++ rdata

theorem full_record_example :
    ∃ response, Settles (fun fuel => waitTurn fuel allocOk (fun _ => 0) 7 zeroPacket
        (responseWith 1 4 [93, 184, 216, 34])) (done (some response)) ∧
      ∀ behind, FromFullRecord response
        (handleDnsResponseAccess response (response.answer.rdataMemory behind)) := by
  obtain ⟨response, hresponse, hfull⟩ : ∃ response,
      Settles (fun fuel => waitTurn fuel allocOk (fun _ => 0) 7 zeroPacket
        (responseWith 1 4 [93, 184, 216, 34])) (done (some response)) ∧
      response.answer.rclass = dnsClassIn ∧ response.answer.rdlength = 4 :=
    ⟨_, (waitTurn_mono _ _ _ _ _).settles_done 9 rfl, rfl, rfl⟩
  exact ⟨response, hresponse, (full_record_iff allocOk (fun _ => 0) 7 zeroPacket
    (responseWith 1 4 [93, 184, 216, 34]) response hresponse).mpr fun _ _ => hfull⟩

/-- An address is stored from a record of class CHAOS; and where there are two bytes of data, four
are read, the last of them past the allocation. -/
theorem address_from_partial_record :
    (∃ response, Settles (fun fuel => waitTurn fuel allocOk (fun _ => 0) 7 zeroPacket
        (responseWith 3 4 [93, 184, 216, 34])) (done (some response)) ∧
      handleDnsResponse response [] = done (ascii "93.184.216.34") ∧
      response.answer.rclass ≠ dnsClassIn ∧
      ¬ ∀ behind, FromFullRecord response
        (handleDnsResponseAccess response (response.answer.rdataMemory behind))) ∧
    ∃ response, Settles (fun fuel => waitTurn fuel allocOk (fun _ => 0) 7 zeroPacket
        (responseWith 1 2 [93, 184])) (done (some response)) ∧
      handleDnsResponse response [] = undefined ∧
      ¬ ∀ behind, FromFullRecord response
        (handleDnsResponseAccess response (response.answer.rdataMemory behind)) := by
  refine ⟨⟨_, (waitTurn_mono _ _ _ _ _).settles_done 9 rfl, rfl, by decide, ?_⟩,
    _, (waitTurn_mono _ _ _ _ _).settles_done 9 rfl, rfl, ?_⟩
  · intro hall
    obtain ⟨-, hclass, -, -⟩ := (hall fun _ => 0).record _ rfl
    exact absurd hclass (by decide)
  · intro hall
    have hthird := (hall fun _ => 0).inside 3 (by decide)
    exact absurd hthird (by decide)

end DnsServer
