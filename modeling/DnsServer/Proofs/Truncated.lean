/-
Datagrams cut short.

The parser is handed a pointer and no length, so it cannot refuse a datagram for
being short.  What it reads is `recvBuffer`: the datagram, the zeros the buffer
was cleared to, and the memory beyond.  Whether it accepts is whether a packet
can be read from those, and a header with nothing after it already is one: the
zero after it is the root name.

What does hold is the other direction.  A packet that can be read from the
datagram's own bytes is read from them alone, because a larger memory never
changes what a smaller one says.
-/
import DnsServer.Proofs.Query

namespace DnsServer

open Call

variable {datagram : Bytes} {beyond : Memory} {al : Alloc} {pkt pkt₀ : DnsPacket}

/-- The packet with the answer it had before, where its header announces none. -/
def DnsPacket.keeping (pkt pkt₀ : DnsPacket) : DnsPacket :=
  { pkt with answer := if 0 < pkt.header.ancount then pkt.answer else pkt₀.answer }

/-- Every allocation made for the packet succeeds. -/
def Allocates (al : Alloc) (pkt : DnsPacket) : Prop :=
  al 0 = true ∧ (0 < pkt.header.ancount → al 1 = true ∧ al 2 = true)

theorem PacketReads.keeping {m : Contents} (h : PacketReads m pkt) :
    PacketReads m (pkt.keeping pkt₀) := by
  obtain ⟨hheader, e, hq, hanswer⟩ := h
  refine ⟨hheader, e, hq, ?_⟩
  intro han
  have hkeep : (pkt.keeping pkt₀).answer = pkt.answer := if_pos han
  rw [hkeep]
  exact hanswer han

/-- What reads as a packet in part of a memory is parsed as that packet. -/
theorem dnsRequestParse_of_reads {m : Contents} {data : Memory} (hle : Contents.Le m data.contents)
    (h : PacketReads m pkt) :
    Settles (fun fuel => dnsRequestParse fuel allocOk pkt₀ data)
      (done (some (pkt.keeping pkt₀))) :=
  dnsRequestParse_settles_iff.mpr
    ⟨rfl, fun _ => ⟨rfl, rfl⟩, (h.mono hle).keeping, fun hno => if_neg hno⟩

/-! ### The receive buffer -/

theorem contents_le_recvBuffer (hn : datagram.length ≤ udpBufferSize) (beyond : Memory) :
    Contents.Le (Bytes.contents datagram) (recvBuffer datagram beyond).contents := by
  intro i b h
  refine contents_le_ofBytes _ beyond i b ?_
  have hb : datagram[i]? = some b := h
  have hlt : i < datagram.length := (List.getElem?_eq_some_iff.mp hb).1
  show (datagram.take udpBufferSize ++ _)[i]? = some b
  rw [List.take_of_length_le hn, List.getElem?_append_left hlt, hb]

/-- A datagram with room for a header holds the header that is parsed. -/
theorem holdsAt_header (hn : datagram.length ≤ udpBufferSize)
    (hheader : headerSize ≤ datagram.length) {h : DnsHeader}
    (hwire : HoldsAt (recvBuffer datagram beyond).contents 0 h.wire) :
    HoldsAt (Bytes.contents datagram) 0 h.wire := by
  have hle := contents_le_recvBuffer hn beyond
  have hall : HoldsAt (Bytes.contents datagram) 0 (datagram.take headerSize) := by
    have h := holdsAt_bytes datagram
    rw [← List.take_append_drop headerSize datagram, holdsAt_append,
      List.take_append_drop] at h
    exact h.1
  have heq : datagram.take headerSize = h.wire :=
    holdsAt_inj (holdsAt_mono hle hall) hwire
      (by rw [List.length_take, length_header_wire]; omega)
  rw [← heq]
  exact hall

/-! ### The two receivers -/

theorem listenTurn_short (hn : datagram.length < headerSize) (fuel : Nat) :
    listenTurn fuel al beyond datagram = done none := by
  unfold listenTurn
  rw [if_pos (by omega)]
  rfl

theorem listenTurn_eq (hheader : headerSize ≤ datagram.length) (fuel : Nat) :
    listenTurn fuel al beyond datagram
      = dnsRequestParse fuel al zeroPacket (recvBuffer datagram beyond) := by
  unfold listenTurn
  have hsize : headerSize ≤ udpBufferSize := by decide
  rw [if_neg (by omega)]

/-- The response waited for, if the packet is it. -/
def responseTo (queryId : UInt16) (pkt : DnsPacket) : Option DnsPacket :=
  if pkt.header.id = queryId ∧ pkt.header.qr = qrResponse then some pkt else none

theorem waitTurn_eq (fuel : Nat) (queryId : UInt16) :
    waitTurn fuel al beyond queryId pkt₀ datagram
      = dnsRequestParse fuel al pkt₀ (recvBuffer datagram beyond) >>= fun r =>
          done (r.bind (responseTo queryId)) := by
  unfold waitTurn
  congr 1
  funext r
  rcases r with _ | pkt
  · rfl
  · show (if _ then done _ else done _) = done (if _ then _ else _)
    split <;> rfl

theorem waitTurn_settles_iff {queryId : UInt16} {r : Option DnsPacket} :
    Settles (fun fuel => waitTurn fuel al beyond queryId pkt₀ datagram) (done r) ↔
      ∃ parsed, Settles (fun fuel => dnsRequestParse fuel al pkt₀ (recvBuffer datagram beyond))
        (done parsed) ∧ parsed.bind (responseTo queryId) = r := by
  simp only [waitTurn_eq]
  exact Settles.bind_done_iff (dnsRequestParse_mono al pkt₀ _)

theorem keeping_eq_iff :
    pkt.keeping pkt₀ = pkt ↔ (¬ 0 < pkt.header.ancount → pkt.answer = pkt₀.answer) := by
  unfold DnsPacket.keeping
  by_cases han : 0 < pkt.header.ancount
  · simp [han]
  · rw [if_neg han]
    refine ⟨fun h _ => by rw [← h], ?_⟩
    intro h
    rw [← h han]

theorem recvBuffer_settles_iff :
    Settles (fun fuel => dnsRequestParse fuel al pkt₀ (recvBuffer datagram beyond))
        (done (some pkt)) ↔
      Allocates al pkt ∧ PacketReads (recvBuffer datagram beyond).contents pkt ∧
        pkt.keeping pkt₀ = pkt := by
  rw [dnsRequestParse_settles_iff, keeping_eq_iff, Allocates, and_assoc]

theorem responseTo_eq_some_iff {queryId : UInt16} {parsed : DnsPacket} :
    responseTo queryId parsed = some pkt ↔
      parsed = pkt ∧ pkt.header.id = queryId ∧ pkt.header.qr = qrResponse := by
  unfold responseTo
  split
  · rw [Option.some.injEq]
    exact ⟨fun h => ⟨h, h ▸ ‹_›⟩, fun h => h.1⟩
  · refine ⟨fun h => by simp at h, ?_⟩
    intro h
    obtain ⟨rfl, hmatch⟩ := h
    contradiction

theorem waitTurn_accepts_iff {queryId : UInt16} :
    Settles (fun fuel => waitTurn fuel al beyond queryId pkt₀ datagram) (done (some pkt)) ↔
      Allocates al pkt ∧ PacketReads (recvBuffer datagram beyond).contents pkt ∧
        pkt.keeping pkt₀ = pkt ∧ pkt.header.id = queryId ∧ pkt.header.qr = qrResponse := by
  rw [waitTurn_settles_iff]
  refine ⟨?_, ?_⟩
  · intro h
    obtain ⟨parsed, hparsed, hbind⟩ := h
    obtain ⟨p, rfl, hp⟩ := Option.bind_eq_some_iff.mp hbind
    obtain ⟨rfl, hmatch⟩ := responseTo_eq_some_iff.mp hp
    obtain ⟨hal, hreads, hkeep⟩ := recvBuffer_settles_iff.mp hparsed
    exact ⟨hal, hreads, hkeep, hmatch⟩
  · intro h
    obtain ⟨hal, hreads, hkeep, hmatch⟩ := h
    exact ⟨some pkt, recvBuffer_settles_iff.mpr ⟨hal, hreads, hkeep⟩,
      responseTo_eq_some_iff.mpr ⟨rfl, hmatch⟩⟩

/--
**What is accepted of a datagram of `n` bytes.**  Fewer than a header's are
refused by the server unparsed.  From a header's on, either receiver accepts the
datagram exactly when a packet can be read from the cleared buffer and the memory
beyond, and the header is the datagram's own.  A packet that can be read from the
`n` bytes is the one they return, whatever lies beyond.
-/
theorem receivers_accept (datagram : Bytes) (hn : datagram.length ≤ udpBufferSize) :
    (datagram.length < headerSize → ∀ fuel al beyond,
      listenTurn fuel al beyond datagram = done none) ∧
    (headerSize ≤ datagram.length → ∀ al beyond pkt₀ pkt queryId,
      (Settles (fun fuel => listenTurn fuel al beyond datagram) (done (some pkt)) ↔
        Allocates al pkt ∧ PacketReads (recvBuffer datagram beyond).contents pkt ∧
          pkt.keeping zeroPacket = pkt) ∧
      (Settles (fun fuel => waitTurn fuel al beyond queryId pkt₀ datagram) (done (some pkt)) ↔
        Allocates al pkt ∧ PacketReads (recvBuffer datagram beyond).contents pkt ∧
          pkt.keeping pkt₀ = pkt ∧ pkt.header.id = queryId ∧ pkt.header.qr = qrResponse) ∧
      (PacketReads (recvBuffer datagram beyond).contents pkt →
        HoldsAt (Bytes.contents datagram) 0 pkt.header.wire)) ∧
    ∀ pkt, PacketReads (Bytes.contents datagram) pkt → ∀ beyond pkt₀ queryId,
      Settles (fun fuel => listenTurn fuel allocOk beyond datagram)
        (done (some (pkt.keeping zeroPacket))) ∧
      Settles (fun fuel => waitTurn fuel allocOk beyond queryId pkt₀ datagram)
        (done (responseTo queryId (pkt.keeping pkt₀))) := by
  refine ⟨fun hshort fuel al beyond => listenTurn_short hshort fuel,
    fun hheader al beyond pkt₀ pkt queryId => ⟨?_, waitTurn_accepts_iff, fun h => ?_⟩,
    fun pkt hreads beyond pkt₀ queryId => ⟨?_, ?_⟩⟩
  · simp only [listenTurn_eq hheader]
    exact recvBuffer_settles_iff
  · exact holdsAt_header hn hheader h.header
  · have hheader : headerSize ≤ datagram.length := by
      have hne : pkt.header.wire ≠ [] := by
        refine List.ne_nil_of_length_pos ?_
        rw [length_header_wire]
        decide
      have hle := holdsAt_le_length hreads.header hne
      rw [length_header_wire] at hle
      omega
    simp only [listenTurn_eq hheader]
    exact dnsRequestParse_of_reads (contents_le_recvBuffer hn beyond) hreads
  · exact waitTurn_settles_iff.mpr
      ⟨_, dnsRequestParse_of_reads (contents_le_recvBuffer hn beyond) hreads, rfl⟩

/-! ### A header with its question, and without -/

/-- A response's header that counts a question and no answers. -/
def bareHeader : DnsHeader :=
  { id := 7, rd := 0, tc := 0, aa := 0, opcode := 0, qr := 1, rcode := 0, cd := 0, ad := 0, z := 0
    ra := 0, qdcount := 1, ancount := 0, nscount := 0, arcount := 0 }

/-- The header and the root's question after it. -/
def rootQuestion : Bytes := bareHeader.wire ++ [0, 0, 1, 0, 1]

def rootPacket : DnsPacket :=
  { zeroPacket with header := bareHeader, question := { qname := [], qtype := 1, qclass := 1 } }

theorem rootQuestion_reads : PacketReads (Bytes.contents rootQuestion) rootPacket :=
  ⟨by decide, 17, ⟨[], 13, NameAt.root (by decide), by decide, rfl, by decide, rfl⟩,
    fun han => absurd han (by decide)⟩

theorem receivers_accept_rootQuestion :
    rootQuestion.length ≤ udpBufferSize ∧ PacketReads (Bytes.contents rootQuestion) rootPacket ∧
    ∀ beyond pkt₀ queryId,
      Settles (fun fuel => listenTurn fuel allocOk beyond rootQuestion)
        (done (some (rootPacket.keeping zeroPacket))) ∧
      Settles (fun fuel => waitTurn fuel allocOk beyond queryId pkt₀ rootQuestion)
        (done (responseTo queryId (rootPacket.keeping pkt₀))) :=
  ⟨by decide, rootQuestion_reads,
    (receivers_accept rootQuestion (by decide)).2.2 rootPacket rootQuestion_reads⟩

theorem receivers_accept_bareHeader :
    (∀ pkt, ¬ PacketReads (Bytes.contents bareHeader.wire) pkt) ∧
    Settles (fun fuel => listenTurn fuel allocOk (fun _ => 0) bareHeader.wire)
      (done (some { zeroPacket with header := bareHeader })) ∧
    Settles (fun fuel => waitTurn fuel allocOk (fun _ => 0) 7 zeroPacket bareHeader.wire)
      (done (some { zeroPacket with header := bareHeader })) := by
  have hroot : NameAt (recvBuffer bareHeader.wire fun _ => 0).contents headerSize [] 13 :=
    NameAt.root (by decide)
  have hreads : PacketReads (recvBuffer bareHeader.wire fun _ => 0).contents
      { zeroPacket with header := bareHeader } :=
    ⟨by decide, 17, ⟨[], 13, hroot, by decide, rfl, by decide, rfl⟩,
      fun han => absurd han (by decide)⟩
  refine ⟨?_, ?_, ?_⟩
  · intro pkt hno
    -- the question would lie past the end of the datagram
    obtain ⟨-, e, ⟨ls, f, hname, -, -, hfields, -⟩, -⟩ := hno
    have hlt := nameAt_lt_end hname
    have hle := holdsAt_le_length hfields (List.ne_nil_of_length_pos (by simp))
    rw [length_header_wire] at hle
    unfold headerSize at hlt hle
    omega
  · simp only [listenTurn_eq (show headerSize ≤ bareHeader.wire.length by decide)]
    exact recvBuffer_settles_iff.mpr ⟨⟨rfl, fun _ => ⟨rfl, rfl⟩⟩, hreads, rfl⟩
  · exact waitTurn_accepts_iff.mpr ⟨⟨rfl, fun _ => ⟨rfl, rfl⟩⟩, hreads, rfl, rfl, rfl⟩

end DnsServer
