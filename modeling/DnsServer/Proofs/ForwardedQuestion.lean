/-
A question on its way through the server.

A query is read into a packet, its name becoming text, and forwarded from there.
What the text cannot say is lost: the root comes out with a zero too many, a NUL
ends the name, and a dot inside a label cuts it in two.  Every other question
leaves as the bytes it came as.
-/
import DnsServer.Proofs.Labels
import DnsServer.Proofs.Truncated
import DnsServer.Code.Forward

namespace DnsServer

open Call

/-- A question in wire form, its name uncompressed. -/
def questionSection (ls : List Bytes) (qtype qclass : UInt16) : Bytes :=
  encodeLabels ls ++ Endian.beBytes 2 qtype.toNat ++ Endian.beBytes 2 qclass.toNat

/-- Labels that text can carry: some, and none with a NUL or a dot in it. -/
def TextSafe (ls : List Bytes) : Prop := ls ≠ [] ∧ ∀ l ∈ ls, (0 : UInt8) ∉ l ∧ dot ∉ l

/-! ### The name -/

/-- **Text and back**: what is laid out for the text of some labels are these labels exactly
when text can carry them. -/
theorem encode_nameText_iff {ls : List Bytes} (hls : ∀ l ∈ ls, Readable l)
    (hroom : (dotted ls).length < nameBufferSize) :
    encodeLabels (textLabels (nameText ls)) = encodeLabels ls ↔ TextSafe ls := by
  refine ⟨?_, ?_⟩
  · intro h
    have hsame : textLabels (nameText ls) = ls := by
      refine encodeLabels_inj ?_ ?_ h
      · intro l hl
        have hinfix := (Split.infix_of_mem_splitOn hl).length_le
        have htext := length_nameText_of_fits hroom
        omega
      · exact fun l hl => Nat.lt_of_le_of_lt (hls l hl).2 (by decide)
    refine ⟨hsame ▸ textLabels_ne_nil _, ?_⟩
    intro l hl
    rw [← hsame] at hl
    refine ⟨?_, Split.not_mem_of_mem_splitOn hl⟩
    exact fun hnul => noNul_cstr _ ((Split.infix_of_mem_splitOn hl).subset hnul)
  · intro h
    rw [nameText_of_noNul fun l hl => (h.2 l hl).1,
      textLabels_joined h.1 fun l hl => (h.2 l hl).2]

/-! ### The packet in between -/

/-- What listening makes of an uncompressed question. -/
theorem listenTurn_question {al : Alloc} {beyond : Memory} {datagram : Bytes} {pkt : DnsPacket}
    {ls : List Bytes} {qtype qclass : UInt16} (hls : ∀ l ∈ ls, Readable l)
    (hsection : HoldsAt (recvBuffer datagram beyond).contents headerSize
      (questionSection ls qtype qclass))
    (haccepts : Settles (fun fuel => listenTurn fuel al beyond datagram) (done (some pkt))) :
    pkt.question = { qname := nameText ls, qtype := qtype, qclass := qclass } ∧
      (dotted ls).length < nameBufferSize := by
  have hlong : headerSize ≤ datagram.length := by
    by_contra hshort
    simp only [listenTurn_short (Nat.not_le.mp hshort)] at haccepts
    simp only [Settles.const_iff] at haccepts
    simp at haccepts
  simp only [listenTurn_eq hlong] at haccepts
  obtain ⟨-, -, ⟨-, e, ⟨ls', f, hname, hroom, hq, hfields, -⟩, -⟩, -⟩ :=
    dnsRequestParse_settles_iff.mp haccepts
  rw [questionSection, List.append_assoc, holdsAt_append] at hsection
  obtain ⟨rfl, rfl⟩ := nameAt_det hname (nameAt_encodeLabels hls hsection.1)
  have hsame := holdsAt_inj hfields hsection.2 (by simp)
  obtain ⟨htype, hclass⟩ := List.append_inj hsame (by simp)
  refine ⟨?_, hroom⟩
  rw [DnsQuestion.mk.injEq]
  exact ⟨hq, beBytes_uint16_inj htype, beBytes_uint16_inj hclass⟩

/-! ### The datagram that leaves -/

theorem dnsForwardQuery_sent {ε : Type} {fuel : Nat} {gSockfd : Int} {pkt : DnsPacket}
    {forwardAddr : Option ε} {sends : Bool} {startTime : Int} {rounds : List (Round ε)}
    {msg : Bytes} {addr : ε}
    (h : (dnsForwardQuery fuel gSockfd pkt forwardAddr sends startTime rounds).1
      = some (msg, addr)) : msg = sendPacketBuffer pkt := by
  unfold dnsForwardQuery at h
  by_cases hsock : gSockfd = -1
  · rw [if_pos hsock] at h
    simp at h
  · rw [if_neg hsock] at h
    cases forwardAddr with
    | none => simp [dnsSendPacket] at h
    | some addr' =>
        cases sends with
        | false => simp [dnsSendPacket, hsock] at h
        | true =>
            simp [dnsSendPacket, hsock] at h
            exact h.1.symm

theorem drop_sendPacketBuffer (pkt : DnsPacket) :
    (sendPacketBuffer pkt).drop headerSize
      = questionSection (textLabels pkt.question.qname) pkt.question.qtype
          pkt.question.qclass := by
  rw [sendPacketBuffer_eq, List.append_assoc, List.append_assoc,
    ← length_header_wire pkt.header, List.drop_left, questionSection, List.append_assoc]

/--
**A forwarded question leaves as it came exactly when text can carry its name**: it
has a label, and no label holds a NUL or a dot.  The question came uncompressed in
a datagram that listening accepts, of any counts and with any bytes after it.
-/
theorem forwarded_question_iff {ε : Type} (al : Alloc) (beyond : Memory) (datagram : Bytes)
    (pkt : DnsPacket) (ls : List Bytes) (qtype qclass : UInt16) (hls : ∀ l ∈ ls, Readable l)
    (hsection : HoldsAt (recvBuffer datagram beyond).contents headerSize
      (questionSection ls qtype qclass))
    (haccepts : Settles (fun fuel => listenTurn fuel al beyond datagram) (done (some pkt)))
    (fuel : Nat) (gSockfd : Int) (forwardAddr : Option ε) (sends : Bool) (startTime : Int)
    (rounds : List (Round ε)) (msg : Bytes) (addr : ε)
    (hsent : (dnsForwardQuery fuel gSockfd pkt forwardAddr sends startTime rounds).1
      = some (msg, addr)) :
    msg.drop headerSize = questionSection ls qtype qclass ↔ TextSafe ls := by
  obtain ⟨hquestion, hroom⟩ := listenTurn_question hls hsection haccepts
  rw [dnsForwardQuery_sent hsent, drop_sendPacketBuffer, hquestion]
  unfold questionSection
  rw [List.append_assoc, List.append_assoc, List.append_left_inj]
  exact encode_nameText_iff hls hroom

/-! ### Questions as clients send them -/

def queryHeader : DnsHeader :=
  { id := 7, rd := 1, tc := 0, aa := 0, opcode := 0, qr := 0, rcode := 0, cd := 0, ad := 0, z := 0
    ra := 0, qdcount := 1, ancount := 0, nscount := 0, arcount := 0 }

/-- A query for the address of a name. -/
def addressQuery (ls : List Bytes) : Bytes :=
  queryHeader.wire ++ questionSection ls dnsTypeA dnsClassIn

theorem addressQuery_short {ls : List Bytes} (hroom : (dotted ls).length < nameBufferSize) :
    (addressQuery ls).length ≤ udpBufferSize := by
  have hlen := length_encodeLabels ls
  unfold nameBufferSize at hroom
  simp only [addressQuery, questionSection, List.length_append, length_header_wire, hlen,
    Endian.length_beBytes]
  unfold headerSize udpBufferSize
  omega

theorem addressQuery_received {ls : List Bytes} (hroom : (dotted ls).length < nameBufferSize)
    (beyond : Memory) :
    HoldsAt (recvBuffer (addressQuery ls) beyond).contents 0 queryHeader.wire ∧
      HoldsAt (recvBuffer (addressQuery ls) beyond).contents headerSize
        (questionSection ls dnsTypeA dnsClassIn) := by
  have hall := holdsAt_mono (contents_le_recvBuffer (addressQuery_short hroom) beyond)
    (holdsAt_bytes (addressQuery ls))
  generalize recvBuffer (addressQuery ls) beyond = data at hall
  rw [addressQuery, holdsAt_append, length_header_wire] at hall
  exact hall

theorem listenTurn_addressQuery {ls : List Bytes} (hls : ∀ l ∈ ls, Readable l)
    (hroom : (dotted ls).length < nameBufferSize) (beyond : Memory) :
    ∃ pkt, pkt.header.qdcount = 1 ∧
      Settles (fun fuel => listenTurn fuel allocOk beyond (addressQuery ls))
        (done (some pkt)) := by
  obtain ⟨hheader, hsection⟩ := addressQuery_received hroom beyond
  have hlong : headerSize ≤ (addressQuery ls).length := by
    rw [addressQuery, List.length_append, length_header_wire]
    exact Nat.le_add_right _ _
  refine ⟨{ zeroPacket with
    header := queryHeader
    question := { qname := nameText ls, qtype := dnsTypeA, qclass := dnsClassIn } }, rfl, ?_⟩
  simp only [listenTurn_eq hlong]
  rw [questionSection, List.append_assoc, holdsAt_append] at hsection
  have hno : ¬ 0 < queryHeader.ancount := by decide
  exact dnsRequestParse_settles_iff.mpr ⟨rfl, fun hyes => absurd hyes hno,
    ⟨hheader, _, ⟨ls, _, nameAt_encodeLabels hls hsection.1, hroom, rfl, hsection.2, rfl⟩,
      fun hyes => absurd hyes hno⟩, fun _ => rfl⟩

theorem forwarded_question_exampleCom :
    ∃ pkt msg, Settles (fun fuel => listenTurn fuel allocOk (fun _ => 0)
        (addressQuery exampleCom.raw)) (done (some pkt)) ∧
      (dnsForwardQuery 9 3 pkt (some "8.8.8.8") true 0 []).1 = some (msg, "8.8.8.8") ∧
      (msg.drop headerSize = questionSection exampleCom.raw dnsTypeA dnsClassIn ↔
        TextSafe exampleCom.raw) := by
  have hls : ∀ l ∈ exampleCom.raw, Readable l := fun l hl =>
    ⟨(exampleCom_encodes l hl).1, (exampleCom_encodes l hl).2.trans (by decide)⟩
  have hroom : (dotted exampleCom.raw).length < nameBufferSize := by decide
  obtain ⟨pkt, -, haccepts⟩ := listenTurn_addressQuery hls hroom fun _ => 0
  exact ⟨pkt, _, haccepts, rfl, forwarded_question_iff allocOk _ _ pkt _ _ _ hls
    (addressQuery_received hroom _).2 haccepts 9 3 (some "8.8.8.8") true 0 [] _ _ rfl⟩

/-- The root's question comes out one byte longer. -/
theorem forwarded_root_changed :
    ∃ pkt msg, pkt.header.qdcount = 1 ∧
      Settles (fun fuel => listenTurn fuel allocOk (fun _ => 0) (addressQuery []))
        (done (some pkt)) ∧
      (dnsForwardQuery 9 3 pkt (some "8.8.8.8") true 0 []).1 = some (msg, "8.8.8.8") ∧
      (addressQuery []).drop headerSize = [0, 0, 1, 0, 1] ∧
      msg.drop headerSize = [0, 0, 0, 1, 0, 1] := by
  have hls : ∀ l ∈ ([] : List Bytes), Readable l := fun l hl => absurd hl List.not_mem_nil
  have hroom : (dotted []).length < nameBufferSize := by decide
  obtain ⟨pkt, hcount, haccepts⟩ := listenTurn_addressQuery hls hroom fun _ => 0
  obtain ⟨hquestion, -⟩ := listenTurn_question hls (addressQuery_received hroom _).2 haccepts
  refine ⟨pkt, _, hcount, haccepts, rfl, by decide, ?_⟩
  rw [drop_sendPacketBuffer, hquestion]
  decide

end DnsServer
