/-
Sending and receiving packets, as `dns_server.c` does it.

`dnsEncodeName` writes a length octet late: it leaves room for it, copies the
label, and goes back when the label ends.  Its state is what it has written so
far and where the room is.  The 512-byte buffers are lists of the bytes written
to them, so a message overruns its buffer when the list is longer.

A datagram is received into a buffer cleared before, so what follows it there is
zeros up to byte 512 and then whatever the stack holds.
-/
import DnsServer.Code.Packet

namespace DnsServer

/-- `sizeof(buffer)`, the standard size of a message over UDP. -/
def udpBufferSize : Nat := 512

/-! ### Sending -/

structure EncodeState where
  out : Bytes
  labelLengthPtr : Nat
  labelLength : Nat
  totalLength : Nat

/-- One character of the domain: a dot closes the label and makes room for the next length. -/
def encodeNameStep (s : EncodeState) (c : UInt8) : EncodeState :=
  if c = dot then
    { out := s.out.set s.labelLengthPtr (UInt8.ofNat s.labelLength) ++ [0]
      labelLengthPtr := s.out.length
      labelLength := 0
      totalLength := s.totalLength + 1 }
  else
    { s with
      out := s.out ++ [c]
      labelLength := s.labelLength + 1
      totalLength := s.totalLength + 1 }

/-- The code after the loop: the last label's length, and the terminating zero. -/
def encodeNameEnd (s : EncodeState) : Bytes × Nat :=
  (s.out.set s.labelLengthPtr (UInt8.ofNat s.labelLength) ++ [0], s.totalLength + 1)

/-- The bytes written for a domain and the length returned. -/
def dnsEncodeName (domain : Bytes) : Bytes × Nat :=
  encodeNameEnd (domain.foldl encodeNameStep
    { out := [0], labelLengthPtr := 0, labelLength := 0, totalLength := 1 })

/-- The header with its numbers in network order. -/
def DnsHeader.hton (h : DnsHeader) : DnsHeader :=
  { h with
    id := htons h.id
    qdcount := htons h.qdcount
    ancount := htons h.ancount
    nscount := htons h.nscount
    arcount := htons h.arcount }

/-- What `dns_send_packet` has put in its buffer when it calls `sendto`. -/
def sendPacketBuffer (pkt : DnsPacket) : Bytes :=
  let (name, nameLength) := dnsEncodeName pkt.question.qname
  pkt.header.hton.store ++ name.take nameLength ++
    store16 (htons pkt.question.qtype) ++ store16 (htons pkt.question.qclass)

/-- The datagram sent and where to, or `none` for -1; `serverAddr` is what `inet_pton`
makes of the server's address. -/
def dnsSendPacket {α : Type} (gSockfd : Int) (serverAddr : Option α) (pkt : DnsPacket) :
    Option (Bytes × α) :=
  if gSockfd = -1 then none
  else serverAddr.map fun addr => (sendPacketBuffer pkt, addr)

/-- What `dns_send_answer` has put in its buffer when it calls `sendto`. -/
def sendAnswerBuffer (pkt : DnsPacket) : Bytes :=
  DnsHeader.store { pkt.header with qr := qrResponse }.hton ++
    (pkt.question.qname ++ [0]) ++
    store16 (htons pkt.question.qtype) ++ store16 (htons pkt.question.qclass) ++
    if 0 < pkt.header.ancount then
      (pkt.answer.name ++ [0]) ++ store16 (htons pkt.answer.type) ++
        store16 (htons pkt.answer.rclass) ++ store32 (htonl pkt.answer.ttl) ++
        store16 (htons pkt.answer.rdlength) ++ pkt.answer.rdata.take pkt.answer.rdlength.toNat
    else []

/-- The datagram sent to the client, or `none` for -1. -/
def dnsSendAnswer (gSockfd : Int) (pkt : DnsPacket) : Option Bytes :=
  if gSockfd = -1 then none else some (sendAnswerBuffer pkt)

/-! ### Receiving -/

/-- The buffer after `memset` and `recvfrom`, followed by the memory beyond it. -/
def recvBuffer (datagram : Bytes) (beyond : Memory) : Memory :=
  Memory.ofBytes
    (datagram.take udpBufferSize ++ List.replicate (udpBufferSize - datagram.length) 0) beyond

/-- A packet with every field zero, as `memset` leaves it. -/
def zeroPacket : DnsPacket :=
  { header :=
      { id := 0, rd := 0, tc := 0, aa := 0, opcode := 0, qr := 0, rcode := 0, cd := 0, ad := 0
        z := 0, ra := 0, qdcount := 0, ancount := 0, nscount := 0, arcount := 0 }
    question := { qname := [], qtype := 0, qclass := 0 }
    answer := { name := [], type := 0, rclass := 0, ttl := 0, rdlength := 0, rdata := [] } }

/-- One turn of `dns_start_listening`: the packet handed to the callback, if any. -/
def listenTurn (fuel : Nat) (al : Alloc) (beyond : Memory) (datagram : Bytes) :
    Call (Option DnsPacket) :=
  let received := min datagram.length udpBufferSize
  if received < headerSize then return none
  else dnsRequestParse fuel al zeroPacket (recvBuffer datagram beyond)

/-- One turn of `dns_wait_response` once a datagram is there: the response handed to the
callback, if it is the one waited for.  `responsePkt` is what earlier turns left. -/
def waitTurn (fuel : Nat) (al : Alloc) (beyond : Memory) (queryId : UInt16)
    (responsePkt : DnsPacket) (datagram : Bytes) : Call (Option DnsPacket) := do
  match ← dnsRequestParse fuel al responsePkt (recvBuffer datagram beyond) with
  | none => return none
  | some pkt =>
      if pkt.header.id = queryId ∧ pkt.header.qr = qrResponse then return some pkt
      else return none

end DnsServer
