/-
The writes into the fixed buffers, as `mainDNS.c`, `dns_server.c` and `dns_packet.c` make
them.

A write is an index into the buffer and the byte put there.  The functions here go
through the same source as those of `Packet`, `Server` and `MainDns`, and say where each
byte goes instead of what is there in the end; the offsets are the source's, and only
`dns_read_name` looks at the size of the buffer.
-/
import DnsServer.Code.Forward
import DnsServer.Code.MainDns
import DnsServer.Lib.Writes

namespace DnsServer

open Writes

/-! ### The handler's buffer -/

/-- The writes `handleClient` makes into `buffer`: the initializer, what `read` brings, and the
NUL after it. -/
def handleClientWrites (sent : Option Bytes) : List (Nat × UInt8) :=
  let initial := copyAt 0 (List.replicate bufferSize 0)
  match sent with
  | none => initial
  | some sent =>
      let received := sent.take bufferSize
      let valread := received.length
      if valread = 0 then initial
      else initial ++ copyAt 0 received ++ [(valread, 0)]

/-! ### Reading a name -/

/-- The variables of `dns_read_name`, and the writes made into `dest` so far. -/
structure NameCursor where
  dataPtr : Nat
  destOffset : Nat
  jumped : Bool
  totalOffset : UInt16
  writes : List (Nat × UInt8)

def readNameWriteStart (offset : UInt16) : NameCursor :=
  { dataPtr := offset.toNat, destOffset := 0, jumped := false, totalOffset := offset, writes := [] }

/-- One turn of the loop of `dns_read_name`: the offset returned, or `none` for -1, and the
writes made. -/
def readNameWrite (data : Memory) (maxLen : Nat) (s : NameCursor) :
    Loop.Turn NameCursor (Option UInt16 × List (Nat × UInt8)) :=
  let octet := data s.dataPtr
  if octet = 0 then
    let totalOffset := if s.jumped then s.totalOffset else s.totalOffset + 1
    let terminator := if 0 < s.destOffset then s.destOffset - 1 else 0
    .leave (some totalOffset, s.writes ++ [(terminator, 0)])
  else if isPointer octet then
    .again { s with
      dataPtr := jumpOffset octet (data (s.dataPtr + 1))
      jumped := true
      totalOffset := if s.jumped then s.totalOffset else s.totalOffset + 2 }
  else
    let labelLength := octet.toNat
    if maxLen ≤ s.destOffset + labelLength + 1 then .leave (none, s.writes)
    else
      .again
        { dataPtr := s.dataPtr + 1 + labelLength
          destOffset := s.destOffset + labelLength + 1
          jumped := s.jumped
          totalOffset :=
            if s.jumped then s.totalOffset else s.totalOffset + 1 + UInt16.ofNat labelLength
          writes := s.writes ++ copyAt s.destOffset (slice data (s.dataPtr + 1) labelLength) ++
            [(s.destOffset + labelLength, dot)] }

/-! ### Sending a query -/

/-- The pointers and counters of `dns_encode_name`, and the writes made so far. -/
structure EncodeCursor where
  buffer : Nat
  labelLengthPtr : Nat
  labelLength : Nat
  totalLength : Nat
  writes : List (Nat × UInt8)

def encodeNameWrite (s : EncodeCursor) (c : UInt8) : EncodeCursor :=
  if c = dot then
    { buffer := s.buffer + 1
      labelLengthPtr := s.buffer
      labelLength := 0
      totalLength := s.totalLength + 1
      writes := s.writes ++ [(s.labelLengthPtr, UInt8.ofNat s.labelLength)] }
  else
    { s with
      buffer := s.buffer + 1
      labelLength := s.labelLength + 1
      totalLength := s.totalLength + 1
      writes := s.writes ++ [(s.buffer, c)] }

def encodeNameStart (buffer : Nat) : EncodeCursor :=
  { buffer := buffer + 1, labelLengthPtr := buffer, labelLength := 0, totalLength := 1
    writes := [] }

/-- The writes for a domain, from an index on, and the length returned. -/
def dnsEncodeNameWrites (buffer : Nat) (domain : Bytes) : List (Nat × UInt8) × Nat :=
  let s := domain.foldl encodeNameWrite (encodeNameStart buffer)
  (s.writes ++ [(s.labelLengthPtr, UInt8.ofNat s.labelLength), (s.buffer, 0)], s.totalLength + 1)

/-- The writes `dns_send_packet` makes once the server's address is read. -/
def sendPacketWrites (pkt : DnsPacket) : List (Nat × UInt8) :=
  let offset := 0
  let header := copyAt offset pkt.header.hton.store
  let offset := offset + headerSize
  let (name, nameLength) := dnsEncodeNameWrites offset pkt.question.qname
  let offset := offset + nameLength
  let qtype := copyAt offset (store16 (htons pkt.question.qtype))
  let offset := offset + 2
  let qclass := copyAt offset (store16 (htons pkt.question.qclass))
  header ++ name ++ qtype ++ qclass

def dnsSendPacketWrites {α : Type} (gSockfd : Int) (serverAddr : Option α) (pkt : DnsPacket) :
    List (Nat × UInt8) :=
  if gSockfd = -1 then []
  else
    match serverAddr with
    | none => []
    | some _ => sendPacketWrites pkt

variable {ε : Type}

/-- The writes into the packet buffer while a domain is asked for. -/
def dnsQueryDomainWrites (domainName : Bytes) (env : QueryEnv ε) : List (Nat × UInt8) :=
  match env.querySocket with
  | none => []
  | some gSockfd =>
      match dnsCreateQueryPacket env.al env.rand domainName with
      | none => []
      | some queryPkt => dnsSendPacketWrites gSockfd env.serverAddr queryPkt

/-- The writes into the packet buffer while a request is handled. -/
def handleClientPacketWrites (fuel : Nat) (root : TrieNode) (cache : DNSCache)
    (request : ClientRequest) (env : QueryEnv ε) : Call (List (Nat × UInt8)) :=
  match request.sent with
  | none => .done []
  | some sent =>
      let received := sent.take bufferSize
      if received = [] then .done []
      else if received.length = bufferSize then .undefined
      else
        let buffer := cstr received
        if buffer = ascii "trie" then .done []
        else do
          let (cacheEntry, _) ← retriveValue fuel root buffer request.calls cache
          match cacheEntry with
          | some _ => return []
          | none => return dnsQueryDomainWrites buffer env

/-! ### Sending an answer -/

/-- The writes `dns_send_answer` makes. -/
def sendAnswerWrites (answerPkt : DnsPacket) : List (Nat × UInt8) :=
  let offset := 0
  let header := copyAt offset (DnsHeader.store { answerPkt.header with qr := qrResponse }.hton)
  let offset := offset + headerSize
  let qname := copyAt offset (answerPkt.question.qname ++ [0])
  let offset := offset + (answerPkt.question.qname.length + 1)
  let qtype := copyAt offset (store16 (htons answerPkt.question.qtype))
  let offset := offset + 2
  let qclass := copyAt offset (store16 (htons answerPkt.question.qclass))
  let offset := offset + 2
  let question := header ++ qname ++ qtype ++ qclass
  if 0 < answerPkt.header.ancount then
    let name := copyAt offset (answerPkt.answer.name ++ [0])
    let offset := offset + (answerPkt.answer.name.length + 1)
    let type := copyAt offset (store16 (htons answerPkt.answer.type))
    let offset := offset + 2
    let rclass := copyAt offset (store16 (htons answerPkt.answer.rclass))
    let offset := offset + 2
    let ttl := copyAt offset (store32 (htonl answerPkt.answer.ttl))
    let offset := offset + 4
    let rdlength := copyAt offset (store16 (htons answerPkt.answer.rdlength))
    let offset := offset + 2
    let rdata := copyAt offset (answerPkt.answer.rdata.take answerPkt.answer.rdlength.toNat)
    question ++ name ++ type ++ rclass ++ ttl ++ rdlength ++ rdata
  else question

def dnsSendAnswerWrites (gSockfd : Int) (answerPkt : DnsPacket) : List (Nat × UInt8) :=
  if gSockfd = -1 then [] else sendAnswerWrites answerPkt

/-- The writes into the output buffer while a response is relayed to the client saved for it. -/
def exampleDnsForwardCallbackWrites (gSockfd : Int) (packet : DnsPacket) (userData : Option ε) :
    List (Nat × UInt8) :=
  match userData with
  | none => []
  | some _ => dnsSendAnswerWrites gSockfd packet

end DnsServer
