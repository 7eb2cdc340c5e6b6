/-
Packets in memory.

A `struct dns_packet` holds a name and an answer by address.  `dns_question_parse` and
`dns_answer_parse` allocate what they put there, the loops that receive free it when they
are done with the packet, and `dns_create_query_packet` allocates the packet itself.
The functions here are those of `dns_packet.c` and `dns_server.c` with their allocations
and frees; what they compute from the bytes of a datagram is as before.

A pointer that was never set is whatever the stack held, and one whose block was freed
stays as it is.  `dns_start_listening` clears the packet before each datagram and
`dns_wait_response` clears it never.
-/
import DnsServer.Code.Forward
import DnsServer.Code.Listen
import DnsServer.Lib.Heap

namespace DnsServer

structure QuestionFields where
  qname : Option Nat
  qtype : UInt16
  qclass : UInt16
  deriving DecidableEq, Repr

/-- `rclass` is the field `class`. -/
structure AnswerFields where
  name : Option Nat
  type : UInt16
  rclass : UInt16
  ttl : UInt32
  rdlength : UInt16
  rdata : Option Nat
  deriving DecidableEq, Repr

structure PacketFields where
  header : DnsHeader
  question : QuestionFields
  answer : AnswerFields
  deriving DecidableEq, Repr

/-- What is allocated: a packet, bytes, or the address of a client. -/
inductive PacketBlock (ε : Type)
  | packet (fields : PacketFields)
  | bytes (bytes : Bytes)
  | client (addr : ε)

abbrev PacketHeap (ε : Type) := Heap (PacketBlock ε)

/-- What a packet says; there is an answer when the header announces one. -/
structure DnsMessage where
  header : DnsHeader
  question : DnsQuestion
  answer : Option DnsAnswer
  deriving DecidableEq, Repr

def DnsPacket.message (pkt : DnsPacket) : DnsMessage :=
  { header := pkt.header, question := pkt.question
    answer := if 0 < pkt.header.ancount then some pkt.answer else none }

/-- The packet a message was read from, with nothing in an answer that is not announced. -/
def DnsMessage.packet (message : DnsMessage) : DnsPacket :=
  { header := message.header, question := message.question
    answer := message.answer.getD zeroPacket.answer }

/-- A packet with every field zero, as `memset` leaves it. -/
def zeroFields : PacketFields :=
  { header := zeroPacket.header
    question := { qname := none, qtype := 0, qclass := 0 }
    answer := { name := none, type := 0, rclass := 0, ttl := 0, rdlength := 0, rdata := none } }

namespace PacketHeap

variable {ε : Type}

/-- The bytes behind a pointer; behind the null pointer there are none. -/
def readBytes (s : PacketHeap ε) : Option Nat → Call Bytes
  | none => .undefined
  | some a => do
      match ← s.read a with
      | .bytes bytes => return bytes
      | _ => .undefined

def readString (s : PacketHeap ε) (pointer : Option Nat) : Call Bytes := do
  return cstr (← s.readBytes pointer)

/-! ### Parsing -/

/-- The heap, the question as it is left, and whether it was parsed. -/
def dnsQuestionParse (fuel : Nat) (al : Alloc) (data : Memory) (offset : Nat)
    (question : QuestionFields) (s : PacketHeap ε) :
    Call (PacketHeap ε × QuestionFields × Bool) := do
  match ← dnsReadName fuel data (UInt16.ofNat offset) nameBufferSize with
  | none => return (s, question, false)
  | some (nameEnd, nameBuffer) =>
      let offset := nameEnd.toNat
      let (qname, s) := s.mallocIf (al 0) (.bytes (cstr nameBuffer ++ [0]))
      if qname = none then return (s, { question with qname }, false)
      else
        return (s,
          { qname
            qtype := ntohs (load16 data offset)
            qclass := ntohs (load16 data (offset + 2)) }, true)

/-- The heap, the answer as it is left, and whether it was parsed. -/
def dnsAnswerParse (fuel : Nat) (al : Alloc) (data : Memory) (answer : AnswerFields)
    (s : PacketHeap ε) : Call (PacketHeap ε × AnswerFields × Bool) := do
  match ← dnsReadName fuel data (UInt16.ofNat headerSize) nameBufferSize with
  | none => return (s, answer, false)
  | some (questionEnd, _) =>
      let offset := questionEnd.toNat + 4
      match ← dnsReadName fuel data (UInt16.ofNat offset) nameBufferSize with
      | none => return (s, answer, false)
      | some (nameEnd, nameBuffer) =>
          let (name, s) := s.mallocIf (al 1) (.bytes (cstr nameBuffer ++ [0]))
          if name = none then return (s, { answer with name }, false)
          else
            let cur := nameEnd.toNat
            let rdlength := ntohs (load16 data (cur + 8))
            let (rdata, s) := s.mallocIf (al 2)
              (.bytes (slice data (cur + 10) rdlength.toNat ++ [0]))
            let answer : AnswerFields :=
              { name
                type := ntohs (load16 data cur)
                rclass := ntohs (load16 data (cur + 2))
                ttl := ntohl (load32 data (cur + 4))
                rdlength
                rdata }
            -- `answer->name` is left pointing to what is freed
            if rdata = none then return (← s.freePointer name, answer, false)
            else return (s, answer, true)

/-- The heap, the packet as it is left, and whether it was parsed. -/
def dnsRequestParse (fuel : Nat) (al : Alloc) (pkt : PacketFields) (data : Memory)
    (s : PacketHeap ε) : Call (PacketHeap ε × PacketFields × Bool) := do
  let header := dnsHeaderParse data
  let (s, question, parsed) ← dnsQuestionParse fuel al data headerSize pkt.question s
  if parsed = false then return (s, { pkt with header, question }, false)
  else if 0 < header.ancount then do
    let (s, answer, parsed) ← dnsAnswerParse fuel al data pkt.answer s
    return (s, { header, question, answer }, parsed)
  else return (s, { pkt with header, question }, true)

/-! ### Reading and freeing packets -/

/-- What a packet says, read by its pointers, those `dns_print_packet` follows. -/
def readPacket (s : PacketHeap ε) (pkt : PacketFields) : Call DnsMessage := do
  let qname ← s.readString pkt.question.qname
  let question : DnsQuestion :=
    { qname, qtype := pkt.question.qtype, qclass := pkt.question.qclass }
  if 0 < pkt.header.ancount then do
    let name ← s.readString pkt.answer.name
    let rdata ← s.readBytes pkt.answer.rdata
    return {
      header := pkt.header, question
      answer := some
        { name, type := pkt.answer.type, rclass := pkt.answer.rclass, ttl := pkt.answer.ttl
          rdlength := pkt.answer.rdlength
          rdata := rdata.take pkt.answer.rdlength.toNat } }
  else return { header := pkt.header, question, answer := none }

/-- What the loops that receive do with a packet they are done with. -/
def cleanUpPacket (s : PacketHeap ε) (pkt : PacketFields) : Call (PacketHeap ε) := do
  let s ← s.freePointer pkt.question.qname
  if 0 < pkt.header.ancount ∧ pkt.answer.name ≠ none then do
    let s ← s.freePointer pkt.answer.name
    s.freePointer pkt.answer.rdata
  else return s

def dnsFreePacket (s : PacketHeap ε) : Option Nat → Call (PacketHeap ε)
  | none => .done s
  | some packet => do
      match ← s.read packet with
      | .packet fields => do
          let s ← s.freePointer fields.question.qname
          if 0 < fields.header.ancount then do
            let s ← s.freePointer fields.answer.name
            let s ← s.freePointer fields.answer.rdata
            s.free packet
          else s.free packet
      | _ => .undefined

/-! ### Receiving -/

variable {ω : Type}

/-- `dns_wait_response`: the heap, and what its callback gave, or `none` for -1.  `pkt` is
`response_pkt`, whatever is in it. -/
def dnsWaitResponse (fuel : Nat)
    (callback : PacketHeap ε → PacketFields → ε → Call (PacketHeap ε × ω))
    (queryId : UInt16) (timeoutSec startTime : Int) (pkt : PacketFields) (s : PacketHeap ε) :
    List (Round ε) → Call (PacketHeap ε × Option ω)
  | [] => .running
  | round :: rounds =>
      if round.now - startTime < timeoutSec then
        match round.arrival with
        | .interrupted => dnsWaitResponse fuel callback queryId timeoutSec startTime pkt s rounds
        | .nothing => dnsWaitResponse fuel callback queryId timeoutSec startTime pkt s rounds
        | .failed => .done (s, none)
        | .datagram sender bytes => do
            let (s, pkt, parsed) ←
              dnsRequestParse fuel round.al pkt (recvBuffer bytes round.beyond) s
            if parsed = false then
              dnsWaitResponse fuel callback queryId timeoutSec startTime pkt s rounds
            else if pkt.header.id = queryId ∧ pkt.header.qr = qrResponse then do
              let (s, out) ← callback s pkt sender
              return (← s.cleanUpPacket pkt, some out)
            else do
              let s ← s.cleanUpPacket pkt
              dnsWaitResponse fuel callback queryId timeoutSec startTime pkt s rounds
      else .done (s, none)

/-- The loop of `dns_start_listening`, from what its callback gave before. -/
def listenLoop (fuel : Nat)
    (callback : PacketHeap ε → PacketFields → ε → Call (PacketHeap ε × ω)) (outs : List ω)
    (s : PacketHeap ε) : List (Reception ε) → Call (PacketHeap ε × List ω)
  | [] => .running
  | reception :: receptions =>
      if reception.stopped then .done (s, outs)
      else
        match reception.received with
        | none => listenLoop fuel callback outs s receptions
        | some (sender, datagram) =>
            let received := min datagram.length udpBufferSize
            if received < headerSize then listenLoop fuel callback outs s receptions
            else do
              let (s, pkt, parsed) ←
                dnsRequestParse fuel reception.al zeroFields
                  (recvBuffer datagram reception.beyond) s
              if parsed = false then listenLoop fuel callback outs s receptions
              else do
                -- what is printed
                let _ ← s.readPacket pkt
                let (s, out) ← callback s pkt sender
                let s ← s.cleanUpPacket pkt
                listenLoop fuel callback (outs ++ [out]) s receptions

/-! ### Sending -/

/-- What is sent and where to, read from the packet, or `none` for -1. -/
def dnsSendPacket {α : Type} (gSockfd : Int) (serverAddr : Option α) (pkt : PacketFields)
    (s : PacketHeap ε) : Call (Option (Bytes × α)) :=
  if gSockfd = -1 then .done none
  else
    match serverAddr with
    | none => .done none
    | some addr => do
        let qname ← s.readString pkt.question.qname
        return DnsServer.dnsSendPacket gSockfd (some addr)
          { header := pkt.header
            question := { qname, qtype := pkt.question.qtype, qclass := pkt.question.qclass }
            answer := zeroPacket.answer }

/-! ### Callbacks -/

/-- What `handle_dns_response` leaves in the storage it is given; the heap stays as it is. -/
def handleDnsResponse (ipStorage : Bytes) (s : PacketHeap ε) (response : PacketFields)
    (_ : ε) : Call (PacketHeap ε × Bytes) :=
  if 0 < response.header.ancount ∧ response.answer.type = dnsTypeA then do
    let rdata ← s.readBytes response.answer.rdata
    if rdata.length < 4 then .undefined else .done (s, inetNtop (rdata.take 4))
  else .done (s, ipStorage)

/-- `example_dns_callback`: what it prints of the packet, and its sender. -/
def exampleDnsCallback (s : PacketHeap ε) (packet : PacketFields) (sender : ε) :
    Call (PacketHeap ε × ε × DnsMessage) := do
  return (s, sender, ← s.readPacket packet)

/-- `example_dns_forward_callback`: what is sent to the client saved, which is then freed. -/
def exampleDnsForwardCallback (gSockfd : Int) (userData : Option Nat) (s : PacketHeap ε)
    (packet : PacketFields) (_ : ε) : Call (PacketHeap ε × Option (Bytes × ε)) := do
  let message ← s.readPacket packet
  match userData with
  | none => return (s, none)
  | some originalClient =>
      match ← s.read originalClient with
      | .client addr =>
          let answer := dnsSendAnswer gSockfd message.packet
          return (← s.free originalClient, answer.map fun answer => (answer, addr))
      | _ => .undefined

/-! ### Queries -/

/-- The heap, and the packet's address, if it was made. -/
def dnsCreateQueryPacket (al : Alloc) (rand : Nat) (inQname : Bytes) (s : PacketHeap ε) :
    Call (PacketHeap ε × Option Nat) :=
  let (packet, s) := s.mallocIf (al 0) (.packet zeroFields)
  match packet with
  | none => .done (s, none)
  | some packet =>
      let (qname, s) := s.mallocIf (al 1) (.bytes (inQname ++ [0]))
      if qname = none then do return (← s.free packet, none)
      else do
        let s ← s.write packet (.packet
          { zeroFields with
            header :=
              { zeroFields.header with
                id := UInt16.ofNat rand, qr := qrQuery, opcode := opcodeQuery, rd := 1
                qdcount := 1 }
            question := { qname, qtype := dnsTypeA, qclass := dnsClassIn } })
        return (s, some packet)

/-- `dns_query_domain`: the heap, and what its callback gave, or `none` for -1. -/
def dnsQueryDomain (fuel : Nat) (domainName : Bytes) (env : QueryEnv ε)
    (callback : PacketHeap ε → PacketFields → ε → Call (PacketHeap ε × ω)) (pkt : PacketFields)
    (s : PacketHeap ε) : Call (PacketHeap ε × Option ω) :=
  match env.querySocket with
  | none => .done (s, none)
  | some gSockfd => do
      let (s, queryPkt) ← dnsCreateQueryPacket env.al env.rand domainName s
      match queryPkt with
      | none => return (s, none)
      | some queryPkt =>
          match ← s.read queryPkt with
          | .packet fields => do
              let sendResult ← dnsSendPacket gSockfd env.serverAddr fields s
              let queryId := fields.header.id
              let s ← s.dnsFreePacket (some queryPkt)
              if sendResult = none ∨ env.sends = false then return (s, none)
              else
                dnsWaitResponse fuel callback queryId 5 env.startTime pkt s env.rounds
          | _ => .undefined

/-- `ip_address` of `handleClient` after `dns_query_domain`, and the heap. -/
def forwardedAddress (fuel : Nat) (domainName : Bytes) (env : QueryEnv ε) (pkt : PacketFields)
    (s : PacketHeap ε) : Call (PacketHeap ε × Bytes) := do
  let (s, result) ← dnsQueryDomain fuel domainName env (handleDnsResponse []) pkt s
  return (s, result.getD [])

/-- `dns_forward_query`, for a packet of its caller's: the heap, and what its callback gave, or
`none` for -1. -/
def dnsForwardQuery (fuel : Nat) (gSockfd : Int) (queryPkt : PacketFields)
    (forwardAddr : Option ε) (sends : Bool) (startTime : Int) (rounds : List (Round ε))
    (callback : PacketHeap ε → PacketFields → ε → Call (PacketHeap ε × ω)) (pkt : PacketFields)
    (s : PacketHeap ε) : Call (PacketHeap ε × Option ω) :=
  if gSockfd = -1 then .done (s, none)
  else do
    let result ← dnsSendPacket gSockfd forwardAddr queryPkt s
    if result = none ∨ sends = false then return (s, none)
    else dnsWaitResponse fuel callback queryPkt.header.id 5 startTime pkt s rounds

end PacketHeap

end DnsServer
