/-
The packet parser, as `dns_packet.c` computes it.

`dnsReadName` is the loop every name goes through.  Its body handles one octet:
zero ends the name, an octet whose two top bits are set is the first half of a
compression pointer, and anything else is the length of a label that follows.
The loop is run on fuel, because nothing in the source bounds the pointers it
follows.  `total_offset` is a `uint16_t` and wraps; the destination is the list
of bytes written so far, so `dest_offset` is its length.  `utilMeasureName` counts the
octets of a name and follows no pointer.

The parsing functions answer `none` where the source returns -1.  A `Call` that
is `running` has not returned yet.
-/
import DnsServer.Code.Memory
import DnsServer.Lib.Loop

namespace DnsServer

def qrQuery : BitVec 1 := 0
def qrResponse : BitVec 1 := 1
def opcodeQuery : BitVec 4 := 0
def dnsTypeA : UInt16 := 1
def dnsClassIn : UInt16 := 1

structure DnsHeader where
  id : UInt16
  rd : BitVec 1
  tc : BitVec 1
  aa : BitVec 1
  opcode : BitVec 4
  qr : BitVec 1
  rcode : BitVec 4
  cd : BitVec 1
  ad : BitVec 1
  z : BitVec 1
  ra : BitVec 1
  qdcount : UInt16
  ancount : UInt16
  nscount : UInt16
  arcount : UInt16
  deriving DecidableEq, Repr

structure DnsQuestion where
  qname : Bytes
  qtype : UInt16
  qclass : UInt16
  deriving DecidableEq, Repr

/-- `rclass` is the field `class`.  `rdata` holds the `rdlength` bytes copied, without
the NUL put after them. -/
structure DnsAnswer where
  name : Bytes
  type : UInt16
  rclass : UInt16
  ttl : UInt32
  rdlength : UInt16
  rdata : Bytes
  deriving DecidableEq, Repr

structure DnsPacket where
  header : DnsHeader
  question : DnsQuestion
  answer : DnsAnswer
  deriving DecidableEq, Repr

/-- `sizeof(struct dns_header)`. -/
def headerSize : Nat := 12

/-- `sizeof(name_buffer)`. -/
def nameBufferSize : Nat := 256

/-! ### The header in memory -/

/-- The first eight bit fields, `rd` lowest. -/
def DnsHeader.flagsLow (h : DnsHeader) : BitVec 8 := h.qr ++ h.opcode ++ h.aa ++ h.tc ++ h.rd

/-- The other eight, `rcode` lowest. -/
def DnsHeader.flagsHigh (h : DnsHeader) : BitVec 8 := h.ra ++ h.z ++ h.ad ++ h.cd ++ h.rcode

/-- The flags' storage unit on a little-endian host: the first field declared is lowest. -/
def DnsHeader.flags (h : DnsHeader) : BitVec 16 := h.flagsHigh ++ h.flagsLow

/-- The bytes `memcpy` takes from a `struct dns_header`. -/
def DnsHeader.store (h : DnsHeader) : Bytes :=
  store16 h.id ++ Endian.leBytes 2 h.flags.toNat ++ store16 h.qdcount ++ store16 h.ancount ++
    store16 h.nscount ++ store16 h.arcount

/-- The `struct dns_header` that `memcpy` fills from memory. -/
def DnsHeader.load (data : Memory) (p : Nat) : DnsHeader :=
  let flags := BitVec.ofNat 16 (Endian.ofLeBytes (slice data (p + 2) 2))
  { id := load16 data p
    rd := flags.extractLsb' 0 1
    tc := flags.extractLsb' 1 1
    aa := flags.extractLsb' 2 1
    opcode := flags.extractLsb' 3 4
    qr := flags.extractLsb' 7 1
    rcode := flags.extractLsb' 8 4
    cd := flags.extractLsb' 12 1
    ad := flags.extractLsb' 13 1
    z := flags.extractLsb' 14 1
    ra := flags.extractLsb' 15 1
    qdcount := load16 data (p + 4)
    ancount := load16 data (p + 6)
    nscount := load16 data (p + 8)
    arcount := load16 data (p + 10) }

/-! ### Names -/

/-- Both top bits set: the octet starts a compression pointer. -/
def isPointer (b : UInt8) : Bool := b &&& 0xC0 == 0xC0

/-- Where a compression pointer made of two octets points. -/
def jumpOffset (b c : UInt8) : Nat := (b &&& 0x3F).toNat <<< 8 ||| c.toNat

/-- The variables `dns_read_name` carries from one turn of its loop to the next. -/
structure ReadState where
  dataPtr : Nat
  dest : Bytes
  jumped : Bool
  totalOffset : UInt16

/-- The code after the loop: the last dot becomes the terminator. -/
def readNameEnd (s : ReadState) : UInt16 × Bytes :=
  let totalOffset := if s.jumped then s.totalOffset else s.totalOffset + 1
  (totalOffset, s.dest.dropLast ++ [0])

/-- One turn of the loop of `dns_read_name`. -/
def readNameBody (data : Memory) (maxLen : Nat) (s : ReadState) :
    Loop.Turn ReadState (Option (UInt16 × Bytes)) :=
  let octet := data s.dataPtr
  if octet = 0 then .leave (some (readNameEnd s))
  else if isPointer octet then
    .again { s with
      dataPtr := jumpOffset octet (data (s.dataPtr + 1))
      jumped := true
      totalOffset := if s.jumped then s.totalOffset else s.totalOffset + 2 }
  else
    let labelLength := octet.toNat
    if maxLen ≤ s.dest.length + labelLength + 1 then .leave none
    else
      .again { s with
        dataPtr := s.dataPtr + 1 + labelLength
        dest := s.dest ++ slice data (s.dataPtr + 1) labelLength ++ [dot]
        totalOffset :=
          if s.jumped then s.totalOffset else s.totalOffset + 1 + UInt16.ofNat labelLength }

def readNameStart (offset : UInt16) : ReadState :=
  { dataPtr := offset.toNat, dest := [], jumped := false, totalOffset := offset }

/-- The offset after the name and the buffer it was written to, or `none` for -1. -/
def dnsReadName (fuel : Nat) (data : Memory) (offset : UInt16) (maxLen : Nat) :
    Call (Option (UInt16 × Bytes)) :=
  .ofRun (Loop.run (readNameBody data maxLen) fuel (readNameStart offset))

/-! ### Measuring a name -/

/-- The variables of `util_measure_name`. -/
structure MeasureState where
  dataPtr : Nat
  length : Nat

/-- One turn of the loop of `util_measure_name`, which stops at the first pointer. -/
def measureNameBody (data : Memory) (s : MeasureState) : Loop.Turn MeasureState Nat :=
  let octet := data s.dataPtr
  if octet = 0 then .leave (s.length + 1)
  else if isPointer octet then .leave (s.length + 2)
  else
    let labelLength := octet.toNat
    .again
      { dataPtr := s.dataPtr + (labelLength + 1)
        length := s.length + (labelLength + 1) }

/-- The bytes a name takes up where it stands. -/
def utilMeasureName (fuel : Nat) (data : Memory) (offset : UInt16) : Call Nat :=
  .ofRun (Loop.run (measureNameBody data) fuel { dataPtr := offset.toNat, length := 0 })

/-! ### Parsing -/

def dnsHeaderParse (data : Memory) : DnsHeader :=
  let header := DnsHeader.load data 0
  { header with
    id := ntohs header.id
    qdcount := ntohs header.qdcount
    ancount := ntohs header.ancount
    nscount := ntohs header.nscount
    arcount := ntohs header.arcount }

/-- The question at `offset` and the offset after it.  Allocation 0 is its name. -/
def dnsQuestionParse (fuel : Nat) (al : Alloc) (data : Memory) (offset : Nat) :
    Call (Option (DnsQuestion × Nat)) := do
  match ← dnsReadName fuel data (UInt16.ofNat offset) nameBufferSize with
  | none => return none
  | some (nameEnd, nameBuffer) =>
      if !al 0 then return none
      let offset := nameEnd.toNat
      return some
        ({ qname := cstr nameBuffer
           qtype := ntohs (load16 data offset)
           qclass := ntohs (load16 data (offset + 2)) }, offset + 4)

/-- The first record after the question.  Allocations 1 and 2 are its name and data. -/
def dnsAnswerParse (fuel : Nat) (al : Alloc) (data : Memory) : Call (Option DnsAnswer) := do
  match ← dnsReadName fuel data (UInt16.ofNat headerSize) nameBufferSize with
  | none => return none
  | some (questionEnd, _) =>
      -- skip QTYPE and QCLASS
      let offset := questionEnd.toNat + 4
      match ← dnsReadName fuel data (UInt16.ofNat offset) nameBufferSize with
      | none => return none
      | some (nameEnd, nameBuffer) =>
          if !al 1 then return none
          let cur := nameEnd.toNat
          let rdlength := ntohs (load16 data (cur + 8))
          if !al 2 then return none
          return some
            { name := cstr nameBuffer
              type := ntohs (load16 data cur)
              rclass := ntohs (load16 data (cur + 2))
              ttl := ntohl (load32 data (cur + 4))
              rdlength := rdlength
              rdata := slice data (cur + 10) rdlength.toNat }

/-- The packet `pkt` is overwritten with, or `none` for -1.  The answer is left as it
was when the header announces none. -/
def dnsRequestParse (fuel : Nat) (al : Alloc) (pkt : DnsPacket) (data : Memory) :
    Call (Option DnsPacket) := do
  let header := dnsHeaderParse data
  match ← dnsQuestionParse fuel al data headerSize with
  | none => return none
  | some (question, _) =>
      if 0 < header.ancount then
        match ← dnsAnswerParse fuel al data with
        | none => return none
        | some answer => return some { header, question, answer }
      else return some { header, question, answer := pkt.answer }

/-! ### Building a query -/

/-- The query for a name: `rand` is what `rand()` returned, allocation 0 is the packet
and 1 the copy of the name. -/
def dnsCreateQueryPacket (al : Alloc) (rand : Nat) (inQname : Bytes) : Option DnsPacket :=
  if !al 0 then none
  else if !al 1 then none
  else some
    { header :=
        { id := UInt16.ofNat rand, rd := 1, tc := 0, aa := 0, opcode := opcodeQuery
          qr := qrQuery, rcode := 0, cd := 0, ad := 0, z := 0, ra := 0
          qdcount := 1, ancount := 0, nscount := 0, arcount := 0 }
      question := { qname := inQname, qtype := dnsTypeA, qclass := dnsClassIn }
      answer := { name := [], type := 0, rclass := 0, ttl := 0, rdlength := 0, rdata := [] } }

end DnsServer
