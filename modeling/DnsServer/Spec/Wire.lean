/-
What bytes mean as a DNS message.

This file is the format, not the program.  A `Contents` says which bytes are
there and which are not, so that one relation serves a whole memory and a
datagram of `n` bytes alike: a name read from a datagram is a name read from any
memory that begins with it.

`NameAt m p ls e` reads a name: its labels from position `p` on, following
compression pointers, and the position `e` after the name's own bytes.  The
relation is inductive, so it holds of no name whose pointers run in a ring.  It
bounds neither labels nor names; `Label` and `Name` carry the bounds of the
format as fields, so a value of either is legal.
-/
import DnsServer.Code.Packet

namespace DnsServer

/-! ### Bytes that are there -/

/-- The byte at each position, where there is one. -/
abbrev Contents := Nat → Option UInt8

/-- All of a memory. -/
def Memory.contents (data : Memory) : Contents := fun i => some (data i)

/-- The bytes of a message, and none after its end. -/
def Bytes.contents (msg : Bytes) : Contents := fun i => msg[i]?

/-- Every byte of `m` is there in `m'` too. -/
def Contents.Le (m m' : Contents) : Prop := ∀ i b, m i = some b → m' i = some b

/-- `bs` stands at position `p`. -/
def HoldsAt (m : Contents) : Nat → Bytes → Prop
  | _, [] => True
  | p, b :: bs => m p = some b ∧ HoldsAt m (p + 1) bs

instance decidableHoldsAt (m : Contents) : (p : Nat) → (bs : Bytes) → Decidable (HoldsAt m p bs)
  | _, [] => isTrue trivial
  | p, b :: bs =>
      have := decidableHoldsAt m (p + 1) bs
      inferInstanceAs (Decidable (m p = some b ∧ HoldsAt m (p + 1) bs))

/-! ### Names -/

/-- The labels of a name at position `p`, and the position after the name. -/
inductive NameAt (m : Contents) : Nat → List Bytes → Nat → Prop
  | root {p : Nat} (h : m p = some 0) : NameAt m p [] (p + 1)
  | label {p e : Nat} {b : UInt8} {l : Bytes} {ls : List Bytes} (hb : m p = some b)
      (hne : b ≠ 0) (hptr : isPointer b = false) (hlen : l.length = b.toNat)
      (hl : HoldsAt m (p + 1) l) (hrest : NameAt m (p + 1 + b.toNat) ls e) :
      NameAt m p (l :: ls) e
  | pointer {p e : Nat} {b c : UInt8} {ls : List Bytes} (hb : m p = some b)
      (hptr : isPointer b = true) (hc : m (p + 1) = some c)
      (htarget : NameAt m (jumpOffset b c) ls e) : NameAt m p ls (p + 2)

/-- The labels, each followed by a dot. -/
def dotted (ls : List Bytes) : Bytes := ls.flatMap (· ++ [dot])

/-- The labels separated by dots. -/
def joined (ls : List Bytes) : Bytes := [dot].intercalate ls

/-- The name in length-prefixed labels, uncompressed. -/
def encodeLabels (ls : List Bytes) : Bytes :=
  ls.flatMap (fun l => UInt8.ofNat l.length :: l) ++ [0]

/-- A label the format allows and text can carry. -/
structure Label where
  bytes : Bytes
  nonempty : 1 ≤ bytes.length
  le63 : bytes.length ≤ 63
  noNul : (0 : UInt8) ∉ bytes
  noDot : dot ∉ bytes

/-- A domain name: at most 255 octets on the wire. -/
structure Name where
  labels : List Label
  short : (encodeLabels (labels.map Label.bytes)).length ≤ 255

/-- The labels as bytes. -/
def Name.raw (n : Name) : List Bytes := n.labels.map Label.bytes

/-- The name as text, without a trailing dot. -/
def Name.text (n : Name) : Bytes := joined n.raw

/-! ### Headers -/

/-- The header in network order, its flags as the format lays them out. -/
def DnsHeader.wire (h : DnsHeader) : Bytes :=
  Endian.beBytes 2 h.id.toNat ++ [UInt8.ofBitVec h.flagsLow, UInt8.ofBitVec h.flagsHigh] ++
    Endian.beBytes 2 h.qdcount.toNat ++ Endian.beBytes 2 h.ancount.toNat ++
    Endian.beBytes 2 h.nscount.toNat ++ Endian.beBytes 2 h.arcount.toNat

/-! ### Sections -/

structure Question where
  name : Name
  qtype : UInt16
  qclass : UInt16

structure Record where
  name : Name
  type : UInt16
  rclass : UInt16
  ttl : UInt32
  rdata : Bytes
  /-- The length fits the sixteen bits it is announced in. -/
  short : rdata.length < 65536

/-- The fixed fields of a record and its data, as they follow its name. -/
def Record.fields (r : Record) : Bytes :=
  Endian.beBytes 2 r.type.toNat ++ Endian.beBytes 2 r.rclass.toNat ++
    Endian.beBytes 4 r.ttl.toNat ++ Endian.beBytes 2 r.rdata.length ++ r.rdata

/-- A run of questions, and the position after it. -/
inductive QuestionsAt (m : Contents) : Nat → List Question → Nat → Prop
  | nil (p : Nat) : QuestionsAt m p [] p
  | cons {p e f : Nat} {q : Question} {qs : List Question} (hname : NameAt m p q.name.raw e)
      (hfields : HoldsAt m e (Endian.beBytes 2 q.qtype.toNat ++ Endian.beBytes 2 q.qclass.toNat))
      (hrest : QuestionsAt m (e + 4) qs f) : QuestionsAt m p (q :: qs) f

/-- A run of resource records, and the position after it. -/
inductive RecordsAt (m : Contents) : Nat → List Record → Nat → Prop
  | nil (p : Nat) : RecordsAt m p [] p
  | cons {p e f : Nat} {r : Record} {rs : List Record} (hname : NameAt m p r.name.raw e)
      (hfields : HoldsAt m e r.fields) (hrest : RecordsAt m (e + r.fields.length) rs f) :
      RecordsAt m p (r :: rs) f

/-- What a message says. -/
structure Message where
  header : DnsHeader
  questions : List Question
  answers : List Record
  authorities : List Record
  additionals : List Record

/--
`msg` is a well-formed message that says `m`: its header counts the sections, each
section lies after the one before, and nothing follows the last.
-/
structure WellFormed (msg : Bytes) (m : Message) : Prop where
  short : msg.length ≤ 512
  header : HoldsAt msg.contents 0 m.header.wire
  qdcount : m.header.qdcount.toNat = m.questions.length
  ancount : m.header.ancount.toNat = m.answers.length
  nscount : m.header.nscount.toNat = m.authorities.length
  arcount : m.header.arcount.toNat = m.additionals.length
  body : ∃ e₁ e₂ e₃, QuestionsAt msg.contents headerSize m.questions e₁ ∧
    RecordsAt msg.contents e₁ m.answers e₂ ∧ RecordsAt msg.contents e₂ m.authorities e₃ ∧
    RecordsAt msg.contents e₃ m.additionals msg.length

end DnsServer
