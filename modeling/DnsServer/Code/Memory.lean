/-
Bytes, memory and C strings.

A buffer handed to the parser is a pointer into memory, and the parser carries no
length: what it reads past the end of a datagram is whatever lies there.  So a
`Memory` is total, a byte for every offset from the pointer, and a theorem about
every memory is a theorem about every datagram whatever follows it.  Positions
are `Nat`, as pointer arithmetic is; the 16-bit offsets of the wire are `UInt16`
where the source declares them so.
-/
import DnsServer.Lib.Endian

namespace DnsServer

abbrev Bytes := List UInt8

/-- The bytes at and after a pointer. -/
abbrev Memory := Nat → UInt8

/-- `memcpy` of `n` bytes out of memory. -/
def slice (data : Memory) : Nat → Nat → Bytes
  | _, 0 => []
  | p, n + 1 => data p :: slice data (p + 1) n

/-- The memory that holds `bs` first and then `rest`. -/
def Memory.ofBytes (bs : Bytes) (rest : Memory) : Memory :=
  fun i => (bs[i]?).getD (rest (i - bs.length))

/-- The C string in a buffer: what comes before the first NUL. -/
def cstr (buf : Bytes) : Bytes := buf.takeWhile (· ≠ 0)

/-- A string literal's bytes. -/
def ascii (s : String) : Bytes := s.toList.map fun c => UInt8.ofNat c.toNat

/-- The full stop that separates the labels of a name written as text. -/
def dot : UInt8 := 46

/-- The tokens successive calls of `strtok` return: the non-empty stretches
between delimiters. -/
def strtok (delim s : Bytes) : List Bytes :=
  (s.splitOnP (fun c => decide (c ∈ delim))).filter (fun token => decide (token ≠ []))

/-! ### Multi-byte integers

The host stores the low byte first, the network sends the high byte first.
-/

/-- The bytes `memcpy` takes from a `uint16_t`. -/
def store16 (x : UInt16) : Bytes := Endian.leBytes 2 x.toNat

/-- The bytes `memcpy` takes from a `uint32_t`. -/
def store32 (x : UInt32) : Bytes := Endian.leBytes 4 x.toNat

/-- The `uint16_t` that `memcpy` fills from memory. -/
def load16 (data : Memory) (p : Nat) : UInt16 :=
  UInt16.ofNat (Endian.ofLeBytes (slice data p 2))

/-- The `uint32_t` that `memcpy` fills from memory. -/
def load32 (data : Memory) (p : Nat) : UInt32 :=
  UInt32.ofNat (Endian.ofLeBytes (slice data p 4))

def htons (x : UInt16) : UInt16 := UInt16.ofNat (Endian.swapBytes 2 x.toNat)

def htonl (x : UInt32) : UInt32 := UInt32.ofNat (Endian.swapBytes 4 x.toNat)

def ntohs (x : UInt16) : UInt16 := UInt16.ofNat (Endian.swapBytes 2 x.toNat)

def ntohl (x : UInt32) : UInt32 := UInt32.ofNat (Endian.swapBytes 4 x.toNat)

/-! ### Allocation -/

/-- Which of a call's allocations succeed, counted in the order it makes them. -/
abbrev Alloc := Nat → Bool

/-- Every allocation succeeds. -/
def allocOk : Alloc := fun _ => true

end DnsServer
