/-
Bytes laid out in memory, and numbers read back from them.

`HoldsAt` splits along `++`, survives more bytes becoming known, and over a whole
memory says just that `memcpy` would fetch those bytes.  With that, laying a
number out in network order and loading it back is the identity in both
directions, so every fixed field of a packet is one lemma.
-/
import DnsServer.Spec.Wire

namespace DnsServer

/-! ### Slices -/

@[simp] theorem length_slice (data : Memory) (p n : Nat) : (slice data p n).length = n := by
  induction n generalizing p with
  | zero => rfl
  | succ n ih => simp [slice, ih]

/-! ### What is there -/

@[simp] theorem Memory.contents_apply (data : Memory) (i : Nat) :
    data.contents i = some (data i) := rfl

/-- A message is there in every memory that begins with it. -/
theorem contents_le_ofBytes (bs : Bytes) (rest : Memory) :
    Contents.Le (Bytes.contents bs) (Memory.ofBytes bs rest).contents := by
  intro i b h
  have hb : bs[i]? = some b := h
  simp [Memory.ofBytes, hb]

theorem holdsAt_mono {m m' : Contents} (hle : Contents.Le m m') {p : Nat} {bs : Bytes}
    (h : HoldsAt m p bs) : HoldsAt m' p bs := by
  induction bs generalizing p with
  | nil => trivial
  | cons b bs ih => exact ⟨hle _ _ h.1, ih h.2⟩

theorem holdsAt_nil (m : Contents) (p : Nat) : HoldsAt m p [] := trivial

theorem holdsAt_cons {m : Contents} {p : Nat} {b : UInt8} {bs : Bytes} :
    HoldsAt m p (b :: bs) ↔ m p = some b ∧ HoldsAt m (p + 1) bs := Iff.rfl

theorem holdsAt_append {m : Contents} {p : Nat} {as bs : Bytes} :
    HoldsAt m p (as ++ bs) ↔ HoldsAt m p as ∧ HoldsAt m (p + as.length) bs := by
  induction as generalizing p with
  | nil => simp [holdsAt_nil]
  | cons a as ih =>
      rw [List.cons_append, holdsAt_cons, holdsAt_cons, ih, and_assoc, List.length_cons,
        show p + 1 + as.length = p + (as.length + 1) by omega]

/-- Over a whole memory, standing at a position is being what `memcpy` fetches. -/
theorem holdsAt_contents {data : Memory} {p : Nat} {bs : Bytes} :
    HoldsAt data.contents p bs ↔ slice data p bs.length = bs := by
  induction bs generalizing p with
  | nil => simp [holdsAt_nil, slice]
  | cons b bs ih => simp [holdsAt_cons, ih, slice]

theorem holdsAt_slice (data : Memory) (p n : Nat) : HoldsAt data.contents p (slice data p n) := by
  rw [holdsAt_contents, length_slice]

/-- Two runs of bytes of one length at one position are the same. -/
theorem holdsAt_inj {m : Contents} {p : Nat} {as bs : Bytes} (ha : HoldsAt m p as)
    (hb : HoldsAt m p bs) (hlen : as.length = bs.length) : as = bs := by
  induction as generalizing p bs with
  | nil => exact (List.length_eq_zero_iff.mp hlen.symm).symm
  | cons a as ih =>
      cases bs with
      | nil => simp at hlen
      | cons b bs =>
          have hhead : a = b := by simpa [ha.1] using hb.1
          rw [hhead, ih ha.2 hb.2 (by simpa using hlen)]

/-- Every position of a run of bytes is there. -/
theorem holdsAt_get {m : Contents} {p : Nat} {bs : Bytes} (h : HoldsAt m p bs) {i : Nat}
    (hi : i < bs.length) : m (p + i) = some bs[i] := by
  induction bs generalizing p i with
  | nil => simp at hi
  | cons b bs ih =>
      cases i with
      | zero => exact h.1
      | succ i =>
          have := ih h.2 (i := i) (by simpa using hi)
          rw [show p + (i + 1) = p + 1 + i by omega]
          simpa using this

/-- A run of bytes that is there lies before the end of the message. -/
theorem holdsAt_le_length {msg : Bytes} {p : Nat} {bs : Bytes}
    (h : HoldsAt (Bytes.contents msg) p bs)
    (hne : bs ≠ []) : p + bs.length ≤ msg.length := by
  have hpos : 0 < bs.length := List.length_pos_iff.mpr hne
  have hlast : msg[p + (bs.length - 1)]? = _ := holdsAt_get h (Nat.sub_lt hpos Nat.one_pos)
  have hlt := (List.getElem?_eq_some_iff.mp hlast).1
  omega

/-- The whole of a message stands at its start. -/
theorem holdsAt_bytes (bs : Bytes) : HoldsAt (Bytes.contents bs) 0 bs := by
  have key : ∀ (pre as : Bytes), bs = pre ++ as → HoldsAt (Bytes.contents bs) pre.length as := by
    intro pre as
    induction as generalizing pre with
    | nil => intro _; trivial
    | cons a as ih =>
        intro hbs
        refine ⟨by simp [Bytes.contents, hbs], ?_⟩
        have := ih (pre ++ [a]) (by simp [hbs])
        simpa using this
  exact key [] bs rfl

theorem holdsAt_ofBytes (bs : Bytes) (rest : Memory) :
    HoldsAt (Memory.ofBytes bs rest).contents 0 bs :=
  holdsAt_mono (contents_le_ofBytes bs rest) (holdsAt_bytes bs)

/-! ### Numbers -/

theorem toNat_htons (x : UInt16) : (htons x).toNat = Endian.swapBytes 2 x.toNat := by
  have h := Endian.swapBytes_lt 2 x.toNat
  rw [htons, UInt16.toNat_ofNat']
  exact Nat.mod_eq_of_lt h

theorem toNat_htonl (x : UInt32) : (htonl x).toNat = Endian.swapBytes 4 x.toNat := by
  have h := Endian.swapBytes_lt 4 x.toNat
  rw [htonl, UInt32.toNat_ofNat']
  exact Nat.mod_eq_of_lt h

/-- A number converted and copied out is in network order. -/
theorem store16_htons (x : UInt16) : store16 (htons x) = Endian.beBytes 2 x.toNat := by
  rw [store16, toNat_htons, Endian.leBytes_swapBytes]

theorem store32_htonl (x : UInt32) : store32 (htonl x) = Endian.beBytes 4 x.toNat := by
  rw [store32, toNat_htonl, Endian.leBytes_swapBytes]

/-- Swapping the number the host loads gives the one in network order. -/
theorem beBytes_uint16_inj {x y : UInt16}
    (h : Endian.beBytes 2 x.toNat = Endian.beBytes 2 y.toNat) : x = y :=
  UInt16.toNat_inj.mp (Endian.beBytes_inj x.toNat_lt y.toNat_lt h)

theorem swapBytes_slice (data : Memory) (p n : Nat) :
    Endian.swapBytes n (Endian.ofLeBytes (slice data p n))
      = Endian.ofBeBytes (slice data p n) := by
  have h := Endian.swapBytes_ofLeBytes (slice data p n)
  rwa [length_slice] at h

theorem ofLeBytes_slice_lt (data : Memory) (p n : Nat) :
    Endian.ofLeBytes (slice data p n) < 256 ^ n := by
  have h := Endian.ofLeBytes_lt (slice data p n)
  rwa [length_slice] at h

theorem ofBeBytes_slice_lt (data : Memory) (p n : Nat) :
    Endian.ofBeBytes (slice data p n) < 256 ^ n := by
  have h := Endian.ofBeBytes_lt (slice data p n)
  rwa [length_slice] at h

theorem toNat_ntohs_load16 (data : Memory) (p : Nat) :
    (ntohs (load16 data p)).toNat = Endian.ofBeBytes (slice data p 2) := by
  have hload : (load16 data p).toNat = Endian.ofLeBytes (slice data p 2) := by
    rw [load16, UInt16.toNat_ofNat']
    exact Nat.mod_eq_of_lt (ofLeBytes_slice_lt data p 2)
  rw [ntohs, hload, swapBytes_slice, UInt16.toNat_ofNat']
  exact Nat.mod_eq_of_lt (ofBeBytes_slice_lt data p 2)

theorem toNat_ntohl_load32 (data : Memory) (p : Nat) :
    (ntohl (load32 data p)).toNat = Endian.ofBeBytes (slice data p 4) := by
  have hload : (load32 data p).toNat = Endian.ofLeBytes (slice data p 4) := by
    rw [load32, UInt32.toNat_ofNat']
    exact Nat.mod_eq_of_lt (ofLeBytes_slice_lt data p 4)
  rw [ntohl, hload, swapBytes_slice, UInt32.toNat_ofNat']
  exact Nat.mod_eq_of_lt (ofBeBytes_slice_lt data p 4)

/-- The bytes fetched spell `x` exactly where `x` stands in network order. -/
theorem ofBeBytes_slice_eq_iff {data : Memory} {p n x : Nat} (hx : x < 256 ^ n) :
    Endian.ofBeBytes (slice data p n) = x ↔ HoldsAt data.contents p (Endian.beBytes n x) := by
  rw [holdsAt_contents, Endian.length_beBytes,
    Endian.ofBeBytes_eq_iff (by rw [length_slice]; exact hx), length_slice]

/-- Loading and converting a number gives `x` exactly where `x` stands in network order. -/
theorem ntohs_load16_eq_iff {data : Memory} {p : Nat} {x : UInt16} :
    ntohs (load16 data p) = x ↔ HoldsAt data.contents p (Endian.beBytes 2 x.toNat) := by
  rw [← UInt16.toNat_inj, toNat_ntohs_load16]
  exact ofBeBytes_slice_eq_iff x.toNat_lt

theorem ntohl_load32_eq_iff {data : Memory} {p : Nat} {x : UInt32} :
    ntohl (load32 data p) = x ↔ HoldsAt data.contents p (Endian.beBytes 4 x.toNat) := by
  rw [← UInt32.toNat_inj, toNat_ntohl_load32]
  exact ofBeBytes_slice_eq_iff x.toNat_lt

/-! ### The header -/

/-- The conversion `dns_send_packet` and `dns_send_answer` make before the copy. -/
theorem store_htons_header (h : DnsHeader) :
    DnsHeader.store { h with
      id := htons h.id, qdcount := htons h.qdcount, ancount := htons h.ancount
      nscount := htons h.nscount, arcount := htons h.arcount } = h.wire := by
  have hflags : Endian.leBytes 2 h.flags.toNat
      = [UInt8.ofBitVec h.flagsLow, UInt8.ofBitVec h.flagsHigh] := by
    have hlow := h.flagsLow.isLt
    have hhigh := h.flagsHigh.isLt
    have hnat : h.flags.toNat = h.flagsHigh.toNat * 256 + h.flagsLow.toNat := by
      rw [DnsHeader.flags, BitVec.toNat_append, ← Nat.shiftLeft_add_eq_or_of_lt hlow,
        Nat.shiftLeft_eq]
    simp only [Endian.leBytes]
    congr 1
    · apply UInt8.toNat_inj.mp
      rw [UInt8.toNat_ofNat', UInt8.toNat_ofBitVec]
      omega
    · congr 1
      apply UInt8.toNat_inj.mp
      rw [UInt8.toNat_ofNat', UInt8.toNat_ofBitVec]
      omega
  show store16 (htons h.id) ++ Endian.leBytes 2 h.flags.toNat ++ store16 (htons h.qdcount) ++
      store16 (htons h.ancount) ++ store16 (htons h.nscount) ++ store16 (htons h.arcount) = h.wire
  rw [hflags, store16_htons, store16_htons, store16_htons, store16_htons, store16_htons]
  rfl

@[simp] theorem length_header_wire (h : DnsHeader) : h.wire.length = headerSize := by
  simp [DnsHeader.wire, headerSize]

private theorem low_bits : ∀ b : BitVec 8, b.extractLsb' 7 1 ++ b.extractLsb' 3 4 ++
    b.extractLsb' 2 1 ++ b.extractLsb' 1 1 ++ b.extractLsb' 0 1 = b := by
  decide

private theorem high_bits : ∀ b : BitVec 8, b.extractLsb' 7 1 ++ b.extractLsb' 6 1 ++
    b.extractLsb' 5 1 ++ b.extractLsb' 4 1 ++ b.extractLsb' 0 4 = b := by
  decide

/-- The storage unit the flags are loaded into. -/
private theorem flags_word (data : Memory) (p : Nat) :
    BitVec.ofNat 16 (Endian.ofLeBytes (slice data p 2))
      = (data (p + 1)).toBitVec ++ (data p).toBitVec := by
  apply BitVec.eq_of_toNat_eq
  have h0 := (data p).toNat_lt
  have h1 := (data (p + 1)).toNat_lt
  have hlow : (data p).toBitVec.toNat < 2 ^ 8 := (data p).toBitVec.isLt
  rw [BitVec.toNat_append, ← Nat.shiftLeft_add_eq_or_of_lt hlow, Nat.shiftLeft_eq,
    BitVec.toNat_ofNat]
  simp only [slice, Endian.ofLeBytes, UInt8.toNat_toBitVec]
  omega

theorem dnsHeaderParse_wire (data : Memory) :
    HoldsAt data.contents 0 (dnsHeaderParse data).wire := by
  have hlow : (dnsHeaderParse data).flagsLow = (data 2).toBitVec := by
    show (BitVec.ofNat 16 (Endian.ofLeBytes (slice data 2 2))).extractLsb' 7 1 ++ 
      (BitVec.ofNat 16 (Endian.ofLeBytes (slice data 2 2))).extractLsb' 3 4 ++
      (BitVec.ofNat 16 (Endian.ofLeBytes (slice data 2 2))).extractLsb' 2 1 ++
      (BitVec.ofNat 16 (Endian.ofLeBytes (slice data 2 2))).extractLsb' 1 1 ++
      (BitVec.ofNat 16 (Endian.ofLeBytes (slice data 2 2))).extractLsb' 0 1 = _
    rw [flags_word]
    simp (disch := omega) only [BitVec.extractLsb'_append_eq_of_add_le]
    exact low_bits _
  have hhigh : (dnsHeaderParse data).flagsHigh = (data 3).toBitVec := by
    show (BitVec.ofNat 16 (Endian.ofLeBytes (slice data 2 2))).extractLsb' 15 1 ++ 
      (BitVec.ofNat 16 (Endian.ofLeBytes (slice data 2 2))).extractLsb' 14 1 ++
      (BitVec.ofNat 16 (Endian.ofLeBytes (slice data 2 2))).extractLsb' 13 1 ++
      (BitVec.ofNat 16 (Endian.ofLeBytes (slice data 2 2))).extractLsb' 12 1 ++
      (BitVec.ofNat 16 (Endian.ofLeBytes (slice data 2 2))).extractLsb' 8 4 = _
    rw [flags_word]
    simp (disch := omega) only [BitVec.extractLsb'_append_eq_of_le]
    exact high_bits _
  unfold DnsHeader.wire
  rw [hlow, hhigh]
  simp only [holdsAt_append, List.length_append, Endian.length_beBytes, List.length_cons,
    List.length_nil]
  refine ⟨⟨⟨⟨⟨?_, ?_⟩, ?_⟩, ?_⟩, ?_⟩, ?_⟩
  · exact ntohs_load16_eq_iff.mp rfl
  · simp [holdsAt_cons, holdsAt_nil]
  · exact ntohs_load16_eq_iff.mp rfl
  · exact ntohs_load16_eq_iff.mp rfl
  · exact ntohs_load16_eq_iff.mp rfl
  · exact ntohs_load16_eq_iff.mp rfl

/-- The fields loaded from a storage unit are those it was packed from. -/
private theorem load_flags {data : Memory} {h : DnsHeader} (hlow : (data 2).toBitVec = h.flagsLow)
    (hhigh : (data 3).toBitVec = h.flagsHigh) :
    dnsHeaderParse data = { h with
      id := ntohs (load16 data 0), qdcount := ntohs (load16 data 4)
      ancount := ntohs (load16 data 6), nscount := ntohs (load16 data 8)
      arcount := ntohs (load16 data 10) } := by
  have hword : BitVec.ofNat 16 (Endian.ofLeBytes (slice data 2 2)) = h.flagsHigh ++ h.flagsLow := by
    rw [flags_word, hlow, hhigh]
  unfold dnsHeaderParse DnsHeader.load
  rw [Nat.zero_add, hword]
  unfold DnsHeader.flagsHigh DnsHeader.flagsLow
  simp (disch := omega) only [BitVec.extractLsb'_append_eq_of_le,
    BitVec.extractLsb'_append_eq_of_add_le]
  simp

/-- **The header parsed is the header that stands at the start.** -/
theorem dnsHeaderParse_eq_iff {data : Memory} {h : DnsHeader} :
    dnsHeaderParse data = h ↔ HoldsAt data.contents 0 h.wire := by
  constructor
  · intro h
    subst h
    exact dnsHeaderParse_wire data
  · intro hw
    unfold DnsHeader.wire at hw
    simp only [holdsAt_append, holdsAt_cons, List.length_append, Endian.length_beBytes,
      List.length_cons, List.length_nil, Memory.contents_apply, Option.some.injEq] at hw
    obtain ⟨⟨⟨⟨⟨hid, hlow, hhigh, -⟩, hqd⟩, han⟩, hns⟩, har⟩ := hw
    have h2 : (data 2).toBitVec = h.flagsLow := by rw [hlow]
    have h3 : (data 3).toBitVec = h.flagsHigh := by rw [hhigh]
    rw [load_flags h2 h3, ntohs_load16_eq_iff.mpr hid, ntohs_load16_eq_iff.mpr hqd,
      ntohs_load16_eq_iff.mpr han, ntohs_load16_eq_iff.mpr hns, ntohs_load16_eq_iff.mpr har]

end DnsServer
