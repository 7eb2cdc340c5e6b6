/-
Which names are accepted.

`dns_read_name` tests two things of an octet, whether it ends the name and whether its
two top bits are set, and one thing of the name, whether it fits the buffer.  So the
octets with one of the two bits set are lengths like any other, a pointer may point
anywhere, and the buffer of 256 bytes leaves room for one octet more than a name may
have on the wire.

What it returns is still a name that ends, and each octet it followed is one of that
name's: from every position it came to, the rest of the labels is read.
-/
import DnsServer.Proofs.Decompress

namespace DnsServer

open Call

variable {data : Memory} {maxLen start p used e : Nat} {ls : List Bytes}

/-! ### From one octet to the next -/

theorem NameAt.after_label {m : Contents} {b : UInt8} (h : NameAt m p ls e) (hb : m p = some b)
    (hne : b ≠ 0) (hptr : isPointer b = false) :
    ∃ l post, ls = l :: post ∧ NameAt m (p + 1 + b.toNat) post e := by
  rcases h with h0 | ⟨hb', -, -, -, -, hrest⟩ | ⟨hb', hptr', -, -⟩
  · rw [hb, Option.some.injEq] at h0
    exact absurd h0 hne
  · rw [hb, Option.some.injEq] at hb'
    subst hb'
    exact ⟨_, _, rfl, hrest⟩
  · rw [hb, Option.some.injEq] at hb'
    rw [← hb', hptr] at hptr'
    simp at hptr'

theorem NameAt.after_pointer {m : Contents} {b c : UInt8} (h : NameAt m p ls e)
    (hb : m p = some b) (hptr : isPointer b = true) (hc : m (p + 1) = some c) :
    ∃ e', NameAt m (jumpOffset b c) ls e' := by
  rcases h with h0 | ⟨hb', -, hptr', -, -, -⟩ | ⟨hb', -, hc', htarget⟩
  · rw [hb, Option.some.injEq] at h0
    exact absurd h0 (isPointer_ne_zero hptr)
  · rw [hb, Option.some.injEq] at hb'
    rw [← hb', hptr] at hptr'
    simp at hptr'
  · rw [hb, Option.some.injEq] at hb'
    rw [hc, Option.some.injEq] at hc'
    subst hb' hc'
    exact ⟨_, htarget⟩

/-- From every position a name leads to, the rest of its labels is read. -/
theorem Follows.rest (h : Follows data maxLen start p used)
    (hname : NameAt data.contents start ls e) :
    ∃ post e', NameAt data.contents p post e' ∧ post <:+ ls := by
  induction h with
  | start => exact ⟨ls, e, hname, List.suffix_rfl⟩
  | label _ hne hptr _ ih =>
      obtain ⟨post, e', hpost, hsuffix⟩ := ih
      obtain ⟨l, rest, rfl, hrest⟩ := hpost.after_label rfl hne hptr
      exact ⟨rest, e', hrest, (List.suffix_cons l rest).trans hsuffix⟩
  | pointer _ hptr ih =>
      obtain ⟨post, e', hpost, hsuffix⟩ := ih
      obtain ⟨e'', htarget⟩ := hpost.after_pointer rfl hptr rfl
      exact ⟨post, e'', htarget, hsuffix⟩

/-! ### Legal and accepted -/

/-- The octets that are followed from a position form a legal name. -/
structure LegalName (data : Memory) (start : Nat) (ls : List Bytes) (e : Nat) : Prop where
  name : NameAt data.contents start ls e
  lengths : ∀ p used, Follows data nameBufferSize start p used → data p ≠ 0 →
    isPointer (data p) = false → 1 ≤ (data p).toNat ∧ (data p).toNat ≤ 63
  backward : PointsBack data nameBufferSize start
  short : (encodeLabels ls).length ≤ 255

/-- A name as the parser takes it: it comes to an end, within 256 octets. -/
structure AcceptedName (data : Memory) (start : Nat) (ls : List Bytes) (e : Nat) : Prop where
  name : NameAt data.contents start ls e
  short : (encodeLabels ls).length ≤ 256

/-- The octets taken as lengths are those with at most one of the two bits set. -/
theorem length_octet (hne : data p ≠ 0) (hptr : isPointer (data p) = false) :
    1 ≤ (data p).toNat ∧ (data p).toNat ≤ 191 := by
  have hpos : 0 < (data p).toNat := Nat.pos_of_ne_zero fun h0 => hne (UInt8.toNat_inj.mp h0)
  have hlt := lt_of_not_pointer hptr
  omega

/-- A pointer on the way to the end of a name leads to the rest of it. -/
theorem AcceptedName.leadsOn (h : AcceptedName data start ls e)
    (hfollows : Follows data nameBufferSize start p used) (hptr : isPointer (data p) = true) :
    jump data p < 16384 ∧ ∃ post e', NameAt data.contents (jump data p) post e' ∧ post <:+ ls :=
  ⟨jumpOffset_lt _ _, (Follows.pointer hfollows hptr).rest h.name⟩

theorem acceptedName_iff :
    AcceptedName data start ls e ↔
      NameAt data.contents start ls e ∧ (dotted ls).length < nameBufferSize := by
  refine ⟨fun h => ⟨h.name, ?_⟩, fun h => ⟨h.1, ?_⟩⟩
  · have hshort := h.short
    rw [length_encodeLabels] at hshort
    exact hshort
  · rw [length_encodeLabels]
    exact h.2

/-- What is returned for a name that is accepted. -/
def AcceptedName.value (offset : UInt16) (ls : List Bytes) (e : Nat) : UInt16 × Bytes :=
  (offset + UInt16.ofNat (e - offset.toNat), joined ls ++ [0])

theorem AcceptedName.settles {offset : UInt16} (h : AcceptedName data offset.toNat ls e) :
    Settles (fun fuel => dnsReadName fuel data offset nameBufferSize)
      (done (some (AcceptedName.value offset ls e))) := by
  obtain ⟨hname, hroom⟩ := acceptedName_iff.mp h
  exact (dnsReadName_settles_iff (by decide)).mpr ⟨ls, e, hname, hroom, rfl⟩

/-- A legal name is one of those the parser takes. -/
theorem LegalName.accepted (h : LegalName data start ls e) : AcceptedName data start ls e where
  name := h.name
  short := Nat.le_succ_of_le h.short

/--
**What is accepted is a name that ends**, whatever the message and the offset: a value is
returned exactly for the names that come to an end and whose wire form has at most 256
octets.  On the way to the end of one, the octets taken as lengths are those from 1 to 191,
and every pointer targets a position from which the rest of the name is read.  Every legal
name is accepted.
-/
theorem accepted_names (data : Memory) (offset : UInt16) :
    (∀ value, Settles (fun fuel => dnsReadName fuel data offset nameBufferSize)
        (done (some value)) ↔
      ∃ ls e, AcceptedName data offset.toNat ls e ∧ value = AcceptedName.value offset ls e) ∧
    (∀ ls e, AcceptedName data offset.toNat ls e →
      ∀ p used, Follows data nameBufferSize offset.toNat p used →
        (data p ≠ 0 → isPointer (data p) = false →
          1 ≤ (data p).toNat ∧ (data p).toNat ≤ 191) ∧
        (isPointer (data p) = true → jump data p < 16384 ∧
          ∃ post e', NameAt data.contents (jump data p) post e' ∧ post <:+ ls)) ∧
    ∀ ls e, LegalName data offset.toNat ls e → AcceptedName data offset.toNat ls e := by
  refine ⟨fun value => ⟨?_, ?_⟩, ?_, fun ls e h => h.accepted⟩
  · intro h
    obtain ⟨ls, e, hname, hroom, rfl⟩ := (dnsReadName_settles_iff (by decide)).mp h
    exact ⟨ls, e, acceptedName_iff.mpr ⟨hname, hroom⟩, rfl⟩
  · intro h
    obtain ⟨ls, e, haccepted, rfl⟩ := h
    exact haccepted.settles
  · intro ls e haccepted p used hfollows
    exact ⟨length_octet, haccepted.leadsOn hfollows⟩

/-! ### Names that are accepted and not legal -/

/-- A label of 64 bytes: its length octet has the reserved prefix 01. -/
def longLabel : Bytes := encodeLabels [List.replicate 64 97]

/-- A pointer to the two bytes behind it. -/
def forwardPointer : Bytes := [0xC0, 2, 1, 97, 0]

/-- Labels of 63, 63, 63 and 62 bytes: 256 octets on the wire. -/
def longNameLabels : List Bytes :=
  [List.replicate 63 97, List.replicate 63 97, List.replicate 63 97, List.replicate 62 97]

def longName : Bytes := encodeLabels longNameLabels

theorem length_longNameLabels : (dotted longNameLabels).length = 255 := by
  simp only [longNameLabels, dotted_cons, dotted_nil, List.length_append, List.length_cons,
    List.length_replicate, List.length_nil]

/-- Labels the parser can read, laid out at the start of a message, are a name that is read. -/
theorem nameAt_message {ls : List Bytes} (hls : ∀ l ∈ ls, Readable l) :
    NameAt (Memory.ofBytes (encodeLabels ls) fun _ => 0).contents 0 ls
      (encodeLabels ls).length := by
  have hname := nameAt_encodeLabels hls (holdsAt_ofBytes (encodeLabels ls) fun _ => 0)
  rw [Nat.zero_add] at hname
  exact hname

theorem longLabel_name : NameAt (Memory.ofBytes longLabel fun _ => 0).contents 0
    [List.replicate 64 97] 66 := by
  refine nameAt_message fun l hl => ?_
  rw [List.mem_singleton.mp hl]
  exact ⟨by simp, by simp⟩

theorem forwardPointer_name : NameAt (Memory.ofBytes forwardPointer fun _ => 0).contents 0
    [[97]] 2 := by
  have htarget : NameAt (Memory.ofBytes forwardPointer fun _ => 0).contents 2 [[97]] 5 :=
    NameAt.label rfl (by decide) (by decide) rfl (by decide) (NameAt.root rfl)
  exact NameAt.pointer rfl (by decide) rfl htarget

theorem longName_name : NameAt (Memory.ofBytes longName fun _ => 0).contents 0 longNameLabels
    (encodeLabels longNameLabels).length := by
  refine nameAt_message fun l hl => ?_
  simp only [longNameLabels, List.mem_cons, List.not_mem_nil, or_false] at hl
  rcases hl with rfl | rfl | rfl | rfl
  · exact ⟨by simp, by simp⟩
  · exact ⟨by simp, by simp⟩
  · exact ⟨by simp, by simp⟩
  · exact ⟨by simp, by simp⟩

/-- The parser returns what it takes for a name. -/
def Accepts (msg : Bytes) : Prop :=
  ∃ value, Settles (fun fuel => dnsReadName fuel (Memory.ofBytes msg fun _ => 0) 0 nameBufferSize)
    (done (some value))

/-- Each is accepted, and none of them is legal. -/
theorem illegal_names_accepted :
    (Accepts longLabel ∧ ¬ ∃ ls e, LegalName (Memory.ofBytes longLabel fun _ => 0) 0 ls e) ∧
    (Accepts forwardPointer ∧
      ¬ ∃ ls e, LegalName (Memory.ofBytes forwardPointer fun _ => 0) 0 ls e) ∧
    (Accepts longName ∧ ¬ ∃ ls e, LegalName (Memory.ofBytes longName fun _ => 0) 0 ls e) := by
  have haccepts : ∀ {msg : Bytes} {ls : List Bytes} {e : Nat},
      NameAt (Memory.ofBytes msg fun _ => 0).contents 0 ls e → (dotted ls).length < 256 →
      Accepts msg :=
    fun hname hroom => ⟨_, (acceptedName_iff.mpr ⟨hname, hroom⟩).settles⟩
  refine ⟨⟨haccepts longLabel_name (by simp), ?_⟩, ⟨haccepts forwardPointer_name (by simp), ?_⟩,
    haccepts longName_name (by rw [length_longNameLabels]; omega), ?_⟩
  · intro hlegal
    obtain ⟨ls, e, h⟩ := hlegal
    have hlength := h.lengths 0 0 Follows.start (by decide) (by decide)
    exact absurd hlength.2 (by decide)
  · intro hlegal
    obtain ⟨ls, e, h⟩ := hlegal
    have hback := h.backward 0 0 Follows.start (by decide)
    exact absurd hback (by decide)
  · intro hlegal
    obtain ⟨ls, e, h⟩ := hlegal
    obtain ⟨rfl, -⟩ := nameAt_det h.name longName_name
    have hshort := h.short
    rw [length_encodeLabels, length_longNameLabels] at hshort
    omega

end DnsServer
