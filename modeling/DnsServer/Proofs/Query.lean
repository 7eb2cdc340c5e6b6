/-
A query comes back as it was sent.

The encoder and the parser are two loops written apart, and they meet in the
format.  The encoder's loop, for any text at all, lays out the stretches between
dots as length-prefixed labels; for a legal name those are its labels, the parser
reads them back by `nameAt_encode`, and every field after the name stands where
the parser looks for it.
-/
import DnsServer.Proofs.Parse
import DnsServer.Code.Server

namespace DnsServer

open Call

/-! ### The encoder's loop -/

/-- The state after some labels, laid out as `pre`, and the part `acc` (in reverse) of one
more, whose length octet is still to be written over `slot`. -/
def encodingAt (pre : Bytes) (slot : UInt8) (acc : Bytes) : EncodeState :=
  { out := pre ++ slot :: acc.reverse
    labelLengthPtr := pre.length
    labelLength := acc.length
    totalLength := pre.length + 1 + acc.length }

theorem patch_slot (pre : Bytes) (slot b : UInt8) (rest : Bytes) :
    (pre ++ slot :: rest).set pre.length b = pre ++ b :: rest := by
  simp

theorem encodeNameStep_dot (pre : Bytes) (slot : UInt8) (acc : Bytes) :
    encodeNameStep (encodingAt pre slot acc) dot
      = encodingAt (pre ++ UInt8.ofNat acc.length :: acc.reverse) 0 [] := by
  simp only [encodeNameStep, encodingAt, if_true, patch_slot]
  simp
  omega

theorem encodeNameStep_char {c : UInt8} (hc : c ≠ dot) (pre : Bytes) (slot : UInt8)
    (acc : Bytes) :
    encodeNameStep (encodingAt pre slot acc) c = encodingAt pre slot (c :: acc) := by
  simp only [encodeNameStep, encodingAt, if_neg hc]
  simp
  omega

/-- The stretches between the dots of a text. -/
def textLabels (text : Bytes) : List Bytes := text.splitOn dot

/-- Run to the end of the text, the loop has laid out the label it is in and the rest. -/
theorem foldl_encodeNameStep (text : Bytes) :
    ∀ (pre : Bytes) (slot : UInt8) (acc : Bytes),
      encodeNameEnd (text.foldl encodeNameStep (encodingAt pre slot acc))
        = (pre ++ encodeLabels (text.splitOnPPrepend (· == dot) acc),
          pre.length + (encodeLabels (text.splitOnPPrepend (· == dot) acc)).length) := by
  induction text with
  | nil =>
      intro pre slot acc
      simp [encodeNameEnd, encodingAt, encodeLabels]
      omega
  | cons c text ih =>
      intro pre slot acc
      rw [List.foldl_cons]
      by_cases hc : c = dot
      · subst hc
        rw [encodeNameStep_dot, ih, List.splitOnPPrepend_cons_pos (by simp), encodeLabels_cons]
        simp
        omega
      · rw [encodeNameStep_char hc, ih, List.splitOnPPrepend_cons_neg (by simpa using hc)]

/-- **The encoder lays out the stretches between the dots**, and returns their length. -/
theorem dnsEncodeName_eq (domain : Bytes) :
    dnsEncodeName domain
      = (encodeLabels (textLabels domain), (encodeLabels (textLabels domain)).length) := by
  have h := foldl_encodeNameStep domain [] 0 []
  simp only [List.splitOnPPrepend_nil_right, List.nil_append, List.length_nil,
    Nat.zero_add] at h
  rw [textLabels, List.splitOn_eq_splitOnP]
  exact h

/-- The labels of a legal name are the stretches of its text. -/
theorem Name.textLabels_text (n : Name) (hn : n.labels ≠ []) : textLabels n.text = n.raw := by
  refine List.splitOn_intercalate dot (fun l hl => (n.raw_legal hl).2.2.2) ?_
  simpa [Name.raw] using hn

/-! ### The datagram -/

/-- The query goes out in network order, name uncompressed. -/
theorem sendPacketBuffer_eq (pkt : DnsPacket) :
    sendPacketBuffer pkt = pkt.header.wire ++ encodeLabels (textLabels pkt.question.qname) ++
      Endian.beBytes 2 pkt.question.qtype.toNat ++ Endian.beBytes 2 pkt.question.qclass.toNat := by
  have hheader : pkt.header.hton.store = pkt.header.wire := store_htons_header pkt.header
  simp only [sendPacketBuffer, dnsEncodeName_eq, List.take_length, hheader, store16_htons]

/-- What is sent for a packet without answers reads as that packet, if its name is legal. -/
theorem packetReads_sendPacketBuffer {pkt : DnsPacket} {n : Name} (hn : n.labels ≠ [])
    (hq : pkt.question.qname = n.text) (han : ¬ 0 < pkt.header.ancount) (rest : Memory) :
    PacketReads (Memory.ofBytes (sendPacketBuffer pkt) rest).contents pkt := by
  have hall := holdsAt_ofBytes (sendPacketBuffer pkt) rest
  generalize Memory.ofBytes (sendPacketBuffer pkt) rest = data at hall
  rw [sendPacketBuffer_eq, hq, n.textLabels_text hn, List.append_assoc, holdsAt_append,
    holdsAt_append, length_header_wire, List.length_append, length_header_wire] at hall
  obtain ⟨⟨hheader, hname⟩, hfields⟩ := hall
  simp only [Nat.zero_add] at hname hfields
  refine ⟨hheader, _, ⟨n.raw, _, nameAt_encode (fun l hl => ?_) hname, ?_, ?_, hfields, rfl⟩,
    fun hyes => absurd hyes han⟩
  · exact ⟨(n.raw_legal hl).1, (n.raw_legal hl).2.1⟩
  · have := n.length_dotted_le
    unfold nameBufferSize
    omega
  · rw [hq, n.nameText_raw]

theorem dnsCreateQueryPacket_fields {al : Alloc} {rand : Nat} {text : Bytes} {pkt : DnsPacket}
    (h : dnsCreateQueryPacket al rand text = some pkt) :
    pkt.header.id = UInt16.ofNat rand ∧ pkt.header.ancount = 0 ∧
      pkt.question = { qname := text, qtype := dnsTypeA, qclass := dnsClassIn } := by
  unfold dnsCreateQueryPacket at h
  split at h
  · simp at h
  · split at h
    · simp at h
    · rw [Option.some.injEq] at h
      subst h
      exact ⟨rfl, rfl, rfl⟩

/--
**Query round trip.**  The query made for a legal name fits its buffer, is as long
as its text, the two octets the format adds and its fixed fields, and is parsed,
whatever follows it, into the packet it was made from.
-/
theorem dnsRequestParse_query (n : Name) (hn : n.labels ≠ []) (rand : Nat) (pkt₀ : DnsPacket)
    (rest : Memory) :
    ∃ pkt, dnsCreateQueryPacket allocOk rand n.text = some pkt ∧
      pkt.header.id = UInt16.ofNat rand ∧
      (sendPacketBuffer pkt).length = headerSize + n.text.length + 2 + 4 ∧
      (sendPacketBuffer pkt).length ≤ udpBufferSize ∧
      ∃ parsed, Settles (fun fuel => dnsRequestParse fuel allocOk pkt₀
          (Memory.ofBytes (sendPacketBuffer pkt) rest)) (done (some parsed)) ∧
        parsed.header = pkt.header ∧
        parsed.question = { qname := n.text, qtype := dnsTypeA, qclass := dnsClassIn } := by
  obtain ⟨pkt, hpkt⟩ : ∃ pkt, dnsCreateQueryPacket allocOk rand n.text = some pkt := ⟨_, rfl⟩
  obtain ⟨hid, han, hquestion⟩ := dnsCreateQueryPacket_fields hpkt
  have hqname : pkt.question.qname = n.text := by rw [hquestion]
  have hsize : (sendPacketBuffer pkt).length = headerSize + n.text.length + 2 + 4 := by
    have hraw : n.raw ≠ [] := by simpa [Name.raw] using hn
    have hlen : (dotted n.raw).length = n.text.length + 1 := by
      rw [dotted_eq_joined hraw, List.length_append]
      rfl
    rw [sendPacketBuffer_eq, hqname, n.textLabels_text hn]
    simp only [List.length_append, length_header_wire, length_encodeLabels, hlen,
      Endian.length_beBytes]
    omega
  refine ⟨pkt, hpkt, hid, hsize, ?_, ?_⟩
  · have := n.length_text_le
    rw [hsize]
    unfold headerSize udpBufferSize
    omega
  · have hno : ¬ 0 < pkt.header.ancount := by rw [han]; decide
    obtain ⟨hheader, e, hq, -⟩ := packetReads_sendPacketBuffer hn hqname hno rest
    refine ⟨{ pkt with answer := pkt₀.answer }, ?_, rfl, hquestion⟩
    exact dnsRequestParse_settles_iff.mpr ⟨rfl, fun hyes => absurd hyes hno,
      ⟨hheader, e, hq, fun hyes => absurd hyes hno⟩, fun _ => rfl⟩

/-- The shipped zone `example.com`, as a name. -/
def exampleCom : Name where
  labels :=
    [{ bytes := [101, 120, 97, 109, 112, 108, 101], nonempty := by decide, le63 := by decide
       noNul := by decide, noDot := by decide },
     { bytes := [99, 111, 109], nonempty := by decide, le63 := by decide
       noNul := by decide, noDot := by decide }]
  short := by decide

theorem exampleCom_encodes : ∀ l ∈ exampleCom.raw, 1 ≤ l.length ∧ l.length ≤ 63 :=
  fun _ hl => ⟨(exampleCom.raw_legal hl).1, (exampleCom.raw_legal hl).2.1⟩

theorem dnsRequestParse_query_exampleCom :
    exampleCom.labels ≠ [] ∧
    ∃ pkt, dnsCreateQueryPacket allocOk 7 exampleCom.text = some pkt ∧
      pkt.header.id = UInt16.ofNat 7 ∧
      (sendPacketBuffer pkt).length = headerSize + exampleCom.text.length + 2 + 4 ∧
      (sendPacketBuffer pkt).length ≤ udpBufferSize ∧
      ∃ parsed, Settles (fun fuel => dnsRequestParse fuel allocOk zeroPacket
          (Memory.ofBytes (sendPacketBuffer pkt) fun _ => 0)) (done (some parsed)) ∧
        parsed.header = pkt.header ∧
        parsed.question = { qname := exampleCom.text, qtype := dnsTypeA, qclass := dnsClassIn } :=
  ⟨List.cons_ne_nil _ _, dnsRequestParse_query exampleCom (List.cons_ne_nil _ _) 7 zeroPacket _⟩

end DnsServer
