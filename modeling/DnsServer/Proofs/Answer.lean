/-
An answer goes out with its names as text.

`dns_send_packet` lays its name out in labels; `dns_send_answer` copies the
string and its NUL.  The parser then takes the first character for a label's
length, and what it reads is never the text again: either the length falls short
of the text, and the dot it would have to stop at follows another dot, or it runs
into the NUL.  Two kinds of name escape.  The root is the same in both forms, and
a first byte with its two top bits set is taken for a pointer, which may lead to
the same name elsewhere.
-/
import DnsServer.Proofs.Response
import DnsServer.Proofs.Truncated

namespace DnsServer

open Call

/-! ### Text read as labels -/

/-- The text of a name starts with its first label, and a dot follows if anything does. -/
theorem joined_cons (l : Bytes) (ls : List Bytes) :
    ∃ t, joined (l :: ls) = l ++ t ∧ (t = [] ∨ ∃ t', t = dot :: t') := by
  by_cases hls : ls = []
  · exact ⟨[], by simp [hls, joined, List.intercalate], Or.inl rfl⟩
  · refine ⟨dot :: joined ls, ?_, Or.inr ⟨_, rfl⟩⟩
    have hjoin : dotted (l :: ls) = joined (l :: ls) ++ [dot] := dotted_eq_joined (by simp)
    rw [dotted_cons, dotted_eq_joined hls] at hjoin
    refine (List.append_left_inj [dot]).mp ?_
    rw [← hjoin]
    simp

/-- No two dots follow each other in the text of a legal name. -/
theorem Name.no_empty_label (n : Name) (pre post : Bytes) :
    n.text ≠ pre ++ dot :: dot :: post := by
  intro htext
  by_cases hn : n.labels = []
  · have hnil : n.text = [] := by rw [Name.text, Name.raw, hn]; rfl
    rw [hnil] at htext
    simp at htext
  · have hmem : [] ∈ n.raw := by
      rw [← n.textLabels_text hn, htext, textLabels, List.splitOn_append_cons_self]
      simp [List.splitOn_eq_splitOnP, List.splitOnP_cons_eq_if_modifyHead]
    have hpos := (n.raw_legal hmem).1
    simp at hpos

/-- The text of a legal name, read as labels, is never read back. -/
theorem nameText_ne_text {m : Contents} {p : Nat} {n : Name} {b : UInt8} {text l : Bytes}
    {ls : List Bytes} (htext : n.text = b :: text) (hne : b ≠ 0)
    (hsent : HoldsAt m (p + 1) (text ++ [0])) (hlen : l.length = b.toNat)
    (hl : HoldsAt m (p + 1) l) : nameText (l :: ls) ≠ n.text := by
  intro heq
  obtain ⟨t, ht, htail⟩ := joined_cons l ls
  rw [nameText, dropLast_dotted, ht, htext] at heq
  have hnoNul : (0 : UInt8) ∉ text := fun h => n.noNul_text (by simp [htext, h])
  by_cases hle : l.length ≤ text.length
  · -- the label is the text's next characters, so it ends in the dot that has to follow it
    obtain ⟨r, rfl⟩ : ∃ r, text = l ++ r := by
      refine ⟨text.drop l.length, ?_⟩
      have hsplit := List.take_append_drop l.length text
      rw [← hsplit, List.append_assoc, holdsAt_append] at hsent
      have htake : text.take l.length = l := holdsAt_inj hsent.1 hl (by simp [hle])
      rw [htake] at hsplit
      exact hsplit.symm
    have hlnoNul : (0 : UInt8) ∉ l := fun h => hnoNul (by simp [h])
    rw [List.append_assoc, cstr_append hlnoNul] at heq
    have hlength := congrArg List.length heq
    rcases htail with rfl | ⟨t', rfl⟩
    · simp at hlength
      omega
    · obtain ⟨l₀, z, rfl⟩ : ∃ l₀ z, l = l₀ ++ [z] := by
        have hlne : l ≠ [] := List.ne_nil_of_length_pos (by
          rw [hlen]
          exact Nat.pos_of_ne_zero fun h0 => hne (UInt8.toNat_inj.mp h0))
        exact ⟨_, _, (List.dropLast_append_getLast hlne).symm⟩
      have hdot : cstr (dot :: t' ++ [0]) = dot :: cstr (t' ++ [0]) := rfl
      rw [hdot] at heq
      have hfirst := congrArg (fun s => (s.take (l₀.length + 2)).getLast?) heq
      have hz : z = dot := by simpa [List.take_append, List.getLast?_cons] using hfirst.symm
      refine n.no_empty_label l₀ (cstr (t' ++ [0])) ?_
      rw [htext, ← heq, hz]
      simp
  · -- the label takes in the NUL, and the text read is the text sent less its first character
    obtain ⟨l', rfl⟩ : ∃ l', l = text ++ 0 :: l' := by
      refine ⟨l.drop (text.length + 1), ?_⟩
      have hsplit := List.take_append_drop (text.length + 1) l
      rw [← hsplit, holdsAt_append] at hl
      have htake : l.take (text.length + 1) = text ++ [0] :=
        holdsAt_inj hl.1 hsent (by simp; omega)
      rw [htake] at hsplit
      rw [← hsplit]
      simp
    rw [List.append_assoc, List.append_assoc, cstr_append hnoNul] at heq
    have hlength := congrArg List.length heq
    simp at hlength

/-- What the first two bytes of a text, taken for a pointer, lead to is that text. -/
def PointsToText (m : Contents) (p : Nat) (text : Bytes) : Prop :=
  ∃ b c ls e, m p = some b ∧ isPointer b = true ∧ m (p + 1) = some c ∧
    NameAt m (jumpOffset b c) ls e ∧ (dotted ls).length < nameBufferSize ∧ nameText ls = text

/-- **A name sent as text is read back as the root, through a pointer, or not at all.** -/
theorem text_reads_iff {m : Contents} {p f : Nat} {n : Name} (hsent : HoldsAt m p (n.text ++ [0])) :
    (∃ ls, NameAt m p ls f ∧ (dotted ls).length < nameBufferSize ∧ n.text = nameText ls) ↔
      (n.text = [] ∧ f = p + 1) ∨ (PointsToText m p n.text ∧ f = p + 2) := by
  refine ⟨?_, ?_⟩
  · intro h
    obtain ⟨ls, hname, hroom, htext⟩ := h
    cases hname with
    | root h0 => exact Or.inl ⟨htext, rfl⟩
    | pointer hb hptr hc htarget =>
        exact Or.inr ⟨⟨_, _, _, _, hb, hptr, hc, htarget, hroom, htext.symm⟩, rfl⟩
    | label hb hne hptr hlen hl _ =>
        rcases hn : n.text with _ | ⟨b, text⟩
        · rw [hn] at hsent
          rw [hsent.1, Option.some.injEq] at hb
          exact absurd hb.symm hne
        · rw [hn] at hsent
          obtain ⟨hfirst, hrest⟩ := hsent
          rw [hfirst, Option.some.injEq] at hb
          subst hb
          exact absurd htext.symm (nameText_ne_text hn hne hrest hlen hl)
  · intro h
    rcases h with ⟨htext, rfl⟩ | ⟨⟨b, c, ls, e, hb, hptr, hc, htarget, hroom, htext⟩, rfl⟩
    · rw [htext] at hsent
      exact ⟨[], NameAt.root hsent.1, by decide, htext⟩
    · exact ⟨ls, NameAt.pointer hb hptr hc htarget, hroom, htext.symm⟩

/-- The same with what has to follow the name. -/
theorem text_reads_then_iff {m : Contents} {p : Nat} {n : Name} {P : Nat → Prop}
    (hsent : HoldsAt m p (n.text ++ [0])) :
    (∃ ls f, NameAt m p ls f ∧ (dotted ls).length < nameBufferSize ∧ n.text = nameText ls ∧ P f) ↔
      (n.text = [] ∧ P (p + 1)) ∨ (PointsToText m p n.text ∧ P (p + 2)) := by
  refine ⟨?_, ?_⟩
  · intro h
    obtain ⟨ls, f, hname, hroom, htext, hafter⟩ := h
    rcases (text_reads_iff hsent).mp ⟨ls, hname, hroom, htext⟩ with ⟨hroot, rfl⟩ | ⟨hpoints, rfl⟩
    · exact Or.inl ⟨hroot, hafter⟩
    · exact Or.inr ⟨hpoints, hafter⟩
  · intro h
    rcases h with ⟨hroot, hafter⟩ | ⟨hpoints, hafter⟩
    · obtain ⟨ls, hname, hroom, htext⟩ := (text_reads_iff hsent).mpr (Or.inl ⟨hroot, rfl⟩)
      exact ⟨ls, p + 1, hname, hroom, htext, hafter⟩
    · obtain ⟨ls, hname, hroom, htext⟩ := (text_reads_iff hsent).mpr (Or.inr ⟨hpoints, rfl⟩)
      exact ⟨ls, p + 2, hname, hroom, htext, hafter⟩

/-! ### The message -/

/-- A packet `dns_send_answer` can be given: `n` and `a` are its names. -/
structure Sendable (pkt : DnsPacket) (n a : Name) : Prop where
  qname : pkt.question.qname = n.text
  name : pkt.answer.name = a.text
  qdcount : pkt.header.qdcount = 1
  ancount : pkt.header.ancount = 0 ∨ pkt.header.ancount = 1
  nscount : pkt.header.nscount = 0
  arcount : pkt.header.arcount = 0
  rdlength : pkt.answer.rdata.length = pkt.answer.rdlength.toNat
  fits : (sendAnswerBuffer pkt).length ≤ udpBufferSize

/-- The packet as a response. -/
def DnsPacket.asResponse (pkt : DnsPacket) : DnsPacket :=
  { pkt with header := { pkt.header with qr := qrResponse } }

/-- The names of a packet sent as text can be read from the message all the same. -/
def ReadsAsText (m : Contents) (pkt : DnsPacket) : Prop :=
  (pkt.question.qname = [] ∧
    (0 < pkt.header.ancount → pkt.answer.name = [] ∨
      (PointsToText m 17 pkt.answer.name ∧ HoldsAt m 19 pkt.answer.fields))) ∨
  (PointsToText m 12 pkt.question.qname ∧
    HoldsAt m 14 (Endian.beBytes 2 pkt.question.qtype.toNat ++
      Endian.beBytes 2 pkt.question.qclass.toNat) ∧
    (0 < pkt.header.ancount → AnswerReads m 18 pkt.answer))

/-- The answer goes out in network order, its names as text. -/
theorem sendAnswerBuffer_eq {pkt : DnsPacket}
    (hlen : 0 < pkt.header.ancount → pkt.answer.rdata.length = pkt.answer.rdlength.toNat) :
    sendAnswerBuffer pkt = pkt.asResponse.header.wire ++ ((pkt.question.qname ++ [0]) ++
      ((Endian.beBytes 2 pkt.question.qtype.toNat ++ Endian.beBytes 2 pkt.question.qclass.toNat) ++
      if 0 < pkt.header.ancount then (pkt.answer.name ++ [0]) ++ pkt.answer.fields else [])) := by
  have hheader : pkt.asResponse.header.hton.store = pkt.asResponse.header.wire :=
    store_htons_header pkt.asResponse.header
  unfold sendAnswerBuffer
  rw [show ({ pkt.header with qr := qrResponse } : DnsHeader) = pkt.asResponse.header from rfl,
    hheader]
  by_cases han : 0 < pkt.header.ancount
  · have hrdata : pkt.answer.rdata.take pkt.answer.rdlength.toNat = pkt.answer.rdata := by
      rw [← hlen han, List.take_length]
    rw [if_pos han, if_pos han, hrdata]
    simp only [store16_htons, store32_htonl, DnsAnswer.fields, List.append_assoc]
  · rw [if_neg han, if_neg han]
    simp only [store16_htons, List.append_assoc]

/-- A question whose name was sent as text. -/
theorem questionReads_text_iff {m : Contents} {p e : Nat} {q : DnsQuestion} {n : Name}
    (hqname : q.qname = n.text)
    (hsent : HoldsAt m p ((q.qname ++ [0]) ++
      (Endian.beBytes 2 q.qtype.toNat ++ Endian.beBytes 2 q.qclass.toNat))) :
    QuestionReads m p q e ↔
      (q.qname = [] ∧ e = p + 5) ∨ (PointsToText m p q.qname ∧
        HoldsAt m (p + 2) (Endian.beBytes 2 q.qtype.toNat ++ Endian.beBytes 2 q.qclass.toNat) ∧
        e = p + 6) := by
  rw [holdsAt_append, hqname] at hsent
  obtain ⟨hname, hfields⟩ := hsent
  unfold QuestionReads
  rw [hqname, text_reads_then_iff (P := fun f => HoldsAt m f (Endian.beBytes 2 q.qtype.toNat ++
    Endian.beBytes 2 q.qclass.toNat) ∧ e = f + 4) hname]
  refine or_congr (and_congr_right fun hroot => ?_) Iff.rfl
  rw [hroot] at hfields
  exact ⟨fun h => h.2, fun h => ⟨hfields, h⟩⟩

/-- An answer whose name was sent as text. -/
theorem answerReads_text_iff {m : Contents} {p : Nat} {r : DnsAnswer} {n : Name}
    (hname : r.name = n.text) (hlen : r.rdata.length = r.rdlength.toNat)
    (hsent : HoldsAt m p ((r.name ++ [0]) ++ r.fields)) :
    AnswerReads m p r ↔
      r.name = [] ∨ (PointsToText m p r.name ∧ HoldsAt m (p + 2) r.fields) := by
  rw [holdsAt_append, hname] at hsent
  obtain ⟨htext, hfields⟩ := hsent
  unfold AnswerReads
  rw [hname, text_reads_then_iff (P := fun f => HoldsAt m f r.fields ∧
    r.rdata.length = r.rdlength.toNat) htext]
  refine or_congr ?_ (and_congr_right fun _ => and_iff_left hlen)
  refine and_iff_left_of_imp fun hroot => ?_
  rw [hroot] at hfields
  exact ⟨hfields, hlen⟩

/-- **The message reads as its packet exactly when its names can be read as they are.** -/
theorem packetReads_sendAnswerBuffer_iff {pkt : DnsPacket} {n a : Name} (h : Sendable pkt n a)
    {m : Contents} (hm : HoldsAt m 0 (sendAnswerBuffer pkt)) :
    PacketReads m pkt.asResponse ↔ ReadsAsText m pkt := by
  rw [sendAnswerBuffer_eq fun _ => h.rdlength, holdsAt_append, length_header_wire,
    ← List.append_assoc, holdsAt_append] at hm
  obtain ⟨hheader, hquestion, hanswer⟩ := hm
  have hq := fun e => questionReads_text_iff (e := e) h.qname hquestion
  have hfrom : pkt.question.qname = [] → 0 < pkt.header.ancount →
      HoldsAt m 17 ((pkt.answer.name ++ [0]) ++ pkt.answer.fields) := by
    intro hroot han
    rw [if_pos han, hroot] at hanswer
    exact hanswer
  refine ⟨?_, ?_⟩
  · intro hreads
    obtain ⟨-, e, hqe, hae⟩ := hreads
    rcases (hq e).mp hqe with ⟨hroot, rfl⟩ | ⟨hpoints, hfields, rfl⟩
    · refine Or.inl ⟨hroot, fun han => ?_⟩
      exact (answerReads_text_iff h.name h.rdlength (hfrom hroot han)).mp (hae han)
    · exact Or.inr ⟨hpoints, hfields, hae⟩
  · intro hreads
    rcases hreads with ⟨hroot, han⟩ | ⟨hpoints, hfields, han⟩
    · refine ⟨hheader, 17, (hq 17).mpr (Or.inl ⟨hroot, rfl⟩), ?_⟩
      intro hpos
      exact (answerReads_text_iff h.name h.rdlength (hfrom hroot hpos)).mpr (han hpos)
    · exact ⟨hheader, 18, (hq 18).mpr (Or.inr ⟨hpoints, hfields, rfl⟩), han⟩

/-- The message `dns_send_answer` sends is parsed into the packet it was made from. -/
def RoundTrips (pkt pkt₀ : DnsPacket) (data : Memory) : Prop :=
  Settles (fun fuel => dnsRequestParse fuel allocOk pkt₀ data)
    (done (some (pkt.asResponse.keeping pkt₀)))

theorem roundTrips_iff {pkt pkt₀ : DnsPacket} {n a : Name} (h : Sendable pkt n a) {data : Memory}
    (hdata : HoldsAt data.contents 0 (sendAnswerBuffer pkt)) :
    RoundTrips pkt pkt₀ data ↔ ReadsAsText data.contents pkt := by
  rw [← packetReads_sendAnswerBuffer_iff h hdata]
  refine ⟨?_, ?_⟩
  · intro hparsed
    obtain ⟨-, -, ⟨hheader, e, hq, hanswer⟩, -⟩ := dnsRequestParse_settles_iff.mp hparsed
    refine ⟨hheader, e, hq, ?_⟩
    intro han
    have hkeep : (pkt.asResponse.keeping pkt₀).answer = pkt.answer := if_pos han
    rw [hkeep] at hanswer
    exact hanswer han
  · intro hreads
    exact dnsRequestParse_of_reads (fun _ _ h => h) hreads

/--
**Answer round trip.**  What `dns_send_answer` sends is parsed, whatever follows
it, into the packet it was made from exactly when the names it sent as text can
be read from the message: they are the root, or lead back to themselves as
pointers.
-/
theorem dnsRequestParse_answer (pkt : DnsPacket) (n a : Name) (h : Sendable pkt n a)
    (gSockfd : Int) (hsock : gSockfd ≠ -1) (pkt₀ : DnsPacket) (rest : Memory) :
    ∃ msg, dnsSendAnswer gSockfd pkt = some msg ∧
      (RoundTrips pkt pkt₀ (Memory.ofBytes msg rest) ↔
        ReadsAsText (Memory.ofBytes msg rest).contents pkt) :=
  ⟨sendAnswerBuffer pkt, if_neg hsock, roundTrips_iff h (holdsAt_ofBytes _ rest)⟩

/-! ### An answer as the server sends it -/

/-- The answer for a host of the shipped zone `example.com`. -/
def exampleAnswer : DnsPacket :=
  { header := responseHeader
    question := { qname := exampleCom.text, qtype := 1, qclass := 1 }
    answer := { name := exampleCom.text, type := 1, rclass := 1, ttl := 60, rdlength := 4
                rdata := [93, 184, 216, 34] } }

theorem exampleAnswer_sendable : Sendable exampleAnswer exampleCom exampleCom :=
  ⟨rfl, rfl, rfl, Or.inr rfl, rfl, rfl, rfl, by decide⟩

theorem dnsRequestParse_exampleAnswer :
    Sendable exampleAnswer exampleCom exampleCom ∧
    ∃ msg, dnsSendAnswer 3 exampleAnswer = some msg ∧
      (RoundTrips exampleAnswer zeroPacket (Memory.ofBytes msg fun _ => 0) ↔
        ReadsAsText (Memory.ofBytes msg fun _ => 0).contents exampleAnswer) :=
  ⟨exampleAnswer_sendable, dnsRequestParse_answer exampleAnswer exampleCom exampleCom
    exampleAnswer_sendable 3 (by decide) zeroPacket fun _ => 0⟩

/-- A name in letters is neither the root nor a pointer. -/
theorem exampleAnswer_lost :
    Sendable exampleAnswer exampleCom exampleCom ∧
    ¬ RoundTrips exampleAnswer zeroPacket
      (Memory.ofBytes (sendAnswerBuffer exampleAnswer) fun _ => 0) := by
  refine ⟨exampleAnswer_sendable, ?_⟩
  intro h
  rcases (roundTrips_iff exampleAnswer_sendable (holdsAt_ofBytes _ _)).mp h with hroot | hpoints
  · exact absurd hroot.1 (by decide)
  · obtain ⟨⟨b, c, ls, e, hb, hptr, -⟩, -⟩ := hpoints
    have hfirst : (Memory.ofBytes (sendAnswerBuffer exampleAnswer) fun _ => 0).contents 12
        = some 101 := by decide
    rw [hfirst, Option.some.injEq] at hb
    subst hb
    exact absurd hptr (by decide)

end DnsServer
