/-
The counts a message announces, and what is in it.

Both serialisers copy the four counts of the packet they are given, and write what
a packet has room for: its question, and, when it is an answer, the first record.
So the counts are true of the message written when the datagram the packet was
parsed from held no more than that.
-/
import DnsServer.Proofs.Answer
import DnsServer.Proofs.ForwardedQuestion

namespace DnsServer

open Call

/-! ### What is written after the header -/

/-- The entries of a message, section by section. -/
structure Sections where
  questions : List DnsQuestion
  answers : List DnsAnswer
  authorities : List DnsAnswer
  additionals : List DnsAnswer

/-- A question with its name written by `layName`. -/
def DnsQuestion.laid (layName : Bytes → Bytes) (q : DnsQuestion) : Bytes :=
  layName q.qname ++ Endian.beBytes 2 q.qtype.toNat ++ Endian.beBytes 2 q.qclass.toNat

/-- A record with its name written by `layName`. -/
def DnsAnswer.laid (layName : Bytes → Bytes) (a : DnsAnswer) : Bytes := layName a.name ++ a.fields

/-- The sections one after another. -/
def Sections.laid (layName : Bytes → Bytes) (s : Sections) : Bytes :=
  s.questions.flatMap (DnsQuestion.laid layName) ++ s.answers.flatMap (DnsAnswer.laid layName) ++
    s.authorities.flatMap (DnsAnswer.laid layName) ++
    s.additionals.flatMap (DnsAnswer.laid layName)

/-- The header counts the entries of each section. -/
def DnsHeader.Counts (h : DnsHeader) (s : Sections) : Prop :=
  h.qdcount.toNat = s.questions.length ∧ h.ancount.toNat = s.answers.length ∧
    h.nscount.toNat = s.authorities.length ∧ h.arcount.toNat = s.additionals.length

/-- The message is a header and these sections, and the header counts them. -/
def CountsTold (layName : Bytes → Bytes) (msg : Bytes) (s : Sections) : Prop :=
  ∃ h : DnsHeader, msg = h.wire ++ s.laid layName ∧ h.Counts s

/-- `dns_send_packet` writes names in labels. -/
def labelled (name : Bytes) : Bytes := (dnsEncodeName name).1

/-- `dns_send_answer` writes names as strings. -/
def terminated (name : Bytes) : Bytes := name ++ [0]

/-- What `dns_send_packet` writes: the question. -/
def sendPacketSections (pkt : DnsPacket) : Sections :=
  { questions := [pkt.question], answers := [], authorities := [], additionals := [] }

/-- What `dns_send_answer` writes: the question, and the answer if there is one. -/
def sendAnswerSections (pkt : DnsPacket) : Sections :=
  { questions := [pkt.question]
    answers := if 0 < pkt.header.ancount then [pkt.answer] else []
    authorities := [], additionals := [] }

theorem sendPacketBuffer_sections (pkt : DnsPacket) :
    sendPacketBuffer pkt = pkt.header.wire ++ (sendPacketSections pkt).laid labelled := by
  rw [sendPacketBuffer_eq]
  simp [Sections.laid, sendPacketSections, DnsQuestion.laid, labelled, dnsEncodeName_eq]

theorem sendAnswerBuffer_sections {pkt : DnsPacket}
    (hlen : 0 < pkt.header.ancount → pkt.answer.rdata.length = pkt.answer.rdlength.toNat) :
    sendAnswerBuffer pkt
      = pkt.asResponse.header.wire ++ (sendAnswerSections pkt).laid terminated := by
  rw [sendAnswerBuffer_eq hlen]
  by_cases han : 0 < pkt.header.ancount
  · simp [Sections.laid, sendAnswerSections, DnsQuestion.laid, DnsAnswer.laid, terminated, han]
  · simp [Sections.laid, sendAnswerSections, DnsQuestion.laid, terminated, han]

/-! ### Whether the counts are true -/

/-- A message tells its header. -/
theorem header_of_wire {h h' : DnsHeader} {s s' : Bytes} (heq : h.wire ++ s = h'.wire ++ s') :
    h = h' := by
  obtain ⟨hwire, -⟩ := List.append_inj heq (by rw [length_header_wire, length_header_wire])
  have hholds := holdsAt_ofBytes h.wire fun _ => 0
  have hparse := dnsHeaderParse_eq_iff.mpr hholds
  rw [hwire] at hholds
  rw [← hparse]
  exact dnsHeaderParse_eq_iff.mpr (hwire ▸ hholds)

theorem countsTold_iff {layName : Bytes → Bytes} {h : DnsHeader} {s : Sections} :
    CountsTold layName (h.wire ++ s.laid layName) s ↔ h.Counts s := by
  refine ⟨?_, fun hcounts => ⟨h, rfl, hcounts⟩⟩
  intro htold
  obtain ⟨h', heq, hcounts⟩ := htold
  rwa [header_of_wire heq]

theorem counts_sendPacketSections {h : DnsHeader} {pkt : DnsPacket} :
    h.Counts (sendPacketSections pkt) ↔ h.qdcount.toNat = 1 ∧ h.ancount.toNat = 0 ∧
      h.nscount.toNat = 0 ∧ h.arcount.toNat = 0 := Iff.rfl

/-- With true counts, and a name that has a label, the forwarded message is a message. -/
theorem sendPacketBuffer_wellFormed {pkt : DnsPacket} {n : Name} (hn : n.labels ≠ [])
    (hq : pkt.question.qname = n.text) (hcounts : pkt.header.Counts (sendPacketSections pkt)) :
    WellFormed (sendPacketBuffer pkt)
      { header := pkt.header
        questions := [{ name := n, qtype := pkt.question.qtype, qclass := pkt.question.qclass }]
        answers := [], authorities := [], additionals := [] } := by
  obtain ⟨hqd, han, hns, har⟩ := hcounts
  have hbuffer := sendPacketBuffer_eq pkt
  rw [hq, n.textLabels_text hn, List.append_assoc, List.append_assoc] at hbuffer
  have hlength := congrArg List.length hbuffer
  have hall := holdsAt_bytes (sendPacketBuffer pkt)
  generalize sendPacketBuffer pkt = msg at hbuffer hlength hall
  simp only [List.length_append, length_header_wire, Endian.length_beBytes] at hlength
  have hshort := n.short
  have hname : (encodeLabels n.raw).length ≤ 255 := hshort
  rw [hbuffer, holdsAt_append, holdsAt_append, length_header_wire, ← hbuffer] at hall
  obtain ⟨hheader, hlabels, hfields⟩ := hall
  simp only [Nat.zero_add] at hlabels hfields
  have hread := nameAt_encode (fun l hl => ⟨(n.raw_legal hl).1, (n.raw_legal hl).2.1⟩) hlabels
  have hend : headerSize + (encodeLabels n.raw).length + 4 = msg.length := by omega
  refine ⟨?_, hheader, hqd, han, hns, har, msg.length, msg.length, msg.length, ?_, ?_, ?_, ?_⟩
  · unfold headerSize at hlength
    omega
  · rw [← hend]
    exact QuestionsAt.cons hread hfields (QuestionsAt.nil _)
  · exact RecordsAt.nil _
  · exact RecordsAt.nil _
  · exact RecordsAt.nil _

theorem counts_sendAnswerSections {pkt : DnsPacket} :
    pkt.asResponse.header.Counts (sendAnswerSections pkt) ↔
      pkt.header.qdcount.toNat = 1 ∧ pkt.header.ancount.toNat ≤ 1 ∧
        pkt.header.nscount.toNat = 0 ∧ pkt.header.arcount.toNat = 0 := by
  have hanswers : pkt.header.ancount.toNat = (sendAnswerSections pkt).answers.length ↔
      pkt.header.ancount.toNat ≤ 1 := by
    by_cases han : 0 < pkt.header.ancount
    · have hpos : 0 < pkt.header.ancount.toNat := han
      simp only [sendAnswerSections, if_pos han, List.length_singleton]
      omega
    · have hzero : ¬ 0 < pkt.header.ancount.toNat := han
      simp only [sendAnswerSections, if_neg han, List.length_nil]
      omega
  unfold DnsHeader.Counts
  rw [show pkt.asResponse.header.ancount = pkt.header.ancount from rfl, hanswers]
  rfl

/-! ### Of a datagram that was parsed -/

/-- What is parsed from a message has the message's header, and a record as long as it says. -/
theorem parsed_of_message {msg : Bytes} {m : Message} (hwf : WellFormed msg m) {al : Alloc}
    {pkt₀ pkt : DnsPacket} {rest : Memory}
    (hparse : Settles (fun fuel => dnsRequestParse fuel al pkt₀ (Memory.ofBytes msg rest))
      (done (some pkt))) :
    pkt.header = m.header ∧
      (0 < pkt.header.ancount → pkt.answer.rdata.length = pkt.answer.rdlength.toNat) := by
  obtain ⟨-, -, ⟨hheader, e, -, hanswer⟩, -⟩ := dnsRequestParse_settles_iff.mp hparse
  refine ⟨?_, ?_⟩
  · rw [← dnsHeaderParse_eq_iff.mpr hheader]
    exact dnsHeaderParse_eq_iff.mpr (holdsAt_mono (contents_le_ofBytes msg rest) hwf.header)
  · intro han
    obtain ⟨ls, f, -, -, -, -, hlen⟩ := hanswer han
    exact hlen

theorem dnsSendAnswer_sent {gSockfd : Int} {pkt : DnsPacket} {out : Bytes}
    (h : dnsSendAnswer gSockfd pkt = some out) : out = sendAnswerBuffer pkt := by
  unfold dnsSendAnswer at h
  by_cases hsock : gSockfd = -1
  · rw [if_pos hsock] at h
    exact absurd h.symm (Option.some_ne_none out)
  · rw [if_neg hsock, Option.some.injEq] at h
    exact h.symm

/--
**The counts sent are true exactly of small messages.**  The packet of a
well-formed message is forwarded with true counts when the message was a single
question and nothing else, and sent as an answer with true counts when it was a
single question, at most one answer and nothing else.
-/
theorem counts_sent_iff {ε : Type} (msg : Bytes) (m : Message) (hwf : WellFormed msg m) (al : Alloc)
    (pkt₀ pkt : DnsPacket) (rest : Memory)
    (hparse : Settles (fun fuel => dnsRequestParse fuel al pkt₀ (Memory.ofBytes msg rest))
      (done (some pkt))) :
    (∀ fuel gSockfd (forwardAddr : Option ε) sends startTime rounds out addr,
      (dnsForwardQuery fuel gSockfd pkt forwardAddr sends startTime rounds).1
        = some (out, addr) →
      (CountsTold labelled out (sendPacketSections pkt) ↔
        m.questions.length = 1 ∧ m.answers.length = 0 ∧ m.authorities.length = 0 ∧
          m.additionals.length = 0)) ∧
    (∀ gSockfd out, dnsSendAnswer gSockfd pkt = some out →
      (CountsTold terminated out (sendAnswerSections pkt) ↔
        m.questions.length = 1 ∧ m.answers.length ≤ 1 ∧ m.authorities.length = 0 ∧
          m.additionals.length = 0)) := by
  obtain ⟨hheader, hlen⟩ := parsed_of_message hwf hparse
  rw [← hwf.qdcount, ← hwf.ancount, ← hwf.nscount, ← hwf.arcount, ← hheader]
  refine ⟨?_, ?_⟩
  · intro fuel gSockfd forwardAddr sends startTime rounds out addr hsent
    rw [dnsForwardQuery_sent hsent, sendPacketBuffer_sections, countsTold_iff]
    exact counts_sendPacketSections
  · intro gSockfd out hsent
    rw [dnsSendAnswer_sent hsent, sendAnswerBuffer_sections hlen, countsTold_iff]
    exact counts_sendAnswerSections

/-! ### A query with an EDNS record -/

/-- An OPT record announcing a buffer of 4096 bytes. -/
def optRecord : Record :=
  { name := { labels := [], short := by decide }, type := 41, rclass := 4096, ttl := 0, rdata := []
    short := by decide }

def ednsHeader : DnsHeader := { queryHeader with arcount := 1 }

def ednsQuery : Bytes :=
  ednsHeader.wire ++ questionSection exampleCom.raw dnsTypeA dnsClassIn ++ 0 :: optRecord.fields

def ednsMessage : Message :=
  { header := ednsHeader
    questions := [{ name := exampleCom, qtype := dnsTypeA, qclass := dnsClassIn }]
    answers := [], authorities := [], additionals := [optRecord] }

theorem ednsQuery_wellFormed : WellFormed ednsQuery ednsMessage := by
  refine ⟨by decide, by decide, rfl, rfl, rfl, rfl, 29, 29, 29, ?_, ?_, ?_, ?_⟩
  · exact QuestionsAt.cons (nameAt_encode exampleCom_encodes (by decide)) (by decide)
      (QuestionsAt.nil _)
  · exact RecordsAt.nil _
  · exact RecordsAt.nil _
  · exact RecordsAt.cons (NameAt.root (by decide)) (by decide) (RecordsAt.nil _)

theorem ednsQuery_parsed (rest : Memory) :
    ∃ pkt, pkt.header = ednsHeader ∧
      Settles (fun fuel => dnsRequestParse fuel allocOk zeroPacket (Memory.ofBytes ednsQuery rest))
        (done (some pkt)) := by
  obtain ⟨e₁, -, -, hquestions, -, -, -⟩ := ednsQuery_wellFormed.body
  have hno : ¬ 0 < ednsHeader.ancount := by decide
  cases hquestions with
  | cons hname hfields _ =>
      have hreads : PacketReads (Bytes.contents ednsQuery)
          { zeroPacket with header := ednsHeader, question := Question.toQuestion _ } :=
        ⟨ednsQuery_wellFormed.header, _, questionReads_of_nameAt hname hfields,
          fun han => absurd han hno⟩
      exact ⟨_, rfl, dnsRequestParse_of_reads (contents_le_ofBytes ednsQuery rest) hreads⟩

theorem counts_sent_edns :
    ∃ pkt out out', Settles (fun fuel => dnsRequestParse fuel allocOk zeroPacket
        (Memory.ofBytes ednsQuery fun _ => 0)) (done (some pkt)) ∧
      (dnsForwardQuery 9 3 pkt (some "8.8.8.8") true 0 []).1 = some (out, "8.8.8.8") ∧
      dnsSendAnswer 3 pkt = some out' ∧
      (CountsTold labelled out (sendPacketSections pkt) ↔
        ednsMessage.questions.length = 1 ∧ ednsMessage.answers.length = 0 ∧
          ednsMessage.authorities.length = 0 ∧ ednsMessage.additionals.length = 0) ∧
      (CountsTold terminated out' (sendAnswerSections pkt) ↔
        ednsMessage.questions.length = 1 ∧ ednsMessage.answers.length ≤ 1 ∧
          ednsMessage.authorities.length = 0 ∧ ednsMessage.additionals.length = 0) := by
  obtain ⟨pkt, -, hparse⟩ := ednsQuery_parsed fun _ => 0
  obtain ⟨hforward, hanswer⟩ := counts_sent_iff (ε := String) ednsQuery ednsMessage
    ednsQuery_wellFormed allocOk zeroPacket pkt _ hparse
  exact ⟨pkt, _, _, hparse, rfl, rfl, hforward 9 3 (some "8.8.8.8") true 0 [] _ _ rfl,
    hanswer 3 _ rfl⟩

/-- Neither message has the additional record it announces. -/
theorem edns_counts_untrue :
    ∃ pkt out out', Settles (fun fuel => dnsRequestParse fuel allocOk zeroPacket
        (Memory.ofBytes ednsQuery fun _ => 0)) (done (some pkt)) ∧
      (dnsForwardQuery 9 3 pkt (some "8.8.8.8") true 0 []).1 = some (out, "8.8.8.8") ∧
      dnsSendAnswer 3 pkt = some out' ∧
      ¬ CountsTold labelled out (sendPacketSections pkt) ∧
      ¬ CountsTold terminated out' (sendAnswerSections pkt) := by
  obtain ⟨pkt, hheader, hparse⟩ := ednsQuery_parsed fun _ => 0
  obtain ⟨-, hlen⟩ := parsed_of_message ednsQuery_wellFormed hparse
  refine ⟨pkt, sendPacketBuffer pkt, sendAnswerBuffer pkt, hparse, rfl, rfl, ?_, ?_⟩
  · rw [sendPacketBuffer_sections, countsTold_iff, counts_sendPacketSections, hheader]
    decide
  · rw [sendAnswerBuffer_sections hlen, countsTold_iff, counts_sendAnswerSections, hheader]
    decide

end DnsServer
