/-
A well-formed response is parsed as what it says.

The parser reaches the first answer by skipping the question a second time, so
what has to agree is where two traversals of one name end.  Both are
`NameAt`, which is read in one way only, and `PacketReads` has already put the
answer after the question; what is left is that a message's first question and
first record are what `PacketReads` asks for, whatever compression was used.
-/
import DnsServer.Proofs.Query

namespace DnsServer

open Call

/-- The packet fields a record fills. -/
def Record.toAnswer (r : Record) : DnsAnswer :=
  { name := r.name.text, type := r.type, rclass := r.rclass, ttl := r.ttl
    rdlength := UInt16.ofNat r.rdata.length, rdata := r.rdata }

/-- The packet fields a question fills. -/
def Question.toQuestion (q : Question) : DnsQuestion :=
  { qname := q.name.text, qtype := q.qtype, qclass := q.qclass }

theorem Record.toNat_rdlength (r : Record) : r.toAnswer.rdlength.toNat = r.rdata.length := by
  rw [Record.toAnswer, UInt16.toNat_ofNat']
  exact Nat.mod_eq_of_lt r.short

theorem Record.toAnswer_fields (r : Record) : r.toAnswer.fields = r.fields := by
  rw [DnsAnswer.fields, r.toNat_rdlength]
  rfl

theorem Name.fits (n : Name) : (dotted n.raw).length < nameBufferSize := by
  have := n.length_dotted_le
  unfold nameBufferSize
  omega

theorem questionReads_of_nameAt {m : Contents} {p e : Nat} {q : Question}
    (hname : NameAt m p q.name.raw e)
    (hfields : HoldsAt m e (Endian.beBytes 2 q.qtype.toNat ++ Endian.beBytes 2 q.qclass.toNat)) :
    QuestionReads m p q.toQuestion (e + 4) :=
  ⟨q.name.raw, e, hname, q.name.fits, q.name.nameText_raw.symm, hfields, rfl⟩

theorem answerReads_of_nameAt {m : Contents} {p e : Nat} {r : Record}
    (hname : NameAt m p r.name.raw e) (hfields : HoldsAt m e r.fields) :
    AnswerReads m p r.toAnswer := by
  refine ⟨r.name.raw, e, hname, r.name.fits, r.name.nameText_raw.symm, ?_, ?_⟩
  · rw [r.toAnswer_fields]
    exact hfields
  · exact r.toNat_rdlength.symm

/-- A well-formed message with one question and an answer reads as their packet. -/
theorem WellFormed.packetReads {msg : Bytes} {m : Message} (hwf : WellFormed msg m)
    (hqdcount : m.header.qdcount = 1) (hancount : 1 ≤ m.header.ancount.toNat) :
    ∃ q r rs, m.questions = [q] ∧ m.answers = r :: rs ∧
      PacketReads (Bytes.contents msg)
        { header := m.header, question := q.toQuestion, answer := r.toAnswer } := by
  have hone : m.questions.length = 1 := by rw [← hwf.qdcount, hqdcount]; rfl
  obtain ⟨q, hq⟩ := List.length_eq_one_iff.mp hone
  have hpos : 0 < m.answers.length := by rw [← hwf.ancount]; exact hancount
  obtain ⟨r, rs, hr⟩ := List.exists_cons_of_length_pos hpos
  refine ⟨q, r, rs, hq, hr, ?_⟩
  obtain ⟨e₁, e₂, e₃, hquestions, hanswers, -, -⟩ := hwf.body
  rw [hq] at hquestions
  rw [hr] at hanswers
  cases hquestions with
  | cons hqname hqfields hnone =>
      cases hnone
      cases hanswers with
      | cons hrname hrfields _ =>
          exact ⟨hwf.header, _, questionReads_of_nameAt hqname hqfields,
            fun _ => answerReads_of_nameAt hrname hrfields⟩

/--
**A well-formed response is parsed as what it says.**  With one question and at
least one answer, the parser returns the header, the question and the first
record of the answer section, whatever comes after that record and whatever
memory follows the message.
-/
theorem dnsRequestParse_wellFormed {msg : Bytes} {m : Message} (hwf : WellFormed msg m)
    (hqdcount : m.header.qdcount = 1) (hancount : 1 ≤ m.header.ancount.toNat)
    (pkt₀ : DnsPacket) (rest : Memory) :
    ∃ q r rs, m.questions = [q] ∧ m.answers = r :: rs ∧
      Settles (fun fuel => dnsRequestParse fuel allocOk pkt₀ (Memory.ofBytes msg rest))
        (done (some { header := m.header, question := q.toQuestion, answer := r.toAnswer })) := by
  obtain ⟨q, r, rs, hq, hr, hreads⟩ := hwf.packetReads hqdcount hancount
  have hsome : 0 < m.header.ancount := hancount
  exact ⟨q, r, rs, hq, hr, dnsRequestParse_settles_iff.mpr ⟨rfl, fun _ => ⟨rfl, rfl⟩,
    hreads.mono (contents_le_ofBytes msg rest), fun hno => absurd hsome hno⟩⟩

/-! ### A response as servers send it -/

/-- A response header with one question and one answer. -/
def responseHeader : DnsHeader :=
  { id := 7, rd := 1, tc := 0, aa := 0, opcode := 0, qr := 1, rcode := 0, cd := 0, ad := 0, z := 0
    ra := 1, qdcount := 1, ancount := 1, nscount := 0, arcount := 0 }

/-- The answer's owner is the question's name, compressed to a pointer. -/
def exampleResponse : Bytes :=
  responseHeader.wire ++ encodeLabels exampleCom.raw ++ [0, 1, 0, 1] ++
    [0xC0, 12, 0, 1, 0, 1, 0, 0, 0, 60, 0, 4, 93, 184, 216, 34]

def exampleMessage : Message :=
  { header := responseHeader
    questions := [{ name := exampleCom, qtype := 1, qclass := 1 }]
    answers := [{ name := exampleCom, type := 1, rclass := 1, ttl := 60
                  rdata := [93, 184, 216, 34], short := by decide }]
    authorities := [], additionals := [] }

theorem exampleCom_at_question : NameAt exampleResponse.contents 12 exampleCom.raw 25 :=
  nameAt_encode exampleCom_encodes (by decide)

theorem exampleResponse_wellFormed : WellFormed exampleResponse exampleMessage := by
  refine ⟨by decide, by decide, rfl, rfl, rfl, rfl, 29, 45, 45, ?_, ?_, ?_, ?_⟩
  · exact QuestionsAt.cons exampleCom_at_question (by decide) (QuestionsAt.nil _)
  · exact RecordsAt.cons (NameAt.pointer rfl rfl rfl exampleCom_at_question) (by decide)
      (RecordsAt.nil _)
  · exact RecordsAt.nil _
  · exact RecordsAt.nil _

theorem dnsRequestParse_exampleResponse :
    ∃ q r rs, exampleMessage.questions = [q] ∧ exampleMessage.answers = r :: rs ∧
      Settles (fun fuel => dnsRequestParse fuel allocOk zeroPacket
          (Memory.ofBytes exampleResponse fun _ => 0))
        (done (some
          { header := responseHeader, question := q.toQuestion, answer := r.toAnswer })) :=
  dnsRequestParse_wellFormed exampleResponse_wellFormed rfl (by decide) zeroPacket _

end DnsServer
