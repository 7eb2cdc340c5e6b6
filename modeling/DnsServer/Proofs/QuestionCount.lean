/-
What is taken for the answer when there is not one question.

The parser looks for the answer after one question, whatever the header counts.  With
two questions or more it is at the second, whose name it reads as a record's, then the
type and the class, and the bytes after that question as the time to live, the length
and the data.  With none, the first record has been read as the question, and the
answer's name is looked for at its time to live.

So the answer is the first record only if those bytes spell it once more.
-/
import DnsServer.Proofs.Decompress

namespace DnsServer

open Call

variable {data : Memory} {al : Alloc} {pkt₀ : DnsPacket}

/-! ### The parser does nothing undefined -/

theorem dnsReadName_defined (data : Memory) (offset : UInt16) (maxLen : Nat) :
    Defined (fun fuel => dnsReadName fuel data offset maxLen) := Defined.ofRun _ _

theorem answerAt_defined (al : Alloc) (data : Memory) (r : Option (UInt16 × Bytes)) :
    Defined (fun fuel => answerAt fuel al data r) := by
  cases r with
  | none => exact Defined.const _
  | some v => exact Defined.bind (dnsReadName_defined _ _ _) fun _ => Defined.const _

theorem packetAfter_defined (al : Alloc) (pkt₀ : DnsPacket) (data : Memory)
    (r : Option (DnsQuestion × Nat)) : Defined (fun fuel => packetAfter fuel al pkt₀ data r) := by
  cases r with
  | none => exact Defined.const _
  | some v =>
      by_cases han : 0 < (dnsHeaderParse data).ancount
      · simp only [packetAfter, if_pos han, dnsAnswerParse_eq]
        exact Defined.bind (Defined.bind (dnsReadName_defined _ _ _) (answerAt_defined al data))
          fun _ => Defined.const _
      · simp only [packetAfter, if_neg han]
        exact Defined.const _

theorem dnsRequestParse_defined (al : Alloc) (pkt₀ : DnsPacket) (data : Memory) :
    Defined (fun fuel => dnsRequestParse fuel al pkt₀ data) := by
  simp only [dnsRequestParse_eq, dnsQuestionParse_eq]
  exact Defined.bind (Defined.bind (dnsReadName_defined _ _ _) fun _ => Defined.const _)
    (packetAfter_defined al pkt₀ data)

/-! ### What is read where the answer is looked for -/

/-- A name that fits can be read at the position. -/
def NameReads (data : Memory) (p : Nat) : Prop :=
  ∃ ls f, NameAt data.contents p ls f ∧ (dotted ls).length < nameBufferSize

/-- Where a name that fits is read, the bytes after it are a record's. -/
theorem answerReads_exists {p : Nat} (h : NameReads data p) :
    ∃ a, AnswerReads data.contents p a := by
  obtain ⟨ls, f, hname, hroom⟩ := h
  refine ⟨{ name := nameText ls, type := ntohs (load16 data f)
            rclass := ntohs (load16 data (f + 2)), ttl := ntohl (load32 data (f + 4))
            rdlength := ntohs (load16 data (f + 8))
            rdata := slice data (f + 10) (ntohs (load16 data (f + 8))).toNat },
    ls, f, hname, hroom, rfl, ?_, length_slice _ _ _⟩
  unfold DnsAnswer.fields
  simp only [holdsAt_append, List.length_append, Endian.length_beBytes,
    ← ntohs_load16_eq_iff, ← ntohl_load32_eq_iff, true_and]
  exact holdsAt_slice _ _ _

/-- The parser fails, or it fills the answer with this one. -/
def FailsOrFills (al : Alloc) (pkt₀ : DnsPacket) (data : Memory) (a : DnsAnswer) : Prop :=
  Settles (fun fuel => dnsRequestParse fuel al pkt₀ data) (done none) ∨
    ∃ pkt, Settles (fun fuel => dnsRequestParse fuel al pkt₀ data) (done (some pkt)) ∧
      pkt.answer = a

/-- One record is read after a question. -/
theorem answerReads_det {q : DnsQuestion} {e : Nat} {a a' : DnsAnswer}
    (hq : QuestionReads data.contents headerSize q e) (h : AnswerReads data.contents e a)
    (h' : AnswerReads data.contents e a') : a = a' := by
  have hparse := (@dnsAnswerParse_settles_iff data allocOk q e hq a).mpr ⟨rfl, rfl, h⟩
  have hparse' := (@dnsAnswerParse_settles_iff data allocOk q e hq a').mpr ⟨rfl, rfl, h'⟩
  have heq := Settles.unique hparse hparse'
  simp only [done.injEq, Option.some.injEq] at heq
  exact heq

section Parse

variable {ls : List Bytes} {f : Nat}

/-- A question whose name is not copied is a failure. -/
theorem parse_uncopied (hname : NameAt data.contents headerSize ls f)
    (hroom : (dotted ls).length < nameBufferSize) (hal : al 0 = false) :
    Settles (fun fuel => dnsRequestParse fuel al pkt₀ data) (done none) := by
  have hread := (readName_settles_iff (by decide)).mpr ⟨ls, f, hname, hroom, rfl⟩
  simp only [dnsRequestParse_eq]
  rw [Settles.bind_iff (dnsQuestionParse_mono al data headerSize) (packetAfter_mono al pkt₀ data)]
  refine ⟨none, ?_, Settles.const_iff.mpr rfl⟩
  simp only [dnsQuestionParse_eq]
  rw [Settles.bind_done_iff (dnsReadName_mono _ _ _)]
  exact ⟨_, hread, by simp [questionAfter, hal]⟩

/-- A packet parsed has had its copies made, and its answer is the record after the question. -/
theorem parsed_answer {pkt : DnsPacket} (hname : NameAt data.contents headerSize ls f)
    (han : 0 < (dnsHeaderParse data).ancount)
    (h : Settles (fun fuel => dnsRequestParse fuel al pkt₀ data) (done (some pkt))) :
    al 0 = true ∧ al 1 = true ∧ al 2 = true ∧
      AnswerReads data.contents (f + 4) pkt.answer := by
  obtain ⟨hal, halAnswer, ⟨hheader, e, hq, hanswer⟩, -⟩ := dnsRequestParse_settles_iff.mp h
  rw [dnsHeaderParse_eq_iff.mpr hheader] at han
  have hend : e = f + 4 := by
    obtain ⟨ls', f', hname', -, -, -, rfl⟩ := hq
    rw [(nameAt_det hname' hname).2]
  rw [hend] at hanswer
  exact ⟨hal, (halAnswer han).1, (halAnswer han).2, hanswer han⟩

/-- Past a question that is copied, only a ring of pointers in the record's name keeps the parser
from coming back. -/
theorem parse_returns_iff {q : DnsQuestion} (hname : NameAt data.contents headerSize ls f)
    (hroom : (dotted ls).length < nameBufferSize) (han : 0 < (dnsHeaderParse data).ancount)
    (hal : al 0 = true) (hq : QuestionReads data.contents headerSize q (f + 4)) :
    Returns (fun fuel => dnsRequestParse fuel al pkt₀ data) ↔
      ¬ LeadsToRing data nameBufferSize (f + 4) := by
  have hsettles :=
    (@dnsQuestionParse_settles_iff data al headerSize (by decide) q (f + 4)).mpr ⟨hal, hq⟩
  simp only [dnsRequestParse_eq]
  rw [Returns.bind_iff (dnsQuestionParse_mono al data headerSize) (packetAfter_mono al pkt₀ data),
    ← @packetAfter_returns_iff data al pkt₀ (q, f + 4) ls f hname hroom han]
  refine ⟨fun h => h.2 _ hsettles, fun h => ⟨hsettles.returns (by simp), fun r hr => ?_⟩⟩
  have heq := Settles.unique hr hsettles
  rw [done.injEq] at heq
  rw [heq]
  exact h

/--
Where the name at the question is read, the parser fails or fills the answer with `a` exactly
when the name is not copied, or the name four bytes after it can be followed to an end and then
is not read or not copied, or its record is `a`.
-/
theorem failsOrFills_iff (hname : NameAt data.contents headerSize ls f)
    (hroom : (dotted ls).length < nameBufferSize)
    (han : 0 < (dnsHeaderParse data).ancount) (a : DnsAnswer) :
    FailsOrFills al pkt₀ data a ↔
      al 0 = false ∨ (¬ LeadsToRing data nameBufferSize (f + 4) ∧
        (al 1 = false ∨ al 2 = false ∨ ¬ NameReads data (f + 4) ∨
          AnswerReads data.contents (f + 4) a)) := by
  rcases hal : al 0 with _ | _
  · exact ⟨fun _ => Or.inl rfl, fun _ => Or.inl (parse_uncopied hname hroom hal)⟩
  obtain ⟨q, hq⟩ := questionReads_exists hname hroom
  have hreturns : Returns (fun fuel => dnsRequestParse fuel al pkt₀ data) ↔
      ¬ LeadsToRing data nameBufferSize (f + 4) := parse_returns_iff hname hroom han hal hq
  refine ⟨?_, ?_⟩
  · intro h
    refine Or.inr ?_
    rcases h with hfails | ⟨pkt, hpkt, rfl⟩
    · refine ⟨hreturns.mp (hfails.returns (by simp)), ?_⟩
      -- with the copies made, a record that can be read would have been returned
      rcases hal1 : al 1 with _ | _
      · exact Or.inl rfl
      rcases hal2 : al 2 with _ | _
      · exact Or.inr (Or.inl rfl)
      refine Or.inr (Or.inr (Or.inl fun hreads => ?_))
      obtain ⟨b, hb⟩ := answerReads_exists hreads
      have hpkt : Settles (fun fuel => dnsRequestParse fuel al pkt₀ data)
          (done (some { header := dnsHeaderParse data, question := q, answer := b })) :=
        dnsRequestParse_settles_iff.mpr ⟨hal, fun _ => ⟨hal1, hal2⟩,
          ⟨dnsHeaderParse_eq_iff.mp rfl, _, hq, fun _ => hb⟩, fun hzero => absurd han hzero⟩
      have heq := Settles.unique hfails hpkt
      simp at heq
    · obtain ⟨-, -, -, hanswer⟩ := parsed_answer hname han hpkt
      exact ⟨hreturns.mp (hpkt.returns (by simp)), Or.inr (Or.inr (Or.inr hanswer))⟩
  · intro h
    rcases h with hno | ⟨hring, hcase⟩
    · simp at hno
    obtain ⟨result, hresult⟩ := (hreturns.mpr hring).settles (dnsRequestParse_mono al pkt₀ data)
      (dnsRequestParse_defined al pkt₀ data)
    rcases result with _ | pkt
    · exact Or.inl hresult
    · obtain ⟨-, hal1, hal2, hanswer⟩ := parsed_answer hname han hresult
      refine Or.inr ⟨pkt, hresult, ?_⟩
      rcases hcase with hno | hno | hno | ha
      · rw [hal1] at hno
        simp at hno
      · rw [hal2] at hno
        simp at hno
      · obtain ⟨ls', g, hname', hroom', -⟩ := hanswer
        exact absurd ⟨ls', g, hname', hroom'⟩ hno
      · exact answerReads_det hq hanswer ha

end Parse

/-! ### A message's questions -/

/-- The question, and the bytes from the position after it, spell the record: its name, its type
and class, then its time to live, its length and its data. -/
structure Spells (m : Contents) (q : Question) (e : Nat) (r : Record) : Prop where
  name : q.name.text = r.name.text
  type : q.qtype = r.type
  rclass : q.qclass = r.rclass
  rest : HoldsAt m e (Endian.beBytes 4 r.ttl.toNat ++ Endian.beBytes 2 r.rdata.length ++ r.rdata)

/-- A question read as a record is this one exactly when it spells it. -/
theorem answerReads_question_iff {m : Contents} {p f : Nat} {q : Question} {r : Record}
    (hname : NameAt m p q.name.raw f)
    (hfields : HoldsAt m f
      (Endian.beBytes 2 q.qtype.toNat ++ Endian.beBytes 2 q.qclass.toNat)) :
    AnswerReads m p r.toAnswer ↔ Spells m q (f + 4) r := by
  have hsplit : ∀ t c : UInt16, HoldsAt m f (Endian.beBytes 2 t.toNat ++
      Endian.beBytes 2 c.toNat ++ Endian.beBytes 4 r.ttl.toNat ++
      Endian.beBytes 2 r.rdata.length ++ r.rdata) ↔
      HoldsAt m f (Endian.beBytes 2 t.toNat ++ Endian.beBytes 2 c.toNat) ∧
      HoldsAt m (f + 4)
        (Endian.beBytes 4 r.ttl.toNat ++ Endian.beBytes 2 r.rdata.length ++ r.rdata) := by
    intro t c
    rw [List.append_assoc, List.append_assoc, holdsAt_append, List.append_assoc]
    simp
  have htext : r.toAnswer.name = nameText q.name.raw ↔ q.name.text = r.name.text := by
    rw [q.name.nameText_raw]
    exact eq_comm
  unfold AnswerReads
  refine ⟨?_, ?_⟩
  · intro h
    obtain ⟨ls, f', hname', -, ha, hrecord, -⟩ := h
    obtain ⟨rfl, rfl⟩ := nameAt_det hname hname'
    rw [r.toAnswer_fields, Record.fields, hsplit] at hrecord
    have hboth := holdsAt_inj hfields hrecord.1 (by simp)
    obtain ⟨htype, hclass⟩ := List.append_inj hboth (by simp)
    exact ⟨htext.mp ha, beBytes_uint16_inj htype, beBytes_uint16_inj hclass, hrecord.2⟩
  · intro h
    obtain ⟨hspelled, htype, hclass, hrest⟩ := h
    refine ⟨q.name.raw, f, hname, q.name.fits, htext.mpr hspelled, ?_, r.toNat_rdlength.symm⟩
    rw [r.toAnswer_fields, Record.fields, hsplit, ← htype, ← hclass]
    exact ⟨hfields, hrest⟩

/--
What stands where the answer is looked for is refused, or it spells the first record again.
Without a question that is at the first record's time to live, and a name is read there from
whatever its bytes are; with two or more it is at the second question.
-/
def CountHarmless (al : Alloc) (data : Memory) (m : Message) (r : Record) : Prop :=
  match m.questions with
  | [] =>
      ∃ f, NameAt data.contents headerSize r.name.raw f ∧
        ¬ LeadsToRing data nameBufferSize (f + 4) ∧
        (al 1 = false ∨ al 2 = false ∨ ¬ NameReads data (f + 4) ∨
          AnswerReads data.contents (f + 4) r.toAnswer)
  | [_] => True
  | q₁ :: q₂ :: _ =>
      al 1 = false ∨ al 2 = false ∨
        ∃ e, QuestionsAt data.contents headerSize [q₁, q₂] e ∧ Spells data.contents q₂ e r

theorem harmless_none_iff {m : Message} {r : Record} (hquestions : m.questions = []) {f : Nat}
    (hname : NameAt data.contents headerSize r.name.raw f)
    (han : 0 < (dnsHeaderParse data).ancount) :
    FailsOrFills al pkt₀ data r.toAnswer ↔ al 0 = false ∨ CountHarmless al data m r := by
  rw [failsOrFills_iff hname r.name.fits han]
  unfold CountHarmless
  rw [hquestions]
  refine or_congr_right ⟨fun h => ⟨f, hname, h⟩, fun h => ?_⟩
  obtain ⟨f', hname', hrest⟩ := h
  obtain ⟨-, rfl⟩ := nameAt_det hname hname'
  exact hrest

/-- A run of questions ends in one place. -/
theorem questionsAt_det {m : Contents} {p e e' : Nat} {qs : List Question}
    (h : QuestionsAt m p qs e) (h' : QuestionsAt m p qs e') : e = e' := by
  induction h with
  | nil =>
      rcases h'
      rfl
  | cons hname _ _ ih =>
      rcases h' with _ | ⟨hname', _, hrest'⟩
      obtain ⟨-, rfl⟩ := nameAt_det hname hname'
      exact ih hrest'

theorem harmless_more_iff {m : Message} {r : Record} {q₁ q₂ : Question} {qs : List Question}
    (hquestions : m.questions = q₁ :: q₂ :: qs) {e : Nat}
    (hat : QuestionsAt data.contents headerSize [q₁, q₂] e)
    (han : 0 < (dnsHeaderParse data).ancount) :
    FailsOrFills al pkt₀ data r.toAnswer ↔ al 0 = false ∨ CountHarmless al data m r := by
  have hspells : CountHarmless al data m r ↔
      al 1 = false ∨ al 2 = false ∨ Spells data.contents q₂ e r := by
    unfold CountHarmless
    rw [hquestions]
    refine or_congr_right (or_congr_right ⟨fun h => ?_, fun h => ⟨e, hat, h⟩⟩)
    obtain ⟨e', hat', h⟩ := h
    rw [questionsAt_det hat hat']
    exact h
  rw [hspells]
  rcases hat with _ | ⟨hname₁, hfields₁, hsecond⟩
  rename_i f₁
  rcases hsecond with _ | ⟨hname₂, hfields₂, hnil⟩
  rename_i f₂
  rcases hnil
  -- the second question's name is legal, so it is read
  obtain ⟨-, hle⟩ := nameAt_end_small (by decide) hname₁ q₁.name.fits
  have hp : f₁ + 4 ≤ 4096 := by unfold headerSize at hle; omega
  have hreads : NameReads data (f₁ + 4) := ⟨_, f₂, hname₂, q₂.name.fits⟩
  have hring : ¬ LeadsToRing data nameBufferSize (f₁ + 4) := by
    have hread := (readName_settles_iff hp).mpr ⟨_, f₂, hname₂, q₂.name.fits, rfl⟩
    exact (readName_returns_iff hp).mp (hread.returns (by simp))
  rw [failsOrFills_iff hname₁ q₁.name.fits han, answerReads_question_iff hname₂ hfields₂]
  have hno : ¬ ¬ NameReads data (f₁ + 4) := fun h => h hreads
  simp only [hring, hno, not_false_eq_true, true_and, false_or]

/--
**The answer is the first record only where what is read for it spells that record.**  For
every well-formed message whose header does not count one question and counts an answer, and
whatever memory follows it, the parser fails or fills the answer with the first record of the
answer section if and only if the name of the question is not copied or `CountHarmless` holds.
-/
theorem question_count_iff (msg : Bytes) (m : Message) (hwf : WellFormed msg m)
    (hqdcount : m.header.qdcount ≠ 1) (hancount : 1 ≤ m.header.ancount.toNat) (al : Alloc)
    (pkt₀ : DnsPacket) (rest : Memory) :
    ∃ r rs, m.answers = r :: rs ∧
      (FailsOrFills al pkt₀ (Memory.ofBytes msg rest) r.toAnswer ↔
        al 0 = false ∨ CountHarmless al (Memory.ofBytes msg rest) m r) := by
  have hle := contents_le_ofBytes msg rest
  have han : 0 < (dnsHeaderParse (Memory.ofBytes msg rest)).ancount := by
    rw [dnsHeaderParse_eq_iff.mpr (holdsAt_mono hle hwf.header)]
    exact hancount
  obtain ⟨e₁, e₂, e₃, hquestions, hanswers, -, -⟩ := hwf.body
  rcases hr : m.answers with _ | ⟨r, rs⟩
  · have hcount := hwf.ancount
    rw [hr] at hcount
    simp only [List.length_nil] at hcount
    omega
  refine ⟨r, rs, rfl, ?_⟩
  rcases hq : m.questions with _ | ⟨q₁, _ | ⟨q₂, qs⟩⟩
  · -- the record is the first thing after the header
    rw [hq] at hquestions
    rw [hr] at hanswers
    rcases hquestions
    rcases hanswers with _ | ⟨hname, _, _⟩
    exact harmless_none_iff hq (nameAt_mono hle hname) han
  · have hone : m.header.qdcount.toNat = 1 := by
      rw [hwf.qdcount, hq]
      rfl
    exact absurd (UInt16.toNat_inj.mp hone) hqdcount
  · rw [hq] at hquestions
    rcases hquestions with _ | ⟨hname₁, hfields₁, hrest⟩
    rcases hrest with _ | ⟨hname₂, hfields₂, _⟩
    refine harmless_more_iff hq (QuestionsAt.cons (nameAt_mono hle hname₁)
      (holdsAt_mono hle hfields₁) (QuestionsAt.cons (nameAt_mono hle hname₂)
        (holdsAt_mono hle hfields₂) (QuestionsAt.nil _))) han

/-! ### Two questions -/

/-- The addresses of both kinds of `example.com` are asked for, and one of them is given. -/
def twoQuestions : Bytes :=
  { responseHeader with qdcount := 2 }.wire ++ encodeLabels exampleCom.raw ++ [0, 1, 0, 1] ++
    [0xC0, 12, 0, 28, 0, 1] ++ [0xC0, 12, 0, 1, 0, 1, 0, 0, 0, 60, 0, 4, 93, 184, 216, 34]

theorem exampleAddress_short : ([93, 184, 216, 34] : Bytes).length < 65536 := by decide

def exampleRecord : Record :=
  { name := exampleCom, type := 1, rclass := 1, ttl := 60, rdata := [93, 184, 216, 34]
    short := exampleAddress_short }

def twoQuestionsMessage : Message :=
  { header := { responseHeader with qdcount := 2 }
    questions := [{ name := exampleCom, qtype := 1, qclass := 1 },
      { name := exampleCom, qtype := 28, qclass := 1 }]
    answers := [exampleRecord], authorities := [], additionals := [] }

theorem twoQuestions_at {m : Contents} (hle : Contents.Le twoQuestions.contents m) :
    NameAt m 12 exampleCom.raw 25 ∧ QuestionsAt m 12 twoQuestionsMessage.questions 35 := by
  have hname : NameAt twoQuestions.contents 12 exampleCom.raw 25 :=
    nameAt_encode exampleCom_encodes (by decide)
  have hpointer : NameAt twoQuestions.contents 29 exampleCom.raw 31 :=
    NameAt.pointer rfl (by decide) rfl hname
  refine ⟨nameAt_mono hle hname, ?_⟩
  refine QuestionsAt.cons (nameAt_mono hle hname) (holdsAt_mono hle (by decide)) ?_
  refine QuestionsAt.cons (nameAt_mono hle hpointer) (holdsAt_mono hle (by decide)) ?_
  exact QuestionsAt.nil _

theorem twoQuestions_wellFormed : WellFormed twoQuestions twoQuestionsMessage := by
  have hat := twoQuestions_at fun i b hb => hb
  refine ⟨by decide, by decide, rfl, rfl, rfl, rfl, 35, 51, 51, hat.2, ?_, ?_, ?_⟩
  · exact RecordsAt.cons (NameAt.pointer rfl (by decide) rfl hat.1) (by decide) (RecordsAt.nil _)
  · exact RecordsAt.nil _
  · exact RecordsAt.nil _

/-- The second question is returned as the answer, with the data of no record. -/
theorem second_question_answers :
    WellFormed twoQuestions twoQuestionsMessage ∧ twoQuestionsMessage.header.qdcount ≠ 1 ∧
    1 ≤ twoQuestionsMessage.header.ancount.toNat ∧
    (∃ pkt, Settles (fun fuel => dnsRequestParse fuel allocOk zeroPacket
        (Memory.ofBytes twoQuestions fun _ => 0)) (done (some pkt)) ∧
      pkt.answer.type = 28 ∧ pkt.answer.rdata ≠ exampleRecord.rdata) ∧
    ¬ FailsOrFills allocOk zeroPacket (Memory.ofBytes twoQuestions fun _ => 0)
      exampleRecord.toAnswer := by
  refine ⟨twoQuestions_wellFormed, by decide, by decide, ?_, ?_⟩
  · exact ⟨_, (dnsRequestParse_mono _ _ _).settles_done 9 rfl, by decide,
      by decide⟩
  · have hle := contents_le_ofBytes twoQuestions fun _ => 0
    have hquestions : twoQuestionsMessage.questions = _ :: _ :: [] := rfl
    rw [harmless_more_iff hquestions (twoQuestions_at hle).2 (by decide)]
    intro h
    rcases h with hno | hno | hno | ⟨e, -, hspells⟩
    · simp [allocOk] at hno
    · simp [allocOk] at hno
    · simp [allocOk] at hno
    · exact absurd hspells.type (by decide)

/-- The root asked for twice, and a record of it whose bytes repeat. -/
def rootTwice : Bytes :=
  { responseHeader with qdcount := 2 }.wire ++ [0, 0, 1, 0, 0] ++ [0, 0, 1, 0, 0] ++
    [0, 0, 1, 0, 0, 0, 0, 1, 0, 0, 0]

theorem rootName_short :
    (encodeLabels (([] : List Label).map Label.bytes)).length ≤ 255 := by decide

theorem noData_short : ([] : Bytes).length < 65536 := by decide

def rootRecord : Record :=
  { name := { labels := [], short := rootName_short }, type := 1, rclass := 0, ttl := 256
    rdata := [], short := noData_short }

def rootTwiceMessage : Message :=
  { header := { responseHeader with qdcount := 2 }
    questions := [{ name := rootRecord.name, qtype := 1, qclass := 0 },
      { name := rootRecord.name, qtype := 1, qclass := 0 }]
    answers := [rootRecord], authorities := [], additionals := [] }

theorem rootTwice_at {m : Contents} (hle : Contents.Le rootTwice.contents m) :
    QuestionsAt m 12 rootTwiceMessage.questions 22 := by
  refine QuestionsAt.cons (nameAt_mono hle (NameAt.root (by decide)))
    (holdsAt_mono hle (by decide)) ?_
  refine QuestionsAt.cons (nameAt_mono hle (NameAt.root (by decide)))
    (holdsAt_mono hle (by decide)) ?_
  exact QuestionsAt.nil _

theorem rootTwice_wellFormed : WellFormed rootTwice rootTwiceMessage := by
  refine ⟨by decide, by decide, rfl, rfl, rfl, rfl, 22, 33, 33,
    rootTwice_at fun i b hb => hb, ?_, ?_, ?_⟩
  · exact RecordsAt.cons (NameAt.root (by decide)) (by decide) (RecordsAt.nil _)
  · exact RecordsAt.nil _
  · exact RecordsAt.nil _

/-- There the record is returned, though it is not where the parser looks for it. -/
theorem question_count_rootTwice :
    FailsOrFills allocOk zeroPacket (Memory.ofBytes rootTwice fun _ => 0) rootRecord.toAnswer := by
  obtain ⟨r, rs, hanswers, hiff⟩ := question_count_iff rootTwice rootTwiceMessage
    rootTwice_wellFormed (by decide) (by decide) allocOk zeroPacket fun _ => 0
  have hrecord : r = rootRecord := (List.cons.inj hanswers).1.symm
  subst hrecord
  have hle := contents_le_ofBytes rootTwice fun _ => 0
  refine hiff.mpr (Or.inr (Or.inr (Or.inr ⟨22, rootTwice_at hle, rfl, rfl, rfl, ?_⟩)))
  exact holdsAt_mono hle (by decide)

end DnsServer
