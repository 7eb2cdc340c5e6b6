/-
What `dns_request_parse` returns.

`PacketReads` is what the parser goes by, and nothing else of the format: the
header, a question after it, and when the header announces answers the first
record after that question.  It says nothing of `qdcount`, because the parser
never looks at it.  The parser settles on a packet exactly where the bytes read
as one, so every statement above about what is accepted, refused or recovered is
about `PacketReads`.
-/
import DnsServer.Proofs.ReadName

namespace DnsServer

open Call

/-! ### What the parser reads -/

/-- A question at `p`, ending at `e`. -/
def QuestionReads (m : Contents) (p : Nat) (q : DnsQuestion) (e : Nat) : Prop :=
  ∃ ls f, NameAt m p ls f ∧ (dotted ls).length < nameBufferSize ∧ q.qname = nameText ls ∧
    HoldsAt m f (Endian.beBytes 2 q.qtype.toNat ++ Endian.beBytes 2 q.qclass.toNat) ∧ e = f + 4

/-- The fixed fields of an answer and its data, in network order. -/
def DnsAnswer.fields (a : DnsAnswer) : Bytes :=
  Endian.beBytes 2 a.type.toNat ++ Endian.beBytes 2 a.rclass.toNat ++
    Endian.beBytes 4 a.ttl.toNat ++ Endian.beBytes 2 a.rdlength.toNat ++ a.rdata

/-- An answer at `p`. -/
def AnswerReads (m : Contents) (p : Nat) (a : DnsAnswer) : Prop :=
  ∃ ls f, NameAt m p ls f ∧ (dotted ls).length < nameBufferSize ∧ a.name = nameText ls ∧
    HoldsAt m f a.fields ∧ a.rdata.length = a.rdlength.toNat

/-- The bytes read as a packet. -/
structure PacketReads (m : Contents) (pkt : DnsPacket) : Prop where
  header : HoldsAt m 0 pkt.header.wire
  body : ∃ e, QuestionReads m headerSize pkt.question e ∧
    (0 < pkt.header.ancount → AnswerReads m e pkt.answer)

theorem PacketReads.mono {m m' : Contents} (hle : Contents.Le m m') {pkt : DnsPacket}
    (h : PacketReads m pkt) : PacketReads m' pkt := by
  obtain ⟨hheader, e, ⟨ls, f, hname, hroom, hq, hfields, he⟩, hanswer⟩ := h
  refine ⟨holdsAt_mono hle hheader, e,
    ⟨ls, f, nameAt_mono hle hname, hroom, hq, holdsAt_mono hle hfields, he⟩, fun han => ?_⟩
  obtain ⟨als, g, haname, haroom, ha, hafields, hlen⟩ := hanswer han
  exact ⟨als, g, nameAt_mono hle haname, haroom, ha, holdsAt_mono hle hafields, hlen⟩

/-! ### Names near the start of a buffer

A name read from a position this low ends before the 16-bit offset wraps.
-/

variable {data : Memory}

theorem readName_settles_iff {p : Nat} (hp : p ≤ 4096) {v : UInt16 × Bytes} :
    Settles (fun fuel => dnsReadName fuel data (UInt16.ofNat p) nameBufferSize)
        (done (some v)) ↔
      ∃ ls e, NameAt data.contents p ls e ∧ (dotted ls).length < nameBufferSize ∧
        v = (UInt16.ofNat e, joined ls ++ [0]) := by
  have hnat : (UInt16.ofNat p).toNat = p := by
    rw [UInt16.toNat_ofNat']
    exact Nat.mod_eq_of_lt (by omega)
  rw [dnsReadName_settles_iff (by decide), hnat]
  have hend : ∀ {ls e}, NameAt data.contents p ls e →
      UInt16.ofNat p + UInt16.ofNat (e - p) = UInt16.ofNat e := by
    intro ls e hname
    have := nameAt_lt_end hname
    rw [← UInt16.ofNat_add, show p + (e - p) = e by omega]
  constructor
  · intro h
    obtain ⟨ls, e, hname, hroom, rfl⟩ := h
    exact ⟨ls, e, hname, hroom, by rw [hend hname]⟩
  · intro h
    obtain ⟨ls, e, hname, hroom, rfl⟩ := h
    exact ⟨ls, e, hname, hroom, by rw [hend hname]⟩

theorem nameAt_end_small {p e : Nat} (hp : p ≤ 4096) {ls : List Bytes} {m : Contents}
    (hname : NameAt m p ls e) (hroom : (dotted ls).length < nameBufferSize) :
    (UInt16.ofNat e).toNat = e ∧ e ≤ p + 257 := by
  have hle := nameAt_end_le hname
  unfold nameBufferSize at hroom
  refine ⟨?_, by omega⟩
  rw [UInt16.toNat_ofNat']
  exact Nat.mod_eq_of_lt (by omega)

/-! ### The question -/

/-- Where a name that fits is read, the bytes after it are a question's fields. -/
theorem questionReads_exists {p f : Nat} {ls : List Bytes} (hname : NameAt data.contents p ls f)
    (hroom : (dotted ls).length < nameBufferSize) :
    ∃ q, QuestionReads data.contents p q (f + 4) :=
  ⟨{ qname := nameText ls, qtype := ntohs (load16 data f), qclass := ntohs (load16 data (f + 2)) },
    ls, f, hname, hroom, rfl, holdsAt_append.mpr
      ⟨ntohs_load16_eq_iff.mp rfl, ntohs_load16_eq_iff.mp rfl⟩, rfl⟩

/-- What `dns_question_parse` does once the name has been read. -/
def questionAfter (al : Alloc) (data : Memory) :
    Option (UInt16 × Bytes) → Option (DnsQuestion × Nat)
  | none => none
  | some (nameEnd, nameBuffer) =>
      if !al 0 then none
      else some
        ({ qname := cstr nameBuffer
           qtype := ntohs (load16 data nameEnd.toNat)
           qclass := ntohs (load16 data (nameEnd.toNat + 2)) }, nameEnd.toNat + 4)

theorem dnsQuestionParse_eq (fuel : Nat) (al : Alloc) (data : Memory) (offset : Nat) :
    dnsQuestionParse fuel al data offset
      = dnsReadName fuel data (UInt16.ofNat offset) nameBufferSize >>= fun r =>
          done (questionAfter al data r) := by
  unfold dnsQuestionParse
  congr 1
  funext r
  cases r with
  | none => rfl
  | some v => cases hal : al 0 <;> simp [questionAfter, hal]

theorem dnsQuestionParse_mono (al : Alloc) (data : Memory) (offset : Nat) :
    Mono (fun fuel => dnsQuestionParse fuel al data offset) := by
  simp only [dnsQuestionParse_eq]
  exact Mono.bind (dnsReadName_mono _ _ _) fun _ => Mono.const _

/-- The question whose fields are loaded once its name has been read. -/
theorem questionAfter_eq_some_iff {al : Alloc} {f : Nat} (hnat : (UInt16.ofNat f).toNat = f)
    {ls : List Bytes} {q : DnsQuestion} {e : Nat} :
    questionAfter al data (some (UInt16.ofNat f, joined ls ++ [0])) = some (q, e) ↔
      al 0 = true ∧ q.qname = nameText ls ∧
        HoldsAt data.contents f
          (Endian.beBytes 2 q.qtype.toNat ++ Endian.beBytes 2 q.qclass.toNat) ∧
        e = f + 4 := by
  have htext : cstr (joined ls ++ [0]) = nameText ls := by rw [nameText, dropLast_dotted]
  simp only [holdsAt_append, Endian.length_beBytes, ← ntohs_load16_eq_iff]
  refine ⟨?_, ?_⟩
  · intro h
    rcases hal : al 0 with _ | _
    · simp [questionAfter, hal] at h
    · simp only [questionAfter, hal, hnat, htext, Bool.not_true, Bool.false_eq_true, if_false,
        Option.some.injEq, Prod.mk.injEq] at h
      obtain ⟨rfl, rfl⟩ := h
      simp
  · intro h
    obtain ⟨hal, hqname, ⟨htype, hclass⟩, rfl⟩ := h
    simp only [questionAfter, hal, hnat, htext, Bool.not_true, Bool.false_eq_true, if_false]
    rw [← hqname, htype, hclass]

theorem dnsQuestionParse_settles_iff {al : Alloc} {p : Nat} (hp : p ≤ 4096)
    {q : DnsQuestion} {e : Nat} :
    Settles (fun fuel => dnsQuestionParse fuel al data p) (done (some (q, e))) ↔
      al 0 = true ∧ QuestionReads data.contents p q e := by
  simp only [dnsQuestionParse_eq]
  rw [Settles.bind_done_iff (dnsReadName_mono _ _ _)]
  refine ⟨?_, ?_⟩
  · intro h
    obtain ⟨r, hr, hafter⟩ := h
    rcases r with _ | v
    · simp [questionAfter] at hafter
    · obtain ⟨ls, f, hname, hroom, rfl⟩ := (readName_settles_iff hp).mp hr
      obtain ⟨hnat, -⟩ := nameAt_end_small hp hname hroom
      obtain ⟨hal, hq, hfields, he⟩ := (questionAfter_eq_some_iff hnat).mp hafter
      exact ⟨hal, ls, f, hname, hroom, hq, hfields, he⟩
  · intro h
    obtain ⟨hal, ls, f, hname, hroom, hq, hfields, he⟩ := h
    obtain ⟨hnat, -⟩ := nameAt_end_small hp hname hroom
    exact ⟨_, (readName_settles_iff hp).mpr ⟨ls, f, hname, hroom, rfl⟩,
      (questionAfter_eq_some_iff hnat).mpr ⟨hal, hq, hfields, he⟩⟩

/-! ### The answer -/

/-- What `dns_answer_parse` does once the answer's name has been read. -/
def answerAfter (al : Alloc) (data : Memory) : Option (UInt16 × Bytes) → Option DnsAnswer
  | none => none
  | some (nameEnd, nameBuffer) =>
      if !al 1 then none
      else if !al 2 then none
      else some
        { name := cstr nameBuffer
          type := ntohs (load16 data nameEnd.toNat)
          rclass := ntohs (load16 data (nameEnd.toNat + 2))
          ttl := ntohl (load32 data (nameEnd.toNat + 4))
          rdlength := ntohs (load16 data (nameEnd.toNat + 8))
          rdata := slice data (nameEnd.toNat + 10)
            (ntohs (load16 data (nameEnd.toNat + 8))).toNat }

/-- What it does once the question's name has been skipped. -/
def answerAt (fuel : Nat) (al : Alloc) (data : Memory) :
    Option (UInt16 × Bytes) → Call (Option DnsAnswer)
  | none => done none
  | some (questionEnd, _) =>
      dnsReadName fuel data (UInt16.ofNat (questionEnd.toNat + 4)) nameBufferSize >>= fun r =>
        done (answerAfter al data r)

theorem dnsAnswerParse_eq (fuel : Nat) (al : Alloc) (data : Memory) :
    dnsAnswerParse fuel al data
      = dnsReadName fuel data (UInt16.ofNat headerSize) nameBufferSize >>=
          answerAt fuel al data := by
  unfold dnsAnswerParse
  congr 1
  funext r
  cases r with
  | none => rfl
  | some v =>
      show (_ >>= _) = (_ >>= _)
      congr 1
      funext r'
      cases r' with
      | none => rfl
      | some v' => cases hal : al 1 <;> cases hal' : al 2 <;> simp [answerAfter, hal, hal']

theorem answerAt_mono (al : Alloc) (data : Memory) (r : Option (UInt16 × Bytes)) :
    Mono (fun fuel => answerAt fuel al data r) := by
  cases r with
  | none => exact Mono.const _
  | some v => exact Mono.bind (dnsReadName_mono _ _ _) fun _ => Mono.const _

theorem dnsAnswerParse_mono (al : Alloc) (data : Memory) :
    Mono (fun fuel => dnsAnswerParse fuel al data) := by
  simp only [dnsAnswerParse_eq]
  exact Mono.bind (dnsReadName_mono _ _ _) (answerAt_mono al data)

/-- The record an answer's fields are loaded from, once its name has been read. -/
theorem answerAfter_eq_some_iff {al : Alloc} {f : Nat} (hnat : (UInt16.ofNat f).toNat = f)
    {ls : List Bytes} {a : DnsAnswer} :
    answerAfter al data (some (UInt16.ofNat f, joined ls ++ [0])) = some a ↔
      al 1 = true ∧ al 2 = true ∧ a.name = nameText ls ∧ HoldsAt data.contents f a.fields ∧
        a.rdata.length = a.rdlength.toNat := by
  have htext : cstr (joined ls ++ [0]) = nameText ls := by rw [nameText, dropLast_dotted]
  unfold DnsAnswer.fields
  simp only [holdsAt_append, List.length_append, Endian.length_beBytes,
    ← ntohs_load16_eq_iff, ← ntohl_load32_eq_iff, @holdsAt_contents _ _ a.rdata]
  constructor
  · intro h
    cases hal : al 1 with
    | false => simp [answerAfter, hal] at h
    | true =>
        cases hal' : al 2 with
        | false => simp [answerAfter, hal, hal'] at h
        | true =>
            simp only [answerAfter, hal, hal', hnat, htext, Bool.not_true, Bool.false_eq_true,
              if_false, Option.some.injEq] at h
            subst h
            simp
  · intro h
    obtain ⟨hal, hal', hname, ⟨⟨⟨⟨htype, hclass⟩, httl⟩, hrdlength⟩, hrdata⟩, hlen⟩ := h
    simp only [answerAfter, hal, hal', hnat, htext, Bool.not_true, Bool.false_eq_true, if_false,
      Option.some.injEq]
    rw [hlen] at hrdata
    rw [← hname, htype, hclass, httl, hrdlength, hrdata]

theorem dnsAnswerParse_settles_iff {al : Alloc} {q : DnsQuestion} {e : Nat}
    (hq : QuestionReads data.contents headerSize q e) {a : DnsAnswer} :
    Settles (fun fuel => dnsAnswerParse fuel al data) (done (some a)) ↔
      al 1 = true ∧ al 2 = true ∧ AnswerReads data.contents e a := by
  obtain ⟨ls, f, hname, hroom, -, -, rfl⟩ := hq
  obtain ⟨hnat, hfle⟩ := nameAt_end_small (by decide) hname hroom
  have hp : f + 4 ≤ 4096 := by unfold headerSize at hfle; omega
  simp only [dnsAnswerParse_eq]
  rw [Settles.bind_iff (dnsReadName_mono _ _ _) (answerAt_mono al data)]
  have hskip : Settles (fun fuel => dnsReadName fuel data (UInt16.ofNat headerSize)
      nameBufferSize) (done (some (UInt16.ofNat f, joined ls ++ [0]))) :=
    (readName_settles_iff (by decide)).mpr ⟨ls, f, hname, hroom, rfl⟩
  constructor
  · intro h
    obtain ⟨r, hr, hrest⟩ := h
    have hr' := Settles.unique hr hskip
    simp only [done.injEq] at hr'
    subst hr'
    simp only [answerAt, hnat] at hrest
    rw [Settles.bind_done_iff (dnsReadName_mono _ _ _)] at hrest
    obtain ⟨r', hr', hafter⟩ := hrest
    cases r' with
    | none => simp [answerAfter] at hafter
    | some v' =>
        obtain ⟨als, g, haname, haroom, rfl⟩ := (readName_settles_iff hp).mp hr'
        obtain ⟨hgnat, -⟩ := nameAt_end_small hp haname haroom
        obtain ⟨hal, hal', ha, hfields, hlen⟩ := (answerAfter_eq_some_iff hgnat).mp hafter
        exact ⟨hal, hal', als, g, haname, haroom, ha, hfields, hlen⟩
  · intro h
    obtain ⟨hal, hal', als, g, haname, haroom, ha, hfields, hlen⟩ := h
    obtain ⟨hgnat, -⟩ := nameAt_end_small hp haname haroom
    refine ⟨_, hskip, ?_⟩
    simp only [answerAt, hnat]
    rw [Settles.bind_done_iff (dnsReadName_mono _ _ _)]
    exact ⟨_, (readName_settles_iff hp).mpr ⟨als, g, haname, haroom, rfl⟩,
      (answerAfter_eq_some_iff hgnat).mpr ⟨hal, hal', ha, hfields, hlen⟩⟩

/-! ### The packet -/

/-- What `dns_request_parse` does once the question has been parsed. -/
def packetAfter (fuel : Nat) (al : Alloc) (pkt : DnsPacket) (data : Memory) :
    Option (DnsQuestion × Nat) → Call (Option DnsPacket)
  | none => done none
  | some (question, _) =>
      if 0 < (dnsHeaderParse data).ancount then
        dnsAnswerParse fuel al data >>= fun answer =>
          done (answer.map fun answer => { header := dnsHeaderParse data, question, answer })
      else done (some { header := dnsHeaderParse data, question, answer := pkt.answer })

theorem dnsRequestParse_eq (fuel : Nat) (al : Alloc) (pkt : DnsPacket) (data : Memory) :
    dnsRequestParse fuel al pkt data
      = dnsQuestionParse fuel al data headerSize >>= packetAfter fuel al pkt data := by
  unfold dnsRequestParse
  show (_ >>= _) = (_ >>= _)
  congr 1
  funext r
  cases r with
  | none => rfl
  | some v =>
      show (if _ then _ else _) = (if _ then _ else _)
      split
      · congr 1
        funext answer
        cases answer <;> rfl
      · rfl

theorem packetAfter_mono (al : Alloc) (pkt : DnsPacket) (data : Memory)
    (r : Option (DnsQuestion × Nat)) : Mono (fun fuel => packetAfter fuel al pkt data r) := by
  cases r with
  | none => exact Mono.const _
  | some v =>
      by_cases han : 0 < (dnsHeaderParse data).ancount
      · simp only [packetAfter, if_pos han]
        exact Mono.bind (dnsAnswerParse_mono al data) fun _ => Mono.const _
      · simp only [packetAfter, if_neg han]
        exact Mono.const _

theorem dnsRequestParse_mono (al : Alloc) (pkt : DnsPacket) (data : Memory) :
    Mono (fun fuel => dnsRequestParse fuel al pkt data) := by
  simp only [dnsRequestParse_eq]
  exact Mono.bind (dnsQuestionParse_mono al data headerSize) (packetAfter_mono al pkt data)

/-- The packet returned once the question has been parsed. -/
theorem packetAfter_settles_iff {al : Alloc} {pkt₀ pkt : DnsPacket} {q : DnsQuestion} {e : Nat}
    (hq : QuestionReads data.contents headerSize q e) :
    Settles (fun fuel => packetAfter fuel al pkt₀ data (some (q, e))) (done (some pkt)) ↔
      dnsHeaderParse data = pkt.header ∧ pkt.question = q ∧
        (0 < pkt.header.ancount →
          al 1 = true ∧ al 2 = true ∧ AnswerReads data.contents e pkt.answer) ∧
        (¬ 0 < pkt.header.ancount → pkt.answer = pkt₀.answer) := by
  by_cases han : 0 < (dnsHeaderParse data).ancount
  · simp only [packetAfter, if_pos han]
    rw [Settles.bind_done_iff (dnsAnswerParse_mono al data)]
    refine ⟨?_, ?_⟩
    · intro h
      obtain ⟨answer, ha, hpkt⟩ := h
      obtain ⟨a, rfl, rfl⟩ := Option.map_eq_some_iff.mp hpkt
      exact ⟨rfl, rfl, fun _ => (dnsAnswerParse_settles_iff hq).mp ha, fun hno => absurd han hno⟩
    · intro h
      obtain ⟨hheader, rfl, hanswer, -⟩ := h
      rw [hheader] at han ⊢
      exact ⟨some pkt.answer, (dnsAnswerParse_settles_iff hq).mpr (hanswer han), rfl⟩
  · simp only [packetAfter, if_neg han]
    rw [Settles.const_iff, done.injEq, Option.some.injEq]
    refine ⟨?_, ?_⟩
    · intro h
      subst h
      exact ⟨rfl, rfl, fun hyes => absurd hyes han, fun _ => rfl⟩
    · intro h
      obtain ⟨hheader, rfl, -, hkeep⟩ := h
      rw [hheader] at han ⊢
      rw [← hkeep han]

/--
**The parser accepts exactly what reads as a packet.**  With no answer announced
the packet keeps the answer it had.
-/
theorem dnsRequestParse_settles_iff {al : Alloc} {pkt₀ pkt : DnsPacket} :
    Settles (fun fuel => dnsRequestParse fuel al pkt₀ data) (done (some pkt)) ↔
      al 0 = true ∧ (0 < pkt.header.ancount → al 1 = true ∧ al 2 = true) ∧
        PacketReads data.contents pkt ∧
        (¬ 0 < pkt.header.ancount → pkt.answer = pkt₀.answer) := by
  simp only [dnsRequestParse_eq]
  rw [Settles.bind_iff (dnsQuestionParse_mono al data headerSize) (packetAfter_mono al pkt₀ data)]
  refine ⟨?_, ?_⟩
  · intro h
    obtain ⟨r, hr, hrest⟩ := h
    rcases r with _ | ⟨question, e⟩
    · simp only [packetAfter, Settles.const_iff] at hrest
      simp at hrest
    · obtain ⟨hal, hq⟩ := (dnsQuestionParse_settles_iff (by decide)).mp hr
      obtain ⟨hheader, rfl, hanswer, hkeep⟩ := (packetAfter_settles_iff hq).mp hrest
      exact ⟨hal, fun han => ⟨(hanswer han).1, (hanswer han).2.1⟩,
        ⟨dnsHeaderParse_eq_iff.mp hheader, e, hq, fun han => (hanswer han).2.2⟩, hkeep⟩
  · intro h
    obtain ⟨hal, halAnswer, ⟨hheader, e, hq, hanswer⟩, hkeep⟩ := h
    refine ⟨some (pkt.question, e), (dnsQuestionParse_settles_iff (by decide)).mpr ⟨hal, hq⟩, ?_⟩
    refine (packetAfter_settles_iff hq).mpr ⟨dnsHeaderParse_eq_iff.mpr hheader, rfl, ?_, hkeep⟩
    intro han
    obtain ⟨hal1, hal2⟩ := halAnswer han
    exact ⟨hal1, hal2, hanswer han⟩

end DnsServer
