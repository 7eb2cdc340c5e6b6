/-
What a packet allocates is freed with it.

A call on packets in memory goes as the call on their values does: neither returns, or
both return the same.  Beside that it says what became of the heap.  A packet that was
parsed owns the blocks it points to; they are new, none is owned twice, and `cleanUp`
gives back just these.  The pointers the turns before left in `response_pkt` are never
followed, for a packet is read and cleaned up only after it was parsed, and then every
pointer that is followed has been set.

The one block that is lost is the name of a question whose packet is then not parsed: the
answer it announces is not one, or there was no room for it.
-/
import DnsServer.Code.PacketMemory
import DnsServer.Lib.Calls
import DnsServer.Proofs.Names

namespace DnsServer

open Call

variable {ε ω : Type}

/-- The question's name, where the question is parsed and the answer that is announced is not. -/
def lostQname (fuel : Nat) (al : Alloc) (data : Memory) : Option Bytes :=
  if 0 < (dnsHeaderParse data).ancount then
    match dnsQuestionParse fuel al data headerSize, dnsAnswerParse fuel al data with
    | .done (some (question, _)), .done none => some question.qname
    | _, _ => none
  else none

/-- The blocks names are in. -/
def nameBlocks (names : List Bytes) : List (PacketBlock ε) :=
  names.map fun name => .bytes (name ++ [0])

/-- The blocks a packet that was parsed points to. -/
def PacketFields.blocks (fields : PacketFields) : List Nat :=
  fields.question.qname.toList ++
    if 0 < fields.header.ancount then fields.answer.name.toList ++ fields.answer.rdata.toList
    else []

namespace PacketHeap

variable {s s' s₁ : PacketHeap ε} {gone : List Nat} {a n : Nat} {bytes : Bytes}

/-! ### Strings -/

theorem readBytes_eq (h : s.Has a (.bytes bytes)) : s.readBytes (some a) = done bytes := by
  show (s.read a >>= _) = _
  rw [h.read_eq]
  rfl

theorem readString_eq (h : s.Has a (.bytes bytes)) : s.readString (some a) = done (cstr bytes) := by
  unfold readString
  rw [readBytes_eq h]
  rfl

theorem cstr_terminated (buf : Bytes) : cstr (cstr buf ++ [0]) = cstr buf :=
  cstr_of_noNul (noNul_cstr buf)

/-! ### Packets on the heap -/

/-- The fields say what the question says, with its name behind the pointer. -/
structure QuestionAt (s : PacketHeap ε) (fields : QuestionFields) (question : DnsQuestion) :
    Prop where
  qname : ∃ a bytes, fields.qname = some a ∧ s.Has a (.bytes bytes) ∧ cstr bytes = question.qname
  qtype : fields.qtype = question.qtype
  qclass : fields.qclass = question.qclass

/-- The same of an answer, with its name and its data behind pointers. -/
structure AnswerAt (s : PacketHeap ε) (fields : AnswerFields) (answer : DnsAnswer) : Prop where
  name : ∃ a bytes, fields.name = some a ∧ s.Has a (.bytes bytes) ∧ cstr bytes = answer.name
  type : fields.type = answer.type
  rclass : fields.rclass = answer.rclass
  ttl : fields.ttl = answer.ttl
  rdlength : fields.rdlength = answer.rdlength
  rdata : ∃ b, fields.rdata = some b ∧ s.Has b (.bytes (answer.rdata ++ [0]))
  length : answer.rdata.length = answer.rdlength.toNat

/-- The same of a packet; its answer is there where the header announces one. -/
structure PacketAt (s : PacketHeap ε) (fields : PacketFields) (pkt : DnsPacket) : Prop where
  header : fields.header = pkt.header
  question : QuestionAt s fields.question pkt.question
  answer : 0 < pkt.header.ancount → AnswerAt s fields.answer pkt.answer

theorem QuestionAt.qname_eq {fields : QuestionFields} {question : DnsQuestion}
    (h : QuestionAt s fields question) : ∃ a ∈ s.live, fields.qname = some a := by
  obtain ⟨a, bytes, hname, hhas, -⟩ := h.qname
  exact ⟨a, hhas.1, hname⟩

theorem AnswerAt.toList_name {fields : AnswerFields} {answer : DnsAnswer}
    (h : AnswerAt s fields answer) :
    ∃ a ∈ s.live, ∃ b ∈ s.live, fields.name.toList ++ fields.rdata.toList = [a, b] := by
  obtain ⟨a, bytes, hname, hhas, -⟩ := h.name
  obtain ⟨b, hrdata, hhas'⟩ := h.rdata
  exact ⟨a, hhas.1, b, hhas'.1, by rw [hname, hrdata]; rfl⟩

/-- What was parsed is in blocks that are new, none of them twice. -/
structure Owns (s s' : PacketHeap ε) (fields : PacketFields) (pkt : DnsPacket) : Prop where
  packetAt : PacketAt s' fields pkt
  new : ∀ b ∈ fields.blocks, b ∉ s.live
  nodup : fields.blocks.Nodup
  changes : s.Changes s' [] fields.blocks.length

theorem QuestionAt.keep {fields : QuestionFields} {question : DnsQuestion}
    (h : QuestionAt s fields question) (hchanges : s.Changes s' [] n) :
    QuestionAt s' fields question := by
  obtain ⟨a, bytes, hname, hhas, hbytes⟩ := h.qname
  exact ⟨⟨a, bytes, hname, hchanges.keeps _ _ List.not_mem_nil hhas, hbytes⟩, h.qtype, h.qclass⟩

/-! ### Parsing -/

/-- A question in new blocks, or no question and nothing new. -/
inductive QuestionParsed (s : PacketHeap ε) :
    PacketHeap ε × QuestionFields × Bool → Option (DnsQuestion × Nat) → Prop
  | failed {s' : PacketHeap ε} {fields : QuestionFields} (hchanges : s.Changes s' [] 0) :
      QuestionParsed s (s', fields, false) none
  | parsed {s' : PacketHeap ε} {fields : QuestionFields} {question : DnsQuestion} {offset : Nat}
      (hat : QuestionAt s' fields question) (hnew : ∀ a ∈ fields.qname, a ∉ s.live)
      (hleaves : s.Leaves s' [] (nameBlocks [question.qname])) :
      QuestionParsed s (s', fields, true) (some (question, offset))

theorem dnsQuestionParse_like (fuel : Nat) (al : Alloc) (data : Memory) (offset : Nat)
    (question : QuestionFields) (s : PacketHeap ε) :
    Like (QuestionParsed s) (dnsQuestionParse fuel al data offset question s)
      (DnsServer.dnsQuestionParse fuel al data offset) := by
  refine Like.bind_same _ fun r => ?_
  rcases r with _ | ⟨nameEnd, nameBuffer⟩
  · exact Like.done (QuestionParsed.failed (Heap.Changes.refl s))
  · rcases hroom : al 0 with _ | _
    · simp only [Heap.mallocIf, Bool.false_eq_true, if_false, Bool.not_false, if_true]
      exact Like.done (QuestionParsed.failed (Heap.Changes.refl s))
    · simp only [Heap.mallocIf, if_true, Bool.not_true, Bool.false_eq_true, if_false, reduceCtorEq]
      refine Like.done (QuestionParsed.parsed ⟨?_, rfl, rfl⟩ ?_
        (Heap.Leaves.of_has (Heap.changes_malloc s _) Heap.fresh_not_live Heap.has_malloc))
      · exact ⟨_, _, rfl, Heap.has_malloc, cstr_terminated nameBuffer⟩
      · intro a ha
        rw [← Option.some.inj ha]
        exact Heap.fresh_not_live

/-- An answer in new blocks, or no answer and nothing new. -/
inductive AnswerParsed (s : PacketHeap ε) :
    PacketHeap ε × AnswerFields × Bool → Option DnsAnswer → Prop
  | failed {s' : PacketHeap ε} {fields : AnswerFields} (hchanges : s.Changes s' [] 0) :
      AnswerParsed s (s', fields, false) none
  | parsed {s' : PacketHeap ε} {fields : AnswerFields} {answer : DnsAnswer}
      (hat : AnswerAt s' fields answer)
      (hnew : ∀ a ∈ fields.name.toList ++ fields.rdata.toList, a ∉ s.live)
      (hnodup : (fields.name.toList ++ fields.rdata.toList).Nodup)
      (hchanges : s.Changes s' [] 2) : AnswerParsed s (s', fields, true) (some answer)

theorem dnsAnswerParse_like (fuel : Nat) (al : Alloc) (data : Memory) (answer : AnswerFields)
    (s : PacketHeap ε) :
    Like (AnswerParsed s) (dnsAnswerParse fuel al data answer s)
      (DnsServer.dnsAnswerParse fuel al data) := by
  refine Like.bind_same _ fun r => ?_
  rcases r with _ | ⟨questionEnd, _⟩
  · exact Like.done (AnswerParsed.failed (Heap.Changes.refl s))
  refine Like.bind_same _ fun r => ?_
  rcases r with _ | ⟨nameEnd, nameBuffer⟩
  · exact Like.done (AnswerParsed.failed (Heap.Changes.refl s))
  rcases hname : al 1 with _ | _
  · simp only [Heap.mallocIf, Bool.false_eq_true, if_false, Bool.not_false, if_true]
    exact Like.done (AnswerParsed.failed (Heap.Changes.refl s))
  have hfirst := Heap.changes_malloc s (PacketBlock.bytes (cstr nameBuffer ++ [0]))
  have hhas : (s.malloc (.bytes (cstr nameBuffer ++ [0]))).2.Has s.fresh _ := Heap.has_malloc
  rcases hrdata : al 2 with _ | _
  · -- there was no room for the data, and the name is given back
    simp only [Heap.mallocIf, if_true, Bool.not_true, Bool.not_false, Bool.false_eq_true, if_false,
      reduceCtorEq]
    obtain ⟨s₁, hfree, hchanges, -⟩ := hfirst.free hhas.1 Heap.fresh_not_live
    show Like _ (Heap.free _ s.fresh >>= _) _
    rw [hfree]
    exact Like.done (AnswerParsed.failed hchanges)
  · simp only [Heap.mallocIf, if_true, Bool.not_true, Bool.false_eq_true, if_false, reduceCtorEq]
    have hsecond := Heap.changes_malloc (s.malloc (.bytes (cstr nameBuffer ++ [0]))).2
      (PacketBlock.bytes (slice data (nameEnd.toNat + 10)
        (ntohs (load16 data (nameEnd.toNat + 8))).toNat ++ [0]))
    refine Like.done (AnswerParsed.parsed ⟨?_, rfl, rfl, rfl, rfl, ?_, ?_⟩ ?_ ?_
      (hfirst.andThen hsecond))
    · exact ⟨_, _, rfl, hsecond.keeps _ _ List.not_mem_nil hhas, cstr_terminated nameBuffer⟩
    · exact ⟨_, rfl, Heap.has_malloc⟩
    · exact length_slice _ _ _
    · intro a ha
      rcases List.mem_append.mp ha with ha | ha
      · rw [← Option.some.inj (Option.mem_toList.mp ha)]
        exact Heap.fresh_not_live
      · rw [← Option.some.inj (Option.mem_toList.mp ha)]
        exact fun hlive => Heap.fresh_not_live (hfirst.live hlive)
    · refine List.nodup_cons.mpr ⟨fun hmem => ?_, List.nodup_singleton _⟩
      exact Heap.fresh_not_live ((List.mem_singleton.mp hmem) ▸ hhas.1)

/-- A packet in new blocks, or no packet; then the question's name may be lost. -/
inductive PacketParsed (s : PacketHeap ε) (lost : Option Bytes) :
    PacketHeap ε × PacketFields × Bool → Option DnsPacket → Prop
  | failed {s' : PacketHeap ε} {fields : PacketFields}
      (hleaves : s.Leaves s' [] (nameBlocks lost.toList)) :
      PacketParsed s lost (s', fields, false) none
  | parsed {s' : PacketHeap ε} {fields : PacketFields} {pkt : DnsPacket}
      (howns : Owns s s' fields pkt) (hlost : lost = none) :
      PacketParsed s lost (s', fields, true) (some pkt)

/-- `dns_request_parse`, whatever was in the packet before. -/
theorem dnsRequestParse_like (fuel : Nat) (al : Alloc) (fields : PacketFields) (pkt : DnsPacket)
    (data : Memory) (s : PacketHeap ε) :
    Like (PacketParsed s (lostQname fuel al data))
      (dnsRequestParse fuel al fields data s) (DnsServer.dnsRequestParse fuel al pkt data) := by
  refine Like.bind (dnsQuestionParse_like fuel al data headerSize fields.question s) ?_
  intro r question hquestion hparsed
  unfold lostQname
  rw [hquestion]
  rcases hparsed with hchanges | ⟨hat, hnew, hleaves⟩
  · dsimp only
    rw [ite_self]
    exact Like.done (PacketParsed.failed (Heap.Leaves.of_changes hchanges))
  have hchanges : s.Changes _ [] 1 := hleaves.changes
  simp only [Bool.true_eq_false, if_false]
  by_cases hann : 0 < (dnsHeaderParse data).ancount
  · simp only [if_pos hann]
    refine Like.bind (dnsAnswerParse_like fuel al data fields.answer _) ?_
    intro r answer hanswer hparsed
    rw [hanswer]
    rcases hparsed with hchanges' | ⟨hat', hnew', hnodup, hchanges'⟩
    · exact Like.done (PacketParsed.failed (hleaves.andThen (Heap.Leaves.of_changes hchanges')))
    · obtain ⟨a, ha, hqname⟩ := hat.qname_eq
      obtain ⟨b, -, c, -, hnames⟩ := hat'.toList_name
      refine Like.done (PacketParsed.parsed
        ⟨⟨rfl, hat.keep hchanges', fun _ => hat'⟩, fun x hx => ?_, ?_, ?_⟩ rfl)
      · rw [PacketFields.blocks, if_pos hann] at hx
        rcases List.mem_append.mp hx with hx | hx
        · exact hnew x (Option.mem_toList.mp hx)
        · exact fun hlive => hnew' x hx (hchanges.live hlive)
      · rw [PacketFields.blocks, if_pos hann, hqname]
        refine List.nodup_cons.mpr ⟨fun hmem => ?_, hnodup⟩
        exact hnew' a hmem ha
      · rw [PacketFields.blocks, if_pos hann, hqname, hnames]
        exact hchanges.andThen hchanges'
  · simp only [if_neg hann]
    obtain ⟨a, -, hqname⟩ := hat.qname_eq
    refine Like.done (PacketParsed.parsed
      ⟨⟨rfl, hat, fun hannounced => absurd hannounced hann⟩, fun x hx => ?_, ?_, ?_⟩ rfl)
    · rw [PacketFields.blocks, if_neg hann, List.append_nil] at hx
      exact hnew x (Option.mem_toList.mp hx)
    · rw [PacketFields.blocks, if_neg hann, hqname]
      exact List.nodup_singleton a
    · rw [PacketFields.blocks, if_neg hann, hqname]
      exact hchanges

/-! ### Reading and freeing -/

/-- A packet that was parsed can be read, and says what its value does. -/
theorem readPacket_eq {fields : PacketFields} {pkt : DnsPacket} (h : PacketAt s fields pkt) :
    s.readPacket fields = done pkt.message := by
  obtain ⟨a, bytes, hqname, hhas, hbytes⟩ := h.question.qname
  unfold readPacket DnsPacket.message
  rw [hqname, readString_eq hhas, hbytes, done_bind, h.header, h.question.qtype, h.question.qclass]
  by_cases hann : 0 < pkt.header.ancount
  · have hanswer := h.answer hann
    obtain ⟨b, bytes', hname, hhas', hbytes'⟩ := hanswer.name
    obtain ⟨c, hrdata, hhas''⟩ := hanswer.rdata
    rw [if_pos hann, if_pos hann, hname, readString_eq hhas', done_bind, hrdata,
      readBytes_eq hhas'', done_bind, hbytes', hanswer.type, hanswer.rclass, hanswer.ttl,
      hanswer.rdlength, ← hanswer.length, List.take_left]
    rfl
  · rw [if_neg hann, if_neg hann]
    rfl

/-- The packet's blocks are given back, and only these. -/
theorem Owns.cleanUp {fields : PacketFields} {pkt : DnsPacket} {k : Nat}
    (hat : PacketAt s₁ fields pkt) (hnew : ∀ b ∈ fields.blocks, b ∉ s.live)
    (hnodup : fields.blocks.Nodup) (hchanges : s.Changes s₁ gone (fields.blocks.length + k)) :
    ∃ s₂, s₁.cleanUpPacket fields = done s₂ ∧ s.Changes s₂ gone k := by
  obtain ⟨a, ha, hqname⟩ := hat.question.qname_eq
  unfold cleanUpPacket
  by_cases hann : 0 < fields.header.ancount
  · have hanswer := hat.answer (by rw [← hat.header]; exact hann)
    obtain ⟨b, bytes, hname, hhas', -⟩ := hanswer.name
    obtain ⟨c, hrdata, hhas''⟩ := hanswer.rdata
    have hblocks : fields.blocks = [a, b, c] := by
      rw [PacketFields.blocks, if_pos hann, hqname, hname, hrdata]
      rfl
    rw [hblocks] at hnew hnodup hchanges
    simp only [List.nodup_cons, List.mem_cons, List.not_mem_nil, or_false, not_or, List.nodup_nil,
      and_true, not_false_eq_true] at hnodup
    obtain ⟨⟨hab, hac⟩, hbc⟩ := hnodup
    have hcount : [a, b, c].length + k = k + 1 + 1 + 1 := by
      simp only [List.length_cons, List.length_nil]
      omega
    rw [hcount] at hchanges
    obtain ⟨s₂, hfree₂, hchanges₂, hkeep₂⟩ := hchanges.free ha (hnew a (by simp))
    obtain ⟨s₃, hfree₃, hchanges₃, hkeep₃⟩ :=
      hchanges₂.free (hkeep₂ b _ (Ne.symm hab) hhas').1 (hnew b (by simp))
    obtain ⟨s₄, hfree₄, hchanges₄, -⟩ := hchanges₃.free
      (hkeep₃ c _ (Ne.symm hbc) (hkeep₂ c _ (Ne.symm hac) hhas'')).1 (hnew c (by simp))
    refine ⟨s₄, ?_, hchanges₄⟩
    rw [hqname, hname, hrdata]
    show (s₁.free a >>= _) = _
    rw [hfree₂, done_bind, if_pos ⟨hann, by simp⟩]
    show (s₂.free b >>= fun s => s.free c) = _
    rw [hfree₃, done_bind, hfree₄]
  · have hblocks : fields.blocks = [a] := by
      rw [PacketFields.blocks, if_neg hann, hqname]
      rfl
    rw [hblocks] at hnew hchanges
    rw [show [a].length + k = k + 1 by rw [List.length_singleton]; omega] at hchanges
    obtain ⟨s₂, hfree, hchanges₂, -⟩ := hchanges.free ha (hnew a (List.mem_singleton_self a))
    refine ⟨s₂, ?_, hchanges₂⟩
    rw [hqname]
    show (s₁.free a >>= _) = _
    rw [hfree, done_bind, if_neg fun h => hann h.1]
    rfl

/-! ### Callbacks -/

/-- The packet stays where it is when what is freed is not its own. -/
theorem PacketAt.keep {fields : PacketFields} {pkt : DnsPacket} (h : PacketAt s fields pkt)
    (hchanges : s.Changes s' gone n) (hapart : ∀ b ∈ fields.blocks, b ∉ gone) :
    PacketAt s' fields pkt := by
  obtain ⟨a, bytes, hqname, hhas, hbytes⟩ := h.question.qname
  have hqname' : a ∈ fields.blocks := by
    unfold PacketFields.blocks
    rw [hqname]
    exact List.mem_cons_self
  refine ⟨h.header, ⟨⟨a, bytes, hqname, hchanges.keeps _ _ (hapart a hqname') hhas, hbytes⟩,
    h.question.qtype, h.question.qclass⟩, fun hann => ?_⟩
  have hanswer := h.answer hann
  obtain ⟨b, bytes', hname, hhas', hbytes'⟩ := hanswer.name
  obtain ⟨c, hrdata, hhas''⟩ := hanswer.rdata
  have hblocks : b ∈ fields.blocks ∧ c ∈ fields.blocks := by
    unfold PacketFields.blocks
    rw [h.header, if_pos hann, hname, hrdata]
    simp
  exact ⟨⟨b, bytes', hname, hchanges.keeps _ _ (hapart b hblocks.1) hhas', hbytes'⟩, hanswer.type,
    hanswer.rclass, hanswer.ttl, hanswer.rdlength,
    ⟨c, hrdata, hchanges.keeps _ _ (hapart c hblocks.2) hhas''⟩, hanswer.length⟩

/-- The callback does with a packet in memory what `value` does with the packet, where these
blocks are there, and frees them and nothing else. -/
def Answers (needs : List (Nat × PacketBlock ε))
    (callback : PacketHeap ε → PacketFields → ε → Call (PacketHeap ε × ω))
    (value : DnsPacket → ε → Call ω) : Prop :=
  ∀ (s : PacketHeap ε) (fields : PacketFields) (pkt : DnsPacket) (sender : ε),
    PacketAt s fields pkt → (∀ p ∈ needs, s.Has p.1 p.2) →
      Like (fun r out => r.2 = out ∧ s.Changes r.1 (needs.map Prod.fst) 0)
        (callback s fields sender) (value pkt sender)

theorem handleDnsResponse_answers (ipStorage : Bytes) :
    Answers (ε := ε) [] (handleDnsResponse ipStorage)
      (fun pkt _ => DnsServer.handleDnsResponse pkt ipStorage) := by
  intro s fields pkt sender hat _
  show Like _ _ (DnsServer.handleDnsResponse pkt ipStorage)
  unfold handleDnsResponse DnsServer.handleDnsResponse
  rw [hat.header]
  by_cases hann : 0 < pkt.header.ancount
  · have hanswer := hat.answer hann
    obtain ⟨c, hrdata, hhas⟩ := hanswer.rdata
    rw [hanswer.type, hrdata, readBytes_eq hhas, done_bind]
    by_cases htype : pkt.answer.type = dnsTypeA
    · have hboth : 0 < pkt.header.ancount ∧ pkt.answer.type = dnsTypeA := ⟨hann, htype⟩
      rw [if_pos hboth, if_pos hboth]
      by_cases hshort : (pkt.answer.rdata ++ [0]).length < 4
      · simp only [if_pos hshort]
        exact Like.undefined
      · simp only [if_neg hshort]
        exact Like.done ⟨rfl, Heap.Changes.refl s⟩
    · rw [if_neg fun h => htype h.2, if_neg fun h => htype h.2]
      exact Like.done ⟨rfl, Heap.Changes.refl s⟩
  · rw [if_neg fun h => hann h.1, if_neg fun h => hann h.1]
    exact Like.done ⟨rfl, Heap.Changes.refl s⟩

theorem dnsSendAnswer_message (gSockfd : Int) (pkt : DnsPacket) :
    dnsSendAnswer gSockfd pkt.message.packet = dnsSendAnswer gSockfd pkt := by
  unfold dnsSendAnswer sendAnswerBuffer DnsMessage.packet DnsPacket.message
  by_cases hann : 0 < pkt.header.ancount
  · simp only [if_pos hann, Option.getD_some]
  · simp only [if_neg hann]

theorem exampleDnsForwardCallback_answers (gSockfd : Int) (originalClient : Nat) (addr : ε) :
    Answers [(originalClient, .client addr)]
      (exampleDnsForwardCallback gSockfd (some originalClient))
      (fun pkt _ => done (DnsServer.exampleDnsForwardCallback gSockfd pkt (some addr))) := by
  intro s fields pkt sender hat hneeds
  have hclient : s.Has originalClient (.client addr) := hneeds _ (List.mem_singleton_self _)
  obtain ⟨s', hfree, hchanges⟩ := Heap.changes_free hclient.1
  unfold exampleDnsForwardCallback
  rw [readPacket_eq hat, done_bind]
  show Like _ (Heap.read s originalClient >>= _) _
  rw [hclient.read_eq, done_bind]
  show Like _ (Heap.free s originalClient >>= _) _
  rw [hfree, dnsSendAnswer_message]
  exact Like.done ⟨rfl, hchanges⟩

end PacketHeap

end DnsServer
