/-
What stays inside its buffer.

The writes into a packet buffer lay what the buffer holds in the end, from its start
and without a gap, so they are inside it exactly when that is no longer than the
buffer.  For a query this is the name's length and eighteen bytes more; for an
answer that is relayed, both names as text, the data and twenty-eight more.  The
handler's own buffer is filled by `read` up to its end, and the NUL after what was
read is outside when it was full.
-/
import DnsServer.Code.Buffers
import DnsServer.Proofs.Forward
import DnsServer.Proofs.Query

namespace DnsServer

open Call Writes

/-! ### The encoder -/

/-- The cursor has written what the encoder's state holds, but for the length of the label it
is in. -/
structure Tracks (start : Nat) (s : EncodeCursor) (t : EncodeState) : Prop where
  buffer : s.buffer = start + t.out.length
  labelLengthPtr : s.labelLengthPtr = start + t.labelLengthPtr
  inside : t.labelLengthPtr < t.out.length
  labelLength : s.labelLength = t.labelLength
  totalLength : s.totalLength = t.totalLength
  count : t.totalLength = t.out.length
  written : ∀ i, written s.writes i
    = if i = s.labelLengthPtr then none else if start ≤ i then t.out[i - start]? else none

theorem Tracks.start (start : Nat) :
    Tracks start (encodeNameStart start)
      { out := [0], labelLengthPtr := 0, labelLength := 0, totalLength := 1 } := by
  refine ⟨rfl, rfl, by simp, rfl, rfl, rfl, ?_⟩
  intro i
  show none = if i = start then none else if start ≤ i then [0][i - start]? else none
  split
  · rfl
  split
  · rw [List.getElem?_eq_none]
    simp
    omega
  · rfl

variable {start : Nat} {s : EncodeCursor} {t : EncodeState}

/-- With the label's length written, the writes lay what the state holds. -/
theorem Tracks.close (h : Tracks start s t) (b : UInt8) :
    Lays start (t.out.set t.labelLengthPtr b) (s.writes ++ [(s.labelLengthPtr, b)]) := by
  have hptr := h.labelLengthPtr
  have hinside := h.inside
  intro i
  rw [written_append, written_singleton, h.written i]
  by_cases hi : i = s.labelLengthPtr
  · have hle : start ≤ i := by omega
    rw [if_pos hi.symm, if_pos hi, if_pos hle, show i - start = t.labelLengthPtr by omega,
      List.getElem?_set_self hinside]
    rfl
  · rw [if_neg (Ne.symm hi), if_neg hi, Option.none_or]
    by_cases hstart : start ≤ i
    · rw [if_pos hstart, if_pos hstart, List.getElem?_set_ne (by omega)]
    · rw [if_neg hstart, if_neg hstart]

theorem Tracks.dot (h : Tracks start s t) :
    Tracks start (encodeNameWrite s dot) (encodeNameStep t dot) := by
  have hbuffer := h.buffer
  have hlays := h.close (UInt8.ofNat s.labelLength)
  rw [h.labelLength] at hlays
  unfold encodeNameWrite encodeNameStep
  rw [if_pos rfl, if_pos rfl, h.labelLength]
  refine ⟨?_, hbuffer, by simp, rfl, congrArg (· + 1) h.totalLength, ?_, ?_⟩
  · simp only [List.length_append, List.length_set, List.length_singleton]
    omega
  · simp only [List.length_append, List.length_set, List.length_singleton]
    rw [h.count]
  · intro i
    dsimp only
    rw [hlays i]
    by_cases hi : i = s.buffer
    · rw [if_pos hi, if_pos (by omega), List.getElem?_eq_none]
      rw [List.length_set]
      omega
    · rw [if_neg hi]
      by_cases hstart : start ≤ i
      · rw [if_pos hstart, if_pos hstart]
        by_cases hin : i - start < t.out.length
        · rw [List.getElem?_append_left (by rw [List.length_set]; exact hin)]
        · rw [List.getElem?_eq_none (by rw [List.length_set]; omega), List.getElem?_eq_none]
          simp only [List.length_append, List.length_set, List.length_singleton]
          omega
      · rw [if_neg hstart, if_neg hstart]

theorem Tracks.char (h : Tracks start s t) {c : UInt8} (hc : c ≠ DnsServer.dot) :
    Tracks start (encodeNameWrite s c) (encodeNameStep t c) := by
  have hbuffer := h.buffer
  have hptr := h.labelLengthPtr
  have hinside := h.inside
  unfold encodeNameWrite encodeNameStep
  rw [if_neg hc, if_neg hc]
  refine ⟨?_, hptr, ?_, congrArg (· + 1) h.labelLength, congrArg (· + 1) h.totalLength, ?_, ?_⟩
  · simp only [List.length_append, List.length_singleton]
    omega
  · simp only [List.length_append, List.length_singleton]
    omega
  · simp only [List.length_append, List.length_singleton]
    rw [h.count]
  · intro i
    dsimp only
    rw [written_append, written_singleton, h.written i]
    dsimp only
    by_cases hi : s.buffer = i
    · have hle : start ≤ i := by omega
      have hne : i ≠ s.labelLengthPtr := by omega
      rw [if_pos hi, if_neg hne, if_neg hne, if_pos hle, if_pos hle,
        show i - start = t.out.length by omega, List.getElem?_concat_length]
      rfl
    · rw [if_neg hi, Option.none_or]
      by_cases hslot : i = s.labelLengthPtr
      · rw [if_pos hslot, if_pos hslot]
      · rw [if_neg hslot, if_neg hslot]
        by_cases hstart : start ≤ i
        · rw [if_pos hstart, if_pos hstart, List.getElem?_append]
          by_cases hin : i - start < t.out.length
          · rw [if_pos hin]
          · rw [if_neg hin, List.getElem?_eq_none (by omega), List.getElem?_eq_none]
            simp only [List.length_singleton]
            omega
        · rw [if_neg hstart, if_neg hstart]

theorem Tracks.run (h : Tracks start s t) (domain : Bytes) :
    Tracks start (domain.foldl encodeNameWrite s) (domain.foldl encodeNameStep t) := by
  induction domain generalizing s t with
  | nil => exact h
  | cons c domain ih =>
      by_cases hc : c = DnsServer.dot
      · subst hc
        exact ih h.dot
      · exact ih (h.char hc)

/-- The encoder lays what it holds in the end, and returns its length. -/
theorem lays_dnsEncodeName (start : Nat) (domain : Bytes) :
    Lays start (dnsEncodeName domain).1 (dnsEncodeNameWrites start domain).1 ∧
      (dnsEncodeNameWrites start domain).2 = (dnsEncodeName domain).1.length := by
  have h := (Tracks.start start).run domain
  unfold dnsEncodeName encodeNameEnd dnsEncodeNameWrites
  dsimp only
  generalize domain.foldl encodeNameWrite _ = s at h ⊢
  generalize domain.foldl encodeNameStep _ = t at h ⊢
  have hlays := h.close (UInt8.ofNat s.labelLength)
  rw [h.labelLength] at hlays
  refine ⟨?_, ?_⟩
  · have hend := hlays.append (lays_copyAt s.buffer [0]) (by rw [List.length_set, h.buffer])
    rw [List.append_assoc] at hend
    rw [h.labelLength]
    exact hend
  · simp only [List.length_append, List.length_set, List.length_singleton]
    rw [h.totalLength, h.count]

theorem length_encodeNameStep (s : EncodeState) (c : UInt8) :
    (encodeNameStep s c).out.length = s.out.length + 1 := by
  unfold encodeNameStep
  split <;> simp

theorem length_dnsEncodeName (domain : Bytes) :
    (dnsEncodeName domain).1.length = domain.length + 2 := by
  have hfold : ∀ (rest : Bytes) (s : EncodeState),
      (rest.foldl encodeNameStep s).out.length = s.out.length + rest.length := by
    intro rest
    induction rest with
    | nil => intro s; rfl
    | cons c rest ih =>
        intro s
        rw [List.foldl_cons, ih, length_encodeNameStep, List.length_cons]
        omega
  simp only [dnsEncodeName, encodeNameEnd, List.length_append, List.length_set,
    List.length_singleton]
  rw [hfold, List.length_singleton]
  omega

/-! ### The packet buffer -/

theorem length_store (h : DnsHeader) : h.store.length = headerSize := by
  simp [DnsHeader.store, store16, headerSize]

theorem length_store16 (x : UInt16) : (store16 x).length = 2 := by simp [store16]

theorem length_store32 (x : UInt32) : (store32 x).length = 4 := by simp [store32]

theorem length_sendPacketBuffer (pkt : DnsPacket) :
    (sendPacketBuffer pkt).length = pkt.question.qname.length + 18 := by
  have hname := length_dnsEncodeName pkt.question.qname
  rw [dnsEncodeName_eq] at hname
  rw [sendPacketBuffer_eq]
  simp only [List.length_append, length_header_wire, hname, Endian.length_beBytes]
  unfold headerSize
  omega

/-- The writes of a query lay what is sent. -/
theorem lays_sendPacket (pkt : DnsPacket) :
    Lays 0 (sendPacketBuffer pkt) (sendPacketWrites pkt) := by
  obtain ⟨hname, hlength⟩ := lays_dnsEncodeName (0 + headerSize) pkt.question.qname
  have htake : (dnsEncodeName pkt.question.qname).1.take (dnsEncodeName pkt.question.qname).2
      = (dnsEncodeName pkt.question.qname).1 := by
    rw [dnsEncodeName_eq, List.take_length]
  unfold sendPacketBuffer sendPacketWrites
  dsimp only
  rw [htake, hlength]
  refine (((lays_copyAt 0 _).append hname ?_).append (lays_copyAt _ _) ?_).append
    (lays_copyAt _ _) ?_
  · rw [length_store]
  · rw [List.length_append, length_store]
    omega
  · rw [List.length_append, List.length_append, length_store, length_store16]
    omega

theorem length_sendAnswerBuffer (pkt : DnsPacket) :
    (sendAnswerBuffer pkt).length = pkt.question.qname.length + 17 +
      if 0 < pkt.header.ancount then
        pkt.answer.name.length + 11 + (pkt.answer.rdata.take pkt.answer.rdlength.toNat).length
      else 0 := by
  unfold sendAnswerBuffer
  split <;>
  · simp only [List.length_append, length_store, length_store16, length_store32,
      List.length_singleton, List.length_nil]
    unfold headerSize
    omega

/-- The writes of an answer lay what is sent. -/
theorem lays_sendAnswer (pkt : DnsPacket) :
    Lays 0 (sendAnswerBuffer pkt) (sendAnswerWrites pkt) := by
  have hqname : (pkt.question.qname ++ [0]).length = pkt.question.qname.length + 1 := by simp
  have hname : (pkt.answer.name ++ [0]).length = pkt.answer.name.length + 1 := by simp
  unfold sendAnswerBuffer sendAnswerWrites
  dsimp only
  -- the two names are single pieces
  generalize pkt.question.qname ++ [0] = qname at hqname ⊢
  generalize pkt.answer.name ++ [0] = name at hname ⊢
  have hheader := lays_copyAt 0 (DnsHeader.store { pkt.header with qr := qrResponse }.hton)
  have hquestion := ((hheader.append
    (lays_copyAt (0 + headerSize) qname) (by rw [length_store])).append
    (lays_copyAt (0 + headerSize + (pkt.question.qname.length + 1))
      (store16 (htons pkt.question.qtype)))
      (by rw [List.length_append, length_store, hqname]; omega)).append
    (lays_copyAt (0 + headerSize + (pkt.question.qname.length + 1) + 2)
      (store16 (htons pkt.question.qclass)))
      (by simp only [List.length_append, length_store, length_store16, hqname]; omega)
  by_cases han : 0 < pkt.header.ancount
  · rw [if_pos han, if_pos han]
    simp only [← List.append_assoc]
    refine (((((hquestion.append (lays_copyAt _ _) ?_).append (lays_copyAt _ _) ?_).append
      (lays_copyAt _ _) ?_).append (lays_copyAt _ _) ?_).append (lays_copyAt _ _) ?_).append
      (lays_copyAt _ _) ?_ <;>
    · simp only [List.length_append, length_store, length_store16, length_store32, hqname, hname]
      omega
  · rw [if_neg han, if_neg han, List.append_nil]
    exact hquestion

/-! ### Handling a request -/

/-- The NUL after what was read is inside when the buffer was not filled. -/
theorem handleClientWrites_inside_iff {sent : Option Bytes} :
    Inside bufferSize (handleClientWrites sent) ↔ (sent.getD []).length < bufferSize := by
  have hinitial : Inside bufferSize (copyAt 0 (List.replicate bufferSize (0 : UInt8))) := by
    rw [(lays_copyAt 0 _).inside_iff (by rw [List.length_replicate]; decide),
      List.length_replicate, Nat.zero_add]
  unfold handleClientWrites
  rcases sent with _ | sent
  · exact iff_of_true hinitial (by simp [bufferSize])
  dsimp only [Option.getD_some]
  by_cases hempty : (sent.take bufferSize).length = 0
  · rw [if_pos hempty]
    rw [List.length_take] at hempty
    refine iff_of_true hinitial ?_
    have hsize : 0 < bufferSize := by decide
    omega
  · rw [if_neg hempty, inside_append_iff, inside_append_iff,
      (lays_copyAt 0 _).inside_iff (Nat.pos_of_ne_zero hempty)]
    have hlast : Inside bufferSize [((sent.take bufferSize).length, (0 : UInt8))] ↔
        (sent.take bufferSize).length < bufferSize := by simp [Inside]
    rw [hlast, List.length_take]
    refine ⟨fun h => by omega, fun h => ⟨⟨hinitial, by omega⟩, by omega⟩⟩

variable {ε : Type}

/-- A packet for the query is serialized. -/
def QueryEnv.Serializes (env : QueryEnv ε) : Prop :=
  env.querySocket ≠ none ∧ env.al 0 = true ∧ env.al 1 = true ∧ env.serverAddr ≠ none

theorem dnsQueryDomainWrites_inside_iff {domainName : Bytes} {env : QueryEnv ε} :
    Inside udpBufferSize (dnsQueryDomainWrites domainName env) ↔
      (env.Serializes → domainName.length ≤ 494) := by
  unfold dnsQueryDomainWrites dnsCreateQueryPacket dnsSendPacketWrites QueryEnv.Serializes
  rcases env.querySocket with _ | gSockfd
  · simp [inside_nil]
  rcases env.al 0 with _ | _
  · simp [inside_nil]
  rcases env.al 1 with _ | _
  · simp [inside_nil]
  have hfd : ¬ (gSockfd : Int) = -1 := by omega
  rcases env.serverAddr with _ | server
  · simp [inside_nil]
  · simp only [Bool.not_true, Bool.false_eq_true, if_false, if_neg hfd]
    rw [(lays_sendPacket _).inside_iff (by rw [length_sendPacketBuffer]; omega),
      length_sendPacketBuffer]
    simp [udpBufferSize]

/-- The request is forwarded: it is a query, and nothing is found for it here. -/
def ClientRequest.Forwarded (request : ClientRequest) (root : TrieNode) (cache : DNSCache) :
    Prop :=
  request.sent.getD [] ≠ [] ∧ request.query ≠ ascii "trie" ∧
    ∃ cache₁, Settles (fun fuel => retriveValue fuel root request.query request.calls cache)
      (done (none, cache₁))

variable {root : TrieNode} {cache : DNSCache} {request : ClientRequest} {env : QueryEnv ε}

/-- Unless it is forwarded, a request that fits the buffer writes no packet. -/
theorem packetWrites_settles (hfits : (request.sent.getD []).length < bufferSize)
    {ws : List (Nat × UInt8)}
    (h : Settles (fun fuel => handleClientPacketWrites fuel root cache request env) (done ws)) :
    ws = [] ∨ (request.Forwarded root cache ∧ ws = dnsQueryDomainWrites request.query env) := by
  obtain ⟨enough, henough⟩ := h
  have hrun := henough enough (Nat.le_refl enough)
  unfold handleClientPacketWrites at hrun
  rcases hsent : request.sent with _ | sent
  · simp only [hsent, done.injEq] at hrun
    exact Or.inl hrun.symm
  simp only [hsent, Option.getD_some] at hrun hfits
  have htake : sent.take bufferSize = sent := List.take_of_length_le (by omega)
  have hquery : request.query = cstr sent := by
    rw [ClientRequest.query, hsent, Option.getD_some, htake]
  rw [htake] at hrun
  by_cases hempty : sent = []
  · simp only [if_pos hempty, done.injEq] at hrun
    exact Or.inl hrun.symm
  rw [if_neg hempty, if_neg (by omega)] at hrun
  by_cases htrie : cstr sent = ascii "trie"
  · simp only [if_pos htrie, done.injEq] at hrun
    exact Or.inl hrun.symm
  rw [if_neg htrie] at hrun
  obtain ⟨⟨found, cache₁⟩, hfound, hrest⟩ := bind_eq_done.mp hrun
  rcases found with _ | entry
  · simp only [pure_eq, done.injEq] at hrest
    refine Or.inr ⟨⟨?_, ?_, cache₁, ?_⟩, ?_⟩
    · rw [hsent]
      exact hempty
    · rw [hquery]
      exact htrie
    · rw [hquery]
      exact (retriveValue_mono _ _ _ _).settles_done enough hfound
    · rw [hquery]
      exact hrest.symm
  · simp only [pure_eq, done.injEq] at hrest
    exact Or.inl hrest.symm

theorem packetWrites_forwarded (hfits : (request.sent.getD []).length < bufferSize)
    (h : request.Forwarded root cache) :
    Settles (fun fuel => handleClientPacketWrites fuel root cache request env)
      (done (dnsQueryDomainWrites request.query env)) := by
  obtain ⟨hne, htrie, cache₁, enough, henough⟩ := h
  refine ⟨enough, ?_⟩
  intro fuel hfuel
  have hfound := henough fuel hfuel
  unfold handleClientPacketWrites
  rcases hsent : request.sent with _ | sent
  · rw [hsent] at hne
    simp at hne
  rw [hsent, Option.getD_some] at hne hfits
  have htake : sent.take bufferSize = sent := List.take_of_length_le (by omega)
  have hquery : request.query = cstr sent := by
    rw [ClientRequest.query, hsent, Option.getD_some, htake]
  rw [hquery] at htrie hfound ⊢
  dsimp only at hfound ⊢
  rw [htake, if_neg hne, if_neg (by omega), if_neg htrie, hfound]
  rfl

/--
**Requests that stay inside their buffers.**  Handling a request writes both its own
buffer and the packet buffer only inside exactly when fewer than `BUFFER_SIZE` bytes
were sent and the name that is forwarded, if one is, has at most 494.
-/
theorem request_inside_iff (root : TrieNode) (cache : DNSCache) (request : ClientRequest)
    (env : QueryEnv ε) :
    (Inside bufferSize (handleClientWrites request.sent) ∧
      ∀ ws, Settles (fun fuel => handleClientPacketWrites fuel root cache request env) (done ws) →
        Inside udpBufferSize ws) ↔
    ((request.sent.getD []).length < bufferSize ∧
      (request.Forwarded root cache → env.Serializes → request.query.length ≤ 494)) := by
  rw [handleClientWrites_inside_iff]
  refine and_congr_right fun hfits => ⟨?_, ?_⟩
  · intro h hforwarded
    exact dnsQueryDomainWrites_inside_iff.mp (h _ (packetWrites_forwarded hfits hforwarded))
  · intro h ws hws
    rcases packetWrites_settles hfits hws with rfl | ⟨hforwarded, rfl⟩
    · exact inside_nil _
    · exact dnsQueryDomainWrites_inside_iff.mpr (h hforwarded)

/-- A request of one letter, repeated. -/
def longRequest (length : Nat) : ClientRequest :=
  { answeredRequest [] with sent := some (List.replicate length 97) }

theorem length_longRequest (length : Nat) :
    ((longRequest length).sent.getD []).length = length := List.length_replicate

theorem longRequest_query {length : Nat} (h : length ≤ bufferSize) :
    (longRequest length).query = List.replicate length 97 := by
  show ((List.replicate length (97 : UInt8)).take bufferSize).takeWhile _ = _
  rw [List.take_of_length_le (by rw [List.length_replicate]; exact h)]
  exact List.takeWhile_eq_self_iff.mpr fun c hc => by
    rw [List.eq_of_mem_replicate hc]
    decide

theorem longRequest_forwarded :
    (longRequest 500).Forwarded emptyTrie initializeDNSCache := by
  refine ⟨?_, ?_, _, (retriveValue_mono _ _ _ _).settles_done 3 rfl⟩
  · intro heq
    have hlen := length_longRequest 500
    rw [heq] at hlen
    exact absurd hlen (by decide)
  · intro heq
    have hlen := congrArg List.length heq
    rw [longRequest_query (by decide), List.length_replicate] at hlen
    exact absurd hlen (by decide)

/-- A request that fills the buffer has its NUL put behind it, and a name of 500 letters does not
fit the packet buffer. -/
theorem request_outside :
    ¬ Inside bufferSize (handleClientWrites (longRequest 1024).sent) ∧
    ¬ ∀ ws, Settles (fun fuel => handleClientPacketWrites fuel emptyTrie initializeDNSCache
        (longRequest 500) (answeredEnv 0)) (done ws) → Inside udpBufferSize ws := by
  refine ⟨?_, ?_⟩
  · rw [handleClientWrites_inside_iff, length_longRequest]
    decide
  · intro h
    have hfits : ((longRequest 500).sent.getD []).length < bufferSize := by
      rw [length_longRequest]
      decide
    have hinside := h _ (packetWrites_forwarded hfits longRequest_forwarded)
    rw [dnsQueryDomainWrites_inside_iff, longRequest_query (by decide),
      List.length_replicate] at hinside
    exact absurd (hinside ⟨by simp [answeredEnv], rfl, rfl, by simp [answeredEnv]⟩) (by decide)

/-! ### Relaying a response -/

/-- What is sent to the client saved is what the writes have laid. -/
theorem lays_forwardCallback {gSockfd : Int} {packet : DnsPacket} {userData : Option ε} {client : ε}
    {buffer : Bytes}
    (h : exampleDnsForwardCallback gSockfd packet userData = some (buffer, client)) :
    Lays 0 buffer (exampleDnsForwardCallbackWrites gSockfd packet userData) := by
  unfold exampleDnsForwardCallback dnsSendAnswer at h
  unfold exampleDnsForwardCallbackWrites dnsSendAnswerWrites
  rcases userData with _ | saved
  · simp at h
  dsimp only at h ⊢
  by_cases hfd : gSockfd = -1
  · rw [if_pos hfd] at h
    simp at h
  · rw [if_neg hfd] at h ⊢
    rw [Option.bind_some, Option.map_some, Option.some.injEq, Prod.mk.injEq] at h
    rw [← h.1]
    exact lays_sendAnswer packet

theorem length_nameText_le {ls : List Bytes} (h : (dotted ls).length < nameBufferSize) :
    (nameText ls).length ≤ 255 := by
  have hle : (nameText ls).length ≤ ((dotted ls).dropLast ++ [0]).length :=
    (List.takeWhile_prefix _).length_le
  rw [List.length_append, List.length_dropLast, List.length_singleton] at hle
  unfold nameBufferSize at h
  omega

/-- How much is written when what was read as this packet is relayed. -/
theorem forwardCallbackWrites_inside_iff {m : Contents} {pkt : DnsPacket}
    (hreads : PacketReads m pkt) {gSockfd : Int} {userData : Option ε} :
    Inside udpBufferSize (exampleDnsForwardCallbackWrites gSockfd pkt userData) ↔
      (userData ≠ none → gSockfd ≠ -1 → 0 < pkt.header.ancount →
        pkt.question.qname.length + pkt.answer.name.length + pkt.answer.rdlength.toNat + 28
          ≤ udpBufferSize) := by
  obtain ⟨-, e, ⟨ls, f, -, hroom, hqname, -, -⟩, hanswer⟩ := hreads
  have hqlen : pkt.question.qname.length ≤ 255 := by
    rw [hqname]
    exact length_nameText_le hroom
  unfold exampleDnsForwardCallbackWrites dnsSendAnswerWrites
  rcases userData with _ | client
  · simp [inside_nil]
  dsimp only
  by_cases hfd : gSockfd = -1
  · rw [if_pos hfd]
    exact iff_of_true (inside_nil _) fun _ hne => absurd hfd hne
  rw [if_neg hfd, (lays_sendAnswer pkt).inside_iff (by rw [length_sendAnswerBuffer]; omega),
    length_sendAnswerBuffer, Nat.zero_add]
  by_cases han : 0 < pkt.header.ancount
  · obtain ⟨als, g, -, -, -, -, hdata⟩ := hanswer han
    rw [if_pos han, ← hdata, List.take_length]
    refine ⟨fun h _ _ _ => by omega, ?_⟩
    intro h
    have hle := h (by simp) hfd han
    omega
  · rw [if_neg han]
    refine iff_of_true ?_ fun _ _ hyes => absurd hyes han
    unfold udpBufferSize
    omega

/--
**Relayed responses that fit.**  A response that was parsed is relayed inside the
output buffer exactly when it has no answer or both names, the data and twenty-eight
bytes more are no longer than the buffer; or when nothing is sent, because no client
was saved for it or the socket is closed.
-/
theorem relayed_inside_iff (al : Alloc) (pkt₀ : DnsPacket) (beyond : Memory) (datagram : Bytes)
    (pkt : DnsPacket)
    (hparsed : Settles (fun fuel => dnsRequestParse fuel al pkt₀ (recvBuffer datagram beyond))
      (done (some pkt)))
    (gSockfd : Int) (userData : Option ε) :
    Inside udpBufferSize (exampleDnsForwardCallbackWrites gSockfd pkt userData) ↔
      (userData ≠ none → gSockfd ≠ -1 → 0 < pkt.header.ancount →
        pkt.question.qname.length + pkt.answer.name.length + pkt.answer.rdlength.toNat + 28
          ≤ udpBufferSize) :=
  forwardCallbackWrites_inside_iff (recvBuffer_settles_iff.mp hparsed).2.1

/-! ### A response that does not -/

/-- A response with this record for the name asked for, which is a pointer. -/
def compressedResponse (r : Record) : Bytes :=
  responseHeader.wire ++ encodeLabels exampleCom.raw ++ [0, 1, 0, 1] ++ [0xC0, 12] ++ r.fields

def compressedMessage (r : Record) : Message :=
  { header := responseHeader
    questions := [{ name := exampleCom, qtype := 1, qclass := 1 }]
    answers := [r], authorities := [], additionals := [] }

theorem length_compressedResponse (r : Record) :
    (compressedResponse r).length = 41 + r.rdata.length := by
  have hprefix : (responseHeader.wire ++ encodeLabels exampleCom.raw ++ [0, 1, 0, 1] ++
      [0xC0, 12]).length = 31 := by decide
  unfold compressedResponse Record.fields
  rw [List.length_append, hprefix]
  simp only [List.length_append, Endian.length_beBytes]
  omega

/-- It is well formed for every record of that name that leaves it short enough. -/
theorem compressedResponse_wellFormed {r : Record} (hname : r.name = exampleCom)
    (hshort : r.rdata.length ≤ 471) : WellFormed (compressedResponse r) (compressedMessage r) := by
  have hall := holdsAt_bytes (compressedResponse r)
  unfold compressedResponse at hall
  simp only [holdsAt_append] at hall
  obtain ⟨⟨⟨⟨hheader, hqname⟩, hquestion⟩, hpointer⟩, hfields⟩ := hall
  have hlen := length_compressedResponse r
  have hend : 31 + r.fields.length = (compressedResponse r).length := by
    unfold compressedResponse
    rw [List.length_append]
    rfl
  have hat : NameAt (compressedResponse r).contents headerSize exampleCom.raw 25 :=
    nameAt_encode exampleCom_encodes hqname
  have hanswers : RecordsAt (compressedResponse r).contents 29 [r] (31 + r.fields.length) := by
    have howner : NameAt (compressedResponse r).contents headerSize r.name.raw 25 := by
      rw [hname]
      exact hat
    exact RecordsAt.cons (NameAt.pointer hpointer.1 rfl hpointer.2.1 howner) hfields
      (RecordsAt.nil _)
  refine ⟨by omega, hheader, rfl, rfl, rfl, rfl, 29, 31 + r.fields.length, 31 + r.fields.length,
    QuestionsAt.cons hat hquestion (QuestionsAt.nil _), hanswers, RecordsAt.nil _, ?_⟩
  rw [← hend]
  exact RecordsAt.nil _

/-- A text record of empty strings. -/
def emptyStrings (length : Nat) (h : length < 65536) : Record :=
  { name := exampleCom, type := 16, rclass := 1, ttl := 60, rdata := List.replicate length 0
    short := by rw [List.length_replicate]; exact h }

theorem emptyStrings_parsed {length : Nat} (h : length ≤ 471) :
    ∃ datagram pkt, datagram.length = 41 + length ∧
      Settles (fun fuel => dnsRequestParse fuel allocOk zeroPacket
        (recvBuffer datagram fun _ => 0)) (done (some pkt)) ∧
      pkt.header.ancount = 1 ∧ pkt.question.qname.length = 11 ∧ pkt.answer.name.length = 11 ∧
      pkt.answer.rdlength.toNat = length := by
  have hlt : length < 65536 := by omega
  have hrdata : (emptyStrings length hlt).rdata.length = length := List.length_replicate
  have hwf := compressedResponse_wellFormed rfl (by rw [hrdata]; exact h)
  obtain ⟨q, r, rs, hq, hr, hreads⟩ := hwf.packetReads rfl (show 1 ≤ responseHeader.ancount.toNat
    by decide)
  obtain ⟨rfl, -⟩ := List.cons.inj hq
  obtain ⟨rfl, -⟩ := List.cons.inj hr
  refine ⟨compressedResponse (emptyStrings length hlt), _, ?_, recvBuffer_settles_iff.mpr
    ⟨⟨rfl, fun _ => ⟨rfl, rfl⟩⟩, hreads.mono (contents_le_recvBuffer hwf.short _), rfl⟩,
    rfl, rfl, rfl, ?_⟩
  · rw [length_compressedResponse, hrdata]
  · rw [Record.toNat_rdlength, hrdata]

/-- A well-formed response of 511 bytes is relayed in 520. -/
theorem relayed_outside : ∃ datagram pkt,
    datagram.length ≤ udpBufferSize ∧
    Settles (fun fuel => dnsRequestParse fuel allocOk zeroPacket (recvBuffer datagram fun _ => 0))
      (done (some pkt)) ∧
    ¬ Inside udpBufferSize (exampleDnsForwardCallbackWrites 3 pkt (some ())) := by
  obtain ⟨datagram, pkt, hlength, hparsed, hancount, hqname, hname, hrdlength⟩ :=
    emptyStrings_parsed (show 470 ≤ 471 by omega)
  refine ⟨datagram, pkt, ?_, hparsed, ?_⟩
  · rw [hlength]
    decide
  · rw [forwardCallbackWrites_inside_iff (recvBuffer_settles_iff.mp hparsed).2.1, hancount, hqname,
      hname, hrdlength]
    decide

/-- One of 300 bytes less is relayed inside the buffer. -/
theorem relayed_inside_iff_short : ∃ pkt,
    Inside udpBufferSize (exampleDnsForwardCallbackWrites 3 pkt (some ())) ∧
      pkt.answer.rdlength.toNat = 170 := by
  obtain ⟨datagram, pkt, -, hparsed, hancount, hqname, hname, hrdlength⟩ :=
    emptyStrings_parsed (show 170 ≤ 471 by omega)
  refine ⟨pkt, (relayed_inside_iff _ _ _ datagram pkt hparsed 3 (some ())).mpr ?_, hrdlength⟩
  rw [hancount, hqname, hname, hrdlength]
  decide

end DnsServer
