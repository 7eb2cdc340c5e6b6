/-
Which texts leave the server as the query they spell.

The encoder never refuses.  An empty label is written as the zero that ends a
name, a length of 192 or more reads as a pointer, one of 256 or more is cut to a
byte, and a name can be too long for the buffer it is read back into.  Wherever
that happens the datagram does not say the text: if the parser accepts it at all,
the labels it reads are fewer or shorter, or the zero too many has pushed QTYPE
out of its place.
-/
import DnsServer.Proofs.Labels

namespace DnsServer

open Call

/-! ### What the text says -/

/-- The text less one dot at its end. -/
def withoutTrailingDot (text : Bytes) : Bytes :=
  if text.getLast? = some dot then text.dropLast else text

/-- The labels a text spells. -/
def spelledLabels (text : Bytes) : List Bytes := textLabels (withoutTrailingDot text)

/-- Every label can be read back, and so can all of them together. -/
def Encodable (text : Bytes) : Prop :=
  (∀ l ∈ textLabels text, Readable l) ∧ text.length ≤ 254

/-- The question is the one asked for. -/
def Asks (q : DnsQuestion) (text : Bytes) : Prop :=
  textLabels q.qname = spelledLabels text ∧ q.qtype = dnsTypeA ∧ q.qclass = dnsClassIn

/-- The datagram parses, and its question is the one asked for. -/
def ParsesAsQuery (pkt₀ : DnsPacket) (data : Memory) (text : Bytes) : Prop :=
  ∃ parsed, Settles (fun fuel => dnsRequestParse fuel allocOk pkt₀ data) (done (some parsed)) ∧
    Asks parsed.question text

theorem spelledLabels_cases (text : Bytes) :
    (text = withoutTrailingDot text ++ [dot] ∧ textLabels text = spelledLabels text ++ [[]]) ∨
      (text = withoutTrailingDot text ∧ textLabels text = spelledLabels text) := by
  unfold spelledLabels withoutTrailingDot
  by_cases h : text.getLast? = some dot
  · rw [if_pos h]
    obtain ⟨pre, rfl⟩ := List.getLast?_eq_some_iff.mp h
    rw [List.dropLast_concat]
    exact Or.inl ⟨rfl, textLabels_concat_dot pre⟩
  · rw [if_neg h]
    exact Or.inr ⟨rfl, rfl⟩

/-- A text whose labels can be read back has no dot at its end. -/
theorem Encodable.spelledLabels_eq {text : Bytes} (h : Encodable text) :
    spelledLabels text = textLabels text := by
  rcases spelledLabels_cases text with ⟨-, hlabels⟩ | ⟨-, hlabels⟩
  · have hempty := h.1 [] (by rw [hlabels]; simp)
    exact absurd hempty.1 (by decide)
  · exact hlabels.symm

/-! ### Reading the name back -/

/-- The fixed fields of a query's question. -/
def queryFields : Bytes :=
  Endian.beBytes 2 dnsTypeA.toNat ++ Endian.beBytes 2 dnsClassIn.toNat

/-- After a zero too many, the type read is not the type sent. -/
theorem misplaced_fields {m : Contents} {p : Nat} {post : List Bytes}
    (hpost : post = [] ∨ post = [[]]) (hsent : HoldsAt m p (encodeLabels post ++ queryFields)) :
    ¬ HoldsAt m p queryFields := by
  intro hread
  have htype : m (p + 1) = some 1 := hread.2.1
  have hzero : m (p + 1) = some 0 := by
    rcases hpost with rfl | rfl
    · exact hsent.2.1
    · exact hsent.2.1
  rw [hzero] at htype
  simp at htype

/-- Up to its first empty label a text is read as it was sent, and there the name ends. -/
theorem nameAt_early_end {m : Contents} {p : Nat} {pre post : List Bytes} {fields : Bytes}
    (hpre : ∀ l ∈ pre, Readable l)
    (hsent : HoldsAt m p (encodeLabels (pre ++ [] :: post) ++ fields)) :
    NameAt m p pre (p + (encodeLabels pre).length) ∧
      HoldsAt m (p + (encodeLabels pre).length) (encodeLabels post ++ fields) := by
  rw [encodeLabels_early_end, List.append_assoc, holdsAt_append] at hsent
  exact ⟨nameAt_encodeLabels hpre hsent.1, hsent.2⟩

/-- What is read as the text asked for has labels that can be read back. -/
theorem readable_of_read {m : Contents} {p e : Nat} {ls : List Bytes} (hname : NameAt m p ls e) :
    ∀ l ∈ textLabels (nameText ls), l ≠ [] → Readable l := by
  intro l hl hne
  refine ⟨List.length_pos_of_ne_nil hne, ?_⟩
  exact length_textLabel_le (fun k hk => (nameAt_readable hname k hk).2) l hl

/-- **An empty label is never read back.** -/
theorem no_empty_label_read {m : Contents} {p e : Nat} {ls : List Bytes} {text : Bytes}
    (hnoNul : (0 : UInt8) ∉ text)
    (hsent : HoldsAt m p (encodeLabels (textLabels text) ++ queryFields))
    (hname : NameAt m p ls e) (htext : nameText ls = withoutTrailingDot text)
    (hfields : HoldsAt m e queryFields) : [] ∉ textLabels text := by
  intro hempty
  obtain ⟨pre, post, hcut, hpre⟩ := List.eq_append_cons_of_mem hempty
  rw [hcut] at hsent
  have hread : ∀ l ∈ pre, Readable l := by
    intro l hl
    have hne : l ≠ [] := fun h => hpre (h ▸ hl)
    have hspelled : l ∈ spelledLabels text := by
      have hmem : l ∈ textLabels text := by
        rw [hcut]
        exact List.mem_append_left _ hl
      rcases spelledLabels_cases text with ⟨-, hlabels⟩ | ⟨-, hlabels⟩
      · rw [hlabels, List.mem_append, List.mem_singleton] at hmem
        exact hmem.resolve_right hne
      · rwa [hlabels] at hmem
    rw [spelledLabels, ← htext] at hspelled
    exact readable_of_read hname l hspelled hne
  obtain ⟨hname', hsent'⟩ := nameAt_early_end hread hsent
  obtain ⟨rfl, rfl⟩ := nameAt_det hname hname'
  -- what was read is `pre`, so nothing but the empty label can follow it
  have hspelled : spelledLabels text = textLabels (joined ls) := by
    have hlabelNul : ∀ l ∈ ls, (0 : UInt8) ∉ l := by
      intro l hl hmem
      have hin : l ∈ textLabels text := by
        rw [hcut]
        exact List.mem_append_left _ hl
      exact hnoNul ((Split.infix_of_mem_splitOn hin).subset hmem)
    rw [spelledLabels, ← htext, nameText_of_noNul hlabelNul]
  refine absurd hfields (misplaced_fields ?_ hsent')
  by_cases hls : ls = []
  · subst hls
    rw [show joined [] = [] from rfl, textLabels_nil] at hspelled
    rcases spelledLabels_cases text with ⟨-, hlabels⟩ | ⟨-, hlabels⟩
    · rw [hcut, hspelled] at hlabels
      exact Or.inr (List.cons.inj hlabels).2
    · rw [hcut, hspelled] at hlabels
      exact Or.inl (List.cons.inj hlabels).2
  · have hdot : ∀ l ∈ ls, dot ∉ l := by
      intro l hl
      have hin : l ∈ textLabels text := by
        rw [hcut]
        exact List.mem_append_left _ hl
      exact Split.not_mem_of_mem_splitOn hin
    rw [textLabels_joined hls hdot] at hspelled
    rcases spelledLabels_cases text with ⟨-, hlabels⟩ | ⟨-, hlabels⟩
    · rw [hcut, hspelled] at hlabels
      exact Or.inl (List.cons.inj (List.append_cancel_left hlabels)).2
    · rw [hcut, hspelled] at hlabels
      have hlength := congrArg List.length hlabels
      simp at hlength

/-- **A text is read back exactly when it is encodable.** -/
theorem questionReads_query_iff {m : Contents} {p : Nat} {text : Bytes}
    (hnoNul : (0 : UInt8) ∉ text)
    (hsent : HoldsAt m p (encodeLabels (textLabels text) ++ queryFields)) :
    (∃ q e, QuestionReads m p q e ∧ Asks q text) ↔ Encodable text := by
  refine ⟨?_, ?_⟩
  · intro h
    obtain ⟨q, -, ⟨ls, f, hname, hroom, hq, hfields, -⟩, hlabels, htype, hclass⟩ := h
    rw [htype, hclass] at hfields
    rw [hq] at hlabels
    have htext : nameText ls = withoutTrailingDot text := textLabels_inj hlabels
    have hempty := no_empty_label_read hnoNul hsent hname htext hfields
    have hsame : text = withoutTrailingDot text := by
      rcases spelledLabels_cases text with ⟨-, hsplit⟩ | ⟨hsame, -⟩
      · refine absurd ?_ hempty
        rw [hsplit]
        simp
      · exact hsame
    rw [← hsame] at htext
    refine ⟨?_, ?_⟩
    · intro l hl
      rw [← htext] at hl
      exact readable_of_read hname l hl fun h => hempty (by rw [← htext, ← h]; exact hl)
    · rw [← htext]
      exact length_nameText_of_fits hroom
  · intro h
    have hdotted := dotted_textLabels text
    refine ⟨{ qname := text, qtype := dnsTypeA, qclass := dnsClassIn }, _,
      ⟨textLabels text, _, nameAt_encodeLabels h.1 (holdsAt_append.mp hsent).1, ?_, ?_,
        (holdsAt_append.mp hsent).2, rfl⟩, h.spelledLabels_eq.symm, rfl, rfl⟩
    · have hshort := h.2
      rw [hdotted, List.length_append, List.length_singleton]
      unfold nameBufferSize
      omega
    · rw [nameText, hdotted, List.dropLast_concat, cstr_of_noNul hnoNul]

/-! ### The datagram -/

/-- The query made for a text parses as that query exactly when the text is encodable. -/
theorem parsesAsQuery_iff {al : Alloc} {rand : Nat} {text : Bytes} {pkt : DnsPacket}
    (hnoNul : (0 : UInt8) ∉ text) (hpkt : dnsCreateQueryPacket al rand text = some pkt)
    (pkt₀ : DnsPacket) (rest : Memory) :
    ParsesAsQuery pkt₀ (Memory.ofBytes (sendPacketBuffer pkt) rest) text ↔ Encodable text := by
  obtain ⟨-, han, hquestion⟩ := dnsCreateQueryPacket_fields hpkt
  have hno : ¬ 0 < pkt.header.ancount := by rw [han]; decide
  have hall := holdsAt_ofBytes (sendPacketBuffer pkt) rest
  generalize Memory.ofBytes (sendPacketBuffer pkt) rest = data at hall
  rw [sendPacketBuffer_eq, List.append_assoc, List.append_assoc, holdsAt_append,
    length_header_wire, hquestion] at hall
  obtain ⟨hheader, hsent⟩ := hall
  rw [← questionReads_query_iff hnoNul hsent]
  refine ⟨?_, ?_⟩
  · intro h
    obtain ⟨parsed, hsettles, hasks⟩ := h
    obtain ⟨-, -, ⟨-, e, hq, -⟩, -⟩ := dnsRequestParse_settles_iff.mp hsettles
    exact ⟨parsed.question, e, hq, hasks⟩
  · intro h
    obtain ⟨q, e, hq, hasks⟩ := h
    refine ⟨{ pkt with question := q, answer := pkt₀.answer }, ?_, hasks⟩
    exact dnsRequestParse_settles_iff.mpr ⟨rfl, fun hyes => absurd hyes hno,
      ⟨hheader, e, hq, fun hyes => absurd hyes hno⟩, fun _ => rfl⟩

theorem dnsSendPacket_eq_some {α : Type} {gSockfd : Int} {serverAddr : Option α}
    {pkt : DnsPacket} {sent : Bytes × α} :
    dnsSendPacket gSockfd serverAddr pkt = some sent ↔
      gSockfd ≠ -1 ∧ sent.1 = sendPacketBuffer pkt ∧ serverAddr = some sent.2 := by
  unfold dnsSendPacket
  by_cases hsock : gSockfd = -1
  · simp [hsock]
  · rw [if_neg hsock, Option.map_eq_some_iff]
    refine ⟨?_, ?_⟩
    · intro h
      obtain ⟨addr, haddr, rfl⟩ := h
      exact ⟨hsock, rfl, haddr⟩
    · intro h
      exact ⟨sent.2, h.2.2, by rw [← h.2.1]⟩

/--
**A query that leaves the server asks for its text exactly when the text is
encodable**: no label is empty or longer than 191 bytes, and the text is no longer
than 254.  Otherwise the query leaves only if there is no socket or no address to
send it to.
-/
theorem sent_query_asks_iff {α : Type} (text : Bytes) (hnoNul : (0 : UInt8) ∉ text) (al : Alloc)
    (rand : Nat) (pkt : DnsPacket) (hpkt : dnsCreateQueryPacket al rand text = some pkt)
    (gSockfd : Int) (serverAddr : Option α) (pkt₀ : DnsPacket) (rest : Memory) :
    (∀ msg addr, dnsSendPacket gSockfd serverAddr pkt = some (msg, addr) →
        ParsesAsQuery pkt₀ (Memory.ofBytes msg rest) text) ↔
      gSockfd = -1 ∨ serverAddr = none ∨ Encodable text := by
  refine ⟨?_, ?_⟩
  · intro h
    by_cases hsock : gSockfd = -1
    · exact Or.inl hsock
    · refine Or.inr ?_
      cases haddr : serverAddr with
      | none => exact Or.inl rfl
      | some addr =>
          have hparses := h _ addr (dnsSendPacket_eq_some.mpr ⟨hsock, rfl, haddr⟩)
          exact Or.inr ((parsesAsQuery_iff hnoNul hpkt pkt₀ rest).mp hparses)
  · intro h msg addr hsent
    obtain ⟨hsock, hmsg, haddr⟩ := dnsSendPacket_eq_some.mp hsent
    rcases h with h | h | h
    · exact absurd h hsock
    · rw [haddr] at h
      exact absurd h (Option.some_ne_none _)
    · rw [show msg = sendPacketBuffer pkt from hmsg]
      exact (parsesAsQuery_iff hnoNul hpkt pkt₀ rest).mpr h

theorem sent_query_asks_exampleCom :
    (0 : UInt8) ∉ ascii "example.com" ∧
    ∃ pkt, dnsCreateQueryPacket allocOk 7 (ascii "example.com") = some pkt ∧
      ((∀ msg addr, dnsSendPacket 3 (some "8.8.8.8") pkt = some (msg, addr) →
          ParsesAsQuery zeroPacket (Memory.ofBytes msg fun _ => 0) (ascii "example.com")) ↔
        (3 : Int) = -1 ∨ some "8.8.8.8" = none ∨ Encodable (ascii "example.com")) := by
  have hnoNul : (0 : UInt8) ∉ ascii "example.com" := by decide
  exact ⟨hnoNul, _, rfl, sent_query_asks_iff _ hnoNul allocOk 7 _ rfl 3 _ zeroPacket _⟩

/-- A doubled dot is sent, and does not come back as it was. -/
theorem doubled_dot_sent :
    ∃ pkt msg, dnsCreateQueryPacket allocOk 7 (ascii "www..com") = some pkt ∧
      dnsSendPacket 3 (some "8.8.8.8") pkt = some (msg, "8.8.8.8") ∧
      ¬ ParsesAsQuery zeroPacket (Memory.ofBytes msg fun _ => 0) (ascii "www..com") := by
  have hnoNul : (0 : UInt8) ∉ ascii "www..com" := by decide
  obtain ⟨pkt, hpkt⟩ : ∃ pkt, dnsCreateQueryPacket allocOk 7 (ascii "www..com") = some pkt :=
    ⟨_, rfl⟩
  refine ⟨pkt, _, hpkt, rfl, ?_⟩
  intro h
  have henc := (parsesAsQuery_iff hnoNul hpkt zeroPacket _).mp h
  have hempty : [] ∈ textLabels (ascii "www..com") := by decide
  exact absurd (henc.1 [] hempty).1 (by decide)

end DnsServer
