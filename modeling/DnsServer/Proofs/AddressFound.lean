/-
Whether an answer that contains an address is found to.

One record of an answer section is parsed, the first, and it is looked at without
its owner.  A response with an address for the name asked for is used for that
address exactly when its first record is an address too, and the same one.
-/
import DnsServer.Proofs.Forward
import DnsServer.Proofs.ForwardedQuestion
import DnsServer.Spec.Aliases

namespace DnsServer

open Call

variable {ε : Type}

/-! ### Addresses as text -/

theorem noDot_decimal (n : Nat) : dot ∉ ascii (toString n) :=
  fun hmem => absurd (decimal_digit hmem).1 (by decide)

theorem inetNtop_pieces {addr : Bytes} (h : addr ≠ []) :
    (inetNtop addr).splitOn dot = addr.map fun b => ascii (toString b.toNat) := by
  refine List.splitOn_intercalate dot ?_ (by simpa using h)
  intro piece hpiece
  obtain ⟨b, -, rfl⟩ := List.mem_map.mp hpiece
  exact noDot_decimal b.toNat

/-- Different addresses have different texts. -/
theorem inetNtop_inj {a b : Bytes} (ha : a ≠ []) (hb : b ≠ []) (h : inetNtop a = inetNtop b) :
    a = b := by
  have hmaps := congrArg (List.splitOn dot) h
  rw [inetNtop_pieces ha, inetNtop_pieces hb] at hmaps
  exact (List.map_injective_iff.mpr fun _ _ hbytes => UInt8.toNat_inj.mp (decimal_inj hbytes)) hmaps

theorem inetNtop_ne_nil {addr : Bytes} (h : addr ≠ []) : inetNtop addr ≠ [] := by
  intro hnil
  have hpieces := inetNtop_pieces h
  obtain ⟨b, rest, rfl⟩ := List.exists_cons_of_ne_nil h
  rw [hnil, List.splitOn_nil, List.map_cons, List.cons.injEq] at hpieces
  exact decimal_ne_nil _ hpieces.1.symm

/-! ### The response -/

/-- The four bytes taken for the address: the data, and the NUL after it. -/
def Record.address (r : Record) : Bytes := (r.rdata ++ [0]).take 4

/-- The query goes out, and the first response to come back to it is this message. -/
structure Answered (env : QueryEnv ε) (d : Name) (msg : Bytes) (m : Message) : Prop where
  goes : env.Goes
  wellFormed : WellFormed msg m
  id : m.header.id = UInt16.ofNat env.rand
  qr : m.header.qr = qrResponse
  question : ∃ q, m.questions = [q] ∧ q.name.Same d ∧ q.qtype = dnsTypeA ∧ q.qclass = dnsClassIn
  arrives : ∃ passed round rest sender, env.rounds = passed ++ round :: rest ∧
    (∀ r ∈ passed, r.InTime 5 env.startTime ∧ r.Passes (UInt16.ofNat env.rand)) ∧
    round.InTime 5 env.startTime ∧ round.arrival = .datagram sender msg ∧ round.al = allocOk

/-- The response is handed over with the first record of its answer section. -/
theorem Answered.firstResponse {env : QueryEnv ε} {d : Name} {msg : Bytes} {m : Message}
    (h : Answered env d msg m) (hancount : 1 ≤ m.header.ancount.toNat) :
    ∃ q first rs sender, m.answers = first :: rs ∧ env.FirstResponse sender
      { header := m.header, question := q, answer := first.toAnswer } := by
  obtain ⟨q₀, hq₀, -⟩ := h.question
  have hqdcount : m.header.qdcount = 1 := by
    have hone := h.wellFormed.qdcount
    rw [hq₀] at hone
    exact UInt16.toNat_inj.mp hone
  obtain ⟨q, first, rs, -, hfirst, hreads⟩ := h.wellFormed.packetReads hqdcount hancount
  obtain ⟨passed, round, rest, sender, hrounds, hpassed, htime, harrival, hal⟩ := h.arrives
  have hle := contents_le_recvBuffer h.wellFormed.short round.beyond
  have hsome : 0 < m.header.ancount := hancount
  refine ⟨q.toQuestion, first, rs, sender, hfirst, h.goes, passed, round, rest, hrounds, hpassed,
    htime, ⟨msg, harrival, hreads.mono hle⟩, ?_, ?_, h.id, h.qr⟩
  · rw [hal]
    exact ⟨rfl, fun _ => ⟨rfl, rfl⟩⟩
  · exact keeping_eq_iff.mpr fun hno => absurd hsome hno

/-- What is stored is the first record's address, if it is one. -/
theorem Answered.stored_iff {env : QueryEnv ε} {d : Name} {msg : Bytes} {m : Message}
    (h : Answered env d msg m) {first : Record} {rs : List Record}
    (hanswers : m.answers = first :: rs) {ip : Bytes} (hip : ip ≠ []) :
    Settles (fun fuel => forwardedAddress fuel d.text env) (done ip) ↔
      first.type = dnsTypeA ∧ 3 ≤ first.rdata.length ∧ ip = inetNtop first.address := by
  have hancount : 1 ≤ m.header.ancount.toNat := by
    rw [h.wellFormed.ancount, hanswers]
    exact Nat.succ_pos _
  obtain ⟨q, first', rs', sender, hfirst, hresponse⟩ := h.firstResponse hancount
  rw [hanswers, List.cons.injEq] at hfirst
  obtain ⟨rfl, -⟩ := hfirst
  have hfound : Settles (fun fuel => dnsQueryDomain fuel d.text env) (done (some _)) :=
    dnsQueryDomain_settles_iff.mpr hresponse
  have hsome : 0 < m.header.ancount := hancount
  have hlong : 4 ≤ (first.rdata ++ [0]).length ↔ 3 ≤ first.rdata.length := by
    rw [List.length_append, List.length_singleton]
    omega
  rw [forwardedAddress_settles_iff]
  refine ⟨?_, ?_⟩
  · intro hstored
    obtain ⟨found, hfound', hip'⟩ := hstored
    rw [done.inj (hfound'.unique hfound)] at hip'
    have haddress := (handleDnsResponse_eq_iff hip).mp hip'
    exact ⟨haddress.type, hlong.mp haddress.long, haddress.eq⟩
  · intro hfirst
    obtain ⟨htype, hlength, heq⟩ := hfirst
    exact ⟨_, hfound, (handleDnsResponse_eq_iff hip).mpr ⟨hsome, htype, hlong.mpr hlength, heq⟩⟩

/--
**An address in the answer is found exactly when it comes first.**  Of a response
with an address for the name asked for, such an address ends up in the buffer if
and only if the first record of the answer section is an address, and one of such
a record too.
-/
theorem address_found_iff (env : QueryEnv ε) (d : Name) (msg : Bytes) (m : Message)
    (h : Answered env d msg m) (hthere : ∃ r, AddressFor msg m d r) :
    (∃ r, AddressFor msg m d r ∧
        Settles (fun fuel => forwardedAddress fuel d.text env) (done (inetNtop r.rdata))) ↔
      ∃ first rs, m.answers = first :: rs ∧ first.type = dnsTypeA ∧
        ∃ r, AddressFor msg m d r ∧ first.address = r.rdata := by
  obtain ⟨r₀, hr₀⟩ := hthere
  obtain ⟨first, rs, hanswers⟩ := List.exists_cons_of_ne_nil (List.ne_nil_of_mem hr₀.answer)
  have hstored : ∀ r, AddressFor msg m d r →
      (Settles (fun fuel => forwardedAddress fuel d.text env) (done (inetNtop r.rdata)) ↔
        first.type = dnsTypeA ∧ first.address = r.rdata) := by
    intro r hr
    have hne : r.rdata ≠ [] := List.ne_nil_of_length_pos (by rw [hr.short]; omega)
    rw [h.stored_iff hanswers (inetNtop_ne_nil hne)]
    refine ⟨?_, ?_⟩
    · intro hall
      obtain ⟨htype, hlong, heq⟩ := hall
      have haddress : first.address ≠ [] := by
        apply List.ne_nil_of_length_pos
        simp [Record.address]
      exact ⟨htype, inetNtop_inj haddress hne heq.symm⟩
    · intro hall
      obtain ⟨htype, heq⟩ := hall
      refine ⟨htype, ?_, by rw [heq]⟩
      have hlen := congrArg List.length heq
      rw [hr.short, Record.address, List.length_take, List.length_append,
        List.length_singleton] at hlen
      omega
  refine ⟨?_, ?_⟩
  · intro hfound
    obtain ⟨r, hr, hsettles⟩ := hfound
    obtain ⟨htype, heq⟩ := (hstored r hr).mp hsettles
    exact ⟨first, rs, hanswers, htype, r, hr, heq⟩
  · intro hfirst
    obtain ⟨first', rs', hanswers', htype, r, hr, heq⟩ := hfirst
    rw [hanswers, List.cons.injEq] at hanswers'
    obtain ⟨rfl, -⟩ := hanswers'
    exact ⟨r, hr, (hstored r hr).mpr ⟨htype, heq⟩⟩

/-! ### An alias before the address -/

theorem RecordIn.mem {m : Contents} {p f : Nat} {rs : List Record} {r : Record}
    (h : RecordIn m p rs r f) : r ∈ rs := by
  induction h with
  | head => exact List.mem_cons_self
  | tail _ _ ih => exact List.mem_cons_of_mem _ ih

def wwwExampleCom : Name where
  labels :=
    { bytes := [119, 119, 119], nonempty := by decide, le63 := by decide
      noNul := by decide, noDot := by decide } :: exampleCom.labels
  short := by decide

/-- `example.com` is an alias of `www.example.com`, written as a label and a pointer. -/
def aliasRecord : Record :=
  { name := exampleCom, type := dnsTypeCname, rclass := dnsClassIn, ttl := 60
    rdata := [3, 119, 119, 119, 0xC0, 12], short := by decide }

theorem aliasedAddress_short : ([93, 184, 216, 34] : Bytes).length < 65536 := by decide

def aliasedAddress : Record :=
  { name := wwwExampleCom, type := dnsTypeA, rclass := dnsClassIn, ttl := 60
    rdata := [93, 184, 216, 34], short := aliasedAddress_short }

/-- The question, the alias, and the address of what it stands for. -/
def aliasResponse : Bytes :=
  { responseHeader with ancount := 2 }.wire ++ questionSection exampleCom.raw dnsTypeA dnsClassIn ++
    ([0xC0, 12] ++ aliasRecord.fields) ++ ([0xC0, 41] ++ aliasedAddress.fields)

def aliasMessage : Message :=
  { header := { responseHeader with ancount := 2 }
    questions := [{ name := exampleCom, qtype := dnsTypeA, qclass := dnsClassIn }]
    answers := [aliasRecord, aliasedAddress], authorities := [], additionals := [] }

theorem aliasResponse_question :
    NameAt aliasResponse.contents 12 exampleCom.raw 25 ∧
      QuestionsAt aliasResponse.contents headerSize aliasMessage.questions 29 := by
  have hname : NameAt aliasResponse.contents 12 exampleCom.raw 25 :=
    nameAt_encode exampleCom_encodes (by decide)
  exact ⟨hname, QuestionsAt.cons hname (by decide) (QuestionsAt.nil _)⟩

theorem aliasResponse_owner : NameAt aliasResponse.contents 29 aliasRecord.name.raw 31 :=
  NameAt.pointer rfl (by decide) rfl aliasResponse_question.1

theorem aliasResponse_target : NameAt aliasResponse.contents 41 wwwExampleCom.raw 47 :=
  NameAt.label rfl (by decide) (by decide) rfl (by decide)
    (NameAt.pointer rfl (by decide) rfl aliasResponse_question.1)

theorem aliasResponse_wellFormed : WellFormed aliasResponse aliasMessage := by
  refine ⟨by decide, by decide, rfl, rfl, rfl, rfl, 29, 63, 63, aliasResponse_question.2, ?_,
    RecordsAt.nil _, RecordsAt.nil _⟩
  refine RecordsAt.cons aliasResponse_owner (by decide) ?_
  refine RecordsAt.cons (NameAt.pointer rfl (by decide) rfl aliasResponse_target) (by decide) ?_
  exact RecordsAt.nil _

theorem aliased_addressFor : AddressFor aliasResponse aliasMessage exampleCom aliasedAddress := by
  have hstep : Alias aliasResponse aliasMessage exampleCom wwwExampleCom :=
    ⟨aliasRecord, 41, ⟨29, aliasResponse_question.2, RecordIn.head aliasResponse_owner⟩, rfl,
      Name.Same.refl _, aliasResponse_target⟩
  refine ⟨by simp [aliasMessage], rfl, rfl, rfl, Or.inr ⟨wwwExampleCom, ⟨?_, ?_⟩,
    Name.Same.refl _⟩⟩
  · exact Relation.ReflTransGen.single hstep
  · intro y hy
    obtain ⟨r, f, ⟨p, -, hin⟩, htype, hsame, -⟩ := hy
    have hmem := hin.mem
    simp only [aliasMessage, List.mem_cons, List.not_mem_nil, or_false] at hmem
    rcases hmem with rfl | rfl
    · unfold Name.Same at hsame
      exact absurd hsame (by decide)
    · exact absurd htype (by decide)

def aliasEnv : QueryEnv Nat :=
  { querySocket := some 3, al := allocOk, rand := 7, serverAddr := some 0, sends := true
    startTime := 0
    rounds := [{ now := 0, arrival := .datagram 0 aliasResponse, al := allocOk
                 beyond := fun _ => 0, responsePkt := zeroPacket }] }

theorem aliasEnv_answered : Answered aliasEnv exampleCom aliasResponse aliasMessage where
  goes := ⟨by simp [aliasEnv], rfl, rfl, by simp [aliasEnv], rfl⟩
  wellFormed := aliasResponse_wellFormed
  id := rfl
  qr := rfl
  question := ⟨_, rfl, Name.Same.refl _, rfl, rfl⟩
  arrives := by
    refine ⟨[], _, [], 0, rfl, by simp, ?_, rfl, rfl⟩
    show (0 : Int) - 0 < 5
    omega

theorem address_found_aliased :
    (∃ r, AddressFor aliasResponse aliasMessage exampleCom r) ∧
    ((∃ r, AddressFor aliasResponse aliasMessage exampleCom r ∧
        Settles (fun fuel => forwardedAddress fuel exampleCom.text aliasEnv)
          (done (inetNtop r.rdata))) ↔
      ∃ first rs, aliasMessage.answers = first :: rs ∧ first.type = dnsTypeA ∧
        ∃ r, AddressFor aliasResponse aliasMessage exampleCom r ∧ first.address = r.rdata) :=
  ⟨⟨_, aliased_addressFor⟩, address_found_iff aliasEnv exampleCom aliasResponse aliasMessage
    aliasEnv_answered ⟨_, aliased_addressFor⟩⟩

/-- With the alias first, the address is not found. -/
theorem aliased_address_missed :
    Answered aliasEnv exampleCom aliasResponse aliasMessage ∧
    AddressFor aliasResponse aliasMessage exampleCom aliasedAddress ∧
    ¬ ∃ r, AddressFor aliasResponse aliasMessage exampleCom r ∧
      Settles (fun fuel => forwardedAddress fuel exampleCom.text aliasEnv)
        (done (inetNtop r.rdata)) := by
  refine ⟨aliasEnv_answered, aliased_addressFor, ?_⟩
  intro h
  obtain ⟨r, hr, hsettles⟩ := h
  have hne : r.rdata ≠ [] := List.ne_nil_of_length_pos (by rw [hr.short]; omega)
  have htype := ((aliasEnv_answered.stored_iff rfl (inetNtop_ne_nil hne)).mp hsettles).1
  exact absurd htype (by decide)

end DnsServer
