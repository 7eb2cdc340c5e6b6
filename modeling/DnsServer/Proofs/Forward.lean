/-
Which response is used.

`dns_wait_response` takes the first datagram that parses with the id of the query
and the bit that marks a response.  Neither its sender nor its question is looked
at, there or later, so the address cached for a name is the one in the first such
datagram's answer, if that is an address.
-/
import DnsServer.Code.Forward
import DnsServer.Proofs.Agreement
import DnsServer.Proofs.Decimal
import DnsServer.Proofs.Response
import DnsServer.Proofs.Truncated
import Mathlib.Data.List.TakeWhile

namespace DnsServer

open Call

variable {ε : Type}

/-! ### The wait -/

/-- The round is met before the time is over. -/
def Round.InTime (round : Round ε) (timeoutSec startTime : Int) : Prop :=
  round.now - startTime < timeoutSec

/-- The round brings this response: from anybody, read from what was received, with the query's
id and marked as a response. -/
structure Round.Brings (round : Round ε) (queryId : UInt16) (sender : ε) (pkt : DnsPacket) :
    Prop where
  datagram : ∃ bytes, round.arrival = .datagram sender bytes ∧
    PacketReads (recvBuffer bytes round.beyond).contents pkt
  allocates : Allocates round.al pkt
  keeping : pkt.keeping round.responsePkt = pkt
  id : pkt.header.id = queryId
  qr : pkt.header.qr = qrResponse

/-- The round is gone through with no response and no failure. -/
def Round.Passes (round : Round ε) (queryId : UInt16) : Prop :=
  match round.arrival with
  | .interrupted => True
  | .nothing => True
  | .failed => False
  | .datagram _ bytes =>
      Settles (fun fuel => waitTurn fuel round.al round.beyond queryId round.responsePkt bytes)
        (done none)

/-- The response comes in a round in time, after rounds in time that pass. -/
def FirstResponse (queryId : UInt16) (timeoutSec startTime : Int) (rounds : List (Round ε))
    (sender : ε) (pkt : DnsPacket) : Prop :=
  ∃ passed round rest, rounds = passed ++ round :: rest ∧
    (∀ r ∈ passed, r.InTime timeoutSec startTime ∧ r.Passes queryId) ∧
    round.InTime timeoutSec startTime ∧ round.Brings queryId sender pkt

theorem waitTurn_mono (al : Alloc) (beyond : Memory) (queryId : UInt16) (pkt₀ : DnsPacket)
    (datagram : Bytes) : Mono (fun fuel => waitTurn fuel al beyond queryId pkt₀ datagram) := by
  simp only [waitTurn_eq]
  exact Mono.bind (dnsRequestParse_mono al pkt₀ _) fun _ => Mono.const _

theorem dnsWaitResponse_mono (queryId : UInt16) (timeoutSec startTime : Int)
    (rounds : List (Round ε)) :
    Mono (fun fuel => dnsWaitResponse fuel queryId timeoutSec startTime rounds) := by
  induction rounds with
  | nil => exact Mono.const _
  | cons round rounds ih =>
      simp only [dnsWaitResponse]
      split
      · rcases round.arrival with _ | _ | _ | ⟨sender, bytes⟩
        · exact ih
        · exact ih
        · exact Mono.const _
        · refine Mono.bind (waitTurn_mono _ _ _ _ _) ?_
          intro found
          rcases found with _ | pkt
          · exact ih
          · exact Mono.const _
      · exact Mono.const _

theorem Round.brings_iff {round : Round ε} {queryId : UInt16} {sender sender' : ε}
    {bytes : Bytes} {pkt : DnsPacket} (harrival : round.arrival = .datagram sender' bytes) :
    round.Brings queryId sender pkt ↔ sender' = sender ∧
      Settles (fun fuel => waitTurn fuel round.al round.beyond queryId round.responsePkt bytes)
        (done (some pkt)) := by
  rw [waitTurn_accepts_iff]
  refine ⟨?_, ?_⟩
  · intro h
    obtain ⟨bytes', hbytes, hreads⟩ := h.datagram
    rw [harrival, Arrival.datagram.injEq] at hbytes
    obtain ⟨hsender, rfl⟩ := hbytes
    exact ⟨hsender, h.allocates, hreads, h.keeping, h.id, h.qr⟩
  · intro h
    obtain ⟨rfl, hal, hreads, hkeep, hid, hqr⟩ := h
    exact ⟨⟨bytes, harrival, hreads⟩, hal, hkeep, hid, hqr⟩

theorem Round.not_brings {round : Round ε} {queryId : UInt16} {sender : ε} {pkt : DnsPacket}
    (harrival : ∀ sender bytes, round.arrival ≠ .datagram sender bytes) :
    ¬ round.Brings queryId sender pkt := by
  intro h
  obtain ⟨bytes, hbytes, -⟩ := h.datagram
  exact harrival sender bytes hbytes

/-- What one round does to the wait. -/
theorem dnsWaitResponse_cons {queryId : UInt16} {timeoutSec startTime : Int} {round : Round ε}
    {rounds : List (Round ε)} {sender : ε} {pkt : DnsPacket} :
    Settles (fun fuel => dnsWaitResponse fuel queryId timeoutSec startTime (round :: rounds))
        (done (some (sender, pkt))) ↔
      round.InTime timeoutSec startTime ∧
        (round.Brings queryId sender pkt ∨ (round.Passes queryId ∧
          Settles (fun fuel => dnsWaitResponse fuel queryId timeoutSec startTime rounds)
            (done (some (sender, pkt))))) := by
  unfold Round.InTime Round.Passes
  simp only [dnsWaitResponse]
  by_cases htime : round.now - startTime < timeoutSec
  · simp only [if_pos htime]
    simp only [htime, true_and]
    rcases harrival : round.arrival with _ | _ | _ | ⟨sender', bytes⟩
    · have hnone : ¬ round.Brings queryId sender pkt := Round.not_brings (by simp [harrival])
      simp only [hnone, false_or, true_and]
    · have hnone : ¬ round.Brings queryId sender pkt := Round.not_brings (by simp [harrival])
      simp only [hnone, false_or, true_and]
    · have hnone : ¬ round.Brings queryId sender pkt := Round.not_brings (by simp [harrival])
      simp only [hnone, false_or, false_and, Settles.const_iff]
      simp
    · rw [Round.brings_iff harrival]
      refine (Settles.bind_iff (waitTurn_mono _ _ _ _ _) ?_).trans ⟨?_, ?_⟩
      · intro found
        rcases found with _ | pkt
        · exact dnsWaitResponse_mono queryId timeoutSec startTime rounds
        · exact Mono.const _
      · intro h
        obtain ⟨found, hfound, hgoes⟩ := h
        rcases found with _ | pkt'
        · exact Or.inr ⟨hfound, hgoes⟩
        · have hsame := Settles.const_iff.mp hgoes
          simp only [done.injEq, Option.some.injEq, Prod.mk.injEq] at hsame
          obtain ⟨rfl, rfl⟩ := hsame
          exact Or.inl ⟨rfl, hfound⟩
      · intro h
        rcases h with ⟨rfl, hfound⟩ | ⟨hfound, hgoes⟩
        · exact ⟨some pkt, hfound, Settles.const_iff.mpr rfl⟩
        · exact ⟨none, hfound, hgoes⟩
  · simp only [if_neg htime]
    simp only [htime, false_and, Settles.const_iff]
    simp

/-- **The wait hands over the first response**, whoever sent it and whatever it was asked. -/
theorem dnsWaitResponse_settles_iff {queryId : UInt16} {timeoutSec startTime : Int}
    {rounds : List (Round ε)} {sender : ε} {pkt : DnsPacket} :
    Settles (fun fuel => dnsWaitResponse fuel queryId timeoutSec startTime rounds)
        (done (some (sender, pkt))) ↔
      FirstResponse queryId timeoutSec startTime rounds sender pkt := by
  unfold FirstResponse
  induction rounds with
  | nil => simp [dnsWaitResponse, Settles.const_iff]
  | cons round rounds ih =>
      rw [dnsWaitResponse_cons, ih]
      refine ⟨?_, ?_⟩
      · intro h
        obtain ⟨htime, hbrings | ⟨hpasses, passed, r, rest, rfl, hall, hr⟩⟩ := h
        · exact ⟨[], round, rounds, rfl, by simp, htime, hbrings⟩
        · refine ⟨round :: passed, r, rest, rfl, ?_, hr⟩
          intro r' hr'
          rcases List.mem_cons.mp hr' with rfl | hmem
          · exact ⟨htime, hpasses⟩
          · exact hall r' hmem
      · intro h
        obtain ⟨passed, r, rest, heq, hall, htime, hbrings⟩ := h
        rcases passed with _ | ⟨first, passed⟩
        · rw [List.nil_append, List.cons.injEq] at heq
          obtain ⟨rfl, rfl⟩ := heq
          exact ⟨htime, Or.inl hbrings⟩
        · rw [List.cons_append, List.cons.injEq] at heq
          obtain ⟨rfl, rfl⟩ := heq
          obtain ⟨hfirst, hpasses⟩ := hall round List.mem_cons_self
          exact ⟨hfirst, Or.inr ⟨hpasses, passed, r, rest, rfl,
            fun r' hr' => hall r' (List.mem_cons_of_mem round hr'), htime, hbrings⟩⟩

/-! ### The query -/

/-- The query is made and sent. -/
def QueryEnv.Goes (env : QueryEnv ε) : Prop :=
  env.querySocket ≠ none ∧ env.al 0 = true ∧ env.al 1 = true ∧ env.serverAddr ≠ none ∧
    env.sends = true

/-- The response to the query that went out. -/
def QueryEnv.FirstResponse (env : QueryEnv ε) (sender : ε) (pkt : DnsPacket) : Prop :=
  env.Goes ∧
    DnsServer.FirstResponse (UInt16.ofNat env.rand) 5 env.startTime env.rounds sender pkt

theorem dnsQueryDomain_goes {domainName : Bytes} {env : QueryEnv ε} (h : env.Goes) (fuel : Nat) :
    dnsQueryDomain fuel domainName env
      = dnsWaitResponse fuel (UInt16.ofNat env.rand) 5 env.startTime env.rounds := by
  obtain ⟨hsocket, hal, hal', hserver, hsends⟩ := h
  obtain ⟨gSockfd, hsocket⟩ := Option.ne_none_iff_exists'.mp hsocket
  obtain ⟨server, hserver⟩ := Option.ne_none_iff_exists'.mp hserver
  have hfd : ¬ (gSockfd : Int) = -1 := by omega
  unfold dnsQueryDomain dnsCreateQueryPacket dnsSendPacket
  simp only [hsocket, hal, hal', hserver, hsends, if_neg hfd, Option.map_some, Bool.not_true,
    Bool.false_eq_true, if_false, if_true]

theorem dnsQueryDomain_stays {domainName : Bytes} {env : QueryEnv ε} (h : ¬ env.Goes)
    (fuel : Nat) : dnsQueryDomain fuel domainName env = done none := by
  unfold dnsQueryDomain dnsCreateQueryPacket dnsSendPacket
  rcases hsocket : env.querySocket with _ | gSockfd
  · rfl
  rcases hal : env.al 0 with _ | _
  · rfl
  rcases hal' : env.al 1 with _ | _
  · rfl
  have hfd : ¬ (gSockfd : Int) = -1 := by omega
  rcases hserver : env.serverAddr with _ | server
  · simp only [Bool.not_true, Bool.false_eq_true, if_false, if_neg hfd, Option.map_none]
  · rcases hsends : env.sends with _ | _
    · simp only [Bool.not_true, Bool.false_eq_true, if_false, if_neg hfd, Option.map_some]
    · refine absurd ⟨?_, hal, hal', ?_, hsends⟩ h
      · rw [hsocket]
        simp
      · rw [hserver]
        simp

theorem dnsQueryDomain_settles_iff {domainName : Bytes} {env : QueryEnv ε} {sender : ε}
    {pkt : DnsPacket} :
    Settles (fun fuel => dnsQueryDomain fuel domainName env) (done (some (sender, pkt))) ↔
      env.FirstResponse sender pkt := by
  by_cases hgoes : env.Goes
  · simp only [dnsQueryDomain_goes hgoes, dnsWaitResponse_settles_iff, QueryEnv.FirstResponse,
      hgoes, true_and]
  · simp only [dnsQueryDomain_stays hgoes, Settles.const_iff, QueryEnv.FirstResponse, hgoes,
      false_and]
    simp

theorem dnsQueryDomain_mono (domainName : Bytes) (env : QueryEnv ε) :
    Mono (fun fuel => dnsQueryDomain fuel domainName env) := by
  by_cases hgoes : env.Goes
  · simp only [dnsQueryDomain_goes hgoes]
    exact dnsWaitResponse_mono _ _ _ _
  · simp only [dnsQueryDomain_stays hgoes]
    exact Mono.const _

/-- The packet's answer is an address, and this is its text. -/
structure AddressOf (pkt : DnsPacket) (ip : Bytes) : Prop where
  ancount : 0 < pkt.header.ancount
  type : pkt.answer.type = dnsTypeA
  long : 4 ≤ (pkt.answer.rdata ++ [0]).length
  eq : ip = inetNtop ((pkt.answer.rdata ++ [0]).take 4)

theorem handleDnsResponse_done {pkt : DnsPacket} {ip : Bytes}
    (h : handleDnsResponse pkt [] = done ip) : ip = [] ∨ AddressOf pkt ip := by
  unfold handleDnsResponse at h
  by_cases hanswer : 0 < pkt.header.ancount ∧ pkt.answer.type = dnsTypeA
  · rw [if_pos hanswer] at h
    by_cases hshort : (pkt.answer.rdata ++ [0]).length < 4
    · simp only [if_pos hshort] at h
      simp at h
    · simp only [if_neg hshort, done.injEq] at h
      exact Or.inr ⟨hanswer.1, hanswer.2, by omega, h.symm⟩
  · rw [if_neg hanswer, done.injEq] at h
    exact Or.inl h.symm

/-- What is not empty was stored, and is the address of the answer. -/
theorem handleDnsResponse_eq_iff {pkt : DnsPacket} {ip : Bytes} (hip : ip ≠ []) :
    handleDnsResponse pkt [] = done ip ↔ AddressOf pkt ip := by
  refine ⟨fun h => (handleDnsResponse_done h).resolve_left hip, ?_⟩
  intro h
  unfold handleDnsResponse
  rw [if_pos ⟨h.ancount, h.type⟩]
  simp only [if_neg (Nat.not_lt.mpr h.long), h.eq]

/-- The handler of the response stores what there is to be stored. -/
theorem forwardedAddress_eq (domainName : Bytes) (env : QueryEnv ε) :
    (fun fuel => forwardedAddress fuel domainName env) = fun fuel =>
      dnsQueryDomain fuel domainName env >>= fun found =>
        found.elim (done []) fun response => handleDnsResponse response.2 [] := by
  funext fuel
  unfold forwardedAddress
  congr 1
  funext found
  rcases found with _ | response
  · rfl
  · rfl

theorem forwardedAddress_mono (domainName : Bytes) (env : QueryEnv ε) :
    Mono (fun fuel => forwardedAddress fuel domainName env) := by
  rw [forwardedAddress_eq]
  exact Mono.bind (dnsQueryDomain_mono domainName env) fun _ => Mono.const _

theorem forwardedAddress_settles_iff {domainName : Bytes} {env : QueryEnv ε} {ip : Bytes} :
    Settles (fun fuel => forwardedAddress fuel domainName env) (done ip) ↔
      ∃ found, Settles (fun fuel => dnsQueryDomain fuel domainName env) (done found) ∧
        found.elim (done []) (fun response => handleDnsResponse response.2 []) = done ip := by
  rw [forwardedAddress_eq, Settles.bind_iff
    (g := fun _ found => found.elim (done []) fun response => handleDnsResponse response.2 [])
    (dnsQueryDomain_mono domainName env) fun _ => Mono.const _]
  simp only [Settles.const_iff]

/-- An address that was forwarded is the one in the first response. -/
theorem forwardedAddress_settles {domainName : Bytes} {env : QueryEnv ε} {ip : Bytes}
    (h : Settles (fun fuel => forwardedAddress fuel domainName env) (done ip)) :
    ip = [] ∨ ∃ sender pkt, env.FirstResponse sender pkt ∧ AddressOf pkt ip := by
  obtain ⟨found, hfound, hstored⟩ := forwardedAddress_settles_iff.mp h
  rcases found with _ | ⟨sender, pkt⟩
  · exact Or.inl (done.inj hstored).symm
  · rcases handleDnsResponse_done hstored with hnone | haddress
    · exact Or.inl hnone
    · exact Or.inr ⟨sender, pkt, dnsQueryDomain_settles_iff.mp hfound, haddress⟩

/-! ### What is cached -/

/-- An address stored is a string. -/
theorem cstr_inetNtop (addr : Bytes) : cstr (inetNtop addr) = inetNtop addr := by
  refine cstr_self fun hmem => ?_
  rcases Split.mem_intercalate hmem with hsep | ⟨piece, hpiece, hin⟩
  · exact absurd hsep (by decide)
  · obtain ⟨b, -, rfl⟩ := List.mem_map.mp hpiece
    exact noNul_decimal b.toNat hin

/--
**The first response is used, whoever sent it.**  The response handed over on behalf
of a query is the one the first datagram parses to that has the query's id and is
marked as a response, from any sender and about any question; and what a request
that was not answered locally adds to the cache, under the name asked for, is the
address in such a response's answer.
-/
theorem forwarding_uses_first_response (env : QueryEnv ε) :
    (∀ domainName sender pkt,
      Settles (fun fuel => dnsQueryDomain fuel domainName env) (done (some (sender, pkt))) ↔
        env.FirstResponse sender pkt) ∧
    ∀ root cache cache₁ cache' request response,
      Settles (fun fuel => retriveValue fuel root request.query request.calls cache)
        (done (none, cache₁)) →
      Settles (fun fuel => forwardedAddress fuel request.query env) (done request.forwarded) →
      Settles (fun fuel => handleClient fuel root cache request) (done (response, cache')) →
      cache' = cache ∨ cache' = cache₁ ∨
        ∃ sender pkt ip, env.FirstResponse sender pkt ∧ AddressOf pkt ip ∧
          response = some ip ∧
          cache' = addCacheEntry request.addNow cache₁ (dnsCreateNewEntry request.query ip) := by
  refine ⟨fun domainName sender pkt => dnsQueryDomain_settles_iff, ?_⟩
  intro root cache cache₁ cache' request response hmiss hforward hhandled
  obtain ⟨enough, henough⟩ := hhandled
  rcases handleClient_cases (henough enough (Nat.le_refl _)) with
    hsame | ⟨found, cache₂, hfound, hadded⟩
  · exact Or.inl hsame
  have hlocal : done (found, cache₂) = done (none, cache₁) :=
    Settles.unique ((retriveValue_mono _ _ _ _).settles_done enough hfound) hmiss
  rw [done.injEq, Prod.mk.injEq] at hlocal
  obtain ⟨rfl, rfl⟩ := hlocal
  rcases hadded with ⟨entry, hsome, -⟩ | ⟨-, -, -, hcache⟩ | ⟨-, hip, hresponse, hcache⟩
  · simp at hsome
  · exact Or.inr (Or.inl hcache)
  · rcases forwardedAddress_settles hforward with hnone | ⟨sender, pkt, hfirst, haddress⟩
    · rw [hnone] at hip
      exact absurd rfl hip
    · have hcstr : cstr request.forwarded = request.forwarded := by
        rw [haddress.eq, cstr_inetNtop]
      rw [hcstr] at hresponse hcache
      exact Or.inr (Or.inr ⟨sender, pkt, _, hfirst, haddress, hresponse, hcache⟩)

/-! ### A reply nobody was asked for -/

/-- A zone is loaded for none of the names asked for here. -/
def emptyTrie : TrieNode :=
  { label := ascii "root", childrens := [], records := [], soa := none, ns := none }

/-- Server 0 is asked, and this sender answers about `example.com`. -/
def answeredEnv (sender : Nat) : QueryEnv Nat :=
  { querySocket := some 3, al := allocOk, rand := 7, serverAddr := some 0, sends := true
    startTime := 0
    rounds := [{ now := 0, arrival := .datagram sender exampleResponse, al := allocOk
                 beyond := fun _ => 0, responsePkt := zeroPacket }] }

/-- A request that comes to the address answered. -/
def answeredRequest (domainName : Bytes) : ClientRequest :=
  { sent := some domainName
    calls := fun _ => { cleanNow := 0, touchNow := 0, entryNow := 0, coin := true }
    forwarded := ascii "93.184.216.34", addNow := 0 }

theorem answered_firstResponse (sender : Nat) :
    ∃ pkt, (answeredEnv sender).FirstResponse sender pkt ∧
      pkt.question.qname = ascii "example.com" ∧ pkt.answer.ttl = 60 ∧
      handleDnsResponse pkt [] = done (ascii "93.184.216.34") := by
  obtain ⟨q, r, rs, hq, hr, hreads⟩ := exampleResponse_wellFormed.packetReads rfl (by decide)
  obtain ⟨rfl, -⟩ := List.cons.inj hq
  obtain ⟨rfl, -⟩ := List.cons.inj hr
  have hle : Contents.Le exampleResponse.contents
      (recvBuffer exampleResponse fun _ => 0).contents := contents_le_recvBuffer (by decide) _
  refine ⟨_, ⟨⟨by simp [answeredEnv], rfl, rfl, by simp [answeredEnv], rfl⟩, [], _, [], rfl, ?_, ?_,
    ⟨exampleResponse, rfl, hreads.mono hle⟩, ⟨rfl, fun _ => ⟨rfl, rfl⟩⟩, rfl, rfl, rfl⟩,
    rfl, rfl, rfl⟩
  · simp
  · show (0 : Int) - 0 < 5
    omega

theorem answered_forwarded (sender : Nat) (domainName : Bytes) :
    Settles (fun fuel => forwardedAddress fuel domainName (answeredEnv sender))
      (done (answeredRequest domainName).forwarded) := by
  obtain ⟨pkt, hfirst, -, -, haddress⟩ := answered_firstResponse sender
  exact forwardedAddress_settles_iff.mpr
    ⟨some (sender, pkt), dnsQueryDomain_settles_iff.mpr hfirst, haddress⟩

theorem answered_handled : ∃ cache₁,
    Settles (fun fuel => retriveValue fuel emptyTrie (answeredRequest (ascii "other.test")).query
      (answeredRequest (ascii "other.test")).calls initializeDNSCache) (done (none, cache₁)) ∧
    Settles (fun fuel => handleClient fuel emptyTrie initializeDNSCache
      (answeredRequest (ascii "other.test")))
      (done (some (ascii "93.184.216.34"), addCacheEntry 0 cache₁
        (dnsCreateNewEntry (ascii "other.test") (ascii "93.184.216.34")))) :=
  ⟨_, (retriveValue_mono _ _ _ _).settles_done 3 rfl,
    (handleClient_mono _ _ _).settles_done 3 rfl⟩

/-- A response from a sender that was not asked, about a name that was not asked for, is
used, and its address is cached. -/
theorem spoofed_reply_cached :
    (∃ pkt, Settles (fun fuel => dnsQueryDomain fuel (ascii "other.test") (answeredEnv 1))
        (done (some (1, pkt))) ∧
      (answeredEnv 1).serverAddr ≠ some 1 ∧ pkt.question.qname ≠ ascii "other.test") ∧
    Settles (fun fuel => forwardedAddress fuel (ascii "other.test") (answeredEnv 1))
      (done (answeredRequest (ascii "other.test")).forwarded) ∧
    ∃ cache₁, Settles (fun fuel => handleClient fuel emptyTrie initializeDNSCache
      (answeredRequest (ascii "other.test")))
      (done (some (ascii "93.184.216.34"), addCacheEntry 0 cache₁
        (dnsCreateNewEntry (ascii "other.test") (ascii "93.184.216.34")))) := by
  obtain ⟨pkt, hfirst, hqname, -, -⟩ := answered_firstResponse 1
  obtain ⟨cache₁, -, hhandled⟩ := answered_handled
  refine ⟨⟨pkt, dnsQueryDomain_settles_iff.mpr hfirst, by simp [answeredEnv], ?_⟩,
    answered_forwarded 1 _, cache₁, hhandled⟩
  rw [hqname]
  decide

/-- What was cached then is from the first response, as everywhere. -/
theorem forwarding_uses_first_response_spoofed : ∃ cache₁ cache',
    cache' = initializeDNSCache ∨ cache' = cache₁ ∨
      ∃ sender pkt ip, (answeredEnv 1).FirstResponse sender pkt ∧ AddressOf pkt ip ∧
        some (ascii "93.184.216.34") = some ip ∧
        cache' = addCacheEntry 0 cache₁ (dnsCreateNewEntry (ascii "other.test") ip) := by
  obtain ⟨cache₁, hmiss, hhandled⟩ := answered_handled
  exact ⟨cache₁, _, (forwarding_uses_first_response (answeredEnv 1)).2 emptyTrie
    initializeDNSCache cache₁ _ _ _ hmiss (answered_forwarded 1 _) hhandled⟩

end DnsServer
