/-
What a failed forward leaves behind.

Whether forwarding came to an address is told by the first byte of a buffer that was
zero when it began.  Only the handler of the response writes there, it is called only
with a response that was accepted, and it writes only for an answer of type A.  So on
every other course the byte is still zero, the request adds nothing, and the cache is
what the lookups before have left of it: since they found nothing, its entries that had
not lived their time.

The name asked for is not among them, and only an addition would bring it there.
-/
import DnsServer.Proofs.AskedName
import DnsServer.Proofs.Zones

namespace DnsServer

open Call Runs

variable {root : TrieNode} {cache cache' : DNSCache} {d : Bytes} {ε : Type}

/-! ### The cache after a name was not found -/

/-- The cache cleaned at the first `n` of these calls, one after another. -/
def cleanedAt (calls : Nat → CallEnv) (n : Nat) (cache : DNSCache) : DNSCache :=
  (List.range n).foldl (fun cache i => dnsCacheCleanUp (calls i).cleanNow cache) cache

theorem cleanedAt_succ (calls : Nat → CallEnv) (n : Nat) (cache : DNSCache) :
    cleanedAt calls (n + 1) cache
      = cleanedAt (fun i => calls (i + 1)) n (dnsCacheCleanUp (calls 0).cleanNow cache) := by
  unfold cleanedAt
  rw [List.range_succ_eq_map, List.foldl_cons, List.foldl_map]

/-- Calls that find nothing clean the cache, one after another, and do nothing else to it. -/
theorem Retrieves.cleaned {domainName : Bytes} {calls : Nat → CallEnv} {ops : List CacheOp}
    {found : Option CacheEntry} (h : Retrieves root domainName calls cache ops found cache')
    (hfound : found = none) : ∃ n, cache' = cleanedAt calls (n + 1) cache := by
  induction h with
  | cached _ => simp at hfound
  | record _ _ => simp at hfound
  | @missing domainName calls cache cache' hlookup _ =>
      refine ⟨0, ?_⟩
      rw [cleanedAt_succ]
      exact lookup_none_leaves hlookup
  | @redirect domainName calls cache cache₁ cache' ns ops found hlookup _ _ ih =>
      obtain ⟨n, hn⟩ := ih hfound
      refine ⟨n + 1, ?_⟩
      rw [cleanedAt_succ, ← lookup_none_leaves hlookup]
      exact hn

/-- Looking names up brings none into the cache. -/
theorem Retrieves.absent {domainName : Bytes} {calls : Nat → CallEnv} {ops : List CacheOp}
    {found : Option CacheEntry} (h : Retrieves root domainName calls cache ops found cache')
    (hfind : cache.find d = none) : cache'.find d = none := by
  have hstep : ∀ {cleanNow now : Int} {name : Bytes} {cache cache₁ : DNSCache}
      {answer : Option Bytes}, cache.find d = none →
      lookupDNSCache cleanNow now cache name = (cache₁, answer) → cache₁.find d = none := by
    intro cleanNow now name cache cache₁ answer habsent hlookup
    have hleft := find_lookup_absent habsent cleanNow now name
    rw [hlookup] at hleft
    exact hleft
  induction h with
  | cached hlookup => exact hstep hfind hlookup
  | record hlookup _ => exact hstep hfind hlookup
  | missing hlookup _ => exact hstep hfind hlookup
  | redirect hlookup _ _ ih => exact ih (hstep hfind hlookup)

/-- A name that was not found is not in the cache afterwards. -/
theorem Retrieves.absent_of_none {calls : Nat → CallEnv} {ops : List CacheOp}
    (h : Retrieves root d calls cache ops none cache') : cache'.find d = none := by
  rcases h with _ | _ | ⟨hlookup, _⟩ | ⟨hlookup, _, hrest⟩
  · exact find_of_lookup_none hlookup
  · exact hrest.absent (find_of_lookup_none hlookup)

/-! ### Later calls -/

/-- The call adds an entry for the name. -/
def CacheOp.adds (d : Bytes) : CacheOp → Prop
  | .add entry _ => entry.domainName = d
  | _ => False

/-- Only adding a name brings it into the cache. -/
theorem find_run_absent {op : CacheOp} (hfind : cache.find d = none) (hop : ¬ op.adds d) :
    (op.run cache).1.find d = none := by
  rcases op with _ | ⟨entry, now⟩ | ⟨domainName, cleanNow, now⟩ | now
  · rfl
  · show (addCacheEntry now cache entry).find d = none
    have hne : ¬ d = entry.domainName := fun heq => hop heq.symm
    rw [find_add, if_neg hne]
    exact hfind
  · exact find_lookup_absent hfind cleanNow now domainName
  · exact find_cleanUp_none now hfind

/-- After any calls that do not add the name, it is not in the cache. -/
theorem find_exec_absent {ops : List CacheOp} : ∀ {cache : DNSCache}, cache.find d = none →
    (∀ op ∈ ops, ¬ op.adds d) → (exec CacheOp.run cache ops).1.find d = none := by
  induction ops with
  | nil => intro cache hfind _; exact hfind
  | cons op ops ih =>
      intro cache hfind hops
      exact ih (find_run_absent hfind (hops op List.mem_cons_self))
        fun op' hop' => hops op' (List.mem_cons_of_mem op hop')

/-! ### Forwarding that comes to no address -/

/-- The ways in which forwarding fails to give an address. -/
inductive ForwardFails (env : QueryEnv ε) : Prop
  /-- The query is not made or not sent: `dns_query_domain` returns before it waits. -/
  | exits (h : ¬ env.Goes)
  /-- The time is over, or a call fails, before the response has come. -/
  | unanswered (hgoes : env.Goes)
      (h : Settles (fun fuel => dnsWaitResponse fuel (UInt16.ofNat env.rand) 5 env.startTime
        env.rounds) (done none))
  /-- The response has no answers. -/
  | empty {sender : ε} {response : DnsPacket} (hfirst : env.FirstResponse sender response)
      (h : response.header.ancount = 0)
  /-- The first answer has not type A. -/
  | other {sender : ε} {response : DnsPacket} (hfirst : env.FirstResponse sender response)
      (h : response.answer.type ≠ dnsTypeA)

theorem handleDnsResponse_leaves {response : DnsPacket} (ipStorage : Bytes)
    (h : response.header.ancount = 0 ∨ response.answer.type ≠ dnsTypeA) :
    handleDnsResponse response ipStorage = done ipStorage := by
  unfold handleDnsResponse
  rw [if_neg]
  intro hanswer
  rcases h with hzero | hother
  · rw [hzero] at hanswer
    exact absurd hanswer.1 (by decide)
  · exact hother hanswer.2

/-- Then the buffer is as it was. -/
theorem ForwardFails.settles {env : QueryEnv ε} (h : ForwardFails env) (domainName : Bytes) :
    Settles (fun fuel => forwardedAddress fuel domainName env) (done []) := by
  refine forwardedAddress_settles_iff.mpr ?_
  rcases h with hstays | ⟨hgoes, hwait⟩ | ⟨hfirst, hzero⟩ | ⟨hfirst, hother⟩
  · refine ⟨none, ?_, rfl⟩
    simp only [dnsQueryDomain_stays hstays]
    exact Settles.const_iff.mpr rfl
  · refine ⟨none, ?_, rfl⟩
    simp only [dnsQueryDomain_goes hgoes]
    exact hwait
  · exact ⟨_, dnsQueryDomain_settles_iff.mpr hfirst,
      handleDnsResponse_leaves [] (Or.inl hzero)⟩
  · exact ⟨_, dnsQueryDomain_settles_iff.mpr hfirst,
      handleDnsResponse_leaves [] (Or.inr hother)⟩

/-! ### The request -/

/-- The handler comes to look the request's name up. -/
structure ClientRequest.LooksUp (request : ClientRequest) : Prop where
  received : ∃ sent, request.sent = some sent ∧ sent.take bufferSize ≠ [] ∧
    (sent.take bufferSize).length ≠ bufferSize
  named : request.query ≠ ascii "trie"

theorem ClientRequest.LooksUp.handleClient_eq {request : ClientRequest} (h : request.LooksUp)
    (fuel : Nat) (root : TrieNode) (cache : DNSCache) :
    handleClient fuel root cache request
      = retriveValue fuel root request.query request.calls cache >>= fun result =>
          match result with
          | (some entry, cache) =>
              done (some entry.recordValue, addCacheEntry request.addNow cache entry)
          | (none, cache) =>
              if cstr request.forwarded = [] then done (some (ascii "Record not found"), cache)
              else done (some (cstr request.forwarded), addCacheEntry request.addNow cache
                (dnsCreateNewEntry request.query (cstr request.forwarded))) := by
  obtain ⟨⟨sent, hsent, hne, hfull⟩, hnamed⟩ := h
  have hquery : cstr (sent.take bufferSize) = request.query := by
    rw [ClientRequest.query, hsent, Option.getD_some]
  unfold handleClient
  simp only [hsent, if_neg hne, if_neg hfull, hquery, if_neg hnamed]
  congr 1
  funext result
  obtain ⟨_ | entry, cache⟩ := result
  · rfl
  · rfl

/--
**A failed forward leaves no trace.**  Whatever the trie and the cache: a request whose name
is not found, and for which forwarding fails in any of its ways, is answered with "Record not
found" and adds nothing, so that the cache is as the cleanings of its lookups leave it; and
after any calls to the cache that do not add the name, a lookup of it finds nothing.
-/
theorem failed_forward_leaves_nothing (root : TrieNode) (cache cache₁ : DNSCache)
    (request : ClientRequest) (env : QueryEnv ε) (hlooks : request.LooksUp)
    (hmiss : Settles (fun fuel => retriveValue fuel root request.query request.calls cache)
      (done (none, cache₁)))
    (hfails : ForwardFails env)
    (hforwarded : Settles (fun fuel => forwardedAddress fuel request.query env)
      (done request.forwarded)) :
    Settles (fun fuel => handleClient fuel root cache request)
      (done (some (ascii "Record not found"), cache₁)) ∧
    (∃ n, cache₁ = cleanedAt request.calls (n + 1) cache) ∧
    ∀ ops : List CacheOp, (∀ op ∈ ops, ¬ op.adds request.query) → ∀ cleanNow now,
      (lookupDNSCache cleanNow now (exec CacheOp.run cache₁ ops).1 request.query).2 = none := by
  obtain ⟨ops, hops⟩ := settles_iff_retrieves.mp hmiss
  obtain ⟨enough, henough⟩ := hmiss
  refine ⟨?_, hops.cleaned rfl, ?_⟩
  · have hnothing : request.forwarded = [] :=
      done.inj (Settles.unique hforwarded (hfails.settles request.query))
    refine ⟨enough, fun fuel hle => ?_⟩
    have hretrive : retriveValue fuel root request.query request.calls cache = _ :=
      henough fuel hle
    show handleClient fuel root cache request = _
    rw [hlooks.handleClient_eq, hretrive, hnothing]
    rfl
  · intro later hlater cleanNow now
    exact lookup_absent (find_exec_absent hops.absent_of_none hlater) cleanNow now

/-- A server that cannot be sent to is asked about `example.com`. -/
def unsentEnv : QueryEnv Nat := { answeredEnv 0 with sends := false }

theorem unsentEnv_fails : ForwardFails unsentEnv := by
  refine ForwardFails.exits fun hgoes => ?_
  obtain ⟨-, -, -, -, hsends⟩ := hgoes
  simp [unsentEnv] at hsends

/-- A host of a zone that is loaded has been asked for and is in the cache; then `example.com`
is, which no zone has. -/
theorem failed_forward_leaves_nothing_loaded : ∃ root cache cache₁,
    buildTrie twoZones = .ok root ∧ cache.find (ascii "www.a.com") ≠ none ∧
    Settles (fun fuel => handleClient fuel root cache (laterRequest 40))
      (done (some (ascii "Record not found"), cache₁)) ∧
    (∃ n, cache₁ = cleanedAt (laterRequest 40).calls (n + 1) cache) ∧
    ∀ ops : List CacheOp, (∀ op ∈ ops, ¬ op.adds (laterRequest 40).query) → ∀ cleanNow now,
      (lookupDNSCache cleanNow now (exec CacheOp.run cache₁ ops).1 (laterRequest 40).query).2
        = none := by
  have hlooks : (laterRequest 40).LooksUp :=
    ⟨⟨ascii "example.com", rfl, by decide, by decide⟩, by decide⟩
  obtain ⟨root, hroot, cache, cache₁, -, hcached, hmiss⟩ :
      ∃ root, buildTrie twoZones = .ok root ∧ ∃ cache cache₁,
        handleClient 9 root initializeDNSCache
            { laterRequest 0 with sent := some (ascii "www.a.com") }
          = done (some (ascii "192.168.1.10\n"), cache) ∧
        (cache.find (ascii "www.a.com")).isSome = true ∧
        retriveValue 9 root (laterRequest 40).query (laterRequest 40).calls cache
          = done (none, cache₁) := ⟨_, rfl, _, _, rfl, rfl, rfl⟩
  exact ⟨root, cache, cache₁, hroot, Option.isSome_iff_ne_none.mp hcached,
    failed_forward_leaves_nothing root cache cache₁ (laterRequest 40) unsentEnv hlooks
      ((retriveValue_mono _ _ _ _).settles_done 9 hmiss) unsentEnv_fails
      (unsentEnv_fails.settles _)⟩

end DnsServer
