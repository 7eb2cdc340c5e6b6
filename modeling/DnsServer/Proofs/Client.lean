/-
What a client shows of the server's answers.

A record's value was read into a buffer of 128 bytes and a forwarded address is four numbers
and three dots, and the cache keeps nothing else.  So no answer fills the client's buffer, nor
does a name the client may send fill the handler's or a packet's.  Where an exchange goes
wrong, the lookup did, or the drawing of the trie ran out of numbers, or the name was asked
elsewhere and the address that came was too short.  And where the whole name and the whole
answer come through, the client shows the record its name leads to, whatever was exchanged
before.
-/
import DnsServer.Code.Client
import DnsServer.Proofs.Buffers
import DnsServer.Proofs.Drawing
import DnsServer.Proofs.FirstMatch
import DnsServer.Proofs.FullAddress
import DnsServer.Proofs.Resolver
import DnsServer.Proofs.TrieLookup

namespace DnsServer

open Call Runs Writes

variable {ε : Type} {shell : Shell} {root : TrieNode} {cache cache' : DNSCache} {s s' : Serving}
  {fuel : Nat}

/-- A string that was read into a line's buffer. -/
def FitsLine (value : Bytes) : Prop := value.length < lineBufferSize ∧ (0 : UInt8) ∉ value

theorem length_cstr_le (buf : Bytes) : (cstr buf).length ≤ buf.length :=
  (List.takeWhile_sublist _).length_le

theorem fitsLine_cstr {buf : Bytes} (h : buf.length < lineBufferSize) : FitsLine (cstr buf) :=
  ⟨Nat.lt_of_le_of_lt (length_cstr_le buf) h, noNul_cstr buf⟩

theorem fitsLine_fgets {stream line : Bytes} (h : fgets lineBufferSize stream = some line) :
    FitsLine line := by
  unfold fgets at h
  by_cases hnil : stream = []
  · rw [if_pos hnil] at h
    exact absurd h (by simp)
  · rw [if_neg hnil, Option.some.injEq] at h
    rw [← h]
    refine fitsLine_cstr (Nat.lt_of_le_of_lt (List.length_take_le _ _) (by decide))

theorem fitsLine_getDNSValue {path line value : Bytes}
    (h : getDNSValueFromZoneFile shell path line = .ok value) : FitsLine value := by
  obtain ⟨stream, -, hget⟩ := popenLine_ok_iff.mp h
  exact fitsLine_fgets hget

/-! ### What the trie answers -/

theorem recordLines_fits {path : Bytes} {owners : List Bytes} :
    ∀ {startIndex : Nat} {records : List (Bytes × Bytes)},
      recordLines shell path startIndex owners = .ok records →
      ∀ record ∈ records, FitsLine record.2 := by
  induction owners with
  | nil =>
      intro startIndex records h
      rw [← Except.ok.inj h]
      exact fun record hrecord => absurd hrecord List.not_mem_nil
  | cons owner owners ih =>
      intro startIndex records h
      unfold recordLines at h
      obtain ⟨value, hvalue, h⟩ := load_bind_eq_ok.mp h
      obtain ⟨rest, hrest, h⟩ := load_bind_eq_ok.mp h
      rw [← Except.ok.inj h, List.forall_mem_cons]
      exact ⟨fitsLine_getDNSValue hvalue, ih hrest⟩

theorem zoneData_fits {domain : Bytes} {zone : ZoneData} (h : zoneData shell domain = .ok zone) :
    ∀ record ∈ zone.records, FitsLine record.2 := by
  unfold zoneData at h
  obtain ⟨servers, -, h⟩ := load_bind_eq_ok.mp h
  obtain ⟨records, hrecords, h⟩ := load_bind_eq_ok.mp h
  rw [← Except.ok.inj h]
  unfold zoneRecords at hrecords
  obtain ⟨path, -, hrecords⟩ := load_bind_eq_ok.mp hrecords
  obtain ⟨owners, -, hrecords⟩ := load_bind_eq_ok.mp hrecords
  exact recordLines_fits hrecords

theorem firstValue_mem {records : List (Bytes × Bytes)} {label value : Bytes}
    (h : firstValue records label = some value) : ∃ owner, (owner, value) ∈ records := by
  unfold firstValue at h
  by_cases hat : label = ascii "@"
  · rw [if_pos hat] at h
    exact absurd h (by simp)
  · rw [if_neg hat, Option.map_eq_some_iff] at h
    obtain ⟨record, hrecord, rfl⟩ := h
    exact ⟨record.1, List.mem_of_find?_eq_some hrecord⟩

theorem underTop_record {zone : ZoneData} {words : List Bytes} {value : Bytes}
    (h : zone.underTop words = .done (.record value)) :
    ∃ rest, zone.below rest = .done (.record value) := by
  unfold ZoneData.underTop at h
  cases hown : zone.own with
  | none =>
      rw [hown] at h
      exact ⟨words, h⟩
  | some own =>
      rw [hown] at h
      cases words with
      | nil => exact absurd h (by simp)
      | cons word rest =>
          dsimp only at h
          split at h
          · split at h
            · exact absurd h (by simp)
            · exact absurd h (by simp)
          · split at h
            · exact ⟨rest, h⟩
            · exact absurd h (by simp)

/-- What is found is the value of a record of some zone. -/
theorem landing_record {table : List ZoneData} {words : List Bytes} {value : Bytes}
    (h : landing table words = .done (.record value)) :
    ∃ zone ∈ table, ∃ owner, (owner, value) ∈ zone.records := by
  cases words with
  | nil =>
      rw [landing] at h
      by_cases hnil : table = []
      · rw [if_pos hnil] at h
        exact absurd h (by simp)
      · rw [if_neg hnil] at h
        exact absurd h (by simp)
  | cons word words =>
      rw [landing] at h
      cases hzone : decidingZone table word with
      | none =>
          rw [hzone] at h
          exact absurd h (by simp)
      | some zone =>
          rw [hzone] at h
          obtain ⟨rest, hbelow⟩ := underTop_record h
          obtain ⟨label, -, hvalue⟩ := below_record_iff.mp hbelow
          exact ⟨zone, List.mem_of_find?_eq_some hzone, firstValue_mem hvalue⟩

theorem searchTrie_fits (hroot : buildTrie shell = .ok root) {words : List Bytes} {value : Bytes}
    (h : searchTrie fuel root words = .done (.record value)) : FitsLine value := by
  obtain ⟨zones, hzones, hbranches⟩ := exists_zones hroot
  obtain ⟨table, htable, hall⟩ := forall₂_branchOf hbranches
  have hwalk := searchTrie_eq_walk h
  rw [walk_eq_landing hall] at hwalk
  obtain ⟨zone, hzone, owner, hrecord⟩ := landing_record hwalk
  obtain ⟨branch, -, z, hbranch⟩ := forall₂_left hall hzone
  exact zoneData_fits hbranch.data (owner, value) hrecord

/-! ### What the cache keeps -/

/-- Every value in the cache was read into a line's buffer. -/
def CacheFits (cache : DNSCache) : Prop :=
  ∀ i, ∀ entry ∈ cache.buckets i, FitsLine entry.recordValue

theorem CacheFits.start : CacheFits initializeDNSCache := fun _ _ h => absurd h List.not_mem_nil

theorem CacheFits.add (h : CacheFits cache) {entry : CacheEntry}
    (hentry : FitsLine entry.recordValue) (now : Int) :
    CacheFits (addCacheEntry now cache entry) := by
  intro i e he
  rw [addCacheEntry_buckets] at he
  rcases HashTable.mem_insertNew he with rfl | hold
  · exact hentry
  · exact h i e hold

theorem CacheFits.cleanUp (h : CacheFits cache) (now : Int) :
    CacheFits (dnsCacheCleanUp now cache) := by
  intro i entry he
  rw [dnsCacheCleanUp_buckets] at he
  exact h i entry (List.mem_filter.mp he).1

theorem CacheFits.lookup (h : CacheFits cache) (cleanNow now : Int) (domainName : Bytes) :
    CacheFits (lookupDNSCache cleanNow now cache domainName).1 ∧
      ∀ answer, (lookupDNSCache cleanNow now cache domainName).2 = some answer →
        FitsLine answer := by
  obtain ⟨hanswer, hbuckets⟩ := lookupDNSCache_eq cleanNow now cache domainName
  have hclean := h.cleanUp cleanNow
  refine ⟨?_, ?_⟩
  · intro i e he
    rw [hbuckets] at he
    rcases HashTable.mem_modify he with hold | ⟨e', he', -, rfl⟩
    · exact hclean i e hold
    · exact hclean i e' he'
  · intro answer heq
    rw [hanswer] at heq
    obtain ⟨entry, hfind, rfl⟩ := Option.map_eq_some_iff.mp heq
    obtain ⟨hmem, -⟩ := HashTable.find_eq_some hfind
    exact hclean _ entry hmem

/-- What a lookup returns fits, and so does what it leaves. -/
theorem retriveValue_fits (hroot : buildTrie shell = .ok root) {fuel : Nat} :
    ∀ {domainName : Bytes} {calls : Nat → CallEnv} {cache cache' : DNSCache}
      {found : Option CacheEntry},
      retriveValue fuel root domainName calls cache = done (found, cache') → CacheFits cache →
      CacheFits cache' ∧ ∀ entry, found = some entry → FitsLine entry.recordValue := by
  induction fuel with
  | zero =>
      intro _ _ _ _ _ h
      simp [retriveValue] at h
  | succ fuel ih =>
      intro domainName calls cache cache' found h hcache
      obtain ⟨hafter, hanswer⟩ := hcache.lookup (calls 0).cleanNow (calls 0).touchNow domainName
      rw [retriveValue_succ] at h
      rcases hlookup : lookupDNSCache (calls 0).cleanNow (calls 0).touchNow cache domainName
        with ⟨cache₁, _ | value⟩
      · rw [hlookup] at h hafter
        obtain ⟨result, hsearch, hrest⟩ := bind_eq_done.mp h
        rcases result with value | ns | _
        · simp only [done.injEq, Prod.mk.injEq] at hrest
          obtain ⟨rfl, rfl⟩ := hrest
          refine ⟨hafter, fun entry hentry => ?_⟩
          rw [Option.some.injEq] at hentry
          rw [← hentry]
          exact searchTrie_fits hroot hsearch
        · exact ih hrest hafter
        · simp only [done.injEq, Prod.mk.injEq] at hrest
          obtain ⟨rfl, rfl⟩ := hrest
          exact ⟨hafter, fun entry hentry => by simp at hentry⟩
      · rw [hlookup] at h hafter hanswer
        simp only [done.injEq, Prod.mk.injEq] at h
        obtain ⟨rfl, rfl⟩ := h
        refine ⟨hafter, fun entry hentry => ?_⟩
        rw [Option.some.injEq] at hentry
        rw [← hentry]
        exact hanswer value rfl

/-! ### What is asked elsewhere -/

theorem length_inetNtop_le {addr : Bytes} (h : addr.length ≤ 4) : (inetNtop addr).length ≤ 15 := by
  have hpieces : ∀ {pieces : List Bytes}, (∀ piece ∈ pieces, piece.length ≤ 3) →
      ([dot].intercalate pieces).length ≤ 4 * pieces.length - 1 := by
    intro pieces
    induction pieces with
    | nil => intro _; exact Nat.zero_le _
    | cons piece pieces ih =>
        intro hall
        rw [List.forall_mem_cons] at hall
        cases pieces with
        | nil =>
            rw [List.intercalate_singleton]
            exact hall.1
        | cons next rest =>
            have hrest := ih hall.2
            have hpiece := hall.1
            rw [List.intercalate_cons_cons, List.length_append, List.length_append]
            simp only [List.length_cons, List.length_nil] at hrest ⊢
            omega
  have hall : ∀ piece ∈ addr.map fun b => ascii (toString b.toNat), piece.length ≤ 3 := by
    intro piece hpiece
    obtain ⟨b, -, rfl⟩ := List.mem_map.mp hpiece
    exact (length_decimal_le_iff (by decide)).mpr (Nat.lt_trans b.toNat_lt (by decide))
  have hlength := hpieces hall
  rw [List.length_map] at hlength
  rw [inetNtop]
  omega

/-- What is forwarded is short, and a string. -/
theorem fitsLine_forwarded {domainName ip : Bytes} {env : QueryEnv ε}
    (h : forwardedAddress fuel domainName env = .done ip) : FitsLine ip := by
  rcases forwardedAddress_settles ((forwardedAddress_mono domainName env).settles_done fuel h)
    with rfl | ⟨sender, pkt, -, haddress⟩
  · exact ⟨by decide, List.not_mem_nil⟩
  · rw [haddress.eq]
    refine ⟨Nat.lt_of_le_of_lt (length_inetNtop_le (List.length_take_le _ _)) (by decide), ?_⟩
    rw [← cstr_inetNtop]
    exact noNul_cstr _

/-- The request, once `dns_query_domain` has left this in `ip_address`. -/
def ClientVisit.request (visit : ClientVisit ε) (forwarded : Bytes) : ClientRequest :=
  { sent := visit.sent, calls := visit.calls, forwarded, addNow := visit.addNow }

/-- What is forwarded: nothing where something was found. -/
def ClientVisit.elsewhere (fuel : Nat) (visit : ClientVisit ε) (name : Bytes) :
    Option CacheEntry → Call Bytes
  | some _ => .done []
  | none => forwardedAddress fuel name visit.env

/-- A reply, with the counter left alone. -/
def Serving.answer (s : Serving) (reply : Option Bytes × DNSCache) : Option Bytes × Serving :=
  (reply.1, { s with cache := reply.2 })

/-- The handler, by what it hears. -/
theorem handleClientWhole_eq (fuel : Nat) (root : TrieNode) (s : Serving)
    (visit : ClientVisit ε) : handleClientWhole fuel root s visit =
      match heard visit.sent with
      | .nothing => .done (none, s)
      | .full => .undefined
      | .drawing => visualizeTrie s.nodeId root visit.opened >>= fun drawn =>
          .done (some (ascii "Trie visualization opened on the server."),
            { s with nodeId := drawn.1 })
      | .name name => retriveValue fuel root name visit.calls s.cache >>= fun result =>
          visit.elsewhere fuel name result.1 >>= fun address =>
            .done (s.answer ((visit.request address).reply name result)) := by
  unfold handleClientWhole heard
  cases visit.sent with
  | none => rfl
  | some sent =>
      dsimp only
      by_cases hempty : sent.take bufferSize = []
      · rw [if_pos hempty, if_pos hempty]
      rw [if_neg hempty, if_neg hempty]
      by_cases hfull : (sent.take bufferSize).length = bufferSize
      · rw [if_pos hfull, if_pos hfull]
      rw [if_neg hfull, if_neg hfull]
      by_cases htrie : cstr (sent.take bufferSize) = ascii "trie"
      · rw [if_pos htrie, if_pos htrie]
        rfl
      rw [if_neg htrie, if_neg htrie]
      dsimp only
      congr 1
      funext result
      obtain ⟨_ | entry, cache⟩ := result
      · rw [ClientVisit.elsewhere]
        dsimp only
        congr 1
        funext address
        rw [ClientRequest.reply, ClientVisit.request, Serving.answer]
        by_cases hip : cstr address = []
        · rw [if_pos hip, if_pos hip, pure_eq]
        · rw [if_neg hip, if_neg hip, pure_eq]
          rfl
      · rfl

/-- What the handler does with what it calls included is what it does where that gives this. -/
theorem handleClientWhole_done {visit : ClientVisit ε} {answer : Option Bytes}
    (h : handleClientWhole fuel root s visit = .done (answer, s')) :
    ∃ forwarded, FitsLine forwarded ∧
      handleClient fuel root s.cache (visit.request forwarded) = .done (answer, s'.cache) := by
  have hnothing : FitsLine [] := ⟨by decide, List.not_mem_nil⟩
  rw [handleClientWhole_eq] at h
  simp only [handleClient_eq, show ∀ forwarded, (visit.request forwarded).sent = visit.sent from
    fun _ => rfl]
  cases hheard : heard visit.sent with
  | nothing =>
      simp only [hheard, done.injEq, Prod.mk.injEq] at h
      obtain ⟨rfl, rfl⟩ := h
      exact ⟨[], hnothing, rfl⟩
  | full =>
      simp only [hheard] at h
      exact absurd h (by simp)
  | drawing =>
      simp only [hheard] at h
      obtain ⟨drawn, -, h⟩ := bind_eq_done.mp h
      rw [done.injEq, Prod.mk.injEq] at h
      rw [← h.1, ← h.2]
      exact ⟨[], hnothing, rfl⟩
  | name name =>
      simp only [hheard] at h
      obtain ⟨⟨found, cache₁⟩, hfound, h⟩ := bind_eq_done.mp h
      obtain ⟨forwarded, hforwarded, h⟩ := bind_eq_done.mp h
      rw [done.injEq, Serving.answer, Prod.mk.injEq] at h
      refine ⟨forwarded, ?_, ?_⟩
      · cases found with
        | none => exact fitsLine_forwarded hforwarded
        | some entry => exact done.inj hforwarded ▸ hnothing
      · show (retriveValue fuel root name visit.calls s.cache >>= _) = _
        rw [hfound, done_bind, ← h.1, ← h.2]

/-- The counter is an `int` after the handler as it was before. -/
theorem handleClientWhole_nodeId {visit : ClientVisit ε} {answer : Option Bytes}
    (h : handleClientWhole fuel root s visit = .done (answer, s')) (hle : s.nodeId ≤ intMax) :
    s'.nodeId ≤ intMax := by
  rw [handleClientWhole_eq] at h
  cases hheard : heard visit.sent with
  | nothing =>
      simp only [hheard, done.injEq, Prod.mk.injEq] at h
      exact h.2 ▸ hle
  | full =>
      simp only [hheard] at h
      exact absurd h (by simp)
  | drawing =>
      simp only [hheard, visualizeTrie_eq hle] at h
      obtain ⟨drawn, hdrawn, h⟩ := bind_eq_done.mp h
      rw [done.injEq, Prod.mk.injEq] at h
      rw [← h.2]
      show drawn.1 ≤ intMax
      split at hdrawn
      · split at hdrawn
        · rename_i hroom
          exact done.inj hdrawn ▸ hroom
        · exact absurd hdrawn (by simp)
      · exact done.inj hdrawn ▸ hle
  | name name =>
      simp only [hheard] at h
      obtain ⟨result, -, h⟩ := bind_eq_done.mp h
      obtain ⟨forwarded, -, h⟩ := bind_eq_done.mp h
      rw [done.injEq, Serving.answer, Prod.mk.injEq] at h
      exact h.2 ▸ hle

/-- Whatever is answered was read into a line's buffer, or could have been. -/
theorem handleClient_fits (hroot : buildTrie shell = .ok root) {request : ClientRequest}
    (hforwarded : FitsLine request.forwarded) {answer : Option Bytes}
    (h : handleClient fuel root cache request = .done (answer, cache')) (hcache : CacheFits cache) :
    CacheFits cache' ∧ ∀ text, answer = some text → FitsLine text := by
  have hdrawn : FitsLine (ascii "Trie visualization opened on the server.") :=
    ⟨by decide, by decide⟩
  have hmissing : FitsLine (ascii "Record not found") := ⟨by decide, by decide⟩
  rw [handleClient_eq] at h
  cases hheard : heard request.sent with
  | nothing =>
      simp only [hheard, done.injEq, Prod.mk.injEq] at h
      obtain ⟨rfl, rfl⟩ := h
      exact ⟨hcache, fun text htext => absurd htext (by simp)⟩
  | full =>
      simp only [hheard] at h
      exact absurd h (by simp)
  | drawing =>
      simp only [hheard, done.injEq, Prod.mk.injEq] at h
      obtain ⟨rfl, rfl⟩ := h
      exact ⟨hcache, fun text htext => Option.some.inj htext ▸ hdrawn⟩
  | name name =>
      simp only [hheard] at h
      obtain ⟨⟨found, cache₁⟩, hfound, hreply⟩ := bind_eq_done.mp h
      obtain ⟨hafter, hentry⟩ := retriveValue_fits hroot hfound hcache
      rw [done.injEq] at hreply
      cases found with
      | some entry =>
          rw [ClientRequest.reply, Prod.mk.injEq] at hreply
          obtain ⟨rfl, rfl⟩ := hreply
          exact ⟨hafter.add (hentry entry rfl) request.addNow,
            fun text htext => Option.some.inj htext ▸ hentry entry rfl⟩
      | none =>
          have hip : FitsLine (cstr request.forwarded) := fitsLine_cstr hforwarded.1
          by_cases hnone : cstr request.forwarded = []
          · rw [ClientRequest.reply, if_pos hnone, Prod.mk.injEq] at hreply
            obtain ⟨rfl, rfl⟩ := hreply
            exact ⟨hafter, fun text htext => Option.some.inj htext ▸ hmissing⟩
          · rw [ClientRequest.reply, if_neg hnone, Prod.mk.injEq] at hreply
            obtain ⟨rfl, rfl⟩ := hreply
            exact ⟨hafter.add hip request.addNow, fun text htext => Option.some.inj htext ▸ hip⟩

/-! ### Exchanges -/

/-- An exchange, once it has come to an end. -/
def Exchanges (root : TrieNode) (s : Serving) (e : Exchange ε) (s' : Serving) : Prop :=
  ∃ output, Settles (fun fuel => exchange fuel root s e) (.done (s', output))

/-- What went before a name is sent, and what has been printed then. -/
theorem dnsClientAsk_ok {argv : List Bytes} {calls : ClientCalls} {name stdout : Bytes}
    (h : dnsClientAsk argv calls = .ok (name, stdout)) :
    name ≠ [] ∧ name.length ≤ 253 := by
  unfold dnsClientAsk at h
  split at h
  · rename_i domain
    by_cases hlength : domain.length = 0 ∨ 253 < domain.length
    · rw [if_pos hlength] at h
      exact absurd h (by simp)
    rw [if_neg hlength] at h
    dsimp only at h
    split at h
    · exact absurd h (by simp)
    split at h
    · exact absurd h (by simp)
    split at h
    · exact absurd h (by simp)
    rw [Except.ok.injEq, Prod.mk.injEq] at h
    rw [not_or, Nat.not_lt] at hlength
    rw [← h.1]
    exact ⟨List.length_pos_iff.mp (Nat.pos_of_ne_zero hlength.1), hlength.2⟩
  · exact absurd h (by simp)

/-- What there is room for is shown. -/
theorem dnsClientHear_some (stdout strerror : Bytes) {reply : Bytes}
    (hroom : reply.length < clientBufferSize) :
    dnsClientHear stdout (some reply) strerror = .done
      { status := 0
        stdout := stdout ++ if reply = [] then ascii "Connection closed by server.\n"
          else ascii "Response: " ++ cstr reply ++ [newline]
        stderr := [] } := by
  have htake : reply.take clientBufferSize = reply := List.take_of_length_le (Nat.le_of_lt hroom)
  rw [dnsClientHear, htake]
  by_cases hnil : reply = []
  · rw [if_pos hnil, if_pos hnil]
  · rw [if_neg hnil, if_neg hnil, if_neg (Nat.ne_of_lt hroom)]
    simp only [List.append_assoc]

/-- An exchange leaves all as it is, or as handling a request leaves it. -/
theorem Exchanges.handles {e : Exchange ε} (h : Exchanges root s e s') :
    s' = s ∨ ∃ name answer enough,
      handleClientWhole enough root s (e.visit name) = .done (answer, s') := by
  obtain ⟨output, enough, henough⟩ := h
  have hend := henough enough (Nat.le_refl enough)
  unfold exchange at hend
  cases hask : dnsClientAsk e.argv e.clientCalls with
  | error output' =>
      rw [hask] at hend
      simp only [done.injEq, Prod.mk.injEq] at hend
      exact Or.inl hend.1.symm
  | ok asked =>
      obtain ⟨name, stdout⟩ := asked
      rw [hask] at hend
      obtain ⟨⟨answer, s₁⟩, hhandled, hend⟩ := bind_eq_done.mp hend
      obtain ⟨output', -, hend⟩ := bind_eq_done.mp hend
      simp only [pure_eq, done.injEq, Prod.mk.injEq] at hend
      rw [hend.1] at hhandled
      exact Or.inr ⟨name, answer, enough, hhandled⟩

/-- What exchanges leave behind: what is cached fits and agrees with the trie, and the counter
is an `int`. -/
structure Serving.Sound (root : TrieNode) (s : Serving) : Prop where
  fits : CacheFits s.cache
  agrees : Agrees root s.cache
  nodeId : s.nodeId ≤ intMax

theorem Serving.Sound.exchanges (hroot : buildTrie shell = .ok root) {e : Exchange ε}
    (h : s.Sound root) (hstep : Exchanges root s e s') : s'.Sound root := by
  rcases hstep.handles with rfl | ⟨name, answer, enough, hhandled⟩
  · exact h
  obtain ⟨forwarded, hforwarded, hplain⟩ := handleClientWhole_done hhandled
  have hhandles : Handles root s.cache ((e.visit name).request forwarded) s'.cache :=
    ⟨answer, (handleClient_mono _ _ _).settles_done enough hplain⟩
  exact ⟨(handleClient_fits hroot hforwarded hplain h.fits).1, h.agrees.handle hhandles,
    handleClientWhole_nodeId hhandled h.nodeId⟩

theorem exchanges_sound (hroot : buildTrie shell = .ok root) {before : List (Exchange ε)}
    (h : Trace (· = Serving.start) (Exchanges root) before s) : s.Sound root := by
  refine @Trace.inv _ _ _ _ (fun _ s => s.Sound root) (fun s hs => ?_)
    (fun _ s e s' hs hstep => hs.exchanges hroot hstep) _ _ h
  rw [hs]
  exact ⟨CacheFits.start, Agrees.start, Nat.zero_le _⟩

/-- A client that asks for this name, and everything comes through; `trie.dot` cannot be
opened. -/
def wholeExchange (name : Bytes) (env : QueryEnv Nat) : Exchange Nat where
  argv := [ascii "./dns_client", name]
  clientCalls := { socket := true, connect := true, send := true, strerror := [] }
  heard := some name.length
  opened := false
  calls := fun _ => { cleanNow := 0, touchNow := 0, entryNow := 0, coin := true }
  env
  addNow := 0
  got := some clientBufferSize
  strerror := []

/-- The answer from elsewhere has an A record of two bytes. -/
def shortEnv : QueryEnv Nat :=
  { answeredEnv 0 with
    rounds := [{ now := 0, arrival := .datagram 0 (responseWith 1 2 [93, 184]), al := allocOk
                 beyond := fun _ => 0, responsePkt := zeroPacket }] }

theorem heard_name {sent : Bytes} (hnil : sent ≠ []) (hroom : sent.length < bufferSize)
    (hnul : (0 : UInt8) ∉ sent) (htrie : sent ≠ ascii "trie") : heard (some sent) = .name sent := by
  have htake : sent.take bufferSize = sent := List.take_of_length_le (Nat.le_of_lt hroom)
  simp only [heard, htake]
  rw [if_neg hnil, if_neg (Nat.ne_of_lt hroom), cstr_self hnul, if_neg htrie]

/-- A name that leads to a record is answered with its value. -/
theorem handleClientWhole_record {visit : ClientVisit ε} {name value : Bytes}
    (hheard : heard visit.sent = .name name) (hagrees : Agrees root s.cache)
    (hfinds : FindsRecord root name value) :
    ∃ s', Settles (fun fuel => handleClientWhole fuel root s visit) (.done (some value, s')) := by
  obtain ⟨cache₁, enough, henough⟩ := retriveValue_record hagrees hfinds visit.calls
  refine ⟨{ s with cache := addCacheEntry visit.addNow cache₁ ((visit.calls 0).entry name value) },
    enough, fun fuel hle => ?_⟩
  have hfound : retriveValue fuel root name visit.calls s.cache = _ := henough fuel hle
  show handleClientWhole fuel root s visit = _
  simp only [handleClientWhole_eq, hheard, hfound]
  rfl

/--
**The client shows the record its name leads to**, whatever was exchanged before, where the
whole name has come when the handler reads and the whole answer when the client does.
-/
theorem client_shows_record (hroot : buildTrie shell = .ok root) (before : List (Exchange ε))
    (h : Trace (· = Serving.start) (Exchanges root) before s) (e : Exchange ε)
    (name stdout value : Bytes)
    (hask : dnsClientAsk e.argv e.clientCalls = .ok (name, stdout)) (hnul : (0 : UInt8) ∉ name)
    (hheard : ∃ n, e.heard = some n ∧ name.length ≤ n)
    (hgot : ∃ n, e.got = some n ∧ value.length ≤ n) (htrie : name ≠ ascii "trie")
    (hfinds : FindsRecord root name value) :
    ∃ s', Settles (fun fuel => exchange fuel root s e) (.done (s',
      { status := 0
        stdout := stdout ++ if value = [] then ascii "Connection closed by server.\n"
          else ascii "Response: " ++ value ++ [newline]
        stderr := [] })) := by
  have hsound := exchanges_sound hroot h
  obtain ⟨hnil, hlength⟩ := dnsClientAsk_ok hask
  obtain ⟨n, hn, hwhole⟩ := hheard
  obtain ⟨m, hm, hall⟩ := hgot
  have hsent : heard (e.visit name).sent = .name name := by
    show heard (e.heard.map name.take) = .name name
    rw [hn, Option.map_some, List.take_of_length_le hwhole]
    exact heard_name hnil (Nat.lt_of_le_of_lt hlength (by decide)) hnul htrie
  obtain ⟨s', enough, henough⟩ := handleClientWhole_record hsent hsound.agrees hfinds
  have hvalue : FitsLine value := by
    obtain ⟨turns, hturns⟩ := hfinds
    exact searchTrie_fits hroot (hturns turns (Nat.le_refl turns))
  have hshown := dnsClientHear_some stdout e.strerror
    (Nat.lt_trans hvalue.1 (show lineBufferSize < clientBufferSize by decide))
  rw [cstr_self hvalue.2] at hshown
  refine ⟨s', enough, fun fuel hle => ?_⟩
  have hhandled : handleClientWhole fuel root s (e.visit name) = _ := henough fuel hle
  show exchange fuel root s e = _
  unfold exchange
  simp only [hask]
  rw [hhandled, done_bind]
  dsimp only
  rw [hm, Option.map_some, Option.getD_some, List.take_of_length_le hall, hshown]
  rfl

/-- Two clients ask for the same host, one after the other. -/
theorem client_shows_record_twice : ∃ root s s', buildTrie twoZones = .ok root ∧
    Exchanges root Serving.start (wholeExchange (ascii "www.a.com") shortEnv) s ∧
    Settles (fun fuel => exchange fuel root s (wholeExchange (ascii "www.a.com") shortEnv))
      (.done (s',
        { status := 0
          stdout := ascii "Connected to server at 127.0.0.1:8081\nQuery sent: www.a.com\n" ++
            ascii "Response: 192.168.1.10\n\n"
          stderr := [] })) := by
  obtain ⟨root, hroot, hwalk⟩ : ∃ root, buildTrie twoZones = .ok root ∧
      walk root (extractWordsFromDomain (ascii "www.a.com")).reverse
        = .done (.record (ascii "192.168.1.10\n")) := ⟨_, rfl, rfl⟩
  have hask : dnsClientAsk (wholeExchange (ascii "www.a.com") shortEnv).argv
      (wholeExchange (ascii "www.a.com") shortEnv).clientCalls = .ok (ascii "www.a.com",
        ascii "Connected to server at 127.0.0.1:8081\nQuery sent: www.a.com\n") := by decide
  have hshows := fun s before h => @client_shows_record Nat _ root s hroot before h
    (wholeExchange (ascii "www.a.com") shortEnv) _ _ _ hask (by decide)
    ⟨9, rfl, by decide⟩ ⟨2048, rfl, by decide⟩ (by decide) (findsRecord_iff.mpr hwalk)
  obtain ⟨s, hfirst⟩ := hshows Serving.start [] (Trace.start rfl)
  have hbefore : Exchanges root Serving.start (wholeExchange (ascii "www.a.com") shortEnv) s :=
    ⟨_, hfirst⟩
  obtain ⟨s', hsecond⟩ := hshows s _ (Trace.step (Trace.start rfl) hbefore)
  exact ⟨root, s, s', hroot, hbefore, hsecond⟩

end DnsServer
