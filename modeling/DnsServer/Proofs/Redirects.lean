/-
Asking the name servers instead.

A zone's own name is answered by looking one of its two servers' names up, which
may be a zone's own name again.  Which names can follow one another is `RedirectsTo`,
read off the zones.  The search goes wrong exactly when a fatal name can be come
to, and goes on for ever, for some outcome of the coins, exactly when a ring can.

What is cached can only cut a chain of redirections short, so the empty cache, which
stays empty along the chain, shows the worst.
-/
import DnsServer.Lib.Descent
import DnsServer.Proofs.Zones

namespace DnsServer

open Call Relation

/-! ### What a question comes to -/

theorem below_undefined_iff {zone : ZoneData} {words : List Bytes} :
    zone.below words = .undefined ↔ words = [ascii "@"] := by
  rcases words with _ | ⟨word, _ | ⟨next, words⟩⟩
  · simp [ZoneData.below]
  · rw [ZoneData.below]
    by_cases hword : word = ascii "@"
    · rw [if_pos hword, hword]
      simp
    · rw [if_neg hword]
      rcases hfirst : firstValue zone.records word with _ | value
      · simp [hword]
      · simp [hword]
  · simp [ZoneData.below]

theorem below_redirect_iff {zone : ZoneData} {words : List Bytes} {ns : NSQuerys} :
    zone.below words = done (.redirect ns) ↔ words = [] ∧ ns = zone.servers := by
  rcases words with _ | ⟨word, _ | ⟨next, words⟩⟩
  · simp only [ZoneData.below, done.injEq, SearchResult.redirect.injEq, true_and]
    exact eq_comm
  · rw [ZoneData.below]
    by_cases hword : word = ascii "@"
    · simp [hword]
    · rw [if_neg hword]
      rcases hfirst : firstValue zone.records word with _ | value
      · simp
      · simp
  · simp [ZoneData.below]

theorem underTop_undefined_iff {zone : ZoneData} {words : List Bytes} :
    zone.underTop words = .undefined ↔ zone.IsFatal words := by
  unfold ZoneData.underTop ZoneData.IsFatal
  rcases zone.own with _ | own
  · exact below_undefined_iff
  rcases words with _ | ⟨word, rest⟩
  · simp
  by_cases hmiddle : word ∈ zone.middles
  · simp only [if_pos hmiddle]
    by_cases hrest : rest = []
    · simp [hrest, hmiddle]
    · rw [if_neg hrest]
      simp only [reduceCtorEq, List.cons.injEq, hrest, and_false, exists_false, false_or, false_iff]
      intro h
      exact h.1 (h.2.1 ▸ hmiddle)
  · simp only [if_neg hmiddle]
    by_cases hown : word = own
    · subst hown
      rw [if_pos rfl, below_undefined_iff]
      simp [hmiddle]
    · simp only [if_neg hown]
      simp only [reduceCtorEq, List.cons.injEq, hown, false_and, and_false, or_false, false_or,
        false_iff]
      intro h
      obtain ⟨middle, hmem, rfl, -⟩ := h
      exact hmiddle hmem

theorem underTop_redirect_iff {zone : ZoneData} {words : List Bytes} {ns : NSQuerys} :
    zone.underTop words = done (.redirect ns) ↔ zone.IsApex words ∧ ns = zone.servers := by
  unfold ZoneData.underTop ZoneData.IsApex
  rcases zone.own with _ | own
  · exact below_redirect_iff
  rcases words with _ | ⟨word, rest⟩
  · simp
  by_cases hmiddle : word ∈ zone.middles
  · simp only [if_pos hmiddle]
    refine ⟨?_, ?_⟩
    · intro h
      by_cases hrest : rest = []
      · simp [hrest] at h
      · simp [hrest] at h
    · intro h
      obtain ⟨⟨hnot, hwords⟩, -⟩ := h
      rw [List.cons.injEq] at hwords
      exact absurd (hwords.1 ▸ hmiddle) hnot
  · simp only [if_neg hmiddle]
    by_cases hown : word = own
    · subst hown
      rw [if_pos rfl, below_redirect_iff]
      simp [hmiddle]
    · simp [hown]

theorem landing_undefined_iff {table : List ZoneData} {domainName : Bytes} :
    landing table (question domainName) = .undefined ↔ Fatal table domainName := by
  unfold Fatal
  rcases question domainName with _ | ⟨word, words⟩
  · rw [landing]
    by_cases htable : table = []
    · simp [htable]
    · simp [htable]
  · rw [landing]
    rcases hzone : decidingZone table word with _ | zone
    · simp [hzone]
    · simp [hzone, underTop_undefined_iff]

theorem redirectsTo_iff {table : List ZoneData} {domainName next : Bytes} :
    RedirectsTo table domainName next ↔
      ∃ ns, landing table (question domainName) = done (.redirect ns) ∧
        (next = ns.domain1 ∨ next = ns.domain2) := by
  unfold RedirectsTo
  refine ⟨?_, ?_⟩
  · intro h
    obtain ⟨word, words, zone, hquestion, hzone, hapex, hnext⟩ := h
    refine ⟨zone.servers, ?_, hnext⟩
    rw [hquestion, landing, hzone]
    exact underTop_redirect_iff.mpr ⟨hapex, rfl⟩
  · intro h
    obtain ⟨ns, hlanding, hnext⟩ := h
    rcases hquestion : question domainName with _ | ⟨word, words⟩
    · rw [hquestion, landing] at hlanding
      by_cases htable : table = []
      · simp [htable] at hlanding
      · simp [htable] at hlanding
    · rw [hquestion, landing] at hlanding
      rcases hzone : decidingZone table word with _ | zone
      · simp [hzone] at hlanding
      · rw [hzone] at hlanding
        obtain ⟨hapex, rfl⟩ := underTop_redirect_iff.mp hlanding
        exact ⟨word, words, zone, rfl, hzone, hapex, hnext⟩

/-- The names that can be come to are the zones' servers. -/
theorem redirectsTo_finite (table : List ZoneData) :
    {next | ∃ domainName, RedirectsTo table domainName next}.Finite := by
  refine Set.Finite.subset (List.finite_toSet
    (table.flatMap fun zone => [zone.servers.domain1, zone.servers.domain2])) ?_
  intro next h
  obtain ⟨_, _, _, zone, -, hzone, -, hnext⟩ := h
  refine List.mem_flatMap.mpr ⟨zone, List.mem_of_find?_eq_some hzone, ?_⟩
  rcases hnext with rfl | rfl
  · exact List.mem_cons_self
  · exact List.mem_cons_of_mem _ List.mem_cons_self

/-! ### One call -/

variable {shell : Shell} {root : TrieNode} {table : List ZoneData}

/-- With enough fuel the search has ended, in what the zones say. -/
theorem retriveValue_landing (hroot : buildTrie shell = .ok root)
    (htable : zoneTable shell = .ok table) {domainName : Bytes} (calls : Nat → CallEnv)
    {cache cache₁ : DNSCache}
    (hmiss : lookupDNSCache (calls 0).cleanNow (calls 0).touchNow cache domainName
      = (cache₁, none)) :
    ∃ enough, ∀ fuel, enough ≤ fuel → retriveValue (fuel + 1) root domainName calls cache =
      afterSearch fuel root domainName calls cache₁ (landing table (question domainName)) := by
  obtain ⟨enough, henough⟩ := retriveValue_walk root calls hmiss
  refine ⟨enough, ?_⟩
  intro fuel hle
  rw [henough fuel hle, walk_zoneTable hroot htable]
  rfl

/-! ### Going wrong -/

/-- Where no fatal name can be come to, no call goes wrong. -/
theorem retriveValue_ne_undefined (hroot : buildTrie shell = .ok root)
    (htable : zoneTable shell = .ok table) {fuel : Nat} :
    ∀ {domainName : Bytes} {calls : Nat → CallEnv} {cache : DNSCache},
      (∀ name, ReflTransGen (RedirectsTo table) domainName name → ¬ Fatal table name) →
      retriveValue fuel root domainName calls cache ≠ .undefined := by
  induction fuel with
  | zero => intro _ _ _ _ h; simp [retriveValue] at h
  | succ fuel ih =>
      intro domainName calls cache hsafe h
      rcases hlookup : lookupDNSCache (calls 0).cleanNow (calls 0).touchNow cache domainName
        with ⟨cache₁, _ | value⟩
      · rw [retriveValue_miss root calls hlookup] at h
        rcases hsearch : searchTrie fuel root (extractWordsFromDomain domainName)
          with _ | _ | result
        · simp [hsearch, afterSearch] at h
        · have hwalk := walk_of_searchTrie hsearch (by simp)
          rw [walk_zoneTable hroot htable] at hwalk
          exact hsafe domainName ReflTransGen.refl (landing_undefined_iff.mp hwalk)
        · have hwalk := searchTrie_eq_walk hsearch
          rw [walk_zoneTable hroot htable] at hwalk
          rw [hsearch] at h
          rcases result with value | ns | _
          · simp [afterSearch] at h
          · have hnext : RedirectsTo table domainName
                (if (calls 0).coin then ns.domain1 else ns.domain2) := by
              refine redirectsTo_iff.mpr ⟨ns, hwalk, ?_⟩
              rcases (calls 0).coin
              · exact Or.inr rfl
              · exact Or.inl rfl
            refine ih ?_ h
            intro name hreach
            exact hsafe name (ReflTransGen.head hnext hreach)
          · simp [afterSearch] at h
      · rw [retriveValue_succ, hlookup] at h
        simp at h

/-- Nothing is cached. -/
def DNSCache.IsEmpty (cache : DNSCache) : Prop := ∀ i, cache.buckets i = []

theorem lookup_isEmpty {cache : DNSCache} (h : cache.IsEmpty) (cleanNow now : Int)
    (domainName : Bytes) :
    ∃ cache₁, lookupDNSCache cleanNow now cache domainName = (cache₁, none) ∧ cache₁.IsEmpty := by
  obtain ⟨hafter, hnothing⟩ := lookup_empty h cleanNow now domainName
  exact ⟨_, Prod.ext rfl hnothing, hafter⟩

/-- A coin on which a call with nothing cached goes on with the name. -/
theorem exists_coin {domainName next : Bytes} (h : RedirectsTo table domainName next) :
    ∃ ns coin, landing table (question domainName) = done (.redirect ns) ∧
      (if coin = true then ns.domain1 else ns.domain2) = next := by
  obtain ⟨ns, hlanding, hnext⟩ := redirectsTo_iff.mp h
  rcases hnext with rfl | rfl
  · exact ⟨ns, true, hlanding, rfl⟩
  · exact ⟨ns, false, hlanding, rfl⟩

/-- Calls for which the clock stands still. -/
def callsOf (coins : Nat → Bool) : Nat → CallEnv :=
  fun i => { cleanNow := 0, touchNow := 0, entryNow := 0, coin := coins i }

/-- Where a name can be come to, some coins lead there, and what its search comes to decides. -/
theorem exists_coins (hroot : buildTrie shell = .ok root)
    (htable : zoneTable shell = .ok table) {P : Call (Option CacheEntry × DNSCache) → Prop}
    {domainName name : Bytes} (hreach : ReflTransGen (RedirectsTo table) domainName name)
    (hend : ∀ fuel cache, P (afterSearch fuel root name (callsOf fun _ => true) cache
      (landing table (question name)))) :
    ∃ coins, ∀ cache : DNSCache, cache.IsEmpty → ∃ enough, ∀ fuel, enough ≤ fuel →
      P (retriveValue fuel root domainName (callsOf coins) cache) := by
  induction hreach using ReflTransGen.head_induction_on with
  | refl =>
      refine ⟨fun _ => true, ?_⟩
      intro cache hempty
      obtain ⟨cache₁, hmiss, -⟩ := lookup_isEmpty hempty 0 0 name
      obtain ⟨enough, henough⟩ := retriveValue_landing hroot htable (callsOf fun _ => true) hmiss
      refine ⟨enough + 1, ?_⟩
      intro fuel hle
      obtain ⟨fuel, rfl⟩ : ∃ f, fuel = f + 1 := ⟨fuel - 1, by omega⟩
      rw [henough fuel (by omega)]
      exact hend fuel cache₁
  | @head domainName next hnext _ ih =>
      obtain ⟨coins, hcoins⟩ := ih
      obtain ⟨ns, coin, hlanding, hpick⟩ := exists_coin hnext
      let coins' : Nat → Bool := fun i => Nat.rec coin (fun i _ => coins i) i
      refine ⟨coins', ?_⟩
      intro cache hempty
      obtain ⟨cache₁, hmiss, hempty₁⟩ := lookup_isEmpty hempty 0 0 domainName
      obtain ⟨m, hm⟩ := retriveValue_landing hroot htable (callsOf coins') hmiss
      obtain ⟨n, hn⟩ := hcoins cache₁ hempty₁
      refine ⟨max m n + 1, ?_⟩
      intro fuel hle
      obtain ⟨fuel, rfl⟩ : ∃ f, fuel = f + 1 := ⟨fuel - 1, by omega⟩
      rw [hm fuel (by omega), hlanding]
      show P (retriveValue _ root (if coin = true then ns.domain1 else ns.domain2) (callsOf coins)
        cache₁)
      rw [hpick]
      exact hn fuel (by omega)

/-- Where a fatal name can be come to, some coins lead there. -/
theorem exists_undefined (hroot : buildTrie shell = .ok root)
    (htable : zoneTable shell = .ok table) {domainName name : Bytes}
    (hreach : ReflTransGen (RedirectsTo table) domainName name) (hfatal : Fatal table name) :
    ∃ coins, ∀ cache : DNSCache, cache.IsEmpty →
      Settles (fun fuel => retriveValue fuel root domainName (callsOf coins) cache)
        .undefined := by
  have hend : ∀ fuel cache, afterSearch fuel root name (callsOf fun _ => true) cache
      (landing table (question name)) = .undefined := by
    intro fuel cache
    rw [landing_undefined_iff.mpr hfatal]
    rfl
  exact @exists_coins _ _ _ hroot htable (fun x => x = .undefined) _ _ hreach hend

/--
**When looking a name up goes wrong.**  On no cache, clock and coins does a call read
a word, a child or a server that is not there, exactly when no name that
redirections lead to from the one asked, itself included, is fatal: without words, a
top label alone, a label between a zone's top one and its own, or a zone's `@`.
-/
theorem retriveValue_defined_iff (shell : Shell) (root : TrieNode) (table : List ZoneData)
    (hroot : buildTrie shell = .ok root) (htable : zoneTable shell = .ok table)
    (domainName : Bytes) :
    (∀ calls cache fuel, retriveValue fuel root domainName calls cache ≠ .undefined) ↔
      ∀ name, ReflTransGen (RedirectsTo table) domainName name → ¬ Fatal table name := by
  refine ⟨?_, ?_⟩
  · intro h name hreach hfatal
    obtain ⟨coins, hcoins⟩ := exists_undefined hroot htable hreach hfatal
    obtain ⟨enough, henough⟩ := hcoins initializeDNSCache fun _ => rfl
    exact h (callsOf coins) initializeDNSCache enough (henough enough (Nat.le_refl _))
  · intro hsafe calls cache fuel
    exact retriveValue_ne_undefined hroot htable hsafe

theorem retriveValue_defined_iff_twoZones : ∃ root table,
    buildTrie twoZones = .ok root ∧ zoneTable twoZones = .ok table ∧
    ((∀ calls cache fuel, retriveValue fuel root (ascii "www.a.com") calls cache ≠ .undefined) ↔
      ∀ name, ReflTransGen (RedirectsTo table) (ascii "www.a.com") name → ¬ Fatal table name) := by
  obtain ⟨root, hroot⟩ := twoZones_built
  obtain ⟨table, htable, -⟩ := exists_zoneTable hroot
  exact ⟨root, table, hroot, htable, retriveValue_defined_iff twoZones root table hroot htable _⟩

/-- With two zones of two records each, asking for their top label goes wrong. -/
theorem retriveValue_topLabel : ∃ root table,
    buildTrie twoZones = .ok root ∧ zoneTable twoZones = .ok table ∧
    (∀ zone ∈ table, zone.records.length = 2) ∧
    ∃ calls fuel,
      retriveValue fuel root (ascii "com") calls initializeDNSCache = .undefined := by
  obtain ⟨root, hroot⟩ := twoZones_built
  obtain ⟨zone, zone', htable, hlength, hlength', hfirst, hown⟩ : ∃ zone zone',
      zoneTable twoZones = .ok [zone, zone'] ∧ zone.records.length = 2 ∧
      zone'.records.length = 2 ∧ zone.labels.head? = some (ascii "com") ∧
      zone.own = some (ascii "a") := ⟨_, _, rfl, rfl, rfl, rfl, rfl⟩
  have hfatal : Fatal [zone, zone'] (ascii "com") := by
    have hquestion : question (ascii "com") = [ascii "com"] := rfl
    unfold Fatal
    rw [hquestion]
    refine ⟨zone, ?_, ?_⟩
    · unfold decidingZone
      rw [List.find?_cons_of_pos (by rw [hfirst]; simp)]
    · unfold ZoneData.IsFatal
      rw [hown]
      exact Or.inl rfl
  obtain ⟨coins, hcoins⟩ := exists_undefined hroot htable ReflTransGen.refl hfatal
  obtain ⟨enough, henough⟩ := hcoins initializeDNSCache fun _ => rfl
  refine ⟨root, _, hroot, htable, ?_, callsOf coins, enough, henough enough (Nat.le_refl _)⟩
  intro z hz
  rcases List.mem_cons.mp hz with rfl | hz'
  · exact hlength
  · rw [List.mem_singleton.mp hz']
    exact hlength'

/-! ### Going on for ever -/

/-- Where every chain of redirections ends, every call returns. -/
theorem retriveValue_returns (hroot : buildTrie shell = .ok root)
    (htable : zoneTable shell = .ok table) {domainName : Bytes}
    (hacc : Acc (fun next name => RedirectsTo table name next) domainName) :
    ∀ calls cache, Returns (fun fuel => retriveValue fuel root domainName calls cache) := by
  induction hacc with
  | intro domainName _ ih =>
      intro calls cache
      rcases hlookup : lookupDNSCache (calls 0).cleanNow (calls 0).touchNow cache domainName
        with ⟨cache₁, _ | value⟩
      · obtain ⟨m, hm⟩ := retriveValue_landing hroot htable calls hlookup
        rcases hlanding : landing table (question domainName) with _ | _ | _ | ns | _
        · have hrunning := walk_ne_running (extractWordsFromDomain domainName).reverse root
          rw [walk_zoneTable hroot htable] at hrunning
          exact absurd hlanding hrunning
        · rw [hlanding] at hm
          exact Returns.of_step (Mono.const _) ⟨0, by simp⟩ hm
        · rw [hlanding] at hm
          exact Returns.of_step (Mono.const _) ⟨0, by simp⟩ hm
        · have hnext : RedirectsTo table domainName
              (if (calls 0).coin then ns.domain1 else ns.domain2) := by
            refine redirectsTo_iff.mpr ⟨ns, hlanding, ?_⟩
            rcases (calls 0).coin
            · exact Or.inr rfl
            · exact Or.inl rfl
          rw [hlanding] at hm
          exact Returns.of_step (retriveValue_mono _ _ _ _) (ih _ hnext _ cache₁) hm
        · rw [hlanding] at hm
          exact Returns.of_step (Mono.const _) ⟨0, by simp⟩ hm
      · refine ⟨1, ?_⟩
        show retriveValue (0 + 1) root domainName calls cache ≠ .running
        rw [retriveValue_succ, hlookup]
        simp

/-- Along a path of redirections without an end, some coins keep a call going for ever. -/
theorem exists_running (hroot : buildTrie shell = .ok root)
    (htable : zoneTable shell = .ok table) {path : Nat → Bytes}
    (hpath : ∀ n, RedirectsTo table (path n) (path (n + 1))) :
    ∃ coins : Nat → Bool, ∀ fuel n, ∀ cache : DNSCache, cache.IsEmpty →
      retriveValue fuel root (path n) (callsOf fun i => coins (n + i)) cache = .running := by
  choose ns coins hlanding hpick using fun n => exists_coin (hpath n)
  refine ⟨coins, ?_⟩
  intro fuel
  induction fuel with
  | zero => intro _ _ _; rfl
  | succ fuel ih =>
      intro n cache hempty
      obtain ⟨cache₁, hmiss, hempty₁⟩ := lookup_isEmpty hempty 0 0 (path n)
      rw [retriveValue_miss root (callsOf fun i => coins (n + i)) hmiss]
      rcases hsearch : searchTrie fuel root (extractWordsFromDomain (path n)) with _ | _ | result
      · rfl
      · have hwalk := walk_of_searchTrie hsearch (by simp)
        rw [walk_zoneTable hroot htable] at hwalk
        exact absurd (hwalk.symm.trans (hlanding n)) (by simp)
      · have hwalk := searchTrie_eq_walk hsearch
        rw [walk_zoneTable hroot htable] at hwalk
        have hresult := hwalk.symm.trans (hlanding n)
        rw [done.injEq] at hresult
        subst hresult
        have hshift : (fun i => callsOf (fun i => coins (n + i)) (i + 1))
            = callsOf fun i => coins (n + 1 + i) := by
          funext i
          have hsum : n + (i + 1) = n + 1 + i := by omega
          show CallEnv.mk 0 0 0 (coins (n + (i + 1))) = CallEnv.mk 0 0 0 (coins (n + 1 + i))
          rw [hsum]
        show retriveValue fuel root (if coins n = true then (ns n).domain1 else (ns n).domain2)
          (fun i => callsOf (fun i => coins (n + i)) (i + 1)) cache₁ = _
        rw [hpick, hshift]
        exact ih (n + 1) cache₁ hempty₁

theorem returns_iff_no_ring (hroot : buildTrie shell = .ok root)
    (htable : zoneTable shell = .ok table) {domainName : Bytes} :
    (∀ calls cache, Returns (fun fuel => retriveValue fuel root domainName calls cache)) ↔
      ∀ name, ReflTransGen (RedirectsTo table) domainName name →
        ¬ TransGen (RedirectsTo table) name name := by
  rw [← Descent.acc_iff_no_ring (redirectsTo_finite table)]
  refine ⟨?_, fun hacc => retriveValue_returns hroot htable hacc⟩
  intro h
  by_contra hnot
  obtain ⟨path, hstart, hpath⟩ := Descent.exists_path_of_not_acc hnot
  obtain ⟨coins, hcoins⟩ := exists_running hroot htable hpath
  obtain ⟨fuel, hfuel⟩ := h (callsOf fun i => coins (0 + i)) initializeDNSCache
  rw [← hstart] at hfuel
  exact hfuel (hcoins fuel 0 initializeDNSCache fun _ => rfl)

/--
**When redirection ends.**  Every call for a name comes to an end, whatever the cache,
the clock and the coins, exactly when no ring of redirections can be come to from the
name; and every call returns exactly when no fatal name can be come to either.
-/
theorem retriveValue_ends_iff (shell : Shell) (root : TrieNode) (table : List ZoneData)
    (hroot : buildTrie shell = .ok root) (htable : zoneTable shell = .ok table)
    (domainName : Bytes) :
    ((∀ calls cache, Returns (fun fuel => retriveValue fuel root domainName calls cache)) ↔
      ∀ name, ReflTransGen (RedirectsTo table) domainName name →
        ¬ TransGen (RedirectsTo table) name name) ∧
    ((∀ calls cache, ∃ result,
        Settles (fun fuel => retriveValue fuel root domainName calls cache) (done result)) ↔
      ∀ name, ReflTransGen (RedirectsTo table) domainName name →
        ¬ TransGen (RedirectsTo table) name name ∧ ¬ Fatal table name) := by
  refine ⟨returns_iff_no_ring hroot htable, ?_, ?_⟩
  · intro h name hreach
    refine ⟨?_, ?_⟩
    · refine (returns_iff_no_ring hroot htable).mp ?_ name hreach
      intro calls cache
      obtain ⟨result, hresult⟩ := h calls cache
      exact hresult.returns (by simp)
    · intro hfatal
      obtain ⟨coins, hcoins⟩ := exists_undefined hroot htable hreach hfatal
      obtain ⟨result, hresult⟩ := h (callsOf coins) initializeDNSCache
      exact absurd (hresult.unique (hcoins initializeDNSCache fun _ => rfl)) (by simp)
  · intro h calls cache
    obtain ⟨fuel, hfuel⟩ := (returns_iff_no_ring hroot htable).mpr
      (fun name hreach => (h name hreach).1) calls cache
    rcases hcall : retriveValue fuel root domainName calls cache with _ | _ | result
    · exact absurd hcall hfuel
    · exact absurd hcall (retriveValue_ne_undefined hroot htable fun name hreach =>
        (h name hreach).2)
    · exact ⟨result, (retriveValue_mono _ _ _ _).settles_done fuel hcall⟩

theorem retriveValue_ends_iff_twoZones : ∃ root table,
    buildTrie twoZones = .ok root ∧ zoneTable twoZones = .ok table ∧
    ((∀ calls cache,
        Returns (fun fuel => retriveValue fuel root (ascii "www.a.com") calls cache)) ↔
      ∀ name, ReflTransGen (RedirectsTo table) (ascii "www.a.com") name →
        ¬ TransGen (RedirectsTo table) name name) := by
  obtain ⟨root, hroot⟩ := twoZones_built
  obtain ⟨table, htable, -⟩ := exists_zoneTable hroot
  exact ⟨root, table, hroot, htable, (retriveValue_ends_iff twoZones root table hroot htable _).1⟩

/-! ### A zone that names itself -/

/-- The scripts over the same zones, with the first one's own name for every server. -/
def ringZones : Shell := fun command =>
  if getNsDomains.isPrefixOf command then some (ascii "a.com\n") else twoZones command

/-- The zone's own name is looked up for ever. -/
theorem retriveValue_ring : ∃ root, buildTrie ringZones = .ok root ∧
    ¬ ∀ calls cache, Returns (fun fuel => retriveValue fuel root (ascii "a.com") calls cache) := by
  obtain ⟨root, hroot⟩ : ∃ root, buildTrie ringZones = .ok root := ⟨_, rfl⟩
  obtain ⟨zone, rest, htable, hfirst, hown, hmiddles, hserver⟩ : ∃ zone rest,
      zoneTable ringZones = .ok (zone :: rest) ∧ zone.labels.head? = some (ascii "com") ∧
      zone.own = some (ascii "a") ∧ zone.middles = [] ∧ zone.servers.domain1 = ascii "a.com" :=
    ⟨_, _, rfl, rfl, rfl, rfl, rfl⟩
  refine ⟨root, hroot, ?_⟩
  rw [returns_iff_no_ring hroot htable]
  intro h
  refine h _ ReflTransGen.refl (TransGen.single ?_)
  refine ⟨ascii "com", [ascii "a"], zone, rfl, ?_, ?_, Or.inl hserver.symm⟩
  · unfold decidingZone
    rw [List.find?_cons_of_pos (by rw [hfirst]; simp)]
  · unfold ZoneData.IsApex
    rw [hown, hmiddles]
    exact ⟨List.not_mem_nil, rfl⟩

end DnsServer
