/-
Which names one zone answers.

With one zone of two labels in the trie, a name is found where its labels, empty ones
left out, are a listed name and the zone's two; or the zone's two, and then one of its
servers is found.  What is listed is not only owners, and many names have the same
labels: so more is answered than the zone's own names.
-/
import DnsServer.Proofs.Redirects
import DnsServer.Proofs.Scripts

namespace DnsServer

open Call Relation

variable {shell : Shell} {root : TrieNode} {table : List ZoneData}

/-! ### Answers and redirections -/

/-- With nothing cached, what is returned is the record of a name that can be come to. -/
theorem landing_of_retriveValue (hroot : buildTrie shell = .ok root)
    (htable : zoneTable shell = .ok table) {fuel : Nat} :
    ∀ {domainName : Bytes} {calls : Nat → CallEnv} {cache cache' : DNSCache} {entry : CacheEntry},
      cache.IsEmpty → retriveValue fuel root domainName calls cache = done (some entry, cache') →
      ∃ name value, ReflTransGen (RedirectsTo table) domainName name ∧
        landing table (question name) = done (.record value) := by
  induction fuel with
  | zero => intro _ _ _ _ _ _ h; simp [retriveValue] at h
  | succ fuel ih =>
      intro domainName calls cache cache' entry hempty h
      obtain ⟨cache₁, hmiss, hempty₁⟩ :=
        lookup_isEmpty hempty (calls 0).cleanNow (calls 0).touchNow domainName
      rw [retriveValue_miss root calls hmiss] at h
      rcases hsearch : searchTrie fuel root (extractWordsFromDomain domainName) with _ | _ | result
      · rw [hsearch] at h
        simp [afterSearch] at h
      · rw [hsearch] at h
        simp [afterSearch] at h
      · have hlanding := searchTrie_eq_walk hsearch
        rw [walk_zoneTable hroot htable] at hlanding
        rw [hsearch] at h
        rcases result with value | ns | _
        · exact ⟨domainName, value, ReflTransGen.refl, hlanding⟩
        · obtain ⟨name, value, hreach, hrecord⟩ := ih hempty₁ h
          have hnext : RedirectsTo table domainName
              (if (calls 0).coin then ns.domain1 else ns.domain2) := by
            refine redirectsTo_iff.mpr ⟨ns, hlanding, ?_⟩
            rcases (calls 0).coin
            · exact Or.inr rfl
            · exact Or.inl rfl
          exact ⟨name, value, ReflTransGen.head hnext hreach, hrecord⟩
        · simp [afterSearch] at h

/-- **When a name is answered.**  On some clock and coins it is, exactly when a name with a
record can be come to. -/
theorem exists_answer_iff (hroot : buildTrie shell = .ok root)
    (htable : zoneTable shell = .ok table) (domainName : Bytes) :
    (∃ fuel calls entry cache,
        retriveValue fuel root domainName calls initializeDNSCache = done (some entry, cache)) ↔
      ∃ name value, ReflTransGen (RedirectsTo table) domainName name ∧
        landing table (question name) = done (.record value) := by
  refine ⟨?_, ?_⟩
  · intro h
    obtain ⟨fuel, calls, entry, cache, hcall⟩ := h
    exact landing_of_retriveValue hroot htable (fun _ => rfl) hcall
  · intro h
    obtain ⟨name, value, hreach, hlanding⟩ := h
    have hend : ∀ fuel cache, ∃ entry cache', afterSearch fuel root name (callsOf fun _ => true)
        cache (landing table (question name)) = done (some entry, cache') := by
      intro fuel cache
      rw [hlanding]
      exact ⟨_, _, rfl⟩
    obtain ⟨coins, hcoins⟩ := @exists_coins _ _ _ hroot htable
      (fun x => ∃ entry cache', x = done (some entry, cache')) _ _ hreach hend
    obtain ⟨enough, henough⟩ := hcoins initializeDNSCache fun _ => rfl
    obtain ⟨entry, cache, hcall⟩ := henough enough (Nat.le_refl _)
    exact ⟨enough, callsOf coins, entry, cache, hcall⟩

/-! ### One zone of two labels -/

variable {file path z s t : Bytes} {servers : NSQuerys}

theorem recordLines_owners {owners : List Bytes} :
    ∀ {startIndex : Nat} {records : List (Bytes × Bytes)},
      recordLines shell path startIndex owners = .ok records → records.map Prod.fst = owners := by
  induction owners with
  | nil =>
      intro startIndex records h
      rw [← Except.ok.inj h]
      rfl
  | cons owner owners ih =>
      intro startIndex records h
      unfold recordLines at h
      obtain ⟨value, -, h⟩ := load_bind_eq_ok.mp h
      obtain ⟨rest, hrest, h⟩ := load_bind_eq_ok.mp h
      rw [← Except.ok.inj h, List.map_cons, ih hrest]

theorem zoneRecords_owners (hpath : pathToZoneFile shell z = .ok path)
    (hnames : shell (getTerminalNamesScript ++ path) = some (getTerminalNamesSh file))
    {records : List (Bytes × Bytes)} (h : zoneRecords shell z = .ok records) :
    records.map Prod.fst = listedNames file := by
  unfold zoneRecords at h
  obtain ⟨path', hpath', h⟩ := load_bind_eq_ok.mp h
  rw [hpath, Except.ok.injEq] at hpath'
  rw [← hpath'] at h
  obtain ⟨names, hget, hlines⟩ := load_bind_eq_ok.mp h
  rw [recordLines_owners hlines, getTerminalNames_eq hnames hget]

theorem firstValue_isSome_iff {records : List (Bytes × Bytes)} {label : Bytes} :
    (∃ value, firstValue records label = some value) ↔
      label ≠ ascii "@" ∧ label ∈ records.map Prod.fst := by
  unfold firstValue
  by_cases hat : label = ascii "@"
  · rw [if_pos hat]
    simp [hat]
  · rw [if_neg hat]
    rw [← Option.isSome_iff_exists, Option.isSome_map, List.find?_isSome, List.mem_map]
    simp [hat]

/-- What the loader reads of the only zone. -/
theorem exists_zone (htwo : TwoLabels z s t) (hroot : buildTrie shell = .ok root)
    (hzone : getArrayOfDomainNames shell = .ok [z]) (hpath : pathToZoneFile shell z = .ok path)
    (hnames : shell (getTerminalNamesScript ++ path) = some (getTerminalNamesSh file))
    (hservers : zoneServers shell z = .ok servers) :
    ∃ zone : ZoneData, zoneTable shell = .ok [zone] ∧ zone.labels = [t, s] ∧
      zone.servers = servers ∧ zone.records.map Prod.fst = listedNames file := by
  obtain ⟨table, htable, -⟩ := exists_zoneTable hroot
  have hload := htable
  unfold zoneTable at hload
  rw [hzone] at hload
  have hload : ([z].mapM (zoneData shell)) = .ok table := hload
  rw [List.mapM_cons, List.mapM_nil] at hload
  obtain ⟨zone, hdata, hload⟩ := load_bind_eq_ok.mp hload
  have hsingle : [zone] = table := Except.ok.inj hload
  rw [← hsingle] at htable
  refine ⟨zone, htable, ?_⟩
  unfold zoneData at hdata
  obtain ⟨servers', hservers', hdata⟩ := load_bind_eq_ok.mp hdata
  rw [hservers, Except.ok.injEq] at hservers'
  obtain ⟨records, hrecords, hdata⟩ := load_bind_eq_ok.mp hdata
  rw [← Except.ok.inj hdata, ← hservers']
  exact ⟨by rw [htwo.words]; rfl, rfl, zoneRecords_owners hpath hnames hrecords⟩

variable {zone : ZoneData}

/-- What the words from the top label down come to. -/
theorem landing_two (hlabels : zone.labels = [t, s]) (word : Bytes) (words : List Bytes) :
    landing [zone] (word :: words) =
      if word = t then
        match words with
        | [] => .undefined
        | own :: below => if own = s then zone.below below else done .missing
      else done .missing := by
  have hown : zone.own = some s := by
    unfold ZoneData.own
    rw [hlabels]
    rfl
  have hmiddles : zone.middles = [] := by
    unfold ZoneData.middles
    rw [hlabels]
    rfl
  have hhead : zone.labels.head? = some t := by
    rw [hlabels]
    rfl
  rw [landing, decidingZone]
  by_cases hword : word = t
  · rw [if_pos hword, List.find?_cons_of_pos (by simp [hhead, hword])]
    dsimp only
    unfold ZoneData.underTop
    rw [hown, hmiddles]
    cases words with
    | nil => rfl
    | cons own below =>
        dsimp only
        rw [if_neg List.not_mem_nil]
  · rw [if_neg hword, List.find?_cons_of_neg (by simpa [hhead] using fun h => hword h.symm),
      List.find?_nil]

theorem landing_two_record_iff (hlabels : zone.labels = [t, s]) (words : List Bytes)
    (value : Bytes) : landing [zone] words = done (.record value) ↔
      ∃ label, words = [t, s, label] ∧ firstValue zone.records label = some value := by
  cases words with
  | nil =>
      unfold landing
      simp
  | cons word words =>
      rw [landing_two hlabels]
      by_cases hword : word = t
      · rw [if_pos hword]
        cases words with
        | nil => simp
        | cons own below =>
            dsimp only
            by_cases hown : own = s
            · rw [if_pos hown, below_record_iff]
              simp [hword, hown]
            · rw [if_neg hown]
              simp [hown]
      · rw [if_neg hword]
        simp [hword]

theorem question_eq_iff {q : Bytes} {words : List Bytes} :
    question q = words ↔ extractWordsFromDomain q = words.reverse := by
  unfold question
  exact List.reverse_eq_iff

/-- A name has a record where its labels are a listed one and the zone's. -/
theorem landing_record_iff (hlabels : zone.labels = [t, s])
    (hrecords : zone.records.map Prod.fst = listedNames file) (q : Bytes) :
    (∃ value, landing [zone] (question q) = done (.record value)) ↔ UnderZone file s t q := by
  unfold UnderZone
  simp only [landing_two_record_iff hlabels, question_eq_iff, List.reverse_cons, List.reverse_nil,
    List.nil_append, List.cons_append]
  rw [← hrecords]
  refine ⟨?_, ?_⟩
  · intro h
    obtain ⟨value, label, hwords, hvalue⟩ := h
    exact ⟨label, hwords, firstValue_isSome_iff.mp ⟨value, hvalue⟩⟩
  · intro h
    obtain ⟨label, hwords, hlisted⟩ := h
    obtain ⟨value, hvalue⟩ := firstValue_isSome_iff.mpr hlisted
    exact ⟨value, label, hwords, hvalue⟩

/-- The zone's labels alone lead to its servers. -/
theorem redirectsTo_zone_iff (hlabels : zone.labels = [t, s]) (q next : Bytes) :
    RedirectsTo [zone] q next ↔ extractWordsFromDomain q = [s, t] ∧
      (next = zone.servers.domain1 ∨ next = zone.servers.domain2) := by
  have hapex : ∀ ns, landing [zone] (question q) = done (.redirect ns) ↔
      question q = [t, s] ∧ ns = zone.servers := by
    intro ns
    cases question q with
    | nil =>
        unfold landing
        simp
    | cons word words =>
        rw [landing_two hlabels]
        by_cases hword : word = t
        · rw [if_pos hword]
          cases words with
          | nil => simp
          | cons own below =>
              dsimp only
              by_cases hown : own = s
              · rw [if_pos hown, below_redirect_iff]
                simp [hword, hown]
              · rw [if_neg hown]
                simp [hown]
        · rw [if_neg hword]
          simp [hword]
  rw [redirectsTo_iff]
  simp only [hapex, question_eq_iff]
  refine ⟨?_, ?_⟩
  · intro h
    obtain ⟨ns, ⟨hwords, rfl⟩, hnext⟩ := h
    exact ⟨hwords, hnext⟩
  · intro h
    exact ⟨zone.servers, ⟨h.1, rfl⟩, h.2⟩

/-- **What one zone answers.** -/
theorem exists_record_iff (hlabels : zone.labels = [t, s])
    (hrecords : zone.records.map Prod.fst = listedNames file) (q : Bytes) :
    (∃ name value, ReflTransGen (RedirectsTo [zone]) q name ∧
        landing [zone] (question name) = done (.record value)) ↔
      FoundUnder file s t zone.servers q := by
  refine ⟨?_, ?_⟩
  · intro h
    obtain ⟨name, value, hreach, hlanding⟩ := h
    have hunder := (landing_record_iff hlabels hrecords name).mp ⟨value, hlanding⟩
    rcases ReflTransGen.cases_head hreach with rfl | ⟨next, hfirst, -⟩
    · exact Or.inl hunder
    · refine Or.inr ⟨((redirectsTo_zone_iff hlabels _ _).mp hfirst).1, ?_⟩
      rcases ReflTransGen.cases_tail hreach with rfl | ⟨before, -, hlast⟩
      · -- a name with a record is not redirected
        obtain ⟨ns, hredirect, -⟩ := redirectsTo_iff.mp hfirst
        rw [hlanding, done.injEq] at hredirect
        cases hredirect
      · rcases ((redirectsTo_zone_iff hlabels _ _).mp hlast).2 with rfl | rfl
        · exact Or.inl hunder
        · exact Or.inr hunder
  · intro h
    rcases h with hunder | ⟨hwords, hservers⟩
    · obtain ⟨value, hlanding⟩ := (landing_record_iff hlabels hrecords q).mpr hunder
      exact ⟨q, value, ReflTransGen.refl, hlanding⟩
    · have hnext : ∃ server, RedirectsTo [zone] q server ∧ UnderZone file s t server := by
        rcases hservers with hunder | hunder
        · exact ⟨_, (redirectsTo_zone_iff hlabels _ _).mpr ⟨hwords, Or.inl rfl⟩, hunder⟩
        · exact ⟨_, (redirectsTo_zone_iff hlabels _ _).mpr ⟨hwords, Or.inr rfl⟩, hunder⟩
      obtain ⟨server, hredirects, hunder⟩ := hnext
      obtain ⟨value, hlanding⟩ := (landing_record_iff hlabels hrecords server).mpr hunder
      exact ⟨server, value, ReflTransGen.single hredirects, hlanding⟩

/-! ### The names that are answered -/

/--
**Only the zone's own names are answered**, for a name, exactly when it is one of them or is
not found: it is found where its labels, empty ones left out, are a listed name and the
zone's two, or the zone's two with one of its servers found.
-/
theorem local_answer_iff (shell : Shell) (root : TrieNode) (z s t path file : Bytes)
    (servers : NSQuerys) (htwo : TwoLabels z s t) (hroot : buildTrie shell = .ok root)
    (hzone : getArrayOfDomainNames shell = .ok [z]) (hpath : pathToZoneFile shell z = .ok path)
    (hnames : shell (getTerminalNamesScript ++ path) = some (getTerminalNamesSh file))
    (hservers : zoneServers shell z = .ok servers) (q : Bytes) :
    (∀ fuel calls entry cache,
        retriveValue fuel root q calls initializeDNSCache = done (some entry, cache) →
        OwnName file z q) ↔
      OwnName file z q ∨ ¬ FoundUnder file s t servers q := by
  obtain ⟨zone, htable, hlabels, rfl, hrecords⟩ :=
    exists_zone htwo hroot hzone hpath hnames hservers
  have hanswer := (exists_answer_iff hroot htable q).trans (exists_record_iff hlabels hrecords q)
  refine ⟨?_, ?_⟩
  · intro h
    by_cases hfound : FoundUnder file s t zone.servers q
    · obtain ⟨fuel, calls, entry, cache, hcall⟩ := hanswer.mpr hfound
      exact Or.inl (h fuel calls entry cache hcall)
    · exact Or.inr hfound
  · intro h fuel calls entry cache hcall
    rcases h with hown | hnot
    · exact hown
    · exact absurd (hanswer.mp ⟨fuel, calls, entry, cache, hcall⟩) hnot

/-! ### A line feed and a doubled dot -/

/-- The newline at the end of the names is answered as a label, in every zone whose names fit. -/
theorem lineFeed_found (htwo : TwoLabels z s t)
    (hfits : (getTerminalNamesSh file).length < lineBufferSize)
    (hnul : 0 ∉ getTerminalNamesSh file) :
    FoundUnder file s t servers ([newline] ++ dot :: z) ∧
      ¬ OwnName file z ([newline] ++ dot :: z) := by
  refine ⟨Or.inl ⟨[newline], ?_, by decide, ?_⟩, ?_⟩
  · rw [words_append, htwo.words, words_single (by simp) (by decide)]
    rfl
  · rw [listedNames_of_fits hfits hnul]
    exact List.mem_append_right _ List.mem_cons_self
  · intro hown
    rcases hown with hsame | ⟨line, -, owner, type, value, haddress, hname⟩
    · have hlength := congrArg List.length hsame
      simp only [List.length_append, List.length_cons, List.length_nil] at hlength
      omega
    · have howner : owner = [newline] := (List.append_cancel_right hname).symm
      obtain ⟨rest, hwords⟩ := haddress.words
      have hmem : owner ∈ blankWords line := by
        rw [hwords]
        exact List.mem_cons_self
      rw [howner] at hmem
      exact (of_mem_blankWords hmem).2.2.2 List.mem_cons_self

theorem hostLines_first :
    ∀ line ∈ zoneHeader ++ hostLines, (blankWords line).head? ≠ some (ascii "www.") := by decide

theorem exampleCom_two : TwoLabels (ascii "example.com") (ascii "example") (ascii "com") :=
  ⟨by decide, by decide, by decide, by decide, by decide⟩

/-- The trie with the zone that is shipped. -/
theorem exists_hostTrie : ∃ root servers, buildTrie (zoneShell (zoneFile hostLines)) = .ok root ∧
    zoneServers (zoneShell (zoneFile hostLines)) (ascii "example.com") = .ok servers := by
  have hcount : (listedNames (zoneFile hostLines)).length < nrArray := by
    rw [hostLines_listed]
    decide
  obtain ⟨terminal, hterminal⟩ := zoneShell_loaded hcount
  obtain ⟨branch, hbranch⟩ := createBranch_of_two exampleCom_two.words hterminal
  obtain ⟨root, hroot⟩ := buildTrie_of_branch (zoneShell_zones _) hbranch
  obtain ⟨servers, -, hservers, -⟩ := createTerminalNode_ok hterminal
  exact ⟨root, servers, hroot, hservers⟩

/-- Only what it names is answered for `www.example.com`. -/
theorem local_answer_iff_www : ∃ root,
    buildTrie (zoneShell (zoneFile hostLines)) = .ok root ∧
    ∀ fuel calls entry cache,
      retriveValue fuel root (ascii "www.example.com") calls initializeDNSCache
        = done (some entry, cache) →
      OwnName (zoneFile hostLines) (ascii "example.com") (ascii "www.example.com") := by
  obtain ⟨root, servers, hroot, hservers⟩ := exists_hostTrie
  have hiff := local_answer_iff _ root _ _ _ _ _ servers exampleCom_two hroot (zoneShell_zones _)
    (zoneShell_path _) (zoneShell_names _) hservers (ascii "www.example.com")
  refine ⟨root, hroot, hiff.mpr (Or.inl (Or.inr ?_))⟩
  rw [linesOf_zoneFile hostLines_whole]
  exact ⟨ascii "www     IN  A    192.168.1.3", by decide, ascii "www", ascii "A",
    ascii "192.168.1.3", ⟨⟨[], by decide⟩, Or.inl rfl, by decide, by decide⟩, rfl⟩

/-- The names `www..example.com` and a line feed under `example.com` are answered, and neither
is one of the zone's. -/
theorem strangers_answered : ∃ root, buildTrie (zoneShell (zoneFile hostLines)) = .ok root ∧
    getArrayOfDomainNames (zoneShell (zoneFile hostLines)) = .ok [ascii "example.com"] ∧
    ∀ q ∈ [ascii "www..example.com", ascii "\n.example.com"],
      (∃ fuel calls entry cache,
        retriveValue fuel root q calls initializeDNSCache = done (some entry, cache)) ∧
      ¬ OwnName (zoneFile hostLines) (ascii "example.com") q := by
  obtain ⟨root, servers, hroot, hservers⟩ := exists_hostTrie
  obtain ⟨zone, htable, hlabels, -, hrecords⟩ := exists_zone exampleCom_two hroot
    (zoneShell_zones _) (zoneShell_path _) (zoneShell_names _) hservers
  have hanswered : ∀ q, FoundUnder (zoneFile hostLines) (ascii "example") (ascii "com")
      zone.servers q → ∃ fuel calls entry cache,
        retriveValue fuel root q calls initializeDNSCache = done (some entry, cache) :=
    fun q h => (exists_answer_iff hroot htable q).mpr
      ((exists_record_iff hlabels hrecords q).mpr h)
  refine ⟨root, hroot, zoneShell_zones _, ?_⟩
  intro q hq
  rcases List.mem_cons.mp hq with rfl | hq
  · refine ⟨hanswered _ (Or.inl ⟨ascii "www", by decide, by decide, ?_⟩), ?_⟩
    · rw [hostLines_listed]
      decide
    · intro hown
      rcases hown with hsame | ⟨line, hline, owner, type, value, haddress, hname⟩
      · exact absurd hsame (by decide)
      · have howner : owner = ascii "www." :=
          (@List.append_cancel_right _ (ascii "www.") _ _ hname).symm
        rw [linesOf_zoneFile hostLines_whole] at hline
        obtain ⟨rest, hwords⟩ := haddress.words
        rw [howner] at hwords
        exact hostLines_first line hline (by rw [hwords]; rfl)
  · rw [List.mem_singleton.mp hq]
    have hfound := @lineFeed_found (zoneFile hostLines) _ _ _ zone.servers exampleCom_two
      (by rw [hostLines_names]; decide) (by rw [hostLines_names]; decide)
    exact ⟨hanswered _ hfound.1, hfound.2⟩

end DnsServer
