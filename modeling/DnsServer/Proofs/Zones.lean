/-
Which records can be reached.

`main` appends a branch for each zone under the root, top label first, and the
search descends into the first child with a label and never comes back.  So two
zones under one top label hide one another: only the first of them is ever
entered.  Within a zone the search takes one label for the owner, meets the node
named `@` first, and then the first node with the label.

What a zone's file gives, as the loader reads it, is `zoneRecords`: the owners in
order, each with the value of its own line.  The theorem says exactly which zones
and owners come back.
-/
import DnsServer.Proofs.Agreement
import DnsServer.Proofs.Names
import DnsServer.Proofs.ZoneTable

namespace DnsServer

open Call

/-! ### Words of a name -/

theorem words_append (a b : Bytes) :
    extractWordsFromDomain (a ++ dot :: b)
      = extractWordsFromDomain a ++ extractWordsFromDomain b :=
  strtok_append List.mem_cons_self a b

theorem words_single {a : Bytes} (ha : a ≠ []) (hdot : dot ∉ a) :
    extractWordsFromDomain a = [a] :=
  strtok_single ha (by simpa using hdot)

/-- A zone's name in two labels. -/
structure TwoLabels (z s t : Bytes) : Prop where
  eq : z = s ++ dot :: t
  first : s ≠ []
  second : t ≠ []
  noDot : dot ∉ s
  noDot' : dot ∉ t

theorem TwoLabels.words {z s t : Bytes} (h : TwoLabels z s t) :
    extractWordsFromDomain z = [s, t] := by
  rw [h.eq, words_append, words_single h.first h.noDot, words_single h.second h.noDot']
  rfl

/-- The words of a name under a zone are the owner's and then the zone's. -/
theorem TwoLabels.words_under {z s t : Bytes} (h : TwoLabels z s t) (owner : Bytes) :
    (extractWordsFromDomain (owner ++ dot :: z)).reverse
      = t :: s :: (extractWordsFromDomain owner).reverse := by
  rw [words_append, h.words, List.reverse_append]
  rfl

theorem TwoLabels.ext {z z' s t : Bytes} (h : TwoLabels z s t) (h' : TwoLabels z' s t) :
    z = z' := by
  rw [h.eq, h'.eq]

/-! ### Which zone is entered -/

/-- The top label of a zone's name. -/
def topLabel (zone : Bytes) : Option Bytes := (extractWordsFromDomain zone).getLast?

/-- No zone before this one shares its top label. -/
def FirstUnderTop (zones : List Bytes) (zone : Bytes) : Prop :=
  zones.find? (fun other => topLabel other = topLabel zone) = some zone

theorem TwoLabels.top {z s t : Bytes} (h : TwoLabels z s t) : topLabel z = some t := by
  unfold topLabel
  rw [h.words]
  rfl

variable {shell : Shell} {root : TrieNode} {zones : List Bytes}

/-- The first child with a zone's top label is the branch of the first zone under it. -/
theorem exists_first_branch (hroot : buildTrie shell = .ok root)
    (hzones : getArrayOfDomainNames shell = .ok zones)
    (htwo : ∀ z ∈ zones, ∃ s t, TwoLabels z s t) {z s t : Bytes} (hz : z ∈ zones)
    (hst : TwoLabels z s t) :
    ∃ first s' zone branch,
      zones.find? (fun other => topLabel other = topLabel z) = some first ∧
      root.childrens.find? (fun child => child.label = t) = some branch ∧
      TwoLabels first s' t ∧ BranchOf shell first zone branch := by
  have hall : List.Forall₂ (fun z branch => (∃ s t, TwoLabels z s t) ∧
      createBranch shell z = .ok branch) zones root.childrens :=
    (List.forall₂_and_left _ _).mpr ⟨htwo, buildTrie_ok hroot hzones⟩
  have hlabels : ∀ other branch,
      (∃ s t, TwoLabels other s t) ∧ createBranch shell other = .ok branch →
      decide (topLabel other = topLabel z) = decide (branch.label = t) := by
    intro other branch hbranch
    obtain ⟨⟨s', t', hst'⟩, hok⟩ := hbranch
    obtain ⟨zone, hzone⟩ := branchOf_createBranch hok
    have htop := hzone.top
    rw [hzone.labels, hst'.words, List.reverse_cons, List.reverse_singleton, List.singleton_append,
      List.head?_cons, Option.some.injEq] at htop
    rw [hst'.top, hst.top, htop]
    simp
  rcases forall₂_find? hall hlabels with
    ⟨hnone, -⟩ | ⟨first, branch, hfirst, hfound, ⟨s', t', hst'⟩, hok⟩
  · have hself := List.find?_eq_none.mp hnone z hz
    simp at hself
  · have htop := List.find?_some hfirst
    rw [decide_eq_true_eq, hst'.top, hst.top, Option.some.injEq] at htop
    subst htop
    obtain ⟨zone, hzone⟩ := branchOf_createBranch hok
    exact ⟨first, s', zone, branch, hfirst, hfound, hst', hzone⟩

/-- **A name under a zone leads to a record exactly when** the zone is the first under its top
label and the name is one label more, the owner of a record. -/
theorem findsRecord_under_iff (hroot : buildTrie shell = .ok root)
    (hzones : getArrayOfDomainNames shell = .ok zones)
    (htwo : ∀ z ∈ zones, ∃ s t, TwoLabels z s t) {z : Bytes} (hz : z ∈ zones)
    {records : List (Bytes × Bytes)} (hrecords : zoneRecords shell z = .ok records)
    (owner value : Bytes) :
    FindsRecord root (owner ++ dot :: z) value ↔
      FirstUnderTop zones z ∧ ∃ label, extractWordsFromDomain owner = [label] ∧
        firstValue records label = some value := by
  obtain ⟨s, t, hst⟩ := htwo z hz
  obtain ⟨first, s', zone, branch, hfirst, hfound, hst', hzone⟩ :=
    exists_first_branch hroot hzones htwo hz hst
  rw [findsRecord_iff, hst.words_under, walk_cons, hfound]
  dsimp only
  rw [hzone.record_iff hst'.words]
  by_cases hsame : first = z
  · subst hsame
    have hs := hst.words.symm.trans hst'.words
    rw [List.cons.injEq] at hs
    have hzoneRecords := hzone.records
    rw [hrecords, Except.ok.injEq] at hzoneRecords
    rw [hzoneRecords]
    exact ⟨fun h => ⟨hfirst, h.2⟩, fun h => ⟨hs.1, h.2⟩⟩
  · have hne : s ≠ s' := by
      intro hs
      subst hs
      exact hsame (hst'.ext hst)
    refine ⟨fun h => absurd h.1 hne, ?_⟩
    intro h
    have hz' : zones.find? _ = some z := h.1
    rw [hfirst, Option.some.injEq] at hz'
    exact absurd hz' hsame

/-! ### Reaching a record -/

/-- Looked up with nothing cached, the name answers with this value, as its own. -/
def Reaches (root : TrieNode) (domainName value : Bytes) : Prop :=
  ∀ calls, ∃ entry cache,
    Settles (fun fuel => retriveValue fuel root domainName calls initializeDNSCache)
      (done (some entry, cache)) ∧
    entry.domainName = domainName ∧ entry.recordValue = value

/-- With nothing cached there is nothing to clean or to touch. -/
theorem lookup_empty {cache : DNSCache} (h : ∀ i, cache.buckets i = []) (cleanNow now : Int)
    (domainName : Bytes) :
    (∀ i, (lookupDNSCache cleanNow now cache domainName).1.buckets i = []) ∧
      (lookupDNSCache cleanNow now cache domainName).2 = none := by
  obtain ⟨hanswer, hbuckets⟩ := lookupDNSCache_eq cleanNow now cache domainName
  have hclean : ∀ i, (dnsCacheCleanUp cleanNow cache).buckets i = [] := by
    intro i
    unfold dnsCacheCleanUp
    dsimp only
    rw [h i]
    rfl
  have hfind : (dnsCacheCleanUp cleanNow cache).find domainName = none := by
    unfold DNSCache.find HashTable.find
    rw [hclean, List.find?_nil]
  refine ⟨?_, by rw [hanswer, hfind, Option.map_none]⟩
  intro i
  rw [hbuckets, HashTable.modify_of_not_found hfind]
  exact hclean i

/-- With nothing cached, what is returned is the record its own name leads to. -/
theorem retriveValue_empty {fuel : Nat} :
    ∀ {domainName : Bytes} {calls : Nat → CallEnv} {cache cache' : DNSCache} {entry : CacheEntry},
      (∀ i, cache.buckets i = []) →
      retriveValue fuel root domainName calls cache = done (some entry, cache') →
      FindsRecord root entry.domainName entry.recordValue := by
  induction fuel with
  | zero => intro _ _ _ _ _ _ h; simp [retriveValue] at h
  | succ fuel ih =>
      intro domainName calls cache cache' entry hempty h
      obtain ⟨hafter, hnothing⟩ :=
        lookup_empty hempty (calls 0).cleanNow (calls 0).touchNow domainName
      rw [retriveValue_succ] at h
      rcases hlookup : lookupDNSCache (calls 0).cleanNow (calls 0).touchNow cache domainName
        with ⟨cache₁, answer⟩
      rw [hlookup] at h hafter hnothing
      dsimp only at hnothing hafter
      subst hnothing
      obtain ⟨result, hsearch, hrest⟩ := bind_eq_done.mp h
      rcases result with value | ns | _
      · simp only [done.injEq, Prod.mk.injEq, Option.some.injEq] at hrest
        rw [← hrest.1]
        exact findsRecord_iff.mpr (searchTrie_eq_walk hsearch)
      · exact ih hafter hrest
      · simp at hrest

/-- **A name reaches a record exactly when the search for it does.** -/
theorem reaches_iff {domainName value : Bytes} :
    Reaches root domainName value ↔ FindsRecord root domainName value := by
  refine ⟨?_, ?_⟩
  · intro h
    obtain ⟨entry, cache, ⟨enough, henough⟩, rfl, rfl⟩ :=
      h fun _ => { cleanNow := 0, touchNow := 0, entryNow := 0, coin := true }
    exact retriveValue_empty (fun _ => rfl) (henough enough (Nat.le_refl enough))
  · intro h calls
    obtain ⟨cache, hsettles⟩ := retriveValue_record Agrees.start h calls
    exact ⟨_, cache, hsettles, rfl, rfl⟩

/-! ### Reaching every record -/

/-- The nodes with records in a zone's branch, under the zone's own. -/
def recordNodes (branch : TrieNode) : List TrieNode :=
  (branch.childrens.flatMap TrieNode.childrens).filter (fun node => node.records ≠ [])

/-- Every record under every zone is reached by its node's label and the zone's name. -/
def EveryZoneReachable (root : TrieNode) (zones : List Bytes) : Prop :=
  ∀ z branch, (z, branch) ∈ zones.zip root.childrens → ∀ node ∈ recordNodes branch,
    ∀ value, node.records.findSome? DNSRecord.value = some value →
      Reaches root (node.label ++ dot :: z) value

/-- Every zone with a record is the first under its top label, and each owner in it is one
label, whose first record in the zone carries the same value. -/
def ZonesApart (shell : Shell) (zones : List Bytes) : Prop :=
  ∀ z ∈ zones, ∀ records, zoneRecords shell z = .ok records → ∀ record ∈ records,
    FirstUnderTop zones z ∧ ∃ label, extractWordsFromDomain record.1 = [label] ∧
      firstValue records label = some record.2

theorem HoldsRecord.records_ne_nil {node : TrieNode} {record : Bytes × Bytes}
    (h : HoldsRecord node record) : node.records ≠ [] := by
  intro hnil
  have hvalue := h.value
  rw [hnil] at hvalue
  simp at hvalue

/-- The record nodes of a zone's branch are the nodes of its records. -/
theorem recordNodes_createBranch {z s t : Bytes} (hst : TwoLabels z s t) {branch : TrieNode}
    (h : createBranch shell z = .ok branch) :
    ∃ records, zoneRecords shell z = .ok records ∧
      List.Forall₂ HoldsRecord (recordNodes branch) records := by
  obtain ⟨own, names, terminal, hwords, hterminal, hshape⟩ := createBranch_cases h
  obtain ⟨servers, records, -, hrecords, hnode⟩ := createTerminalNode_ok hterminal
  rw [hst.words, List.cons.injEq] at hwords
  obtain ⟨rfl, rfl⟩ := hwords
  obtain ⟨itself, nodes, hchildren, -, hself, -, -, hall⟩ := hnode.childrens
  have hnodes : nodes.filter (fun node => node.records ≠ []) = nodes := by
    refine List.filter_eq_self.mpr fun node hnode => ?_
    obtain ⟨record, -, hholds⟩ := forall₂_left hall hnode
    simpa using hholds.records_ne_nil
  refine ⟨records, hrecords, ?_⟩
  rcases hshape with ⟨hnil, -⟩ | ⟨top, middles, hreverse, rfl⟩
  · simp at hnil
  · rw [List.reverse_singleton, List.cons.injEq] at hreverse
    obtain ⟨-, rfl⟩ := hreverse
    unfold recordNodes
    rw [List.map_nil, List.nil_append, List.flatMap_singleton, hchildren,
      List.filter_cons_of_neg (by simp [hself]), hnodes]
    exact hall

section

variable (hroot : buildTrie shell = .ok root) (hzones : getArrayOfDomainNames shell = .ok zones)
  (htwo : ∀ z ∈ zones, ∃ s t, TwoLabels z s t)

include hroot hzones htwo

theorem EveryZoneReachable.apart (h : EveryZoneReachable root zones) : ZonesApart shell zones := by
  intro z hz records hrecords record hrecord
  obtain ⟨s, t, hst⟩ := htwo z hz
  obtain ⟨branch, hzip, hbranch⟩ := forall₂_left (buildTrie_ok hroot hzones) hz
  obtain ⟨records', hrecords', hnodes⟩ := recordNodes_createBranch hst hbranch
  rw [hrecords, Except.ok.injEq] at hrecords'
  subst hrecords'
  obtain ⟨node, hnode, hholds⟩ := forall₂_right hnodes hrecord
  have hreaches := h z branch hzip node hnode record.2 hholds.value
  rw [reaches_iff, hholds.label,
    findsRecord_under_iff hroot hzones htwo hz hrecords] at hreaches
  exact hreaches

theorem ZonesApart.reachable (h : ZonesApart shell zones) : EveryZoneReachable root zones := by
  intro z branch hzip node hnode value hvalue
  have hz : z ∈ zones := (List.of_mem_zip hzip).1
  have hbranch := List.forall₂_zip (buildTrie_ok hroot hzones) hzip
  obtain ⟨s, t, hst⟩ := htwo z hz
  obtain ⟨records, hrecords, hnodes⟩ := recordNodes_createBranch hst hbranch
  obtain ⟨record, hpair, hholds⟩ := forall₂_left hnodes hnode
  have hsame := hholds.value.symm.trans hvalue
  rw [Option.some.injEq] at hsame
  rw [reaches_iff, hholds.label, findsRecord_under_iff hroot hzones htwo hz hrecords, ← hsame]
  exact h z hz records hrecords record (List.of_mem_zip hpair).2

end

/--
**Every record of every zone is reached exactly when the zones are apart**: each zone
with a record is the first under its top label, and each owner is a single label, whose
first record in the zone has the same value.
-/
theorem everyZoneReachable_iff (hroot : buildTrie shell = .ok root)
    (hzones : getArrayOfDomainNames shell = .ok zones)
    (htwo : ∀ z ∈ zones, ∃ s t, TwoLabels z s t) :
    EveryZoneReachable root zones ↔ ZonesApart shell zones :=
  ⟨fun h => h.apart hroot hzones htwo, fun h => h.reachable hroot hzones htwo⟩

/-! ### Two zones under one top label -/

/-- The scripts over two zones, with one host in each. -/
def twoZones : Shell := fun command =>
  if command = getNrZonesForRootStart then some (ascii "2\n")
  else if command = getArrayOfDomains then some (ascii "a.com b.com\n")
  else if getPathToZoneFile.isPrefixOf command then some (ascii "BINDzones/zone\n")
  else if getTerminalNamesScript.isPrefixOf command then some (ascii "www \n")
  else if getDNSType.isPrefixOf command then some (ascii "A\n")
  else if getDNSValue.isPrefixOf command then some (ascii "192.168.1.10\n")
  else if getNsDomains.isPrefixOf command then some (ascii "ns1.a.com.\n")
  else some (ascii "86400\n")

theorem twoZones_built : ∃ root, buildTrie twoZones = .ok root := ⟨_, rfl⟩

theorem twoZones_names :
    getArrayOfDomainNames twoZones = .ok [ascii "a.com", ascii "b.com"] := rfl

theorem twoZones_twoLabels :
    ∀ z ∈ [ascii "a.com", ascii "b.com"], ∃ s t, TwoLabels z s t := by
  intro z hz
  rcases List.mem_cons.mp hz with rfl | hb
  · exact ⟨ascii "a", ascii "com", by decide, by decide, by decide, by decide, by decide⟩
  · rw [List.mem_singleton.mp hb]
    exact ⟨ascii "b", ascii "com", by decide, by decide, by decide, by decide, by decide⟩

/-- The second zone is hidden by the first. -/
theorem twoZones_hidden : ∃ root, buildTrie twoZones = .ok root ∧
    getArrayOfDomainNames twoZones = .ok [ascii "a.com", ascii "b.com"] ∧
    [ascii "a.com", ascii "b.com"].Nodup ∧
    (∀ z ∈ [ascii "a.com", ascii "b.com"], ∃ s t, TwoLabels z s t) ∧
    ¬ EveryZoneReachable root [ascii "a.com", ascii "b.com"] := by
  obtain ⟨root, hroot⟩ := twoZones_built
  refine ⟨root, hroot, twoZones_names, by decide, twoZones_twoLabels, ?_⟩
  intro h
  obtain ⟨record, records, hrecords⟩ : ∃ record records,
      zoneRecords twoZones (ascii "b.com") = .ok (record :: records) := ⟨_, _, rfl⟩
  have hapart := h.apart hroot twoZones_names twoZones_twoLabels
  obtain ⟨hfirst, -⟩ := hapart _ (by simp) _ hrecords record List.mem_cons_self
  exact absurd hfirst (by unfold FirstUnderTop; decide)

theorem everyZoneReachable_twoZones : ∃ root, buildTrie twoZones = .ok root ∧
    (EveryZoneReachable root [ascii "a.com", ascii "b.com"] ↔
      ZonesApart twoZones [ascii "a.com", ascii "b.com"]) := by
  obtain ⟨root, hroot⟩ := twoZones_built
  exact ⟨root, hroot, everyZoneReachable_iff hroot twoZones_names twoZones_twoLabels⟩

end DnsServer
