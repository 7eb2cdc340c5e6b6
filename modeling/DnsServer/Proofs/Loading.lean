/-
What the loader makes of its input.

A zone's file gives the owners of its records, in order, each with the value of its
own line, and two name servers.  Where loading succeeds each zone has a branch with a
node for every record, right under the zone's own node, and the trie's first level is
the branches, in the order of the zones.
-/
import DnsServer.Code.Loader
import DnsServer.Spec.ZoneTable
import Mathlib.Data.List.Forall2

namespace DnsServer

/-! ### Lists related element by element -/

/-- Lists related element by element find related elements. -/
theorem forall₂_find? {α β : Type} {R : α → β → Prop} {p : α → Bool} {q : β → Bool}
    {as : List α} {bs : List β} (h : List.Forall₂ R as bs) (hpq : ∀ a b, R a b → p a = q b) :
    (as.find? p = none ∧ bs.find? q = none) ∨
      ∃ a b, as.find? p = some a ∧ bs.find? q = some b ∧ R a b := by
  induction h with
  | nil => exact Or.inl ⟨rfl, rfl⟩
  | @cons a b as bs hab _ ih =>
      by_cases hp : p a = true
      · have hq : q b = true := by rw [← hpq a b hab, hp]
        exact Or.inr ⟨a, b, List.find?_cons_of_pos hp, List.find?_cons_of_pos hq, hab⟩
      · have hq : ¬ q b = true := by rw [← hpq a b hab]; exact hp
        rw [List.find?_cons_of_neg hp, List.find?_cons_of_neg hq]
        exact ih

theorem forall₂_left {α β : Type} {R : α → β → Prop} {as : List α} {bs : List β}
    (h : List.Forall₂ R as bs) {a : α} (ha : a ∈ as) : ∃ b, (a, b) ∈ as.zip bs ∧ R a b := by
  induction h with
  | nil => exact absurd ha List.not_mem_nil
  | @cons a' b as bs hab _ ih =>
      rcases List.mem_cons.mp ha with rfl | hrest
      · exact ⟨b, List.mem_cons_self, hab⟩
      · obtain ⟨b', hzip, hab'⟩ := ih hrest
        exact ⟨b', List.mem_cons_of_mem _ hzip, hab'⟩

theorem forall₂_right {α β : Type} {R : α → β → Prop} {as : List α} {bs : List β}
    (h : List.Forall₂ R as bs) {b : β} (hb : b ∈ bs) : ∃ a ∈ as, R a b := by
  obtain ⟨a, hzip, hab⟩ := forall₂_left h.flip hb
  exact ⟨a, (List.of_mem_zip hzip).2, hab⟩

/-! ### What the loader reads of a zone -/

theorem load_bind_eq_ok {α β : Type} {x : Load α} {f : α → Load β} {b : β} :
    (x >>= f) = .ok b ↔ ∃ a, x = .ok a ∧ f a = .ok b := by
  rcases x with e | a
  · simp [bind, Except.bind]
  · simp [bind, Except.bind]

theorem load_throw_ne_ok {α : Type} {e : LoadFault} {a : α} : (throw e : Load α) ≠ .ok a := by
  simp [throw, throwThe, MonadExceptOf.throw]

/-- The owners and the values of a zone's lines from `startIndex` on. -/
def recordLines (shell : Shell) (path : Bytes) : Nat → List Bytes → Load (List (Bytes × Bytes))
  | _, [] => return []
  | startIndex, owner :: owners => do
      let value ← getDNSValueFromZoneFile shell path (lineArgument startIndex)
      let records ← recordLines shell path (startIndex + 1) owners
      return (owner, value) :: records

/-- The records a zone's file gives, each with its owner. -/
def zoneRecords (shell : Shell) (domain : Bytes) : Load (List (Bytes × Bytes)) := do
  let path ← pathToZoneFile shell domain
  let owners ← getTerminalNames shell path
  recordLines shell path firstRecordLine owners

/-- A node for one record. -/
structure HoldsRecord (node : TrieNode) (record : Bytes × Bytes) : Prop where
  label : node.label = record.1
  childrens : node.childrens = []
  value : node.records.findSome? DNSRecord.value = some record.2

/-- What is read for a record's node. -/
theorem createSpecialNode_cases {shell : Shell} {path name : Bytes} {line : Nat} {node : TrieNode}
    (h : createSpecialNode shell path line name = .ok node) :
    ∃ type value ttl, getDNSTypeFromZoneFile shell path (lineArgument line) = .ok type ∧
      getDNSValueFromZoneFile shell path (lineArgument line) = .ok value ∧
      node = { createNormalNode name with records := [{ type, value := some value, ttl }] } := by
  unfold createSpecialNode at h
  obtain ⟨type, htype, h⟩ := load_bind_eq_ok.mp h
  obtain ⟨value, hvalue, h⟩ := load_bind_eq_ok.mp h
  obtain ⟨ttl, -, h⟩ := load_bind_eq_ok.mp h
  exact ⟨type, value, ttl, htype, hvalue, (Except.ok.inj h).symm⟩

theorem createSpecialNode_ok {shell : Shell} {path name : Bytes} {line : Nat} {node : TrieNode}
    (h : createSpecialNode shell path line name = .ok node) :
    ∃ value, getDNSValueFromZoneFile shell path (lineArgument line) = .ok value ∧
      HoldsRecord node (name, value) := by
  obtain ⟨type, value, ttl, -, hvalue, rfl⟩ := createSpecialNode_cases h
  exact ⟨value, hvalue, rfl, rfl, rfl⟩

theorem createSpecialNodes_ok {shell : Shell} {path : Bytes} {names : List Bytes} :
    ∀ {startIndex : Nat} {nodes : List TrieNode},
      createSpecialNodes shell path startIndex names = .ok nodes →
      ∃ records, recordLines shell path startIndex names = .ok records ∧
        List.Forall₂ HoldsRecord nodes records := by
  induction names with
  | nil =>
      intro startIndex nodes h
      have hnodes := Except.ok.inj h
      subst hnodes
      exact ⟨[], rfl, List.Forall₂.nil⟩
  | cons name names ih =>
      intro startIndex nodes h
      unfold createSpecialNodes at h
      obtain ⟨node, hnode, h⟩ := load_bind_eq_ok.mp h
      obtain ⟨rest, hrest, h⟩ := load_bind_eq_ok.mp h
      have hnodes := Except.ok.inj h
      subst hnodes
      obtain ⟨value, hvalue, hholds⟩ := createSpecialNode_ok hnode
      obtain ⟨records, hrecords, hall⟩ := ih hrest
      refine ⟨(name, value) :: records, ?_, List.Forall₂.cons hholds hall⟩
      unfold recordLines
      rw [hvalue, hrecords]
      rfl

/-- The name servers a zone's file gives. -/
def zoneServers (shell : Shell) (domain : Bytes) : Load NSQuerys := do
  let path ← pathToZoneFile shell domain
  let domain1 ← getNSDomain shell path (ascii " ns1")
  let domain2 ← getNSDomain shell path (ascii " ns2")
  return { domain1, domain2 }

/-- What the loader reads of one zone. -/
def zoneData (shell : Shell) (domain : Bytes) : Load ZoneData := do
  let servers ← zoneServers shell domain
  let records ← zoneRecords shell domain
  return { labels := (extractWordsFromDomain domain).reverse, servers, records }

/-- What it reads of all of them. -/
def zoneTable (shell : Shell) : Load (List ZoneData) := do
  let zones ← getArrayOfDomainNames shell
  zones.mapM (zoneData shell)

/-! ### A zone's nodes -/

/-- A zone's own node: under it the node `@` with the servers and a node for each record. -/
structure ZoneNode (servers : NSQuerys) (records : List (Bytes × Bytes)) (label : Bytes)
    (node : TrieNode) : Prop where
  label : node.label = label
  noRecords : node.records = []
  noServers : node.ns = none
  childrens : ∃ itself nodes, node.childrens = itself :: nodes ∧ itself.label = ascii "@" ∧
    itself.records = [] ∧ itself.childrens = [] ∧ itself.ns = some servers ∧
    List.Forall₂ HoldsRecord nodes records

theorem createItselfNode_ok {shell : Shell} {name path : Bytes} {node : TrieNode}
    (h : createItselfNode shell name path = .ok node) :
    node.label = name ∧ node.records = [] ∧ node.childrens = [] ∧
      ∃ domain1 domain2, getNSDomain shell path (ascii " ns1") = .ok domain1 ∧
        getNSDomain shell path (ascii " ns2") = .ok domain2 ∧
        node.ns = some { domain1, domain2 } := by
  unfold createItselfNode at h
  -- the five numbers of the SOA record
  iterate 5 obtain ⟨_, -, h⟩ := load_bind_eq_ok.mp h
  obtain ⟨domain1, hdomain1, h⟩ := load_bind_eq_ok.mp h
  obtain ⟨domain2, hdomain2, h⟩ := load_bind_eq_ok.mp h
  have hnode := Except.ok.inj h
  subst hnode
  exact ⟨rfl, rfl, rfl, domain1, domain2, hdomain1, hdomain2, rfl⟩

/-- What goes into a zone's own node. -/
theorem createTerminalNode_cases {shell : Shell} {name domain : Bytes} {node : TrieNode}
    (h : createTerminalNode shell name domain = .ok node) :
    ∃ path itself names nodes, pathToZoneFile shell domain = .ok path ∧
      createItselfNode shell (ascii "@") path = .ok itself ∧
      getTerminalNames shell path = .ok names ∧
      createSpecialNodes shell path firstRecordLine names = .ok nodes ∧
      node = { createNormalNode name with childrens := itself :: nodes } := by
  unfold createTerminalNode at h
  obtain ⟨path, hpath, h⟩ := load_bind_eq_ok.mp h
  obtain ⟨itself, hitself, h⟩ := load_bind_eq_ok.mp h
  obtain ⟨names, hnames, h⟩ := load_bind_eq_ok.mp h
  obtain ⟨nodes, hnodes, h⟩ := load_bind_eq_ok.mp h
  exact ⟨path, itself, names, nodes, hpath, hitself, hnames, hnodes, (Except.ok.inj h).symm⟩

theorem createTerminalNode_ok {shell : Shell} {name domain : Bytes} {node : TrieNode}
    (h : createTerminalNode shell name domain = .ok node) :
    ∃ servers records, zoneServers shell domain = .ok servers ∧
      zoneRecords shell domain = .ok records ∧ ZoneNode servers records name node := by
  obtain ⟨path, itself, names, specials, hpath, hitself, hnames, hspecials, rfl⟩ :=
    createTerminalNode_cases h
  obtain ⟨records, hrecords, hall⟩ := createSpecialNodes_ok hspecials
  obtain ⟨hlabel, hnone, hleaf, domain1, domain2, hdomain1, hdomain2, hns⟩ :=
    createItselfNode_ok hitself
  refine ⟨{ domain1, domain2 }, records, ?_, ?_, rfl, rfl, rfl, itself, specials, rfl, hlabel,
    hnone, hleaf, hns, hall⟩
  · unfold zoneServers
    rw [hpath]
    show (getNSDomain shell path _ >>= _) = _
    rw [hdomain1]
    show (getNSDomain shell path _ >>= _) = _
    rw [hdomain2]
    rfl
  · unfold zoneRecords
    rw [hpath]
    show (getTerminalNames shell path >>= _) = _
    rw [hnames]
    exact hrecords

/-- **What `createBranch` builds.**  The zone's own node, where its name is one label;
otherwise a node for the top label with all the others right under it, the zone's last. -/
theorem createBranch_cases {shell : Shell} {z : Bytes} {branch : TrieNode}
    (h : createBranch shell z = .ok branch) :
    ∃ own names terminal, extractWordsFromDomain z = own :: names ∧
      createTerminalNode shell own z = .ok terminal ∧
      ((names = [] ∧ branch = terminal) ∨
        ∃ top middles, names.reverse = top :: middles ∧
          branch = { createNormalNode top with
            childrens := middles.map createNormalNode ++ [terminal] }) := by
  unfold createBranch at h
  obtain ⟨nodes, hnodes, h⟩ := load_bind_eq_ok.mp h
  rcases hwords : extractWordsFromDomain z with _ | ⟨own, names⟩
  · rw [hwords] at hnodes
    have hnil := Except.ok.inj hnodes
    subst hnil
    exact absurd h load_throw_ne_ok
  rw [hwords] at hnodes
  unfold vectorOfNodes at hnodes
  obtain ⟨terminal, hterminal, hnodes⟩ := load_bind_eq_ok.mp hnodes
  have hvector := Except.ok.inj hnodes
  subst hvector
  refine ⟨own, names, terminal, rfl, hterminal, ?_⟩
  rw [← List.map_reverse] at h
  rcases hrev : names.reverse with _ | ⟨top, middles⟩
  · rw [hrev] at h
    simp only [List.map_nil, List.nil_append] at h
    split at h
    · rw [List.append_nil] at h
      refine Or.inl ⟨List.reverse_eq_nil_iff.mp hrev, ?_⟩
      rw [← Except.ok.inj h]
      rcases terminal
      rfl
    · exact absurd h load_throw_ne_ok
  · rw [hrev] at h
    simp only [List.map_cons, List.cons_append] at h
    split at h
    · exact Or.inr ⟨top, middles, rfl, (Except.ok.inj h).symm⟩
    · exact absurd h load_throw_ne_ok

/-! ### The trie `main` builds -/

theorem popenLine_ok_iff {shell : Shell} {command line : Bytes} {nullPipe noLine : LoadFault} :
    popenLine shell command nullPipe noLine = .ok line ↔
      ∃ stream, shell command = some stream ∧ fgets lineBufferSize stream = some line := by
  unfold popenLine
  rcases shell command with _ | stream
  · simp
  · rcases hline : fgets lineBufferSize stream with _ | line' <;> simp [hline]

theorem createBranches_ok {shell : Shell} {domains : List Bytes} {count : Nat} :
    ∀ {i : Nat} {branches : List TrieNode},
      createBranches shell domains count i = .ok branches →
      branches.length = count ∧ List.Forall₂ (fun z branch => createBranch shell z = .ok branch)
        ((domains.drop i).take count) branches := by
  induction count with
  | zero =>
      intro i branches h
      have hnil := Except.ok.inj h
      subst hnil
      exact ⟨rfl, by simp⟩
  | succ count ih =>
      intro i branches h
      unfold createBranches at h
      rcases hdomain : domains[i]? with _ | domain
      · rw [hdomain] at h
        exact absurd h load_throw_ne_ok
      · rw [hdomain] at h
        obtain ⟨branch, hbranch, h⟩ := load_bind_eq_ok.mp h
        split at h
        · exact absurd h load_throw_ne_ok
        obtain ⟨rest, hrest, h⟩ := load_bind_eq_ok.mp h
        have hbranches := Except.ok.inj h
        subst hbranches
        obtain ⟨hlength, hall⟩ := ih hrest
        obtain ⟨hi, hget⟩ := List.getElem?_eq_some_iff.mp hdomain
        refine ⟨by rw [List.length_cons, hlength], ?_⟩
        rw [List.drop_eq_getElem_cons hi, hget, List.take_succ_cons]
        exact List.Forall₂.cons hbranch hall

/-- Branches that can all be built, no more than the root has children, are built. -/
theorem createBranches_all {shell : Shell} {domains : List Bytes} {branches : List TrieNode} :
    ∀ {i : Nat}, List.Forall₂ (fun z branch => createBranch shell z = .ok branch)
      (domains.drop i) branches → i + branches.length ≤ nrMaxChildren →
      createBranches shell domains branches.length i = .ok branches := by
  induction branches with
  | nil => exact fun _ _ => rfl
  | cons branch branches ih =>
      intro i hall hroom
      rw [List.length_cons] at hroom
      have hi : i < domains.length := by
        have hlength := hall.length_eq
        rw [List.length_drop, List.length_cons] at hlength
        omega
      rw [List.drop_eq_getElem_cons hi, List.forall₂_cons] at hall
      obtain ⟨hbranch, hrest⟩ := hall
      rw [List.length_cons, createBranches, List.getElem?_eq_getElem hi]
      show (createBranch shell domains[i] >>= _) = _
      rw [hbranch]
      show (if nrMaxChildren ≤ i then _ else _) = _
      rw [if_neg (by omega), ih hrest (by omega)]
      rfl

/-- The count printed is what all three callers read. -/
theorem getNrBranches_ok {shell : Shell} {nrBranches : Int}
    (h : getNrBranches shell = .ok nrBranches) :
    ∃ stream line, shell getNrZonesForRootStart = some stream ∧
      fgets lineBufferSize stream = some line ∧ nrBranches = atoi line := by
  unfold getNrBranches at h
  obtain ⟨line, hline, h⟩ := load_bind_eq_ok.mp h
  obtain ⟨stream, hstream, hget⟩ := popenLine_ok_iff.mp hline
  split at h
  · exact absurd h load_throw_ne_ok
  exact ⟨stream, line, hstream, hget, (Except.ok.inj h).symm⟩

theorem createTrieROOT_ok {shell : Shell} {root : TrieNode} {nrChildrens : Int}
    (h : createTrieROOT shell = .ok (root, nrChildrens)) :
    ∃ stream line, shell getNrZonesForRootStart = some stream ∧
      fgets lineBufferSize stream = some line ∧ nrChildrens = atoi line := by
  unfold createTrieROOT at h
  obtain ⟨line, hline, h⟩ := load_bind_eq_ok.mp h
  obtain ⟨stream, hstream, hget⟩ := popenLine_ok_iff.mp hline
  split at h
  · exact absurd h load_throw_ne_ok
  have hpair := Except.ok.inj h
  rw [Prod.mk.injEq] at hpair
  exact ⟨stream, line, hstream, hget, hpair.2.symm⟩

theorem getArrayOfDomainNames_ok {shell : Shell} {zones : List Bytes}
    (h : getArrayOfDomainNames shell = .ok zones) :
    ∃ stream line, shell getNrZonesForRootStart = some stream ∧
      fgets lineBufferSize stream = some line ∧ zones.length = (atoi line).toNat := by
  unfold getArrayOfDomainNames at h
  obtain ⟨line, hline, h⟩ := load_bind_eq_ok.mp h
  obtain ⟨stream, hstream, hget⟩ := popenLine_ok_iff.mp hline
  split at h
  · exact absurd h load_throw_ne_ok
  obtain ⟨names, -, h⟩ := load_bind_eq_ok.mp h
  refine ⟨stream, line, hstream, hget, ?_⟩
  dsimp only at h
  split at h
  · rename_i hlength
    rw [← Except.ok.inj h]
    exact hlength
  · exact absurd h load_throw_ne_ok

/-- **The trie's first level is the zones' branches, in the order of the zones.** -/
theorem buildTrie_ok {shell : Shell} {root : TrieNode} {zones : List Bytes}
    (h : buildTrie shell = .ok root) (hzones : getArrayOfDomainNames shell = .ok zones) :
    List.Forall₂ (fun z branch => createBranch shell z = .ok branch) zones root.childrens := by
  unfold buildTrie at h
  obtain ⟨⟨start, nrChildrens⟩, hstart, h⟩ := load_bind_eq_ok.mp h
  obtain ⟨domains, hdomains, h⟩ := load_bind_eq_ok.mp h
  obtain ⟨nrBranches, hbranches, h⟩ := load_bind_eq_ok.mp h
  rw [hzones] at hdomains
  have hsame := Except.ok.inj hdomains
  subst hsame
  obtain ⟨stream, line, hstream, hline, hcount⟩ := getArrayOfDomainNames_ok hzones
  obtain ⟨stream', line', hstream', hline', rfl⟩ := getNrBranches_ok hbranches
  obtain ⟨stream'', line'', hstream'', hline'', rfl⟩ := createTrieROOT_ok hstart
  rw [hstream, Option.some.injEq] at hstream' hstream''
  subst hstream' hstream''
  rw [hline, Option.some.injEq] at hline' hline''
  subst hline' hline''
  obtain ⟨branches, hall, h⟩ := load_bind_eq_ok.mp h
  obtain ⟨hlength, hforall⟩ := createBranches_ok hall
  rw [List.drop_zero, ← hcount, List.take_length] at hforall
  split at h
  · have hroot := Except.ok.inj h
    rw [← hroot, ← hlength, List.take_length]
    exact hforall
  · exact absurd h load_throw_ne_ok

/-! ### Where loading succeeds -/

/-- Something is printed. -/
def Printed (output : Option Bytes) : Prop := ∃ stream, output = some stream ∧ stream ≠ []

theorem printed_ite {c : Prop} [Decidable c] {a b : Option Bytes} (ha : Printed a)
    (hb : Printed b) : Printed (if c then a else b) := by
  by_cases hc : c
  · rwa [if_pos hc]
  · rwa [if_neg hc]

/-- Every command prints something. -/
def AllPrint (shell : Shell) : Prop := ∀ command, Printed (shell command)

theorem AllPrint.popenLine {shell : Shell} (h : AllPrint shell) (command : Bytes)
    (nullPipe noLine : LoadFault) : ∃ line, popenLine shell command nullPipe noLine = .ok line := by
  obtain ⟨stream, hstream, hne⟩ := h command
  unfold DnsServer.popenLine fgets
  rw [hstream]
  dsimp only
  rw [if_neg hne]
  exact ⟨_, rfl⟩

theorem AllPrint.createItselfNode {shell : Shell} (h : AllPrint shell) (name path : Bytes) :
    ∃ node, createItselfNode shell name path = .ok node := by
  have hnumber : ∀ type, ∃ number, getMetadataNumber shell path type = .ok number := by
    intro type
    obtain ⟨line, hline⟩ := h.popenLine (getMetadataFromSoa ++ path ++ type) .undefined
      (.exit "Error retriving the metadata number with fgets() for GET_METADATA_FROM_SOA")
    exact ⟨_, load_bind_eq_ok.mpr ⟨line, hline, rfl⟩⟩
  have hserver : ∀ type, ∃ server, getNSDomain shell path type = .ok server := by
    intro type
    obtain ⟨line, hline⟩ := h.popenLine (getNsDomains ++ path ++ type)
      (.exit "Error creating a pipe with popen() for GET_NS_DOMAINS!")
      (.exit "Error getting the ns domains with fgets()!")
    exact ⟨_, load_bind_eq_ok.mpr ⟨line, hline, rfl⟩⟩
  obtain ⟨_, h₁⟩ := hnumber (ascii " serial")
  obtain ⟨_, h₂⟩ := hnumber (ascii " refresh")
  obtain ⟨_, h₃⟩ := hnumber (ascii " retry")
  obtain ⟨_, h₄⟩ := hnumber (ascii " expire")
  obtain ⟨_, h₅⟩ := hnumber (ascii " minimum_ttl")
  obtain ⟨_, h₆⟩ := hserver (ascii " ns1")
  obtain ⟨_, h₇⟩ := hserver (ascii " ns2")
  unfold DnsServer.createItselfNode
  exact ⟨_, load_bind_eq_ok.mpr ⟨_, h₁, load_bind_eq_ok.mpr ⟨_, h₂, load_bind_eq_ok.mpr ⟨_, h₃,
    load_bind_eq_ok.mpr ⟨_, h₄, load_bind_eq_ok.mpr ⟨_, h₅, load_bind_eq_ok.mpr ⟨_, h₆,
    load_bind_eq_ok.mpr ⟨_, h₇, rfl⟩⟩⟩⟩⟩⟩⟩⟩

theorem AllPrint.createSpecialNodes {shell : Shell} (h : AllPrint shell) (path : Bytes)
    (names : List Bytes) : ∀ startIndex, ∃ nodes,
      createSpecialNodes shell path startIndex names = .ok nodes := by
  induction names with
  | nil => exact fun _ => ⟨[], rfl⟩
  | cons name names ih =>
      intro startIndex
      obtain ⟨type, htype⟩ := h.popenLine (getDNSType ++ path ++ lineArgument startIndex)
        .undefined .undefined
      obtain ⟨value, hvalue⟩ := h.popenLine (getDNSValue ++ path ++ lineArgument startIndex)
        .undefined .undefined
      obtain ⟨ttl, httl⟩ := h.popenLine (getDNSTtl ++ path ++ ascii " 1") .undefined .undefined
      have httl : getDNSTtlValueFromZoneFile shell path (ascii " 1") = .ok (atoi ttl) := by
        unfold getDNSTtlValueFromZoneFile getDNSField
        rw [httl]
        rfl
      obtain ⟨nodes, hnodes⟩ := ih (startIndex + 1)
      have hnode : ∃ node, createSpecialNode shell path startIndex name = .ok node :=
        ⟨_, load_bind_eq_ok.mpr ⟨type, htype, load_bind_eq_ok.mpr ⟨value, hvalue,
          load_bind_eq_ok.mpr ⟨_, httl, rfl⟩⟩⟩⟩
      obtain ⟨node, hnode⟩ := hnode
      exact ⟨_, load_bind_eq_ok.mpr ⟨node, hnode, load_bind_eq_ok.mpr ⟨nodes, hnodes, rfl⟩⟩⟩

/-- Where every command prints, a zone is loaded whose names fit their array. -/
theorem AllPrint.createTerminalNode {shell : Shell} (h : AllPrint shell) {domain path : Bytes}
    {names : List Bytes} (hpath : pathToZoneFile shell domain = .ok path)
    (hnames : getTerminalNames shell path = .ok names) (name : Bytes) :
    ∃ node, createTerminalNode shell name domain = .ok node := by
  obtain ⟨itself, hitself⟩ := h.createItselfNode (ascii "@") path
  obtain ⟨nodes, hnodes⟩ := h.createSpecialNodes path names firstRecordLine
  exact ⟨_, load_bind_eq_ok.mpr ⟨path, hpath, load_bind_eq_ok.mpr ⟨itself, hitself,
    load_bind_eq_ok.mpr ⟨names, hnames, load_bind_eq_ok.mpr ⟨nodes, hnodes, rfl⟩⟩⟩⟩⟩

/-- A branch of two labels is there once its terminal node is. -/
theorem createBranch_of_two {shell : Shell} {z s t : Bytes} {terminal : TrieNode}
    (hwords : extractWordsFromDomain z = [s, t])
    (hterminal : createTerminalNode shell s z = .ok terminal) :
    ∃ branch, createBranch shell z = .ok branch := by
  have hvector : vectorOfNodes shell z [s, t] = .ok [createNormalNode t, terminal] := by
    show (createTerminalNode shell s z >>= _) = _
    rw [hterminal]
    rfl
  unfold createBranch
  rw [hwords, hvector]
  exact ⟨_, rfl⟩

/-- One zone whose branch is there is the whole trie. -/
theorem buildTrie_of_branch {shell : Shell} {z : Bytes} {branch : TrieNode}
    (hzone : getArrayOfDomainNames shell = .ok [z]) (hbranch : createBranch shell z = .ok branch) :
    ∃ root, buildTrie shell = .ok root := by
  obtain ⟨stream, line, hstream, hline, hcount⟩ := getArrayOfDomainNames_ok hzone
  have hone : (atoi line).toNat = 1 := hcount.symm
  have herror : line ≠ ascii "error" ++ [newline] := by
    intro heq
    rw [heq] at hone
    exact absurd hone (by decide)
  have herror' : line ≠ ascii "error" := by
    intro heq
    rw [heq] at hone
    exact absurd hone (by decide)
  have hread : ∀ nullPipe noLine,
      popenLine shell getNrZonesForRootStart nullPipe noLine = .ok line := fun _ _ =>
    popenLine_ok_iff.mpr ⟨stream, hstream, hline⟩
  obtain ⟨start, hstart⟩ : ∃ start, createTrieROOT shell = .ok (start, atoi line) := by
    unfold createTrieROOT
    rw [hread]
    show ∃ start, (if line = ascii "error" ++ [newline] then _ else _) = _
    rw [if_neg herror]
    exact ⟨_, rfl⟩
  have hnr : getNrBranches shell = .ok (atoi line) := by
    unfold getNrBranches
    rw [hread]
    show (if line = ascii "error" then _ else _) = _
    rw [if_neg herror']
    rfl
  have hbranches : createBranches shell [z] (atoi line).toNat 0 = .ok [branch] := by
    rw [hone]
    have hall : List.Forall₂ (fun z branch => createBranch shell z = .ok branch)
        ([z].drop 0) [branch] := List.Forall₂.cons hbranch List.Forall₂.nil
    exact createBranches_all hall (by show 1 ≤ 32; decide)
  refine ⟨{ start with childrens := [branch].take (atoi line).toNat }, ?_⟩
  unfold buildTrie
  rw [hstart]
  show (getArrayOfDomainNames shell >>= _) = _
  rw [hzone]
  show (getNrBranches shell >>= _) = _
  rw [hnr]
  show (createBranches shell [z] (atoi line).toNat 0 >>= _) = _
  rw [hbranches]
  show (if (atoi line).toNat ≤ [branch].length then _ else _) = _
  rw [if_pos (by rw [hone]; exact Nat.le_refl 1)]
  rfl

/-! ### Zone by zone -/

variable {shell : Shell} {root : TrieNode}

/-- The trie that was built, zone by zone. -/
theorem exists_zones (h : buildTrie shell = .ok root) :
    ∃ zones, getArrayOfDomainNames shell = .ok zones ∧
      List.Forall₂ (fun z branch => createBranch shell z = .ok branch) zones root.childrens := by
  have hzones := h
  unfold buildTrie at hzones
  obtain ⟨_, -, hzones⟩ := load_bind_eq_ok.mp hzones
  obtain ⟨zones, hzones, -⟩ := load_bind_eq_ok.mp hzones
  exact ⟨zones, hzones, buildTrie_ok h hzones⟩

end DnsServer
