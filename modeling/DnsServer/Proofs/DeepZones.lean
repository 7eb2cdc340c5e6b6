/-
Zones of many labels.

`createBranch` hangs every node of a zone right under the first, so the zone's own
node is always a child of the top label's.  With two labels that is the chain the
search walks.  With more it is not: the label after the top one leads to a node
without children.
-/
import DnsServer.Proofs.Zones

namespace DnsServer

open Call

/-! ### Resolving -/

/-- Nodes from a branch to its zone's own, each a child of the one before, under these labels. -/
structure ZoneChain (branch terminal : TrieNode) (labels : List Bytes) (chain : List TrieNode) :
    Prop where
  first : chain.head? = some branch
  last : chain.getLast? = some terminal
  linked : chain.IsChain (fun parent child => child ∈ parent.childrens)
  labels : chain.map TrieNode.label = labels

/-- A trie that holds one branch. -/
def onlyBranch (branch : TrieNode) : TrieNode :=
  { label := ascii "root", childrens := [branch], records := [], soa := none, ns := none }

/-- There is a chain of the zone's labels down to its own node, and each record under that is
reached by its owner and the zone's name. -/
structure Resolves (z : Bytes) (branch terminal : TrieNode) : Prop where
  chain : ∃ chain, ZoneChain branch terminal (extractWordsFromDomain z).reverse chain
  reaches : ∀ node ∈ terminal.childrens, node.records ≠ [] → ∀ value,
    node.records.findSome? DNSRecord.value = some value →
      Reaches (onlyBranch branch) (node.label ++ dot :: z) value

/-! ### Chains -/

theorem ZoneNode.leaves {servers : NSQuerys} {records : List (Bytes × Bytes)} {label : Bytes}
    {node child : TrieNode} (h : ZoneNode servers records label node)
    (hchild : child ∈ node.childrens) : child.childrens = [] := by
  obtain ⟨itself, nodes, hchildren, -, -, hleaf, -, hall⟩ := h.childrens
  rw [hchildren] at hchild
  rcases List.mem_cons.mp hchild with rfl | hnode
  · exact hleaf
  · obtain ⟨record, -, hholds⟩ := forall₂_left hall hnode
    exact hholds.childrens

/-- No chain is longer than from the branch to the zone's own node. -/
theorem ZoneChain.length {servers : NSQuerys} {records : List (Bytes × Bytes)} {own : Bytes}
    {middles labels : List Bytes} {branch terminal : TrieNode} {chain : List TrieNode}
    (hnode : ZoneNode servers records own terminal)
    (hbranch : branch.childrens = middles.map createNormalNode ++ [terminal])
    (h : ZoneChain branch terminal labels chain) : labels.length ≤ 2 := by
  rw [← h.labels, List.length_map]
  have hfirst := h.first
  have hlast := h.last
  have hlinked := h.linked
  rcases chain with _ | ⟨a, _ | ⟨b, _ | ⟨c, rest⟩⟩⟩
  · simp
  · simp
  · simp
  exfalso
  rw [List.head?_cons, Option.some.injEq] at hfirst
  subst hfirst
  rw [List.isChain_cons_cons, List.isChain_cons_cons] at hlinked
  obtain ⟨hb, hc, hrest⟩ := hlinked
  rw [hbranch] at hb
  rcases List.mem_append.mp hb with hmiddle | hterminal
  · -- a node for a middle label has no children
    obtain ⟨middle, -, rfl⟩ := List.mem_map.mp hmiddle
    exact absurd hc List.not_mem_nil
  · rw [List.mem_singleton.mp hterminal] at hc
    have hleaf := hnode.leaves hc
    rcases rest with _ | ⟨d, rest⟩
    · -- the chain would end in the zone's own node, which has a child
      obtain ⟨itself, nodes, hchildren, -⟩ := hnode.childrens
      rw [List.getLast?_cons_cons, List.getLast?_cons_cons, List.getLast?_singleton,
        Option.some.injEq] at hlast
      rw [hlast, hchildren] at hleaf
      simp at hleaf
    · rw [List.isChain_cons_cons, hleaf] at hrest
      exact absurd hrest.1 List.not_mem_nil

/-! ### Records -/

/-- Each owner of a record is one label, whose first record has the same value. -/
def OwnersApart (records : List (Bytes × Bytes)) : Prop :=
  ∀ record ∈ records, ∃ label, extractWordsFromDomain record.1 = [label] ∧
    firstValue records label = some record.2

/-- In a zone of two labels a record is reached exactly when its owner is one label, the first
to have the value. -/
theorem reaches_onlyBranch_iff {shell : Shell} {z own top : Bytes} {zone : ZoneData}
    {branch : TrieNode} (hzone : BranchOf shell z zone branch)
    (hwords : extractWordsFromDomain z = [own, top]) (owner value : Bytes) :
    Reaches (onlyBranch branch) (owner ++ dot :: z) value ↔
      ∃ label, extractWordsFromDomain owner = [label] ∧
        firstValue zone.records label = some value := by
  have htop : branch.label = top := by
    have hhead := hzone.top
    rw [hzone.labels, hwords] at hhead
    exact (Option.some.inj hhead).symm
  have hfound : (onlyBranch branch).childrens.find? (fun child => child.label = top)
      = some branch := List.find?_cons_of_pos (by simpa using htop)
  rw [reaches_iff, findsRecord_iff, words_append, hwords, List.reverse_append]
  show walk _ (top :: own :: (extractWordsFromDomain owner).reverse) = _ ↔ _
  rw [walk_cons, hfound]
  dsimp only
  rw [hzone.record_iff hwords]
  exact ⟨fun h => h.2, fun h => ⟨rfl, h⟩⟩

/-! ### When a zone resolves -/

theorem Resolves.two {shell : Shell} {z own : Bytes} {names : List Bytes}
    {branch terminal : TrieNode} (hwords : extractWordsFromDomain z = own :: names)
    (hdeep : names ≠ []) (hbranch : createBranch shell z = .ok branch)
    (hterminal : createTerminalNode shell own z = .ok terminal) (h : Resolves z branch terminal) :
    (extractWordsFromDomain z).length = 2 := by
  obtain ⟨own', names', terminal', hwords', hterminal', hshape⟩ := createBranch_cases hbranch
  rw [hwords, List.cons.injEq] at hwords'
  obtain ⟨rfl, rfl⟩ := hwords'
  rw [hterminal, Except.ok.injEq] at hterminal'
  subst hterminal'
  obtain ⟨servers, records, -, -, hnode⟩ := createTerminalNode_ok hterminal
  rcases hshape with ⟨hnil, -⟩ | ⟨top, middles, -, rfl⟩
  · exact absurd hnil hdeep
  · obtain ⟨chain, hchain⟩ := h.chain
    have hlength := hchain.length hnode rfl
    rw [List.length_reverse] at hlength
    have hlong := List.length_pos_iff.mpr hdeep
    rw [hwords, List.length_cons] at hlength ⊢
    omega

/--
**Which zones resolve.**  For a zone of two labels or more there is a chain of its
labels down to its own node, along which every record is reached, exactly when it has
two labels and each owner is one label, whose first record has the same value.
-/
theorem resolves_iff_two (shell : Shell) (z own : Bytes) (names : List Bytes)
    (branch terminal : TrieNode) (records : List (Bytes × Bytes))
    (hwords : extractWordsFromDomain z = own :: names) (hdeep : names ≠ [])
    (hbranch : createBranch shell z = .ok branch)
    (hterminal : createTerminalNode shell own z = .ok terminal)
    (hrecords : zoneRecords shell z = .ok records) :
    Resolves z branch terminal ↔
      (extractWordsFromDomain z).length = 2 ∧ OwnersApart records := by
  obtain ⟨zone, hzone⟩ := branchOf_createBranch hbranch
  have hzoneRecords := hzone.records
  rw [hrecords, Except.ok.injEq] at hzoneRecords
  obtain ⟨servers, records', -, hrecords', hnode⟩ := createTerminalNode_ok hterminal
  rw [hrecords, Except.ok.injEq] at hrecords'
  subst hrecords'
  obtain ⟨itself, nodes, hchildren, -, hnone, -, -, hall⟩ := hnode.childrens
  -- with two labels, a record's node is reached exactly when its owner stands apart
  have hreaches : ∀ {top : Bytes}, names = [top] → ∀ {node : TrieNode} {record : Bytes × Bytes},
      HoldsRecord node record →
      (Reaches (onlyBranch branch) (node.label ++ dot :: z) record.2 ↔
        ∃ label, extractWordsFromDomain record.1 = [label] ∧
          firstValue records label = some record.2) := by
    intro top htop node record hholds
    rw [hholds.label, hzoneRecords]
    exact reaches_onlyBranch_iff hzone (by rw [hwords, htop]) record.1 record.2
  refine ⟨?_, ?_⟩
  · intro h
    have htwo := h.two hwords hdeep hbranch hterminal
    refine ⟨htwo, ?_⟩
    intro record hrecord
    rw [hwords, List.length_cons] at htwo
    obtain ⟨top, htop⟩ := List.length_eq_one_iff.mp (show names.length = 1 by omega)
    obtain ⟨node, hmem, hholds⟩ := forall₂_right hall hrecord
    refine (hreaches htop hholds).mp (h.reaches node ?_ hholds.records_ne_nil _ hholds.value)
    rw [hchildren]
    exact List.mem_cons_of_mem itself hmem
  · intro h
    obtain ⟨htwo, hapart⟩ := h
    rw [hwords, List.length_cons] at htwo
    obtain ⟨top, htop⟩ := List.length_eq_one_iff.mp (show names.length = 1 by omega)
    refine ⟨?_, ?_⟩
    · obtain ⟨own', names', terminal', hwords', hterminal', hshape⟩ := createBranch_cases hbranch
      rw [hwords, List.cons.injEq] at hwords'
      obtain ⟨rfl, rfl⟩ := hwords'
      rw [hterminal, Except.ok.injEq] at hterminal'
      subst hterminal'
      rcases hshape with ⟨hnil, -⟩ | ⟨top', middles, hrev, rfl⟩
      · exact absurd hnil hdeep
      · rw [htop, List.reverse_singleton, List.cons.injEq] at hrev
        obtain ⟨rfl, rfl⟩ := hrev
        refine ⟨[_, terminal], rfl, rfl, ?_, ?_⟩
        · rw [List.isChain_cons_cons]
          exact ⟨List.mem_singleton.mpr rfl, List.IsChain.singleton _⟩
        · rw [hwords, htop, List.map_cons, List.map_singleton, hnode.label]
          rfl
    · intro node hmem hsome value hvalue
      rw [hchildren] at hmem
      rcases List.mem_cons.mp hmem with rfl | hmem
      · exact absurd hnone hsome
      · obtain ⟨record, hzip, hholds⟩ := forall₂_left hall hmem
        have hsame := hholds.value.symm.trans hvalue
        rw [Option.some.injEq] at hsame
        rw [← hsame]
        exact (hreaches htop hholds).mpr (hapart record (List.of_mem_zip hzip).2)

theorem resolves_iff_two_zone : ∃ branch terminal records,
    createBranch twoZones (ascii "a.com") = .ok branch ∧
    (Resolves (ascii "a.com") branch terminal ↔
      (extractWordsFromDomain (ascii "a.com")).length = 2 ∧ OwnersApart records) :=
  ⟨_, _, _, rfl, resolves_iff_two twoZones (ascii "a.com") (ascii "a") [ascii "com"] _ _ _ rfl
    (by simp) rfl rfl rfl⟩

/-- A zone of three labels does not resolve. -/
theorem not_resolves_three : ∃ branch terminal,
    createBranch twoZones (ascii "dept.example.com") = .ok branch ∧
    createTerminalNode twoZones (ascii "dept") (ascii "dept.example.com") = .ok terminal ∧
    ¬ Resolves (ascii "dept.example.com") branch terminal := by
  obtain ⟨branch, hbranch⟩ : ∃ branch,
      createBranch twoZones (ascii "dept.example.com") = .ok branch := ⟨_, rfl⟩
  obtain ⟨terminal, hterminal⟩ : ∃ terminal,
      createTerminalNode twoZones (ascii "dept") (ascii "dept.example.com") = .ok terminal :=
    ⟨_, rfl⟩
  have hwords : extractWordsFromDomain (ascii "dept.example.com")
      = ascii "dept" :: [ascii "example", ascii "com"] := by decide
  refine ⟨branch, terminal, hbranch, hterminal, ?_⟩
  intro h
  have htwo := h.two hwords (by simp) hbranch hterminal
  rw [hwords] at htwo
  simp at htwo

end DnsServer
