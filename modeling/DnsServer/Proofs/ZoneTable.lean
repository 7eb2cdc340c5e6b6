/-
The trie answers as the zones do.

`createBranch_cases` is what the loader makes of one zone, whatever its number of
labels: a node for the top label, or the zone's own node where there is no other
label, and every other node right under it.  So the walk through the whole trie is
`landing` on the zones' data, and what the search does on any question can be read
off the zones' names and records.
-/
import DnsServer.Proofs.Loading
import DnsServer.Proofs.Search

namespace DnsServer

open Call

/-! ### The walk through a zone's branch -/

/-- What the walk comes to from the node the last word led to. -/
def arrive (node : TrieNode) (words : List Bytes) : Call SearchResult :=
  if words = [] then searchEnd node else walk node words

theorem walk_cons (node : TrieNode) (word : Bytes) (words : List Bytes) :
    walk node (word :: words) =
      match node.childrens.find? (fun child => child.label = word) with
      | none => done .missing
      | some child => arrive child words := by
  rw [walk]
  rfl

theorem arrive_cons (node : TrieNode) (word : Bytes) (words : List Bytes) :
    arrive node (word :: words) = walk node (word :: words) := if_neg (List.cons_ne_nil word words)

theorem walk_leaf {node : TrieNode} (h : node.childrens = []) {words : List Bytes}
    (hwords : words ≠ []) : walk node words = done .missing := by
  obtain ⟨word, rest, rfl⟩ := List.exists_cons_of_ne_nil hwords
  rw [walk, h]
  rfl

/-- At a node with neither records nor children the walk ends, or goes wrong. -/
theorem arrive_bare {node : TrieNode} (hrecords : node.records = []) (hleaf : node.childrens = [])
    (words : List Bytes) :
    arrive node words = if words = [] then .undefined else done .missing := by
  unfold arrive
  by_cases hwords : words = []
  · rw [if_pos hwords, if_pos hwords, searchEnd, hrecords, hleaf]
    rfl
  · rw [if_neg hwords, if_neg hwords, walk_leaf hleaf hwords]

theorem searchEnd_of_holds {node : TrieNode} {record : Bytes × Bytes}
    (h : HoldsRecord node record) : searchEnd node = done (.record record.2) := by
  unfold searchEnd
  rw [h.value]

theorem arrive_record {node : TrieNode} {record : Bytes × Bytes} (h : HoldsRecord node record)
    (words : List Bytes) :
    arrive node words = if words = [] then done (.record record.2) else done .missing := by
  unfold arrive
  by_cases hwords : words = []
  · rw [if_pos hwords, if_pos hwords, searchEnd_of_holds h]
  · rw [if_neg hwords, if_neg hwords, walk_leaf h.childrens hwords]

/-- The walk from a zone's own node. -/
theorem arrive_zoneNode {zone : ZoneData} {label : Bytes} {node : TrieNode}
    (h : ZoneNode zone.servers zone.records label node) (words : List Bytes) :
    arrive node words = zone.below words := by
  obtain ⟨itself, nodes, hchildren, hat, hself, hleaf, hns, hall⟩ := h.childrens
  rcases words with _ | ⟨word, words⟩
  · unfold arrive searchEnd
    rw [if_pos rfl, h.noRecords, hchildren]
    simp only [List.findSome?_nil, List.head?_cons, hns]
    rfl
  rw [arrive_cons, walk_cons, hchildren]
  by_cases hword : word = ascii "@"
  · rw [List.find?_cons_of_pos (by rw [hat, hword]; simp)]
    dsimp only
    rw [arrive_bare hself hleaf]
    rcases words with _ | ⟨next, words⟩
    · rw [if_pos rfl, ZoneData.below, if_pos hword]
    · rw [if_neg (List.cons_ne_nil next words)]
      rfl
  · have hlabels : ∀ node record, HoldsRecord node record →
        decide (node.label = word) = decide (record.1 = word) := by
      intro node record hholds
      rw [hholds.label]
    have hskip : ¬ itself.label = word := by
      rw [hat]
      exact fun heq => hword heq.symm
    rw [List.find?_cons_of_neg (by simpa using hskip)]
    rcases forall₂_find? hall hlabels with ⟨hnode, hrecord⟩ | ⟨node, record, hnode, hrecord, hholds⟩
    · rw [hnode]
      rcases words with _ | ⟨next, words⟩
      · rw [ZoneData.below, if_neg hword, firstValue, if_neg hword, hrecord]
        rfl
      · rfl
    · rw [hnode]
      dsimp only
      rw [arrive_record hholds]
      rcases words with _ | ⟨next, words⟩
      · rw [if_pos rfl, ZoneData.below, if_neg hword, firstValue, if_neg hword, hrecord]
        rfl
      · rw [if_neg (List.cons_ne_nil next words)]
        rfl

theorem below_record_iff {zone : ZoneData} {words : List Bytes} {value : Bytes} :
    zone.below words = done (.record value) ↔
      ∃ label, words = [label] ∧ firstValue zone.records label = some value := by
  rcases words with _ | ⟨word, _ | ⟨next, words⟩⟩
  · simp [ZoneData.below]
  · rw [ZoneData.below]
    by_cases hword : word = ascii "@"
    · rw [if_pos hword]
      refine ⟨fun h => by simp at h, ?_⟩
      intro h
      obtain ⟨label, hlabel, hvalue⟩ := h
      rw [List.cons.injEq] at hlabel
      rw [← hlabel.1, firstValue, if_pos hword] at hvalue
      simp at hvalue
    · rw [if_neg hword]
      rcases hfirst : firstValue zone.records word with _ | found
      · simp [hfirst]
      · simp [hfirst]
  · simp [ZoneData.below]

theorem find?_normal (names : List Bytes) (word : Bytes) :
    (names.map createNormalNode).find? (fun child => child.label = word)
      = if word ∈ names then some (createNormalNode word) else none := by
  induction names with
  | nil => rfl
  | cons name names ih =>
      rw [List.map_cons]
      by_cases hname : name = word
      · subst hname
        rw [List.find?_cons_of_pos (by simp [createNormalNode]), if_pos List.mem_cons_self]
      · rw [List.find?_cons_of_neg (by show ¬ decide (name = word) = true; simpa using hname), ih]
        by_cases hmem : word ∈ names
        · rw [if_pos hmem, if_pos (List.mem_cons_of_mem name hmem)]
        · rw [if_neg hmem, if_neg]
          intro hcons
          rcases List.mem_cons.mp hcons with heq | hrest
          · exact hname heq.symm
          · exact hmem hrest

/-- A zone's data and its branch. -/
structure BranchOf (shell : Shell) (z : Bytes) (zone : ZoneData) (branch : TrieNode) : Prop where
  data : zoneData shell z = .ok zone
  labels : zone.labels = (extractWordsFromDomain z).reverse
  top : zone.labels.head? = some branch.label
  walk : ∀ words, arrive branch words = zone.underTop words

theorem BranchOf.records {shell : Shell} {z : Bytes} {zone : ZoneData} {branch : TrieNode}
    (h : BranchOf shell z zone branch) : zoneRecords shell z = .ok zone.records := by
  have hdata := h.data
  unfold zoneData at hdata
  obtain ⟨servers, -, hdata⟩ := load_bind_eq_ok.mp hdata
  obtain ⟨records, hrecords, hdata⟩ := load_bind_eq_ok.mp hdata
  rw [hrecords, ← Except.ok.inj hdata]

theorem branchOf_createBranch {shell : Shell} {z : Bytes} {branch : TrieNode}
    (h : createBranch shell z = .ok branch) : ∃ zone, BranchOf shell z zone branch := by
  obtain ⟨own, names, terminal, hwords, hterminal, hshape⟩ := createBranch_cases h
  obtain ⟨servers, records, hservers, hrecords, hnode⟩ := createTerminalNode_ok hterminal
  refine ⟨⟨(extractWordsFromDomain z).reverse, servers, records⟩, ?_, rfl, ?_, ?_⟩
  · unfold zoneData
    rw [hservers]
    show (zoneRecords shell z >>= _) = _
    rw [hrecords]
    rfl
  · rw [hwords, List.reverse_cons]
    rcases hshape with ⟨rfl, rfl⟩ | ⟨top, middles, hrev, rfl⟩
    · rw [hnode.label]
      rfl
    · rw [hrev]
      rfl
  · intro words
    have hbelow : ∀ words, arrive terminal words
        = ZoneData.below ⟨(extractWordsFromDomain z).reverse, servers, records⟩ words := by
      intro words
      exact arrive_zoneNode hnode words
    rcases hshape with ⟨rfl, rfl⟩ | ⟨top, middles, hrev, rfl⟩
    · rw [hbelow]
      unfold ZoneData.underTop ZoneData.own
      rw [hwords]
      rfl
    · have hlabels : (extractWordsFromDomain z).reverse = top :: (middles ++ [own]) := by
        rw [hwords, List.reverse_cons, hrev]
        rfl
      rw [ZoneData.underTop, ZoneData.own, ZoneData.middles, hlabels, List.tail_cons,
        List.getLast?_concat, List.dropLast_concat]
      dsimp only
      rcases words with _ | ⟨word, rest⟩
      · unfold arrive searchEnd
        rw [if_pos rfl]
        rcases middles with _ | ⟨middle, middles⟩
        · simp [createNormalNode, hnode.noServers]
        · simp [createNormalNode]
      · rw [arrive_cons, walk_cons, List.find?_append, find?_normal]
        dsimp only
        by_cases hmiddle : word ∈ middles
        · rw [if_pos hmiddle, if_pos hmiddle]
          exact arrive_bare rfl rfl rest
        · rw [if_neg hmiddle, if_neg hmiddle]
          by_cases hown : word = own
          · rw [if_pos hown, List.find?_cons_of_pos (by rw [hnode.label, hown]; simp)]
            exact hbelow rest
          · rw [if_neg hown, List.find?_cons_of_neg]
            · rfl
            · rw [hnode.label]
              simpa using fun heq => hown heq.symm

/-- In a branch of two labels a record is found under the zone's own label, exactly where its
owner is one label, the first to have the value. -/
theorem BranchOf.record_iff {shell : Shell} {z own top : Bytes} {zone : ZoneData}
    {branch : TrieNode} (h : BranchOf shell z zone branch)
    (hwords : extractWordsFromDomain z = [own, top]) (word owner value : Bytes) :
    arrive branch (word :: (extractWordsFromDomain owner).reverse) = done (.record value) ↔
      word = own ∧ ∃ label, extractWordsFromDomain owner = [label] ∧
        firstValue zone.records label = some value := by
  have hlabels : zone.labels = [top, own] := by
    rw [h.labels, hwords]
    rfl
  have hunder : ∀ left, zone.underTop (word :: left)
      = if word = own then zone.below left else done .missing := by
    intro left
    rw [ZoneData.underTop, ZoneData.own, ZoneData.middles, hlabels]
    simp
  rw [h.walk, hunder]
  by_cases hown : word = own
  · rw [if_pos hown, below_record_iff]
    refine ⟨?_, ?_⟩
    · intro hfound
      obtain ⟨label, hlabel, hvalue⟩ := hfound
      exact ⟨hown, label, by simpa using congrArg List.reverse hlabel, hvalue⟩
    · intro hfound
      obtain ⟨-, label, hlabel, hvalue⟩ := hfound
      exact ⟨label, by rw [hlabel]; rfl, hvalue⟩
  · rw [if_neg hown]
    refine ⟨fun hfound => ?_, fun hfound => absurd hfound.1 hown⟩
    simp at hfound

/-! ### The walk through the trie -/

variable {shell : Shell} {root : TrieNode}

theorem forall₂_branchOf {zones : List Bytes} {branches : List TrieNode}
    (h : List.Forall₂ (fun z branch => createBranch shell z = .ok branch) zones branches) :
    ∃ table, zones.mapM (zoneData shell) = .ok table ∧
      List.Forall₂ (fun zone branch => ∃ z, BranchOf shell z zone branch) table branches := by
  induction h with
  | nil => exact ⟨[], rfl, List.Forall₂.nil⟩
  | @cons z branch zones branches hbranch _ ih =>
      obtain ⟨zone, hzone⟩ := branchOf_createBranch hbranch
      obtain ⟨table, htable, hall⟩ := ih
      refine ⟨zone :: table, ?_, List.Forall₂.cons ⟨z, hzone⟩ hall⟩
      rw [List.mapM_cons, hzone.data, htable]
      rfl

theorem walk_eq_landing {table : List ZoneData} {node : TrieNode}
    (h : List.Forall₂ (fun zone branch => ∃ z, BranchOf shell z zone branch) table node.childrens)
    (words : List Bytes) : walk node words = landing table words := by
  rcases words with _ | ⟨word, words⟩
  · rw [walk, landing]
    rcases hchildrens : node.childrens with _ | ⟨branch, branches⟩
    · rw [hchildrens, List.forall₂_nil_right_iff] at h
      rw [if_pos h]
    · rw [hchildrens] at h
      rw [if_neg]
      intro hnil
      have hlength := h.length_eq
      rw [hnil] at hlength
      simp at hlength
  · have hlabels : ∀ zone branch, (∃ z, BranchOf shell z zone branch) →
        decide (zone.labels.head? = some word) = decide (branch.label = word) := by
      intro zone branch hbranch
      obtain ⟨z, hbranch⟩ := hbranch
      simp only [hbranch.top, Option.some.injEq]
    rw [walk_cons, landing, decidingZone]
    rcases forall₂_find? h hlabels with ⟨hzone, hnode⟩ | ⟨zone, branch, hzone, hnode, ⟨z, hbranch⟩⟩
    · rw [hzone, hnode]
    · rw [hzone, hnode]
      exact hbranch.walk words

/-- **The trie answers as the zones do.**  The walk through the trie that was built is
`landing` on what was read of the zones. -/
theorem exists_zoneTable (h : buildTrie shell = .ok root) :
    ∃ table, zoneTable shell = .ok table ∧ ∀ words, walk root words = landing table words := by
  obtain ⟨zones, hzones, hbranches⟩ := exists_zones h
  obtain ⟨table, htable, hall⟩ := forall₂_branchOf hbranches
  refine ⟨table, ?_, walk_eq_landing hall⟩
  unfold zoneTable
  rw [hzones]
  exact htable

theorem walk_zoneTable (h : buildTrie shell = .ok root) {table : List ZoneData}
    (htable : zoneTable shell = .ok table) (words : List Bytes) :
    walk root words = landing table words := by
  obtain ⟨table', htable', hwalk⟩ := exists_zoneTable h
  rw [htable, Except.ok.injEq] at htable'
  rw [htable']
  exact hwalk words

end DnsServer
