/-
The listing of the trie says what the trie is.

What `printTrie` prints is an outline of the labels, which is read back by the rule for
outlines.  A label that has a line marked as a node's in it spoils the listing, and nothing
else does.  The mark has a blank in it and no label of the trie `main` builds has one, so what
`main` prints is never spoilt, even where a label is a newline.
-/
import DnsServer.Code.Drawing
import DnsServer.Proofs.LocalAnswers
import DnsServer.Spec.Drawing
import Mathlib.Data.List.TakeWhile

namespace DnsServer

open Forest

/-- **Induction on children**: below the first, and beside it. -/
theorem childrens_induction {motive : List TrieNode → Prop} (nil : motive [])
    (cons : ∀ label childrens records soa ns beside, motive childrens → motive beside →
      motive (⟨label, childrens, records, soa, ns⟩ :: beside)) : ∀ nodes, motive nodes
  | [] => nil
  | ⟨label, childrens, records, soa, ns⟩ :: beside =>
      cons label childrens records soa ns beside (childrens_induction nil cons childrens)
        (childrens_induction nil cons beside)

theorem drawnAll_cons (label : Bytes) (childrens : List TrieNode) (records : List DNSRecord)
    (soa : Option SOAMetadata) (ns : Option NSQuerys) (beside : List TrieNode) :
    drawnAll (⟨label, childrens, records, soa, ns⟩ :: beside)
      = .plant label (drawnAll childrens) (drawnAll beside) := rfl

theorem drawnAll_singleton (root : TrieNode) : drawnAll [root] = root.tree := rfl

/-! ### What is printed -/

/-- A line of the listing. -/
def listedText (item : Nat × Bytes) : Bytes :=
  (List.replicate item.1 (ascii "  ")).flatten ++ ascii "|-- " ++ item.2

/-- **What is printed is an outline.** -/
theorem printChildrens_eq (nodes : List TrieNode) : ∀ level, printChildrens nodes level
    = ((outline level (drawnAll nodes)).map listedText).flatMap (· ++ [newline]) := by
  induction nodes using childrens_induction with
  | nil => exact fun level => rfl
  | cons label childrens records soa ns beside ihBelow ihBeside =>
      intro level
      rw [printChildrens, printTrie, ihBelow, ihBeside, drawnAll_cons, outline, List.map_cons,
        List.map_append, List.flatMap_cons, List.flatMap_append, listedText]
      simp only [List.append_assoc]

theorem printTrie_eq (root : TrieNode) : printTrie root 0
    = ((outline 0 root.tree).map listedText).flatMap (· ++ [newline]) := by
  have h := printChildrens_eq [root] 0
  rwa [printChildrens, printChildrens, List.append_nil, drawnAll_singleton] at h

theorem indent_eq (level : Nat) :
    (List.replicate level (ascii "  ")).flatten = List.replicate (2 * level) space := by
  induction level with
  | zero => rfl
  | succ level ih =>
      rw [List.replicate_succ, List.flatten_cons, ih, show 2 * (level + 1) = 2 + 2 * level by omega,
        List.replicate_add]
      rfl

/-- The first line of a label is marked, and set in as its node is. -/
theorem readListed_first (level : Nat) (text : Bytes) :
    readListed (listedText (level, text)) = some (level, text) := by
  have hmark : ascii "|-- " = 124 :: ascii "-- " := by decide
  have hindent : ∀ b ∈ List.replicate (2 * level) space, decide (b = space) = true := by
    intro b hb
    rw [decide_eq_true_eq]
    exact List.eq_of_mem_replicate hb
  have htake : (listedText (level, text)).takeWhile (· = space)
      = List.replicate (2 * level) space := by
    rw [listedText, indent_eq, List.append_assoc, List.takeWhile_append_of_pos hindent, hmark,
      List.cons_append, List.takeWhile_cons_of_neg (by decide), List.append_nil]
  have hdrop : (listedText (level, text)).dropWhile (· = space) = ascii "|-- " ++ text := by
    rw [listedText, indent_eq, List.append_assoc, List.dropWhile_append_of_pos hindent, hmark,
      List.cons_append, List.dropWhile_cons_of_neg (by decide)]
  rw [readListed, htake, hdrop, List.isPrefixOf?_eq_some_iff_append_eq.mpr rfl, Option.map_some,
    List.length_replicate, Nat.mul_div_cancel_left _ (by decide)]

/-- The lines of a node are its first line and the other lines of its label. -/
theorem splitOn_listedText (level : Nat) (label : Bytes) : ∃ text lines,
    label.splitOn newline = text :: lines ∧
    (listedText (level, label)).splitOn newline = listedText (level, text) :: lines := by
  have hfront : newline ∉ (List.replicate level (ascii "  ")).flatten ++ ascii "|-- " := by
    have hmark : newline ∉ ascii "|-- " := by decide
    rw [indent_eq, List.mem_append, not_or]
    exact ⟨fun h => absurd (List.eq_of_mem_replicate h) (by decide), hmark⟩
  by_cases hlabel : newline ∈ label
  · obtain ⟨text, rest, rfl, htext⟩ := List.eq_append_cons_of_mem hlabel
    refine ⟨text, rest.splitOn newline, Split.splitOn_piece htext rest, ?_⟩
    rw [listedText, ← List.append_assoc]
    refine Split.splitOn_piece ?_ rest
    rw [List.mem_append, not_or]
    exact ⟨hfront, htext⟩
  · refine ⟨label, [], List.splitOn_eq_singleton hlabel, List.splitOn_eq_singleton ?_⟩
    rw [listedText, List.mem_append, not_or]
    exact ⟨hfront, hlabel⟩

theorem takeWhile_unlisted {lines : List Bytes} (rest : List Bytes)
    (hrest : ∀ line ∈ rest.head?, readListed line ≠ none) :
    (lines ++ rest).takeWhile (fun l => readListed l = none)
      = lines.takeWhile fun l => readListed l = none := by
  induction lines with
  | nil =>
      cases rest with
      | nil => rfl
      | cons line rest =>
          have hline := hrest line (by simp)
          rw [List.nil_append, List.takeWhile_cons_of_neg (by simpa using hline)]
          rfl
  | cons line lines ih =>
      rw [List.cons_append, List.takeWhile_cons, List.takeWhile_cons, ih]

/-- Where a marked line follows, the items end. -/
theorem readItems_append {lines : List Bytes} (rest : List Bytes)
    (hrest : ∀ line ∈ rest.head?, readListed line ≠ none) :
    readItems (lines ++ rest) = readItems lines ++ readItems rest := by
  induction lines with
  | nil => rfl
  | cons line lines ih =>
      rw [List.cons_append, readItems, readItems, ih, takeWhile_unlisted rest hrest]
      cases readListed line with
      | none => rfl
      | some item => rfl

/-- What is read of one node's lines. -/
def listedItems (item : Nat × Bytes) : List (Nat × Bytes) :=
  readItems ((listedText item).splitOn newline)

theorem readItems_outline (items : List (Nat × Bytes)) :
    readItems ((items.map listedText).flatMap (·.splitOn newline)) = items.flatMap listedItems := by
  induction items with
  | nil => rfl
  | cons item items ih =>
      rw [List.map_cons, List.flatMap_cons, List.flatMap_cons, readItems_append, ih, listedItems]
      intro line hline
      cases items with
      | nil => exact absurd hline (by simp)
      | cons item' items =>
          obtain ⟨level, label⟩ := item'
          obtain ⟨text, lines, -, hsplit⟩ := splitOn_listedText level label
          rw [List.map_cons, List.flatMap_cons, hsplit, List.cons_append, List.head?_cons,
            Option.mem_some_iff] at hline
          rw [← hline, readListed_first]
          exact Option.some_ne_none _

/-- One node is read as it was written exactly if no other line of its label is marked. -/
theorem listedItems_cases (level : Nat) (label : Bytes) :
    ∃ text items, listedItems (level, label) = (level, text) :: items ∧
      (text = label ↔ ∀ line ∈ (label.splitOn newline).tail, readListed line = none) ∧
      (text = label → items = []) := by
  obtain ⟨text, lines, hlabel, hsplit⟩ := splitOn_listedText level label
  have hitems : listedItems (level, label)
      = (level, [newline].intercalate (text :: lines.takeWhile fun l => readListed l = none)) ::
        readItems lines := by
    rw [listedItems, hsplit, readItems, readListed_first]
  have hwhole : [newline].intercalate (text :: lines) = label := by
    rw [← hlabel]
    exact List.intercalate_splitOn newline
  have hfree : ∀ piece ∈ text :: lines, newline ∉ piece := by
    intro piece hpiece
    rw [← hlabel] at hpiece
    exact Split.not_mem_of_mem_splitOn hpiece
  have hiff : [newline].intercalate (text :: lines.takeWhile fun l => readListed l = none) = label ↔
      ∀ line ∈ (label.splitOn newline).tail, readListed line = none := by
    rw [hlabel, List.tail_cons]
    refine ⟨fun h line hline => ?_, fun h => ?_⟩
    · have hread : ∀ piece ∈ text :: lines.takeWhile (fun l => readListed l = none),
          newline ∉ piece := fun piece hpiece =>
        hfree piece (List.cons_subset_cons text (List.takeWhile_subset _) hpiece)
      have hpieces := congrArg (List.splitOn newline) h
      rw [hlabel, List.splitOn_intercalate newline hread (List.cons_ne_nil _ _),
        List.cons.injEq] at hpieces
      rw [← hpieces.2] at hline
      simpa using List.mem_takeWhile_imp hline
    · rw [List.takeWhile_eq_self_iff.mpr fun line hline => by simpa using h line hline, hwhole]
  have hnone : ∀ {rest : List Bytes}, (∀ line ∈ rest, readListed line = none) →
      readItems rest = [] := by
    intro rest hrest
    induction rest with
    | nil => rfl
    | cons line rest ih =>
        rw [List.forall_mem_cons] at hrest
        rw [readItems, hrest.1]
        exact ih hrest.2
  refine ⟨_, _, hitems, hiff, fun h => hnone fun line hline => hiff.mp h line ?_⟩
  rwa [hlabel]

theorem outline_labels (ts : Forest Bytes) : ∀ depth,
    (outline depth ts).map Prod.snd = ts.labels := by
  induction ts with
  | empty => exact fun _ => rfl
  | plant label below beside ihBelow ihBeside =>
      intro depth
      rw [outline, List.map_cons, List.map_append, ihBelow, ihBeside, labels]

/-- Items that begin with the labels written are the items written. -/
theorem listable_of_prefix {items : List (Nat × Bytes)} {rest : List Bytes}
    (h : items.map Prod.snd ++ rest = (items.flatMap listedItems).map Prod.snd) :
    ∀ label ∈ items.map Prod.snd,
      ∀ line ∈ (label.splitOn newline).tail, readListed line = none := by
  induction items with
  | nil => exact fun label hlabel => absurd hlabel List.not_mem_nil
  | cons item items ih =>
      obtain ⟨level, label⟩ := item
      obtain ⟨text, more, hitems, hiff, hmore⟩ := listedItems_cases level label
      rw [List.map_cons, List.flatMap_cons, hitems, List.cons_append, List.cons_append,
        List.map_cons, List.cons.injEq] at h
      obtain ⟨hlabel, hrest⟩ := h
      rw [hmore hlabel.symm, List.nil_append] at hrest
      rw [List.map_cons, List.forall_mem_cons]
      exact ⟨hiff.mp hlabel.symm, ih hrest⟩

/-- **The listing is read back to the trie exactly if no label has a marked line in it.** -/
theorem readListing_printTrie_iff (root : TrieNode) :
    readListing (printTrie root 0) = root.tree ↔ root.Listable := by
  have hitems : readItems ((printTrie root 0).splitOn newline).dropLast
      = (outline 0 root.tree).flatMap listedItems := by
    rw [printTrie_eq, Split.splitOn_flatMap_sep, List.dropLast_concat, readItems_outline]
  rw [readListing, hitems]
  refine ⟨fun h => ?_, fun hlistable => ?_⟩
  · have hall := labels_readOutline ((outline 0 root.tree).flatMap listedItems).length 0
      ((outline 0 root.tree).flatMap listedItems)
    rw [h, ← outline_labels root.tree 0] at hall
    have hlistable := listable_of_prefix hall
    rwa [outline_labels] at hlistable
  · have hsame : (outline 0 root.tree).flatMap listedItems = outline 0 root.tree := by
      rw [List.flatMap_congr (g := fun item => [item]), List.flatMap_singleton']
      rintro ⟨level, label⟩ hitem
      obtain ⟨text, more, hread, hiff, hmore⟩ := listedItems_cases level label
      have htext : text = label := by
        refine hiff.mpr (hlistable label ?_)
        rw [← outline_labels root.tree 0]
        exact List.mem_map_of_mem (f := Prod.snd) hitem
      rw [hread, htext, hmore htext]
    rw [hsame]
    have hread := readOutline_outline root.tree 0 (outline 0 root.tree).length []
    rw [List.append_nil] at hread
    exact congrArg Prod.fst (hread (Nat.le_refl _) fun _ h => absurd h (by simp))

/-! ### The trie `main` prints -/

theorem labels_drawnAll (nodes : List TrieNode) :
    (drawnAll nodes).labels = nodes.flatMap fun node => node.tree.labels := by
  induction nodes with
  | nil => rfl
  | cons node nodes ih =>
      obtain ⟨label, childrens, records, soa, ns⟩ := node
      have htree : TrieNode.tree ⟨label, childrens, records, soa, ns⟩
          = .plant label (drawnAll childrens) .empty := rfl
      rw [drawnAll_cons, labels, ih, List.flatMap_cons, htree, labels, labels, List.append_nil]
      rfl

/-- No label in it has a blank. -/
def TrieNode.Blankless (node : TrieNode) : Prop := ∀ label ∈ node.tree.labels, space ∉ label

theorem TrieNode.blankless_iff (node : TrieNode) :
    node.Blankless ↔ space ∉ node.label ∧ ∀ child ∈ node.childrens, child.Blankless := by
  obtain ⟨label, childrens, records, soa, ns⟩ := node
  have hlabels : (TrieNode.tree ⟨label, childrens, records, soa, ns⟩).labels
      = label :: childrens.flatMap fun child => child.tree.labels := by
    rw [← labels_drawnAll]
    exact congrArg (label :: ·) (List.append_nil _)
  unfold TrieNode.Blankless
  rw [hlabels, List.forall_mem_cons, List.forall_mem_flatMap]

theorem blankless_leaf {node : TrieNode} (hlabel : space ∉ node.label)
    (hleaf : node.childrens = []) : node.Blankless := by
  rw [node.blankless_iff, hleaf]
  exact ⟨hlabel, fun child h => absurd h List.not_mem_nil⟩

theorem space_strtok {delim text token : Bytes} (h : token ∈ strtok delim text)
    (hspace : space ∈ delim) : space ∉ token := by
  rw [strtok_eq_tokens] at h
  intro hmem
  have hno := (Split.of_mem_tokens h).2 space hmem
  rw [decide_eq_false_iff_not] at hno
  exact hno hspace

/-- The labels of a name have no blanks where the name has none. -/
theorem space_extractWords {domain word : Bytes} (h : word ∈ extractWordsFromDomain domain)
    (hdomain : space ∉ domain) : space ∉ word := by
  rw [extractWordsFromDomain, strtok_eq_tokens] at h
  exact fun hmem => hdomain ((Split.infix_of_mem_tokens h).subset hmem)

theorem createTerminalNode_blankless {shell : Shell} {name domain : Bytes} {node : TrieNode}
    (hname : space ∉ name) (h : createTerminalNode shell name domain = .ok node) :
    node.Blankless := by
  obtain ⟨path, itself, names, specials, -, hitself, hnames, hspecials, rfl⟩ :=
    createTerminalNode_cases h
  obtain ⟨hitselfLabel, -, hitselfLeaf, -⟩ := createItselfNode_ok hitself
  have hat : space ∉ ascii "@" := by decide
  have hblank : ∀ name ∈ names, space ∉ name := by
    unfold getTerminalNames at hnames
    obtain ⟨line, -, hnames⟩ := load_bind_eq_ok.mp hnames
    dsimp only at hnames
    split at hnames
    · have heq := Except.ok.inj hnames
      subst heq
      exact fun name hname => space_strtok hname (by simp)
    · exact absurd hnames load_throw_ne_ok
  rw [TrieNode.blankless_iff]
  refine ⟨hname, ?_⟩
  rw [List.forall_mem_cons]
  refine ⟨blankless_leaf (hitselfLabel ▸ hat) hitselfLeaf, fun special hspecial => ?_⟩
  obtain ⟨records, hrecords, hall⟩ := createSpecialNodes_ok hspecials
  obtain ⟨record, hzip, hholds⟩ := forall₂_left hall hspecial
  refine blankless_leaf (hblank _ ?_) hholds.childrens
  rw [hholds.label, ← recordLines_owners hrecords]
  exact List.mem_map_of_mem (List.of_mem_zip hzip).2

theorem createBranch_blankless {shell : Shell} {zone : Bytes} {branch : TrieNode}
    (hzone : space ∉ zone) (h : createBranch shell zone = .ok branch) : branch.Blankless := by
  obtain ⟨own, names, terminal, hwords, hterminal, hbranch⟩ := createBranch_cases h
  have hwordsBlank : ∀ word ∈ own :: names, space ∉ word := by
    rw [← hwords]
    exact fun word hword => space_extractWords hword hzone
  rw [List.forall_mem_cons] at hwordsBlank
  obtain ⟨hown, hnames⟩ := hwordsBlank
  have hblankless := createTerminalNode_blankless hown hterminal
  rcases hbranch with ⟨-, rfl⟩ | ⟨top, middles, hrev, rfl⟩
  · exact hblankless
  · have hall : ∀ name ∈ top :: middles, space ∉ name := by
      rw [← hrev]
      exact fun name hname => hnames name (List.mem_reverse.mp hname)
    rw [List.forall_mem_cons] at hall
    rw [TrieNode.blankless_iff]
    refine ⟨hall.1, ?_⟩
    rw [List.forall_mem_append, List.forall_mem_map, List.forall_mem_singleton]
    exact ⟨fun name hname => blankless_leaf (hall.2 name hname) rfl, hblankless⟩

theorem buildTrie_label {shell : Shell} {root : TrieNode} (h : buildTrie shell = .ok root) :
    root.label = ascii "root" := by
  unfold buildTrie createTrieROOT at h
  obtain ⟨⟨start, nrChildrens⟩, hstart, h⟩ := load_bind_eq_ok.mp h
  obtain ⟨line, -, hstart⟩ := load_bind_eq_ok.mp hstart
  obtain ⟨domains, -, h⟩ := load_bind_eq_ok.mp h
  obtain ⟨nrBranches, -, h⟩ := load_bind_eq_ok.mp h
  obtain ⟨branches, -, h⟩ := load_bind_eq_ok.mp h
  split at hstart
  · exact absurd hstart load_throw_ne_ok
  have hpair := Except.ok.inj hstart
  rw [Prod.mk.injEq] at hpair
  split at h
  · rw [← Except.ok.inj h, ← hpair.1]
  · exact absurd h load_throw_ne_ok

/-- No label of the trie `main` builds has a blank, whatever the scripts print. -/
theorem buildTrie_blankless {shell : Shell} {root : TrieNode} (h : buildTrie shell = .ok root) :
    root.Blankless := by
  have hlabel : space ∉ ascii "root" := by decide
  obtain ⟨zones, hzones, hall⟩ := exists_zones h
  have hblank : ∀ zone ∈ zones, space ∉ zone := by
    unfold getArrayOfDomainNames at hzones
    obtain ⟨count, -, hzones⟩ := load_bind_eq_ok.mp hzones
    split at hzones
    · exact absurd hzones load_throw_ne_ok
    obtain ⟨line, -, hzones⟩ := load_bind_eq_ok.mp hzones
    dsimp only at hzones
    split at hzones
    · rw [← Except.ok.inj hzones]
      exact fun zone hzone => space_strtok hzone (by simp)
    · exact absurd hzones load_throw_ne_ok
  rw [TrieNode.blankless_iff, buildTrie_label h]
  refine ⟨hlabel, fun branch hbranch => ?_⟩
  obtain ⟨zone, hzone, hcreated⟩ := forall₂_right hall hbranch
  exact createBranch_blankless (hblank zone hzone) hcreated

/-- A mark has a blank in it. -/
theorem TrieNode.Blankless.listable {root : TrieNode} (h : root.Blankless) : root.Listable := by
  intro label hlabel line hline
  rw [Option.eq_none_iff_forall_ne_some]
  rintro ⟨level, text⟩ hread
  rw [readListed, Option.map_eq_some_iff] at hread
  obtain ⟨rest, hrest, -⟩ := hread
  rw [List.isPrefixOf?_eq_some_iff_append_eq] at hrest
  have hmark : space ∈ ascii "|-- " := by decide
  have hmem : space ∈ line :=
    (List.dropWhile_suffix _).subset (hrest ▸ List.mem_append_left rest hmark)
  exact h label hlabel ((Split.infix_of_mem_splitOn (List.mem_of_mem_tail hline)).subset hmem)

/-- **The listing is read back exactly if no label has a marked line in it**, and what `main`
prints when it starts always is. -/
theorem listing_reads_back :
    (∀ root : TrieNode, readListing (printTrie root 0) = root.tree ↔ root.Listable) ∧
    ∀ shell root, buildTrie shell = .ok root → readListing (printTrie root 0) = root.tree :=
  ⟨readListing_printTrie_iff, fun _ root h =>
    (readListing_printTrie_iff root).mpr (buildTrie_blankless h).listable⟩

end DnsServer
