/-
The search of `retriveValue` is the lookup.

The walk the loop makes is the descent, level by level, as long as there is a label;
so the loop ends with what the lookup comes to, and the call returns accordingly.
-/
import DnsServer.Proofs.Agreement
import DnsServer.Spec.TrieLookup

namespace DnsServer

open Call Loop TrieNode

variable {root node : TrieNode} {label value domainName : Bytes} {labels : List Bytes}

/-! ### The lookup -/

theorem searchEnd_eq_lookup (node : TrieNode) : searchEnd node = node.lookup [] := by
  unfold searchEnd lookup descend servers firstValue
  cases hvalue : node.records.findSome? DNSRecord.value with
  | some value => simp only [hvalue]
  | none =>
      cases hchild : node.childrens.head? with
      | none => simp only [hvalue, hchild, Option.bind_none]
      | some itself =>
          cases hns : itself.ns with
          | none => simp only [hvalue, hchild, Option.bind_some, hns]
          | some ns => simp only [hvalue, hchild, Option.bind_some, hns]

theorem lookup_cons_none (hchild : node.childrens.find? (fun child => child.label = label) = none) :
    node.lookup (label :: labels) = .done .missing := by
  have hdescend : node.descend (label :: labels) = none := by
    unfold descend
    rw [hchild]
  unfold lookup
  rw [hdescend]

theorem lookup_cons_some {child : TrieNode}
    (hchild : node.childrens.find? (fun child => child.label = label) = some child) :
    node.lookup (label :: labels) = child.lookup labels := by
  have hdescend : node.descend (label :: labels) = child.descend labels := by
    rw [descend, hchild]
  unfold lookup
  rw [hdescend]

/-- **The walk is the lookup**, where there is a label. -/
theorem walk_eq_lookup (label : Bytes) (labels : List Bytes) (node : TrieNode) :
    walk node (label :: labels) = node.lookup (label :: labels) := by
  induction labels generalizing label node with
  | nil =>
      unfold walk
      cases hchild : node.childrens.find? (fun child => child.label = label) with
      | none => rw [lookup_cons_none hchild]
      | some child =>
          rw [lookup_cons_some hchild]
          exact searchEnd_eq_lookup child
  | cons label' labels ih =>
      unfold walk
      cases hchild : node.childrens.find? (fun child => child.label = label) with
      | none => rw [lookup_cons_none hchild]
      | some child =>
          rw [lookup_cons_some hchild]
          exact ih label' child

theorem walk_reverse_eq_lookup (root : TrieNode) {words : List Bytes} (hwords : words ≠ []) :
    walk root words.reverse = root.lookup words.reverse := by
  cases hreverse : words.reverse with
  | nil => exact absurd (List.reverse_eq_nil_iff.mp hreverse) hwords
  | cons label labels => exact walk_eq_lookup label labels root

theorem lookup_of_descend_none (h : root.descend labels = none) :
    root.lookup labels = .done .missing := by
  unfold lookup
  rw [h]

theorem lookup_of_firstValue (h : root.descend labels = some node)
    (hvalue : node.firstValue = some value) : root.lookup labels = .done (.record value) := by
  unfold lookup
  rw [h]
  simp only [hvalue]

/-! ### The call -/

/-- On a miss a call that is not redirected returns what its search comes to. -/
theorem retriveValue_settles {calls : Nat → CallEnv} {cache cache₁ : DNSCache}
    (hmiss : lookupDNSCache (calls 0).cleanNow (calls 0).touchNow cache domainName
      = (cache₁, none)) {x : Call SearchResult} {found : Option CacheEntry × DNSCache}
    (hsearch : walk root (extractWordsFromDomain domainName).reverse = x)
    (hafter : ∀ fuel, afterSearch fuel root domainName calls cache₁ x = .done found) :
    Settles (fun fuel => retriveValue fuel root domainName calls cache) (.done found) := by
  obtain ⟨enough, henough⟩ := retriveValue_walk root calls hmiss
  refine ⟨enough + 1, ?_⟩
  intro fuel hle
  obtain ⟨fuel, rfl⟩ : ∃ f, fuel = f + 1 := ⟨fuel - 1, by omega⟩
  show retriveValue (fuel + 1) root domainName calls cache = _
  rw [henough fuel (by omega), hsearch, hafter]

/--
**The zone search is the lookup in the trie**, on a miss and with at least one label:
the loop ends with what the lookup comes to; where a level has no child with the label
the call returns `NULL`, and where the node the labels lead to has a record with a value
it returns the first such value.
-/
theorem search_is_lookup (root : TrieNode) (domainName : Bytes) (calls : Nat → CallEnv)
    (cache cache₁ : DNSCache) (hlabels : extractWordsFromDomain domainName ≠ [])
    (hmiss : lookupDNSCache (calls 0).cleanNow (calls 0).touchNow cache domainName
      = (cache₁, none)) :
    Leaves (searchBody (extractWordsFromDomain domainName))
      (searchStart root (extractWordsFromDomain domainName))
      (root.lookup (extractWordsFromDomain domainName).reverse) ∧
    (root.descend (extractWordsFromDomain domainName).reverse = none →
      Settles (fun fuel => retriveValue fuel root domainName calls cache)
        (.done (none, cache₁))) ∧
    ∀ node value, root.descend (extractWordsFromDomain domainName).reverse = some node →
      node.firstValue = some value →
      Settles (fun fuel => retriveValue fuel root domainName calls cache)
        (.done (some ((calls 0).entry domainName value), cache₁)) := by
  have hwalk := walk_reverse_eq_lookup root hlabels
  refine ⟨?_, ?_, ?_⟩
  · rw [← hwalk]
    exact leaves_searchStart root _
  · intro hnone
    have hresult := hwalk.trans (lookup_of_descend_none hnone)
    exact retriveValue_settles hmiss hresult fun _ => rfl
  · intro node value hnode hvalue
    have hresult := hwalk.trans (lookup_of_firstValue hnode hvalue)
    exact retriveValue_settles hmiss hresult fun _ => rfl

/-- The host of a zone, asked for with nothing in the cache. -/
theorem search_is_lookup_host : ∃ cache₁, Settles
    (fun fuel => retriveValue fuel exampleTrie (ascii "www.example.com") (fun _ => ⟨0, 0, 0, true⟩)
      initializeDNSCache)
    (.done (some ⟨ascii "www.example.com", ascii "192.168.1.10", 50, 0⟩, cache₁)) := by
  obtain ⟨-, -, hfound⟩ := search_is_lookup exampleTrie (ascii "www.example.com")
    (fun _ => ⟨0, 0, 0, true⟩) initializeDNSCache _ (by decide) rfl
  exact ⟨_, hfound _ _ rfl rfl⟩

end DnsServer
