/-
The search is a walk.

`searchBody` compares one child at a time and goes back to the first child when
one matches.  `walk` is the same search without the loop: it takes the words from
the last to the first and descends into the first child with each label.  The loop
always ends, with what the walk comes to.
-/
import DnsServer.Code.Trie

namespace DnsServer

open Call Loop

/-- Descend from a node by the words left, the last one first. -/
def walk (node : TrieNode) : List Bytes → Call SearchResult
  | [] =>
      match node.childrens with
      | [] => .done .missing
      | _ :: _ => .undefined
  | word :: words =>
      match node.childrens.find? (fun child => child.label = word) with
      | none => .done .missing
      | some child => if words = [] then searchEnd child else walk child words

/-! ### The loop -/

variable {words : List Bytes}

/-- One level of the search: the loop from the child it is at. -/
theorem leaves_level {k : Int} {word : Bytes} (hword : wordAt words k = some word)
    {node : TrieNode} {r : Call SearchResult} {i : Nat}
    (hr : match (node.childrens.drop i).find? (fun child => child.label = word) with
      | none => r = .done .missing
      | some child =>
          if k = 0 then r = searchEnd child
          else Leaves (searchBody words) { searchNode := child, i := 0, nrWords := k - 1 } r) :
    Leaves (searchBody words) { searchNode := node, i, nrWords := k } r := by
  induction hleft : node.childrens.length - i generalizing i with
  | zero =>
      have hdrop : node.childrens.drop i = [] := List.drop_eq_nil_iff.mpr (by omega)
      rw [hdrop, List.find?_nil] at hr
      subst hr
      refine Leaves.leave ?_
      have hend : node.childrens[i]? = none := List.getElem?_eq_none (by omega)
      simp only [searchBody, hend]
  | succ left ih =>
      have hi : i < node.childrens.length := by omega
      have hturn : searchBody words { searchNode := node, i, nrWords := k }
          = if node.childrens[i].label = word then
              if k - 1 = -1 then .leave (searchEnd node.childrens[i])
              else .again { searchNode := node.childrens[i], i := 0, nrWords := k - 1 }
            else .again { searchNode := node, i := i + 1, nrWords := k } := by
        unfold searchBody
        simp only [List.getElem?_eq_getElem hi, hword]
      rw [List.drop_eq_getElem_cons hi] at hr
      by_cases hlabel : node.childrens[i].label = word
      · rw [if_pos hlabel] at hturn
        rw [List.find?_cons_of_pos (by simpa using hlabel)] at hr
        by_cases hk : k = 0
        · simp only [if_pos hk] at hr
          rw [if_pos (by omega)] at hturn
          rw [hr]
          exact Leaves.leave hturn
        · simp only [if_neg hk] at hr
          rw [if_neg (by omega)] at hturn
          exact Leaves.again hturn hr
      · rw [if_neg hlabel] at hturn
        rw [List.find?_cons_of_neg (by simpa using hlabel)] at hr
        exact Leaves.again hturn (ih hr (by omega))

/-- The loop, with the words before `post` left to consume. -/
theorem leaves_walk (left post : List Bytes) (node : TrieNode) (word : Bytes) :
    Leaves (searchBody ((word :: left).reverse ++ post))
      { searchNode := node, i := 0, nrWords := left.length } (walk node (word :: left)) := by
  induction left generalizing node word post with
  | nil =>
      have hword : wordAt ([word].reverse ++ post) (0 : Int) = some word := rfl
      refine leaves_level hword ?_
      rw [List.drop_zero, walk]
      rcases node.childrens.find? _ with _ | child
      · rfl
      · simp
  | cons word' left ih =>
      have hword : wordAt ((word :: word' :: left).reverse ++ post) ((left.length + 1 : Nat) : Int)
          = some word := by
        unfold wordAt
        rw [if_neg (by omega), Int.toNat_natCast, List.reverse_cons, List.append_assoc,
          List.getElem?_append_right (by simp)]
        simp
      refine leaves_level hword ?_
      rw [List.drop_zero, walk]
      rcases node.childrens.find? _ with _ | child
      · rfl
      · have hsub : ((left.length + 1 : Nat) : Int) - 1 = left.length := by omega
        simp only [if_neg (List.cons_ne_nil word' left), hsub]
        rw [if_neg (by omega), List.reverse_cons, List.append_assoc]
        exact ih ([word] ++ post) child word'

theorem searchEnd_ne_running (node : TrieNode) : searchEnd node ≠ .running := by
  unfold searchEnd
  rcases node.records.findSome? DNSRecord.value with _ | value
  · rcases node.childrens.head? with _ | itself
    · simp
    · rcases hns : itself.ns with _ | ns <;> simp [hns]
  · simp

theorem walk_ne_running (words : List Bytes) (node : TrieNode) : walk node words ≠ .running := by
  induction words generalizing node with
  | nil =>
      unfold walk
      rcases node.childrens with _ | ⟨child, rest⟩ <;> simp
  | cons word words ih =>
      unfold walk
      rcases node.childrens.find? _ with _ | child
      · simp
      · by_cases hwords : words = []
        · simp only [if_pos hwords]
          exact searchEnd_ne_running child
        · simp only [if_neg hwords]
          exact ih child

/-- **The search always ends, with what the walk comes to.** -/
theorem leaves_searchStart (root : TrieNode) (words : List Bytes) :
    Leaves (searchBody words) (searchStart root words) (walk root words.reverse) := by
  rcases hwords : words.reverse with _ | ⟨word, left⟩
  · have hnil : words = [] := List.reverse_eq_nil_iff.mp hwords
    subst hnil
    refine Leaves.leave ?_
    unfold searchBody searchStart walk
    rcases root.childrens with _ | ⟨child, rest⟩ <;> rfl
  · have hrev : words = (word :: left).reverse ++ [] := by
      rw [← hwords, List.reverse_reverse, List.append_nil]
    have hlength : (words.length : Int) - 1 = left.length := by
      have hlen := congrArg List.length hwords
      rw [List.length_reverse, List.length_cons] at hlen
      omega
    have h := leaves_walk left [] root word
    rw [← hrev] at h
    unfold searchStart
    rw [hlength]
    exact h

/-! ### What a search settles on -/

theorem searchTrie_mono (root : TrieNode) (words : List Bytes) :
    Mono (fun fuel => searchTrie fuel root words) :=
  Mono.bind (Mono.ofRun _ _) fun _ => Mono.const _

theorem settles_searchTrie (root : TrieNode) (words : List Bytes) :
    Settles (fun fuel => searchTrie fuel root words) (walk root words.reverse) := by
  obtain ⟨fuel, hrun⟩ := Loop.leaves_iff.mp (leaves_searchStart root words)
  refine ((searchTrie_mono root words).settles_iff (walk_ne_running _ _)).mpr ⟨fuel, ?_⟩
  unfold searchTrie
  rw [hrun]
  rfl

theorem walk_of_searchTrie {fuel : Nat} {root : TrieNode} {words : List Bytes}
    {x : Call SearchResult} (h : searchTrie fuel root words = x) (hx : x ≠ .running) :
    walk root words.reverse = x :=
  Settles.unique (settles_searchTrie root words)
    (((searchTrie_mono root words).settles_iff hx).mpr ⟨fuel, h⟩)

theorem searchTrie_eq_walk {fuel : Nat} {root : TrieNode} {words : List Bytes} {r : SearchResult}
    (h : searchTrie fuel root words = done r) : walk root words.reverse = done r :=
  walk_of_searchTrie h (by simp)

/-- The search for a domain comes to a node with a record of this value. -/
def FindsRecord (root : TrieNode) (domainName value : Bytes) : Prop :=
  Settles (fun fuel => searchTrie fuel root (extractWordsFromDomain domainName))
    (done (.record value))

theorem findsRecord_iff {root : TrieNode} {domainName value : Bytes} :
    FindsRecord root domainName value ↔
      walk root (extractWordsFromDomain domainName).reverse = done (.record value) := by
  refine ⟨fun h => Settles.unique (settles_searchTrie _ _) h, ?_⟩
  intro h
  unfold FindsRecord
  rw [← h]
  exact settles_searchTrie _ _

end DnsServer
