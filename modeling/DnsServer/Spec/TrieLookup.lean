/-
Looking a name up in a trie.

The labels of a name lead from the root to a node, each to the first child that has
it.  What is found is the first value among the node's records; a node without one
stands for a zone, and its first child says which servers to ask.
-/
import DnsServer.Code.Trie

namespace DnsServer

namespace TrieNode

/-- The node the labels lead to, the first of them directly below. -/
def descend (node : TrieNode) : List Bytes → Option TrieNode
  | [] => some node
  | label :: labels =>
      match node.childrens.find? (fun child => child.label = label) with
      | none => none
      | some child => child.descend labels

/-- The first value among the records. -/
def firstValue (node : TrieNode) : Option Bytes := node.records.findSome? DNSRecord.value

/-- The servers the first child names. -/
def servers (node : TrieNode) : Option NSQuerys := node.childrens.head?.bind TrieNode.ns

/-- What the labels come to, from the top label down. -/
def lookup (root : TrieNode) (labels : List Bytes) : Call SearchResult :=
  match root.descend labels with
  | none => .done .missing
  | some node =>
      match node.firstValue, node.servers with
      | some value, _ => .done (.record value)
      | none, some ns => .done (.redirect ns)
      | none, none => .undefined

end TrieNode

end DnsServer
