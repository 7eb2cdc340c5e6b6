/-
The trie written down, as `mainDNS.c` does it.

`printTrie` prints a line for each node, indented by its level.  `writeTrieToDot` writes a
line for each node and, but for the first, one for the arrow to it from its parent; the
numbers in them are those of a static counter, which goes on from one drawing to the next.
`visualizeTrie` puts what is written into a file of its own, or draws nothing where the file
cannot be opened.

A parent of `-1`, which is none, is `none` here.  The calls to `dot` and `xdg-open`, and
what they show, are left out.
-/
import DnsServer.Code.Loader
import DnsServer.Code.Trie
import DnsServer.Lib.Calls

namespace DnsServer

/-- The greatest `int`. -/
def intMax : Nat := 2147483647

mutual

/-- What `printTrie` prints. -/
def printTrie : TrieNode → Nat → Bytes
  | ⟨label, childrens, _, _, _⟩, level =>
      (List.replicate level (ascii "  ")).flatten ++ ascii "|-- " ++ label ++ [newline] ++
        printChildrens childrens (level + 1)

/-- Its loop over the children. -/
def printChildrens : List TrieNode → Nat → Bytes
  | [], _ => []
  | child :: childrens, level => printTrie child level ++ printChildrens childrens level

end

/-- `"    node%d [label=\"%s\"];\n"`. -/
def nodeLine (currentId : Nat) (label : Bytes) : Bytes :=
  ascii "    node" ++ ascii (toString currentId) ++ ascii " [label=\"" ++ label ++ ascii "\"];" ++
    [newline]

/-- `"    node%d -> node%d;\n"`. -/
def arrowLine (parentId currentId : Nat) : Bytes :=
  ascii "    node" ++ ascii (toString parentId) ++ ascii " -> node" ++
    ascii (toString currentId) ++ ascii ";" ++ [newline]

mutual

/-- The static `nodeId` after the call, and what was written to the file. -/
def writeTrieToDot : TrieNode → Option Nat → Nat → Call (Nat × Bytes)
  | ⟨label, childrens, _, _, _⟩, parentId, nodeId =>
      -- there is no `int` for `nodeId++` to store
      if nodeId = intMax then .undefined
      else do
        let currentId := nodeId
        let line := nodeLine currentId label
        let arrow := parentId.elim [] fun parentId => arrowLine parentId currentId
        let (nodeId, written) ← writeChildrensToDot childrens currentId (nodeId + 1)
        return (nodeId, line ++ arrow ++ written)

/-- Its loop over the children. -/
def writeChildrensToDot : List TrieNode → Nat → Nat → Call (Nat × Bytes)
  | [], _, nodeId => .done (nodeId, [])
  | child :: childrens, currentId, nodeId => do
      let (nodeId, written) ← writeTrieToDot child (some currentId) nodeId
      let (nodeId, rest) ← writeChildrensToDot childrens currentId nodeId
      return (nodeId, written ++ rest)

end

/-- One call, with whether `trie.dot` is opened: the static `nodeId` after it, and the file
if there is one. -/
def visualizeTrie (nodeId : Nat) (root : TrieNode) (opened : Bool) : Call (Nat × Option Bytes) :=
  if opened then do
    let (nodeId, written) ← writeTrieToDot root none nodeId
    return (nodeId, some (ascii "digraph Trie \x7b\n" ++ ascii "    node [shape=circle];\n" ++
      written ++ ascii "\x7d\n"))
  else .done (nodeId, none)

/-- Calls one after the other, from when the program starts. -/
def visualizeTries (drawings : List (TrieNode × Bool)) : Call (Nat × List (Option Bytes)) :=
  Call.execAll (fun nodeId drawing => visualizeTrie nodeId drawing.1 drawing.2) 0 drawings

end DnsServer
