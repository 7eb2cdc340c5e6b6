/-
What the drawings of the trie are for.

A trie drawn is the forest of its labels.  A listing says it by how far its lines are set
in, and a line without a mark goes on with the label before it.  A file for `dot` says it by
the names it gives labels to, in quotes, and the arrows its lines make between names; what is
drawn hangs from the names no arrow leads to.  A backslash in a label is a backslash here.
-/
import DnsServer.Code.ConfScripts
import DnsServer.Code.Trie
import DnsServer.Lib.Forest

namespace DnsServer

mutual

/-- A node's label, above what is below it, before what is beside it. -/
def TrieNode.drawn : TrieNode → Forest Bytes → Forest Bytes
  | ⟨label, childrens, _, _, _⟩, beside => .plant label (drawnAll childrens) beside

def drawnAll : List TrieNode → Forest Bytes
  | [] => .empty
  | child :: childrens => child.drawn (drawnAll childrens)

end

/-- The labels of a trie. -/
abbrev TrieNode.tree (root : TrieNode) : Forest Bytes := root.drawn .empty

/-! ### Listings -/

/-- How far a line is set in, and what follows its mark. -/
def readListed (line : Bytes) : Option (Nat × Bytes) :=
  ((ascii "|-- ").isPrefixOf? (line.dropWhile (· = space))).map fun label =>
    ((line.takeWhile (· = space)).length / 2, label)

/-- The lines after a marked one, up to the next, are the rest of its label. -/
def readItems : List Bytes → List (Nat × Bytes)
  | [] => []
  | line :: lines =>
      match readListed line with
      | none => readItems lines
      | some (level, label) =>
          (level, [newline].intercalate (label :: lines.takeWhile fun l => readListed l = none)) ::
            readItems lines

def readListing (text : Bytes) : Forest Bytes :=
  let items := readItems (text.splitOn newline).dropLast
  (Forest.readOutline items.length 0 items).1

/-- No label has a line of its own that is marked as a node's. -/
def TrieNode.Listable (root : TrieNode) : Prop :=
  ∀ label ∈ root.tree.labels, ∀ line ∈ (label.splitOn newline).tail, readListed line = none

/-! ### Files for `dot` -/

/-- The names that have labels, and the arrows. -/
structure Drawing where
  names : List (Bytes × Bytes)
  arrows : List (Bytes × Bytes)

/-- `    name [label=` -/
def readName (line : Bytes) : Option Bytes := do
  let line ← (ascii "    ").isPrefixOf? line
  (ascii " [label=").isSuffixOf? line

/-- `    name -> name;` -/
def readArrow (line : Bytes) : Option (Bytes × Bytes) := do
  let line ← (ascii "    ").isPrefixOf? line
  let target ← (ascii " -> ").isPrefixOf? (line.dropWhile (· ≠ space))
  let target ← (ascii ";").isSuffixOf? target
  return (line.takeWhile (· ≠ space), target)

def readArrows (text : Bytes) : List (Bytes × Bytes) := (text.splitOn newline).filterMap readArrow

/-- What stands between quotes is a label, for the name before it. -/
def readPieces : List Bytes → Drawing
  | [] => { names := [], arrows := [] }
  | [outside] => { names := [], arrows := readArrows outside }
  | outside :: label :: pieces =>
      let rest := readPieces pieces
      { names := (((outside.splitOn newline).getLast?.bind readName).map (·, label)).toList ++
          rest.names
        arrows := readArrows outside ++ rest.arrows }

def readDot (file : Bytes) : Drawing := readPieces (file.splitOn quote)

/-- No label has a quote in it. -/
def TrieNode.Quotable (root : TrieNode) : Prop := ∀ label ∈ root.tree.labels, quote ∉ label

/-- The forest is what hangs from the names no arrow leads to, and there is nothing else. -/
structure Drawing.Shows (drawing : Drawing) (forest : Forest Bytes) : Prop where
  hangs : Forest.Unfolds (Forest.labelIn drawing.names) (Forest.nextIn drawing.arrows)
    (Forest.topsOf drawing.names drawing.arrows) forest
  all : drawing.names.length = forest.count

end DnsServer
