/-
The arrays the loader fills, as `trie.c` fills them.

A write is an index into the array and what is put there.  Each loop counts its index up
from nothing as long as there are words, and nothing looks at the size of the array.
-/
import DnsServer.Code.Loader
import DnsServer.Lib.Writes

namespace DnsServer

open Writes

/-- The writes `getArrayOfDomainNames` makes into `domains`, a string for each word of the line. -/
def getArrayOfDomainNamesWrites (buffer : Bytes) : List (Nat × Bytes) :=
  copyAt 0 (strtok [space, newline] buffer)

/-- The indices into `root->childrens` of the loop in `main`, and of the loops over the root's
`nr_childrens`. -/
def rootIndices (count : Int) : List Nat := List.range count.toNat

/-- The writes `getTerminalNames` makes into `names`: a string for each word of the line read, and
the null pointer behind them. -/
def getTerminalNamesWrites (buffer : Bytes) : List (Nat × Option Bytes) :=
  copyAt 0 ((strtok [space] buffer).map some ++ [none])

/-- The labels of the nodes `createTerminalNode` writes into `childrens`: the zone's own, and one
for each name. -/
def createTerminalNodeWrites (terminalNames : List Bytes) : List (Nat × Bytes) :=
  copyAt 0 (ascii "@" :: terminalNames)

end DnsServer
