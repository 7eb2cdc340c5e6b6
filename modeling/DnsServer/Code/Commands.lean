/-
The blocks the loader puts its commands together in, as `trie.c` allocates them.

`malloc` gets a sum of lengths and small numbers, `strcpy` puts the first string at the
front of the block and `strcat` each other one over the terminator before it.  Nothing
compares the two afterwards.
-/
import DnsServer.Code.Loader
import DnsServer.Lib.Writes

namespace DnsServer

open Writes

/-- A block and the strings copied into it one behind the other. -/
structure CommandBlock where
  size : Nat
  strings : List Bytes
  nonempty : strings ≠ []

/-- The string in the block. -/
def CommandBlock.string (block : CommandBlock) : Bytes := block.strings.flatten

/-- The writes of `strcpy` and of each `strcat`. -/
def CommandBlock.writes (block : CommandBlock) : List (Nat × UInt8) := concatAt 0 0 block.strings

/-- Every write is in the block. -/
def CommandBlock.Fits (block : CommandBlock) : Prop := Inside block.size block.writes

/-! ### The builders -/

/-- `getMetadataNumber` and `getNSDomain` differ in the command. -/
def zoneFieldBlock (command pathToZone type : Bytes) : CommandBlock where
  size := pathToZone.length + 2 + command.length + 2 + type.length + 1
  strings := [command, pathToZone, type]
  nonempty := List.cons_ne_nil _ _

def getMetadataNumberBlock (pathToZone type : Bytes) : CommandBlock :=
  zoneFieldBlock getMetadataFromSoa pathToZone type

def getNSDomainBlock (pathToZone type : Bytes) : CommandBlock :=
  zoneFieldBlock getNsDomains pathToZone type

def getTerminalNamesBlock (pathToZone : Bytes) : CommandBlock where
  size := pathToZone.length + 2 + getTerminalNamesScript.length + 2
  strings := [getTerminalNamesScript, pathToZone]
  nonempty := List.cons_ne_nil _ _

/-- The three getters of a zone file's line differ in the command. -/
def getDNSFieldBlock (command pathToZone nrLineInZone : Bytes) : CommandBlock where
  size := command.length + 2 + pathToZone.length + nrLineInZone.length + 1
  strings := [command, pathToZone, nrLineInZone]
  nonempty := List.cons_ne_nil _ _

def getDNSTypeBlock (pathToZone nrLineInZone : Bytes) : CommandBlock :=
  getDNSFieldBlock getDNSType pathToZone nrLineInZone

def getDNSValueBlock (pathToZone nrLineInZone : Bytes) : CommandBlock :=
  getDNSFieldBlock getDNSValue pathToZone nrLineInZone

def getDNSTtlBlock (pathToZone nrLineInZone : Bytes) : CommandBlock :=
  getDNSFieldBlock getDNSTtl pathToZone nrLineInZone

/-- `str_number`, which `sprintf` prints the line's number into. -/
def strNumberBlock (nrLineInZone : Nat) : CommandBlock where
  size := 5
  strings := [ascii (toString nrLineInZone)]
  nonempty := List.cons_ne_nil _ _

/-- The argument `createSpecialNode` puts together. -/
def createSpecialNodeBlock (nrLineInZone : Nat) : CommandBlock where
  size := (ascii (toString nrLineInZone)).length + 2 + (ascii " ").length
  strings := [ascii " ", ascii (toString nrLineInZone)]
  nonempty := List.cons_ne_nil _ _

/-- The length is the label's, the string copied is the whole name. -/
def createTerminalNodeBlock (name domain : Bytes) : CommandBlock where
  size := getPathToZoneFile.length + 2 + name.length
  strings := [getPathToZoneFile, domain]
  nonempty := List.cons_ne_nil _ _

end DnsServer
