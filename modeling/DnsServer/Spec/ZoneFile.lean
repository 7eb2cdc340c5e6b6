/-
What a zone file says, and what the scripts make a list of.

A record line is an owner, `IN`, a type and a value, with blanks between them and
anything after them; a semicolon begins a comment.  The names that get nodes are not the
owners of these lines but the words of the line the script prints, as far as it fits the
buffer it is read into.
-/
import DnsServer.Code.Scripts
import DnsServer.Lib.Split

namespace DnsServer

/-- An A or MX record with no TTL of its own.  The word behind the type is its value; of an MX
record that is the preference. -/
structure AddressLine (line owner type value : Bytes) : Prop where
  words : ∃ rest, blankWords line = owner :: ascii "IN" :: type :: value :: rest
  type : type = ascii "A" ∨ type = ascii "MX"
  owner : 59 ∉ owner
  value : 59 ∉ value

/-- An A or MX record of this owner, with a TTL of its own or without. -/
structure AddressOwner (line owner : Bytes) : Prop where
  words : ∃ ttl type value rest,
    blankWords line = owner :: (ttl ++ ascii "IN" :: type :: value :: rest) ∧
    (ttl = [] ∨ ∃ number, ttl = [number] ∧ number.head?.any isDigit ∧ 59 ∉ number) ∧
    (type = ascii "A" ∨ type = ascii "MX") ∧ 59 ∉ value
  owner : 59 ∉ owner

/-- The first fields of the lines the script's pattern picks. -/
def selectedNames (file : Bytes) : List Bytes :=
  ((linesOf file).filter terminalPattern).map fun line => (blankWords line).headD []

/-- The words among the first 127 bytes of what `get_terminal_names.sh` prints. -/
def listedNames (file : Bytes) : List Bytes :=
  strtok [space] (cstr ((getTerminalNamesSh file).take (lineBufferSize - 1)))

/-! ### Names under a zone -/

/-- The zone's name, or an owner's under it. -/
def OwnName (file z q : Bytes) : Prop :=
  q = z ∨ ∃ line ∈ linesOf file, ∃ owner type value,
    AddressLine line owner type value ∧ q = owner ++ dot :: z

/-- The labels of the name are a listed one and then the zone's. -/
def UnderZone (file s t q : Bytes) : Prop :=
  ∃ label, extractWordsFromDomain q = [label, s, t] ∧ label ≠ ascii "@" ∧ label ∈ listedNames file

/-- The name is found: it is under the zone, or it has the zone's labels and one of the zone's
servers is under the zone. -/
def FoundUnder (file s t : Bytes) (servers : NSQuerys) (q : Bytes) : Prop :=
  UnderZone file s t q ∨
    extractWordsFromDomain q = [s, t] ∧
      (UnderZone file s t servers.domain1 ∨ UnderZone file s t servers.domain2)

/-! ### The record of each line -/

/-- An A or MX record stands at this place of the file, counted from 0. -/
def AddressAt (file : Bytes) (p : Nat) (owner type value : Bytes) : Prop :=
  ∃ line, (linesOf file)[p]? = some line ∧ AddressLine line owner type value

/-- How many names are picked before a line. -/
def placeOf (file : Bytes) (p : Nat) : Nat := ((linesOf file).take p).countP terminalPattern

/-- What is read of a command's output, up to the line break. -/
def readBack (output : Bytes) : Option Bytes := (fgets lineBufferSize output).map cutNewline

/-- The node made for each A and MX record holds the type and the value of its line. -/
def HoldsOwnRecords (file : Bytes) (node : TrieNode) : Prop :=
  ∀ p owner type value, AddressAt file p owner type value →
    ∃ child record, node.childrens[placeOf file p + 1]? = some child ∧ child.label = owner ∧
      child.records = [record] ∧ cutNewline record.type = type ∧
      record.value.map cutNewline = some value

/-- The owner of each A and MX record is listed in its place, and the line that many below the
header shows its type and its value. -/
def InStep (bash : Bash) (file : Bytes) : Prop :=
  ∀ p owner type value, AddressAt file p owner type value →
    (listedNames file)[placeOf file p]? = some owner ∧
    readBack (getDNSTypeSh bash file (firstRecordLine + placeOf file p)) = some type ∧
    readBack (getDNSValueSh bash file (firstRecordLine + placeOf file p)) = some value

/-- The scripts print what they do of this file, for as many lines as there can be names. -/
structure PrintsFields (shell : Shell) (bash : Bash) (path file : Bytes) : Prop where
  names : shell (getTerminalNamesScript ++ path) = some (getTerminalNamesSh file)
  type : ∀ k < nrArray, shell (getDNSType ++ path ++ lineArgument (firstRecordLine + k))
    = some (getDNSTypeSh bash file (firstRecordLine + k))
  value : ∀ k < nrArray, shell (getDNSValue ++ path ++ lineArgument (firstRecordLine + k))
    = some (getDNSValueSh bash file (firstRecordLine + k))

/-! ### Files without words special to the shell -/

def PlainFile (file : Bytes) : Prop :=
  ∀ line ∈ linesOf file, ∀ word ∈ blankWords line, Plain word

/-- The words of a line, by its number. -/
def wordsAt (file : Bytes) (nrLine : Nat) : List Bytes :=
  blankWords (((linesOf file)[nrLine - 1]?).getD [])

/-- A word by its number; the only word of a line stands for all. -/
def cutWord (field : Nat) : List Bytes → Bytes
  | [word] => word
  | words => (words[field - 1]?).getD []

/-- The names up to the owner's of each A and MX record fit the buffer they are read into, and
the line that many below the header has its type and its value. -/
def LinesAgree (file : Bytes) : Prop :=
  ∀ p owner type value, AddressAt file p owner type value →
    (((selectedNames file).take (placeOf file p + 1)).flatMap (· ++ [space])).length
      ≤ lineBufferSize ∧
    (cutWord 3 (wordsAt file (firstRecordLine + placeOf file p))).take (lineBufferSize - 1)
      = type ∧
    (cutWord 4 (wordsAt file (firstRecordLine + placeOf file p))).take (lineBufferSize - 1)
      = value

/-! ### Zones of any size -/

def soaFields : List Bytes :=
  [ascii "serial", ascii "refresh", ascii "retry", ascii "expire", ascii "minimum_ttl"]

def nsRecords : List Bytes := [ascii "ns1", ascii "ns2"]

/-- The scripts print what they do of this file, for all that comes before its records. -/
structure PrintsZone (shell : Shell) (bash : Bash) (path file : Bytes) : Prop where
  metadata : ∀ field ∈ soaFields, shell (getMetadataFromSoa ++ path ++ (ascii " " ++ field))
    = some (getMetadataFromSoaSh file field)
  servers : ∀ nsRecord ∈ nsRecords, shell (getNsDomains ++ path ++ (ascii " " ++ nsRecord))
    = some (getNsDomainsSh bash file nsRecord)
  names : shell (getTerminalNamesScript ++ path) = some (getTerminalNamesSh file)

/-- Nothing is printed for a number of the SOA record or for a name server. -/
def Incomplete (bash : Bash) (file : Bytes) : Prop :=
  (∃ field ∈ soaFields, getMetadataFromSoaSh file field = []) ∨
    ∃ nsRecord ∈ nsRecords, getNsDomainsSh bash file nsRecord = []

/-- The bytes of the names' line that the buffer holds before a NUL: 127, where there is none and
the line is that long. -/
def namesRoom (file : Bytes) : Nat :=
  (cstr ((getTerminalNamesSh file).take (lineBufferSize - 1))).length

/-- The names that are picked, a blank after each, fit what they are read into: no more than nine
words begin in the buffer, the newline counted; and the owner of each A and MX record is what the
buffer holds of one of them, or that of the zone itself. -/
structure OwnersFit (file : Bytes) : Prop where
  count : (selectedNames file).length < nrArray - 1 ∨
    namesRoom file ≤ Split.partStart (selectedNames file) (nrArray - 1)
  whole : ∀ line ∈ linesOf file, ∀ owner, AddressOwner line owner → owner = ascii "@" ∨
    ∃ j u, (selectedNames file)[j]? = some u ∧
      Split.partStart (selectedNames file) j < namesRoom file ∧
      owner = u.take (namesRoom file - Split.partStart (selectedNames file) j)

end DnsServer
