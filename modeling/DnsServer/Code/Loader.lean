/-
Building the trie, as `trie.c` and `main` do it.

Everything read from the zone files comes through `popen`: the source builds a
command and takes the first line it prints.  A `Shell` is what each command prints,
or nothing where the pipe cannot be opened, so what holds of every shell holds
whatever the scripts and the files are.

Loading stops in one of two ways.  `error` prints a text and exits; everywhere the
source does not look at what it was given, a buffer that was never filled or an
index past its array is undefined.  The sizes of the blocks strings are copied into
are left out; `createTerminalNode` makes room in its command for the label and then
copies the whole name.
-/
import DnsServer.Code.Trie

namespace DnsServer

/-- Why loading stops. -/
inductive LoadFault
  /-- `error(text)`. -/
  | exit (text : String)
  | undefined
  deriving DecidableEq, Repr

abbrev Load := Except LoadFault

/-- What a command prints, or `none` where `popen` returns a null pointer. -/
abbrev Shell := Bytes → Option Bytes

/-! ### The C library -/

def newline : UInt8 := 10

def space : UInt8 := 32

/-- `sizeof(buffer)` of every buffer a line is read into. -/
def lineBufferSize : Nat := 128

/-- The string `fgets` leaves in a buffer of `size` bytes: the stream's first line with its
newline, as far as it fits; `none` at the end of the stream. -/
def fgets (size : Nat) (stream : Bytes) : Option Bytes :=
  if stream = [] then none
  else
    let line := stream.takeWhile (· ≠ newline)
    let line := if newline ∈ stream then line ++ [newline] else line
    some (cstr (line.take (size - 1)))

/-- `isspace` in the C locale. -/
def isSpace (c : UInt8) : Bool := c == 32 || (9 ≤ c && c ≤ 13)

def isDigit (c : UInt8) : Bool := 48 ≤ c && c ≤ 57

/-- The number the digits at the front make. -/
def digitsValue (s : Bytes) : Int :=
  (s.takeWhile isDigit).foldl (fun n c => n * 10 + (c.toNat - 48)) 0

/-- `strtol` in base ten: past either end of a `long` the number is that end. -/
def strtol (s : Bytes) : Int :=
  let value :=
    match s.dropWhile isSpace with
    | [] => 0
    | c :: rest =>
        if c = 45 then -digitsValue rest
        else if c = 43 then digitsValue rest
        else digitsValue (c :: rest)
  max (-2 ^ 63) (min value (2 ^ 63 - 1))

/-- `atoi` makes an `int` of the `long` by its low 32 bits. -/
def atoi (s : Bytes) : Int := (strtol s).bmod (2 ^ 32)

/-- `buffer[strcspn(buffer, "\n")] = '\0'`. -/
def cutNewline (s : Bytes) : Bytes := s.takeWhile (· ≠ newline)

/-- Run a command and read its first line. -/
def popenLine (shell : Shell) (command : Bytes) (nullPipe noLine : LoadFault) : Load Bytes :=
  match shell command with
  | none => .error nullPipe
  | some stream =>
      match fgets lineBufferSize stream with
      | none => .error noLine
      | some line => .ok line

/-! ### Commands -/

def getNrZonesForRootStart : Bytes :=
  ascii "./Scripts/get_nr_zones_for_root_start.sh BINDzones/zones.conf"
def getArrayOfDomains : Bytes := ascii "./Scripts/get_array_of_domains.sh BINDzones/zones.conf"
def getPathToZoneFile : Bytes := ascii "./Scripts/get_path_to_zone_file.sh BINDzones/zones.conf "
def getMetadataFromSoa : Bytes := ascii "./Scripts/get_metadata_from_soa.sh "
def getNsDomains : Bytes := ascii "./Scripts/get_ns_domains.sh "
def getTerminalNamesScript : Bytes := ascii "./Scripts/get_terminal_names.sh "
def getDNSType : Bytes := ascii "./Scripts/get_DNStype.sh "
def getDNSValue : Bytes := ascii "./Scripts/get_DNSvalue.sh "
def getDNSTtl : Bytes := ascii "./Scripts/get_DNSttl.sh "

/-- `NR_ARRAY`. -/
def nrArray : Nat := 10

/-! ### The root and the zones -/

/-- The root without its children, and its `nr_childrens`. -/
def createTrieROOT (shell : Shell) : Load (TrieNode × Int) := do
  let buffer ← popenLine shell getNrZonesForRootStart
    (.exit "Error opening pipe for popen() call for GET_NR_ZONES_FOR_ROOT_START")
    (.exit "Error reading number of zones from script!")
  if buffer = ascii "error" ++ [newline] then
    throw (.exit "Error retrieving number of zones!")
  else
    return ({ label := ascii "root", childrens := [], records := [], soa := none, ns := none },
      atoi buffer)

def getArrayOfDomainNames (shell : Shell) : Load (List Bytes) := do
  let buffer ← popenLine shell getNrZonesForRootStart .undefined
    (.exit "Error for fgets() in retriving the number of zones!")
  if buffer = ascii "error" then
    throw (.exit "Error in geting the number!")
  else
    let nrZones := atoi buffer
    let buffer ← popenLine shell getArrayOfDomains .undefined
      (.exit "Error in retriving the array of domains from using popen() with GET_ARRAY_OF_DOMAINS")
    let domains := strtok [space, newline] buffer
    -- `domains` has room for `nr_zones` names, and as many are printed
    if domains.length = nrZones.toNat then return domains else throw .undefined

def getNrBranches (shell : Shell) : Load Int := do
  let buffer ← popenLine shell getNrZonesForRootStart .undefined
    (.exit "Error for retriving the number of zones with fgets()!")
  if buffer = ascii "error" then
    throw (.exit
      "Error in geting the number of zones using popen() with GET_NR_ZONES_FOR_ROOT_START!")
  else return atoi buffer

/-! ### Nodes -/

def createNormalNode (name : Bytes) : TrieNode :=
  { label := name, childrens := [], records := [], soa := none, ns := none }

def getMetadataNumber (shell : Shell) (pathToZone type : Bytes) : Load Int := do
  let buffer ← popenLine shell (getMetadataFromSoa ++ pathToZone ++ type) .undefined
    (.exit "Error retriving the metadata number with fgets() for GET_METADATA_FROM_SOA")
  return atoi buffer

def getNSDomain (shell : Shell) (pathToZone type : Bytes) : Load Bytes := do
  let buffer ← popenLine shell (getNsDomains ++ pathToZone ++ type)
    (.exit "Error creating a pipe with popen() for GET_NS_DOMAINS!")
    (.exit "Error getting the ns domains with fgets()!")
  return cutNewline buffer

def createItselfNode (shell : Shell) (name pathToZone : Bytes) : Load TrieNode := do
  let serialNumber ← getMetadataNumber shell pathToZone (ascii " serial")
  let refreshTime ← getMetadataNumber shell pathToZone (ascii " refresh")
  let retryTime ← getMetadataNumber shell pathToZone (ascii " retry")
  let expireTime ← getMetadataNumber shell pathToZone (ascii " expire")
  let minimumTtl ← getMetadataNumber shell pathToZone (ascii " minimum_ttl")
  let domain1 ← getNSDomain shell pathToZone (ascii " ns1")
  let domain2 ← getNSDomain shell pathToZone (ascii " ns2")
  return {
    label := name, childrens := [], records := []
    soa := some ⟨serialNumber, refreshTime, retryTime, expireTime, minimumTtl⟩
    ns := some ⟨domain1, domain2⟩ }

def getTerminalNames (shell : Shell) (pathToZone : Bytes) : Load (List Bytes) := do
  let buffer ← popenLine shell (getTerminalNamesScript ++ pathToZone)
    (.exit "Error popen for GET_TERMINAL_NAMES!") .undefined
  let names := strtok [space] buffer
  -- the names and the null pointer after them go in an array of `NR_ARRAY`
  if names.length < nrArray then return names else throw .undefined

/-- The three getters of a zone file's line differ in the command and in what they make of
what it prints. -/
def getDNSField (shell : Shell) (command pathToZone nrLineInZone : Bytes) : Load Bytes :=
  popenLine shell (command ++ pathToZone ++ nrLineInZone) .undefined .undefined

def getDNSTypeFromZoneFile (shell : Shell) (pathToZone nrLineInZone : Bytes) : Load Bytes :=
  getDNSField shell getDNSType pathToZone nrLineInZone

def getDNSValueFromZoneFile (shell : Shell) (pathToZone nrLineInZone : Bytes) : Load Bytes :=
  getDNSField shell getDNSValue pathToZone nrLineInZone

def getDNSTtlValueFromZoneFile (shell : Shell) (pathToZone nrLineInZone : Bytes) : Load Int :=
  (getDNSField shell getDNSTtl pathToZone nrLineInZone).map atoi

/-- The argument that selects a line: a blank and its number. -/
def lineArgument (nrLineInZone : Nat) : Bytes := ascii " " ++ ascii (toString nrLineInZone)

def createSpecialNode (shell : Shell) (pathToZone : Bytes) (nrLineInZone : Nat) (name : Bytes) :
    Load TrieNode := do
  let string := lineArgument nrLineInZone
  let type ← getDNSTypeFromZoneFile shell pathToZone string
  let value ← getDNSValueFromZoneFile shell pathToZone string
  let ttl ← getDNSTtlValueFromZoneFile shell pathToZone (ascii " 1")
  return {
    label := name, childrens := [], records := [{ type := type, value := some value, ttl := ttl }]
    soa := none, ns := none }

/-- The loop over a zone's names: the first one's line is `start_index`. -/
def createSpecialNodes (shell : Shell) (pathToZone : Bytes) :
    Nat → List Bytes → Load (List TrieNode)
  | _, [] => return []
  | startIndex, name :: names => do
      let specialNode ← createSpecialNode shell pathToZone startIndex name
      let specialNodes ← createSpecialNodes shell pathToZone (startIndex + 1) names
      return specialNode :: specialNodes

/-- The zone file's path, as `createTerminalNode` asks for it. -/
def pathToZoneFile (shell : Shell) (domain : Bytes) : Load Bytes := do
  let buffer ← popenLine shell (getPathToZoneFile ++ domain) .undefined .undefined
  return cutNewline buffer

/-- The line of a zone file its records start on. -/
def firstRecordLine : Nat := 11

def createTerminalNode (shell : Shell) (name domain : Bytes) : Load TrieNode := do
  let path ← pathToZoneFile shell domain
  let itselfNode ← createItselfNode shell (ascii "@") path
  let terminalNames ← getTerminalNames shell path
  let specialNodes ← createSpecialNodes shell path firstRecordLine terminalNames
  return {
    label := name, childrens := itselfNode :: specialNodes, records := []
    soa := none, ns := none }

/-- The nodes of a branch, from the top label down, the last one terminal. -/
def vectorOfNodes (shell : Shell) (domain : Bytes) : List Bytes → Load (List TrieNode)
  | [] => return []
  | name :: names => do
      let terminalNode ← createTerminalNode shell name domain
      return (names.map createNormalNode).reverse ++ [terminalNode]

/-- Every node but the first becomes a child of the first. -/
def createBranch (shell : Shell) (domain : Bytes) : Load TrieNode := do
  match ← vectorOfNodes shell domain (extractWordsFromDomain domain) with
  | [] => throw .undefined
  | first :: rest =>
      if first.childrens.length + rest.length ≤ nrMaxChildren then
        return { first with childrens := first.childrens ++ rest }
      else throw .undefined

/-! ### main -/

/-- The loop of `main` over the zones, with `count` left from `i` on. -/
def createBranches (shell : Shell) (domains : List Bytes) : Nat → Nat → Load (List TrieNode)
  | 0, _ => return []
  | count + 1, i =>
      match domains[i]? with
      | none => throw .undefined
      | some domain => do
          let branch ← createBranch shell domain
          if nrMaxChildren ≤ i then throw .undefined
          else
            let branches ← createBranches shell domains count (i + 1)
            return branch :: branches

/-- The trie `main` builds before it serves anything. -/
def buildTrie (shell : Shell) : Load TrieNode := do
  let (root, nrChildrens) ← createTrieROOT shell
  let domains ← getArrayOfDomainNames shell
  let nrBranches ← getNrBranches shell
  let branches ← createBranches shell domains nrBranches.toNat 0
  -- a child counted and never set is a null pointer
  if nrChildrens.toNat ≤ branches.length then
    return { root with childrens := branches.take nrChildrens.toNat }
  else throw .undefined

end DnsServer
