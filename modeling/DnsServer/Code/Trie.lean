/-
The trie and the search through it, as `trie.c` has them.

A node's `childrens` are the first `nr_childrens` of its array and its `records` the
first `nr_records`.  A pointer is `none` where it is null or was never set: the
source reads neither, or what it does is undefined.

`retriveValue` asks the cache, then walks the trie in one loop that goes back to
the first child whenever it descends.  At the end of the words it either finds a
record or picks one of a zone's two name servers and starts again on its name.
What the machine supplies on each of these calls, its clock and its coin, is an
argument.
-/
import DnsServer.Code.Cache
import DnsServer.Lib.Loop

namespace DnsServer

/-- `NR_MAX_CHILDREN`. -/
def nrMaxChildren : Nat := 32

structure NSQuerys where
  domain1 : Bytes
  domain2 : Bytes
  deriving DecidableEq, Repr

structure SOAMetadata where
  serialNumber : Int
  refreshTime : Int
  retryTime : Int
  expireTime : Int
  minimumTtl : Int
  deriving DecidableEq, Repr

structure DNSRecord where
  type : Bytes
  value : Option Bytes
  ttl : Int
  deriving DecidableEq, Repr

structure TrieNode where
  label : Bytes
  childrens : List TrieNode
  records : List DNSRecord
  soa : Option SOAMetadata
  ns : Option NSQuerys

/-! ### Words -/

def extractWordsFromDomain (domain : Bytes) : List Bytes := strtok [dot] domain

/-- `words[i]`, where it is a word: the array ends in a null pointer. -/
def wordAt (words : List Bytes) (i : Int) : Option Bytes :=
  if i < 0 then none else words[i.toNat]?

/-! ### The search -/

/-- The variables the search carries from one turn of its loop to the next. -/
structure SearchState where
  searchNode : TrieNode
  i : Nat
  nrWords : Int

/-- What the search comes to. -/
inductive SearchResult
  /-- A node with a record, at the end of the words. -/
  | record (value : Bytes)
  /-- A node without, whose first child names the servers to ask instead. -/
  | redirect (ns : NSQuerys)
  /-- No child with the next word's label. -/
  | missing
  deriving DecidableEq, Repr

/-- What is done at the node the last word led to. -/
def searchEnd (node : TrieNode) : Call SearchResult :=
  match node.records.findSome? DNSRecord.value with
  | some value => .done (.record value)
  | none =>
      match node.childrens.head? with
      | none => .undefined
      | some itself =>
          match itself.ns with
          | none => .undefined
          | some ns => .done (.redirect ns)

/-- One child compared with the word the search is at. -/
def searchBody (words : List Bytes) (s : SearchState) :
    Loop.Turn SearchState (Call SearchResult) :=
  match s.searchNode.childrens[s.i]? with
  | none => .leave (.done .missing)
  | some child =>
      match wordAt words s.nrWords with
      | none => .leave .undefined
      | some word =>
          if child.label = word then
            let nrWords := s.nrWords - 1
            if nrWords = -1 then .leave (searchEnd child)
            else .again { searchNode := child, i := 0, nrWords }
          else .again { s with i := s.i + 1 }

def searchStart (root : TrieNode) (words : List Bytes) : SearchState :=
  { searchNode := root, i := 0, nrWords := words.length - 1 }

/-- The whole of the loop, for a domain split into words. -/
def searchTrie (fuel : Nat) (root : TrieNode) (words : List Bytes) : Call SearchResult := do
  let result ← Call.ofRun (Loop.run (searchBody words) fuel (searchStart root words))
  result

/-! ### Looking a domain up -/

/-- What one call to `retriveValue` takes from the machine. -/
structure CallEnv where
  /-- The clock when the lookup cleans the cache. -/
  cleanNow : Int
  /-- The clock when the lookup touches the entry it finds. -/
  touchNow : Int
  /-- The clock when the entry returned is filled. -/
  entryNow : Int
  /-- `rand() % 2 == 0`. -/
  coin : Bool

/-- The entry returned for a domain. -/
def CallEnv.entry (env : CallEnv) (domainName value : Bytes) : CacheEntry :=
  { domainName, recordValue := value, ttl := ttlValueCache, timestamp := env.entryNow }

/-- The entry found, if any, and the cache as it is left.  `calls` is what each call in
turn takes from the machine. -/
def retriveValue (fuel : Nat) (root : TrieNode) (domainName : Bytes) (calls : Nat → CallEnv)
    (cache : DNSCache) : Call (Option CacheEntry × DNSCache) :=
  match fuel with
  | 0 => .running
  | fuel + 1 =>
      let words := extractWordsFromDomain domainName
      let env := calls 0
      match lookupDNSCache env.cleanNow env.touchNow cache domainName with
      | (cache, some value) => .done (some (env.entry domainName value), cache)
      | (cache, none) => do
          match ← searchTrie fuel root words with
          | .record value => return (some (env.entry domainName value), cache)
          | .redirect ns =>
              let next := if env.coin then ns.domain1 else ns.domain2
              retriveValue fuel root next (fun i => calls (i + 1)) cache
          | .missing => return (none, cache)

end DnsServer
