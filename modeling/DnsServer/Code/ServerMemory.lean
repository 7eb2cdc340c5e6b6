/-
Answering clients, with the memory it takes.

`retriveValue` splits the name into words that stay allocated, and where it goes on from
there it allocates a pointer's worth of memory and then drops the pointer: `cache_entry`
and `search_node` are given a block by `malloc` and at once something else.  The entry it
returns is new, a copy of what the cache or the trie has, and `handleClient` hands it to
`addCacheEntry` and sends the value it holds.

The blocks whose bytes are read by nobody, or only through the variables of the call that
made them, are there without their bytes.  The trie is read only, and what the forwarding
of a query allocates is not the cache's; both are left out.
-/
import DnsServer.Code.CacheMemory
import DnsServer.Code.MainDns

namespace DnsServer

/-- What one call to `retriveValue` takes from the machine, the clock of its listing with it. -/
structure HeapCallEnv extends CallEnv where
  /-- The clock when the lookup lists the cache. -/
  printNow : Int

/-- A request to a server whose cache is in memory. -/
structure HeapRequest where
  sent : Option Bytes
  calls : Nat → HeapCallEnv
  forwarded : Bytes
  addNow : Int

/-- The request without the clocks of the listings. -/
def HeapRequest.toRequest (request : HeapRequest) : ClientRequest :=
  { sent := request.sent
    calls := fun i => (request.calls i).toCallEnv
    forwarded := request.forwarded
    addNow := request.addNow }

namespace CacheMemory

/-- A block without its bytes. -/
def bare : Block := .string []

/-- Copies of strings, allocated one after another. -/
def mallocStrings (m : CacheMemory) : List Bytes → List Nat × CacheMemory
  | [] => ([], m)
  | bytes :: rest =>
      let (a, m) := m.malloc (.string bytes)
      let (as, m) := m.mallocStrings rest
      (a :: as, m)

/-- The words of a domain, by address; the copy that is split is freed. -/
def extractWordsFromDomain (m : CacheMemory) (domain : Bytes) : Call (List Nat × CacheMemory) := do
  let (_, m) := m.malloc bare
  let (domainCopy, m) := m.malloc (.string domain)
  let (words, m) := m.mallocStrings (DnsServer.extractWordsFromDomain domain)
  return (words, { m with heap := ← m.heap.free domainCopy })

/-- The words, read. -/
def readWords (m : CacheMemory) : List Nat → Call (List Bytes)
  | [] => .done []
  | a :: as => do return (← m.heap.readString a) :: (← m.readWords as)

/-- The memory, and the entry found, if any. -/
def retriveValue (fuel : Nat) (root : TrieNode) (domainName : Bytes) (calls : Nat → HeapCallEnv)
    (m : CacheMemory) : Call (CacheMemory × Option Nat) :=
  match fuel with
  | 0 => .running
  | fuel + 1 => do
      let (words, m) ← m.extractWordsFromDomain domainName
      let env := calls 0
      let (m, _, searchDNSCache) ←
        m.lookupDNSCache fuel env.printNow env.cleanNow env.touchNow domainName
      match searchDNSCache with
      | some searchDNSCache =>
          -- `malloc(sizeof(struct CacheEntry*))`
          let (_, m) := m.malloc bare
          let recordValue ← m.heap.readString searchDNSCache
          let (cacheEntry, m) := m.newEntry (env.entry domainName recordValue)
          return (m, some cacheEntry)
      | none =>
          -- `malloc(sizeof(struct TrieNode*))`
          let (_, m) := m.malloc bare
          match ← searchTrie fuel root (← m.readWords words) with
          | .record value =>
              let (_, m) := m.malloc bare
              let (cacheEntry, m) := m.newEntry (env.entry domainName value)
              return (m, some cacheEntry)
          | .redirect ns =>
              let next := if env.coin then ns.domain1 else ns.domain2
              retriveValue fuel root next (fun i => calls (i + 1)) m
          | .missing => return (m, none)

/-- `cache_entry->record_value`, read. -/
def recordValue (m : CacheMemory) (cacheEntry : Nat) : Call Bytes := do
  m.heap.readString (← m.heap.read cacheEntry).recordValue

/-- The memory, and what is sent, if anything is. -/
def handleClient (fuel : Nat) (root : TrieNode) (m : CacheMemory) (request : HeapRequest) :
    Call (CacheMemory × Option Bytes) :=
  match request.sent with
  | none => .done (m, none)
  | some sent =>
      let received := sent.take bufferSize
      if received = [] then .done (m, none)
      -- `buffer[valread]` is past the buffer when it was filled
      else if received.length = bufferSize then .undefined
      else
        let buffer := cstr received
        if buffer = ascii "trie" then
          .done (m, some (ascii "Trie visualization opened on the server."))
        else do
          let (m, cacheEntry) ← m.retriveValue fuel root buffer request.calls
          match cacheEntry with
          | some cacheEntry =>
              -- what is logged
              let _ ← m.recordValue cacheEntry
              let (m, _) ← m.addCacheEntry fuel request.addNow cacheEntry
              return (m, some (← m.recordValue cacheEntry))
          | none =>
              let ipAddress := cstr request.forwarded
              if ipAddress = [] then return (m, some (ascii "Record not found"))
              else
                let (cacheEntry, m) := m.dnsCreateNewEntry buffer ipAddress
                let (m, _) ← m.addCacheEntry fuel request.addNow cacheEntry
                return (m, some (← m.recordValue cacheEntry))

end CacheMemory

/-- `handleClient` on the lists of entries, as a step of a run. -/
def answerClient (fuel : Nat) (root : TrieNode) (cache : DNSCache) (request : HeapRequest) :
    Call (DNSCache × Option Bytes) := do
  let (response, cache) ← handleClient fuel root cache request.toRequest
  return (cache, response)

end DnsServer
