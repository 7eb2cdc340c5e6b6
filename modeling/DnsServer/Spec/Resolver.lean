/-
What the server is for.

A resolver answers names.  It remembers what it has answered and knows a table of zones: a
name is answered from memory if it is remembered, from the zones if one of them has a record
for it, and else with what asking elsewhere gave.  A zone's own name stands for one of the
zone's two servers: that name is looked for instead, and what is found is remembered under
the name it was found under.

There is no trie here, no hash table and no packet.
-/
import DnsServer.Code.MainDns
import DnsServer.Spec.CacheMap
import DnsServer.Spec.ZoneTable

namespace DnsServer

namespace Resolver

/-- What a name comes to over what is remembered, and what is remembered then: the name that
something was found under and its value, or nothing. -/
inductive Finds (table : List ZoneData) : Bytes → (Nat → CallEnv) → CacheMap →
    Option (Bytes × Bytes) → CacheMap → Prop
  | remembered {name calls m m' value}
      (h : m.lookup (calls 0).cleanNow (calls 0).touchNow name = (m', some value)) :
      Finds table name calls m (some (name, value)) m'
  | known {name calls m m' value}
      (h : m.lookup (calls 0).cleanNow (calls 0).touchNow name = (m', none))
      (hzones : landing table (question name) = .done (.record value)) :
      Finds table name calls m (some (name, value)) m'
  | unknown {name calls m m'}
      (h : m.lookup (calls 0).cleanNow (calls 0).touchNow name = (m', none))
      (hzones : landing table (question name) = .done .missing) :
      Finds table name calls m none m'
  | instead {name calls m m₁ m' ns found}
      (h : m.lookup (calls 0).cleanNow (calls 0).touchNow name = (m₁, none))
      (hzones : landing table (question name) = .done (.redirect ns))
      (hrest : Finds table (if (calls 0).coin then ns.domain1 else ns.domain2)
        (fun i => calls (i + 1)) m₁ found m') :
      Finds table name calls m found m'

/-- A name asked for. -/
structure Ask where
  name : Bytes
  calls : Nat → CallEnv
  /-- What asking elsewhere gives. -/
  elsewhere : Option Bytes
  /-- The clock when the answer is remembered. -/
  addNow : Int

/-- The answer, and what is remembered then. -/
inductive Replies (table : List ZoneData) (m : CacheMap) (ask : Ask) : Bytes → CacheMap → Prop
  | found {name value m'} (h : Finds table ask.name ask.calls m (some (name, value)) m') :
      Replies table m ask value (m'.add ask.addNow name value)
  | elsewhere {address m'} (h : Finds table ask.name ask.calls m none m')
      (haddress : ask.elsewhere = some address) :
      Replies table m ask address (m'.add ask.addNow ask.name address)
  | nowhere {m'} (h : Finds table ask.name ask.calls m none m') (hnone : ask.elsewhere = none) :
      Replies table m ask (ascii "Record not found") m'

/-- What there is to hear of a client. -/
inductive Heard
  | nothing
  /-- More than is listened to. -/
  | full
  | drawing
  | name (name : Bytes)

end Resolver

/-- What is heard of the bytes that wait on a socket, or where they cannot be read. -/
def heard (sent : Option Bytes) : Resolver.Heard :=
  match sent with
  | none => .nothing
  | some sent =>
      let received := sent.take bufferSize
      if received = [] then .nothing
      else if received.length = bufferSize then .full
      else if cstr received = ascii "trie" then .drawing
      else .name (cstr received)

/-- The request, once this name is heard. -/
def ClientRequest.ask (request : ClientRequest) (name : Bytes) : Resolver.Ask :=
  let address := cstr request.forwarded
  { name, calls := request.calls
    elsewhere := if address = [] then none else some address
    addNow := request.addNow }

/-- A client is served: what it sent and what is sent back. -/
inductive Resolver.Step (table : List ZoneData) (m : CacheMap) :
    ClientRequest × Option Bytes → CacheMap → Prop
  | nothing {request} (h : heard request.sent = .nothing) : Step table m (request, none) m
  | drawing {request} (h : heard request.sent = .drawing) :
      Step table m (request, some (ascii "Trie visualization opened on the server.")) m
  | name {request name answer m'} (h : heard request.sent = .name name)
      (hreplies : Replies table m (request.ask name) answer m') :
      Step table m (request, some answer) m'

end DnsServer
