/-
Answering a client, as `mainDNS.c` does it.

A request is what `read` gave for the client's socket and everything else the
handler takes from outside: the machine's clock and coin, and what forwarding left
in `ip_address`.  The handler answers with the bytes it sends, if it sends any,
and leaves the cache changed.

What is logged and the drawing of the trie change nothing here; they are in
`Code/HandleTrail.lean` and `Code/Drawing.lean`.
-/
import DnsServer.Code.Trie

namespace DnsServer

/-- `BUFFER_SIZE`. -/
def bufferSize : Nat := 1024

structure ClientRequest where
  /-- The bytes waiting on the socket, or `none` where `read` fails. -/
  sent : Option Bytes
  calls : Nat → CallEnv
  /-- `ip_address` after `dns_query_domain`. -/
  forwarded : Bytes
  /-- The clock when the answer is added to the cache. -/
  addNow : Int

def handleClient (fuel : Nat) (root : TrieNode) (cache : DNSCache) (request : ClientRequest) :
    Call (Option Bytes × DNSCache) :=
  match request.sent with
  | none => .done (none, cache)
  | some sent =>
      let received := sent.take bufferSize
      if received = [] then .done (none, cache)
      -- `buffer[valread]` is past the buffer when it was filled
      else if received.length = bufferSize then .undefined
      else
        let buffer := cstr received
        if buffer = ascii "trie" then
          .done (some (ascii "Trie visualization opened on the server."), cache)
        else do
          let (cacheEntry, cache) ← retriveValue fuel root buffer request.calls cache
          match cacheEntry with
          | some cacheEntry =>
              return (some cacheEntry.recordValue, addCacheEntry request.addNow cache cacheEntry)
          | none =>
              let ipAddress := cstr request.forwarded
              if ipAddress = [] then return (some (ascii "Record not found"), cache)
              else
                let cacheEntry := dnsCreateNewEntry buffer ipAddress
                return (some cacheEntry.recordValue,
                  addCacheEntry request.addNow cache cacheEntry)

end DnsServer
