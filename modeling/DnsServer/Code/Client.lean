/-
The client, as `dns_client.c` has it, and an exchange between it and the server.

The client checks its argument, connects, sends the name, and shows what one `read` gives
it.  What the system calls come to is an argument; of a message of `perror` the text of the
error is.  The address it connects to is a constant that `inet_pton` accepts.

The handler is that of `MainDns` once more, with the two things it calls and waits for in
it: the drawing of the trie, with its counter, and the asking of another server.

In an exchange the handler's one `read` gives it what has come of the name by then, and the
client's one `read` what has come of the answer by then.
-/
import DnsServer.Code.Drawing
import DnsServer.Code.Forward
import DnsServer.Code.MainDns

namespace DnsServer

variable {ε : Type}

/-! ### The handler -/

/-- What one handler leaves to the next. -/
structure Serving where
  /-- The static counter of `writeTrieToDot`. -/
  nodeId : Nat
  cache : DNSCache

/-- When the program has started. -/
def Serving.start : Serving := { nodeId := 0, cache := initializeDNSCache }

/-- What the handler takes from outside. -/
structure ClientVisit (ε : Type) where
  /-- The bytes waiting on the socket, or `none` where `read` fails. -/
  sent : Option Bytes
  /-- Whether `trie.dot` is opened. -/
  opened : Bool
  calls : Nat → CallEnv
  /-- What `dns_query_domain` takes from outside. -/
  env : QueryEnv ε
  /-- The clock when the answer is added to the cache. -/
  addNow : Int

/-- `handleClient`, the drawing of the trie and `dns_query_domain` included. -/
def handleClientWhole (fuel : Nat) (root : TrieNode) (s : Serving) (visit : ClientVisit ε) :
    Call (Option Bytes × Serving) :=
  match visit.sent with
  | none => .done (none, s)
  | some sent =>
      let received := sent.take bufferSize
      if received = [] then .done (none, s)
      -- `buffer[valread]` is past the buffer when it was filled
      else if received.length = bufferSize then .undefined
      else
        let buffer := cstr received
        if buffer = ascii "trie" then do
          let (nodeId, _) ← visualizeTrie s.nodeId root visit.opened
          return (some (ascii "Trie visualization opened on the server."), { s with nodeId })
        else do
          let (cacheEntry, cache) ← retriveValue fuel root buffer visit.calls s.cache
          match cacheEntry with
          | some cacheEntry =>
              return (some cacheEntry.recordValue,
                { s with cache := addCacheEntry visit.addNow cache cacheEntry })
          | none => do
              let ipStorage ← forwardedAddress fuel buffer visit.env
              let ipAddress := cstr ipStorage
              if ipAddress = [] then return (some (ascii "Record not found"), { s with cache })
              else
                let cacheEntry := dnsCreateNewEntry buffer ipAddress
                return (some cacheEntry.recordValue,
                  { s with cache := addCacheEntry visit.addNow cache cacheEntry })

/-! ### The client -/

/-- `BUFFER_SIZE`, as the client has it. -/
def clientBufferSize : Nat := 2048

/-- What a run of the client leaves behind. -/
structure ClientOutput where
  status : Nat
  stdout : Bytes
  stderr : Bytes
  deriving DecidableEq, Repr

/-- What the client's system calls come to, up to `send`. -/
structure ClientCalls where
  socket : Bool
  connect : Bool
  send : Bool
  /-- `strerror(errno)`. -/
  strerror : Bytes

/-- What `perror` prints. -/
def perror (message strerror : Bytes) : Bytes :=
  message ++ ascii ": " ++ strerror ++ [newline]

/-- Up to `send`: how the client ended, or the name it sent and what it has printed. -/
def dnsClientAsk (argv : List Bytes) (calls : ClientCalls) : Except ClientOutput (Bytes × Bytes) :=
  match argv with
  | [_, domain] =>
      if domain.length = 0 ∨ 253 < domain.length then
        .error { status := 1, stdout := []
                 stderr := ascii
                   "Invalid domain name: Must be non-empty and less than 254 characters.\n" }
      else if !calls.socket then
        .error { status := 1, stdout := []
                 stderr := perror (ascii "Socket creation error") calls.strerror }
      else if !calls.connect then
        .error { status := 1, stdout := []
                 stderr := perror (ascii "Connection failed") calls.strerror }
      else
        let stdout := ascii "Connected to server at 127.0.0.1:8081\n"
        if !calls.send then
          .error { status := 1, stdout, stderr := perror (ascii "Send failed") calls.strerror }
        else .ok (domain, stdout ++ ascii "Query sent: " ++ domain ++ [newline])
  | _ =>
      .error { status := 1, stdout := []
               stderr := ascii "Usage: " ++ argv.headD [] ++ ascii " <domain_name>\n" }

/-- From `read` on: `reply` is what there is to be read, or `none` where `read` fails. -/
def dnsClientHear (stdout : Bytes) (reply : Option Bytes) (strerror : Bytes) :
    Call ClientOutput :=
  match reply with
  | none => .done { status := 0, stdout, stderr := perror (ascii "Read failed") strerror }
  | some reply =>
      let buffer := reply.take clientBufferSize
      if buffer = [] then
        .done { status := 0, stdout := stdout ++ ascii "Connection closed by server.\n"
                stderr := [] }
      -- `buffer[valread]` is past the buffer when it was filled
      else if buffer.length = clientBufferSize then .undefined
      else
        .done { status := 0, stdout := stdout ++ ascii "Response: " ++ cstr buffer ++ [newline]
                stderr := [] }

/-! ### Both -/

/-- A client's run and the handler's for it. -/
structure Exchange (ε : Type) where
  argv : List Bytes
  clientCalls : ClientCalls
  /-- How much of the name has come when the handler reads, unless its `read` fails. -/
  heard : Option Nat
  /-- Whether `trie.dot` is opened. -/
  opened : Bool
  calls : Nat → CallEnv
  env : QueryEnv ε
  /-- The clock when the answer is added to the cache. -/
  addNow : Int
  /-- How much of the answer has come when the client reads, unless its `read` fails. -/
  got : Option Nat
  /-- `strerror(errno)` then. -/
  strerror : Bytes

/-- What the handler is given of a name. -/
def Exchange.visit (e : Exchange ε) (name : Bytes) : ClientVisit ε :=
  { sent := e.heard.map name.take, opened := e.opened, calls := e.calls, env := e.env
    addNow := e.addNow }

/-- What the exchange leaves to the next, and what the client leaves behind. -/
def exchange (fuel : Nat) (root : TrieNode) (s : Serving) (e : Exchange ε) :
    Call (Serving × ClientOutput) :=
  match dnsClientAsk e.argv e.clientCalls with
  | .error output => .done (s, output)
  | .ok (name, stdout) => do
      let (answer, s) ← handleClientWhole fuel root s (e.visit name)
      let output ← dnsClientHear stdout (e.got.map (answer.getD []).take) e.strerror
      return (s, output)

end DnsServer
