/-
`handleClient` call by call, with what it logs.

This is the handler of `MainDns` once more, and beside its answer it leaves a trail: the
points of `Cleanup` it went through, in order, each with the message it logged there, if
it logged one.  The other thread that logs is that of `main`.
-/
import DnsServer.Code.Connections
import DnsServer.Code.Logger
import DnsServer.Code.MainDns
import DnsServer.Lib.Calls

namespace DnsServer

structure HandleStep where
  point : HandlePoint
  log : Option LogCall

namespace HandleStep

def quiet (point : HandlePoint) : HandleStep := { point, log := none }

def info (point : HandlePoint) (message : Bytes) : HandleStep :=
  { point, log := some { level := ascii "INFO", message } }

def error (point : HandlePoint) (message : Bytes) : HandleStep :=
  { point, log := some { level := ascii "ERROR", message } }

end HandleStep

/-- Nothing could be read; `client` is the descriptor as `%d` prints it. -/
def unreadTrail (client : Bytes) : List HandleStep :=
  [.error .readFailed (ascii "Failed to read from client socket: " ++ client),
    .quiet .closingUnread]

def trieTrail : List HandleStep :=
  [.info .trieRequested (ascii "Client requested Trie visualization."), .quiet .drawing,
    .quiet .trieReply]

/-- From sending the response on. -/
def sendTrail (client response : Bytes) (sends : Bool) : List HandleStep :=
  [.quiet .sending,
    if sends then
      .info .sent (ascii "Sent response to client " ++ client ++ ascii ": " ++ response)
    else .error .sent (ascii "Failed to send response to client socket: " ++ client),
    .quiet .closing,
    .info .closed (ascii "Closed connection for client socket: " ++ client)]

def hitTrail (buffer recordValue : Bytes) : List HandleStep :=
  [.quiet .retrieving,
    .info .hit (ascii "Cache/Trie hit for query " ++ buffer ++ ascii " -> " ++ recordValue),
    .quiet .adding,
    .info .added (ascii "Added query result to cache: " ++ buffer)]

def forwardTrail (buffer : Bytes) : List HandleStep :=
  [.quiet .retrieving,
    .info .notFound (ascii "Domain not found in local server: " ++ buffer),
    .quiet .forwarding,
    .info .forwarded (ascii "Query for " ++ buffer ++ ascii " was successfuly forwarded.")]

/-- The trail, the bytes it sends, if it sends any, and the cache; `sends` is whether `send`
succeeds. -/
def handleClientTrail (fuel : Nat) (root : TrieNode) (cache : DNSCache) (request : ClientRequest)
    (clientSocket : Nat) (sends : Bool) : Call (List HandleStep × Option Bytes × DNSCache) :=
  let client := ascii (toString clientSocket)
  let opening := [.info .handling (ascii "Handling client socket: " ++ client), .quiet .reading]
  match request.sent with
  | none => .done (opening ++ unreadTrail client, none, cache)
  | some sent =>
      let received := sent.take bufferSize
      if received = [] then .done (opening ++ unreadTrail client, none, cache)
      else if received.length = bufferSize then .undefined
      else
        let buffer := cstr received
        let opening := opening ++ [.info .received
          (ascii "Received query from client " ++ client ++ ascii ": " ++ buffer)]
        if buffer = ascii "trie" then
          .done (opening ++ trieTrail, some (ascii "Trie visualization opened on the server."),
            cache)
        else do
          let (cacheEntry, cache) ← retriveValue fuel root buffer request.calls cache
          match cacheEntry with
          | some cacheEntry =>
              let response := cacheEntry.recordValue
              return (opening ++ hitTrail buffer response ++ sendTrail client response sends,
                some response, addCacheEntry request.addNow cache cacheEntry)
          | none =>
              let ipAddress := cstr request.forwarded
              if ipAddress = [] then
                let response := ascii "Record not found"
                return (opening ++ forwardTrail buffer ++
                    [.info .forwardFailed (ascii "Forwarding failed to return result.")] ++
                    sendTrail client response sends,
                  some response, cache)
              else
                let cacheEntry := dnsCreateNewEntry buffer ipAddress
                let response := cacheEntry.recordValue
                return (opening ++ forwardTrail buffer ++
                    [.quiet .addingForwarded, .info .addedForwarded
                      (ascii "Added forwarded query result to cache: " ++ ipAddress)] ++
                    sendTrail client response sends,
                  some response, addCacheEntry request.addNow cache cacheEntry)

/-- `PORT`. -/
def port : Nat := 8081

/-- The messages of `main`. -/
inductive MainLog
  | initialized
  | socketFailed
  | bindFailed
  | listenFailed
  | listening
  | acceptFailed
  | accepted (newSocket : Nat)
  | noTask
  | full (newSocket : Nat)
  | shuttingDown

def MainLog.call : MainLog → LogCall
  | initialized =>
      { level := ascii "INFO"
        message := ascii "DNS server initialized. Listening on port " ++ ascii (toString port) }
  | socketFailed => { level := ascii "ERROR", message := ascii "Socket creation failed" }
  | bindFailed => { level := ascii "ERROR", message := ascii "Bind failed" }
  | listenFailed => { level := ascii "ERROR", message := ascii "Listen failed" }
  | listening =>
      { level := ascii "INFO"
        message := ascii "Server is listening on port " ++ ascii (toString port) }
  | acceptFailed => { level := ascii "ERROR", message := ascii "Accept failed" }
  | accepted newSocket =>
      { level := ascii "INFO"
        message := ascii "Accepted connection from client socket: " ++ ascii (toString newSocket) }
  | noTask =>
      { level := ascii "ERROR", message := ascii "Failed to allocate memory for client task" }
  | full newSocket =>
      { level := ascii "ERROR"
        message := ascii "Thread pool queue is full. Dropping connection for client socket: " ++
          ascii (toString newSocket) }
  | shuttingDown => { level := ascii "INFO", message := ascii "Shutting down DNS server" }

end DnsServer
