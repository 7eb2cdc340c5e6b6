/-
Asking another server, as `dns_server.c` does it.

`dns_wait_response` goes round its loop until a response is the one waited for, a
call fails, or the time is over.  A `Round` is what one turn meets: the clock at the
loop's test, what `select` and `recvfrom` bring, and what lies on the stack.  While
there are no more rounds the call is still waiting.

`dns_query_domain` makes its own socket, so the rounds are what arrives there.  What
the handler of the response stores goes to the client and into the cache.
-/
import DnsServer.Code.Server

namespace DnsServer

/-- What one turn of the wait brings; the datagrams carry their senders. -/
inductive Arrival (ε : Type)
  /-- A signal interrupted `select` or `recvfrom`. -/
  | interrupted
  /-- `select` timed out after its second. -/
  | nothing
  /-- `select` or `recvfrom` failed. -/
  | failed
  | datagram (sender : ε) (bytes : Bytes)

structure Round (ε : Type) where
  /-- The clock at the loop's test. -/
  now : Int
  arrival : Arrival ε
  al : Alloc
  /-- The memory beyond the buffer. -/
  beyond : Memory
  /-- What the rounds before left in `response_pkt`. -/
  responsePkt : DnsPacket

variable {ε : Type}

/-- The response handed to the callback with its sender, or `none` for -1. -/
def dnsWaitResponse (fuel : Nat) (queryId : UInt16) (timeoutSec startTime : Int) :
    List (Round ε) → Call (Option (ε × DnsPacket))
  | [] => .running
  | round :: rounds =>
      if round.now - startTime < timeoutSec then
        match round.arrival with
        | .interrupted => dnsWaitResponse fuel queryId timeoutSec startTime rounds
        | .nothing => dnsWaitResponse fuel queryId timeoutSec startTime rounds
        | .failed => .done none
        | .datagram sender bytes => do
            match ← waitTurn fuel round.al round.beyond queryId round.responsePkt bytes with
            | some pkt => return some (sender, pkt)
            | none => dnsWaitResponse fuel queryId timeoutSec startTime rounds
      else .done none

/-- `dns_wait_response` with the calls it makes to its callback, in order: the calls made when it
returns, those before it included, and the value it returns. -/
def dnsWaitResponseCalls (fuel : Nat) (queryId : UInt16) (timeoutSec startTime : Int)
    (calls : List (ε × DnsPacket)) : List (Round ε) → Call (List (ε × DnsPacket) × Int)
  | [] => .running
  | round :: rounds =>
      if round.now - startTime < timeoutSec then
        match round.arrival with
        | .interrupted => dnsWaitResponseCalls fuel queryId timeoutSec startTime calls rounds
        | .nothing => dnsWaitResponseCalls fuel queryId timeoutSec startTime calls rounds
        | .failed => .done (calls, -1)
        | .datagram sender bytes => do
            match ← waitTurn fuel round.al round.beyond queryId round.responsePkt bytes with
            | some pkt => return (calls ++ [(sender, pkt)], 0)
            | none => dnsWaitResponseCalls fuel queryId timeoutSec startTime calls rounds
      else .done (calls, -1)

/-- `dns_forward_query`: the datagram sent and where to, if one is, and the response handed to
the callback with its sender, or `none` for -1. -/
def dnsForwardQuery (fuel : Nat) (gSockfd : Int) (queryPkt : DnsPacket) (forwardAddr : Option ε)
    (sends : Bool) (startTime : Int) (rounds : List (Round ε)) :
    Option (Bytes × ε) × Call (Option (ε × DnsPacket)) :=
  if gSockfd = -1 then (none, .done none)
  else
    match dnsSendPacket gSockfd forwardAddr queryPkt with
    | none => (none, .done none)
    | some sent =>
        if sends then
          (some sent, dnsWaitResponse fuel queryPkt.header.id 5 startTime rounds)
        else (none, .done none)

/-- What a query takes from the machine. -/
structure QueryEnv (ε : Type) where
  /-- `query_socket`, or `none` where it cannot be made, bound or named. -/
  querySocket : Option Nat
  al : Alloc
  rand : Nat
  /-- What `inet_pton` makes of the server's address. -/
  serverAddr : Option ε
  /-- `sendto` succeeds. -/
  sends : Bool
  startTime : Int
  rounds : List (Round ε)

/-- `dns_query_domain` with nobody else using `g_sockfd`: the response handed to the callback
with its sender, or `none` for -1. -/
def dnsQueryDomain (fuel : Nat) (domainName : Bytes) (env : QueryEnv ε) :
    Call (Option (ε × DnsPacket)) :=
  match env.querySocket with
  | none => .done none
  | some gSockfd =>
      match dnsCreateQueryPacket env.al env.rand domainName with
      | none => .done none
      | some queryPkt =>
          match dnsSendPacket gSockfd env.serverAddr queryPkt with
          | none => .done none
          | some _ =>
              if env.sends then
                dnsWaitResponse fuel queryPkt.header.id 5 env.startTime env.rounds
              else .done none

/-! ### Callbacks -/

/-- `inet_ntop` of an IPv4 address in network order. -/
def inetNtop (addr : Bytes) : Bytes :=
  [dot].intercalate (addr.map fun b => ascii (toString b.toNat))

/-- What `handle_dns_response` leaves in the storage it is given.  `rdata` has one byte more
than `rdlength`, a NUL. -/
def handleDnsResponse (response : DnsPacket) (ipStorage : Bytes) : Call Bytes :=
  if 0 < response.header.ancount ∧ response.answer.type = dnsTypeA then
    let rdata := response.answer.rdata ++ [0]
    if rdata.length < 4 then .undefined else .done (inetNtop (rdata.take 4))
  else .done ipStorage

/-- What `handle_dns_response` does to memory: the positions of `rdata` it reads, and the string it
stores, if it stores one. -/
structure ResponseAccess where
  reads : List Nat
  stores : Option Bytes

/-- `rdata` is what lies at and after `answer.rdata`. -/
def handleDnsResponseAccess (response : DnsPacket) (rdata : Memory) : ResponseAccess :=
  if 0 < response.header.ancount ∧ response.answer.type = dnsTypeA then
    { reads := List.range 4, stores := some (inetNtop (slice rdata 0 4)) }
  else { reads := [], stores := none }

/-- `ip_address` of `handleClient` after `dns_query_domain`. -/
def forwardedAddress (fuel : Nat) (domainName : Bytes) (env : QueryEnv ε) : Call Bytes := do
  match ← dnsQueryDomain fuel domainName env with
  | none => return []
  | some (_, response) => handleDnsResponse response []

/-- What `example_dns_forward_callback` sends to the client saved for it, if one was. -/
def exampleDnsForwardCallback (gSockfd : Int) (packet : DnsPacket) (userData : Option ε) :
    Option (Bytes × ε) :=
  userData.bind fun originalClient =>
    (dnsSendAnswer gSockfd packet).map fun answer => (answer, originalClient)

end DnsServer
