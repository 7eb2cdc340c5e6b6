/-
Queries made at the same time, as the pool's workers run `dns_query_domain`.

Each call makes a socket of its own and leaves its descriptor in `g_sockfd`, which
`dns_send_packet` and `dns_wait_response` read again each time they need it.  A step
is the making of the socket, the assignment, the send, one `select`, one `recvfrom`,
or the close with the reset that follows it; the steps of different calls come in any
order, and datagrams arrive at open sockets in between.

A call is named by whatever the run is indexed with, and makes one socket, so a
socket is named by the call that made it.  The kernel gives out any descriptor that
is not open.
-/
import DnsServer.Code.Forward
import Mathlib.Logic.Function.Basic

namespace DnsServer

/-- Where a call of `dns_query_domain` is. -/
inductive QueryPhase
  | notCalled
  /-- The socket is there, bound and named. -/
  | created (querySocket : Nat)
  /-- `g_sockfd` has been assigned. -/
  | assigned (querySocket : Nat)
  /-- At the test of the loop in `dns_wait_response`. -/
  | waiting (querySocket : Nat) (queryId : UInt16) (startTime : Int)
  /-- `select` found something to receive. -/
  | selected (querySocket : Nat) (queryId : UInt16) (startTime : Int)
  /-- About to close its socket. -/
  | leaving (querySocket : Nat)
  | returned
  deriving DecidableEq, Repr

structure SocketState (κ : Type) where
  gSockfd : Int
  /-- The call whose socket an open descriptor stands for. -/
  socketOf : Nat → Option κ
  /-- The datagrams waiting at the socket of a call. -/
  queue : κ → List Bytes
  calls : κ → QueryPhase

/-- What a step did; `received` is the datagram taken and the response found in it. -/
inductive SocketEvent (κ : Type)
  | create (k : κ)
  | assign (k : κ)
  | noPacket (k : κ)
  | send (k : κ)
  | select (k : κ)
  | receive (k : κ) (received : Option (Bytes × Option DnsPacket))
  | expire (k : κ)
  | close (k : κ)
  | arrive (k : κ) (datagram : Bytes)

variable {κ : Type} [DecidableEq κ]

/-- The socket `g_sockfd` stands for: none when it is -1 or closed. -/
def SocketState.gSocket (s : SocketState κ) : Option κ :=
  if s.gSockfd < 0 then none else s.socketOf s.gSockfd.toNat

def SocketState.goTo (s : SocketState κ) (k : κ) (phase : QueryPhase) : SocketState κ :=
  { s with calls := Function.update s.calls k phase }

/-- One step of a call, or the arrival of a datagram; `domainName` is what each call asks for. -/
inductive SocketStep (domainName : κ → Bytes) :
    SocketState κ → SocketEvent κ → SocketState κ → Prop
  | create {s : SocketState κ} {k : κ} {fd : Nat} (hat : s.calls k = .notCalled)
      (hfree : s.socketOf fd = none) :
      SocketStep domainName s (.create k)
        { s.goTo k (.created fd) with socketOf := Function.update s.socketOf fd (some k) }
  /-- `socket`, `bind` or `getsockname` failed; nothing is left open. -/
  | createFailed {s : SocketState κ} {k : κ} (hat : s.calls k = .notCalled) :
      SocketStep domainName s (.create k) (s.goTo k .returned)
  | assign {s : SocketState κ} {k : κ} {fd : Nat} (hat : s.calls k = .created fd) :
      SocketStep domainName s (.assign k) { s.goTo k (.assigned fd) with gSockfd := fd }
  | noPacket {s : SocketState κ} {k : κ} {fd : Nat} {al : Alloc} {rand : Nat}
      (hat : s.calls k = .assigned fd)
      (hpkt : dnsCreateQueryPacket al rand (domainName k) = none) :
      SocketStep domainName s (.noPacket k) (s.goTo k (.leaving fd))
  | send {s : SocketState κ} {k : κ} {fd : Nat} {al : Alloc} {rand : Nat} {queryPkt : DnsPacket}
      {server : Nat} {sent : Bytes × Nat} {startTime : Int} (hat : s.calls k = .assigned fd)
      (hpkt : dnsCreateQueryPacket al rand (domainName k) = some queryPkt)
      (hsend : dnsSendPacket s.gSockfd (some server) queryPkt = some sent)
      (hopen : s.gSocket ≠ none) :
      SocketStep domainName s (.send k)
        (s.goTo k (.waiting fd queryPkt.header.id startTime))
  /-- `g_sockfd` was -1, or `sendto` failed. -/
  | sendFailed {s : SocketState κ} {k : κ} {fd : Nat} {al : Alloc} {rand : Nat}
      {queryPkt : DnsPacket} (hat : s.calls k = .assigned fd)
      (hpkt : dnsCreateQueryPacket al rand (domainName k) = some queryPkt) :
      SocketStep domainName s (.send k) (s.goTo k (.leaving fd))
  | select {s : SocketState κ} {k j : κ} {fd : Nat} {queryId : UInt16} {startTime now : Int}
      (hat : s.calls k = .waiting fd queryId startTime) (htime : now - startTime < 5)
      (hsocket : s.gSocket = some j) (hready : s.queue j ≠ []) :
      SocketStep domainName s (.select k) (s.goTo k (.selected fd queryId startTime))
  /-- `select` was interrupted, or its second went by. -/
  | selectAgain {s : SocketState κ} {k : κ} {fd : Nat} {queryId : UInt16} {startTime now : Int}
      (hat : s.calls k = .waiting fd queryId startTime) (htime : now - startTime < 5) :
      SocketStep domainName s (.select k) s
  | selectFailed {s : SocketState κ} {k : κ} {fd : Nat} {queryId : UInt16} {startTime now : Int}
      (hat : s.calls k = .waiting fd queryId startTime) (htime : now - startTime < 5) :
      SocketStep domainName s (.select k) (s.goTo k (.leaving fd))
  /-- The datagram holds the response waited for, or is thrown away. -/
  | receive {s : SocketState κ} {k j : κ} {fd : Nat} {queryId : UInt16} {startTime : Int}
      {datagram : Bytes} {rest : List Bytes} {al : Alloc} {beyond : Memory}
      {responsePkt : DnsPacket} {response : Option DnsPacket}
      (hat : s.calls k = .selected fd queryId startTime) (hsocket : s.gSocket = some j)
      (hqueue : s.queue j = datagram :: rest)
      (hturn : Call.Settles (fun fuel => waitTurn fuel al beyond queryId responsePkt datagram)
        (.done response)) :
      SocketStep domainName s (.receive k (some (datagram, response)))
        { s.goTo k (if response.isSome then .leaving fd else .waiting fd queryId startTime) with
          queue := Function.update s.queue j rest }
  | receiveAgain {s : SocketState κ} {k : κ} {fd : Nat} {queryId : UInt16} {startTime : Int}
      (hat : s.calls k = .selected fd queryId startTime) :
      SocketStep domainName s (.receive k none) (s.goTo k (.waiting fd queryId startTime))
  | receiveFailed {s : SocketState κ} {k : κ} {fd : Nat} {queryId : UInt16} {startTime : Int}
      (hat : s.calls k = .selected fd queryId startTime) :
      SocketStep domainName s (.receive k none) (s.goTo k (.leaving fd))
  | expire {s : SocketState κ} {k : κ} {fd : Nat} {queryId : UInt16} {startTime now : Int}
      (hat : s.calls k = .waiting fd queryId startTime) (htime : ¬ now - startTime < 5) :
      SocketStep domainName s (.expire k) (s.goTo k (.leaving fd))
  | close {s : SocketState κ} {k : κ} {fd : Nat} (hat : s.calls k = .leaving fd) :
      SocketStep domainName s (.close k)
        { s.goTo k .returned with
          gSockfd := -1, socketOf := Function.update s.socketOf fd none }
  | arrive {s : SocketState κ} {j : κ} {fd : Nat} {datagram : Bytes}
      (hopen : s.socketOf fd = some j) :
      SocketStep domainName s (.arrive j datagram)
        { s with queue := Function.update s.queue j (s.queue j ++ [datagram]) }

/-- The server has made no query yet. -/
structure SocketStart (s : SocketState κ) : Prop where
  gSockfd : s.gSockfd = -1
  socketOf : ∀ fd, s.socketOf fd = none
  queue : ∀ k, s.queue k = []
  calls : ∀ k, s.calls k = .notCalled

end DnsServer
