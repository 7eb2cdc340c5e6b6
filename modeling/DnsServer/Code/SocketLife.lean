/-
Who opens and closes the module's sockets.

`dns_init_socket` makes the persistent socket and leaves its descriptor in `g_sockfd`,
`dns_cleanup_socket` closes it, and `dns_query_domain` makes a socket of its own, which
it puts into `g_sockfd` for as long as it lasts.  The state is `g_sockfd` beside the
descriptors the module has opened and not closed; a `close` of anything else is
remembered, for it closes what was closed before or was never the module's.

What the system calls answer is an input.  The kernel gives out any descriptor that the
module does not have open.
-/
import DnsServer.Code.Forward
import Mathlib.Data.Finset.Basic

namespace DnsServer

structure Descriptors where
  gSockfd : Int
  /-- Opened by the module and not closed since. -/
  opened : Finset Int
  /-- Given to `close` while it was not open. -/
  missed : List Int
  deriving DecidableEq

namespace Descriptors

/-- A `socket` that succeeds. -/
def socket (s : Descriptors) (fd : Nat) : Descriptors :=
  { s with opened := insert (fd : Int) s.opened }

def close (s : Descriptors) (fd : Int) : Descriptors :=
  if fd ∈ s.opened then { s with opened := s.opened.erase fd }
  else { s with missed := fd :: s.missed }

/-- `g_sockfd = …`. -/
def assign (s : Descriptors) (fd : Int) : Descriptors := { s with gSockfd := fd }

end Descriptors

/-- What `dns_init_socket` takes from the machine: the descriptor made, if any, and whether
the other calls succeed. -/
structure InitEnv where
  socket : Option Nat
  setsockopt : Bool
  bind : Bool
  deriving DecidableEq, Repr

def dnsInitSocket (env : InitEnv) (s : Descriptors) : Descriptors × Int :=
  if s.gSockfd ≠ -1 then (s, 0)
  else
    match env.socket with
    | none => (s.assign (-1), -1)
    | some fd =>
        let s := (s.socket fd).assign fd
        if env.setsockopt = false then ((s.close s.gSockfd).assign (-1), -1)
        else if env.bind = false then ((s.close s.gSockfd).assign (-1), -1)
        else (s, 0)

def dnsCleanupSocket (s : Descriptors) : Descriptors :=
  if s.gSockfd ≠ -1 then (s.close s.gSockfd).assign (-1) else s

variable {ε : Type}

/-- What `dns_query_domain` takes from the machine, its three calls that make the socket
apart. -/
structure QueryCallEnv (ε : Type) where
  socket : Option Nat
  bind : Bool
  getsockname : Bool
  al : Alloc
  rand : Nat
  serverAddr : Option ε
  sends : Bool
  startTime : Int
  rounds : List (Round ε)

/-- `dns_query_domain` with its sockets: the response handed to the callback with its sender,
or `none` for -1. -/
def dnsQueryDomainSockets (fuel : Nat) (domainName : Bytes) (env : QueryCallEnv ε)
    (s : Descriptors) : Call (Descriptors × Option (ε × DnsPacket)) :=
  match env.socket with
  | none => .done (s, none)
  | some querySocket =>
      let s := s.socket querySocket
      if env.bind = false then .done (s.close querySocket, none)
      else if env.getsockname = false then .done (s.close querySocket, none)
      else
        let s := s.assign querySocket
        match dnsCreateQueryPacket env.al env.rand domainName with
        | none => .done ((s.close querySocket).assign (-1), none)
        | some queryPkt =>
            match dnsSendPacket s.gSockfd env.serverAddr queryPkt with
            | none => .done ((s.close querySocket).assign (-1), none)
            | some _ =>
                if env.sends then do
                  let result ← dnsWaitResponse fuel queryPkt.header.id 5 env.startTime env.rounds
                  return ((s.close querySocket).assign (-1), result)
                else .done ((s.close querySocket).assign (-1), none)

/-! ### Sequences of calls -/

/-- A call of the module, with what the machine answers it. -/
inductive ModuleCall (ε : Type)
  | init (env : InitEnv)
  | query (domainName : Bytes) (env : QueryCallEnv ε)
  | cleanup

/-- A call that returns. -/
inductive ModuleStep : Descriptors → ModuleCall ε → Descriptors → Prop
  | init {s : Descriptors} {env : InitEnv}
      (hfresh : ∀ fd, env.socket = some fd → (fd : Int) ∉ s.opened) :
      ModuleStep s (.init env) (dnsInitSocket env s).1
  | query {s s' : Descriptors} {domainName : Bytes} {env : QueryCallEnv ε}
      {result : Option (ε × DnsPacket)}
      (hfresh : ∀ fd, env.socket = some fd → (fd : Int) ∉ s.opened)
      (hreturns : Call.Settles (fun fuel => dnsQueryDomainSockets fuel domainName env s)
        (.done (s', result))) :
      ModuleStep s (.query domainName env) s'
  | cleanup {s : Descriptors} : ModuleStep s .cleanup (dnsCleanupSocket s)

/-- The module before any call. -/
def ModuleStart (s : Descriptors) : Prop := s = { gSockfd := -1, opened := ∅, missed := [] }

end DnsServer
