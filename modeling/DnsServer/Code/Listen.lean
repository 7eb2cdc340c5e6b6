/-
Listening, as `dns_server.c` does it.

`dns_start_listening` goes round its loop as long as `g_keep_running` is set.  The
signal handler and `dns_stop_listening` clear it, whenever they come, and nothing ever
sets it again.  A `Reception` is what one turn meets: whether the flag has been cleared
since the test before, what `recvfrom` brings, and what lies beyond the buffer.  While
there are no more receptions the call is still listening.
-/
import DnsServer.Code.Server

namespace DnsServer

structure Reception (ε : Type) where
  /-- The flag was cleared before the loop's test. -/
  stopped : Bool
  /-- The datagram and its sender, or `none` where `recvfrom` fails, interrupted or not. -/
  received : Option (ε × Bytes)
  al : Alloc
  /-- The memory beyond the buffer. -/
  beyond : Memory

variable {ε : Type}

/-- What the turn hands to the callback, if anything. -/
def Reception.turn (fuel : Nat) (reception : Reception ε) : Call (Option (ε × DnsPacket)) :=
  match reception.received with
  | none => .done none
  | some (sender, datagram) => do
      return (← listenTurn fuel reception.al reception.beyond datagram).map fun pkt => (sender, pkt)

/-- The loop, from the calls made to the callback before: those made when it ends. -/
def listenLoop (fuel : Nat) (calls : List (ε × DnsPacket)) :
    List (Reception ε) → Call (List (ε × DnsPacket))
  | [] => .running
  | reception :: receptions =>
      if reception.stopped then .done calls
      else do
        match ← reception.turn fuel with
        | none => listenLoop fuel calls receptions
        | some call => listenLoop fuel (calls ++ [call]) receptions

/-! ### The module -/

/-- `g_sockfd` and `g_keep_running`. -/
structure ListenState where
  gSockfd : Int
  gKeepRunning : Bool
  deriving DecidableEq, Repr

/-- The module before any call. -/
def ListenState.start : ListenState := { gSockfd := -1, gKeepRunning := true }

/-- The calls made to the callback, and the value returned. -/
def dnsStartListening (fuel : Nat) (s : ListenState) (receptions : List (Reception ε)) :
    Call (ListenState × List (ε × DnsPacket) × Int) :=
  if s.gSockfd = -1 then .done (s, [], -1)
  else if s.gKeepRunning = false then .done (s, [], 0)
  else do
    let calls ← listenLoop fuel [] receptions
    return ({ s with gKeepRunning := false }, calls, 0)

/-- `dns_stop_listening`, and `handle_signal`. -/
def dnsStopListening (s : ListenState) : ListenState := { s with gKeepRunning := false }

/-- A call of the module; `socket` is `g_sockfd` after it, for the calls that change it. -/
inductive ListenCall (ε : Type)
  | socket (gSockfd : Int)
  | listen (receptions : List (Reception ε))
  | stop

/-- The state after the call, and the calls made to the callback. -/
def ListenCall.run (fuel : Nat) (s : ListenState) :
    ListenCall ε → Call (ListenState × List (ε × DnsPacket))
  | socket gSockfd => .done ({ s with gSockfd }, [])
  | listen receptions => do
      let (s, calls, _) ← dnsStartListening fuel s receptions
      return (s, calls)
  | stop => .done (dnsStopListening s, [])

end DnsServer
