/-
What the listening loop hears.

The loop ends with the first test that finds the flag cleared and not before, and until
then it has handed on each datagram that was a packet, in the order they came, and
nothing else.  Errors, interruptions, datagrams too short for a header and those that do
not parse are passed over.

Nothing sets the flag again.  So a module that was told to stop, or that has listened
once, hears nothing more, however often it is told to listen.
-/
import DnsServer.Code.Listen
import DnsServer.Lib.Calls
import DnsServer.Proofs.Truncated

namespace DnsServer

open Call

variable {ε : Type}

theorem listenTurn_mono (al : Alloc) (beyond : Memory) (datagram : Bytes) :
    Mono fun fuel => listenTurn fuel al beyond datagram := by
  by_cases hshort : datagram.length < headerSize
  · simp only [listenTurn_short hshort]
    exact Mono.const _
  · simp only [listenTurn_eq (Nat.le_of_not_lt hshort)]
    exact dnsRequestParse_mono _ _ _

theorem Reception.turn_mono (reception : Reception ε) :
    Mono fun fuel => reception.turn fuel := by
  unfold Reception.turn
  rcases reception.received with _ | ⟨sender, datagram⟩
  · exact Mono.const _
  · exact Mono.bind (listenTurn_mono _ _ _) fun _ => Mono.const _

theorem listenLoop_mono (receptions : List (Reception ε)) (calls : List (ε × DnsPacket)) :
    Mono fun fuel => listenLoop fuel calls receptions := by
  induction receptions generalizing calls with
  | nil => exact Mono.const _
  | cons reception receptions ih =>
      simp only [listenLoop]
      split
      · exact Mono.const _
      · refine Mono.bind reception.turn_mono fun call => ?_
        rcases call with _ | call
        · exact ih calls
        · exact ih (calls ++ [call])

/-- The turns come to these. -/
def Turns (receptions : List (Reception ε)) (heard : List (Option (ε × DnsPacket))) : Prop :=
  List.Forall₂ (fun reception call => Settles (fun fuel => reception.turn fuel) (done call))
    receptions heard

theorem listenLoop_again (fuel : Nat) (calls : List (ε × DnsPacket)) {reception : Reception ε}
    (hgo : reception.stopped = false) (receptions : List (Reception ε)) :
    listenLoop fuel calls (reception :: receptions)
      = reception.turn fuel >>= fun call => listenLoop fuel (calls ++ call.toList) receptions := by
  rw [listenLoop, hgo]
  simp only [Bool.false_eq_true, if_false]
  refine congrArg (reception.turn fuel >>= ·) ?_
  funext call
  rcases call with _ | call
  · rw [Option.toList_none, List.append_nil]
  · rfl

theorem settles_listenLoop_iff {receptions : List (Reception ε)}
    {calls calls' : List (ε × DnsPacket)} :
    Settles (fun fuel => listenLoop fuel calls receptions) (done calls') ↔
      ∃ before last after heard, receptions = before ++ last :: after ∧
        (∀ reception ∈ before, reception.stopped = false) ∧ last.stopped = true ∧
        Turns before heard ∧ calls' = calls ++ heard.filterMap id := by
  induction receptions generalizing calls with
  | nil =>
      constructor
      · intro h
        exact absurd (Settles.const_iff.mp h) (by simp)
      · intro h
        obtain ⟨before, last, after, heard, heq, -⟩ := h
        simp at heq
  | cons reception receptions ih =>
      rcases hstopped : reception.stopped with _ | _
      · simp only [listenLoop_again _ _ hstopped]
        rw [Settles.bind_iff reception.turn_mono fun call => listenLoop_mono receptions _]
        constructor
        · intro h
          obtain ⟨call, hturn, hrest⟩ := h
          obtain ⟨before, last, after, heard, rfl, hgo, hlast, hturns, rfl⟩ := ih.mp hrest
          refine ⟨reception :: before, last, after, call :: heard, rfl, ?_, hlast,
            List.Forall₂.cons hturn hturns, ?_⟩
          · intro r hr
            rcases List.mem_cons.mp hr with rfl | hr
            · exact hstopped
            · exact hgo r hr
          · rw [List.append_assoc]
            rcases call with _ | call <;> rfl
        · intro h
          obtain ⟨before, last, after, heard, heq, hgo, hlast, hturns, rfl⟩ := h
          rcases before with _ | ⟨first, before⟩
          · obtain ⟨rfl, rfl⟩ := List.cons.inj heq
            rw [hstopped] at hlast
            simp at hlast
          · obtain ⟨rfl, rfl⟩ := List.cons.inj heq
            obtain ⟨call, heard, hturn, hrest, rfl⟩ := List.forall₂_cons_left_iff.mp hturns
            refine ⟨call, hturn, ih.mpr ⟨before, last, after, heard, rfl,
              fun r hr => hgo r (List.mem_cons_of_mem _ hr), hlast, hrest, ?_⟩⟩
            rw [List.append_assoc]
            rcases call with _ | call <;> rfl
      · simp only [listenLoop, hstopped, if_true]
        rw [Settles.const_iff, done.injEq]
        constructor
        · rintro rfl
          exact ⟨[], reception, receptions, [], rfl, fun r hr => absurd hr List.not_mem_nil,
            hstopped, List.Forall₂.nil, by simp⟩
        · intro h
          obtain ⟨before, last, after, heard, heq, hgo, hlast, hturns, rfl⟩ := h
          rcases before with _ | ⟨first, before⟩
          · rw [List.forall₂_nil_left_iff.mp hturns]
            simp
          · obtain ⟨rfl, rfl⟩ := List.cons.inj heq
            have hfirst := hgo reception List.mem_cons_self
            rw [hstopped] at hfirst
            simp at hfirst

/-! ### Calls of the module -/

section Starting

variable {s : ListenState} (receptions : List (Reception ε)) {fuel : Nat}

theorem dnsStartListening_closed (hsocket : s.gSockfd = -1) :
    dnsStartListening fuel s receptions = done (s, [], -1) := if_pos hsocket

theorem dnsStartListening_cleared (hsocket : s.gSockfd ≠ -1) (hflag : s.gKeepRunning = false) :
    dnsStartListening fuel s receptions = done (s, [], 0) :=
  (if_neg hsocket).trans (if_pos hflag)

theorem dnsStartListening_open (hsocket : s.gSockfd ≠ -1) (hflag : s.gKeepRunning = true) :
    dnsStartListening fuel s receptions
      = listenLoop fuel [] receptions >>= fun calls =>
        done ({ s with gKeepRunning := false }, calls, 0) :=
  (if_neg hsocket).trans (if_neg (by rw [hflag]; decide))

end Starting

/--
**Listening ends with the first test that finds the flag cleared.**  Without a socket a call that
listens returns -1, and with the flag cleared 0, at once and with nothing heard.  Otherwise it
returns exactly when some test finds the flag cleared and every turn before comes to an end; then
it leaves the flag cleared, returns 0, and has handed on the packets of those turns, in order, and
nothing else, whatever comes after.
-/
theorem listening_ends_iff (s s' : ListenState) (receptions : List (Reception ε))
    (calls : List (ε × DnsPacket)) (r : Int) :
    Settles (fun fuel => dnsStartListening fuel s receptions) (done (s', calls, r)) ↔
      (s.gSockfd = -1 ∧ s' = s ∧ calls = [] ∧ r = -1) ∨
      (s.gSockfd ≠ -1 ∧ s.gKeepRunning = false ∧ s' = s ∧ calls = [] ∧ r = 0) ∨
      (s.gSockfd ≠ -1 ∧ s.gKeepRunning = true ∧ s' = { s with gKeepRunning := false } ∧ r = 0 ∧
        ∃ before last after heard, receptions = before ++ last :: after ∧
          (∀ reception ∈ before, reception.stopped = false) ∧ last.stopped = true ∧
          Turns before heard ∧ calls = heard.filterMap id) := by
  by_cases hsocket : s.gSockfd = -1
  · simp only [dnsStartListening_closed _ hsocket, Settles.const_iff, done.injEq, Prod.mk.injEq,
      hsocket, ne_eq, not_true_eq_false, true_and, false_and, or_false]
    exact ⟨fun h => ⟨h.1.symm, h.2.1.symm, h.2.2.symm⟩,
      fun h => ⟨h.1.symm, h.2.1.symm, h.2.2.symm⟩⟩
  rcases hflag : s.gKeepRunning with _ | _
  · simp only [dnsStartListening_cleared _ hsocket hflag, Settles.const_iff, done.injEq,
      Prod.mk.injEq, hsocket, ne_eq, not_false_eq_true, true_and, false_and, or_false, false_or,
      Bool.false_eq_true]
    exact ⟨fun h => ⟨h.1.symm, h.2.1.symm, h.2.2.symm⟩,
      fun h => ⟨h.1.symm, h.2.1.symm, h.2.2.symm⟩⟩
  · simp only [dnsStartListening_open _ hsocket hflag, hsocket, ne_eq, not_false_eq_true,
      Bool.true_eq_false, true_and, false_and, false_or]
    rw [Settles.bind_done_iff (listenLoop_mono receptions [])]
    constructor
    · intro h
      obtain ⟨calls', hsettles, heq⟩ := h
      rw [Prod.mk.injEq, Prod.mk.injEq] at heq
      obtain ⟨rfl, rfl, rfl⟩ := heq
      exact ⟨rfl, rfl, settles_listenLoop_iff.mp hsettles⟩
    · intro h
      obtain ⟨rfl, rfl, hends⟩ := h
      exact ⟨calls, settles_listenLoop_iff.mpr hends, rfl⟩

theorem ListenCall.run_mono (s : ListenState) (call : ListenCall ε) :
    Mono fun fuel => call.run fuel s := by
  rcases call with gSockfd | receptions | _
  · exact Mono.const _
  · refine Mono.bind ?_ fun _ => Mono.const _
    unfold dnsStartListening
    split
    · exact Mono.const _
    split
    · exact Mono.const _
    · exact Mono.bind (listenLoop_mono receptions []) fun _ => Mono.const _
  · exact Mono.const _

/-- The call is one to stop, or to listen on a socket. -/
def ListenCall.Stops (gSockfd : Int) : ListenCall ε → Prop
  | .socket _ => False
  | .listen _ => gSockfd ≠ -1
  | .stop => True

/-- `g_sockfd` after the call. -/
def ListenCall.socketAfter (gSockfd : Int) : ListenCall ε → Int
  | .socket gSockfd => gSockfd
  | .listen _ => gSockfd
  | .stop => gSockfd

/-- What a call that returns leaves: the flag is still set where it was and nothing stopped, and
something is heard only where it was set and the call is one to listen on a socket. -/
theorem ListenCall.run_done {fuel : Nat} {s s' : ListenState} {call : ListenCall ε}
    {out : List (ε × DnsPacket)} (h : call.run fuel s = done (s', out)) :
    s'.gSockfd = call.socketAfter s.gSockfd ∧
    (s'.gKeepRunning = true ↔ s.gKeepRunning = true ∧ ¬ call.Stops s.gSockfd) ∧
    (out ≠ [] → s.gKeepRunning = true ∧ call.Stops s.gSockfd) := by
  rcases call with gSockfd | receptions | _
  · simp only [ListenCall.run, done.injEq, Prod.mk.injEq] at h
    obtain ⟨rfl, rfl⟩ := h
    exact ⟨rfl, ⟨fun hflag => ⟨hflag, id⟩, And.left⟩, fun hne => absurd rfl hne⟩
  · obtain ⟨⟨s₁, calls, r⟩, hlisten, heq⟩ := bind_eq_done.mp h
    simp only [pure_eq, done.injEq, Prod.mk.injEq] at heq
    obtain ⟨rfl, rfl⟩ := heq
    by_cases hsocket : s.gSockfd = -1
    · rw [dnsStartListening_closed _ hsocket, done.injEq, Prod.mk.injEq, Prod.mk.injEq] at hlisten
      obtain ⟨rfl, rfl, -⟩ := hlisten
      exact ⟨rfl, ⟨fun hflag => ⟨hflag, fun hstops => hstops hsocket⟩, And.left⟩,
        fun hne => absurd rfl hne⟩
    rcases hflag : s.gKeepRunning with _ | _
    · rw [dnsStartListening_cleared _ hsocket hflag, done.injEq, Prod.mk.injEq,
        Prod.mk.injEq] at hlisten
      obtain ⟨rfl, rfl, -⟩ := hlisten
      rw [hflag]
      exact ⟨rfl, ⟨fun hset => absurd hset Bool.false_ne_true, And.left⟩,
        fun hne => absurd rfl hne⟩
    · rw [dnsStartListening_open _ hsocket hflag] at hlisten
      obtain ⟨calls', -, heq⟩ := bind_eq_done.mp hlisten
      simp only [done.injEq, Prod.mk.injEq] at heq
      obtain ⟨rfl, rfl, -⟩ := heq
      exact ⟨rfl, ⟨fun hset => absurd hset Bool.false_ne_true, fun h => absurd hsocket h.2⟩,
        fun _ => ⟨rfl, hsocket⟩⟩
  · simp only [ListenCall.run, done.injEq, Prod.mk.injEq] at h
    obtain ⟨rfl, rfl⟩ := h
    exact ⟨rfl, ⟨fun hset => absurd hset Bool.false_ne_true, fun h => absurd trivial h.2⟩,
      fun hne => absurd rfl hne⟩

/-- `g_sockfd` after the calls. -/
def socketAfter (calls : List (ListenCall ε)) : Int :=
  calls.foldl ListenCall.socketAfter ListenState.start.gSockfd

/-- After a call to stop, or one to listen on a socket, the calls hear nothing; and only a call to
listen on a socket hears anything. -/
structure HearsOnce (calls : List (ListenCall ε)) (outs : List (List (ε × DnsPacket))) :
    Prop where
  length : calls.length = outs.length
  after : ∀ front call back, calls = front ++ call :: back → call.Stops (socketAfter front) →
    ∀ out ∈ outs.drop (front.length + 1), out = []
  hears : ∀ front call back, calls = front ++ call :: back →
    ∀ out ∈ outs[front.length]?, out ≠ [] → call.Stops (socketAfter front)

/-- While the flag is set nothing has been stopped. -/
structure Heard (calls : List (ListenCall ε)) (outs : List (List (ε × DnsPacket)))
    (s : ListenState) : Prop where
  socket : s.gSockfd = socketAfter calls
  once : HearsOnce calls outs
  running : s.gKeepRunning = true ↔
    ∀ front call back, calls = front ++ call :: back → ¬ call.Stops (socketAfter front)

/-- A call of the longer run is the last one or one of the shorter run. -/
theorem split_concat {α : Type} {front back : List α} {calls : List α} {call call' : α}
    (h : calls ++ [call'] = front ++ call :: back) :
    (front = calls ∧ call = call' ∧ back = []) ∨
      ∃ back', back = back' ++ [call'] ∧ calls = front ++ call :: back' := by
  rcases List.eq_nil_or_concat' back with rfl | ⟨back', last, rfl⟩
  · obtain ⟨hfront, hcall⟩ := List.append_inj' h rfl
    exact Or.inl ⟨hfront.symm, (List.singleton_inj.mp hcall).symm, rfl⟩
  · have hsame : calls ++ [call'] = (front ++ call :: back') ++ [last] := by
      rw [h, List.append_assoc, List.cons_append]
    obtain ⟨hcalls, hlast⟩ := List.append_inj' hsame rfl
    exact Or.inr ⟨back', by rw [List.singleton_inj.mp hlast], hcalls⟩

theorem Heard.step {calls : List (ListenCall ε)} {outs : List (List (ε × DnsPacket))}
    {s s' : ListenState} {call : ListenCall ε} {out : List (ε × DnsPacket)} (h : Heard calls outs s)
    (hrun : Settles (fun fuel => call.run fuel s) (done (s', out))) :
    Heard (calls ++ [call]) (outs ++ [out]) s' := by
  obtain ⟨enough, henough⟩ := hrun
  obtain ⟨hsocket, hflag, hhears⟩ := ListenCall.run_done (henough enough (Nat.le_refl _))
  rw [h.socket] at hflag hhears
  refine ⟨?_, ⟨?_, ?_, ?_⟩, ?_⟩
  · unfold socketAfter
    rw [hsocket, h.socket, List.foldl_append]
    rfl
  · rw [List.length_append, List.length_append, h.once.length]
    rfl
  · -- the new call hears nothing where one of those before stopped
    intro front call' back heq hstops out' hout'
    rcases split_concat heq with ⟨rfl, rfl, rfl⟩ | ⟨back', rfl, hcalls⟩
    · rw [List.drop_of_length_le (by simp [h.once.length])] at hout'
      exact absurd hout' List.not_mem_nil
    · have hroom : front.length + 1 ≤ outs.length := by
        rw [← h.once.length, hcalls, List.length_append, List.length_cons]
        omega
      rw [List.drop_append_of_le_length hroom] at hout'
      rcases List.mem_append.mp hout' with hold | hnew
      · exact h.once.after front call' back' hcalls hstops out' hold
      · rw [List.mem_singleton.mp hnew]
        by_contra hne
        exact h.running.mp (hhears hne).1 front call' back' hcalls hstops
  · intro front call' back heq out' hout' hne
    rcases split_concat heq with ⟨rfl, rfl, rfl⟩ | ⟨back', rfl, hcalls⟩
    · rw [h.once.length, List.getElem?_concat_length, Option.mem_some_iff] at hout'
      exact (hhears (hout' ▸ hne)).2
    · have hroom : front.length < outs.length := by
        rw [← h.once.length, hcalls, List.length_append, List.length_cons]
        omega
      rw [List.getElem?_append_left hroom] at hout'
      exact h.once.hears front call' back' hcalls out' hout' hne
  · rw [hflag, h.running]
    constructor
    · intro hnone front call' back heq
      rcases split_concat heq with ⟨rfl, rfl, rfl⟩ | ⟨back', rfl, hcalls⟩
      · exact hnone.2
      · exact hnone.1 front call' back' hcalls
    · intro hnone
      refine ⟨fun front call' back hcalls => hnone front call' (back ++ [call]) ?_,
        hnone calls call [] rfl⟩
      rw [hcalls, List.append_assoc, List.cons_append]

/--
**The module listens once.**  In any run of calls from the beginning, whatever sockets are opened
and closed in between, once it was told to stop, or has listened on a socket, whether it heard
something there or not, no later call hears anything; and the flag is cleared after just these
runs.
-/
theorem listens_once (calls : List (ListenCall ε)) (s : ListenState)
    (outs : List (List (ε × DnsPacket)))
    (h : Settles (fun fuel => execAll (fun s call => call.run fuel s) ListenState.start calls)
      (done (s, outs))) :
    HearsOnce calls outs ∧
      (s.gKeepRunning = false ↔ ∃ front call back, calls = front ++ call :: back ∧
        call.Stops (socketAfter front)) := by
  have hheard : Heard calls outs s := by
    refine @execAll_inv _ _ _ (fun fuel s (call : ListenCall ε) => call.run fuel s) Heard
      ListenCall.run_mono (fun _ _ _ _ _ _ hheard hrun => hheard.step hrun) _ _ _ _
      ⟨rfl, ⟨rfl, ?_, ?_⟩, iff_of_true rfl ?_⟩ h
    · exact fun front call back heq => absurd heq (by simp)
    · exact fun front call back heq => absurd heq (by simp)
    · exact fun front call back heq => absurd heq (by simp)
  refine ⟨hheard.once, ?_⟩
  rw [← Bool.not_eq_true, hheard.running]
  simp only [not_forall, not_not, exists_prop]

/-- A question for `a`, from sender 5. -/
def exampleReception (stopped : Bool) : Reception Nat :=
  { stopped
    received := some (5, [0, 7, 1, 0, 0, 1, 0, 0, 0, 0, 0, 0, 1, 97, 0, 0, 1, 0, 1])
    al := allocOk, beyond := fun _ => 0 }

/-- Listening twice, until the second test each time. -/
def listenTwice : List (ListenCall Nat) :=
  [.socket 3, .listen [exampleReception false, exampleReception true],
    .listen [exampleReception false, exampleReception true]]

theorem listens_once_twice :
    ∃ first, first ≠ [] ∧ HearsOnce listenTwice [[], first, []] :=
  ⟨_, List.cons_ne_nil _ _, (listens_once listenTwice { gSockfd := 3, gKeepRunning := false } _
    ((execAll_mono ListenCall.run_mono _ _).settles_done 9 rfl)).1⟩

end DnsServer
