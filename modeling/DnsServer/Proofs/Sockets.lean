/-
Whose socket a query uses.

While a call still has to send or receive, `g_sockfd` is what it reads, and what is
there is its own socket only as long as nobody has assigned or reset it since.  So a
run in which that never happens, where no call assigns or closes while another still
reads, keeps the calls apart; and the first step that breaks this leaves some call
with a socket that is not its own, or none, for whatever it does next.
-/
import DnsServer.Code.Sockets
import DnsServer.Lib.Runs
import DnsServer.Proofs.Forward

namespace DnsServer

open Call Runs

variable {κ : Type} {s s' : SocketState κ} {event : SocketEvent κ}

/-! ### The property and the condition -/

/-- The call still has to read `g_sockfd`, and this is the descriptor it means. -/
def QueryPhase.means : QueryPhase → Option Nat
  | .assigned fd => some fd
  | .waiting fd _ _ => some fd
  | .selected fd _ _ => some fd
  | _ => none

/-- The descriptor the call made and has not closed yet. -/
def QueryPhase.holds : QueryPhase → Option Nat
  | .created fd => some fd
  | .leaving fd => some fd
  | phase => phase.means

/-- The id the call waits for. -/
def QueryPhase.waitsFor : QueryPhase → Option UInt16
  | .waiting _ queryId _ => some queryId
  | .selected _ queryId _ => some queryId
  | _ => none

/-- The call that used `g_sockfd` in a step. -/
def SocketEvent.user : SocketEvent κ → Option κ
  | .send k => some k
  | .select k => some k
  | .receive k _ => some k
  | _ => none

/-- A response that a call waits for is taken from its socket by another, and thrown away. -/
def StealsFrom (s : SocketState κ) (event : SocketEvent κ) (j : κ) : Prop :=
  ∃ k datagram queryId, k ≠ j ∧ event = .receive k (some (datagram, none)) ∧
    s.gSocket = some j ∧ (s.calls j).waitsFor = some queryId ∧
    ∃ al beyond responsePkt pkt,
      Settles (fun fuel => waitTurn fuel al beyond queryId responsePkt datagram)
        (done (some pkt))

/-- `g_sockfd` is assigned or reset only when no other call still has to read it. -/
def Alone (s : SocketState κ) : SocketEvent κ → Prop
  | .assign k => ∀ j, j ≠ k → (s.calls j).means = none
  | .close k => ∀ j, j ≠ k → (s.calls j).means = none
  | _ => True

/-! ### What a step does to the calls -/

/-- The descriptor a call holds is open for it, and the one it still means is in `g_sockfd`. -/
structure OwnSocket (gSockfd : Int) (socketOf : Nat → Option κ) (k : κ) (phase : QueryPhase) :
    Prop where
  holds : ∀ fd, phase.holds = some fd → socketOf fd = some k
  means : ∀ fd, phase.means = some fd → gSockfd = fd

/-- Every call has its own socket. -/
def Apart (s : SocketState κ) : Prop :=
  ∀ k, OwnSocket s.gSockfd s.socketOf k (s.calls k)

theorem QueryPhase.holds_of_means {phase : QueryPhase} {fd : Nat} (h : phase.means = some fd) :
    phase.holds = some fd := by
  rcases phase with _ | _ | _ | _ | _ | _ | _ <;> first | exact h | (simp [means] at h)

theorem OwnSocket.idle (gSockfd : Int) (socketOf : Nat → Option κ) (k : κ) {phase : QueryPhase}
    (h : phase.holds = none) : OwnSocket gSockfd socketOf k phase := by
  refine ⟨?_, ?_⟩
  · intro fd hfd
    rw [h] at hfd
    simp at hfd
  · intro fd hfd
    rw [QueryPhase.holds_of_means hfd] at h
    simp at h

/-- A call goes on with its descriptor, and means it no more than it did. -/
theorem OwnSocket.goOn {gSockfd : Int} {socketOf : Nat → Option κ} {k : κ}
    {phase phase' : QueryPhase} (h : OwnSocket gSockfd socketOf k phase)
    (hholds : phase'.holds = phase.holds)
    (hmeans : phase'.means = phase.means ∨ phase'.means = none) :
    OwnSocket gSockfd socketOf k phase' := by
  refine ⟨?_, ?_⟩
  · intro fd hfd
    rw [hholds] at hfd
    exact h.holds fd hfd
  · intro fd hfd
    rcases hmeans with hsame | hnone
    · rw [hsame] at hfd
      exact h.means fd hfd
    · rw [hnone] at hfd
      simp at hfd

/-- A call that means nothing does not see `g_sockfd` change. -/
theorem OwnSocket.setGlobal {gSockfd gSockfd' : Int} {socketOf : Nat → Option κ} {k : κ}
    {phase : QueryPhase} (h : OwnSocket gSockfd socketOf k phase) (hnone : phase.means = none) :
    OwnSocket gSockfd' socketOf k phase := by
  refine ⟨h.holds, ?_⟩
  intro fd hfd
  rw [hnone] at hfd
  simp at hfd

theorem gSocket_of_assigned {fd : Nat} (hfd : s.gSockfd = fd) : s.gSocket = s.socketOf fd := by
  unfold SocketState.gSocket
  rw [if_neg (by omega), hfd, Int.toNat_natCast]

theorem Apart.gSocket (h : Apart s) {k : κ} {fd : Nat} (hmeans : (s.calls k).means = some fd) :
    s.gSocket = some k := by
  rw [gSocket_of_assigned ((h k).means fd hmeans)]
  exact (h k).holds fd (QueryPhase.holds_of_means hmeans)

theorem Apart.start (h : SocketStart s) : Apart s := by
  intro k
  rw [h.calls k]
  exact OwnSocket.idle _ _ _ rfl

variable [DecidableEq κ] {domainName : κ → Bytes}

/-- One call changes its phase, and `g_sockfd` and the descriptors are what they were. -/
theorem Apart.goTo (h : Apart s) {k : κ} {phase : QueryPhase}
    (hholds : phase.holds = (s.calls k).holds)
    (hmeans : phase.means = (s.calls k).means ∨ phase.means = none) : Apart (s.goTo k phase) :=
  (Function.forall_update_iff s.calls fun j phase =>
    OwnSocket s.gSockfd s.socketOf j phase).mpr ⟨(h k).goOn hholds hmeans, fun j _ => h j⟩

theorem Apart.create (h : Apart s) {k : κ} {fd : Nat} (hfree : s.socketOf fd = none) :
    Apart { s.goTo k (.created fd) with socketOf := Function.update s.socketOf fd (some k) } := by
  refine (Function.forall_update_iff s.calls fun j phase =>
    OwnSocket s.gSockfd (Function.update s.socketOf fd (some k)) j phase).mpr ⟨⟨?_, ?_⟩, ?_⟩
  · intro fd' hfd'
    have heq : fd = fd' := Option.some.inj hfd'
    rw [← heq, Function.update_self]
  · intro fd' hfd'
    simp [QueryPhase.means] at hfd'
  · intro j _
    refine ⟨?_, (h j).means⟩
    intro fd' hfd'
    have hown := (h j).holds fd' hfd'
    have hne : fd' ≠ fd := by
      intro heq
      rw [heq, hfree] at hown
      simp at hown
    rw [Function.update_of_ne hne]
    exact hown

theorem Apart.assign (h : Apart s) {k : κ} {fd : Nat} (hat : s.calls k = .created fd)
    (halone : ∀ j, j ≠ k → (s.calls j).means = none) :
    Apart { s.goTo k (.assigned fd) with gSockfd := fd } := by
  refine (Function.forall_update_iff s.calls fun j phase =>
    OwnSocket (fd : Int) s.socketOf j phase).mpr ⟨⟨?_, ?_⟩, ?_⟩
  · intro fd' hfd'
    exact (h k).holds fd' (by rw [hat]; exact hfd')
  · intro fd' hfd'
    have heq : fd = fd' := Option.some.inj hfd'
    rw [heq]
  · intro j hj
    exact (h j).setGlobal (halone j hj)

theorem Apart.close (h : Apart s) {k : κ} {fd : Nat} (hat : s.calls k = .leaving fd)
    (halone : ∀ j, j ≠ k → (s.calls j).means = none) :
    Apart { s.goTo k .returned with
      gSockfd := -1, socketOf := Function.update s.socketOf fd none } := by
  have hown : s.socketOf fd = some k := (h k).holds fd (by rw [hat]; rfl)
  refine (Function.forall_update_iff s.calls fun j phase =>
    OwnSocket (-1) (Function.update s.socketOf fd none) j phase).mpr
    ⟨OwnSocket.idle _ _ _ rfl, ?_⟩
  intro j hj
  refine ⟨?_, ((h j).setGlobal (halone j hj)).means⟩
  intro fd' hfd'
  have hother := (h j).holds fd' hfd'
  have hne : fd' ≠ fd := by
    intro heq
    rw [heq, hown, Option.some.injEq] at hother
    exact hj hother.symm
  rw [Function.update_of_ne hne]
  exact hother

theorem Apart.step (h : Apart s) (hstep : SocketStep domainName s event s')
    (halone : Alone s event) : Apart s' := by
  rcases hstep with ⟨hat, hfree⟩ | hat | hat | ⟨hat, -⟩ | ⟨hat, -, -, -⟩ | ⟨hat, -⟩ |
    ⟨hat, -, -, -⟩ | - | ⟨hat, -⟩ | @⟨k, j, fd, queryId, startTime, datagram, rest, al, beyond,
      responsePkt, response, hat, -, -, -⟩ | hat | hat | ⟨hat, -⟩ | hat | -
  · exact h.create hfree
  · exact h.goTo (by rw [hat]; rfl) (Or.inr rfl)
  · exact h.assign hat halone
  · exact h.goTo (by rw [hat]; rfl) (Or.inr rfl)
  · exact h.goTo (by rw [hat]; rfl) (Or.inl (by rw [hat]; rfl))
  · exact h.goTo (by rw [hat]; rfl) (Or.inr rfl)
  · exact h.goTo (by rw [hat]; rfl) (Or.inl (by rw [hat]; rfl))
  · exact h
  · exact h.goTo (by rw [hat]; rfl) (Or.inr rfl)
  · show Apart (s.goTo k _)
    split
    · exact h.goTo (by rw [hat]; rfl) (Or.inr rfl)
    · exact h.goTo (by rw [hat]; rfl) (Or.inl (by rw [hat]; rfl))
  · exact h.goTo (by rw [hat]; rfl) (Or.inl (by rw [hat]; rfl))
  · exact h.goTo (by rw [hat]; rfl) (Or.inr rfl)
  · exact h.goTo (by rw [hat]; rfl) (Or.inr rfl)
  · exact h.close hat halone
  · exact h

/-- A call that uses `g_sockfd` means a socket of its own. -/
theorem user_means (hstep : SocketStep domainName s event s') {k : κ}
    (huser : event.user = some k) : ∃ fd, (s.calls k).means = some fd := by
  rcases hstep with - | - | - | - | ⟨hat, -, -, -⟩ | ⟨hat, -⟩ | ⟨hat, -, -, -⟩ | ⟨hat, -⟩ |
    ⟨hat, -⟩ | ⟨hat, -, -, -⟩ | hat | hat | - | - | - <;>
  first
  | (simp [SocketEvent.user] at huser; done)
  | (rw [SocketEvent.user, Option.some.injEq] at huser
     rw [← huser, hat]
     exact ⟨_, rfl⟩)

theorem Apart.of_trace {events : List (SocketEvent κ)}
    (h : Trace SocketStart (Guarded (SocketStep domainName) Alone) events s) : Apart s := by
  refine @Trace.inv _ _ _ _ (fun _ s => Apart s) (fun s hs => Apart.start hs) ?_ _ _ h
  intro _ s l s' hs hstep
  exact hs.step hstep.1 hstep.2

/-- A step past the condition leaves a call that means a socket `g_sockfd` does not stand for. -/
theorem Apart.spoilt (h : Apart s) (hstep : SocketStep domainName s event s')
    (hnot : ¬ Alone s event) :
    ∃ j fd, (s'.calls j).means = some fd ∧ s'.gSocket ≠ some j := by
  have hother : ∀ k, ¬ (∀ j, j ≠ k → (s.calls j).means = none) →
      ∃ j, j ≠ k ∧ ∃ fd, (s.calls j).means = some fd := by
    intro k hk
    simp only [not_forall] at hk
    obtain ⟨j, hj, hmeans⟩ := hk
    exact ⟨j, hj, Option.ne_none_iff_exists'.mp hmeans⟩
  have same : ∀ {k j : κ} {phase : QueryPhase}, j ≠ k →
      Function.update s.calls k phase j = s.calls j := fun hj => Function.update_of_ne hj _ _
  rcases hstep with - | - | @⟨k, fd, hat⟩ | - | - | - | - | - | - | - | - | - | - |
    @⟨k, fd, hat⟩ | -
  case assign =>
    obtain ⟨j, hj, fd', hmeans⟩ := hother k hnot
    refine ⟨j, fd', ?_, ?_⟩
    · show (Function.update s.calls k _ j).means = _
      rw [same hj]
      exact hmeans
    · have hown : s.socketOf fd = some k := (h k).holds fd (by rw [hat]; rfl)
      rw [gSocket_of_assigned rfl]
      show s.socketOf fd ≠ some j
      rw [hown, Ne, Option.some.injEq]
      exact Ne.symm hj
  case close =>
    obtain ⟨j, hj, fd', hmeans⟩ := hother k hnot
    refine ⟨j, fd', ?_, by simp [SocketState.gSocket]⟩
    show (Function.update s.calls k _ j).means = _
    rw [same hj]
    exact hmeans
  all_goals exact absurd trivial hnot

/--
**Queries kept apart.**  In every run in which no call assigns or resets `g_sockfd`
while another still has to read it, each send, `select` and `recvfrom` is on the
open socket of the call that makes it, and no response one call waits for is taken
and thrown away by another.  A step that breaks the condition leaves a call whose
next use of `g_sockfd` is not of its own socket.
-/
theorem queries_apart (domainName : κ → Bytes) (events : List (SocketEvent κ))
    (s : SocketState κ)
    (h : Trace SocketStart (Guarded (SocketStep domainName) Alone) events s)
    (event : SocketEvent κ) (s' : SocketState κ) (hstep : SocketStep domainName s event s') :
    (∀ k, event.user = some k → s.gSocket = some k) ∧
    (∀ j, ¬ StealsFrom s event j) ∧
    (¬ Alone s event → ∃ j fd, (s'.calls j).means = some fd ∧ s'.gSocket ≠ some j) := by
  have hapart := Apart.of_trace h
  have hown : ∀ k, event.user = some k → s.gSocket = some k := by
    intro k huser
    obtain ⟨fd, hmeans⟩ := user_means hstep huser
    exact hapart.gSocket hmeans
  refine ⟨hown, ?_, hapart.spoilt hstep⟩
  intro j hsteals
  obtain ⟨k, datagram, queryId, hne, rfl, hsocket, -⟩ := hsteals
  have hk := hown k rfl
  rw [hsocket, Option.some.injEq] at hk
  exact hne hk.symm

/-! ### Two queries at once -/

/-- Calls are numbered, and no query has been made. -/
def noQueries : SocketState Nat :=
  { gSockfd := -1, socketOf := fun _ => none, queue := fun _ => [], calls := fun _ => .notCalled }

theorem noQueries_start : SocketStart noQueries := ⟨rfl, fun _ => rfl, fun _ => rfl, fun _ => rfl⟩

/-- Both calls ask for the same name. -/
def sameName : Nat → Bytes := fun _ => ascii "example.com"

/-- What a call with this id makes of the response. -/
theorem exampleResponse_turn (queryId : UInt16) : ∃ pkt, pkt.header = responseHeader ∧
    Settles (fun fuel => waitTurn fuel allocOk (fun _ => 0) queryId zeroPacket exampleResponse)
      (done (responseTo queryId pkt)) := by
  obtain ⟨q, r, rs, -, -, hreads⟩ := exampleResponse_wellFormed.packetReads rfl (by decide)
  have hle : Contents.Le exampleResponse.contents
      (recvBuffer exampleResponse fun _ => 0).contents := contents_le_recvBuffer (by decide) _
  exact ⟨_, rfl, waitTurn_settles_iff.mpr
    ⟨_, recvBuffer_settles_iff.mpr ⟨⟨rfl, fun _ => ⟨rfl, rfl⟩⟩, hreads.mono hle, rfl⟩, rfl⟩⟩

/-- Both calls have a socket; call 0 has had its response and is done, and call 1 comes next. -/
theorem one_after_the_other : ∃ events s,
    Trace SocketStart (Guarded (SocketStep sameName) Alone) events s ∧
    s.calls 0 = .returned ∧ s.calls 1 = .assigned 4 ∧ s.gSockfd = 4 ∧ s.gSocket = some 1 := by
  obtain ⟨pkt, hheader, hturn⟩ := exampleResponse_turn 7
  have hpkt : responseTo 7 pkt = some pkt := by
    rw [responseTo, hheader, if_pos (by decide)]
  rw [hpkt] at hturn
  have h₀ := @Trace.start _ _ _ (Guarded (SocketStep sameName) Alone) _ noQueries_start
  have h₁ := Trace.step h₀ ⟨@SocketStep.create _ _ sameName _ 0 3 rfl rfl, trivial⟩
  have h₂ := Trace.step h₁ ⟨@SocketStep.create _ _ sameName _ 1 4 rfl rfl, trivial⟩
  have h₃ := Trace.step h₂ ⟨@SocketStep.assign _ _ sameName _ 0 3 rfl, fun j hj => by
    simp only [SocketState.goTo, Function.update_apply, if_neg hj]
    split
    · rfl
    · rfl⟩
  have h₄ := Trace.step h₃ ⟨@SocketStep.send _ _ sameName _ 0 3 allocOk 7 _ 0 _ 0 rfl rfl rfl
    (by simp [SocketState.gSocket, SocketState.goTo]), trivial⟩
  have h₅ := Trace.step h₄ ⟨@SocketStep.arrive _ _ sameName _ 0 3 exampleResponse rfl, trivial⟩
  have h₆ := Trace.step h₅ ⟨@SocketStep.select _ _ sameName _ 0 0 3 7 0 0 rfl (by omega) rfl
    (by simp [Function.update]), trivial⟩
  have h₇ := Trace.step h₆ ⟨@SocketStep.receive _ _ sameName _ 0 0 3 7 0 exampleResponse []
    _ _ _ _ rfl rfl rfl hturn, trivial⟩
  have h₈ := Trace.step h₇ ⟨@SocketStep.close _ _ sameName _ 0 3 rfl, fun j hj => by
    simp only [SocketState.goTo, Function.update_apply, if_neg hj]
    split
    · rfl
    · rfl⟩
  have h₉ := Trace.step h₈ ⟨@SocketStep.assign _ _ sameName _ 1 4 rfl, fun j hj => by
    simp only [SocketState.goTo, Function.update_apply, if_neg hj]
    split
    · rfl
    · rfl⟩
  exact ⟨_, _, h₉, rfl, rfl, rfl, rfl⟩

/-- Then it sends, on its own socket. -/
theorem queries_apart_two : ∃ s s' : SocketState Nat,
    s.calls 0 = .returned ∧ SocketStep sameName s (.send 1) s' ∧
    (∀ k, (SocketEvent.send 1 : SocketEvent Nat).user = some k → s.gSocket = some k) := by
  obtain ⟨events, s, htrace, hdone, hat, hfd, hsocket⟩ := one_after_the_other
  have hsend := @SocketStep.send _ _ sameName s 1 4 allocOk 7 _ 0 _ 0 hat rfl (by rw [hfd]; rfl)
    (by simp [hsocket])
  exact ⟨s, _, hdone, hsend, (queries_apart sameName events s htrace _ _ hsend).1⟩

/-- Call 1 assigns `g_sockfd` while call 0 waits, and its response arrives. -/
theorem two_queries : ∃ events s,
    Trace SocketStart (SocketStep sameName) events s ∧
    s.calls 0 = .selected 3 8 0 ∧ s.calls 1 = .waiting 4 7 0 ∧ s.gSocket = some 1 ∧
    s.queue 1 = [exampleResponse] := by
  have h₀ := @Trace.start _ _ _ (SocketStep sameName) _ noQueries_start
  have h₁ := Trace.step h₀ (@SocketStep.create _ _ sameName _ 0 3 rfl rfl)
  have h₂ := Trace.step h₁ (@SocketStep.assign _ _ sameName _ 0 3 rfl)
  have h₃ := Trace.step h₂ (@SocketStep.send _ _ sameName _ 0 3 allocOk 8 _ 0 _ 0 rfl rfl rfl
    (by simp [SocketState.gSocket, SocketState.goTo]))
  have h₄ := Trace.step h₃ (@SocketStep.create _ _ sameName _ 1 4 rfl rfl)
  have h₅ := Trace.step h₄ (@SocketStep.assign _ _ sameName _ 1 4 rfl)
  have h₆ := Trace.step h₅ (@SocketStep.send _ _ sameName _ 1 4 allocOk 7 _ 0 _ 0 rfl rfl rfl
    (by simp [SocketState.gSocket, SocketState.goTo]))
  have h₇ := Trace.step h₆ (@SocketStep.arrive _ _ sameName _ 1 4 exampleResponse rfl)
  have h₈ := Trace.step h₇ (@SocketStep.select _ _ sameName _ 0 1 3 8 0 0 rfl (by omega) rfl
    (by simp [Function.update]))
  exact ⟨_, _, h₈, rfl, rfl, rfl, rfl⟩

/-- Call 0 then takes the response call 1 waits for from its socket, and throws it away. -/
theorem queries_cross : ∃ events s s',
    Trace SocketStart (SocketStep sameName) events s ∧
    SocketStep sameName s (.receive 0 (some (exampleResponse, none))) s' ∧
    s.gSocket = some 1 ∧
    StealsFrom s (.receive 0 (some (exampleResponse, none))) 1 := by
  obtain ⟨events, s, htrace, hat, hwaits, hsocket, hqueue⟩ := two_queries
  obtain ⟨pkt, hheader, hturn⟩ := exampleResponse_turn 8
  obtain ⟨pkt', hheader', hturn'⟩ := exampleResponse_turn 7
  have hnone : responseTo 8 pkt = none := by
    rw [responseTo, hheader, if_neg (by decide)]
  have hsome : responseTo 7 pkt' = some pkt' := by
    rw [responseTo, hheader', if_pos (by decide)]
  rw [hnone] at hturn
  rw [hsome] at hturn'
  exact ⟨events, s, _, htrace, SocketStep.receive hat hsocket hqueue hturn, hsocket,
    0, exampleResponse, 7, by decide, rfl, hsocket, by rw [hwaits]; rfl, _, _, _, _, hturn'⟩

end DnsServer
