/-
What the wait does on every course of events.

A round of the loop is passed, or it ends the wait in one of three ways: the response
comes, a call fails, or the time is over.  So with every round looked at one of these
came first or all of them were passed, and what the wait has done by then follows from
which: it has called back once and returns 0, it has not and returns -1, or it has not
and is still waiting.

The parser is asked only to come back from what is received.  What it has to read
besides the datagram, the memory behind the buffer and the packet the rounds before
left, may be anything.
-/
import DnsServer.Proofs.Forward
import DnsServer.Proofs.QuestionCount

namespace DnsServer

open Call

variable {ε : Type} {queryId : UInt16} {timeoutSec startTime : Int}

/-! ### The calls to the callback -/

/-- What the callback has been called with, and the value returned, when the wait is over. -/
def outcomeOf (calls : List (ε × DnsPacket)) : Option (ε × DnsPacket) → List (ε × DnsPacket) × Int
  | some call => (calls ++ [call], 0)
  | none => (calls, -1)

/-- The wait calls back with the response it takes, and with nothing else. -/
theorem dnsWaitResponseCalls_eq (fuel : Nat) (calls : List (ε × DnsPacket))
    (rounds : List (Round ε)) :
    dnsWaitResponseCalls fuel queryId timeoutSec startTime calls rounds
      = dnsWaitResponse fuel queryId timeoutSec startTime rounds >>= fun found =>
          done (outcomeOf calls found) := by
  induction rounds with
  | nil => rfl
  | cons round rounds ih =>
      unfold dnsWaitResponseCalls dnsWaitResponse
      by_cases htime : round.now - startTime < timeoutSec
      · rw [if_pos htime, if_pos htime]
        rcases round.arrival with _ | _ | _ | ⟨sender, bytes⟩
        · exact ih
        · exact ih
        · rfl
        · dsimp only
          rcases waitTurn fuel round.al round.beyond queryId round.responsePkt bytes with
            _ | _ | _ | pkt
          · rfl
          · rfl
          · exact ih
          · rfl
      · rw [if_neg htime, if_neg htime]
        rfl

/-! ### How a round ends -/

/-- Parsing ends on what the round brings, if it brings a datagram. -/
def Round.ParsingEnds (round : Round ε) : Prop :=
  ∀ sender bytes, round.arrival = .datagram sender bytes →
    Returns (fun fuel => dnsRequestParse fuel round.al round.responsePkt
      (recvBuffer bytes round.beyond))

/-- The round is begun in time, fails in no call, and brings no response to the query. -/
structure Round.Quiet (round : Round ε) (queryId : UInt16) (timeoutSec startTime : Int) : Prop where
  inTime : round.InTime timeoutSec startTime
  runs : round.arrival ≠ .failed
  brings : ∀ sender pkt, ¬ round.Brings queryId sender pkt

/-- The wait is given up in the round: its time is over, or a call fails. -/
def Round.GivesUp (round : Round ε) (timeoutSec startTime : Int) : Prop :=
  ¬ round.InTime timeoutSec startTime ∨ round.arrival = .failed

theorem waitTurn_defined (al : Alloc) (beyond : Memory) (queryId : UInt16) (pkt₀ : DnsPacket)
    (datagram : Bytes) : Defined (fun fuel => waitTurn fuel al beyond queryId pkt₀ datagram) := by
  simp only [waitTurn_eq]
  exact Defined.bind (dnsRequestParse_defined al pkt₀ _) fun _ => Defined.const _

/-- Where parsing ends, a datagram is the response or it is discarded. -/
theorem Round.ParsingEnds.waitTurn_settles {round : Round ε} (h : round.ParsingEnds)
    {sender : ε} {bytes : Bytes} (harrival : round.arrival = .datagram sender bytes) :
    ∃ found, Settles (fun fuel => waitTurn fuel round.al round.beyond queryId round.responsePkt
      bytes) (done found) := by
  refine Returns.settles ?_ (waitTurn_mono _ _ _ _ _) (waitTurn_defined _ _ _ _ _)
  simp only [waitTurn_eq]
  rw [Returns.bind_iff (g := fun _ r => done (r.bind (responseTo queryId)))
    (dnsRequestParse_mono _ _ _) fun _ => Mono.const _]
  exact ⟨h sender bytes harrival, fun r _ => returns_done _⟩

/-- Where parsing ends, the rounds passed are those that bring no response and do not fail. -/
theorem Round.ParsingEnds.passes_iff {round : Round ε} (h : round.ParsingEnds) :
    round.Passes queryId ↔
      round.arrival ≠ .failed ∧ ∀ sender pkt, ¬ round.Brings queryId sender pkt := by
  unfold Round.Passes
  rcases harrival : round.arrival with _ | _ | _ | ⟨sender, bytes⟩
  · simp [Round.not_brings, harrival]
  · simp [Round.not_brings, harrival]
  · simp
  · refine ⟨fun hpasses => ⟨by simp, fun sender' pkt hbrings => ?_⟩, fun hquiet => ?_⟩
    · have heq := Settles.unique hpasses ((Round.brings_iff harrival).mp hbrings).2
      simp at heq
    · obtain ⟨found, hfound⟩ := @h.waitTurn_settles _ queryId _ _ _ harrival
      rcases found with _ | pkt
      · exact hfound
      · exact absurd ((Round.brings_iff harrival).mpr ⟨rfl, hfound⟩) (hquiet.2 sender pkt)

theorem Round.ParsingEnds.quiet_iff {round : Round ε} (h : round.ParsingEnds) :
    round.Quiet queryId timeoutSec startTime ↔
      round.InTime timeoutSec startTime ∧ round.Passes queryId := by
  rw [h.passes_iff]
  exact ⟨fun hquiet => ⟨hquiet.1, hquiet.2, hquiet.3⟩, fun hboth => ⟨hboth.1, hboth.2.1, hboth.2.2⟩⟩

/-! ### How the wait ends -/

/-- After quiet rounds the response comes, in a round begun in time. -/
def FirstMatch (queryId : UInt16) (timeoutSec startTime : Int) (rounds : List (Round ε))
    (sender : ε) (pkt : DnsPacket) : Prop :=
  ∃ passed round rest, rounds = passed ++ round :: rest ∧
    (∀ r ∈ passed, r.Quiet queryId timeoutSec startTime) ∧
    round.InTime timeoutSec startTime ∧ round.Brings queryId sender pkt

/-- After quiet rounds the wait is given up. -/
def GivenUp (queryId : UInt16) (timeoutSec startTime : Int) (rounds : List (Round ε)) : Prop :=
  ∃ passed round rest, rounds = passed ++ round :: rest ∧
    (∀ r ∈ passed, r.Quiet queryId timeoutSec startTime) ∧ round.GivesUp timeoutSec startTime

theorem firstMatch_iff_firstResponse {rounds : List (Round ε)} {sender : ε} {pkt : DnsPacket}
    (hends : ∀ round ∈ rounds, round.ParsingEnds) :
    FirstMatch queryId timeoutSec startTime rounds sender pkt ↔
      FirstResponse queryId timeoutSec startTime rounds sender pkt := by
  have hpassed : ∀ {passed : List (Round ε)} {round rest}, rounds = passed ++ round :: rest →
      ((∀ r ∈ passed, r.Quiet queryId timeoutSec startTime) ↔
        ∀ r ∈ passed, r.InTime timeoutSec startTime ∧ r.Passes queryId) := by
    intro passed round rest hsplit
    refine forall₂_congr fun r hr => ?_
    exact (hends r (by rw [hsplit]; exact List.mem_append_left _ hr)).quiet_iff
  unfold FirstMatch FirstResponse
  refine exists_congr fun passed => exists_congr fun round => exists_congr fun rest => ?_
  exact and_congr_right fun hsplit => and_congr_left' (hpassed hsplit)

/-- A round that gives the wait up ends it with nothing. -/
theorem dnsWaitResponse_givesUp {round : Round ε} (h : round.GivesUp timeoutSec startTime)
    (rounds : List (Round ε)) (fuel : Nat) :
    dnsWaitResponse fuel queryId timeoutSec startTime (round :: rounds) = done none := by
  unfold dnsWaitResponse
  by_cases htime : round.now - startTime < timeoutSec
  · rw [if_pos htime]
    rcases h with hlate | hfailed
    · exact absurd htime hlate
    · rw [hfailed]
  · rw [if_neg htime]

/-- A quiet round leaves the wait to the rounds after it. -/
theorem dnsWaitResponse_quiet {round : Round ε} (hends : round.ParsingEnds)
    (h : round.Quiet queryId timeoutSec startTime) (rounds : List (Round ε)) :
    ∃ enough, ∀ fuel, enough ≤ fuel →
      dnsWaitResponse fuel queryId timeoutSec startTime (round :: rounds)
        = dnsWaitResponse fuel queryId timeoutSec startTime rounds := by
  have hpasses := hends.passes_iff.mpr ⟨h.runs, h.brings⟩
  have htime : round.now - startTime < timeoutSec := h.inTime
  unfold Round.Passes at hpasses
  rcases harrival : round.arrival with _ | _ | _ | ⟨sender, bytes⟩
  · exact ⟨0, fun fuel _ => by simp only [dnsWaitResponse, if_pos htime, harrival]⟩
  · exact ⟨0, fun fuel _ => by simp only [dnsWaitResponse, if_pos htime, harrival]⟩
  · exact absurd harrival h.runs
  · rw [harrival] at hpasses
    obtain ⟨enough, henough⟩ := hpasses
    refine ⟨enough, fun fuel hle => ?_⟩
    have hturn : waitTurn fuel round.al round.beyond queryId round.responsePkt bytes = done none :=
      henough fuel hle
    simp only [dnsWaitResponse, if_pos htime, harrival, hturn, done_bind]

/-- The wait over rounds of which the first are quiet is the wait over the others. -/
theorem settles_after_quiet {passed : List (Round ε)} {rounds : List (Round ε)}
    {x : Call (Option (ε × DnsPacket))} (hends : ∀ round ∈ passed, round.ParsingEnds)
    (hquiet : ∀ r ∈ passed, r.Quiet queryId timeoutSec startTime)
    (h : Settles (fun fuel => dnsWaitResponse fuel queryId timeoutSec startTime rounds) x) :
    Settles (fun fuel => dnsWaitResponse fuel queryId timeoutSec startTime (passed ++ rounds))
      x := by
  induction passed with
  | nil => exact h
  | cons round passed ih =>
      obtain ⟨m, hm⟩ := dnsWaitResponse_quiet (hends round List.mem_cons_self)
        (hquiet round List.mem_cons_self) (passed ++ rounds)
      obtain ⟨n, hn⟩ := ih (fun r hr => hends r (List.mem_cons_of_mem round hr))
        fun r hr => hquiet r (List.mem_cons_of_mem round hr)
      refine ⟨max m n, fun fuel hle => ?_⟩
      show dnsWaitResponse fuel queryId timeoutSec startTime (round :: (passed ++ rounds)) = x
      rw [hm fuel (by omega)]
      exact hn fuel (by omega)

/-- Of rounds on which parsing ends, one brings the response first, or one gives the wait up
first, or all are quiet. -/
theorem rounds_cases {rounds : List (Round ε)} (hends : ∀ round ∈ rounds, round.ParsingEnds) :
    (∃ sender pkt, FirstMatch queryId timeoutSec startTime rounds sender pkt) ∨
      GivenUp queryId timeoutSec startTime rounds ∨
      ∀ round ∈ rounds, round.Quiet queryId timeoutSec startTime := by
  induction rounds with
  | nil => exact Or.inr (Or.inr fun round hround => absurd hround List.not_mem_nil)
  | cons round rounds ih =>
      by_cases hgives : round.GivesUp timeoutSec startTime
      · exact Or.inr (Or.inl ⟨[], round, rounds, rfl, by simp, hgives⟩)
      obtain ⟨hintime, hruns⟩ : round.InTime timeoutSec startTime ∧ round.arrival ≠ .failed := by
        unfold Round.GivesUp at hgives
        exact ⟨by_contra fun hlate => hgives (Or.inl hlate), fun hfail => hgives (Or.inr hfail)⟩
      by_cases hbrings : ∃ sender pkt, round.Brings queryId sender pkt
      · obtain ⟨sender, pkt, hbrings⟩ := hbrings
        exact Or.inl ⟨sender, pkt, [], round, rounds, rfl, by simp, hintime, hbrings⟩
      have hquiet : round.Quiet queryId timeoutSec startTime :=
        ⟨hintime, hruns, fun sender pkt hb => hbrings ⟨sender, pkt, hb⟩⟩
      have hcons : ∀ {passed : List (Round ε)},
          (∀ r ∈ passed, r.Quiet queryId timeoutSec startTime) →
          ∀ r ∈ round :: passed, r.Quiet queryId timeoutSec startTime := by
        intro passed hpassed r hr
        rcases List.mem_cons.mp hr with rfl | hr
        · exact hquiet
        · exact hpassed r hr
      rcases ih fun r hr => hends r (List.mem_cons_of_mem round hr) with
        ⟨sender, pkt, passed, r, rest, rfl, hpassed, hr⟩ | ⟨passed, r, rest, rfl, hpassed, hr⟩ |
        hall
      · exact Or.inl ⟨sender, pkt, round :: passed, r, rest, rfl, hcons hpassed, hr⟩
      · exact Or.inr (Or.inl ⟨round :: passed, r, rest, rfl, hcons hpassed, hr⟩)
      · exact Or.inr (Or.inr (hcons hall))

theorem calls_settle {calls : List (ε × DnsPacket)} {rounds : List (Round ε)}
    {x : Call (Option (ε × DnsPacket))}
    (h : Settles (fun fuel => dnsWaitResponse fuel queryId timeoutSec startTime rounds) x) :
    Settles (fun fuel => dnsWaitResponseCalls fuel queryId timeoutSec startTime calls rounds)
      (x >>= fun found => done (outcomeOf calls found)) := by
  obtain ⟨enough, henough⟩ := h
  refine ⟨enough, fun fuel hle => ?_⟩
  have hwait : dnsWaitResponse fuel queryId timeoutSec startTime rounds = x := henough fuel hle
  show dnsWaitResponseCalls fuel queryId timeoutSec startTime calls rounds = _
  rw [dnsWaitResponseCalls_eq, hwait]

/--
**The wait delivers the first match and nothing else.**  On every course of events on whose
datagrams parsing ends: where the first round that is not quiet brings the response, the wait
calls back once, with it, and returns 0; where that round is late or fails in a call, the wait
returns -1 and has not called back; and where all rounds are quiet it is still waiting.
-/
theorem wait_delivers_first_match (queryId : UInt16) (timeoutSec startTime : Int)
    (rounds : List (Round ε)) (hends : ∀ round ∈ rounds, round.ParsingEnds) :
    (∃ sender pkt, FirstMatch queryId timeoutSec startTime rounds sender pkt ∧
      Settles (fun fuel => dnsWaitResponseCalls fuel queryId timeoutSec startTime [] rounds)
        (done ([(sender, pkt)], 0))) ∨
    ((∀ sender pkt, ¬ FirstMatch queryId timeoutSec startTime rounds sender pkt) ∧
      GivenUp queryId timeoutSec startTime rounds ∧
      Settles (fun fuel => dnsWaitResponseCalls fuel queryId timeoutSec startTime [] rounds)
        (done ([], -1))) ∨
    ((∀ round ∈ rounds, round.Quiet queryId timeoutSec startTime) ∧
      Settles (fun fuel => dnsWaitResponseCalls fuel queryId timeoutSec startTime [] rounds)
        running) := by
  rcases rounds_cases hends with ⟨sender, pkt, hmatch⟩ | hgiven | hquiet
  · have hfirst := (firstMatch_iff_firstResponse hends).mp hmatch
    exact Or.inl ⟨sender, pkt, hmatch, calls_settle (dnsWaitResponse_settles_iff.mpr hfirst)⟩
  · have hnone : Settles (fun fuel => dnsWaitResponse fuel queryId timeoutSec startTime rounds)
        (done none) := by
      obtain ⟨passed, round, rest, rfl, hpassed, hround⟩ := hgiven
      refine settles_after_quiet (fun r hr => hends r (List.mem_append_left _ hr)) hpassed ?_
      exact ⟨0, fun fuel _ => dnsWaitResponse_givesUp hround rest fuel⟩
    refine Or.inr (Or.inl ⟨?_, hgiven, calls_settle hnone⟩)
    intro sender pkt hmatch
    have hsome := dnsWaitResponse_settles_iff.mpr ((firstMatch_iff_firstResponse hends).mp hmatch)
    have heq := Settles.unique hnone hsome
    simp at heq
  · refine Or.inr (Or.inr ⟨hquiet, ?_⟩)
    have hwaiting : Settles (fun fuel => dnsWaitResponse fuel queryId timeoutSec startTime
        (rounds ++ [])) running :=
      settles_after_quiet hends hquiet ⟨0, fun fuel _ => rfl⟩
    rw [List.append_nil] at hwaiting
    exact calls_settle hwaiting

/-! ### A signal, a stray datagram and the response -/

/-- A signal interrupts the wait, then somebody's header that is no response comes, and then the
response to query 7. -/
def strayRounds : List (Round Nat) :=
  [{ now := 0, arrival := .interrupted, al := allocOk, beyond := fun _ => 0
     responsePkt := zeroPacket },
   { now := 1, arrival := .datagram 9 { bareHeader with qr := 0 }.wire, al := allocOk
     beyond := fun _ => 0, responsePkt := zeroPacket },
   { now := 2, arrival := .datagram 0 exampleResponse, al := allocOk, beyond := fun _ => 0
     responsePkt := zeroPacket }]

theorem returns_of_eq_done {α : Type} {f : Nat → Call α} {fuel : Nat} {a : α}
    (h : f fuel = done a) : Returns f := ⟨fuel, by rw [h]; simp⟩

theorem strayRounds_end : ∀ round ∈ strayRounds, round.ParsingEnds := by
  intro round hround sender bytes harrival
  simp only [strayRounds, List.mem_cons, List.not_mem_nil, or_false] at hround
  rcases hround with rfl | rfl | rfl
  · simp at harrival
  · simp only [Arrival.datagram.injEq] at harrival
    rw [← harrival.2]
    exact @returns_of_eq_done _ _ 9 _ rfl
  · simp only [Arrival.datagram.injEq] at harrival
    rw [← harrival.2]
    exact @returns_of_eq_done _ _ 9 _ rfl

theorem strayRounds_last : ∃ round ∈ strayRounds, ∃ sender pkt, round.Brings 7 sender pkt := by
  refine ⟨_, List.mem_cons_of_mem _ (List.mem_cons_of_mem _ List.mem_cons_self), 0, ?_⟩
  exact ⟨_, (Round.brings_iff rfl).mpr ⟨rfl, (waitTurn_mono _ _ _ _ _).settles_done 9 rfl⟩⟩

/-- The callback is called with the response, and with it only. -/
theorem wait_delivers_first_match_stray : ∃ sender pkt,
    FirstMatch 7 5 0 strayRounds sender pkt ∧
    Settles (fun fuel => dnsWaitResponseCalls fuel 7 5 0 [] strayRounds)
      (done ([(sender, pkt)], 0)) := by
  rcases wait_delivers_first_match 7 5 0 strayRounds strayRounds_end with
    h | ⟨-, ⟨passed, round, rest, hsplit, -, hgives⟩, -⟩ | ⟨hquiet, -⟩
  · exact h
  · have hround : round ∈ strayRounds := by
      rw [hsplit]
      exact List.mem_append_right _ List.mem_cons_self
    simp only [strayRounds, List.mem_cons, List.not_mem_nil, or_false] at hround
    rcases hround with rfl | rfl | rfl
    · simp [Round.GivesUp, Round.InTime] at hgives
    · simp [Round.GivesUp, Round.InTime] at hgives
    · simp [Round.GivesUp, Round.InTime] at hgives
  · obtain ⟨round, hround, sender, pkt, hbrings⟩ := strayRounds_last
    exact absurd hbrings ((hquiet round hround).brings sender pkt)

end DnsServer
