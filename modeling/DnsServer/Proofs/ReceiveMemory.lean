/-
Receiving packets gives back what it takes.

`dns_wait_response` and `dns_start_listening` keep no packet: whatever arrives, however
often, and whichever allocations fail, what a turn allocated for a packet it parsed is
freed in the same turn, once, and so is the query once it has been sent.  What is left over
is a block for each turn whose question was parsed and whose announced answer was not, and
in it the question's name.

A callback may free what its caller gave it and nothing of the packet's.  It is called when
the wait returns 0 and not otherwise, so the caller knows from the value returned whether
what it gave is gone.
-/
import DnsServer.Proofs.Forward
import DnsServer.Proofs.Listen
import DnsServer.Proofs.PacketMemory
import DnsServer.Proofs.Response

namespace DnsServer

open Call

variable {ε ω : Type}

/-- The name that is lost, where the round brings in time a datagram whose question's is. -/
def Round.lost (fuel : Nat) (timeoutSec startTime : Int) (round : Round ε) : Option Bytes :=
  if round.now - startTime < timeoutSec then
    match round.arrival with
    | .datagram _ bytes => lostQname fuel round.al (recvBuffer bytes round.beyond)
    | _ => none
  else none

/-- The rounds a wait goes through before it returns: with fewer it is still waiting. -/
structure GoesThrough (fuel : Nat) (queryId : UInt16) (timeoutSec startTime : Int)
    (rounds seen : List (Round ε)) : Prop where
  first : seen <+: rounds
  waiting : ∀ fewer, fewer <+: seen → fewer ≠ seen →
    dnsWaitResponse fuel queryId timeoutSec startTime fewer = .running
  returned : dnsWaitResponse fuel queryId timeoutSec startTime seen
    = dnsWaitResponse fuel queryId timeoutSec startTime rounds

section Waiting

variable {fuel : Nat} {queryId : UInt16} {timeoutSec startTime : Int} {round : Round ε}
  {rounds seen : List (Round ε)}

/-- A round after which the wait returns is the last. -/
theorem goesThrough_last (h : ∀ rest, dnsWaitResponse fuel queryId timeoutSec startTime
      (round :: rest) = dnsWaitResponse fuel queryId timeoutSec startTime [round]) :
    GoesThrough fuel queryId timeoutSec startTime (round :: rounds) [round] := by
  refine ⟨⟨rounds, rfl⟩, fun fewer hfewer hne => ?_, (h rounds).symm⟩
  rcases List.prefix_cons_iff.mp hfewer with rfl | ⟨rest, rfl, hrest⟩
  · rfl
  · exact absurd (by rw [List.prefix_nil.mp hrest]) hne

/-- A round after which it waits on is followed by others. -/
theorem GoesThrough.cons (h : GoesThrough fuel queryId timeoutSec startTime rounds seen)
    (hon : ∀ rest, dnsWaitResponse fuel queryId timeoutSec startTime (round :: rest)
      = dnsWaitResponse fuel queryId timeoutSec startTime rest) :
    GoesThrough fuel queryId timeoutSec startTime (round :: rounds) (round :: seen) := by
  obtain ⟨rest, hrest⟩ := h.first
  refine ⟨⟨rest, by rw [List.cons_append, hrest]⟩, fun fewer hfewer hne => ?_, ?_⟩
  · rcases List.prefix_cons_iff.mp hfewer with rfl | ⟨fewer, rfl, hrest⟩
    · rfl
    · rw [hon]
      exact h.waiting fewer hrest fun heq => hne (by rw [heq])
  · rw [hon, hon]
    exact h.returned

end Waiting

/-- The rounds of a query: none if it does not go out, and if it does those of the wait for the
response to it. -/
structure Waits (goes : Prop) (fuel : Nat) (queryId : UInt16) (startTime : Int)
    (rounds seen : List (Round ε)) : Prop where
  through : goes → GoesThrough fuel queryId 5 startTime rounds seen
  unsent : ¬ goes → seen = []

/-- What makes a query of the caller's own go out. -/
def ForwardGoes (gSockfd : Int) (forwardAddr : Option ε) (sends : Bool) : Prop :=
  gSockfd ≠ -1 ∧ forwardAddr ≠ none ∧ sends = true

/-- What is made of the response waited for, if it came. -/
def answered (value : DnsPacket → ε → Call ω) : Option (ε × DnsPacket) → Call (Option ω)
  | none => .done none
  | some (sender, pkt) => do return some (← value pkt sender)

/-- The turns a loop makes: those before the first test that finds the flag cleared. -/
def turnsMade (receptions : List (Reception ε)) : List (Reception ε) :=
  receptions.takeWhile fun reception => !reception.stopped

/-- The name that is lost, where the turn receives a datagram whose question's is. -/
def Reception.lost (fuel : Nat) (reception : Reception ε) : Option Bytes :=
  match reception.received with
  | none => none
  | some (_, datagram) =>
      if min datagram.length udpBufferSize < headerSize then none
      else lostQname fuel reception.al (recvBuffer datagram reception.beyond)

/-- What is lost in the first of some turns is in front. -/
theorem nameBlocks_filterMap_cons {ι : Type} (lost : ι → Option Bytes) (i : ι) (is : List ι) :
    nameBlocks (ε := ε) ((i :: is).filterMap lost)
      = nameBlocks (lost i).toList ++ nameBlocks (is.filterMap lost) := by
  unfold nameBlocks
  rw [← List.map_append]
  refine congrArg _ ?_
  rcases h : lost i with _ | name
  · rw [List.filterMap_cons_none h]
    rfl
  · rw [List.filterMap_cons_some h]
    rfl

namespace PacketHeap

variable {s s' s₁ : PacketHeap ε} {gone : List Nat}

/-! ### Waiting -/

section Waiting

variable {fuel : Nat} {queryId : UInt16} {timeoutSec startTime : Int} {round : Round ε}
  {rounds seen : List (Round ε)}

/-- What became of the heap when a wait has returned with what its callback gave, if it was called:
the callback's blocks are gone if it was, and the names lost in the rounds are left. -/
structure Waited (fuel : Nat) (queryId : UInt16) (timeoutSec startTime : Int)
    (rounds : List (Round ε)) (gone : List Nat) (s : PacketHeap ε)
    (result : PacketHeap ε × Option ω) (out : Option ω) : Prop where
  gave : result.2 = out
  changes : ∃ seen, GoesThrough fuel queryId timeoutSec startTime rounds seen ∧
    s.Leaves result.1 (if out.isSome then gone else [])
      (nameBlocks (seen.filterMap (Round.lost fuel timeoutSec startTime)))

theorem dnsWaitResponse_datagram {sender : ε} {bytes : Bytes}
    (htime : round.now - startTime < timeoutSec) (harrival : round.arrival = .datagram sender bytes)
    (rest : List (Round ε)) :
    DnsServer.dnsWaitResponse fuel queryId timeoutSec startTime (round :: rest)
      = DnsServer.dnsRequestParse fuel round.al round.responsePkt (recvBuffer bytes round.beyond)
          >>= fun pkt => match pkt with
            | none => DnsServer.dnsWaitResponse fuel queryId timeoutSec startTime rest
            | some pkt =>
                if pkt.header.id = queryId ∧ pkt.header.qr = qrResponse then
                  done (some (sender, pkt))
                else DnsServer.dnsWaitResponse fuel queryId timeoutSec startTime rest := by
  rw [DnsServer.dnsWaitResponse, if_pos htime, harrival]
  simp only [waitTurn, bind_assoc]
  refine congrArg (_ >>= ·) ?_
  funext pkt
  rcases pkt with _ | pkt
  · rfl
  · by_cases hmine : pkt.header.id = queryId ∧ pkt.header.qr = qrResponse
    · simp only [if_pos hmine]
      rfl
    · simp only [if_neg hmine]
      rfl

/-- The wait on the heap goes as the wait on packets, and gives back what it took. -/
theorem dnsWaitResponse_like {needs : List (Nat × PacketBlock ε)}
    {callback : PacketHeap ε → PacketFields → ε → Call (PacketHeap ε × ω)}
    {value : DnsPacket → ε → Call ω} (hanswers : Answers needs callback value) :
    ∀ (rounds : List (Round ε)) (fields : PacketFields) (s : PacketHeap ε),
      (∀ p ∈ needs, s.Has p.1 p.2) →
      Like (Waited fuel queryId timeoutSec startTime rounds (needs.map Prod.fst) s)
        (dnsWaitResponse fuel callback queryId timeoutSec startTime fields s rounds)
        (DnsServer.dnsWaitResponse fuel queryId timeoutSec startTime rounds >>=
          answered value) := by
  intro rounds
  induction rounds with
  | nil => intro fields s hneeds; exact Like.running
  | cons round rounds ih =>
      intro fields s hneeds
      have hwere : ∀ a ∈ needs.map Prod.fst, a ∈ s.live := by
        intro a ha
        obtain ⟨p, hp, rfl⟩ := List.mem_map.mp ha
        exact (hneeds p hp).1
      -- a round that brings nothing and after which the wait goes on
      have hagain : ∀ {fields₁ : PacketFields} {s₁ : PacketHeap ε},
          s.Leaves s₁ [] (nameBlocks (round.lost fuel timeoutSec startTime).toList) →
          (∀ rest, DnsServer.dnsWaitResponse fuel queryId timeoutSec startTime (round :: rest)
            = DnsServer.dnsWaitResponse fuel queryId timeoutSec startTime rest) →
          Like (Waited fuel queryId timeoutSec startTime (round :: rounds) (needs.map Prod.fst) s)
            (dnsWaitResponse fuel callback queryId timeoutSec startTime fields₁ s₁ rounds)
            (DnsServer.dnsWaitResponse fuel queryId timeoutSec startTime rounds >>=
              answered value) := by
        intro fields₁ s₁ hleaves hon
        refine (ih fields₁ s₁ fun p hp =>
          hleaves.changes.keeps _ _ List.not_mem_nil (hneeds p hp)).mono ?_
        intro result out hwaited
        obtain ⟨seen, hthrough, hafter⟩ := hwaited.changes
        refine ⟨hwaited.gave, round :: seen, hthrough.cons hon, ?_⟩
        have hboth := hleaves.trans hafter fun a ha => by
          rcases out with _ | out
          · exact absurd ha List.not_mem_nil
          · exact hwere a ha
        rw [List.nil_append] at hboth
        rw [nameBlocks_filterMap_cons]
        exact hboth
      -- a round after which it returns
      have hlast : ∀ {s₁ : PacketHeap ε} {out : Option ω}
          {r : Call (Option (ε × DnsPacket))},
          s.Leaves s₁ (if out.isSome then needs.map Prod.fst else [])
            (nameBlocks (round.lost fuel timeoutSec startTime).toList) →
          (∀ rest,
            DnsServer.dnsWaitResponse fuel queryId timeoutSec startTime (round :: rest) = r) →
          Waited fuel queryId timeoutSec startTime (round :: rounds) (needs.map Prod.fst) s
            (s₁, out) out := by
        intro s₁ out r hleaves hreturns
        refine ⟨rfl, [round], goesThrough_last fun rest => ?_, ?_⟩
        · rw [hreturns rest, hreturns []]
        · rw [nameBlocks_filterMap_cons]
          exact (List.append_nil _).symm ▸ hleaves
      -- nor is anything left by a round that brings no datagram
      have hnothing : round.lost fuel timeoutSec startTime = none →
          s.Leaves s [] (nameBlocks (round.lost fuel timeoutSec startTime).toList) := by
        intro hlost
        rw [hlost]
        exact Heap.Leaves.of_changes (Heap.Changes.refl s)
      rw [PacketHeap.dnsWaitResponse]
      by_cases htime : round.now - startTime < timeoutSec
      · rw [if_pos htime]
        rcases harrival : round.arrival with _ | _ | _ | ⟨sender, bytes⟩
        · have hon : ∀ rest,
              DnsServer.dnsWaitResponse fuel queryId timeoutSec startTime (round :: rest)
              = DnsServer.dnsWaitResponse fuel queryId timeoutSec startTime rest := by
            intro rest
            rw [DnsServer.dnsWaitResponse, if_pos htime, harrival]
          rw [hon]
          exact hagain (hnothing (by rw [Round.lost, if_pos htime, harrival])) hon
        · have hon : ∀ rest,
              DnsServer.dnsWaitResponse fuel queryId timeoutSec startTime (round :: rest)
              = DnsServer.dnsWaitResponse fuel queryId timeoutSec startTime rest := by
            intro rest
            rw [DnsServer.dnsWaitResponse, if_pos htime, harrival]
          rw [hon]
          exact hagain (hnothing (by rw [Round.lost, if_pos htime, harrival])) hon
        · have hfailed : ∀ rest,
              DnsServer.dnsWaitResponse fuel queryId timeoutSec startTime (round :: rest)
                = done none := by
            intro rest
            rw [DnsServer.dnsWaitResponse, if_pos htime, harrival]
          rw [hfailed]
          exact Like.done (hlast (hnothing (by rw [Round.lost, if_pos htime, harrival])) hfailed)
        · have hlost : round.lost fuel timeoutSec startTime
              = lostQname fuel round.al (recvBuffer bytes round.beyond) := by
            rw [Round.lost, if_pos htime, harrival]
          rw [hlost] at hagain hlast
          rw [dnsWaitResponse_datagram htime harrival, bind_assoc]
          refine Like.bind (dnsRequestParse_like fuel round.al fields round.responsePkt
            (recvBuffer bytes round.beyond) s) ?_
          intro r pkt hpkt hparsed
          rcases hparsed with hleaves | @⟨s₁, fields₁, pkt, howns, hnone⟩
          · refine hagain hleaves fun rest => ?_
            rw [dnsWaitResponse_datagram htime harrival, hpkt]
            rfl
          · rw [hnone] at hagain hlast
            have hheader := howns.packetAt.header
            by_cases hmine : fields₁.header.id = queryId ∧ fields₁.header.qr = qrResponse
            · have hmine' := hmine
              rw [hheader] at hmine'
              simp only [Bool.true_eq_false, if_false, if_pos hmine, if_pos hmine', done_bind]
              refine Like.bind (hanswers s₁ fields₁ pkt sender howns.packetAt fun p hp =>
                howns.changes.keeps _ _ List.not_mem_nil (hneeds p hp)) ?_
              intro r out hout hr
              obtain ⟨s₂, out'⟩ := r
              obtain ⟨rfl, hchanges⟩ := hr
              obtain ⟨s₃, hclean, hchanges₃⟩ := Owns.cleanUp (k := 0)
                (howns.packetAt.keep hchanges fun b hb hgone => howns.new b hb (hwere b hgone))
                howns.new howns.nodup (howns.changes.trans hchanges hwere)
              show Like _ (s₂.cleanUpPacket fields₁ >>= _) _
              rw [hclean]
              refine Like.done (hlast (Heap.Leaves.of_changes hchanges₃)
                (r := done (some (sender, pkt))) fun rest => ?_)
              rw [dnsWaitResponse_datagram htime harrival, hpkt]
              exact if_pos hmine'
            · have hmine' := hmine
              rw [hheader] at hmine'
              simp only [Bool.true_eq_false, if_false, if_neg hmine, if_neg hmine']
              obtain ⟨s₂, hclean, hchanges₂⟩ := Owns.cleanUp (k := 0) howns.packetAt howns.new
                howns.nodup howns.changes
              rw [hclean]
              refine hagain (Heap.Leaves.of_changes hchanges₂) fun rest => ?_
              rw [dnsWaitResponse_datagram htime harrival, hpkt]
              exact if_neg hmine'
      · have hexpired : ∀ rest,
            DnsServer.dnsWaitResponse fuel queryId timeoutSec startTime (round :: rest)
              = done none := by
          intro rest
          rw [DnsServer.dnsWaitResponse, if_neg htime]
        rw [if_neg htime, hexpired]
        exact Like.done (hlast (hnothing (by rw [Round.lost, if_neg htime])) hexpired)

end Waiting

/-! ### Queries -/

/-- A query in two new blocks, or nothing new. -/
inductive QueryMade (s : PacketHeap ε) (inQname : Bytes) :
    PacketHeap ε × Option Nat → Option DnsPacket → Prop
  | failed {s' : PacketHeap ε} (hchanges : s.Changes s' [] 0) :
      QueryMade s inQname (s', none) none
  | made {s' : PacketHeap ε} {a b : Nat} {fields : PacketFields} {pkt : DnsPacket}
      (hhas : s'.Has a (.packet fields)) (hheader : fields.header = pkt.header)
      (hquestion : fields.question = { qname := some b, qtype := dnsTypeA, qclass := dnsClassIn })
      (hann : ¬ 0 < fields.header.ancount) (hqname : s'.Has b (.bytes (inQname ++ [0])))
      (hnew : a ∉ s.live) (hnew' : b ∉ s.live) (hne : a ≠ b) (hchanges : s.Changes s' [] 2) :
      QueryMade s inQname (s', some a) (some pkt)

theorem dnsCreateQueryPacket_eq (al : Alloc) (rand : Nat) (inQname : Bytes) (s : PacketHeap ε) :
    ∃ r, dnsCreateQueryPacket al rand inQname s = done r ∧
      QueryMade s inQname r (DnsServer.dnsCreateQueryPacket al rand inQname) := by
  unfold dnsCreateQueryPacket DnsServer.dnsCreateQueryPacket
  rcases hpacket : al 0 with _ | _
  · exact ⟨_, rfl, QueryMade.failed (Heap.Changes.refl s)⟩
  have hfirst := Heap.changes_malloc s (PacketBlock.packet (ε := ε) zeroFields)
  have hhas : (s.malloc (PacketBlock.packet zeroFields)).2.Has s.fresh _ := Heap.has_malloc
  simp only [Heap.mallocIf, if_true, Bool.not_true, Bool.false_eq_true, if_false]
  rcases hqname : al 1 with _ | _
  · -- there was no room for the name, and the packet is given back
    obtain ⟨s₁, hfree, hchanges, -⟩ := hfirst.free hhas.1 Heap.fresh_not_live
    refine ⟨(s₁, none), ?_, QueryMade.failed hchanges⟩
    simp only [Bool.false_eq_true, if_false, if_true]
    show (Heap.free (s.malloc (PacketBlock.packet zeroFields)).2 s.fresh >>= _) = _
    rw [hfree]
    rfl
  · simp only [if_true, reduceCtorEq, if_false]
    have hsecond := Heap.changes_malloc (s.malloc (PacketBlock.packet zeroFields)).2
      (PacketBlock.bytes (inQname ++ [0]))
    have hne : (s.malloc (PacketBlock.packet (ε := ε) zeroFields)).2.fresh ≠ s.fresh :=
      fun heq => Heap.fresh_not_live (heq ▸ hhas.1)
    obtain ⟨s₂, hwrite, hchanges, hwritten, hkeeps⟩ := (hfirst.andThen hsecond).write
      (hsecond.live hhas.1) Heap.fresh_not_live (PacketBlock.packet
        { zeroFields with
          header :=
            { zeroFields.header with
              id := UInt16.ofNat rand, qr := qrQuery, opcode := opcodeQuery, rd := 1, qdcount := 1 }
          question :=
            { qname := some (s.malloc (PacketBlock.packet (ε := ε) zeroFields)).2.fresh
              qtype := dnsTypeA, qclass := dnsClassIn } })
    refine ⟨(s₂, some s.fresh), ?_, QueryMade.made hwritten rfl rfl ?_
      (hkeeps _ _ hne Heap.has_malloc) Heap.fresh_not_live
      (fun hlive => Heap.fresh_not_live (hfirst.live hlive)) (Ne.symm hne) hchanges⟩
    · show (Heap.write _ s.fresh _ >>= _) = _
      rw [hwrite]
      rfl
    · show ¬ (0 : UInt16) < 0
      decide

/-- What is sent of a packet whose question is on the heap. -/
theorem dnsSendPacket_eq {fields : PacketFields} {pkt : DnsPacket} (gSockfd : Int)
    (serverAddr : Option ε) (hheader : fields.header = pkt.header)
    (hquestion : QuestionAt s fields.question pkt.question) :
    dnsSendPacket gSockfd serverAddr fields s
      = done (DnsServer.dnsSendPacket gSockfd serverAddr pkt) := by
  obtain ⟨a, bytes, hqname, hhas, hbytes⟩ := hquestion.qname
  unfold dnsSendPacket
  by_cases hsocket : gSockfd = -1
  · rw [if_pos hsocket]
    unfold DnsServer.dnsSendPacket
    rw [if_pos hsocket]
  · rw [if_neg hsocket]
    rcases serverAddr with _ | addr
    · unfold DnsServer.dnsSendPacket
      rw [if_neg hsocket]
      rfl
    · simp only [hqname, readString_eq hhas, hbytes, done_bind, hheader, hquestion.qtype,
        hquestion.qclass]
      unfold DnsServer.dnsSendPacket
      rw [if_neg hsocket, if_neg hsocket]
      rfl

/-- What became of the heap when a query has returned: nothing if it does not go out, and if it
does what the wait for its response did. -/
structure Queried (goes : Prop) (fuel : Nat) (queryId : UInt16) (startTime : Int)
    (rounds : List (Round ε)) (gone : List Nat) (s : PacketHeap ε)
    (result : PacketHeap ε × Option ω) (out : Option ω) : Prop where
  gave : result.2 = out
  changes : ∃ seen, Waits goes fuel queryId startTime rounds seen ∧ (¬ goes → out = none) ∧
    s.Leaves result.1 (if out.isSome then gone else [])
      (nameBlocks (seen.filterMap (Round.lost fuel 5 startTime)))

theorem Queried.unsent {goes : Prop} {fuel : Nat} {queryId : UInt16} {startTime : Int}
    {rounds : List (Round ε)} (hstays : ¬ goes) (hchanges : s.Changes s' [] 0) :
    Queried (ω := ω) goes fuel queryId startTime rounds gone s (s', none) none :=
  ⟨rfl, [], ⟨fun hgoes => absurd hgoes hstays, fun _ => rfl⟩, fun _ => rfl,
    Heap.Leaves.of_changes hchanges⟩

theorem dnsSendPacket_eq_none {α : Type} {gSockfd : Int} {serverAddr : Option α}
    {pkt : DnsPacket} :
    DnsServer.dnsSendPacket gSockfd serverAddr pkt = none ↔ gSockfd = -1 ∨ serverAddr = none := by
  unfold DnsServer.dnsSendPacket
  by_cases hsocket : gSockfd = -1
  · rw [if_pos hsocket]
    exact ⟨fun _ => Or.inl hsocket, fun _ => rfl⟩
  · rw [if_neg hsocket, Option.map_eq_none_iff]
    exact ⟨Or.inr, fun h => h.resolve_left hsocket⟩

/-- The packet of a query is given back when it has been sent. -/
theorem dnsFreePacket_eq {a b : Nat} {fields : PacketFields} (hhas : s₁.Has a (.packet fields))
    (hqname : fields.question.qname = some b) (hann : ¬ 0 < fields.header.ancount)
    (hlive : b ∈ s₁.live) (hnew : a ∉ s.live) (hnew' : b ∉ s.live) (hne : a ≠ b)
    (hchanges : s.Changes s₁ [] 2) :
    ∃ s₂, s₁.dnsFreePacket (some a) = done s₂ ∧ s.Changes s₂ [] 0 := by
  obtain ⟨s₂, hfree, hchanges₂, hkeeps⟩ := hchanges.free hlive hnew'
  obtain ⟨s₃, hfree₃, hchanges₃, -⟩ := hchanges₂.free (hkeeps a _ hne hhas).1 hnew
  refine ⟨s₃, ?_, hchanges₃⟩
  show (s₁.read a >>= _) = _
  rw [hhas.read_eq, done_bind]
  show (s₁.freePointer fields.question.qname >>= _) = _
  rw [hqname]
  show (s₁.free b >>= _) = _
  rw [hfree, done_bind, if_neg hann, hfree₃]

/-- The response to a query that was sent, on the heap and as a value. -/
theorem dnsWaitResponse_queried {needs : List (Nat × PacketBlock ε)}
    {callback : PacketHeap ε → PacketFields → ε → Call (PacketHeap ε × ω)}
    {value : DnsPacket → ε → Call ω} (hanswers : Answers needs callback value) {fuel : Nat}
    {goes : Prop} {queryId : UInt16} {startTime : Int} {rounds : List (Round ε)}
    (fields : PacketFields) (hgoes : goes) (hchanges : s.Changes s' [] 0)
    (hneeds : ∀ p ∈ needs, s.Has p.1 p.2) :
    Like (Queried goes fuel queryId startTime rounds (needs.map Prod.fst) s)
      (dnsWaitResponse fuel callback queryId 5 startTime fields s' rounds)
      (DnsServer.dnsWaitResponse fuel queryId 5 startTime rounds >>= answered value) := by
  refine (dnsWaitResponse_like hanswers rounds fields s' fun p hp =>
    hchanges.keeps _ _ List.not_mem_nil (hneeds p hp)).mono ?_
  intro result out hwaited
  obtain ⟨seen, hthrough, hafter⟩ := hwaited.changes
  refine ⟨hwaited.gave, seen, ⟨fun _ => hthrough, fun hstays => absurd hgoes hstays⟩,
    fun hstays => absurd hgoes hstays, ?_⟩
  have hboth := (Heap.Leaves.of_changes hchanges).trans hafter fun a ha => by
    rcases out with _ | out
    · exact absurd ha List.not_mem_nil
    · obtain ⟨p, hp, rfl⟩ := List.mem_map.mp ha
      exact (hneeds p hp).1
  exact hboth

/-- A query's packet is made where there is room for it, with the number drawn. -/
theorem dnsCreateQueryPacket_cases (al : Alloc) (rand : Nat) (inQname : Bytes) :
    (DnsServer.dnsCreateQueryPacket al rand inQname = none ∧ ¬ (al 0 = true ∧ al 1 = true)) ∨
    ∃ pkt, DnsServer.dnsCreateQueryPacket al rand inQname = some pkt ∧ al 0 = true ∧
      al 1 = true ∧ pkt.header.id = UInt16.ofNat rand := by
  unfold DnsServer.dnsCreateQueryPacket
  rcases al 0 with _ | _
  · exact Or.inl ⟨rfl, by simp⟩
  rcases al 1 with _ | _
  · exact Or.inl ⟨rfl, by simp⟩
  · exact Or.inr ⟨_, rfl, rfl, rfl, rfl⟩

theorem dnsQueryDomain_like {needs : List (Nat × PacketBlock ε)}
    {callback : PacketHeap ε → PacketFields → ε → Call (PacketHeap ε × ω)}
    {value : DnsPacket → ε → Call ω} (hanswers : Answers needs callback value) (fuel : Nat)
    (domainName : Bytes) (env : QueryEnv ε) (fields : PacketFields) (s : PacketHeap ε)
    (hneeds : ∀ p ∈ needs, s.Has p.1 p.2) :
    Like (Queried env.Goes fuel (UInt16.ofNat env.rand) env.startTime env.rounds
        (needs.map Prod.fst) s)
      (dnsQueryDomain fuel domainName env callback fields s)
      (DnsServer.dnsQueryDomain fuel domainName env >>= answered value) := by
  unfold dnsQueryDomain DnsServer.dnsQueryDomain
  rcases hsocket : env.querySocket with _ | gSockfd
  · exact Like.done (Queried.unsent (fun hgoes => hgoes.1 hsocket) (Heap.Changes.refl s))
  obtain ⟨r, hcreate, hmade⟩ := dnsCreateQueryPacket_eq env.al env.rand domainName s
  simp only [hcreate, done_bind]
  rcases dnsCreateQueryPacket_cases env.al env.rand domainName with
    ⟨hpkt, hroom⟩ | ⟨queryPkt, hpkt, hal, hal', hid⟩
  · rw [hpkt] at hmade ⊢
    cases hmade with
    | failed hchanges =>
        exact Like.done (Queried.unsent (fun hgoes => hroom ⟨hgoes.2.1, hgoes.2.2.1⟩) hchanges)
  rw [hpkt] at hmade ⊢
  cases hmade with
  | made hhas hheader hquestion hann hqname hnew hnew' hne hchanges =>
      rename_i s₁ a b queryFields
      have hname : queryFields.question.qname = some b := by rw [hquestion]
      obtain ⟨s₂, hfree, hchanges₂⟩ :=
        dnsFreePacket_eq hhas hname hann hqname.1 hnew hnew' hne hchanges
      have hsend := @dnsSendPacket_eq _ s₁ queryFields
        { queryPkt with question :=
          { qname := cstr (domainName ++ [0]), qtype := dnsTypeA, qclass := dnsClassIn } }
        gSockfd env.serverAddr hheader
        ⟨⟨b, _, hname, hqname, rfl⟩, by rw [hquestion], by rw [hquestion]⟩
      simp only [hhas.read_eq, done_bind, hsend, hfree, dnsSendPacket_eq_none]
      rcases hsent : DnsServer.dnsSendPacket (gSockfd : Int) env.serverAddr queryPkt with _ | sent
      · rw [if_pos (Or.inl (dnsSendPacket_eq_none.mp hsent))]
        have hserver : env.serverAddr = none :=
          (dnsSendPacket_eq_none.mp hsent).resolve_left (by omega)
        exact Like.done (Queried.unsent (fun hgoes => hgoes.2.2.2.1 hserver) hchanges₂)
      · have hsome : ¬ ((gSockfd : Int) = -1 ∨ env.serverAddr = none) := fun h => by
          rw [dnsSendPacket_eq_none.mpr h] at hsent
          simp at hsent
        rcases hsends : env.sends with _ | _
        · rw [if_pos (Or.inr rfl)]
          refine Like.done (Queried.unsent (fun hgoes => ?_) hchanges₂)
          exact Bool.false_ne_true (hsends.symm.trans hgoes.2.2.2.2)
        · rw [if_neg fun h => h.elim hsome fun heq => by simp at heq, hheader, if_pos rfl, hid]
          have hgoes : env.Goes := by
            refine ⟨by rw [hsocket]; simp, hal, hal', fun hserver => hsome (Or.inr hserver), hsends⟩
          exact dnsWaitResponse_queried hanswers fields hgoes hchanges₂ hneeds

/-- A query of the caller's own, forwarded. -/
theorem dnsForwardQuery_like {needs : List (Nat × PacketBlock ε)}
    {callback : PacketHeap ε → PacketFields → ε → Call (PacketHeap ε × ω)}
    {value : DnsPacket → ε → Call ω} (hanswers : Answers needs callback value) (fuel : Nat)
    (gSockfd : Int) {queryFields : PacketFields} {queryPkt : DnsPacket}
    (hheader : queryFields.header = queryPkt.header)
    (hquestion : QuestionAt s queryFields.question queryPkt.question) (forwardAddr : Option ε)
    (sends : Bool) (startTime : Int) (rounds : List (Round ε)) (fields : PacketFields)
    (hneeds : ∀ p ∈ needs, s.Has p.1 p.2) :
    Like (Queried (ForwardGoes gSockfd forwardAddr sends) fuel queryPkt.header.id startTime rounds
        (needs.map Prod.fst) s)
      (dnsForwardQuery fuel gSockfd queryFields forwardAddr sends startTime rounds callback
        fields s)
      ((DnsServer.dnsForwardQuery fuel gSockfd queryPkt forwardAddr sends startTime rounds).2 >>=
        answered value) := by
  unfold dnsForwardQuery DnsServer.dnsForwardQuery
  by_cases hsocket : gSockfd = -1
  · rw [if_pos hsocket, if_pos hsocket]
    exact Like.done (Queried.unsent (fun hgoes => hgoes.1 hsocket) (Heap.Changes.refl s))
  rw [if_neg hsocket, if_neg hsocket, dnsSendPacket_eq gSockfd forwardAddr hheader hquestion,
    done_bind]
  rcases hsent : DnsServer.dnsSendPacket gSockfd forwardAddr queryPkt with _ | sent
  · rw [if_pos (Or.inl rfl)]
    have haddr : forwardAddr = none := (dnsSendPacket_eq_none.mp hsent).resolve_left hsocket
    exact Like.done (Queried.unsent (fun hgoes => hgoes.2.1 haddr) (Heap.Changes.refl s))
  · rcases sends with _ | _
    · rw [if_pos (Or.inr rfl)]
      exact Like.done (Queried.unsent (fun hgoes => Bool.false_ne_true hgoes.2.2)
        (Heap.Changes.refl s))
    · have haddr : forwardAddr ≠ none := fun haddr => by
        rw [dnsSendPacket_eq_none.mpr (Or.inr haddr)] at hsent
        simp at hsent
      rw [if_neg (by simp), hheader]
      exact dnsWaitResponse_queried hanswers fields ⟨hsocket, haddr, rfl⟩ (Heap.Changes.refl s)
        hneeds

/-! ### Listening -/

theorem exampleDnsCallback_answers :
    Answers (ε := ε) [] exampleDnsCallback (fun pkt sender => done (sender, pkt.message)) := by
  intro s fields pkt sender hat _
  unfold exampleDnsCallback
  rw [readPacket_eq hat]
  exact Like.done ⟨rfl, Heap.Changes.refl s⟩

theorem listenLoop_like {callback : PacketHeap ε → PacketFields → ε → Call (PacketHeap ε × ω)}
    {value : DnsPacket → ε → ω}
    (hanswers : Answers [] callback fun pkt sender => done (value pkt sender)) (fuel : Nat) :
    ∀ (receptions : List (Reception ε)) (calls : List (ε × DnsPacket)) (s : PacketHeap ε),
      Like (fun r calls' => r.2 = calls'.map (fun call => value call.2 call.1) ∧
          s.Leaves r.1 [] (nameBlocks ((turnsMade receptions).filterMap (Reception.lost fuel))))
        (listenLoop fuel callback (calls.map fun call => value call.2 call.1) s receptions)
        (DnsServer.listenLoop fuel calls receptions) := by
  intro receptions
  induction receptions with
  | nil => intro calls s; exact Like.running
  | cons reception receptions ih =>
      intro calls s
      rcases hstopped : reception.stopped with _ | _
      · -- what the turns after this one do, from where it leaves the heap
        have hrest : ∀ {s₁ : PacketHeap ε} {calls₁ : List (ε × DnsPacket)},
            s.Leaves s₁ [] (nameBlocks (reception.lost fuel).toList) →
            Like (fun r calls' => r.2 = calls'.map (fun call => value call.2 call.1) ∧
                s.Leaves r.1 [] (nameBlocks
                  ((turnsMade (reception :: receptions)).filterMap (Reception.lost fuel))))
              (listenLoop fuel callback (calls₁.map fun call => value call.2 call.1) s₁ receptions)
              (DnsServer.listenLoop fuel calls₁ receptions) := by
          intro s₁ calls₁ hleaves
          refine (ih calls₁ s₁).mono fun r calls' hr => ⟨hr.1, ?_⟩
          have hturns : turnsMade (reception :: receptions) = reception :: turnsMade receptions :=
            List.takeWhile_cons_of_pos (by rw [hstopped]; rfl)
          rw [hturns, nameBlocks_filterMap_cons]
          exact hleaves.andThen hr.2
        rw [listenLoop_again fuel calls hstopped]
        rw [PacketHeap.listenLoop, hstopped]
        simp only [Bool.false_eq_true, if_false]
        unfold Reception.turn
        rcases hreceived : reception.received with _ | ⟨sender, datagram⟩
        · simp only [done_bind, Option.toList_none, List.append_nil]
          refine hrest ?_
          rw [Reception.lost, hreceived]
          exact Heap.Leaves.of_changes (Heap.Changes.refl s)
        · simp only [pure_eq, bind_assoc, done_bind]
          unfold listenTurn
          by_cases hshort : min datagram.length udpBufferSize < headerSize
          · simp only [if_pos hshort, pure_eq, done_bind, Option.map_none, Option.toList_none,
              List.append_nil]
            refine hrest ?_
            rw [Reception.lost, hreceived]
            simp only [if_pos hshort]
            exact Heap.Leaves.of_changes (Heap.Changes.refl s)
          · have hlost : reception.lost fuel
                = lostQname fuel reception.al (recvBuffer datagram reception.beyond) := by
              rw [Reception.lost, hreceived]
              simp only [if_neg hshort]
            rw [hlost] at hrest
            simp only [if_neg hshort]
            refine Like.bind (dnsRequestParse_like fuel reception.al zeroFields zeroPacket
              (recvBuffer datagram reception.beyond) s) ?_
            intro r pkt hpkt hparsed
            rcases hparsed with hleaves | @⟨s₁, fields, pkt, howns, hnone⟩
            · simp only [if_true, Option.map_none, Option.toList_none, List.append_nil]
              exact hrest hleaves
            · rw [hnone] at hrest
              obtain ⟨⟨s₂, out⟩, hcall, rfl, hchanges⟩ := (hanswers s₁ fields pkt sender
                howns.packetAt fun p hp => absurd hp List.not_mem_nil).eq_done
              obtain ⟨s₃, hclean, hchanges₃⟩ := Owns.cleanUp (k := 0)
                (howns.packetAt.keep hchanges fun b hb hgone => absurd hgone List.not_mem_nil)
                howns.new howns.nodup (howns.changes.andThen hchanges)
              simp only [Bool.true_eq_false, if_false, readPacket_eq howns.packetAt, done_bind,
                hcall, hclean, Option.map_some, Option.toList_some]
              have hmap : calls.map (fun call => value call.2 call.1) ++ [value pkt sender]
                  = (calls ++ [(sender, pkt)]).map fun call => value call.2 call.1 := by
                rw [List.map_append, List.map_singleton]
              rw [hmap]
              exact hrest (Heap.Leaves.of_changes hchanges₃)
      · rw [PacketHeap.listenLoop, DnsServer.listenLoop, hstopped]
        simp only [if_true]
        refine Like.done ⟨rfl, ?_⟩
        have hturns : turnsMade (reception :: receptions) = [] :=
          List.takeWhile_cons_of_neg (by rw [hstopped]; simp)
        rw [hturns]
        exact Heap.Leaves.of_changes (Heap.Changes.refl s)

end PacketHeap

/-! ### What is left over -/

/--
**Forwarding for a client gives back what it takes.**  Whatever arrives, whichever allocations fail
and whatever `response_pkt` held, `dns_query_domain` with `handle_dns_response` goes on the heap
as it does on packets: it follows no stale pointer, frees nothing twice, and stores the same
address.  What was on the heap before is as it was, and of its own it leaves nothing if the query
does not go out; if it does, the names of the questions that were parsed, among the datagrams of
the wait for the response to it, where the answer announced was not.
-/
theorem forwarding_keeps_memory (fuel : Nat) (domainName : Bytes) (env : QueryEnv ε)
    (responsePkt : PacketFields) (s : PacketHeap ε) :
    Like (fun result ipAddress => result.2 = ipAddress ∧
        ∃ seen, Waits env.Goes fuel (UInt16.ofNat env.rand) env.startTime env.rounds seen ∧
          s.Leaves result.1 [] (nameBlocks (seen.filterMap (Round.lost fuel 5 env.startTime))))
      (PacketHeap.forwardedAddress fuel domainName env responsePkt s)
      (forwardedAddress fuel domainName env) := by
  have hvalue : forwardedAddress fuel domainName env
      = (dnsQueryDomain fuel domainName env >>= answered fun pkt _ => handleDnsResponse pkt []) >>=
          fun out => done (out.getD []) := by
    unfold forwardedAddress
    rw [bind_assoc]
    refine congrArg (dnsQueryDomain fuel domainName env >>= ·) ?_
    funext result
    rcases result with _ | ⟨sender, pkt⟩
    · rfl
    · show handleDnsResponse pkt []
        = (handleDnsResponse pkt [] >>= fun out => done (some out)) >>= _
      rw [bind_assoc]
      rcases handleDnsResponse pkt [] with _ | _ | _ <;> rfl
  rw [hvalue]
  refine Like.bind (PacketHeap.dnsQueryDomain_like
    (PacketHeap.handleDnsResponse_answers []) fuel domainName env responsePkt s
    fun p hp => absurd hp List.not_mem_nil) ?_
  intro result out _ hqueried
  obtain ⟨hgave, seen, hwaits, -, hleaves⟩ := hqueried
  refine Like.done ⟨by rw [hgave], seen, hwaits, ?_⟩
  rcases out with _ | _
  · exact hleaves
  · exact hleaves

/--
**The client saved is freed when the query is answered, and then only.**  `dns_forward_query` with
`example_dns_forward_callback` frees the client's address it was given exactly when it
returns 0, once; when it returns -1, as it does whenever the query does not go out, the address is
still the caller's to free.  What else was on the heap is as it was, and what is new there are the
names lost in the wait for the response to the query.
-/
theorem forward_frees_client (fuel : Nat) (gSockfd : Int) (queryFields : PacketFields)
    (queryPkt : DnsPacket) (forwardAddr : Option ε) (sends : Bool) (startTime : Int)
    (rounds : List (Round ε)) (responsePkt : PacketFields) (originalClient : Nat) (addr : ε)
    (s : PacketHeap ε) (hheader : queryFields.header = queryPkt.header)
    (hquestion : s.QuestionAt queryFields.question queryPkt.question)
    (hclient : s.Has originalClient (.client addr)) :
    Like (fun result sent => result.2 = sent ∧
        ∃ seen, Waits (ForwardGoes gSockfd forwardAddr sends) fuel queryPkt.header.id startTime
            rounds seen ∧
          (¬ ForwardGoes gSockfd forwardAddr sends → sent = none) ∧
          s.Leaves result.1 (if sent.isSome then [originalClient] else [])
            (nameBlocks (seen.filterMap (Round.lost fuel 5 startTime))))
      (PacketHeap.dnsForwardQuery fuel gSockfd queryFields forwardAddr sends startTime rounds
        (PacketHeap.exampleDnsForwardCallback gSockfd (some originalClient)) responsePkt s)
      ((dnsForwardQuery fuel gSockfd queryPkt forwardAddr sends startTime rounds).2 >>=
        answered fun pkt _ => done (exampleDnsForwardCallback gSockfd pkt (some addr))) := by
  refine (PacketHeap.dnsForwardQuery_like
    (PacketHeap.exampleDnsForwardCallback_answers gSockfd originalClient addr) fuel gSockfd hheader
    hquestion forwardAddr sends startTime rounds responsePkt fun p hp => ?_).mono
    fun result sent hqueried => ⟨hqueried.gave, hqueried.changes⟩
  rw [List.mem_singleton.mp hp]
  exact hclient

/-- The name of a query at 0, and the address of the client that sent it, 5, at 1. -/
def savedHeap : PacketHeap Nat :=
  (((Heap.empty fun _ => .bytes []).malloc (.bytes (ascii "example.com" ++ [0]))).2.malloc
    (.client 5)).2

def savedQuery : PacketFields :=
  { zeroFields with
    header := { zeroPacket.header with id := 7, rd := 1, qdcount := 1 }
    question := { qname := some 0, qtype := dnsTypeA, qclass := dnsClassIn } }

/-- The response to query 7, from server 9. -/
def answeringRound : Round Nat :=
  { now := 0, arrival := .datagram 9 exampleResponse, al := allocOk, beyond := fun _ => 0
    responsePkt := zeroPacket }

theorem forward_frees_client_example :
    ∃ s sent, PacketHeap.dnsForwardQuery 9 3 savedQuery (some 9) true 0 [answeringRound]
        (PacketHeap.exampleDnsForwardCallback 3 (some 1)) zeroFields savedHeap
          = done (s, some sent) ∧ 1 ∉ s.live := by
  obtain ⟨⟨s, sent⟩, hrun, rfl, seen, -, -, hleaves⟩ := Like.eq_done (b := some _)
    (forward_frees_client 9 3 savedQuery
      { zeroPacket with
        header := savedQuery.header
        question := { qname := ascii "example.com", qtype := dnsTypeA, qclass := dnsClassIn } }
      (some 9) true 0 [answeringRound] zeroFields 1 5 savedHeap rfl
      ⟨⟨0, _, rfl, ⟨by decide, rfl⟩, by decide⟩, rfl, rfl⟩ ⟨by decide, rfl⟩)
  exact ⟨s, _, hrun, hleaves.changes.away 1 (List.mem_singleton_self 1)⟩

/--
**Listening gives back what it takes.**  However many datagrams come, the loop goes on the heap
as it does on packets: its callback reads every packet it is given as it was sent, nothing is
freed twice, and what is new when it ends are the names of the packets whose announced answer did
not parse.
-/
theorem listening_keeps_memory (fuel : Nat) (receptions : List (Reception ε)) (s : PacketHeap ε) :
    Like (fun result calls => result.2 = calls.map (fun call => (call.1, call.2.message)) ∧
        s.Leaves result.1 [] (nameBlocks ((turnsMade receptions).filterMap (Reception.lost fuel))))
      (PacketHeap.listenLoop fuel PacketHeap.exampleDnsCallback [] s receptions)
      (listenLoop fuel [] receptions) :=
  @PacketHeap.listenLoop_like _ _ _ (fun pkt sender => (sender, pkt.message))
    PacketHeap.exampleDnsCallback_answers fuel receptions [] s

end DnsServer
