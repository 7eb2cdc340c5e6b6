/-
Where `handleClient` goes, and what a request leaves in the log.

The trail is one of five: nothing was read, the trie was drawn, the name was found, it was
forwarded and answered, or it was forwarded in vain.  Each is a path of the handler's points
from its beginning to its return, which closes the connection once; so what `Cleanup` and
`Connections` say of the points is said of the handler.

The query and the answer are all that comes from outside into the messages, and a newline in
either is a line of the log that nobody logged.
-/
import DnsServer.Code.HandleTrail
import DnsServer.Proofs.Logger
import Mathlib.Data.List.Chain

namespace DnsServer

open Call Runs

variable {fuel clientSocket : Nat} {root : TrieNode} {cache cache' : DNSCache}
  {request : ClientRequest} {sends : Bool} {trail : List HandleStep} {answer : Option Bytes}

/-- Without its trail it is the handler. -/
theorem handleClientTrail_snd (fuel : Nat) (root : TrieNode) (cache : DNSCache)
    (request : ClientRequest) (clientSocket : Nat) (sends : Bool) :
    Prod.snd <$> handleClientTrail fuel root cache request clientSocket sends
      = handleClient fuel root cache request := by
  unfold handleClientTrail handleClient
  cases request.sent with
  | none => rfl
  | some sent =>
      simp only
      split
      · rfl
      split
      · rfl
      split
      · rfl
      · rw [map_bind]
        refine bind_congr fun found => ?_
        rcases found with ⟨cacheEntry | _, cache⟩
        · simp only
          split
          · rfl
          · rfl
        · rfl

/-! ### The five trails -/

def openingTrail (client : Bytes) : List HandleStep :=
  [.info .handling (ascii "Handling client socket: " ++ client), .quiet .reading]

def receivedStep (client buffer : Bytes) : HandleStep :=
  .info .received (ascii "Received query from client " ++ client ++ ascii ": " ++ buffer)

/-- The trails that a query leaves, with what is sent. -/
inductive Trails (client buffer : Bytes) (sends : Bool) : List HandleStep → Bytes → Prop
  | trie : Trails client buffer sends
      (openingTrail client ++ [receivedStep client buffer] ++ trieTrail)
      (ascii "Trie visualization opened on the server.")
  | hit (response : Bytes) : Trails client buffer sends
      (openingTrail client ++ [receivedStep client buffer] ++ hitTrail buffer response ++
        sendTrail client response sends) response
  | failed : Trails client buffer sends
      (openingTrail client ++ [receivedStep client buffer] ++ forwardTrail buffer ++
        [.info .forwardFailed (ascii "Forwarding failed to return result.")] ++
        sendTrail client (ascii "Record not found") sends) (ascii "Record not found")
  | forwarded (ipAddress : Bytes) : Trails client buffer sends
      (openingTrail client ++ [receivedStep client buffer] ++ forwardTrail buffer ++
        [.quiet .addingForwarded, .info .addedForwarded
          (ascii "Added forwarded query result to cache: " ++ ipAddress)] ++
        sendTrail client ipAddress sends) ipAddress

/-- The query a request is read as, if anything is read. -/
def ClientRequest.readAs (request : ClientRequest) : Option Bytes :=
  (request.sent.map fun sent => sent.take bufferSize).bind fun received =>
    if received = [] then none else some (cstr received)

theorem handleClientTrail_trails
    (h : handleClientTrail fuel root cache request clientSocket sends
      = done (trail, answer, cache')) :
    (request.readAs = none ∧ answer = none ∧
      trail = openingTrail (ascii (toString clientSocket)) ++
        unreadTrail (ascii (toString clientSocket))) ∨
    ∃ buffer response, request.readAs = some buffer ∧ answer = some response ∧
      Trails (ascii (toString clientSocket)) buffer sends trail response := by
  unfold handleClientTrail at h
  unfold ClientRequest.readAs
  cases hsent : request.sent with
  | none =>
      simp only [hsent, done.injEq, Prod.mk.injEq] at h
      obtain ⟨rfl, rfl, -⟩ := h
      exact Or.inl ⟨rfl, rfl, rfl⟩
  | some sent =>
      simp only [hsent] at h
      show ((if sent.take bufferSize = [] then none else some (cstr (sent.take bufferSize)))
        = none ∧ _) ∨ ∃ buffer response,
          (if sent.take bufferSize = [] then none else some (cstr (sent.take bufferSize)))
            = some buffer ∧ _
      by_cases hempty : sent.take bufferSize = []
      · rw [if_pos hempty] at h ⊢
        simp only [done.injEq, Prod.mk.injEq] at h
        obtain ⟨rfl, rfl, -⟩ := h
        exact Or.inl ⟨rfl, rfl, rfl⟩
      rw [if_neg hempty] at h ⊢
      refine Or.inr ⟨cstr (sent.take bufferSize), ?_⟩
      split at h
      · cases h
      split at h
      · simp only [done.injEq, Prod.mk.injEq] at h
        obtain ⟨rfl, rfl, -⟩ := h
        exact ⟨_, rfl, rfl, Trails.trie⟩
      · obtain ⟨⟨found, after⟩, -, hanswer⟩ := bind_eq_done.mp h
        cases found with
        | some cacheEntry =>
            simp only [pure_eq, done.injEq, Prod.mk.injEq] at hanswer
            obtain ⟨rfl, rfl, -⟩ := hanswer
            exact ⟨_, rfl, rfl, Trails.hit _⟩
        | none =>
            simp only at hanswer
            split at hanswer
            · simp only [pure_eq, done.injEq, Prod.mk.injEq] at hanswer
              obtain ⟨rfl, rfl, -⟩ := hanswer
              exact ⟨_, rfl, rfl, Trails.failed⟩
            · simp only [pure_eq, done.injEq, Prod.mk.injEq] at hanswer
              obtain ⟨rfl, rfl, -⟩ := hanswer
              exact ⟨_, rfl, rfl, Trails.forwarded _⟩

/-! ### Points -/

/-- What is said of the points of a trail. -/
structure GoesRight (trail : List HandleStep) : Prop where
  head : (trail.map HandleStep.point).head? = some .handling
  path : List.IsChain (fun a b => b ∈ HandlePoint.next a)
    (trail.map HandleStep.point ++ [.returned])
  logs : ∀ step ∈ trail, step.log.isSome = true ↔ Shared.logger ∈ step.point.uses
  closes : (trail.countP fun step => step.point.closes) = 1

theorem goesRight_unread (client : Bytes) :
    GoesRight (openingTrail client ++ unreadTrail client) := by
  refine ⟨rfl, ?_, ?_, rfl⟩
  · show List.IsChain _ [HandlePoint.handling, .reading, .readFailed, .closingUnread, .returned]
    decide
  · simp [openingTrail, unreadTrail, HandleStep.info, HandleStep.quiet, HandleStep.error,
      HandlePoint.uses]

/-- What comes to sending goes on to the return. -/
theorem goesRight_send {before : List HandleStep} (client response : Bytes)
    (hhead : (before.map HandleStep.point).head? = some .handling)
    (hpath : List.IsChain (fun a b => b ∈ HandlePoint.next a)
      (before.map HandleStep.point ++ [.sending]))
    (hlogs : ∀ step ∈ before, step.log.isSome = true ↔ Shared.logger ∈ step.point.uses)
    (hcloses : (before.countP fun step => step.point.closes) = 0) :
    GoesRight (before ++ sendTrail client response sends) := by
  have hpoints : (sendTrail client response sends).map HandleStep.point
      = [.sending, .sent, .closing, .closed] := by
    cases sends <;> rfl
  have hsendLogs : ∀ step ∈ sendTrail client response sends,
      step.log.isSome = true ↔ Shared.logger ∈ step.point.uses := by
    cases sends <;> simp [sendTrail, HandleStep.info, HandleStep.quiet, HandleStep.error,
      HandlePoint.uses]
  refine ⟨?_, ?_, ?_, ?_⟩
  · rw [List.map_append, List.head?_append, hhead]
    rfl
  · rw [List.map_append, hpoints, List.append_assoc]
    exact List.isChain_split.mpr ⟨hpath, by decide⟩
  · intro step hstep
    rcases List.mem_append.mp hstep with hbefore | hsend
    · exact hlogs step hbefore
    · exact hsendLogs step hsend
  · rw [List.countP_append, hcloses]
    cases sends <;> rfl

theorem Trails.goesRight {client buffer response : Bytes}
    (h : Trails client buffer sends trail response) : GoesRight trail := by
  cases h with
  | trie =>
      refine ⟨rfl, ?_, ?_, rfl⟩
      · show List.IsChain _ [HandlePoint.handling, .reading, .received, .trieRequested, .drawing,
          .trieReply, .returned]
        decide
      · simp [openingTrail, receivedStep, trieTrail, HandleStep.info, HandleStep.quiet,
          HandlePoint.uses]
  | hit =>
      refine goesRight_send client _ rfl ?_ ?_ rfl
      · show List.IsChain _ [HandlePoint.handling, .reading, .received, .retrieving, .hit, .adding,
          .added, .sending]
        decide
      · simp [openingTrail, receivedStep, hitTrail, HandleStep.info, HandleStep.quiet,
          HandlePoint.uses]
  | failed =>
      refine goesRight_send client _ rfl ?_ ?_ rfl
      · show List.IsChain _ [HandlePoint.handling, .reading, .received, .retrieving, .notFound,
          .forwarding, .forwarded, .forwardFailed, .sending]
        decide
      · simp [openingTrail, receivedStep, forwardTrail, HandleStep.info, HandleStep.quiet,
          HandlePoint.uses]
  | forwarded =>
      refine goesRight_send client _ rfl ?_ ?_ rfl
      · show List.IsChain _ [HandlePoint.handling, .reading, .received, .retrieving, .notFound,
          .forwarding, .forwarded, .addingForwarded, .addedForwarded, .sending]
        decide
      · simp [openingTrail, receivedStep, forwardTrail, HandleStep.info, HandleStep.quiet,
          HandlePoint.uses]

/-- A worker that is at the first point of a path can go along it. -/
theorem moves_along {φ α : Type} {n : Nat} {s : CleanupState φ α n} {w : Fin n}
    (hbusy : s.Executing w) {p : HandlePoint} (hat : s.point w = p) (ps : List HandlePoint)
    (hpath : List.IsChain (fun a b => b ∈ HandlePoint.next a) (p :: ps)) :
    Trace (· = s) CleanupStep (ps.map (CleanupEvent.moved w))
      { s with point := Function.update s.point w (ps.getLastD p) } := by
  induction ps using List.reverseRecOn with
  | nil =>
      refine Trace.start ?_
      rw [List.getLastD_nil, ← hat, Function.update_eq_self]
  | append_singleton ps q ih =>
      rw [← List.cons_append] at hpath
      obtain ⟨hbefore, -, hlast⟩ := List.isChain_append.mp hpath
      have hnext : q ∈ (ps.getLastD p).next := by
        refine hlast _ ?_ q rfl
        rw [List.getLast?_cons, List.getLastD_eq_getLast?]
        rfl
      have hmoved := Trace.step (ih hbefore) (@CleanupStep.moved _ _ _
        { s with point := Function.update s.point w (ps.getLastD p) } w q hbusy
        (by
          show q ∈ (Function.update s.point w (ps.getLastD p) w).next
          rw [Function.update_self]
          exact hnext))
      rw [List.map_append, List.getLastD_concat]
      rw [Function.update_idem] at hmoved
      exact hmoved

/-! ### Messages -/

/-- The messages a trail logged, in order. -/
def trailLog (trail : List HandleStep) : List LogCall := trail.filterMap HandleStep.log

theorem newline_literal {s : String} (h : (ascii s).contains newline = false) :
    newline ∉ ascii s := by
  rw [← List.contains_iff_mem, h]
  simp

theorem plain_info (message : Bytes) :
    LogCall.Plain { level := ascii "INFO", message } ↔ newline ∉ message :=
  and_iff_right (newline_literal (by decide))

theorem plain_error (message : Bytes) :
    LogCall.Plain { level := ascii "ERROR", message } ↔ newline ∉ message :=
  and_iff_right (newline_literal (by decide))

theorem plain_append {a b : List HandleStep} :
    (∀ call ∈ trailLog (a ++ b), call.Plain) ↔
      (∀ call ∈ trailLog a, call.Plain) ∧ ∀ call ∈ trailLog b, call.Plain := by
  unfold trailLog
  rw [List.filterMap_append, List.forall_mem_append]

theorem plain_opening {client : Bytes} (hclient : newline ∉ client) :
    ∀ call ∈ trailLog (openingTrail client), call.Plain := by
  show ∀ call ∈ [_], LogCall.Plain call
  simp (disch := decide) only [List.forall_mem_singleton, plain_info, List.mem_append,
    newline_literal, hclient, or_false, not_false_eq_true]

theorem plain_received {client : Bytes} (hclient : newline ∉ client) (buffer : Bytes) :
    (∀ call ∈ trailLog [receivedStep client buffer], call.Plain) ↔ newline ∉ buffer := by
  show (∀ call ∈ [_], LogCall.Plain call) ↔ _
  simp (disch := decide) only [List.forall_mem_singleton, plain_info, List.mem_append,
    newline_literal, hclient, false_or]

theorem plain_send {client response : Bytes} (hclient : newline ∉ client)
    (hresponse : newline ∉ response) (sends : Bool) :
    ∀ call ∈ trailLog (sendTrail client response sends), call.Plain := by
  cases sends <;>
  · show ∀ call ∈ [_, _], LogCall.Plain call
    simp (disch := decide) only [List.forall_mem_cons, plain_info, plain_error, List.mem_append,
      newline_literal, hclient, hresponse, or_false, not_false_eq_true, true_and,
      List.not_mem_nil, false_imp_iff, implies_true]

theorem plain_forward (buffer : Bytes) :
    (∀ call ∈ trailLog (forwardTrail buffer), call.Plain) ↔ newline ∉ buffer := by
  show (∀ call ∈ [_, _], LogCall.Plain call) ↔ _
  simp (disch := decide) only [List.forall_mem_cons, plain_info, List.mem_append,
    newline_literal, false_or, or_false, and_true, List.not_mem_nil, false_imp_iff, implies_true,
    and_self]

/-- A trail logs whole lines exactly if neither the query nor the answer has a newline in it. -/
theorem Trails.plain_iff {client buffer response : Bytes}
    (h : Trails client buffer sends trail response) (hclient : newline ∉ client) :
    (∀ call ∈ trailLog trail, call.Plain) ↔ newline ∉ buffer ∧ newline ∉ response := by
  have hopening := plain_opening hclient
  have hreceived := plain_received hclient buffer
  cases h with
  | trie =>
      have htrie : ∀ call ∈ trailLog trieTrail, call.Plain := by
        show ∀ call ∈ [_], LogCall.Plain call
        simp (disch := decide) only [List.forall_mem_singleton, plain_info, newline_literal,
          not_false_eq_true]
      rw [plain_append, plain_append, hreceived, and_iff_left htrie, and_iff_right hopening]
      exact (and_iff_left (newline_literal (by decide))).symm
  | hit =>
      have hhit : (∀ call ∈ trailLog (hitTrail buffer response), call.Plain) ↔
          newline ∉ buffer ∧ newline ∉ response := by
        show (∀ call ∈ [_, _], LogCall.Plain call) ↔ _
        simp (disch := decide) only [List.forall_mem_cons, plain_info, List.mem_append,
          newline_literal, false_or, or_false, not_or, and_true, List.not_mem_nil, false_imp_iff,
          implies_true]
        exact ⟨fun h => h.1, fun h => ⟨h, h.1⟩⟩
      rw [plain_append, plain_append, plain_append, hreceived, hhit, and_iff_right hopening]
      refine ⟨fun h => h.1.2, fun h => ⟨⟨h.1, h⟩, plain_send hclient h.2 sends⟩⟩
  | failed =>
      have hliteral : newline ∉ ascii "Record not found" := newline_literal (by decide)
      have hfailed : ∀ call ∈ trailLog [HandleStep.info .forwardFailed
          (ascii "Forwarding failed to return result.")], call.Plain := by
        show ∀ call ∈ [_], LogCall.Plain call
        simp (disch := decide) only [List.forall_mem_singleton, plain_info, newline_literal,
          not_false_eq_true]
      rw [plain_append, plain_append, plain_append, plain_append, hreceived, plain_forward,
        and_iff_right hopening, and_self, and_iff_left hfailed,
        and_iff_left (plain_send hclient hliteral sends), and_iff_left hliteral]
  | forwarded =>
      have hadded : (∀ call ∈ trailLog [HandleStep.quiet .addingForwarded, .info .addedForwarded
          (ascii "Added forwarded query result to cache: " ++ response)], call.Plain) ↔
          newline ∉ response := by
        show (∀ call ∈ [_], LogCall.Plain call) ↔ _
        simp (disch := decide) only [List.forall_mem_singleton, plain_info, List.mem_append,
          newline_literal, false_or]
      rw [plain_append, plain_append, plain_append, plain_append, hreceived, plain_forward,
        and_iff_right hopening, and_self, hadded]
      exact ⟨fun h => h.1, fun h => ⟨h, plain_send hclient h.2 sends⟩⟩

/-! ### The handler -/

/--
**The handler goes along its points.**  Where a request is handled, it is as the handler without
a trail says; the trail is a path of the points from the first to the return, logs at exactly
the points that use the logger, and closes the connection once; the request is answered exactly
if the trail sends.  So a worker of the concurrent server that begins to handle a client can
go through these points, whatever the others are at.
-/
theorem handle_follows_points (fuel : Nat) (root : TrieNode) (cache cache' : DNSCache)
    (request : ClientRequest) (clientSocket : Nat) (sends : Bool) (trail : List HandleStep)
    (answer : Option Bytes)
    (h : handleClientTrail fuel root cache request clientSocket sends
      = done (trail, answer, cache')) :
    handleClient fuel root cache request = done (answer, cache') ∧ GoesRight trail ∧
    (answer.isSome = true ↔ ∃ step ∈ trail, step.point = .trieReply ∨ step.point = .sending) ∧
    ∀ {φ α : Type} {n : Nat} (s : CleanupState φ α n) (w : Fin n), s.Executing w →
      s.point w = .handling → Trace (· = s) CleanupStep
        ((trail.map HandleStep.point).tail.map (CleanupEvent.moved w) ++ [.moved w .returned])
        { s with point := Function.update s.point w .returned } := by
  have hright : GoesRight trail ∧ (answer.isSome = true ↔
      ∃ step ∈ trail, step.point = .trieReply ∨ step.point = .sending) := by
    rcases handleClientTrail_trails h with ⟨-, rfl, rfl⟩ | ⟨buffer, response, -, rfl, htrails⟩
    · refine ⟨goesRight_unread _, ?_⟩
      simp [openingTrail, unreadTrail, HandleStep.info, HandleStep.quiet, HandleStep.error]
    · refine ⟨htrails.goesRight, ?_⟩
      cases htrails <;> simp [openingTrail, receivedStep, trieTrail, hitTrail, forwardTrail,
        sendTrail, HandleStep.info, HandleStep.quiet]
  refine ⟨?_, hright.1, hright.2, fun s w hbusy hat => ?_⟩
  · rw [← handleClientTrail_snd fuel root cache request clientSocket sends, h]
    rfl
  · obtain ⟨rest, hpoints⟩ : ∃ rest, trail.map HandleStep.point = .handling :: rest := by
      have hhead := hright.1.head
      cases hcase : trail.map HandleStep.point with
      | nil => rw [hcase] at hhead; cases hhead
      | cons p rest =>
          rw [hcase] at hhead
          exact ⟨rest, by rw [Option.some.inj hhead]⟩
    have hpath := hright.1.path
    rw [hpoints] at hpath ⊢
    rw [List.cons_append] at hpath
    have hmoves := moves_along hbusy hat (rest ++ [.returned]) hpath
    rw [List.map_append, List.getLastD_concat] at hmoves
    exact hmoves

/-- A client asks for the trie. -/
def trieRequest : ClientRequest :=
  { sent := some (ascii "trie")
    calls := fun _ => { cleanNow := 0, touchNow := 0, entryNow := 0, coin := true }
    forwarded := [], addNow := 0 }

/-- The root and nothing below it. -/
def bareTrie : TrieNode := { label := [], childrens := [], records := [], soa := none, ns := none }

/-- What is left of serving it to client 4. -/
theorem trieRequest_trail : handleClientTrail 0 bareTrie initializeDNSCache trieRequest 4 true
    = done (openingTrail (ascii "4") ++ [receivedStep (ascii "4") (ascii "trie")] ++ trieTrail,
        some (ascii "Trie visualization opened on the server."), initializeDNSCache) := by
  unfold handleClientTrail trieRequest
  simp only
  rw [if_neg (by decide), if_neg (by decide), if_pos (by decide)]
  rfl

theorem handle_follows_points_trie :
    handleClient 0 bareTrie initializeDNSCache trieRequest
      = done (some (ascii "Trie visualization opened on the server."), initializeDNSCache) ∧
    GoesRight (openingTrail (ascii "4") ++ [receivedStep (ascii "4") (ascii "trie")] ++
      trieTrail) := by
  obtain ⟨hhandled, hright, -⟩ := handle_follows_points 0 bareTrie initializeDNSCache
    initializeDNSCache trieRequest 4 true _ _ trieRequest_trail
  exact ⟨hhandled, hright⟩

/-! ### The log of a server -/

/-- A request that was handled. -/
structure ServedRequest where
  fuel : Nat
  root : TrieNode
  cache : DNSCache
  request : ClientRequest
  clientSocket : Nat
  sends : Bool
  trail : List HandleStep
  answer : Option Bytes
  after : DNSCache
  handled : handleClientTrail fuel root cache request clientSocket sends
    = done (trail, answer, after)

/-- Neither the query nor the answer has a newline in it. -/
def ServedRequest.Plain (r : ServedRequest) : Prop :=
  (∀ buffer ∈ r.request.readAs, newline ∉ buffer) ∧ ∀ response ∈ r.answer, newline ∉ response

theorem newline_decimal (k : Nat) : newline ∉ ascii (toString k) :=
  fun h => absurd (isDigit_decimal h) (by decide)

theorem ServedRequest.plain_iff (r : ServedRequest) :
    (∀ call ∈ trailLog r.trail, call.Plain) ↔ r.Plain := by
  have hclient := newline_decimal r.clientSocket
  unfold ServedRequest.Plain
  rcases handleClientTrail_trails r.handled with ⟨hquery, hanswer, htrail⟩ | ⟨buffer, response,
    hquery, hanswer, htrails⟩
  · rw [hquery, hanswer, htrail, plain_append, and_iff_right (plain_opening hclient)]
    refine ⟨fun _ => ⟨by simp, by simp⟩, fun _ => ?_⟩
    show ∀ call ∈ [_], LogCall.Plain call
    simp (disch := decide) only [List.forall_mem_singleton, plain_error, List.mem_append,
      newline_literal, hclient, or_false, not_false_eq_true]
  · rw [htrails.plain_iff hclient, hquery, hanswer]
    simp

theorem MainLog.plain (m : MainLog) : m.call.Plain := by
  have hfd := newline_decimal
  cases m <;>
    simp (disch := decide) only [MainLog.call, plain_info, plain_error, newline_literal,
      List.mem_append, hfd, or_false, not_false_eq_true]

/-- What is logged is what was called with, once nobody is in `logMessage`. -/
theorem LogInv.forall_entries {ι : Type} [DecidableEq ι] {localtime : Int → Tm} {file : Bytes}
    {events : List (LogEvent ι)} {s : LoggerState ι} (h : LogInv localtime file events s)
    (hidle : ∀ w, s.point w = .outside) {P : LogCall → Prop} :
    (∀ e ∈ logEntries events, P e.call) ↔ ∀ w, ∀ call ∈ logCallsOf w events, P call := by
  have hcalls : ∀ w, logCallsOf w events = entriesOf w events := by
    intro w
    rw [h.calls w, hidle w]
    exact List.append_nil _
  refine ⟨fun hentries w call hcall => ?_, fun hall e he => ?_⟩
  · rw [hcalls] at hcall
    obtain ⟨e, he, rfl⟩ := List.mem_map.mp hcall
    exact hentries e (List.mem_of_mem_filter he)
  · refine hall e.caller e.call ?_
    rw [hcalls]
    exact List.mem_map_of_mem (List.mem_filter.mpr ⟨he, by simp⟩)

/--
**The server's log can be read back exactly if no client and no record put a newline into
it.**  The workers log the trails of the requests they serve and `main` its own messages, in
any interleaving; once nobody is logging, the file cut at its newlines is what was in it and one
line for each message, in the order in which their times were read, if and only if neither a
query nor an answer has a newline in it.
-/
theorem served_log_reads_back_iff {n : Nat} (localtime : Int → Tm) (file : Bytes)
    (events : List (LogEvent (Option (Fin n)))) (s : LoggerState (Option (Fin n)))
    (h : Trace (LoggerStart file) (LoggerStep localtime) events s)
    (hfile : file = [] ∨ ∃ old, file = old ++ [newline]) (hidle : ∀ w, s.point w = .outside)
    (served : Fin n → List ServedRequest) (main : List MainLog)
    (hworkers : ∀ w, logCallsOf (some w) events = (served w).flatMap fun r => trailLog r.trail)
    (hmain : logCallsOf none events = main.map MainLog.call) :
    s.logFile.splitOn newline = (file.splitOn newline).dropLast ++
        (logEntries events).map (LogEntry.text localtime) ++ [[]] ↔
      ∀ w, ∀ r ∈ served w, r.Plain := by
  have hinv := logInv_trace h
  have hfree : s.lock = none := by
    rcases hlock : s.lock with _ | w
    · rfl
    · have hinside := (hinv.holder w).mpr hlock
      rw [hidle w] at hinside
      cases hinside
  rw [log_reads_back_iff localtime file events s h hfile hfree,
    hinv.forall_entries hidle (P := LogCall.Plain)]
  refine ⟨fun hplain w r hr => r.plain_iff.mp fun call hcall => ?_, fun hplain w call hcall => ?_⟩
  · refine hplain (some w) call ?_
    rw [hworkers]
    exact List.mem_flatMap.mpr ⟨r, hr, hcall⟩
  · cases w with
    | none =>
        rw [hmain] at hcall
        obtain ⟨m, -, rfl⟩ := List.mem_map.mp hcall
        exact m.plain
    | some w =>
        rw [hworkers] at hcall
        obtain ⟨r, hr, hcall⟩ := List.mem_flatMap.mp hcall
        exact r.plain_iff.mpr (hplain w r hr) call hcall

/-- One after the other, messages of one thread. -/
theorem exists_all_logged {ι : Type} [DecidableEq ι] {localtime : Int → Tm} {file : Bytes}
    {events : List (LogEvent ι)} {s : LoggerState ι} {w : ι}
    (h : Trace (LoggerStart file) (LoggerStep localtime) events s) (hfree : s.lock = none)
    (hidle : ∀ v, s.point v = .outside) (calls : List LogCall) :
    ∃ events' s', Trace (LoggerStart file) (LoggerStep localtime) events' s' ∧
      s'.lock = none ∧ (∀ v, s'.point v = .outside) ∧
      ∀ v, logCallsOf v events' = logCallsOf v events ++ if v = w then calls else [] := by
  induction calls generalizing events s with
  | nil =>
      refine ⟨events, s, h, hfree, hidle, fun v => ?_⟩
      split
      · exact (List.append_nil _).symm
      · exact (List.append_nil _).symm
  | cons call calls ih =>
      obtain ⟨events₁, s₁, h₁, hfree₁, hpoint₁, -, hcalls₁⟩ :=
        exists_logged h hfree (hidle w) call 0
      obtain ⟨events₂, s₂, h₂, hfree₂, hidle₂, hcalls₂⟩ :=
        ih h₁ hfree₁ fun v => (hpoint₁ v).trans (hidle v)
      refine ⟨events₂, s₂, h₂, hfree₂, hidle₂, fun v => ?_⟩
      rw [hcalls₂, hcalls₁, List.append_assoc]
      refine congrArg (_ ++ ·) ?_
      split
      · rfl
      · rfl

/-- The request for the trie, served. -/
def servedTrie : ServedRequest :=
  { fuel := 0, root := bareTrie, cache := initializeDNSCache, request := trieRequest
    clientSocket := 4, sends := true, trail := _, answer := _, after := _
    handled := trieRequest_trail }

theorem served_log_reads_back_trie :
    ∃ (events : List (LogEvent (Option (Fin 5)))) (s : LoggerState (Option (Fin 5))),
      Trace (LoggerStart []) (LoggerStep exampleLocaltime) events s ∧
      logCallsOf (some 0) events = trailLog servedTrie.trail ∧
      s.logFile.splitOn newline
        = (logEntries events).map (LogEntry.text exampleLocaltime) ++ [[]] := by
  obtain ⟨s, hs⟩ : ∃ s : LoggerState (Option (Fin 5)), LoggerStart [] s :=
    ⟨_, exampleLocaltime 0, rfl⟩
  have hstart : s.lock = none ∧ ∀ w, s.point w = .outside := by
    obtain ⟨tm, hs⟩ := hs
    obtain rfl := Option.some.inj hs
    exact ⟨rfl, fun _ => rfl⟩
  have h₀ : Trace (LoggerStart []) (LoggerStep exampleLocaltime) [] s := Trace.start hs
  obtain ⟨events₁, s₁, h₁, hfree₁, hidle₁, hcalls₁⟩ := exists_all_logged (w := none) h₀ hstart.1
    hstart.2 [MainLog.call .listening, MainLog.call (.accepted 4)]
  obtain ⟨events, t, h₂, -, hidle₂, hcalls₂⟩ := exists_all_logged (w := some 0) h₁ hfree₁ hidle₁
    (trailLog servedTrie.trail)
  have hall : ∀ v, logCallsOf v events
      = (if v = none then [MainLog.call .listening, MainLog.call (.accepted 4)] else []) ++
        if v = some 0 then trailLog servedTrie.trail else [] := by
    intro v
    rw [hcalls₂, hcalls₁]
    rfl
  have hback := served_log_reads_back_iff exampleLocaltime [] events t h₂ (Or.inl rfl) hidle₂
    (fun w => if w = 0 then [servedTrie] else []) [.listening, .accepted 4]
    (fun w => ?_) ?_
  · refine ⟨events, t, h₂, ?_, hback.mpr fun w r hr => ?_⟩
    · rw [hall, if_neg (by simp), if_pos rfl, List.nil_append]
    · split at hr
      · rw [List.mem_singleton.mp hr, ← ServedRequest.plain_iff]
        exact (Trails.plain_iff (@Trails.trie _ _ true) (by decide)).mpr
          ⟨by decide, newline_literal (by decide)⟩
      · exact absurd hr List.not_mem_nil
  · rw [hall, if_neg (by simp), List.nil_append]
    by_cases hw : w = 0
    · rw [hw, if_pos rfl, if_pos rfl, List.flatMap_singleton]
    · rw [if_neg (by simpa using hw), if_neg hw, List.flatMap_nil]
  · rw [hall, if_pos rfl, if_neg (by simp)]
    rfl

end DnsServer
