/-
The log of many threads is made of whole lines.

Whatever the threads do in between, what has been written is one line for each message, in
the order in which the lock was taken, with the time read while it was held; only the
last may still be on its way.  Each thread's lines are in the order it logged them, and a
message is in the file when `logMessage` returns.

The invariant is about the thread that has the lock.  What it has yet to write is known from
where it is, and with that the stream holds the lines of all the messages whose time has
been read; nobody else writes, or calls `localtime`, before it gives the lock back.
-/
import DnsServer.Code.Logger
import DnsServer.Lib.Runs
import DnsServer.Lib.Split
import DnsServer.Proofs.Decimal

namespace DnsServer

open Runs

variable {ι : Type} [DecidableEq ι] {localtime : Int → Tm} {s s' : LoggerState ι}
  {events : List (LogEvent ι)} {event : LogEvent ι} {file : Bytes} {w : ι}

/-! ### What was logged -/

/-- A message, who logged it, and the time read for it. -/
structure LogEntry (ι : Type) where
  caller : ι
  call : LogCall
  now : Int

/-- The line of a message. -/
def LogEntry.line (localtime : Int → Tm) (e : LogEntry ι) : Bytes :=
  (localtime e.now).stamp e.call.level ++ e.call.message ++ [newline]

def LogEvent.entry? : LogEvent ι → Option (LogEntry ι)
  | .read caller call now => some { caller, call, now }
  | _ => none

def LogEvent.returned? : LogEvent ι → Option ι
  | .returned w => some w
  | _ => none

/-- The message the thread has called `logMessage` with. -/
def LogEvent.calledBy? (w : ι) : LogEvent ι → Option LogCall
  | .called v call => if v = w then some call else none
  | _ => none

/-- The messages whose time was read, in order. -/
def logEntries (events : List (LogEvent ι)) : List (LogEntry ι) :=
  events.filterMap LogEvent.entry?

/-- The threads whose calls have returned, in order. -/
def logReturns (events : List (LogEvent ι)) : List ι := events.filterMap LogEvent.returned?

/-- The messages of one thread, in the order of its calls. -/
def logCallsOf (w : ι) (events : List (LogEvent ι)) : List LogCall :=
  events.filterMap (LogEvent.calledBy? w)

/-- Those of them whose time was read. -/
def entriesOf (w : ι) (events : List (LogEvent ι)) : List LogCall :=
  ((logEntries events).filter fun e => decide (e.caller = w)).map LogEntry.call

/-! ### Points -/

/-- The thread has the lock. -/
def LogPoint.inside : LogPoint → Bool
  | .outside => false
  | .calling _ => false
  | _ => true

/-- What the thread has yet to write of the message whose time it has read. -/
def LogPoint.rest (localtime : Int → Tm) : LogPoint → Bytes
  | .read call now => (localtime now).stamp call.level ++ call.message ++ [newline]
  | .converted call now => (localtime now).stamp call.level ++ call.message ++ [newline]
  | .stamped call _ => call.message ++ [newline]
  | .written _ _ => [newline]
  | _ => []

/-- The thread has read the time of its message, and has not returned. -/
def LogPoint.hasRead : LogPoint → Bool
  | .outside => false
  | .calling _ => false
  | .locked _ => false
  | _ => true

/-- The message the thread has called `logMessage` with, and whose time it has not read. -/
def LogPoint.waiting : LogPoint → List LogCall
  | .calling call => [call]
  | .locked call => [call]
  | _ => []

/-- What the holder of the lock has yet to write. -/
def heldRest (localtime : Int → Tm) (lock : Option ι) (point : ι → LogPoint) : Bytes :=
  match lock with
  | none => []
  | some w => (point w).rest localtime

/-- The holder of the lock, once it has read the time. -/
def heldBy (lock : Option ι) (point : ι → LogPoint) : List ι :=
  match lock with
  | none => []
  | some w => if (point w).hasRead then [w] else []

theorem heldRest_update {lock : Option ι} (hw : lock ≠ some w) (point : ι → LogPoint)
    (p : LogPoint) :
    heldRest localtime lock (Function.update point w p) = heldRest localtime lock point := by
  cases hcase : lock with
  | none => rfl
  | some v =>
      show (Function.update point w p v).rest localtime = _
      rw [Function.update_of_ne fun heq => hw (by rw [hcase, heq])]
      rfl

theorem heldBy_update {lock : Option ι} (hw : lock ≠ some w) (point : ι → LogPoint)
    (p : LogPoint) : heldBy lock (Function.update point w p) = heldBy lock point := by
  cases hcase : lock with
  | none => rfl
  | some v =>
      show (if (Function.update point w p v).hasRead then [v] else []) = _
      rw [Function.update_of_ne fun heq => hw (by rw [hcase, heq])]
      rfl

theorem heldRest_self (point : ι → LogPoint) (p : LogPoint) :
    heldRest localtime (some w) (Function.update point w p) = p.rest localtime := by
  show (Function.update point w p w).rest localtime = _
  rw [Function.update_self]

theorem heldBy_self (point : ι → LogPoint) (p : LogPoint) :
    heldBy (some w) (Function.update point w p) = if p.hasRead then [w] else [] := by
  show (if (Function.update point w p w).hasRead then [w] else []) = _
  rw [Function.update_self]

/-! ### The invariant -/

structure LogInv (localtime : Int → Tm) (file : Bytes) (events : List (LogEvent ι))
    (s : LoggerState ι) : Prop where
  holder : ∀ w, (s.point w).inside = true ↔ s.lock = some w
  /-- `localtime`'s buffer is the holder's until it has written the time. -/
  tm : ∀ w call now, s.point w = .converted call now → s.tm = localtime now
  content : s.logFile ++ heldRest localtime s.lock s.point
    = file ++ (logEntries events).flatMap (LogEntry.line localtime)
  within : s.inFile ≤ s.logFile.length
  flushed : ∀ w, s.point w = .flushed → s.inFile = s.logFile.length
  order : (logEntries events).map LogEntry.caller = logReturns events ++ heldBy s.lock s.point
  /-- The lines of the calls that have returned are in the file. -/
  safe : (file ++ ((logEntries events).take (logReturns events).length).flatMap
    (LogEntry.line localtime)).length ≤ s.inFile
  calls : ∀ w, logCallsOf w events = entriesOf w events ++ (s.point w).waiting

/-- Only the holder of the lock is inside. -/
theorem LogInv.others (h : LogInv localtime file events s) (hw : s.lock = some w) {v : ι}
    (hv : v ≠ w) : (s.point v).inside = false := by
  by_contra hinside
  rw [Bool.not_eq_false, h.holder, hw, Option.some.injEq] at hinside
  exact hv hinside.symm

/-! ### Steps -/

/-- What an event that is no reading, no return and no call adds to the lists. -/
theorem lists_other (events : List (LogEvent ι)) :
    logEntries (events ++ [.other]) = logEntries events ∧
    logReturns (events ++ [.other]) = logReturns events ∧
    (∀ w : ι, logCallsOf w (events ++ [.other]) = logCallsOf w events) ∧
    ∀ w : ι, entriesOf w (events ++ [.other]) = entriesOf w events := by
  have hentries : logEntries (events ++ [.other]) = logEntries events := by
    unfold logEntries
    rw [List.filterMap_append]
    exact List.append_nil _
  refine ⟨hentries, ?_, fun w => ?_, fun w => ?_⟩
  · unfold logReturns
    rw [List.filterMap_append]
    exact List.append_nil _
  · unfold logCallsOf
    rw [List.filterMap_append]
    exact List.append_nil _
  · unfold entriesOf
    rw [hentries]

/-- Where a thread goes on, the others are where they were. -/
theorem update_point_ne {point : ι → LogPoint} {p q : LogPoint} {v : ι}
    (hat : Function.update point w p v = q) (hpq : p ≠ q) : v ≠ w ∧ point v = q := by
  by_cases hvw : v = w
  · rw [hvw, Function.update_self] at hat
    exact absurd hat hpq
  · rw [Function.update_of_ne hvw] at hat
    exact ⟨hvw, hat⟩

/-- The holder of the lock goes on, and writes what it has to. -/
theorem LogInv.goOn (h : LogInv localtime file events s) (hw : s.lock = some w) (p : LogPoint)
    (tm : Tm) (more : Bytes) (inFile : Nat) (hinside : p.inside = true)
    (hread : p.hasRead = (s.point w).hasRead) (hwaiting : p.waiting = (s.point w).waiting)
    (hcontent : more ++ p.rest localtime = (s.point w).rest localtime)
    (htm : ∀ call now, p = .converted call now → tm = localtime now)
    (hwithin : s.inFile ≤ inFile ∧ inFile ≤ (s.logFile ++ more).length)
    (hflushed : p = .flushed → inFile = (s.logFile ++ more).length) :
    LogInv localtime file (events ++ [.other])
      { s with
        point := Function.update s.point w p, tm, inFile, logFile := s.logFile ++ more } := by
  obtain ⟨hentries, hreturns, hcalls, hof⟩ := lists_other events
  have hself : Function.update s.point w p w = p := Function.update_self _ _ _
  have hkept : ∀ v, v ≠ w → Function.update s.point w p v = s.point v :=
    fun v hv => Function.update_of_ne hv _ _
  refine ⟨fun v => ?_, fun v call now hv => ?_, ?_, hwithin.2, fun v hv => ?_, ?_, ?_,
    fun v => ?_⟩
  · show (Function.update s.point w p v).inside = true ↔ _
    by_cases hvw : v = w
    · rw [hvw, hself, hw]
      exact ⟨fun _ => rfl, fun _ => hinside⟩
    · rw [hkept v hvw]
      exact h.holder v
  · by_cases hvw : v = w
    · subst hvw
      exact htm call now (hself.symm.trans hv)
    · have hout := h.others hw hvw
      rw [← hkept v hvw, show Function.update s.point w p v = .converted call now from hv] at hout
      cases hout
  · have hold := h.content
    rw [hw] at hold
    show _ ++ more ++ heldRest localtime s.lock _ = _
    rw [hentries, ← hold, hw, heldRest_self, List.append_assoc, hcontent]
    rfl
  · by_cases hvw : v = w
    · subst hvw
      exact hflushed (hself.symm.trans hv)
    · have hout := h.others hw hvw
      rw [← hkept v hvw, show Function.update s.point w p v = .flushed from hv] at hout
      cases hout
  · have hold := h.order
    rw [hw] at hold
    show _ = _ ++ heldBy s.lock _
    rw [hentries, hreturns, hold, hw, heldBy_self, hread]
    rfl
  · rw [hentries, hreturns]
    exact Nat.le_trans h.safe hwithin.1
  · rw [hcalls, hof, h.calls v]
    show _ = _ ++ (Function.update s.point w p v).waiting
    by_cases hvw : v = w
    · rw [hvw, hself, hwaiting]
    · rw [hkept v hvw]

/-- A thread calls `logMessage`. -/
theorem LogInv.call (h : LogInv localtime file events s) {call : LogCall}
    (hat : s.point w = .outside) :
    LogInv localtime file (events ++ [.called w call]) (s.goTo w (.calling call)) := by
  have hlock : s.lock ≠ some w := by
    rw [Ne, ← h.holder, hat]
    simp [LogPoint.inside]
  have hentries : logEntries (events ++ [.called w call]) = logEntries events := by
    unfold logEntries
    rw [List.filterMap_append]
    exact List.append_nil _
  have hreturns : logReturns (events ++ [.called w call]) = logReturns events := by
    unfold logReturns
    rw [List.filterMap_append]
    exact List.append_nil _
  refine ⟨fun v => ?_, fun v call' now hv => ?_, ?_, h.within, fun v hv => ?_, ?_, ?_,
    fun v => ?_⟩
  · show (Function.update s.point w (.calling call) v).inside = true ↔ s.lock = some v
    by_cases hvw : v = w
    · rw [hvw, Function.update_self]
      exact ⟨fun hin => (by cases hin), fun heq => absurd heq hlock⟩
    · rw [Function.update_of_ne hvw]
      exact h.holder v
  · exact h.tm v call' now (update_point_ne hv (by simp)).2
  · show _ ++ heldRest localtime s.lock (Function.update s.point w (.calling call)) = _
    rw [hentries, ← h.content, heldRest_update hlock]
    rfl
  · exact h.flushed v (update_point_ne hv (by simp)).2
  · show _ = _ ++ heldBy s.lock (Function.update s.point w (.calling call))
    rw [hentries, hreturns, h.order, heldBy_update hlock]
  · rw [hentries, hreturns]
    exact h.safe
  · have hcalls := h.calls v
    unfold entriesOf at hcalls ⊢
    rw [hentries]
    unfold logCallsOf at hcalls ⊢
    rw [List.filterMap_append, hcalls]
    show _ ++ _ ++ List.filterMap _ [LogEvent.called w call]
      = _ ++ (Function.update s.point w (.calling call) v).waiting
    by_cases hvw : v = w
    · subst hvw
      rw [Function.update_self, hat]
      simp [LogEvent.calledBy?, LogPoint.waiting]
    · rw [Function.update_of_ne hvw]
      simp [LogEvent.calledBy?, Ne.symm hvw]

/-- It takes the lock. -/
theorem LogInv.lock (h : LogInv localtime file events s) {call : LogCall}
    (hat : s.point w = .calling call) (hfree : s.lock = none) :
    LogInv localtime file (events ++ [.other]) { s.goTo w (.locked call) with lock := some w } := by
  obtain ⟨hentries, hreturns, hcalls, hof⟩ := lists_other events
  refine ⟨fun v => ?_, fun v call' now hv => ?_, ?_, h.within, fun v hv => ?_, ?_, ?_,
    fun v => ?_⟩
  · show (Function.update s.point w (.locked call) v).inside = true ↔ some w = some v
    by_cases hvw : v = w
    · rw [hvw, Function.update_self]
      exact ⟨fun _ => rfl, fun _ => rfl⟩
    · rw [Function.update_of_ne hvw, h.holder, hfree, Option.some.injEq]
      exact ⟨fun hin => (by cases hin), fun heq => absurd heq.symm hvw⟩
  · exact h.tm v call' now (update_point_ne hv (by simp)).2
  · show _ ++ heldRest localtime (some w) (Function.update s.point w (.locked call)) = _
    rw [hentries, ← h.content, heldRest_self, hfree]
    rfl
  · exact h.flushed v (update_point_ne hv (by simp)).2
  · show _ = _ ++ heldBy (some w) (Function.update s.point w (.locked call))
    rw [hentries, hreturns, h.order, heldBy_self, hfree]
    rfl
  · rw [hentries, hreturns]
    exact h.safe
  · rw [hcalls, hof, h.calls v]
    show _ = _ ++ (Function.update s.point w (.locked call) v).waiting
    by_cases hvw : v = w
    · rw [hvw, Function.update_self, hat]
      rfl
    · rw [Function.update_of_ne hvw]

/-- It reads the time, and its line is the next. -/
theorem LogInv.read (h : LogInv localtime file events s) {call : LogCall} (now : Int)
    (hat : s.point w = .locked call) :
    LogInv localtime file (events ++ [.read w call now]) (s.goTo w (.read call now)) := by
  have hw : s.lock = some w := (h.holder w).mp (by rw [hat]; rfl)
  have hentries : logEntries (events ++ [.read w call now])
      = logEntries events ++ [{ caller := w, call, now }] := by
    unfold logEntries
    rw [List.filterMap_append]
    rfl
  have hreturns : logReturns (events ++ [.read w call now]) = logReturns events := by
    unfold logReturns
    rw [List.filterMap_append]
    exact List.append_nil _
  have hbefore : (logEntries events).map LogEntry.caller = logReturns events := by
    rw [h.order, hw]
    show _ ++ (if (s.point w).hasRead then [w] else []) = _
    rw [hat]
    exact List.append_nil _
  have hlength : (logReturns events).length = (logEntries events).length := by
    rw [← hbefore, List.length_map]
  refine ⟨fun v => ?_, fun v call' now hv => ?_, ?_, h.within, fun v hv => ?_, ?_, ?_,
    fun v => ?_⟩
  · show (Function.update s.point w (.read call now) v).inside = true ↔ s.lock = some v
    by_cases hvw : v = w
    · rw [hvw, Function.update_self, hw]
      exact ⟨fun _ => rfl, fun _ => rfl⟩
    · rw [Function.update_of_ne hvw]
      exact h.holder v
  · exact h.tm v call' now (update_point_ne hv (by simp)).2
  · have hold := h.content
    rw [hw, show heldRest localtime (some w) s.point = (s.point w).rest localtime from rfl,
      hat] at hold
    show s.logFile ++ heldRest localtime s.lock (Function.update s.point w (.read call now)) = _
    rw [hentries, List.flatMap_append, ← List.append_assoc, ← hold, hw, heldRest_self]
    show _ = s.logFile ++ [] ++ _
    rw [List.append_nil, List.flatMap_singleton]
    rfl
  · exact h.flushed v (update_point_ne hv (by simp)).2
  · show _ = _ ++ heldBy s.lock (Function.update s.point w (.read call now))
    rw [hentries, List.map_append, hbefore, hreturns, hw, heldBy_self]
    rfl
  · rw [hentries, hreturns, hlength, List.take_left]
    have hold := h.safe
    rw [hlength, List.take_length] at hold
    exact hold
  · have hcalls := h.calls v
    unfold entriesOf logCallsOf at hcalls ⊢
    rw [List.filterMap_append, hcalls, hentries, List.filter_append, List.map_append]
    show _ ++ _ ++ List.filterMap _ [LogEvent.read w call now]
      = _ ++ _ ++ (Function.update s.point w (.read call now) v).waiting
    by_cases hvw : v = w
    · subst hvw
      rw [Function.update_self, hat]
      simp [LogEvent.calledBy?, LogPoint.waiting]
    · rw [Function.update_of_ne hvw]
      simp [LogEvent.calledBy?, Ne.symm hvw]

/-- It returns. -/
theorem LogInv.unlock (h : LogInv localtime file events s) (hat : s.point w = .flushed) :
    LogInv localtime file (events ++ [.returned w]) { s.goTo w .outside with lock := none } := by
  have hw : s.lock = some w := (h.holder w).mp (by rw [hat]; rfl)
  have hentries : logEntries (events ++ [.returned w]) = logEntries events := by
    unfold logEntries
    rw [List.filterMap_append]
    exact List.append_nil _
  have hreturns : logReturns (events ++ [.returned w]) = logReturns events ++ [w] := by
    unfold logReturns
    rw [List.filterMap_append]
    rfl
  have horder : (logEntries events).map LogEntry.caller = logReturns events ++ [w] := by
    rw [h.order, hw]
    show _ ++ (if (s.point w).hasRead then [w] else []) = _
    rw [hat]
    rfl
  have hcontent : s.logFile = file ++ (logEntries events).flatMap (LogEntry.line localtime) := by
    rw [← h.content, hw]
    show _ = s.logFile ++ (s.point w).rest localtime
    rw [hat]
    exact (List.append_nil _).symm
  refine ⟨fun v => ?_, fun v call' now hv => ?_, ?_, h.within, fun v hv => ?_, ?_, ?_,
    fun v => ?_⟩
  · show (Function.update s.point w .outside v).inside = true ↔ none = some v
    by_cases hvw : v = w
    · rw [hvw, Function.update_self]
      exact ⟨fun hin => (by cases hin), fun heq => by cases heq⟩
    · rw [Function.update_of_ne hvw, h.others hw hvw]
      exact ⟨fun hin => (by cases hin), fun heq => by cases heq⟩
  · exact h.tm v call' now (update_point_ne hv (by simp)).2
  · rw [hentries, ← hcontent]
    exact List.append_nil _
  · exact h.flushed v (update_point_ne hv (by simp)).2
  · rw [hentries, hreturns, horder]
    exact (List.append_nil _).symm
  · have hlength : (logReturns events ++ [w]).length = (logEntries events).length := by
      rw [← horder, List.length_map]
    rw [hentries, hreturns, hlength, List.take_length, ← hcontent]
    exact Nat.le_of_eq (h.flushed w hat).symm
  · have hcalls := h.calls v
    unfold entriesOf at hcalls ⊢
    rw [hentries]
    unfold logCallsOf at hcalls ⊢
    rw [List.filterMap_append, hcalls]
    show _ ++ _ ++ [] = _ ++ (Function.update s.point w .outside v).waiting
    rw [List.append_nil]
    by_cases hvw : v = w
    · rw [hvw, Function.update_self, hat]
      rfl
    · rw [Function.update_of_ne hvw]

/-- **Every step keeps the log in lines.** -/
theorem LogInv.step (h : LogInv localtime file events s) (hstep : LoggerStep localtime s event s') :
    LogInv localtime file (events ++ [event]) s' := by
  have hholder : ∀ {w p}, s.point w = p → p.inside = true → s.lock = some w := by
    intro w p hat hin
    exact (h.holder w).mp (by rw [hat]; exact hin)
  have hgrows : ∀ more : Bytes, s.inFile ≤ (s.logFile ++ more).length := by
    intro more
    rw [List.length_append]
    exact Nat.le_trans h.within (Nat.le_add_right _ _)
  cases hstep with
  | call hat => exact h.call hat
  | lock hat hfree => exact h.lock hat hfree
  | read hat => exact h.read _ hat
  | @convert w call now hat =>
      have hnext := h.goOn (hholder hat rfl) (.converted call now) (localtime now) [] s.inFile rfl
        (by rw [hat]; rfl) (by rw [hat]; rfl) (by rw [hat]; rfl)
        (fun call' now' heq => by cases heq; rfl) ⟨Nat.le_refl _, hgrows []⟩ (by simp)
      rw [List.append_nil] at hnext
      exact hnext
  | @stamp w call now hat =>
      refine h.goOn (hholder hat rfl) (.stamped call now) s.tm (s.tm.stamp call.level) s.inFile rfl
        (by rw [hat]; rfl) (by rw [hat]; rfl) ?_ (by simp) ⟨Nat.le_refl _, hgrows _⟩ (by simp)
      rw [hat, h.tm w call now hat]
      show _ ++ (call.message ++ [newline]) = _ ++ call.message ++ [newline]
      rw [List.append_assoc]
  | @write w call now hat =>
      exact h.goOn (hholder hat rfl) (.written call now) s.tm call.message s.inFile rfl
        (by rw [hat]; rfl) (by rw [hat]; rfl) (by rw [hat]; rfl) (by simp)
        ⟨Nat.le_refl _, hgrows _⟩ (by simp)
  | @endLine w call now hat =>
      exact h.goOn (hholder hat rfl) .ended s.tm [newline] s.inFile rfl
        (by rw [hat]; rfl) (by rw [hat]; rfl) (by rw [hat]; rfl) (by simp)
        ⟨Nat.le_refl _, hgrows _⟩ (by simp)
  | @flush w hat =>
      have hnext := h.goOn (hholder hat rfl) .flushed s.tm [] s.logFile.length rfl
        (by rw [hat]; rfl) (by rw [hat]; rfl) (by rw [hat]; rfl) (by simp)
        ⟨h.within, by rw [List.append_nil]⟩ (fun _ => by rw [List.append_nil])
      rw [List.append_nil] at hnext
      exact hnext
  | unlock hat => exact h.unlock hat
  | spill hmore hwritten =>
      obtain ⟨hentries, hreturns, hcalls, hof⟩ := lists_other events
      refine ⟨h.holder, h.tm, hentries ▸ h.content, hwritten, fun v hv => ?_, ?_, ?_, fun v => ?_⟩
      · exact Nat.le_antisymm hwritten (h.flushed v hv ▸ hmore)
      · rw [hentries, hreturns]
        exact h.order
      · rw [hentries, hreturns]
        exact Nat.le_trans h.safe hmore
      · rw [hcalls, hof]
        exact h.calls v

theorem logInv_start (h : LoggerStart file s) : LogInv localtime file [] s := by
  obtain ⟨tm, h⟩ := h
  obtain rfl := Option.some.inj h
  refine ⟨fun v => ⟨fun hin => (by cases hin), fun heq => by cases heq⟩, fun v call now hv => ?_,
    rfl, Nat.le_refl _, fun v hv => ?_, rfl, ?_, fun v => rfl⟩
  · cases hv
  · cases hv
  · exact Nat.le_of_eq (by simp [logEntries])

theorem logInv_trace (h : Trace (LoggerStart file) (LoggerStep localtime) events s) :
    LogInv localtime file events s :=
  Trace.inv (fun _ => logInv_start) (fun _ _ _ _ hs hstep => hs.step hstep) h

/--
**The log is made of whole lines.**  Whatever the threads do at once, the file as it was and a
line for each message whose time was read, in that order, are what has been written and what the
thread that has the lock has yet to write; when nobody has it everything is written.  What is in
the file has the lines of all calls that have returned, which are the first ones, and each
thread's messages are in the order of its calls, but for one it is still waiting with.
-/
theorem log_is_lines (localtime : Int → Tm) (file : Bytes) (events : List (LogEvent ι))
    (s : LoggerState ι) (h : Trace (LoggerStart file) (LoggerStep localtime) events s) :
    (∃ rest, s.logFile ++ rest = file ++ (logEntries events).flatMap (LogEntry.line localtime) ∧
      (s.lock = none → rest = [])) ∧
    file ++ ((logEntries events).take (logReturns events).length).flatMap (LogEntry.line localtime)
      <+: s.logFile.take s.inFile ∧
    logReturns events <+: (logEntries events).map LogEntry.caller ∧
    ∀ w, ∃ waiting, logCallsOf w events = entriesOf w events ++ waiting ∧ waiting.length ≤ 1 := by
  have hinv := logInv_trace h
  have hsafe := hinv.safe
  refine ⟨⟨_, hinv.content, fun hnone => by rw [hnone]; rfl⟩, ?_, ?_, fun w => ?_⟩
  · have hall : file ++ ((logEntries events).take (logReturns events).length).flatMap
        (LogEntry.line localtime) <+: s.logFile ++ heldRest localtime s.lock s.point := by
      rw [hinv.content, List.prefix_append_right_inj]
      exact List.IsPrefix.flatMap (List.take_prefix _ _) _
    have hwritten := List.prefix_of_prefix_length_le hall (List.prefix_append _ _)
      (Nat.le_trans hsafe hinv.within)
    refine List.prefix_of_prefix_length_le hwritten (List.take_prefix _ _) ?_
    rw [List.length_take, Nat.min_eq_left hinv.within]
    exact hsafe
  · rw [hinv.order]
    exact List.prefix_append _ _
  · refine ⟨_, hinv.calls w, ?_⟩
    cases s.point w <;> simp [LogPoint.waiting]

/-! ### Reading the log -/

/-- The message is one line. -/
def LogCall.Plain (call : LogCall) : Prop := newline ∉ call.level ∧ newline ∉ call.message

/-- What a message's line says. -/
def LogEntry.text (localtime : Int → Tm) (e : LogEntry ι) : Bytes :=
  (localtime e.now).stamp e.call.level ++ e.call.message

theorem newline_zeroPadded (width n : Nat) : newline ∉ zeroPadded width n := by
  unfold zeroPadded
  rw [List.mem_append, not_or]
  refine ⟨fun h => ?_, fun h => ?_⟩
  · exact absurd (List.eq_of_mem_replicate h) (by decide)
  · exact absurd (isDigit_decimal h) (by decide)

theorem newline_stamp (t : Tm) (level : Bytes) : newline ∈ t.stamp level ↔ newline ∈ level := by
  have hopen : newline ∉ ascii "[" := by decide
  have hdash : newline ∉ ascii "-" := by decide
  have hblank : newline ∉ ascii " " := by decide
  have hcolon : newline ∉ ascii ":" := by decide
  have hlevel : newline ∉ ascii "] [" := by decide
  have hclose : newline ∉ ascii "] " := by decide
  unfold Tm.stamp
  simp only [List.mem_append, newline_zeroPadded, hopen, hdash, hblank, hcolon, hlevel, hclose,
    false_or, or_false]

omit [DecidableEq ι] in
theorem LogEntry.newline_text (e : LogEntry ι) : newline ∉ e.text localtime ↔ e.call.Plain := by
  unfold LogEntry.text LogCall.Plain
  rw [List.mem_append, newline_stamp, not_or]

/-- **The log can be read back line by line exactly if no message has a newline in it.** -/
theorem log_reads_back_iff (localtime : Int → Tm) (file : Bytes) (events : List (LogEvent ι))
    (s : LoggerState ι) (h : Trace (LoggerStart file) (LoggerStep localtime) events s)
    (hfile : file = [] ∨ ∃ old, file = old ++ [newline]) (hfree : s.lock = none) :
    s.logFile.splitOn newline = (file.splitOn newline).dropLast ++
        (logEntries events).map (LogEntry.text localtime) ++ [[]] ↔
      ∀ e ∈ logEntries events, e.call.Plain := by
  have hinv := logInv_trace h
  have hcontent : s.logFile = file ++ ((logEntries events).map (LogEntry.text localtime)).flatMap
      fun text => text ++ [newline] := by
    have hrest := hinv.content
    rw [hfree] at hrest
    rw [List.flatMap_map]
    exact (List.append_nil _).symm.trans hrest
  have hsplit : s.logFile.splitOn newline = (file.splitOn newline).dropLast ++
      (((logEntries events).map (LogEntry.text localtime)).flatMap
        fun text => text ++ [newline]).splitOn newline := by
    rw [hcontent]
    rcases hfile with rfl | ⟨old, rfl⟩
    · rfl
    · rw [List.append_assoc, List.singleton_append, List.splitOn_append_cons_self,
        Split.splitOn_concat_self, List.dropLast_concat]
  rw [hsplit, List.append_assoc, List.append_cancel_left_eq]
  refine ⟨fun hlines e he => ?_, fun hplain => Split.splitOn_flatMap_pieces fun text htext => ?_⟩
  · rw [← e.newline_text]
    have hmem : e.text localtime ∈ (logEntries events).map (LogEntry.text localtime) ++ [[]] :=
      List.mem_append_left _ (List.mem_map_of_mem he)
    rw [← hlines] at hmem
    exact Split.not_mem_of_mem_splitOn hmem
  · obtain ⟨e, he, rfl⟩ := List.mem_map.mp htext
    rw [e.newline_text]
    exact hplain e he

/-- A thread that finds the lock free can log its message to the end. -/
theorem exists_logged (h : Trace (LoggerStart file) (LoggerStep localtime) events s)
    (hfree : s.lock = none) (hat : s.point w = .outside) (call : LogCall) (now : Int) :
    ∃ events' s', Trace (LoggerStart file) (LoggerStep localtime) events' s' ∧
      s'.lock = none ∧ (∀ v, s'.point v = s.point v) ∧
      logEntries events' = logEntries events ++ [{ caller := w, call, now }] ∧
      ∀ v, logCallsOf v events' = logCallsOf v events ++ if v = w then [call] else [] := by
  have hself : ∀ (t : LoggerState ι) (p : LogPoint), (t.goTo w p).point w = p :=
    fun t p => Function.update_self _ _ _
  have h₁ := Trace.step h (@LoggerStep.call _ _ localtime _ w call hat)
  have h₂ := Trace.step h₁ (LoggerStep.lock (hself _ _) hfree)
  have h₃ := Trace.step h₂
    (@LoggerStep.read _ _ localtime _ w call now (Function.update_self _ _ _))
  have h₄ := Trace.step h₃ (LoggerStep.convert (hself _ _))
  have h₅ := Trace.step h₄ (LoggerStep.stamp (Function.update_self _ _ _))
  have h₆ := Trace.step h₅ (LoggerStep.write (hself _ _))
  have h₇ := Trace.step h₆ (LoggerStep.endLine (hself _ _))
  have h₈ := Trace.step h₇ (LoggerStep.flush (hself _ _))
  have h₉ := Trace.step h₈ (LoggerStep.unlock (Function.update_self _ _ _))
  refine ⟨_, _, h₉, rfl, fun v => ?_, ?_, fun v => ?_⟩
  · by_cases hv : v = w
    · rw [hv, hat]
      exact hself _ _
    · simp [LoggerState.goTo, LoggerState.append, hv]
  · unfold logEntries
    simp only [List.filterMap_append, List.append_assoc]
    rfl
  · unfold logCallsOf
    simp only [List.filterMap_append, List.append_assoc]
    refine congrArg (_ ++ ·) ?_
    by_cases hv : v = w
    · rw [if_pos hv]
      simp [LogEvent.calledBy?, hv]
    · rw [if_neg hv]
      simp [LogEvent.calledBy?, Ne.symm hv]

/-- What thread 0 and then thread 1 log as a first message. -/
def exampleLog : List (LogEntry Nat) :=
  [{ caller := 0, call := { level := ascii "INFO", message := ascii "Handling" }, now := 5 },
    { caller := 1, call := { level := ascii "INFO", message := ascii "Handling" }, now := 7 }]

/-- The seconds of the first minute of 2026. -/
def exampleLocaltime (now : Int) : Tm :=
  { tmYear := 126, tmMon := 0, tmMday := 1, tmHour := 0, tmMin := 0, tmSec := now.toNat }

theorem exists_exampleLog :
    ∃ (events : List (LogEvent Nat)) (s : LoggerState Nat),
      Trace (LoggerStart []) (LoggerStep exampleLocaltime) events s ∧ s.lock = none ∧
        logEntries events = exampleLog := by
  obtain ⟨s, hs⟩ : ∃ s : LoggerState Nat, LoggerStart [] s := ⟨_, exampleLocaltime 0, rfl⟩
  have hstart : s.lock = none ∧ ∀ w, s.point w = .outside := by
    obtain ⟨tm, hs⟩ := hs
    obtain rfl := Option.some.inj hs
    exact ⟨rfl, fun _ => rfl⟩
  have h₀ : Trace (LoggerStart []) (LoggerStep exampleLocaltime) [] s := Trace.start hs
  obtain ⟨events₁, s₁, h₁, hfree₁, hpoint₁, hentries₁, -⟩ := exists_logged h₀ hstart.1 (hstart.2 0)
    { level := ascii "INFO", message := ascii "Handling" } 5
  obtain ⟨events₂, s₂, h₂, hfree₂, -, hentries₂, -⟩ := exists_logged h₁ hfree₁
    ((hpoint₁ 1).trans (hstart.2 1)) { level := ascii "INFO", message := ascii "Handling" } 7
  refine ⟨events₂, s₂, h₂, hfree₂, ?_⟩
  rw [hentries₂, hentries₁]
  rfl

theorem log_is_lines_two :
    ∃ (events : List (LogEvent Nat)) (s : LoggerState Nat),
      Trace (LoggerStart []) (LoggerStep exampleLocaltime) events s ∧
        s.logFile = exampleLog.flatMap (LogEntry.line exampleLocaltime) := by
  obtain ⟨events, s, htrace, hfree, hentries⟩ := exists_exampleLog
  obtain ⟨⟨rest, hlines, hnone⟩, -⟩ := log_is_lines exampleLocaltime [] events s htrace
  rw [hnone hfree, List.append_nil, List.nil_append, hentries] at hlines
  exact ⟨events, s, htrace, hlines⟩

end DnsServer
