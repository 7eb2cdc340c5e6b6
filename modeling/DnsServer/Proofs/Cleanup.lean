/-
What the workers still use when `main` destroys it.

The trie and the cache are freed after `destroyThreadPool`, which has joined every
worker by then, so nobody is left to use them.  The logger is destroyed before the
workers are even stopped.  It is not used again in the runs in which every worker
is past its last message when that happens, and none fetches another task.
-/
import DnsServer.Code.Cleanup
import DnsServer.Proofs.Shutdown
import Mathlib.Logic.Relation

namespace DnsServer

open Call Runs Relation

variable {φ α : Type} {n : Nat} {s s' : CleanupState φ α n} {event : CleanupEvent φ α n}
  {events : List (CleanupEvent φ α n)}

/-! ### Points of the handler -/

/-- No message is still to come. -/
def LogsNoMore (p : HandlePoint) : Prop :=
  ∀ p', ReflTransGen (fun a b => b ∈ a.next) p p' → Shared.logger ∉ p'.uses

theorem LogsNoMore.uses {p : HandlePoint} (h : LogsNoMore p) : Shared.logger ∉ p.uses :=
  h p ReflTransGen.refl

theorem LogsNoMore.next {p q : HandlePoint} (h : LogsNoMore p) (hq : q ∈ p.next) : LogsNoMore q :=
  fun p' hp' => h p' (ReflTransGen.head hq hp')

theorem LogsNoMore.of_next {p : HandlePoint} (huses : Shared.logger ∉ p.uses)
    (hnext : ∀ q ∈ p.next, LogsNoMore q) : LogsNoMore p := by
  intro p' hp'
  rcases ReflTransGen.cases_head hp' with rfl | ⟨q, hq, hrest⟩
  · exact huses
  · exact hnext q hq p' hrest

/-- Once the trie is being drawn, the handler has said its last. -/
theorem logsNoMore_drawing : LogsNoMore .drawing := by
  have hreturned : LogsNoMore .returned :=
    LogsNoMore.of_next (by decide) (by simp [HandlePoint.next])
  have hreply : LogsNoMore .trieReply := LogsNoMore.of_next (by decide) fun q hq => by
    rw [List.mem_singleton.mp hq]
    exact hreturned
  exact LogsNoMore.of_next (by decide) fun q hq => by
    rw [List.mem_singleton.mp hq]
    exact hreply

/-! ### Who is executing -/

/-- Only a worker that has just fetched a task comes to be executing. -/
theorem poolStep_executing {t t' : PoolState φ α n} {event : PoolEvent φ α n}
    (h : PoolStep t event t') {w : Fin n} {task : ThreadPoolTask φ α}
    (hw : t'.workers w = .executing task) :
    t.workers w = .executing task ∨ event = .fetched w task := by
  have other : ∀ {j : Fin n} {state : WorkerState φ α}, state ≠ .executing task →
      Function.update t.workers j state w = .executing task →
      t.workers w = .executing task := by
    intro j state hstate hupdate
    by_cases hwj : w = j
    · rw [hwj, Function.update_self] at hupdate
      exact absurd hupdate hstate
    · rwa [Function.update_of_ne hwj] at hupdate
  cases h with
  | added _ hsignal =>
      cases hsignal with
      | one i hi => exact Or.inl (other (by simp) hw)
      | nobody _ => exact Or.inl hw
  | refused => exact Or.inl hw
  | @fetched i task' _ _ _ =>
      by_cases hwi : w = i
      · subst hwi
        have hself := Function.update_self w (WorkerState.executing task') t.workers
        have heq := hself.symm.trans hw
        rw [WorkerState.executing.injEq] at heq
        exact Or.inr (by rw [heq])
      · have hsame := Function.update_of_ne hwi (WorkerState.executing task') t.workers
        exact Or.inl (hsame.symm.trans hw)
  | slept => exact Or.inl (other (by simp) hw)
  | exited => exact Or.inl (other (by simp) hw)
  | finished => exact Or.inl (other (by simp) hw)
  | woke => exact Or.inl (other (by simp) hw)
  | stopped =>
      refine Or.inl ?_
      have hbroadcast : broadcast t.workers w = .executing task := hw
      unfold broadcast at hbroadcast
      cases hstate : t.workers w with
      | awake => rw [hstate] at hbroadcast; exact hbroadcast
      | executing task' => rw [hstate] at hbroadcast; exact hbroadcast
      | asleep => rw [hstate] at hbroadcast; cases hbroadcast
      | exited => rw [hstate] at hbroadcast; exact hbroadcast

theorem shutdownStep_executing {t t' : ShutdownState φ α n} {event : ShutdownEvent φ α n}
    (h : ShutdownStep t event t') {w : Fin n} {task : ThreadPoolTask φ α}
    (hw : t'.state.workers w = .executing task) :
    t.state.workers w = .executing task ∨ event = .pool (.fetched w task) := by
  cases h with
  | pool _ _ hstep =>
      rcases poolStep_executing hstep hw with hbefore | rfl
      · exact Or.inl hbefore
      · exact Or.inr rfl
  | stop _ hstep =>
      rcases poolStep_executing hstep hw with hbefore | hfetched
      · exact Or.inl hbefore
      · cases hfetched
  | join => exact Or.inl hw
  | joinUnwritten => exact Or.inl hw

/-! ### After the join -/

/-- The trie and the cache are freed once the workers have been joined. -/
structure FreedLate (s : CleanupState φ α n) : Prop where
  join : JoinInv s.pool
  freed : s.main = .trieFreed ∨ s.main = .cacheFreed → s.pool.destroyer = .joining maxThreads

theorem FreedLate.step (h : FreedLate s) (hstep : CleanupStep s event s') : FreedLate s' := by
  cases hstep with
  | @pool event pool hallowed hstep =>
      refine ⟨joinInv_step h.join hstep, ?_⟩
      intro hfreed
      have hat := h.freed hfreed
      -- after the last join the pool is gone, and nothing is left for it to do
      cases hstep with
      | pool hthere => exact absurd hat hthere
      | stop hcall => rw [hat] at hcall; cases hcall
      | @join i _ hi =>
          rw [hat, Destroyer.joining.injEq] at hi
          exact absurd hi (Nat.ne_of_gt i.isLt)
      | @joinUnwritten i hi =>
          rw [hat, Destroyer.joining.injEq] at hi
          exact absurd hi (Nat.ne_of_gt i.isLt)
  | used => exact h
  | moved => exact ⟨h.join, h.freed⟩
  | destroyedLogger =>
      refine ⟨h.join, fun hfreed => ?_⟩
      rcases hfreed with hfreed | hfreed
      · cases hfreed
      · cases hfreed
  | freedTrie hmain hjoined => exact ⟨h.join, fun _ => hjoined⟩
  | freedCache hmain => exact ⟨h.join, fun _ => h.freed (Or.inl hmain)⟩

theorem freedLate_trace (h : Trace CleanupStart CleanupStep events s) : FreedLate s := by
  induction h with
  | start hs =>
      refine ⟨joinInv_start hs.pool, fun hfreed => ?_⟩
      rw [hs.main] at hfreed
      rcases hfreed with hfreed | hfreed
      · cases hfreed
      · cases hfreed
  | step _ hstep ih => exact ih.step hstep

/-- Once anything but the logger is destroyed, nobody is executing. -/
theorem FreedLate.not_executing (h : FreedLate s)
    (hfreed : s.main = .trieFreed ∨ s.main = .cacheFreed) (w : Fin n) : ¬ s.Executing w := by
  intro hbusy
  obtain ⟨task, htask⟩ := hbusy
  have hexited := h.join.exited _ (h.freed hfreed) w (Nat.lt_of_lt_of_le w.isLt h.join.fits)
  rw [hexited] at htask
  cases htask

/-- **The trie and the cache outlive the workers**, in every run. -/
theorem trie_and_cache_outlive (h : Trace CleanupStart CleanupStep events s) {w : Fin n}
    {r : Shared} (hstep : CleanupStep s (.used w r) s') (hr : r ≠ .logger) :
    r ∉ s.main.destroyed := by
  intro hdestroyed
  cases hstep with
  | used hbusy _ =>
      refine (freedLate_trace h).not_executing ?_ w hbusy
      cases hmain : s.main with
      | serving => rw [hmain] at hdestroyed; exact absurd hdestroyed List.not_mem_nil
      | loggerDestroyed =>
          rw [hmain] at hdestroyed
          exact absurd (List.mem_singleton.mp hdestroyed) hr
      | trieFreed => exact Or.inl rfl
      | cacheFreed => exact Or.inr rfl

/-! ### The logger -/

/-- The logger is destroyed while no message is to come, and no task is fetched after that. -/
def LoggerQuiet (s : CleanupState φ α n) : CleanupEvent φ α n → Prop
  | .destroyedLogger => ∀ w, s.Executing w → LogsNoMore (s.point w)
  | .pool (.pool (.fetched _ _)) => s.main = .serving
  | _ => True

/-- Once the logger is destroyed, nobody has a message to come. -/
def Quiet (s : CleanupState φ α n) : Prop :=
  s.main ≠ .serving → ∀ w, s.Executing w → LogsNoMore (s.point w)

theorem quiet_step (h : Quiet s) (hstep : CleanupStep s event s') (hquiet : LoggerQuiet s event) :
    Quiet s' := by
  cases hstep with
  | @pool event pool hallowed hstep =>
      intro hmain w hbusy
      obtain ⟨task, htask⟩ := hbusy
      have hnotFetched : ∀ w' task', event ≠ .pool (.fetched w' task') := by
        intro w' task' heq
        rw [heq] at hquiet
        exact hmain hquiet
      have hpoint : pointsAfter s.point event w = s.point w := by
        unfold pointsAfter
        split
        · exact absurd rfl (hnotFetched _ _)
        · rfl
      rcases shutdownStep_executing hstep htask with hbefore | hfetched
      · show LogsNoMore (pointsAfter s.point event w)
        rw [hpoint]
        exact h hmain w ⟨task, hbefore⟩
      · exact absurd hfetched (hnotFetched w task)
  | used => exact h
  | @moved w p hbusy hnext =>
      intro hmain w' hbusy'
      by_cases hw : w' = w
      · subst hw
        show LogsNoMore (Function.update s.point w' p w')
        rw [Function.update_self]
        exact (h hmain w' hbusy').next hnext
      · show LogsNoMore (Function.update s.point w p w')
        rw [Function.update_of_ne hw]
        exact h hmain w' hbusy'
  | destroyedLogger => exact fun _ => hquiet
  | freedTrie hmain => exact fun _ => h (by rw [hmain]; simp)
  | freedCache hmain => exact fun _ => h (by rw [hmain]; simp)

theorem quiet_trace (h : Trace CleanupStart (Guarded CleanupStep LoggerQuiet) events s) :
    Quiet s := by
  induction h with
  | start hs => exact fun hmain => absurd hs.main hmain
  | step _ hstep ih => exact quiet_step ih hstep.1 hstep.2

/--
**Nothing destroyed is used** in the runs in which the logger is destroyed while no
worker has a message to come, and no task is fetched after that: whatever a worker
uses next, `main` has not destroyed it.
-/
theorem cleanup_is_safe (events : List (CleanupEvent φ α n)) (s s' : CleanupState φ α n)
    (h : Trace CleanupStart (Guarded CleanupStep LoggerQuiet) events s) (w : Fin n) (r : Shared)
    (hstep : CleanupStep s (.used w r) s') : r ∉ s.main.destroyed := by
  by_cases hr : r = .logger
  · subst hr
    cases hstep with
    | used hbusy huses =>
        intro hdestroyed
        have hmain : s.main ≠ .serving := by
          intro hserving
          rw [hserving] at hdestroyed
          exact absurd hdestroyed List.not_mem_nil
        exact (quiet_trace h hmain w hbusy).uses huses
  · exact trie_and_cache_outlive h.of_guarded hstep hr

/-! ### A worker in the middle of a request -/

/-- The server of `main`, with its five workers, before any client. -/
theorem exists_cleanupStart : ∃ s : CleanupState Nat Nat 5, CleanupStart s := by
  obtain ⟨pool, hpool⟩ : ∃ pool : ShutdownState Nat Nat 5, ShutdownStart pool :=
    exists_start (by decide)
  exact ⟨{ pool, point := fun _ => .returned, main := .serving }, hpool, rfl⟩

/-- A task is added to a pool just made, and worker 0 fetches it. -/
theorem exists_fetched {t : ShutdownState Nat Nat 5} (h : ShutdownStart t) :
    ∃ task t₁ t₂, ShutdownStep t (.pool (.added task)) t₁ ∧
      ShutdownStep t₁ (.pool (.fetched 0 task)) t₂ ∧
      t₂.state.workers = Function.update t.state.workers 0 (.executing task) := by
  have hstart := h.poolStart
  have hqueue : QueueAt t.state.pool 0 [] :=
    ⟨Nat.zero_le _, hstart.size, hstart.front, by decide, hstart.rear, rfl⟩
  obtain ⟨pool, hadd, hqueue', hstop⟩ := addTask_room hqueue (by decide) 1 2
  obtain ⟨pool', hturn, -⟩ := threadWorkerTurn_execute hqueue' (hstop.trans hstart.stop)
  have hsignal : Signals t.state.workers t.state.workers := Signals.nobody fun i => by
    rw [hstart.workers i]
    simp
  have hthere : t.destroyer ≠ .joining maxThreads := by
    rw [h.destroyer]
    simp
  have hadded : ShutdownStep t (.pool (.added ⟨1, 2⟩)) _ :=
    ShutdownStep.pool hthere (by simp) (PoolStep.added hadd hsignal)
  have hfetched : ShutdownStep { t with state := { pool, workers := t.state.workers } }
      (.pool (.fetched 0 ⟨1, 2⟩)) _ :=
    ShutdownStep.pool hthere (by simp) (PoolStep.fetched (hstart.workers 0) hturn)
  exact ⟨⟨1, 2⟩, _, _, hadded, hfetched, rfl⟩

/-- A client is accepted, and worker 0 has fetched its task. -/
theorem exists_handling : ∃ (events : List (CleanupEvent Nat Nat 5)) (s : CleanupState Nat Nat 5),
    Trace CleanupStart (Guarded CleanupStep LoggerQuiet) events s ∧ s.main = .serving ∧
      (∀ w, s.Executing w ↔ w = 0) ∧ s.point 0 = .handling := by
  obtain ⟨s, hs⟩ := exists_cleanupStart
  obtain ⟨task, t₁, t₂, hadded, hfetched, hworkers⟩ := exists_fetched hs.pool
  have h₀ : Trace CleanupStart (Guarded CleanupStep LoggerQuiet) [] s := Trace.start hs
  have hadd : CleanupStep s (.pool (.pool (.added task))) { s with pool := t₁ } :=
    CleanupStep.pool (show Allowed s (.pool (.added task)) from hs.main) hadded
  have hfetch : CleanupStep { s with pool := t₁ } (.pool (.pool (.fetched 0 task)))
      { s with pool := t₂, point := Function.update s.point 0 .handling } :=
    CleanupStep.pool (show Allowed { s with pool := t₁ } (.pool (.fetched 0 task)) from trivial)
      hfetched
  have h₁ := Trace.step h₀ ⟨hadd, trivial⟩
  have h₂ := Trace.step h₁ ⟨hfetch, hs.main⟩
  have hpoint : Function.update s.point 0 HandlePoint.handling 0 = .handling :=
    Function.update_self _ _ _
  refine ⟨_, _, h₂, hs.main, ?_, hpoint⟩
  intro w
  unfold CleanupState.Executing
  show (∃ task', t₂.state.workers w = .executing task') ↔ w = 0
  rw [hworkers]
  refine ⟨?_, ?_⟩
  · intro hbusy
    obtain ⟨task', htask'⟩ := hbusy
    by_contra hw
    rw [Function.update_of_ne hw, hs.pool.workers w] at htask'
    cases htask'
  · intro hw
    exact ⟨task, by rw [hw, Function.update_self]⟩

/-- The worker goes on from one point to another while `main` waits for clients. -/
theorem trace_follows {s : CleanupState φ α n} {events : List (CleanupEvent φ α n)}
    (h : Trace CleanupStart (Guarded CleanupStep LoggerQuiet) events s) {w : Fin n}
    (hbusy : s.Executing w) {p : HandlePoint}
    (hpath : ReflTransGen (fun a b : HandlePoint => b ∈ a.next) (s.point w) p) :
    ∃ events' s', Trace CleanupStart (Guarded CleanupStep LoggerQuiet) events' s' ∧
      s'.main = s.main ∧ s'.pool = s.pool ∧ s'.point w = p := by
  induction hpath with
  | refl => exact ⟨events, s, h, rfl, rfl, rfl⟩
  | @tail q r _ hqr ih =>
      obtain ⟨events', s', htrace, hmain, hpool, hq⟩ := ih
      have hbusy' : s'.Executing w := by
        obtain ⟨task, htask⟩ := hbusy
        exact ⟨task, by rw [hpool, htask]⟩
      have hnext : r ∈ (s'.point w).next := by rwa [hq]
      have hmoved : Guarded CleanupStep LoggerQuiet s' (.moved w r) _ :=
        ⟨CleanupStep.moved hbusy' hnext, trivial⟩
      exact ⟨_, _, Trace.step htrace hmoved, hmain, hpool, Function.update_self _ _ _⟩

/-- The only worker at work is drawing the trie when the logger is destroyed. -/
theorem cleanup_is_safe_drawing :
    ∃ (events : List (CleanupEvent Nat Nat 5)) (s s' : CleanupState Nat Nat 5),
      Trace CleanupStart (Guarded CleanupStep LoggerQuiet) events s ∧
      CleanupStep s (.used 0 .trie) s' ∧ s.main.destroyed = [.logger] ∧
      Shared.trie ∉ s.main.destroyed := by
  obtain ⟨events, s, htrace, hmain, hbusy, hpoint⟩ := exists_handling
  have hpath : ReflTransGen (fun a b : HandlePoint => b ∈ a.next) (s.point 0) .drawing := by
    rw [hpoint]
    have h₁ : ReflTransGen (fun a b : HandlePoint => b ∈ a.next) .handling .reading :=
      ReflTransGen.single (by decide)
    have h₂ := h₁.tail (show HandlePoint.received ∈ HandlePoint.next .reading by decide)
    have h₃ := h₂.tail (show HandlePoint.trieRequested ∈ HandlePoint.next .received by decide)
    exact h₃.tail (by decide)
  obtain ⟨events', s', htrace', hmain', hpool, hdrawing⟩ :=
    trace_follows htrace ((hbusy 0).mpr rfl) hpath
  have hbusy' : ∀ w, s'.Executing w ↔ w = 0 := by
    intro w
    rw [← hbusy w]
    unfold CleanupState.Executing
    rw [hpool]
  have hquiet : LoggerQuiet s' .destroyedLogger := by
    intro w hw
    rw [(hbusy' w).mp hw, hdrawing]
    exact logsNoMore_drawing
  have hdestroyed := Trace.step htrace'
    ⟨CleanupStep.destroyedLogger (hmain'.trans hmain), hquiet⟩
  have huses : CleanupStep { s' with main := .loggerDestroyed } (.used 0 .trie) _ :=
    CleanupStep.used ((hbusy' 0).mpr rfl) (by rw [hdrawing]; decide)
  exact ⟨_, _, _, hdestroyed, huses, rfl, cleanup_is_safe _ _ _ hdestroyed 0 .trie huses⟩

/-- A worker has just fetched its task when the logger is destroyed, and logs that it handles
it. -/
theorem logger_used_after_destroy :
    ∃ (events : List (CleanupEvent Nat Nat 5)) (s s' : CleanupState Nat Nat 5),
      Trace CleanupStart CleanupStep events s ∧ CleanupStep s (.used 0 .logger) s' ∧
      Shared.logger ∈ s.main.destroyed := by
  obtain ⟨events, s, htrace, hmain, hbusy, hpoint⟩ := exists_handling
  have hdestroyed := Trace.step htrace.of_guarded (CleanupStep.destroyedLogger hmain)
  have huses : CleanupStep { s with main := .loggerDestroyed } (.used 0 .logger) _ :=
    CleanupStep.used ((hbusy 0).mpr rfl) (by rw [hpoint]; decide)
  exact ⟨_, _, _, hdestroyed, huses, List.mem_singleton.mpr rfl⟩

end DnsServer
