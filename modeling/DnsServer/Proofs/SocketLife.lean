/-
The module's socket, over any sequence of its calls.

Whatever the calls, `g_sockfd` is -1 or open and nothing is closed that is not open.
What can go wrong is a query made while the persistent socket is there: it resets
`g_sockfd` to -1 when it leaves, and then nothing names the persistent socket any more,
which stays open for good.
-/
import DnsServer.Code.SocketLife
import DnsServer.Lib.Runs
import Mathlib.Tactic.Common

namespace DnsServer

open Call Runs

variable {ε : Type} {s s' : Descriptors} {call : ModuleCall ε} {calls : List (ModuleCall ε)}

/-! ### What one call does -/

theorem Descriptors.close_open {fd : Int} (hopen : fd ∈ s.opened) :
    s.close fd = { s with opened := s.opened.erase fd } := by
  unfold Descriptors.close
  rw [if_pos hopen]

/-- A descriptor just opened is closed again. -/
theorem Descriptors.close_socket {fd : Nat} (hfresh : (fd : Int) ∉ s.opened) :
    (s.socket fd).close fd = s := by
  have hopen : (fd : Int) ∈ (s.socket fd).opened := Finset.mem_insert_self _ _
  have hrest : (s.socket fd).opened.erase fd = s.opened := Finset.erase_insert hfresh
  rw [Descriptors.close_open hopen, hrest]
  rfl

/-- So is one that was put into `g_sockfd`, which is then reset. -/
theorem Descriptors.close_assign {fd : Nat} (hfresh : (fd : Int) ∉ s.opened) :
    (((s.socket fd).assign fd).close fd).assign (-1) = s.assign (-1) := by
  have hclose : ((s.socket fd).assign fd).close fd = ((s.socket fd).close fd).assign fd := by
    have hopen : (fd : Int) ∈ (s.socket fd).opened := Finset.mem_insert_self _ _
    have hopen' : (fd : Int) ∈ ((s.socket fd).assign fd).opened := hopen
    rw [Descriptors.close_open hopen, Descriptors.close_open hopen']
    rfl
  rw [hclose, Descriptors.close_socket hfresh]
  rfl

/-- The call comes to assign `g_sockfd`: its socket is made, bound and named. -/
def QueryCallEnv.Assigns (env : QueryCallEnv ε) : Prop :=
  env.socket ≠ none ∧ env.bind = true ∧ env.getsockname = true

instance (env : QueryCallEnv ε) : Decidable env.Assigns :=
  inferInstanceAs (Decidable (_ ∧ _ ∧ _))

/-- What the call is to a query that is only asked for its result. -/
def QueryCallEnv.queryEnv (env : QueryCallEnv ε) : QueryEnv ε where
  querySocket := if env.Assigns then env.socket else none
  al := env.al
  rand := env.rand
  serverAddr := env.serverAddr
  sends := env.sends
  startTime := env.startTime
  rounds := env.rounds

/-- **A query and its sockets**: the result is that of the query alone, nothing is left open
that was not, and `g_sockfd` is reset if it was assigned. -/
theorem dnsQueryDomainSockets_eq (fuel : Nat) (domainName : Bytes) {env : QueryCallEnv ε}
    (hfresh : ∀ fd, env.socket = some fd → (fd : Int) ∉ s.opened) :
    dnsQueryDomainSockets fuel domainName env s = do
      let result ← dnsQueryDomain fuel domainName env.queryEnv
      return (if env.Assigns then s.assign (-1) else s, result) := by
  unfold dnsQueryDomainSockets dnsQueryDomain QueryCallEnv.queryEnv
  cases hsocket : env.socket with
  | none =>
      have hnot : ¬ env.Assigns := fun h => h.1 hsocket
      simp [hnot]
  | some fd =>
      have hclose := Descriptors.close_socket (hfresh fd hsocket)
      have hreset := Descriptors.close_assign (hfresh fd hsocket)
      have hnamed : ((s.socket fd).assign fd).gSockfd = fd := rfl
      by_cases hbind : env.bind = false
      · have hnot : ¬ env.Assigns := fun h => by simp [h.2.1] at hbind
        simp [hnot, hbind, hclose]
      by_cases hname : env.getsockname = false
      · have hnot : ¬ env.Assigns := fun h => by simp [h.2.2] at hname
        simp [hnot, hbind, hname, hclose]
      have hassigns : env.Assigns := ⟨by simp [hsocket], by simpa using hbind, by simpa using hname⟩
      simp only [hassigns, hbind, hname, if_true, hreset, hnamed]
      cases dnsCreateQueryPacket env.al env.rand domainName with
      | none => rfl
      | some queryPkt =>
          dsimp only
          cases dnsSendPacket (fd : Int) env.serverAddr queryPkt with
          | none => rfl
          | some sent =>
              cases env.sends with
              | false => rfl
              | true => rfl

theorem query_cases {domainName : Bytes} {env : QueryCallEnv ε}
    (h : ModuleStep s (.query domainName env) s') :
    s' = if env.Assigns then s.assign (-1) else s := by
  cases h with
  | query hfresh hreturns =>
      obtain ⟨enough, hall⟩ := hreturns
      have hdone : dnsQueryDomainSockets enough domainName env s = _ := hall enough (Nat.le_refl _)
      rw [dnsQueryDomainSockets_eq enough domainName hfresh] at hdone
      obtain ⟨result, -, hpair⟩ := bind_eq_done.mp hdone
      rw [pure_eq, Call.done.injEq, Prod.mk.injEq] at hpair
      exact hpair.1.symm

theorem init_cases {env : InitEnv} (h : ModuleStep s (ModuleCall.init env : ModuleCall ε) s') :
    s' = s ∨ s.gSockfd = -1 ∧ ∃ fd : Nat, (fd : Int) ∉ s.opened ∧ s' = (s.socket fd).assign fd := by
  cases h with
  | init hfresh =>
      unfold dnsInitSocket
      by_cases hg : s.gSockfd = -1
      · rw [if_neg (by simpa using hg)]
        have hreset : s.assign (-1) = s := by
          unfold Descriptors.assign
          rw [← hg]
        cases hsocket : env.socket with
        | none => exact Or.inl hreset
        | some fd =>
            have hfresh := hfresh fd hsocket
            have hclosed : ((((s.socket fd).assign fd).close
                ((s.socket fd).assign fd).gSockfd).assign (-1)) = s :=
              (Descriptors.close_assign hfresh).trans hreset
            by_cases hopt : env.setsockopt = false
            · refine Or.inl ?_
              simp only [hopt, if_true]
              exact hclosed
            · by_cases hbind : env.bind = false
              · refine Or.inl ?_
                simp only [hopt, hbind, if_true]
                exact hclosed
              · refine Or.inr ⟨hg, fd, hfresh, ?_⟩
                simp [hopt, hbind]
      · rw [if_pos hg]
        exact Or.inl rfl

theorem cleanup_cases (h : ModuleStep s (.cleanup : ModuleCall ε) s') :
    s.gSockfd = -1 ∧ s' = s ∨ s.gSockfd ≠ -1 ∧ s' = (s.close s.gSockfd).assign (-1) := by
  cases h with
  | cleanup =>
      unfold dnsCleanupSocket
      by_cases hg : s.gSockfd = -1
      · rw [if_neg (by simpa using hg)]
        exact Or.inl ⟨hg, rfl⟩
      · rw [if_pos hg]
        exact Or.inr ⟨hg, rfl⟩

/-! ### What no call breaks -/

/-- `g_sockfd` is -1 or open, and nothing was closed that was not open. -/
structure Usable (s : Descriptors) : Prop where
  gSockfd : s.gSockfd = -1 ∨ s.gSockfd ∈ s.opened
  missed : s.missed = []
  nonneg : ∀ fd ∈ s.opened, 0 ≤ fd

theorem usable_start (h : ModuleStart s) : Usable s := by
  rw [h]
  exact ⟨Or.inl rfl, rfl, fun fd hfd => absurd hfd (Finset.notMem_empty fd)⟩

theorem Usable.step (h : Usable s) (hstep : ModuleStep s call s') : Usable s' := by
  cases call with
  | init env =>
      rcases init_cases hstep with rfl | ⟨-, fd, -, rfl⟩
      · exact h
      · refine ⟨Or.inr (Finset.mem_insert_self _ _), h.missed, ?_⟩
        intro fd' hfd'
        rcases Finset.mem_insert.mp hfd' with rfl | hbefore
        · exact Int.natCast_nonneg fd
        · exact h.nonneg fd' hbefore
  | query domainName env =>
      rw [query_cases hstep]
      by_cases hassigns : env.Assigns
      · rw [if_pos hassigns]
        exact ⟨Or.inl rfl, h.missed, h.nonneg⟩
      · rw [if_neg hassigns]
        exact h
  | cleanup =>
      rcases cleanup_cases hstep with ⟨-, rfl⟩ | ⟨hg, rfl⟩
      · exact h
      · rw [Descriptors.close_open (h.gSockfd.resolve_left hg)]
        exact ⟨Or.inl rfl, h.missed, fun fd hfd => h.nonneg fd (Finset.mem_of_mem_erase hfd)⟩

/-- **Every run**: `g_sockfd` is -1 or open, and nothing is closed twice. -/
theorem usable_trace (h : Trace ModuleStart ModuleStep calls s) : Usable s := by
  induction h with
  | start hs => exact usable_start hs
  | step _ hstep ih => exact ih.step hstep

/-! ### The persistent socket -/

/-- The module's socket is not lost: `g_sockfd` is -1 or open, nothing else is open, and
nothing was closed that was not open. -/
structure Kept (s : Descriptors) : Prop extends Usable s where
  only : ∀ fd ∈ s.opened, fd = s.gSockfd

/-- A query that comes to assign `g_sockfd` finds nothing there. -/
def NothingThere (s : Descriptors) : ModuleCall ε → Prop
  | .query _ env => env.Assigns → s.gSockfd = -1
  | _ => True

theorem kept_start (h : ModuleStart s) : Kept s := by
  refine ⟨usable_start h, ?_⟩
  rw [h]
  exact fun fd hfd => absurd hfd (Finset.notMem_empty fd)

theorem Kept.step (h : Kept s) (hstep : ModuleStep s call s') (hnothing : NothingThere s call) :
    Kept s' := by
  refine ⟨h.toUsable.step hstep, ?_⟩
  intro fd hfd
  cases call with
  | init env =>
      rcases init_cases hstep with rfl | ⟨hg, fd', -, rfl⟩
      · exact h.only fd hfd
      · rcases Finset.mem_insert.mp hfd with rfl | hbefore
        · rfl
        · -- nothing was open before
          have hminus := (h.only fd hbefore).trans hg
          have hnonneg := h.nonneg fd hbefore
          omega
  | query domainName env =>
      rw [query_cases hstep] at hfd ⊢
      by_cases hassigns : env.Assigns
      · rw [if_pos hassigns] at hfd ⊢
        exact (h.only fd hfd).trans (hnothing hassigns)
      · rw [if_neg hassigns] at hfd ⊢
        exact h.only fd hfd
  | cleanup =>
      rcases cleanup_cases hstep with ⟨-, rfl⟩ | ⟨hg, rfl⟩
      · exact h.only fd hfd
      · rw [Descriptors.close_open (h.gSockfd.resolve_left hg)] at hfd
        exact absurd (h.only fd (Finset.mem_of_mem_erase hfd)) (Finset.ne_of_mem_erase hfd)

theorem kept_trace (h : Trace ModuleStart (Guarded ModuleStep NothingThere) calls s) : Kept s := by
  induction h with
  | start hs => exact kept_start hs
  | step _ hstep ih => exact ih.step hstep.1 hstep.2

/-- Something is open that `g_sockfd` does not name. -/
def Leaked (s : Descriptors) : Prop := ∃ fd ∈ s.opened, fd ≠ s.gSockfd

/-- A query resets `g_sockfd`, and what was there stays open. -/
theorem Usable.leaked (h : Usable s) (hstep : ModuleStep s call s')
    (hthere : ¬ NothingThere s call) : Leaked s' := by
  cases call with
  | init env => exact absurd trivial hthere
  | query domainName env =>
      obtain ⟨hassigns, hg⟩ := Classical.not_imp.mp hthere
      rw [query_cases hstep, if_pos hassigns]
      exact ⟨s.gSockfd, h.gSockfd.resolve_left hg, hg⟩
  | cleanup => exact absurd trivial hthere

/-- What is leaked stays so. -/
theorem Leaked.step (h : Leaked s) (husable : Usable s) (hstep : ModuleStep s call s') :
    Leaked s' := by
  obtain ⟨fd, hfd, hne⟩ := h
  have hminus : fd ≠ -1 := by
    have hnonneg := husable.nonneg fd hfd
    omega
  cases call with
  | init env =>
      rcases init_cases hstep with rfl | ⟨-, fd', hfresh, rfl⟩
      · exact ⟨fd, hfd, hne⟩
      · refine ⟨fd, Finset.mem_insert_of_mem hfd, ?_⟩
        intro heq
        rw [heq] at hfd
        exact hfresh hfd
  | query domainName env =>
      rw [query_cases hstep]
      by_cases hassigns : env.Assigns
      · rw [if_pos hassigns]
        exact ⟨fd, hfd, hminus⟩
      · rw [if_neg hassigns]
        exact ⟨fd, hfd, hne⟩
  | cleanup =>
      rcases cleanup_cases hstep with ⟨-, rfl⟩ | ⟨hg, rfl⟩
      · exact ⟨fd, hfd, hne⟩
      · rw [Descriptors.close_open (husable.gSockfd.resolve_left hg)]
        exact ⟨fd, Finset.mem_erase.mpr ⟨hne, hfd⟩, hminus⟩

theorem guarded_or_leaked (h : Trace ModuleStart ModuleStep calls s) :
    Trace ModuleStart (Guarded ModuleStep NothingThere) calls s ∨ Usable s ∧ Leaked s := by
  refine @Trace.guarded_or _ _ ModuleStart ModuleStep NothingThere
    (fun _ s => Usable s ∧ Leaked s) ?_ ?_ calls s h
  · intro calls s call s' htrace hstep hthere
    have husable := usable_trace htrace.of_guarded
    exact ⟨husable.step hstep, husable.leaked hstep hthere⟩
  · intro calls s call s' hspoilt hstep
    exact ⟨hspoilt.1.step hstep, hspoilt.2.step hspoilt.1 hstep⟩

/-- A query leaves `g_sockfd` as it found it exactly where it found -1 or assigned nothing. -/
theorem query_restores_iff {domainName : Bytes} {env : QueryCallEnv ε}
    (hstep : ModuleStep s (.query domainName env) s') :
    s'.gSockfd = s.gSockfd ↔ NothingThere s (.query domainName env) := by
  rw [query_cases hstep]
  by_cases hassigns : env.Assigns
  · rw [if_pos hassigns]
    exact ⟨fun heq _ => heq.symm, fun hthere => (hthere hassigns).symm⟩
  · rw [if_neg hassigns]
    exact ⟨fun _ h => absurd h hassigns, fun _ => rfl⟩

/--
**The module's socket is kept** exactly in the runs in which every query that comes to
assign `g_sockfd` finds -1 there; and it is exactly these queries that leave `g_sockfd`
as they found it.
-/
theorem socket_kept_iff (calls : List (ModuleCall ε)) (s : Descriptors)
    (h : Trace ModuleStart ModuleStep calls s) :
    (Kept s ↔ Trace ModuleStart (Guarded ModuleStep NothingThere) calls s) ∧
    ∀ (domainName : Bytes) (env : QueryCallEnv ε) (s' : Descriptors),
      ModuleStep s (.query domainName env) s' →
      (s'.gSockfd = s.gSockfd ↔ NothingThere s (.query domainName env)) := by
  refine ⟨⟨?_, kept_trace⟩, fun _ _ _ => query_restores_iff⟩
  intro hkept
  rcases guarded_or_leaked h with hguarded | ⟨-, hleaked⟩
  · exact hguarded
  · obtain ⟨fd, hfd, hne⟩ := hleaked
    exact absurd (hkept.only fd hfd) hne

/-! ### A query beside the persistent socket -/

/-- Everything succeeds, and the server does not answer in five seconds. -/
def unansweredEnv (fd : Nat) : QueryCallEnv Nat where
  socket := some fd
  bind := true
  getsockname := true
  al := allocOk
  rand := 7
  serverAddr := some 0
  sends := true
  startTime := 0
  rounds := [{ now := 5, arrival := .nothing, al := allocOk, beyond := fun _ => 0,
               responsePkt := zeroPacket }]

theorem query_unanswered {fd : Nat} (hfresh : (fd : Int) ∉ s.opened) :
    ModuleStep s (.query (ascii "example.com") (unansweredEnv fd)) (s.assign (-1)) := by
  have hall : ∀ fd', (unansweredEnv fd).socket = some fd' → (fd' : Int) ∉ s.opened := by
    intro fd' heq
    cases heq
    exact hfresh
  apply ModuleStep.query hall
  refine ⟨0, fun fuel _ => ?_⟩
  show dnsQueryDomainSockets _ _ _ _ = _
  rw [dnsQueryDomainSockets_eq fuel _ hall]
  rfl

/-- The persistent socket is made, and is descriptor 3. -/
theorem init_three : Trace ModuleStart (Guarded ModuleStep NothingThere)
    [(.init ⟨some 3, true, true⟩ : ModuleCall Nat)] ⟨3, {3}, []⟩ := by
  have hinit : ModuleStep ⟨-1, ∅, []⟩ (.init ⟨some 3, true, true⟩ : ModuleCall Nat) ⟨3, {3}, []⟩ :=
    ModuleStep.init fun fd _ => Finset.notMem_empty (fd : Int)
  have hguarded : Guarded ModuleStep NothingThere _ _ _ := ⟨hinit, trivial⟩
  have hstart : Trace ModuleStart (Guarded ModuleStep NothingThere)
      ([] : List (ModuleCall Nat)) ⟨-1, ∅, []⟩ := Trace.start rfl
  exact Trace.step hstart hguarded

/-- It is closed, and a query is made then. -/
theorem socket_kept_iff_closed : ∃ calls s,
    Trace ModuleStart (ModuleStep : _ → ModuleCall Nat → _ → Prop) calls s ∧ Kept s := by
  have hcleanup : ModuleStep ⟨3, {3}, []⟩ (.cleanup : ModuleCall Nat) _ := ModuleStep.cleanup
  have h₁ := Trace.step init_three ⟨hcleanup, trivial⟩
  have hfree : ((3 : Nat) : Int) ∉ (dnsCleanupSocket ⟨3, {3}, []⟩).opened := by decide
  have hquery : Guarded ModuleStep NothingThere (dnsCleanupSocket ⟨3, {3}, []⟩)
      (.query (ascii "example.com") (unansweredEnv 3)) _ :=
    ⟨query_unanswered hfree, fun _ => rfl⟩
  have h₂ := Trace.step h₁ hquery
  exact ⟨_, _, h₂.of_guarded, (socket_kept_iff _ _ h₂.of_guarded).1.mpr h₂⟩

/-- A query beside it leaves descriptor 3 open and -1 in `g_sockfd`. -/
theorem persistent_socket_lost : ∃ calls s s',
    Trace ModuleStart (ModuleStep : _ → ModuleCall Nat → _ → Prop) calls s ∧
    ModuleStep s (.query (ascii "example.com") (unansweredEnv 4)) s' ∧
    s.gSockfd = 3 ∧ s'.gSockfd = -1 ∧ s'.opened = {3} := by
  exact ⟨_, _, _, init_three.of_guarded, query_unanswered (by decide), rfl, rfl, rfl⟩

end DnsServer
