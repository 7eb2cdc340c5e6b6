/-
Loops that may not end.

A loop is its body: a function from a state to a `Turn`, which either goes round
again in a new state or leaves with a result.  `run` executes it on a `Nat` fuel
and answers `none` while the fuel is too short, so that it computes; `Leaves` is
the same execution without the fuel, so that it can be proved about.
`leaves_iff` says they agree.

Two rules do the work above this file.  `Leaves.of_inv` carries an invariant
to the exit, and `not_ends_of_trap` shows that a loop never ends once it has
entered a set of states from which every turn goes round again within the set.

`Call` is what a whole call comes back with, for functions built from several
loops run on one fuel: still running, undefined behaviour, or done with a value.
More fuel never changes an answer, so the answer on any fuel is the answer.
-/
import Mathlib.Logic.Function.Iterate
import Mathlib.Order.Preorder.Finite

universe u v

/-- One execution of a loop's body. -/
inductive Loop.Turn (σ : Type u) (ρ : Type v)
  /-- Go round again, in the state given. -/
  | again (s : σ)
  /-- Leave the loop with a result. -/
  | leave (r : ρ)

namespace Loop

variable {σ : Type u} {ρ : Type v} {body : σ → Turn σ ρ}

/-- Run the loop for at most `fuel` turns. -/
def run (body : σ → Turn σ ρ) : Nat → σ → Option ρ
  | 0, _ => none
  | fuel + 1, s =>
      match body s with
      | .leave r => some r
      | .again s' => run body fuel s'

/-- The loop started in a state leaves with a result. -/
inductive Leaves (body : σ → Turn σ ρ) : σ → ρ → Prop
  | leave {s : σ} {r : ρ} (h : body s = .leave r) : Leaves body s r
  | again {s s' : σ} {r : ρ} (h : body s = .again s') (hrest : Leaves body s' r) :
      Leaves body s r

/-- The loop started in a state ends. -/
def Ends (body : σ → Turn σ ρ) (s : σ) : Prop := ∃ r, Leaves body s r

/-- The states a loop goes through. -/
inductive Visits (body : σ → Turn σ ρ) : σ → σ → Prop
  | start (s : σ) : Visits body s s
  | again {s t u : σ} (h : Visits body s t) (hturn : body t = .again u) : Visits body s u

/-! ### Fuel -/

theorem run_mono {fuel fuel' : Nat} (hle : fuel ≤ fuel') {s : σ} {r : ρ}
    (h : run body fuel s = some r) : run body fuel' s = some r := by
  induction fuel generalizing s fuel' with
  | zero => simp [run] at h
  | succ fuel ih =>
      obtain ⟨extra, rfl⟩ : ∃ extra, fuel' = extra + 1 := ⟨fuel' - 1, by omega⟩
      simp only [run] at h ⊢
      cases hb : body s with
      | leave r' => simpa [hb] using h
      | again s' =>
          simp only [hb] at h ⊢
          exact ih (by omega) h

theorem leaves_of_run {fuel : Nat} {s : σ} {r : ρ} (h : run body fuel s = some r) :
    Leaves body s r := by
  induction fuel generalizing s with
  | zero => simp [run] at h
  | succ fuel ih =>
      simp only [run] at h
      cases hb : body s with
      | leave r' =>
          simp only [hb, Option.some.injEq] at h
          exact h ▸ Leaves.leave hb
      | again s' =>
          simp only [hb] at h
          exact Leaves.again hb (ih h)

/-- Leaving is leaving on some fuel. -/
theorem leaves_iff {s : σ} {r : ρ} : Leaves body s r ↔ ∃ fuel, run body fuel s = some r := by
  constructor
  · intro h
    induction h with
    | leave hb => exact ⟨1, by simp [run, hb]⟩
    | again hb _ ih =>
        obtain ⟨fuel, hrun⟩ := ih
        exact ⟨fuel + 1, by simp [run, hb, hrun]⟩
  · intro h
    obtain ⟨fuel, h⟩ := h
    exact leaves_of_run h

/-! ### Invariants -/

/-- What every turn preserves, and every exit turns into `Post`, holds at the exit. -/
theorem Leaves.of_inv {Inv : σ → Prop} {Post : ρ → Prop}
    (hagain : ∀ s s', Inv s → body s = .again s' → Inv s')
    (hleave : ∀ s r, Inv s → body s = .leave r → Post r)
    {s : σ} {r : ρ} (h : Leaves body s r) (hs : Inv s) : Post r := by
  induction h with
  | leave hb => exact hleave _ _ hs hb
  | again hb _ ih => exact ih (hagain _ _ hs hb)

theorem Visits.of_inv {Inv : σ → Prop} (hagain : ∀ s s', Inv s → body s = .again s' → Inv s')
    {s t : σ} (h : Visits body s t) (hs : Inv s) : Inv t := by
  induction h with
  | start => exact hs
  | again _ hturn ih => exact hagain _ _ ih hturn

/-- A loop ends from a state exactly when it ends from every state on its way. -/
theorem ends_iff_of_visits {s t : σ} (h : Visits body s t) : Ends body s ↔ Ends body t := by
  induction h with
  | start => exact Iff.rfl
  | again _ hturn ih =>
      rw [ih]
      constructor
      · intro h
        obtain ⟨r, hr⟩ := h
        cases hr with
        | leave hb => simp [hturn] at hb
        | again hb hrest =>
            rw [hturn] at hb
            cases hb
            exact ⟨r, hrest⟩
      · intro h
        obtain ⟨r, hr⟩ := h
        exact ⟨r, Leaves.again hturn hr⟩

/-! ### Ending and not ending -/

/-- A loop that has entered a set it cannot leave never ends. -/
theorem not_ends_of_trap {Trap : σ → Prop}
    (htrap : ∀ s, Trap s → ∃ s', body s = .again s' ∧ Trap s') {s : σ} (hs : Trap s) :
    ¬ Ends body s := by
  intro h
  obtain ⟨r, hr⟩ := h
  induction hr with
  | leave hb =>
      obtain ⟨s', hb', -⟩ := htrap _ hs
      simp [hb] at hb'
  | again hb _ ih =>
      obtain ⟨s', hb', hs'⟩ := htrap _ hs
      rw [hb] at hb'
      cases hb'
      exact ih hs'

/--
A function whose values stay in a finite set runs into a ring: some iterate of
any start comes back to itself.
-/
theorem exists_ring_of_finite {α : Type u} (f : α → α) {t : Set α} (ht : t.Finite)
    (hf : ∀ a, f a ∈ t) (a : α) : ∃ k n, 0 < n ∧ f^[n] (f^[k] a) = f^[k] a := by
  obtain ⟨i, j, hij, heq⟩ := Set.Finite.exists_lt_map_eq_of_forall_mem
    (f := fun k : Nat => f^[k + 1] a)
    (fun k => by rw [Function.iterate_succ_apply']; exact hf _) ht
  refine ⟨i + 1, j - i, by omega, ?_⟩
  rw [← Function.iterate_add_apply, show j - i + (i + 1) = j + 1 by omega]
  exact heq.symm

end Loop

/-- What a call that may loop comes back with. -/
inductive Call (α : Type u)
  /-- Out of fuel: still going round a loop. -/
  | running
  /-- The call did something the language leaves undefined. -/
  | undefined
  /-- The call returned. -/
  | done (a : α)
  deriving DecidableEq, Repr

namespace Call

variable {α β : Type u}

protected def bind (x : Call α) (f : α → Call β) : Call β :=
  match x with
  | running => running
  | undefined => undefined
  | done a => f a

instance : Monad Call where
  pure := done
  bind := Call.bind

/-- A loop's run, as a call. -/
def ofRun : Option α → Call α
  | none => running
  | some a => done a

@[simp] theorem pure_eq (a : α) : (pure a : Call α) = done a := rfl
@[simp] theorem done_bind (a : α) (f : α → Call β) : (done a >>= f) = f a := rfl
@[simp] theorem running_bind (f : α → Call β) : (running >>= f) = running := rfl
@[simp] theorem undefined_bind (f : α → Call β) : (undefined >>= f) = undefined := rfl

theorem ofRun_eq_done {x : Option α} {a : α} : ofRun x = done a ↔ x = some a := by
  cases x <;> simp [ofRun]

theorem bind_eq_done {x : Call α} {f : α → Call β} {b : β} :
    (x >>= f) = done b ↔ ∃ a, x = done a ∧ f a = done b := by
  cases x <;> simp

/-- With enough fuel, and then with any more, the call answers `x`. -/
def Settles (f : Nat → Call α) (x : Call α) : Prop := ∃ enough, ∀ fuel, enough ≤ fuel → f fuel = x

/-- An answer does not change with more fuel. -/
def Mono (f : Nat → Call α) : Prop :=
  ∀ fuel fuel' x, fuel ≤ fuel' → f fuel = x → x ≠ running → f fuel' = x

theorem Settles.unique {f : Nat → Call α} {x y : Call α} (hx : Settles f x) (hy : Settles f y) :
    x = y := by
  obtain ⟨m, hm⟩ := hx
  obtain ⟨n, hn⟩ := hy
  rw [← hm (max m n) (Nat.le_max_left m n), hn (max m n) (Nat.le_max_right m n)]

theorem Settles.const_iff {x y : Call α} : Settles (fun _ => x) y ↔ x = y :=
  ⟨fun ⟨n, hn⟩ => hn n (Nat.le_refl n), fun h => ⟨0, fun _ _ => h⟩⟩

theorem Mono.settles_iff {f : Nat → Call α} (hf : Mono f) {x : Call α} (hx : x ≠ running) :
    Settles f x ↔ ∃ fuel, f fuel = x := by
  constructor
  · intro h
    obtain ⟨n, hn⟩ := h
    exact ⟨n, hn n (Nat.le_refl n)⟩
  · intro h
    obtain ⟨fuel, h⟩ := h
    exact ⟨fuel, fun fuel' hle => hf fuel fuel' x hle h hx⟩

/-- A value the call comes to on some fuel is the one it settles on. -/
theorem Mono.settles_done {f : Nat → Call α} (hf : Mono f) (fuel : Nat) {a : α}
    (h : f fuel = done a) : Settles f (done a) := (hf.settles_iff (by simp)).mpr ⟨fuel, h⟩

theorem Mono.const (x : Call α) : Mono (fun _ => x) := fun _ _ _ _ h _ => h

theorem Mono.bind {f : Nat → Call α} {g : Nat → α → Call β} (hf : Mono f)
    (hg : ∀ a, Mono (fun fuel => g fuel a)) : Mono (fun fuel => f fuel >>= g fuel) := by
  intro fuel fuel' x hle hx hne
  cases hfa : f fuel with
  | running => simp [hfa] at hx; exact absurd hx.symm hne
  | undefined =>
      have h' := hf fuel fuel' _ hle hfa (by simp)
      simpa [hfa, h'] using hx
  | done a =>
      have h' := hf fuel fuel' _ hle hfa (by simp)
      simp only [hfa, done_bind] at hx
      simp only [h', done_bind]
      exact hg a fuel fuel' x hle hx hne

theorem Mono.ofRun {σ : Type v} (body : σ → Loop.Turn σ α) (s : σ) :
    Mono (fun fuel => Call.ofRun (Loop.run body fuel s)) := by
  intro fuel fuel' x hle hx hne
  cases hr : Loop.run body fuel s with
  | none => simp [hr, Call.ofRun] at hx; exact absurd hx.symm hne
  | some a =>
      simp only [hr] at hx
      simpa [Loop.run_mono hle hr] using hx

theorem settles_ofRun_iff {σ : Type v} {body : σ → Loop.Turn σ α} {s : σ} {a : α} :
    Settles (fun fuel => Call.ofRun (Loop.run body fuel s)) (done a) ↔ Loop.Leaves body s a := by
  rw [(Mono.ofRun body s).settles_iff (by simp), Loop.leaves_iff]
  simp only [ofRun_eq_done]

/-- A sequence settles on a value when its first call does and then the rest. -/
theorem Settles.bind_iff {f : Nat → Call α} {g : Nat → α → Call β} (hf : Mono f)
    (hg : ∀ a, Mono (fun fuel => g fuel a)) {b : β} :
    Settles (fun fuel => f fuel >>= g fuel) (done b) ↔
      ∃ a, Settles f (done a) ∧ Settles (fun fuel => g fuel a) (done b) := by
  constructor
  · intro h
    obtain ⟨n, hn⟩ := h
    obtain ⟨a, hfa, hga⟩ := bind_eq_done.mp (hn n (Nat.le_refl n))
    exact ⟨a, hf.settles_done n hfa, (hg a).settles_done n hga⟩
  · intro h
    obtain ⟨a, ⟨m, hm⟩, ⟨n, hn⟩⟩ := h
    refine ⟨max m n, ?_⟩
    intro fuel hle
    simp only [hm fuel (by omega), done_bind]
    exact hn fuel (by omega)

/-- The same when the rest is only a value computed from the first call's. -/
theorem Settles.bind_done_iff {f : Nat → Call α} {g : α → β} (hf : Mono f) {b : β} :
    Settles (fun fuel => f fuel >>= fun a => done (g a)) (done b) ↔
      ∃ a, Settles f (done a) ∧ g a = b := by
  rw [Settles.bind_iff (g := fun _ a => done (g a)) hf fun a => Mono.const _]
  constructor
  · intro h
    obtain ⟨a, ha, hb⟩ := h
    exact ⟨a, ha, done.inj (Settles.const_iff.mp hb)⟩
  · intro h
    obtain ⟨a, ha, rfl⟩ := h
    exact ⟨a, ha, Settles.const_iff.mpr rfl⟩

/-- With enough fuel, the call comes back. -/
def Returns (f : Nat → Call α) : Prop := ∃ fuel, f fuel ≠ running

theorem Settles.returns {f : Nat → Call α} {x : Call α} (h : Settles f x) (hx : x ≠ running) :
    Returns f := by
  obtain ⟨n, hn⟩ := h
  exact ⟨n, by rw [hn n (Nat.le_refl n)]; exact hx⟩

/-- Whatever its fuel, the call does nothing the language leaves undefined. -/
def Defined (f : Nat → Call α) : Prop := ∀ fuel, f fuel ≠ undefined

theorem Defined.const (a : α) : Defined (fun _ => done a) := fun _ h => by simp at h

theorem Defined.ofRun {σ : Type v} (body : σ → Loop.Turn σ α) (s : σ) :
    Defined (fun fuel => Call.ofRun (Loop.run body fuel s)) := by
  intro fuel
  cases hr : Loop.run body fuel s with
  | none => simp [hr, Call.ofRun]
  | some a => simp [hr, Call.ofRun]

theorem Defined.bind {f : Nat → Call α} {g : Nat → α → Call β} (hf : Defined f)
    (hg : ∀ a, Defined (fun fuel => g fuel a)) : Defined (fun fuel => f fuel >>= g fuel) := by
  intro fuel
  cases hfx : f fuel with
  | running => simp [hfx]
  | undefined => exact absurd hfx (hf fuel)
  | done a =>
      simp only [hfx, done_bind]
      exact hg a fuel

/-- A call that comes back without doing anything undefined comes back with a value. -/
theorem Returns.settles {f : Nat → Call α} (h : Returns f) (hmono : Mono f)
    (hdefined : Defined f) : ∃ a, Settles f (done a) := by
  obtain ⟨fuel, hfuel⟩ := h
  cases hfx : f fuel with
  | running => exact absurd hfx hfuel
  | undefined => exact absurd hfx (hdefined fuel)
  | done a => exact ⟨a, hmono.settles_done fuel hfx⟩

/-- A call that, once its fuel is enough, goes on as another returns when that one does. -/
theorem Returns.of_step {f g : Nat → Call α} (hg : Mono g) (h : Returns g) {m : Nat}
    (hstep : ∀ fuel, m ≤ fuel → f (fuel + 1) = g fuel) : Returns f := by
  obtain ⟨n, hn⟩ := h
  refine ⟨max m n + 1, ?_⟩
  rw [hstep _ (Nat.le_max_left m n), hg n (max m n) _ (Nat.le_max_right m n) rfl hn]
  exact hn

theorem returns_ofRun_iff {σ : Type v} {body : σ → Loop.Turn σ α} {s : σ} :
    Returns (fun fuel => Call.ofRun (Loop.run body fuel s)) ↔ Loop.Ends body s := by
  constructor
  · intro h
    obtain ⟨fuel, h⟩ := h
    cases hr : Loop.run body fuel s with
    | none => simp [hr, Call.ofRun] at h
    | some a => exact ⟨a, Loop.leaves_of_run hr⟩
  · intro h
    obtain ⟨a, h⟩ := h
    exact (settles_ofRun_iff.mpr h).returns (by simp)

/-- A sequence returns when its first call does and then, on its value, the rest. -/
theorem Returns.bind_iff {f : Nat → Call α} {g : Nat → α → Call β} (hf : Mono f)
    (hg : ∀ a, Mono (fun fuel => g fuel a)) :
    Returns (fun fuel => f fuel >>= g fuel) ↔
      Returns f ∧ ∀ a, Settles f (done a) → Returns (fun fuel => g fuel a) := by
  constructor
  · intro h
    obtain ⟨fuel, h⟩ := h
    refine ⟨⟨fuel, fun hrun => h (by simp [hrun])⟩, fun a ⟨n, hn⟩ => ?_⟩
    -- the sequence has returned on this fuel, so its first call has, with the value it settles on
    have hfa : f fuel = done a := by
      cases hfx : f fuel with
      | running => simp [hfx] at h
      | undefined =>
          have := hf fuel (max fuel n) _ (Nat.le_max_left fuel n) hfx (by simp)
          rw [hn _ (Nat.le_max_right fuel n)] at this
          simp at this
      | done b =>
          have := hf fuel (max fuel n) _ (Nat.le_max_left fuel n) hfx (by simp)
          rw [hn _ (Nat.le_max_right fuel n)] at this
          exact this.symm
    exact ⟨fuel, by simpa [hfa] using h⟩
  · intro h
    obtain ⟨⟨n, hn⟩, hrest⟩ := h
    cases hfx : f n with
    | running => exact absurd hfx hn
    | undefined => exact ⟨n, by simp [hfx]⟩
    | done a =>
        have hsettles : Settles f (done a) := hf.settles_done n hfx
        obtain ⟨k, hk⟩ := hrest a hsettles
        refine ⟨max n k, ?_⟩
        have hfa := hf n (max n k) _ (Nat.le_max_left n k) hfx (by simp)
        simp only [hfa, done_bind]
        intro hrun
        have hmore := hg a k (max n k) _ (Nat.le_max_right n k) rfl hk
        exact hk (hmore.symm.trans hrun)

end Call
