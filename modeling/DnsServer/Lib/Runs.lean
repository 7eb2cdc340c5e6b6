/-
Runs of a system, and what holds along them.

A system that answers each input is a function from a state and an input to the
next state and the answer; `exec` folds it over a list of inputs.  A system that
may step in several ways is a relation, and `Trace` is a run of it with the labels
of its steps.

The rules are the same for both.  What one step preserves, a run preserves; and
two systems whose steps keep a relation between their states give equal answers
all along.  Everything above this file is stated about one step and carried to
every run by these.

Where a state has a part for each of several parties, a step changes one part; what
at most one party may have stays so when it is not given to a second.
-/
import Mathlib.Data.List.Induction
import Mathlib.Logic.Function.Basic

universe u v w

namespace Runs

/-! ### Systems that answer -/

section Answering

variable {σ : Type u} {τ : Type u} {ι : Type v} {ο : Type w}

/-- The state after the inputs, and the answers given on the way. -/
def exec (step : σ → ι → σ × ο) : σ → List ι → σ × List ο
  | s, [] => (s, [])
  | s, i :: is =>
      let rest := exec step (step s i).1 is
      (rest.1, (step s i).2 :: rest.2)

/-- Steps that keep a relation and give one answer make runs that do. -/
theorem exec_simulates {step : σ → ι → σ × ο} {step' : τ → ι → τ × ο} {R : σ → τ → Prop}
    (hstep : ∀ s t i, R s t → R (step s i).1 (step' t i).1 ∧ (step s i).2 = (step' t i).2)
    {s : σ} {t : τ} (hs : R s t) (is : List ι) :
    R (exec step s is).1 (exec step' t is).1 ∧ (exec step s is).2 = (exec step' t is).2 := by
  induction is generalizing s t with
  | nil => exact ⟨hs, rfl⟩
  | cons i is ih =>
      obtain ⟨hnext, hout⟩ := hstep s t i hs
      obtain ⟨hend, houts⟩ := ih hnext
      exact ⟨hend, by simp only [exec, hout, houts]⟩

theorem exec_append (step : σ → ι → σ × ο) (s : σ) (is js : List ι) :
    (exec step s (is ++ js)).1 = (exec step (exec step s is).1 js).1 := by
  induction is generalizing s with
  | nil => rfl
  | cons i is ih => exact ih (step s i).1

/-- To look at less of each answer changes nothing else. -/
theorem exec_map {ο' : Type w} (step : σ → ι → σ × ο) (f : ο → ο') (s : σ) (is : List ι) :
    exec (fun s i => ((step s i).1, f (step s i).2)) s is
      = ((exec step s is).1, (exec step s is).2.map f) := by
  induction is generalizing s with
  | nil => rfl
  | cons i is ih =>
      simp only [exec, ih]
      rfl

theorem exec_inv {step : σ → ι → σ × ο} {Inv : σ → Prop}
    (hstep : ∀ s i, Inv s → Inv (step s i).1) {s : σ} (hs : Inv s) (is : List ι) :
    Inv (exec step s is).1 := by
  induction is generalizing s with
  | nil => exact hs
  | cons i is ih => exact ih (hstep s i hs)

end Answering

/-! ### Systems that may step in several ways -/

section Transitions

variable {σ : Type u} {τ : Type u} {ℓ : Type v} {init : σ → Prop} {step : σ → ℓ → σ → Prop}

/-- A run from an initial state: the labels of its steps, in order, and where it is. -/
inductive Trace (init : σ → Prop) (step : σ → ℓ → σ → Prop) : List ℓ → σ → Prop
  | start {s : σ} (h : init s) : Trace init step [] s
  | step {ls : List ℓ} {s s' : σ} {l : ℓ} (h : Trace init step ls s) (hstep : step s l s') :
      Trace init step (ls ++ [l]) s'

/-- Some run comes to the state. -/
def Reachable (init : σ → Prop) (step : σ → ℓ → σ → Prop) (s : σ) : Prop :=
  ∃ ls, Trace init step ls s

theorem Trace.inv {Inv : List ℓ → σ → Prop} (hinit : ∀ s, init s → Inv [] s)
    (hstep : ∀ ls s l s', Inv ls s → step s l s' → Inv (ls ++ [l]) s')
    {ls : List ℓ} {s : σ} (h : Trace init step ls s) : Inv ls s := by
  induction h with
  | start h => exact hinit _ h
  | step _ hs ih => exact hstep _ _ _ _ ih hs

/-- The steps that meet a condition on the state before them and on what they do. -/
def Guarded (step : σ → ℓ → σ → Prop) (guard : σ → ℓ → Prop) : σ → ℓ → σ → Prop :=
  fun s l s' => step s l s' ∧ guard s l

theorem Trace.of_guarded {guard : σ → ℓ → Prop} {ls : List ℓ} {s : σ}
    (h : Trace init (Guarded step guard) ls s) : Trace init step ls s := by
  induction h with
  | start h => exact Trace.start h
  | step _ hs ih => exact Trace.step ih hs.1

/-- Where the first step past the guard spoils a run, and nothing mends it, a run that is
not spoilt kept to the guard all along. -/
theorem Trace.guarded_or {guard : σ → ℓ → Prop} {Spoilt : List ℓ → σ → Prop}
    (hspoil : ∀ ls s l s', Trace init (Guarded step guard) ls s → step s l s' → ¬ guard s l →
      Spoilt (ls ++ [l]) s')
    (hkeep : ∀ ls s l s', Spoilt ls s → step s l s' → Spoilt (ls ++ [l]) s')
    {ls : List ℓ} {s : σ} (h : Trace init step ls s) :
    Trace init (Guarded step guard) ls s ∨ Spoilt ls s := by
  induction h with
  | start h => exact Or.inl (Trace.start h)
  | @step ls s s' l _ hs ih =>
      rcases ih with hkept | hspoilt
      · by_cases hguard : guard s l
        · exact Or.inl (Trace.step hkept ⟨hs, hguard⟩)
        · exact Or.inr (hspoil _ _ _ _ hkept hs hguard)
      · exact Or.inr (hkeep _ _ _ _ hspoilt hs)

/-- A run ends with its last step. -/
theorem Trace.last {ls : List ℓ} {l : ℓ} {s : σ} (h : Trace init step (ls ++ [l]) s) :
    ∃ m, Trace init step ls m ∧ step m l s := by
  generalize hls : ls ++ [l] = all at h
  cases h with
  | start => exact absurd hls (by simp)
  | step h hstep =>
      obtain ⟨rfl, hl⟩ := List.append_inj' hls rfl
      rw [List.cons.injEq] at hl
      exact ⟨_, h, hl.1 ▸ hstep⟩

/-- A run is a run up to any point and one that starts there. -/
theorem Trace.split {ls ls' : List ℓ} {s : σ} (h : Trace init step (ls ++ ls') s) :
    ∃ m, Trace init step ls m ∧ Trace (· = m) step ls' s := by
  induction ls' using List.reverseRecOn generalizing s with
  | nil =>
      rw [List.append_nil] at h
      exact ⟨s, h, Trace.start rfl⟩
  | append_singleton ls' l ih =>
      rw [← List.append_assoc] at h
      obtain ⟨t, hbefore, hstep⟩ := h.last
      obtain ⟨m, hm, hrest⟩ := ih hbefore
      exact ⟨m, hm, Trace.step hrest hstep⟩

/-- A run goes on as one that starts where it is. -/
theorem Trace.append {ls ls' : List ℓ} {m s : σ} (h : Trace init step ls m)
    (hrest : Trace (· = m) step ls' s) : Trace init step (ls ++ ls') s := by
  induction hrest with
  | start hm =>
      rw [List.append_nil, hm]
      exact h
  | step _ hstep ih =>
      rw [← List.append_assoc]
      exact Trace.step ih hstep

/-- Where every step of one system is a step of another between related states, so is every
run. -/
theorem Trace.simulates {init' : τ → Prop} {step' : τ → ℓ → τ → Prop} {R : σ → τ → Prop}
    (hinit : ∀ s, init s → ∃ t, init' t ∧ R s t)
    (hstep : ∀ s t l s', R s t → step s l s' → ∃ t', step' t l t' ∧ R s' t')
    {ls : List ℓ} {s : σ} (h : Trace init step ls s) : ∃ t, Trace init' step' ls t ∧ R s t := by
  induction h with
  | start h =>
      obtain ⟨t, ht, hR⟩ := hinit _ h
      exact ⟨t, Trace.start ht, hR⟩
  | step _ hs ih =>
      obtain ⟨t, ht, hR⟩ := ih
      obtain ⟨t', hs', hR'⟩ := hstep _ t _ _ hR hs
      exact ⟨t', Trace.step ht hs', hR'⟩

/-- What holds at the start and is kept by every step holds in every state reached. -/
theorem Reachable.inv {Inv : σ → Prop} (hinit : ∀ s, init s → Inv s)
    (hstep : ∀ s l s', Inv s → step s l s' → Inv s') {s : σ} (h : Reachable init step s) :
    Inv s := by
  obtain ⟨ls, htrace⟩ := h
  exact Trace.inv hinit (fun _ s l s' hs => hstep s l s' hs) htrace

theorem Reachable.start {s : σ} (h : init s) : Reachable init step s := ⟨[], Trace.start h⟩

theorem Reachable.next {s s' : σ} {l : ℓ} (h : Reachable init step s) (hstep : step s l s') :
    Reachable init step s' := by
  obtain ⟨ls, htrace⟩ := h
  exact ⟨ls ++ [l], Trace.step htrace hstep⟩

end Transitions

/-! ### Parties -/

/-- At most one party has it after one of them changes. -/
theorem update_unique {ι : Type u} {β : Type v} [DecidableEq ι] {Has : β → Prop} {parts : ι → β}
    {k : ι} {part : β} (h : ∀ i j, Has (parts i) → Has (parts j) → i = j)
    (hnew : Has part → ∀ j, j ≠ k → ¬ Has (parts j)) (i j : ι)
    (hi : Has (Function.update parts k part i)) (hj : Has (Function.update parts k part j)) :
    i = j := by
  by_cases hik : i = k
  · by_cases hjk : j = k
    · rw [hik, hjk]
    · rw [hik, Function.update_self] at hi
      rw [Function.update_of_ne hjk] at hj
      exact absurd hj (hnew hi j hjk)
  · rw [Function.update_of_ne hik] at hi
    by_cases hjk : j = k
    · rw [hjk, Function.update_self] at hj
      exact absurd hi (hnew hj i hik)
    · rw [Function.update_of_ne hjk] at hj
      exact h i j hi hj

end Runs
