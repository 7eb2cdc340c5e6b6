/-
Sequences of calls that may not return.

A step that may go round a loop is a call on some fuel; a run of such steps is one
after the other on the same fuel, and stops where one does not return.  `execAll` is
the run with the answers given on the way.

`execAll_simulates` carries a relation along two such runs: where every step of one
that returns is matched by a step of the other that returns with the same answer, a
run of one that returns is matched by a run of the other.  The relation may depend on
the steps made and the answers given so far.
-/
import DnsServer.Lib.Loop
import DnsServer.Lib.Runs

universe u

namespace Call

variable {α β σ τ ι ο : Type u}

instance : LawfulMonad Call := LawfulMonad.mk' _
  (fun x => by rcases x with _ | _ | _ <;> rfl)
  (fun _ _ => rfl)
  (fun x _ _ => by rcases x with _ | _ | _ <;> rfl)

/-- What comes to the same answer on any fuel. -/
theorem Settles.of_eq {f : Nat → Call α} {x : Call α} (h : ∀ fuel, f fuel = x) : Settles f x :=
  ⟨0, fun fuel _ => h fuel⟩

theorem Settles.done (a : α) : Settles (fun _ => done a) (.done a) := Settles.of_eq fun _ => rfl

/-- One call and then another, each of which comes to an answer. -/
theorem Settles.andThen {f : Nat → Call α} {g : Nat → α → Call β} {a : α} {x : Call β}
    (hf : Settles f (.done a)) (hg : Settles (fun fuel => g fuel a) x) :
    Settles (fun fuel => f fuel >>= g fuel) x := by
  obtain ⟨m, hm⟩ := hf
  obtain ⟨n, hn⟩ := hg
  refine ⟨max m n, fun fuel hle => ?_⟩
  simp only [hm fuel (by omega), done_bind]
  exact hn fuel (by omega)

/-- One call, and a value computed from what it comes to. -/
theorem Settles.map {f : Nat → Call α} {a : α} (hf : Settles f (.done a)) (g : α → β) :
    Settles (fun fuel => f fuel >>= fun a => .done (g a)) (.done (g a)) :=
  hf.andThen (g := fun _ a => .done (g a)) (Settles.done _)

/-- The same where the call only goes round so often: one turn more of fuel. -/
theorem Settles.succ {f g : Nat → Call α} {x : Call α} (hg : Settles g x)
    (hstep : ∀ fuel, f (fuel + 1) = g fuel) : Settles f x := by
  obtain ⟨n, hn⟩ := hg
  refine ⟨n + 1, fun fuel hle => ?_⟩
  obtain ⟨fuel, rfl⟩ : ∃ k, fuel = k + 1 := ⟨fuel - 1, by omega⟩
  rw [hstep]
  exact hn fuel (by omega)

/-- A run of steps: the state it comes to and the answers on the way. -/
def execAll (step : σ → ι → Call (σ × ο)) : σ → List ι → Call (σ × List ο)
  | s, [] => .done (s, [])
  | s, i :: is => do
      let (s, o) ← step s i
      let (s, os) ← execAll step s is
      return (s, o :: os)

theorem execAll_done (step : σ → ι → σ × ο) (s : σ) (is : List ι) :
    execAll (fun s i => .done (step s i)) s is = .done (Runs.exec step s is) := by
  induction is generalizing s with
  | nil => rfl
  | cons i is ih =>
      rw [execAll, done_bind]
      show (execAll _ (step s i).1 is >>= _) = _
      rw [ih]
      rfl

theorem execAll_mono {step : Nat → σ → ι → Call (σ × ο)}
    (hmono : ∀ s i, Mono fun fuel => step fuel s i) (s : σ) (is : List ι) :
    Mono fun fuel => execAll (step fuel) s is := by
  induction is generalizing s with
  | nil => exact Mono.const _
  | cons i is ih =>
      simp only [execAll]
      exact Mono.bind (hmono s i) fun r => Mono.bind (ih r.1) fun _ => Mono.const _

/-- A run that returns is a step that returns and a run that does. -/
theorem settles_execAll_cons {step : Nat → σ → ι → Call (σ × ο)}
    (hmono : ∀ s i, Mono fun fuel => step fuel s i) {s s' : σ} {i : ι} {is : List ι}
    {os : List ο} (h : Settles (fun fuel => execAll (step fuel) s (i :: is)) (.done (s', os))) :
    ∃ s₁ o os', os = o :: os' ∧ Settles (fun fuel => step fuel s i) (.done (s₁, o)) ∧
      Settles (fun fuel => execAll (step fuel) s₁ is) (.done (s', os')) := by
  simp only [execAll] at h
  have hrest : ∀ r : σ × ο, Mono fun fuel =>
      execAll (step fuel) r.1 is >>= fun rest => done (rest.1, r.2 :: rest.2) :=
    fun r => Mono.bind (execAll_mono hmono r.1 is) fun _ => Mono.const _
  obtain ⟨⟨s₁, o⟩, hfirst, hrest⟩ := (Settles.bind_iff (hmono s i) hrest).mp h
  obtain ⟨⟨s₂, os'⟩, hrun, heq⟩ :=
    (Settles.bind_done_iff (execAll_mono hmono s₁ is)).mp hrest
  rw [Prod.mk.injEq] at heq
  obtain ⟨rfl, rfl⟩ := heq
  exact ⟨s₁, o, os', rfl, hfirst, hrun⟩

/-- **A run is matched step by step**, answers and all. -/
theorem execAll_simulates {step : Nat → σ → ι → Call (σ × ο)}
    {step' : Nat → τ → ι → Call (τ × ο)} {R : List ι → List ο → σ → τ → Prop}
    (hmono : ∀ t i, Mono fun fuel => step' fuel t i)
    (hstep : ∀ is os s t i t' o, R is os s t →
      Settles (fun fuel => step' fuel t i) (.done (t', o)) →
      ∃ s', Settles (fun fuel => step fuel s i) (.done (s', o)) ∧ R (is ++ [i]) (os ++ [o]) s' t')
    {is' : List ι} : ∀ {is : List ι} {os : List ο} {s : σ} {t t' : τ} {os' : List ο},
      R is os s t → Settles (fun fuel => execAll (step' fuel) t is') (.done (t', os')) →
      ∃ s', Settles (fun fuel => execAll (step fuel) s is') (.done (s', os')) ∧
        R (is ++ is') (os ++ os') s' t' := by
  induction is' with
  | nil =>
      intro is os s t t' os' hR hrun
      have heq := done.inj (Settles.const_iff.mp hrun)
      rw [Prod.mk.injEq] at heq
      obtain ⟨rfl, rfl⟩ := heq
      exact ⟨s, Settles.done _, by simpa using hR⟩
  | cons i is' ih =>
      intro is os s t t' os' hR hrun
      obtain ⟨t₁, o, os₁, rfl, hfirst, hrest⟩ := settles_execAll_cons hmono hrun
      obtain ⟨s₁, hs₁, hR₁⟩ := hstep is os s t i t₁ o hR hfirst
      obtain ⟨s', hs', hR'⟩ := ih hR₁ hrest
      refine ⟨s', ?_, ?_⟩
      · simp only [execAll]
        refine hs₁.andThen
          (g := fun fuel r => execAll (step fuel) r.1 is' >>= fun rest =>
            done (rest.1, r.2 :: rest.2)) ?_
        exact hs'.andThen (g := fun _ rest => done (rest.1, o :: rest.2)) (Settles.done _)
      · rw [List.append_assoc, List.append_assoc] at hR'
        exact hR'

/-- What every step that returns keeps, a run that returns keeps. -/
theorem execAll_inv {step : Nat → σ → ι → Call (σ × ο)} {Inv : List ι → List ο → σ → Prop}
    (hmono : ∀ s i, Mono fun fuel => step fuel s i)
    (hstep : ∀ is os s i s' o, Inv is os s → Settles (fun fuel => step fuel s i) (.done (s', o)) →
      Inv (is ++ [i]) (os ++ [o]) s')
    {is : List ι} {s s' : σ} {os : List ο} (h : Inv [] [] s)
    (hrun : Settles (fun fuel => execAll (step fuel) s is) (.done (s', os))) : Inv is os s' := by
  obtain ⟨t, -, heq, hinv⟩ := @execAll_simulates σ σ ι ο step step
    (fun is os s t => s = t ∧ Inv is os t) hmono
    (fun is os s t i t' o hrel hsettles => by
      obtain ⟨rfl, hinv⟩ := hrel
      exact ⟨t', hsettles, rfl, hstep is os s i t' o hinv hsettles⟩)
    is [] [] s s s' os ⟨rfl, h⟩ hrun
  exact hinv

/-- The same where the run to be matched is one of steps that always return. -/
theorem execAll_matches {step : Nat → σ → ι → Call (σ × ο)} {step' : τ → ι → τ × ο}
    {R : List ο → σ → τ → Prop}
    (hstep : ∀ os s t i, R os s t →
      ∃ s', Settles (fun fuel => step fuel s i) (.done (s', (step' t i).2)) ∧
        R (os ++ [(step' t i).2]) s' (step' t i).1)
    {s : σ} {t : τ} (h : R [] s t) (is : List ι) :
    ∃ s', Settles (fun fuel => execAll (step fuel) s is) (.done (s', (Runs.exec step' t is).2)) ∧
      R (Runs.exec step' t is).2 s' (Runs.exec step' t is).1 := by
  have hrun : Settles (fun _ => execAll (fun t i => .done (step' t i)) t is)
      (.done (Runs.exec step' t is)) := Settles.of_eq fun _ => execAll_done step' t is
  refine @execAll_simulates σ τ ι ο step (fun _ t i => .done (step' t i)) (fun _ => R)
    (fun _ _ => Mono.const _) ?_ is [] [] s t _ _ h hrun
  intro _ os s t i t' o hR hreturns
  have heq := done.inj (Settles.const_iff.mp hreturns)
  have hmatch := hstep os s t i hR
  rw [heq] at hmatch
  exact hmatch

/-! ### Two calls that go alike -/

/-- Neither returns, neither is defined, or both return and their values are related. -/
inductive Like (R : α → β → Prop) : Call α → Call β → Prop
  | running : Like R .running .running
  | undefined : Like R .undefined .undefined
  | done {a : α} {b : β} (h : R a b) : Like R (.done a) (.done b)

/-- Calls that go alike, and then calls that go alike on related values. -/
theorem Like.bind {γ δ : Type u} {R : α → β → Prop} {S : γ → δ → Prop} {x : Call α} {y : Call β}
    {f : α → Call γ} {g : β → Call δ} (h : Like R x y)
    (hrest : ∀ a b, y = .done b → R a b → Like S (f a) (g b)) : Like S (x >>= f) (y >>= g) := by
  rcases h with _ | _ | hvalues
  · exact Like.running
  · exact Like.undefined
  · exact hrest _ _ rfl hvalues

/-- The same call, and then calls that go alike. -/
theorem Like.bind_same {γ δ : Type u} {S : γ → δ → Prop} (x : Call α) {f : α → Call γ}
    {g : α → Call δ} (hrest : ∀ a, Like S (f a) (g a)) : Like S (x >>= f) (x >>= g) := by
  rcases x with _ | _ | a
  · exact Like.running
  · exact Like.undefined
  · exact hrest a

theorem Like.mono {R S : α → β → Prop} {x : Call α} {y : Call β} (h : Like R x y)
    (hrel : ∀ a b, R a b → S a b) : Like S x y := by
  rcases h with _ | _ | hvalues
  · exact Like.running
  · exact Like.undefined
  · exact Like.done (hrel _ _ hvalues)

theorem Like.eq_done {R : α → β → Prop} {x : Call α} {b : β} (h : Like R x (.done b)) :
    ∃ a, x = .done a ∧ R a b := by
  cases h with
  | done hvalues => exact ⟨_, rfl, hvalues⟩

end Call
