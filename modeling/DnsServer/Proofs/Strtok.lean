/-
Whether names are split one at a time.

The pointer `strtok` keeps belongs to whoever called it last.  As long as nobody
calls it while another worker's name is half split, each worker finds the pointer
in its own copy, at what is left of its own name, and the words it has and the
words still to come are always the words of its name.  That is the invariant; the
rest of a worker's phase only says which of the words it is about to take.
-/
import DnsServer.Code.Strtok
import DnsServer.Lib.Runs
import DnsServer.Proofs.Names

namespace DnsServer

open Call Runs

/-! ### One call -/

theorem stringAt_of_block {heap : Strings} {block : Nat} {pre rest : Bytes}
    (hblock : heap block = some (pre ++ (rest ++ [0]))) :
    stringAt heap { block, offset := pre.length } = some (rest ++ [0]) := by
  unfold stringAt
  simp [hblock]

/-- `strtok` where only delimiters are left. -/
theorem strtokCall_end {heap : Strings} {saved arg : Option CharPtr} {delim : Bytes} {block : Nat}
    {pre rest : Bytes} (hptr : arg.or saved = some { block, offset := pre.length })
    (hblock : heap block = some (pre ++ (rest ++ [0]))) (hdelim : (0 : UInt8) ∉ delim)
    (hrest : ∀ c ∈ rest, c ∈ delim) :
    strtokCall heap saved arg delim
      = done (none, heap, some { block, offset := pre.length + rest.length }) := by
  unfold strtokCall
  rw [hptr]
  simp only [stringAt_of_block hblock]
  have hskip : (rest ++ [0]).takeWhile (fun c => decide (c ∈ delim)) = rest := by
    rw [List.takeWhile_append_of_pos fun c hc => decide_eq_true (hrest c hc)]
    simp [hdelim]
  rw [hskip, List.drop_left]
  simp

/-- The delimiters a call skips. -/
theorem takeWhile_delims {delim seps t rest : Bytes} (hseps : ∀ c ∈ seps, c ∈ delim)
    (hne : t ≠ []) (ht : ∀ c ∈ t, c ∉ delim) :
    (seps ++ (t ++ rest)).takeWhile (fun c => decide (c ∈ delim)) = seps := by
  obtain ⟨x, t', rfl⟩ := List.exists_cons_of_ne_nil hne
  rw [List.takeWhile_append_of_pos fun c hc => decide_eq_true (hseps c hc)]
  simp [ht x List.mem_cons_self]

/-- The token it finds behind them. -/
theorem takeWhile_token {delim t ys : Bytes} (ht : ∀ c ∈ t, c ∉ delim) (hnoNul : (0 : UInt8) ∉ t)
    (hys : ys = [] ∨ ∃ sep zs, ys = sep :: zs ∧ sep ∈ delim) :
    (t ++ (ys ++ [0])).takeWhile (fun c => decide (c ≠ 0 ∧ c ∉ delim)) = t := by
  rw [List.takeWhile_append_of_pos]
  · rcases hys with rfl | ⟨sep, zs, rfl, hsep⟩
    · simp
    · simp [hsep]
  · intro c hc
    exact decide_eq_true ⟨ne_of_mem_of_not_mem hc hnoNul, ht c hc⟩

/-- `strtok` at delimiters and a token: what is left begins after the token's delimiter. -/
theorem strtokCall_token {heap : Strings} {saved arg : Option CharPtr} {delim : Bytes}
    {block : Nat} {pre seps t ys : Bytes}
    (hptr : arg.or saved = some { block, offset := pre.length })
    (hblock : heap block = some (pre ++ (seps ++ (t ++ ys) ++ [0]))) (hdelim : (0 : UInt8) ∉ delim)
    (hseps : ∀ c ∈ seps, c ∈ delim) (hne : t ≠ []) (ht : ∀ c ∈ t, c ∉ delim)
    (hnoNul : (0 : UInt8) ∉ t ++ ys) (hys : ys = [] ∨ ∃ sep zs, ys = sep :: zs ∧ sep ∈ delim) :
    ∃ heap' pre',
      strtokCall heap saved arg delim = done (some { block, offset := pre.length + seps.length },
        heap', some { block, offset := pre'.length }) ∧
      (∀ other, other ≠ block → heap' other = heap other) ∧
      heap' block = some (pre' ++ (ys.tail ++ [0])) ∧
      ∃ after, stringAt heap' { block, offset := pre.length + seps.length } = some after ∧
        cstr after = t := by
  have htNul : (0 : UInt8) ∉ t := fun h => hnoNul (List.mem_append_left _ h)
  have hskip : (seps ++ (t ++ ys) ++ [0]).takeWhile (fun c => decide (c ∈ delim)) = seps := by
    rw [List.append_assoc, List.append_assoc]
    exact takeWhile_delims hseps hne ht
  have hdrop : (seps ++ (t ++ ys) ++ [0]).drop seps.length = t ++ (ys ++ [0]) := by
    rw [List.append_assoc, List.drop_left, List.append_assoc]
  have htoken := takeWhile_token ht htNul hys
  -- the block, cut at the end of the token
  have hcut : pre ++ (seps ++ (t ++ ys) ++ [0]) = pre ++ seps ++ t ++ (ys ++ [0]) := by simp
  have hstop : (pre ++ seps ++ t).length = pre.length + seps.length + t.length := by
    rw [List.length_append, List.length_append]
  rw [hcut] at hblock
  have hstring : stringAt heap { block, offset := pre.length }
      = some (seps ++ (t ++ ys) ++ [0]) := by
    rw [← hcut] at hblock
    exact stringAt_of_block hblock
  unfold strtokCall
  rw [hptr]
  simp only [hstring, hskip, hdrop, htoken, if_neg hne, hblock, Option.bind_some, ← hstop]
  rcases hys with rfl | ⟨sep, zs, rfl, hsep⟩
  · -- the token ends the string
    refine ⟨heap, pre ++ seps ++ t, ?_, fun _ _ => rfl, hblock, t ++ [0], ?_, cstr_of_noNul htNul⟩
    · simp
    · rw [← List.length_append]
      exact stringAt_of_block (by rw [hblock]; simp)
  · have hsepNul : sep ≠ 0 := ne_of_mem_of_not_mem hsep hdelim
    have hset : (pre ++ seps ++ t ++ (sep :: zs ++ [0])).set (pre ++ seps ++ t).length 0
        = (pre ++ seps) ++ (t ++ 0 :: zs ++ [0]) := by
      simp
    refine ⟨Function.update heap block (some ((pre ++ seps) ++ (t ++ 0 :: zs ++ [0]))),
      pre ++ seps ++ t ++ [0], ?_, ?_, ?_, t ++ 0 :: zs ++ [0], ?_, ?_⟩
    · rw [← hset]
      simp [hsepNul, Nat.add_assoc]
    · intro other hother
      exact Function.update_of_ne hother _ _
    · simp
    · rw [← List.length_append]
      exact stringAt_of_block (by simp)
    · rw [List.append_assoc, List.cons_append, cstr_append htNul, cstr_nul, List.append_nil]

/-- **What one call does**: it takes the first token of what is left, if there is one, keeps the
pointer at what is left after it, and writes to no other string. -/
theorem strtokCall_spec {heap : Strings} {saved arg : Option CharPtr} {delim : Bytes} {block : Nat}
    {pre rest : Bytes} (hptr : arg.or saved = some { block, offset := pre.length })
    (hblock : heap block = some (pre ++ (rest ++ [0]))) (hdelim : (0 : UInt8) ∉ delim)
    (hnoNul : (0 : UInt8) ∉ rest) :
    ∃ token heap' pre' rest',
      strtokCall heap saved arg delim
        = done (token, heap', some { block, offset := pre'.length }) ∧
      (∀ other, other ≠ block → heap' other = heap other) ∧
      heap' block = some (pre' ++ (rest' ++ [0])) ∧ (0 : UInt8) ∉ rest' ∧
      ((token = none ∧ strtok delim rest = []) ∨
        ∃ offset after, token = some { block, offset } ∧
          stringAt heap' { block, offset } = some after ∧
          strtok delim rest = cstr after :: strtok delim rest') := by
  rw [strtok_eq_tokens]
  rcases Split.tokens_cases (fun c => decide (c ∈ delim)) rest with
    ⟨hnone, hrest⟩ | ⟨seps, t, ys, rfl, hseps, hne, ht, hys⟩
  · have hall : ∀ c ∈ rest, c ∈ delim := fun c hc => of_decide_eq_true (hrest c hc)
    refine ⟨none, heap, pre ++ rest, [], ?_, fun _ _ => rfl, ?_, List.not_mem_nil,
      Or.inl ⟨rfl, hnone⟩⟩
    · rw [strtokCall_end hptr hblock hdelim hall, List.length_append]
    · rw [hblock]
      simp
  · have hleft : (0 : UInt8) ∉ t ++ ys := fun h => hnoNul (List.mem_append_right seps h)
    have hdelims : ys = [] ∨ ∃ sep zs, ys = sep :: zs ∧ sep ∈ delim := by
      rcases hys with ⟨rfl, -⟩ | ⟨sep, zs, rfl, hsep, -⟩
      · exact Or.inl rfl
      · exact Or.inr ⟨sep, zs, rfl, of_decide_eq_true hsep⟩
    obtain ⟨heap', pre', hcall, hothers, hblock', after, hafter, htoken⟩ :=
      strtokCall_token hptr hblock hdelim (fun c hc => of_decide_eq_true (hseps c hc)) hne
        (fun c hc => of_decide_eq_false (ht c hc)) hleft hdelims
    refine ⟨_, heap', pre', ys.tail, hcall, hothers, hblock', ?_,
      Or.inr ⟨_, after, rfl, hafter, ?_⟩⟩
    · exact fun h => hleft (List.mem_append_right t (List.mem_of_mem_tail h))
    · rw [htoken, strtok_eq_tokens]
      rcases hys with ⟨rfl, hall⟩ | ⟨sep, zs, rfl, -, hall⟩
      · rw [hall, List.tail_nil, Split.tokens_nil]
      · rw [hall, List.tail_cons]

/-! ### A worker's name -/

/-- The copy a worker is splitting. -/
def SplitPhase.copy : SplitPhase → Option Nat
  | .idle => none
  | .copied _ domainCopy => some domainCopy
  | .token _ domainCopy _ _ => some domainCopy
  | .between _ domainCopy _ => some domainCopy
  | .last _ domainCopy _ => some domainCopy

/-- The worker has called `strtok` with its copy and has not been told that it is through. -/
def SplitPhase.Splitting : SplitPhase → Prop
  | .token .. => True
  | .between .. => True
  | _ => False

/-- The worker's next step is a call of `strtok`. -/
def SplitPhase.CallsStrtok : SplitPhase → Prop
  | .copied .. => True
  | .between .. => True
  | _ => False

/-- The pointer kept is in the copy, and the words so far and those left are the domain's. -/
def Left (s : SplitState) (domain : Bytes) (domainCopy : Nat) (words : List Bytes) : Prop :=
  ∃ pre rest, s.saved = some { block := domainCopy, offset := pre.length } ∧
    s.heap domainCopy = some (pre ++ (rest ++ [0])) ∧ (0 : UInt8) ∉ rest ∧
    words ++ strtok [dot] rest = strtok [dot] domain

/-- What a worker's phase says. -/
def PhaseHolds (s : SplitState) : SplitPhase → Prop
  | .idle => True
  | .copied domain domainCopy =>
      (0 : UInt8) ∉ domain ∧ s.heap domainCopy = some (domain ++ [0])
  | .token domain domainCopy words token =>
      ∃ offset after, token = { block := domainCopy, offset } ∧
        stringAt s.heap token = some after ∧ Left s domain domainCopy (words ++ [cstr after])
  | .between domain domainCopy words => Left s domain domainCopy words
  | .last domain _ words => words = strtok [dot] domain

/-- One name is split at a time, each in a copy of its own. -/
structure SplitInv (s : SplitState) : Prop where
  phase : ∀ w, PhaseHolds s (s.workers w)
  allocated : ∀ w c, (s.workers w).copy = some c → c < s.fresh
  apart : ∀ w w' c, (s.workers w).copy = some c → (s.workers w').copy = some c → w = w'
  one : ∀ w w', (s.workers w).Splitting → (s.workers w').Splitting → w = w'

/-- A phase is about the worker's own copy, and about the pointer only while it is splitting. -/
theorem PhaseHolds.frame {s s' : SplitState} {phase : SplitPhase} (h : PhaseHolds s phase)
    (hheap : ∀ c, phase.copy = some c → s'.heap c = s.heap c)
    (hsaved : phase.Splitting → s'.saved = s.saved) : PhaseHolds s' phase := by
  have hleft : ∀ {domain domainCopy words}, s'.heap domainCopy = s.heap domainCopy →
      s'.saved = s.saved → Left s domain domainCopy words → Left s' domain domainCopy words := by
    intro domain domainCopy words hsame hkept hleft
    obtain ⟨pre, rest, hptr, hblock, hrest⟩ := hleft
    exact ⟨pre, rest, by rw [hkept, hptr], by rw [hsame, hblock], hrest⟩
  cases phase with
  | idle => exact trivial
  | copied domain domainCopy => exact ⟨h.1, by rw [hheap _ rfl, h.2]⟩
  | token domain domainCopy words token =>
      obtain ⟨offset, after, rfl, hafter, hl⟩ := h
      refine ⟨offset, after, rfl, ?_, hleft (hheap _ rfl) (hsaved trivial) hl⟩
      unfold stringAt at hafter ⊢
      rw [hheap _ rfl]
      exact hafter
  | between domain domainCopy words => exact hleft (hheap _ rfl) (hsaved trivial) h
  | last domain domainCopy words => exact h

/-- One worker's step keeps the invariant when it keeps to its own copy, and moves the pointer
only while nobody else needs it. -/
theorem SplitInv.update {s s' : SplitState} {w : Nat} {phase : SplitPhase} (h : SplitInv s)
    (hworkers : s'.workers = Function.update s.workers w phase) (hfresh : s.fresh ≤ s'.fresh)
    (hheap : ∀ w' c, w' ≠ w → (s.workers w').copy = some c → s'.heap c = s.heap c)
    (hsaved : ∀ w', w' ≠ w → (s.workers w').Splitting → s'.saved = s.saved)
    (hphase : PhaseHolds s' phase) (halloc : ∀ c, phase.copy = some c → c < s'.fresh)
    (hapart : ∀ w' c, w' ≠ w → phase.copy = some c → (s.workers w').copy ≠ some c)
    (hone : phase.Splitting → ∀ w', w' ≠ w → ¬ (s.workers w').Splitting) : SplitInv s' := by
  have hself : s'.workers w = phase := by rw [hworkers, Function.update_self]
  have hother : ∀ w', w' ≠ w → s'.workers w' = s.workers w' := by
    intro w' hw'
    rw [hworkers, Function.update_of_ne hw']
  refine ⟨?_, ?_, ?_, ?_⟩
  · intro w'
    by_cases hw' : w' = w
    · rw [hw', hself]
      exact hphase
    · rw [hother w' hw']
      exact (h.phase w').frame (hheap w' · hw') (hsaved w' hw')
  · intro w' c hc
    by_cases hw' : w' = w
    · rw [hw', hself] at hc
      exact halloc c hc
    · rw [hother w' hw'] at hc
      exact Nat.lt_of_lt_of_le (h.allocated w' c hc) hfresh
  · intro w₁ w₂ c h₁ h₂
    rw [hworkers] at h₁ h₂
    refine @update_unique _ _ _ (fun phase : SplitPhase => phase.copy = some c) _ _ _ ?_ ?_
      w₁ w₂ h₁ h₂
    · exact fun w₁ w₂ => h.apart w₁ w₂ c
    · exact fun hc w' hw' => hapart w' c hw' hc
  · intro w₁ w₂ h₁ h₂
    rw [hworkers] at h₁ h₂
    exact update_unique h.one hone w₁ w₂ h₁ h₂

/-! ### One step -/

/-- A call of `strtok` while nobody else is splitting. -/
theorem splitStrtok_inv {s : SplitState} (h : SplitInv s) {w : Nat} {arg : Option CharPtr}
    {domain : Bytes} {domainCopy : Nat} {words : List Bytes} {pre rest : Bytes}
    (hcopy : (s.workers w).copy = some domainCopy)
    (halone : ∀ w', w' ≠ w → ¬ (s.workers w').Splitting)
    (hptr : arg.or s.saved = some { block := domainCopy, offset := pre.length })
    (hblock : s.heap domainCopy = some (pre ++ (rest ++ [0]))) (hnoNul : (0 : UInt8) ∉ rest)
    (hwords : words ++ strtok [dot] rest = strtok [dot] domain) :
    ∃ s', splitStrtok s w arg domain domainCopy words = done s' ∧ SplitInv s' := by
  obtain ⟨token, heap', pre', rest', hcall, hothers, hblock', hnoNul', htoken⟩ :=
    strtokCall_spec hptr hblock (show (0 : UInt8) ∉ [dot] by decide) hnoNul
  refine ⟨_, by unfold splitStrtok; rw [hcall]; rfl, ?_⟩
  have hcopy' : (afterToken domain domainCopy words token).copy = some domainCopy := by
    rcases token with _ | token
    · rfl
    · rfl
  refine h.update rfl (Nat.le_refl _) ?_ ?_ ?_ ?_ ?_ ?_
  · intro w' c hw' hc
    refine hothers c fun heq => hw' (h.apart w' w c hc ?_)
    rw [hcopy, heq]
  · exact fun w' hw' hsplitting => absurd hsplitting (halone w' hw')
  · rcases htoken with ⟨rfl, hnone⟩ | ⟨offset, after, rfl, hafter, hmore⟩
    · show words = strtok [dot] domain
      rw [← hwords, hnone, List.append_nil]
    · refine ⟨offset, after, rfl, hafter, pre', rest', rfl, hblock', hnoNul', ?_⟩
      rw [← hwords, hmore, List.append_assoc]
      rfl
  · intro c hc
    rw [hcopy', Option.some.injEq] at hc
    rw [← hc]
    exact h.allocated w domainCopy hcopy
  · intro w' c hw' hc hc'
    rw [hcopy', Option.some.injEq] at hc
    rw [← hc] at hc'
    exact hw' (h.apart w' w domainCopy hc' hcopy)
  · exact fun _ => halone

theorem length_strtok_le (domain : Bytes) : (strtok [dot] domain).length ≤ wordCount domain := by
  have hle := Split.length_tokens_le (fun c => decide (c ∈ [dot])) domain
  have hcount : domain.countP (fun c => decide (c ∈ [dot])) = domain.count dot := by
    rw [List.count]
    refine List.countP_congr fun c _ => ?_
    simp
  rw [strtok_eq_tokens, wordCount, ← hcount]
  exact hle

/-- Nobody else is half-way through a name when a worker calls `strtok`. -/
def OneAtATime (s : SplitState) (w : Nat) : Prop :=
  (s.workers w).CallsStrtok → ∀ w', w' ≠ w → ¬ (s.workers w').Splitting

/-- A worker's next step is defined, and keeps the invariant. -/
theorem splitTurn_inv {s : SplitState} (h : SplitInv s) {w : Nat} (halone : OneAtATime s w) :
    ∃ s', splitTurn s w = done s' ∧ SplitInv s' := by
  have hphase := h.phase w
  have hapart : ∀ {domainCopy : Nat} {phase : SplitPhase}, phase.copy = some domainCopy →
      (s.workers w).copy = some domainCopy → ∀ w' c, w' ≠ w → phase.copy = some c →
      (s.workers w').copy ≠ some c := by
    intro domainCopy phase hphase hcopy w' c hw' hc hc'
    rw [hphase] at hc
    exact hw' (h.apart w' w c hc' (hcopy.trans hc))
  unfold splitTurn
  unfold OneAtATime at halone
  generalize hw : s.workers w = phase at hphase halone
  have hcopies : phase.copy = (s.workers w).copy := by rw [hw]
  cases phase with
  | idle => exact ⟨s, rfl, h⟩
  | copied domain domainCopy =>
      have hblock : s.heap domainCopy = some ([] ++ (domain ++ [0])) := hphase.2
      exact splitStrtok_inv h hcopies.symm (halone trivial) rfl hblock hphase.1 rfl
  | between domain domainCopy words =>
      obtain ⟨pre, rest, hptr, hblock, hnoNul, hwords⟩ := hphase
      exact splitStrtok_inv h hcopies.symm (halone trivial) hptr hblock hnoNul hwords
  | token domain domainCopy words token =>
      obtain ⟨offset, after, rfl, hafter, hleft⟩ := hphase
      have hroom : ¬ wordCount domain < words.length := by
        obtain ⟨pre, rest, -, -, -, hwords⟩ := hleft
        have hlen := congrArg List.length hwords
        have hle := length_strtok_le domain
        simp only [List.length_append, List.length_singleton] at hlen
        omega
      refine ⟨_, by simp only [hafter, if_neg hroom]; rfl, ?_⟩
      refine h.update rfl (Nat.le_refl _) ?_ ?_ ?_ ?_ ?_ ?_
      · exact fun _ _ _ _ => rfl
      · exact fun _ _ _ => rfl
      · exact hleft
      · exact fun c hc => h.allocated w c (hcopies.symm.trans hc)
      · exact hapart rfl hcopies.symm
      · intro _ w' hw' hsplitting
        refine hw' (h.one w' w hsplitting ?_)
        rw [hw]
        exact trivial
  | last domain domainCopy words =>
      have hroom : ¬ wordCount domain < words.length := by
        rw [show words = strtok [dot] domain from hphase]
        exact Nat.not_lt.mpr (length_strtok_le domain)
      refine ⟨_, by simp only [if_neg hroom]; rfl, ?_⟩
      refine h.update rfl (Nat.le_refl _) ?_ ?_ ?_ ?_ ?_ ?_
      · intro w' c hw' hc
        refine Function.update_of_ne (fun heq => hw' (h.apart w' w c hc ?_)) _ _
        rw [← hcopies, heq]
        rfl
      · exact fun _ _ _ => rfl
      · exact trivial
      · exact fun c hc => absurd hc (Option.some_ne_none c).symm
      · exact fun _ c _ hc => absurd hc (Option.some_ne_none c).symm
      · exact fun hno => absurd hno id

/-! ### Runs -/

/-- The worker whose step it is. -/
def SplitEvent.worker : SplitEvent → Nat
  | .called w _ => w
  | .went w => w
  | .returned w _ _ => w
  | .undefined w => w

/-- The step is not a call of `strtok` into the middle of another worker's name. -/
def Private (s : SplitState) (e : SplitEvent) : Prop := OneAtATime s e.worker

/-- What a step returned is right, and it was defined. -/
def SplitEvent.Right : SplitEvent → Prop
  | .returned _ domain words => words = strtok [dot] domain
  | .undefined _ => False
  | _ => True

theorem SplitInv.start {s : SplitState} (h : SplitStart s) : SplitInv s := by
  refine ⟨?_, ?_, ?_, ?_⟩
  · intro w
    rw [h.workers w]
    exact trivial
  · intro w c hc
    rw [h.workers w] at hc
    exact absurd hc (Option.some_ne_none c).symm
  · intro w w' c hc
    rw [h.workers w] at hc
    exact absurd hc (Option.some_ne_none c).symm
  · intro w w' hsplitting
    rw [h.workers w] at hsplitting
    exact absurd hsplitting id

/-- A private step keeps the invariant and does right. -/
theorem SplitInv.step {s s' : SplitState} {e : SplitEvent} (h : SplitInv s)
    (hstep : SplitStep s e s') (halone : Private s e) : SplitInv s' ∧ e.Right := by
  cases hstep with
  | @called w domain hidle hstring =>
      have hnone : (s.workers w).copy = none := by rw [hidle]; rfl
      have hfresh : ∀ w' c, (s.workers w').copy = some c → c ≠ s.fresh :=
        fun w' c hc => Nat.ne_of_lt (h.allocated w' c hc)
      refine ⟨?_, trivial⟩
      refine h.update rfl (Nat.le_succ _) ?_ ?_ ?_ ?_ ?_ ?_
      · exact fun w' c _ hc => Function.update_of_ne (hfresh w' c hc) _ _
      · exact fun _ _ _ => rfl
      · exact ⟨hstring, Function.update_self _ _ _⟩
      · intro c hc
        rw [← Option.some.inj hc]
        exact Nat.lt_succ_self _
      · intro w' c _ hc hc'
        exact hfresh w' c hc' (Option.some.inj hc).symm
      · exact fun hno => absurd hno id
  | went _ _ hturn =>
      obtain ⟨s'', hturn', hinv⟩ := splitTurn_inv h halone
      rw [done.inj (hturn.symm.trans hturn')]
      exact ⟨hinv, trivial⟩
  | returned hlast hturn =>
      rename_i w domain domainCopy words
      obtain ⟨s'', hturn', hinv⟩ := splitTurn_inv h halone
      have hwords := h.phase w
      rw [hlast] at hwords
      rw [done.inj (hturn.symm.trans hturn')]
      exact ⟨hinv, hwords⟩
  | undefined hturn =>
      obtain ⟨s'', hturn', -⟩ := splitTurn_inv h halone
      have hboth := hturn.symm.trans hturn'
      simp at hboth

/-- The invariant, and every step so far right. -/
def SplitRight (events : List SplitEvent) (s : SplitState) : Prop :=
  SplitInv s ∧ ∀ e ∈ events, e.Right

theorem splitRight_of_trace {events : List SplitEvent} {s : SplitState}
    (h : Trace SplitStart (Guarded SplitStep Private) events s) : SplitRight events s := by
  refine Trace.inv ?_ ?_ h
  · exact fun s hs => ⟨SplitInv.start hs, fun e he => absurd he List.not_mem_nil⟩
  · intro events s e s' hs hstep
    obtain ⟨hinv, hright⟩ := hs.1.step hstep.1 hstep.2
    refine ⟨hinv, ?_⟩
    intro e' he'
    rcases List.mem_append.mp he' with he' | he'
    · exact hs.2 e' he'
    · rw [List.mem_singleton.mp he']
      exact hright

/--
**Names split one at a time are split right.**  In every run in which no worker
calls `strtok` while another is between its first call and its last, everything a
worker does is defined, and every call of `extractWordsFromDomain` returns the
non-empty stretches of its own domain.
-/
theorem split_is_private (events : List SplitEvent) (s : SplitState)
    (h : Trace SplitStart (Guarded SplitStep Private) events s) :
    (∀ w domain words, .returned w domain words ∈ events → words = strtok [dot] domain) ∧
      ∀ w, .undefined w ∉ events := by
  have hinv := splitRight_of_trace h
  exact ⟨fun w domain words he => hinv.2 _ he, fun w he => hinv.2 _ he⟩

/-! ### One name after the other -/

/-- A worker's turn is its own. -/
theorem splitTurn_other {s s' : SplitState} {w : Nat} (h : splitTurn s w = done s') {w' : Nat}
    (hw' : w' ≠ w) : s'.workers w' = s.workers w' := by
  have hstrtok : ∀ {arg domain domainCopy words},
      splitStrtok s w arg domain domainCopy words = done s' → s'.workers w' = s.workers w' := by
    intro arg domain domainCopy words hcall
    unfold splitStrtok at hcall
    cases hresult : strtokCall s.heap s.saved arg [dot] with
    | running => rw [hresult] at hcall; cases hcall
    | undefined => rw [hresult] at hcall; cases hcall
    | done result =>
        rw [hresult] at hcall
        rw [← done.inj hcall]
        exact Function.update_of_ne hw' _ _
  unfold splitTurn at h
  split at h
  · rw [← done.inj h]
  · exact hstrtok h
  · exact hstrtok h
  · split at h
    · cases h
    · split at h
      · cases h
      · rw [← done.inj h]
        exact Function.update_of_ne hw' _ _
  · split at h
    · cases h
    · rw [← done.inj h]
      exact Function.update_of_ne hw' _ _

theorem SplitStep.other {s s' : SplitState} {e : SplitEvent} (h : SplitStep s e s') {w' : Nat}
    (hw' : w' ≠ e.worker) : s'.workers w' = s.workers w' := by
  cases h with
  | called => exact Function.update_of_ne hw' _ _
  | went _ _ hturn => exact splitTurn_other hturn hw'
  | returned _ hturn => exact splitTurn_other hturn hw'
  | undefined => rfl

/-- While one worker goes on and no other is half-way through a name, every step is private, and
the others stay where they are. -/
theorem private_of_turn {w : Nat} {events : List SplitEvent} {s s' : SplitState}
    (h : Trace (· = s) SplitStep events s') (hevents : ∀ e ∈ events, e.worker = w)
    (hquiet : ∀ w', w' ≠ w → ¬ (s.workers w').Splitting) :
    Trace (· = s) (Guarded SplitStep Private) events s' ∧
      ∀ w', w' ≠ w → s'.workers w' = s.workers w' := by
  induction h with
  | start h => exact ⟨Trace.start h, fun w' _ => by rw [h]⟩
  | @step events s₁ s₂ e _ hstep ih =>
      obtain ⟨htrace, hstay⟩ := ih fun e he => hevents e (List.mem_append_left _ he)
      have hw : e.worker = w := hevents e (List.mem_append_right _ List.mem_cons_self)
      have hprivate : Private s₁ e := by
        intro _ w' hw'
        rw [hstay w' (hw ▸ hw')]
        exact hquiet w' (hw ▸ hw')
      refine ⟨Trace.step htrace ⟨hstep, hprivate⟩, fun w' hw' => ?_⟩
      rw [hstep.other (hw.symm ▸ hw'), hstay w' hw']

/-- Before any name is split. -/
def splitStart : SplitState :=
  { heap := fun _ => none, fresh := 0, saved := none, workers := fun _ => .idle }

theorem splitStart_start : SplitStart splitStart := ⟨fun _ => rfl, rfl, fun _ => rfl⟩

/-- Worker 1 has its copy of `c.d` while worker 0 splits `a.b`, and splits it while worker 0 has
still to free its own. -/
theorem split_in_turn : ∃ s₁ s₂ s₃ s₄,
    Trace (· = splitStart) SplitStep [.called 1 (ascii "c.d")] s₁ ∧
    Trace (· = s₁) SplitStep
      [.called 0 (ascii "a.b"), .went 0, .went 0, .went 0, .went 0, .went 0] s₂ ∧
    Trace (· = s₂) SplitStep
      [.went 1, .went 1, .went 1, .went 1, .went 1,
        .returned 1 (ascii "c.d") [ascii "c", ascii "d"]] s₃ ∧
    Trace (· = s₃) SplitStep [.returned 0 (ascii "a.b") [ascii "a", ascii "b"]] s₄ ∧
    ¬ (s₁.workers 1).Splitting ∧ ¬ (s₂.workers 0).Splitting ∧ ¬ (s₃.workers 1).Splitting := by
  have hagain : ∀ {init : SplitState → Prop} {events s}, Trace init SplitStep events s →
      Trace (· = s) SplitStep [] s := fun _ => Trace.start rfl
  have h₀ : Trace (· = splitStart) SplitStep [] splitStart := Trace.start rfl
  have hcopied := Trace.step h₀ (@SplitStep.called _ 1 (ascii "c.d") rfl (by decide))
  -- worker 0 takes and copies two words, and is told that there are no more
  have h₁ := Trace.step (hagain hcopied) (@SplitStep.called _ 0 (ascii "a.b") rfl (by decide))
  have h₂ := Trace.step h₁ (@SplitStep.went _ _ 0 (by decide) (fun _ _ _ h => by cases h) rfl)
  have h₃ := Trace.step h₂ (@SplitStep.went _ _ 0 (by decide) (fun _ _ _ h => by cases h) rfl)
  have h₄ := Trace.step h₃ (@SplitStep.went _ _ 0 (by decide) (fun _ _ _ h => by cases h) rfl)
  have h₅ := Trace.step h₄ (@SplitStep.went _ _ 0 (by decide) (fun _ _ _ h => by cases h) rfl)
  have h₆ := Trace.step h₅ (@SplitStep.went _ _ 0 (by decide) (fun _ _ _ h => by cases h) rfl)
  -- and then worker 1
  have k₁ := Trace.step (hagain h₆)
    (@SplitStep.went _ _ 1 (by decide) (fun _ _ _ h => by cases h) rfl)
  have k₂ := Trace.step k₁ (@SplitStep.went _ _ 1 (by decide) (fun _ _ _ h => by cases h) rfl)
  have k₃ := Trace.step k₂ (@SplitStep.went _ _ 1 (by decide) (fun _ _ _ h => by cases h) rfl)
  have k₄ := Trace.step k₃ (@SplitStep.went _ _ 1 (by decide) (fun _ _ _ h => by cases h) rfl)
  have k₅ := Trace.step k₄ (@SplitStep.went _ _ 1 (by decide) (fun _ _ _ h => by cases h) rfl)
  have k₆ := Trace.step k₅ (@SplitStep.returned _ _ 1 _ _ _ rfl rfl)
  have hlast := Trace.step (hagain k₆) (@SplitStep.returned _ _ 0 _ _ _ rfl rfl)
  exact ⟨_, _, _, _, hcopied, h₆, k₆, hlast, id, id, id⟩

theorem split_is_private_in_turn : ∃ events s,
    Trace SplitStart (Guarded SplitStep Private) events s ∧
    .returned 1 (ascii "c.d") [ascii "c", ascii "d"] ∈ events ∧
    .returned 0 (ascii "a.b") [ascii "a", ascii "b"] ∈ events ∧
    (∀ w domain words, .returned w domain words ∈ events → words = strtok [dot] domain) ∧
      ∀ w, .undefined w ∉ events := by
  obtain ⟨s₁, s₂, s₃, s₄, h₁, h₂, h₃, h₄, hfirst, hsecond, hthird⟩ := split_in_turn
  have hidle : ∀ w, ¬ (splitStart.workers w).Splitting := fun _ => id
  -- each of the two goes on while the other is not half-way
  obtain ⟨htrace₁, hstay₁⟩ := private_of_turn (w := 1) h₁ (by simp [SplitEvent.worker])
    fun w' _ => hidle w'
  have hquiet₁ : ∀ w', w' ≠ 0 → ¬ (s₁.workers w').Splitting := by
    intro w' _
    by_cases hw' : w' = 1
    · rw [hw']
      exact hfirst
    · rw [hstay₁ w' hw']
      exact hidle w'
  obtain ⟨htrace₂, hstay₂⟩ := private_of_turn (w := 0) h₂ (by simp [SplitEvent.worker]) hquiet₁
  have hquiet₂ : ∀ w', w' ≠ 1 → ¬ (s₂.workers w').Splitting := by
    intro w' _
    by_cases hw' : w' = 0
    · rw [hw']
      exact hsecond
    · rw [hstay₂ w' hw']
      exact hquiet₁ w' hw'
  obtain ⟨htrace₃, hstay₃⟩ := private_of_turn (w := 1) h₃ (by simp [SplitEvent.worker]) hquiet₂
  have hquiet₃ : ∀ w', w' ≠ 0 → ¬ (s₃.workers w').Splitting := by
    intro w' _
    by_cases hw' : w' = 1
    · rw [hw']
      exact hthird
    · rw [hstay₃ w' hw']
      exact hquiet₂ w' hw'
  have htrace₄ := (private_of_turn (w := 0) h₄ (by simp [SplitEvent.worker]) hquiet₃).1
  have hstart : Trace SplitStart (Guarded SplitStep Private) [] splitStart :=
    Trace.start splitStart_start
  have htrace := (((hstart.append htrace₁).append htrace₂).append htrace₃).append htrace₄
  exact ⟨_, s₄, htrace, by simp, by simp, split_is_private _ _ htrace⟩

/-! ### Two names at once -/

/-- Worker 1 begins `c.d` when worker 0 has taken the first word of `a.b`, and worker 0 goes on
in `c.d`. -/
theorem split_in_anothers_name : ∃ events s,
    Trace SplitStart SplitStep events s ∧
    .returned 0 (ascii "a.b") [ascii "a", ascii "d"] ∈ events ∧
    strtok [dot] (ascii "a.b") = [ascii "a", ascii "b"] := by
  have h₀ : Trace SplitStart SplitStep [] splitStart := Trace.start splitStart_start
  have h₁ := Trace.step h₀ (@SplitStep.called splitStart 0 (ascii "a.b") rfl (by decide))
  have h₂ := Trace.step h₁ (@SplitStep.called _ 1 (ascii "c.d") rfl (by decide))
  -- worker 0 takes and copies `a`
  have h₃ := Trace.step h₂ (@SplitStep.went _ _ 0 (by decide) (fun _ _ _ h => by cases h) rfl)
  have h₄ := Trace.step h₃ (@SplitStep.went _ _ 0 (by decide) (fun _ _ _ h => by cases h) rfl)
  -- worker 1 takes `c`, so the pointer kept is in its copy
  have h₅ := Trace.step h₄ (@SplitStep.went _ _ 1 (by decide) (fun _ _ _ h => by cases h) rfl)
  -- worker 0 is given `d`, copies it, and is told that it is through
  have h₆ := Trace.step h₅ (@SplitStep.went _ _ 0 (by decide) (fun _ _ _ h => by cases h) rfl)
  have h₇ := Trace.step h₆ (@SplitStep.went _ _ 0 (by decide) (fun _ _ _ h => by cases h) rfl)
  have h₈ := Trace.step h₇ (@SplitStep.went _ _ 0 (by decide) (fun _ _ _ h => by cases h) rfl)
  have h₉ := Trace.step h₈ (@SplitStep.returned _ _ 0 _ _ _ rfl rfl)
  refine ⟨_, _, h₉, List.mem_append_right _ ?_, ?_⟩
  · exact List.mem_singleton.mpr rfl
  · rfl

end DnsServer
