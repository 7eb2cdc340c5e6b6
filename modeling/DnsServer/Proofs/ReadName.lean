/-
What `dns_read_name` returns.

The loop reads exactly the names `NameAt` describes.  Started at a name whose
labels fit the destination it leaves with the text of the labels and the offset
after the name's own bytes; and whenever it leaves with a value there was such a
name.  Both directions carry the loop's whole state, because a name is read from
the middle of another's loop: the destination already holds the labels before,
and after a jump the offset no longer moves.
-/
import DnsServer.Proofs.Names

namespace DnsServer

open Loop

variable {data : Memory} {maxLen : Nat}

/-! ### One turn -/

theorem readNameBody_root {s : ReadState} (h : data s.dataPtr = 0) :
    readNameBody data maxLen s = .leave (some (readNameEnd s)) := by
  unfold readNameBody
  rw [if_pos h]

theorem isPointer_ne_zero {b : UInt8} (h : isPointer b = true) : b ≠ 0 := by
  intro h0
  subst h0
  exact absurd h (by decide)

/-- The state after a pointer. -/
def readNamePointer (data : Memory) (s : ReadState) : ReadState :=
  { s with
    dataPtr := jumpOffset (data s.dataPtr) (data (s.dataPtr + 1))
    jumped := true
    totalOffset := if s.jumped then s.totalOffset else s.totalOffset + 2 }

theorem readNameBody_pointer {s : ReadState} (h : isPointer (data s.dataPtr) = true) :
    readNameBody data maxLen s = .again (readNamePointer data s) := by
  unfold readNameBody readNamePointer
  simp only [if_neg (isPointer_ne_zero h), h, if_true]

/-- The state after a label that fits. -/
def readNameLabel (data : Memory) (s : ReadState) : ReadState :=
  { s with
    dataPtr := s.dataPtr + 1 + (data s.dataPtr).toNat
    dest := s.dest ++ slice data (s.dataPtr + 1) (data s.dataPtr).toNat ++ [dot]
    totalOffset :=
      if s.jumped then s.totalOffset
      else s.totalOffset + 1 + UInt16.ofNat (data s.dataPtr).toNat }

theorem readNameBody_label {s : ReadState} (hne : data s.dataPtr ≠ 0)
    (hptr : isPointer (data s.dataPtr) = false) :
    readNameBody data maxLen s =
      if maxLen ≤ s.dest.length + (data s.dataPtr).toNat + 1 then .leave none
      else .again (readNameLabel data s) := by
  unfold readNameBody
  simp only [if_neg hne, hptr, Bool.false_eq_true, if_false]
  rfl

/-- What one turn does: the name ends, a pointer is followed, a label does not fit or is read. -/
theorem readNameBody_cases (data : Memory) (maxLen : Nat) (s : ReadState) :
    (data s.dataPtr = 0 ∧ readNameBody data maxLen s = .leave (some (readNameEnd s))) ∨
    (isPointer (data s.dataPtr) = true ∧
      readNameBody data maxLen s = .again (readNamePointer data s)) ∨
    (data s.dataPtr ≠ 0 ∧ isPointer (data s.dataPtr) = false ∧
      maxLen ≤ s.dest.length + (data s.dataPtr).toNat + 1 ∧
      readNameBody data maxLen s = .leave none) ∨
    (data s.dataPtr ≠ 0 ∧ isPointer (data s.dataPtr) = false ∧
      s.dest.length + (data s.dataPtr).toNat + 1 < maxLen ∧
      readNameBody data maxLen s = .again (readNameLabel data s)) := by
  by_cases h0 : data s.dataPtr = 0
  · exact Or.inl ⟨h0, readNameBody_root h0⟩
  by_cases hptr : isPointer (data s.dataPtr) = true
  · exact Or.inr (Or.inl ⟨hptr, readNameBody_pointer hptr⟩)
  have hfalse : isPointer (data s.dataPtr) = false := by simpa using hptr
  by_cases hfull : maxLen ≤ s.dest.length + (data s.dataPtr).toNat + 1
  · refine Or.inr (Or.inr (Or.inl ⟨h0, hfalse, hfull, ?_⟩))
    rw [readNameBody_label h0 hfalse, if_pos hfull]
  · refine Or.inr (Or.inr (Or.inr ⟨h0, hfalse, by omega, ?_⟩))
    rw [readNameBody_label h0 hfalse, if_neg hfull]

theorem length_dest_label (s : ReadState) :
    (readNameLabel data s).dest.length = s.dest.length + (data s.dataPtr).toNat + 1 := by
  simp [readNameLabel]
  omega

/-! ### The value it returns -/

/-- What is returned after the labels `ls`, when the name's own bytes end `own` later. -/
def readNameValue (s : ReadState) (ls : List Bytes) (own : Nat) : UInt16 × Bytes :=
  (if s.jumped then s.totalOffset else s.totalOffset + UInt16.ofNat own,
    (s.dest ++ dotted ls).dropLast ++ [0])

theorem readNameValue_label {s : ReadState} {ls : List Bytes} {own : Nat} :
    readNameValue (readNameLabel data s) ls own
      = readNameValue s (slice data (s.dataPtr + 1) (data s.dataPtr).toNat :: ls)
        (1 + (data s.dataPtr).toNat + own) := by
  unfold readNameValue readNameLabel
  cases s.jumped <;> simp [UInt16.ofNat_add, UInt16.add_assoc]

theorem readNameValue_root {s : ReadState} : readNameValue s [] 1 = readNameEnd s := by
  simp [readNameValue, readNameEnd]

/-- After a pointer the name's own bytes have ended, wherever its target's do. -/
theorem readNameValue_pointer {s : ReadState} {ls : List Bytes} {own : Nat} :
    readNameValue (readNamePointer data s) ls own = readNameValue s ls 2 := by
  simp [readNameValue, readNamePointer]

/-- Started at a name that fits, the loop leaves with it. -/
theorem leaves_of_nameAt {p e : Nat} {ls : List Bytes} (h : NameAt data.contents p ls e) :
    ∀ {s : ReadState}, s.dataPtr = p → s.dest.length + (dotted ls).length < maxLen →
      Leaves (readNameBody data maxLen) s (some (readNameValue s ls (e - p))) := by
  induction h with
  | @root p h0 =>
      intro s hs _
      have hb : data s.dataPtr = 0 := by simpa [hs] using h0
      rw [show p + 1 - p = 1 by omega, readNameValue_root]
      exact Leaves.leave (readNameBody_root hb)
  | @label p e b l ls hb hne hptr hlen hl hrest ih =>
      intro s hs hroom
      have hb' : data s.dataPtr = b := by simpa [hs] using hb
      have hslice : slice data (s.dataPtr + 1) (data s.dataPtr).toNat = l := by
        rw [hs] at hb' ⊢
        rw [hb', ← hlen]
        exact holdsAt_contents.mp hl
      have hroom' : (readNameLabel data s).dest.length + (dotted ls).length < maxLen := by
        rw [dotted_cons, List.length_append, List.length_cons] at hroom
        rw [length_dest_label, hb', ← hlen]
        omega
      have hown : e - p = 1 + b.toNat + (e - (p + 1 + b.toNat)) := by
        have := nameAt_lt_end hrest
        omega
      have hval : readNameValue s (l :: ls) (e - p)
          = readNameValue (readNameLabel data s) ls (e - (p + 1 + b.toNat)) := by
        rw [readNameValue_label, hslice, hb', ← hown]
      rw [hval]
      refine Leaves.again ?_ (ih (s := readNameLabel data s) ?_ hroom')
      · rw [readNameBody_label (by rw [hb']; exact hne) (by rw [hb']; exact hptr), if_neg]
        rw [length_dest_label] at hroom'
        omega
      · show s.dataPtr + 1 + (data s.dataPtr).toNat = p + 1 + b.toNat
        rw [hb', hs]
  | @pointer p e b c ls hb hptr hc htarget ih =>
      intro s hs hroom
      have hb' : data s.dataPtr = b := by simpa [hs] using hb
      have hc' : data (s.dataPtr + 1) = c := by simpa [hs] using hc
      have htarget' : (readNamePointer data s).dataPtr = jumpOffset b c := by
        show jumpOffset (data s.dataPtr) (data (s.dataPtr + 1)) = _
        rw [hb', hc']
      have hrest := ih htarget' hroom
      rw [readNameValue_pointer] at hrest
      rw [show p + 2 - p = 2 by omega]
      exact Leaves.again (readNameBody_pointer (by rw [hb']; exact hptr)) hrest

/-- What the loop leaves with was a name that fits. -/
theorem nameAt_of_leaves {s : ReadState} {r : Option (UInt16 × Bytes)}
    (h : Leaves (readNameBody data maxLen) s r) :
    ∀ {v : UInt16 × Bytes}, r = some v → s.dest.length < maxLen →
      ∃ ls e, NameAt data.contents s.dataPtr ls e ∧
        s.dest.length + (dotted ls).length < maxLen ∧
        v = readNameValue s ls (e - s.dataPtr) := by
  induction h with
  | @leave s r hb =>
      intro v hv hlen
      rcases readNameBody_cases data maxLen s with
        ⟨h0, hturn⟩ | ⟨-, hturn⟩ | ⟨-, -, -, hturn⟩ | ⟨-, -, -, hturn⟩
      · rw [hturn, hv, Turn.leave.injEq, Option.some.injEq] at hb
        refine ⟨[], s.dataPtr + 1, NameAt.root (by simpa using h0), by simpa using hlen, ?_⟩
        rw [← hb, show s.dataPtr + 1 - s.dataPtr = 1 by omega, readNameValue_root]
      · rw [hturn] at hb
        simp at hb
      · rw [hturn, hv] at hb
        simp at hb
      · rw [hturn] at hb
        simp at hb
  | @again s s' r hb hrest ih =>
      intro v hv hlen
      rcases readNameBody_cases data maxLen s with
        ⟨-, hturn⟩ | ⟨hptr, hturn⟩ | ⟨-, -, -, hturn⟩ | ⟨hne, hptr, hfits, hturn⟩
      · rw [hturn] at hb
        simp at hb
      · rw [hturn, Turn.again.injEq] at hb
        subst hb
        obtain ⟨ls, e, hname, hroom, hval⟩ := ih hv hlen
        refine ⟨ls, s.dataPtr + 2, NameAt.pointer rfl hptr rfl hname, hroom, ?_⟩
        rw [hval, readNameValue_pointer, show s.dataPtr + 2 - s.dataPtr = 2 by omega]
      · rw [hturn] at hb
        simp at hb
      · rw [hturn, Turn.again.injEq] at hb
        subst hb
        obtain ⟨ls, e, hname, hroom, hval⟩ := ih hv (by rw [length_dest_label]; omega)
        refine ⟨_ :: ls, e, NameAt.label rfl hne hptr (length_slice _ _ _)
          (holdsAt_slice _ _ _) hname, ?_, ?_⟩
        · rw [length_dest_label] at hroom
          rw [dotted_cons, List.length_append, List.length_cons, length_slice]
          omega
        · have hlt := nameAt_lt_end hname
          have hptr' : (readNameLabel data s).dataPtr
              = s.dataPtr + 1 + (data s.dataPtr).toNat := rfl
          rw [hval, readNameValue_label]
          rw [show 1 + (data s.dataPtr).toNat + (e - (readNameLabel data s).dataPtr)
            = e - s.dataPtr by omega]

/-- **A name is returned exactly where one that fits is read.** -/
theorem dnsReadName_settles_iff {offset : UInt16} {v : UInt16 × Bytes} (hmax : 0 < maxLen) :
    Call.Settles (fun fuel => dnsReadName fuel data offset maxLen) (.done (some v)) ↔
      ∃ ls e, NameAt data.contents offset.toNat ls e ∧ (dotted ls).length < maxLen ∧
        v = (offset + UInt16.ofNat (e - offset.toNat), joined ls ++ [0]) := by
  unfold dnsReadName
  rw [Call.settles_ofRun_iff]
  have hstart : (readNameStart offset).dataPtr = offset.toNat := rfl
  have hval : ∀ ls own, readNameValue (readNameStart offset) ls own
      = (offset + UInt16.ofNat own, joined ls ++ [0]) := by
    intro ls own
    simp [readNameValue, readNameStart, dropLast_dotted]
  constructor
  · intro h
    obtain ⟨ls, e, hname, hroom, hv⟩ := nameAt_of_leaves h rfl hmax
    rw [hval] at hv
    exact ⟨ls, e, hname, by simpa [readNameStart] using hroom, hv⟩
  · intro h
    obtain ⟨ls, e, hname, hroom, rfl⟩ := h
    rw [← hval]
    exact leaves_of_nameAt hname hstart (by simpa [readNameStart] using hroom)

theorem dnsReadName_mono (data : Memory) (offset : UInt16) (maxLen : Nat) :
    Call.Mono (fun fuel => dnsReadName fuel data offset maxLen) := Call.Mono.ofRun _ _

end DnsServer
