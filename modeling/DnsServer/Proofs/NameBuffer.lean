/-
Decoded names stay in their buffer.

`dns_read_name` copies a label only where the label, its dot and one byte more fit
behind what is there, so the offset it writes at never comes up to `max_len`, however
often the loop goes round and whether or not it ends.  The terminator goes where the
last dot is, or to the front when there is none, and both are inside.

The cursor of this file and the state of `dnsReadName` go through the same turns: what
the writes leave is the text the other carries.
-/
import DnsServer.Code.Buffers
import DnsServer.Proofs.LegalNames

namespace DnsServer

open Call Loop Writes

variable {data : Memory} {maxLen : Nat} {offset : UInt16}

/-! ### One turn -/

/-- The cursor after a pointer. -/
def readNameWritePointer (data : Memory) (s : NameCursor) : NameCursor :=
  { s with
    dataPtr := jumpOffset (data s.dataPtr) (data (s.dataPtr + 1))
    jumped := true
    totalOffset := if s.jumped then s.totalOffset else s.totalOffset + 2 }

/-- The writes a label is copied with, and its dot. -/
def labelWrites (data : Memory) (s : NameCursor) : List (Nat × UInt8) :=
  copyAt s.destOffset (slice data (s.dataPtr + 1) (data s.dataPtr).toNat) ++
    [(s.destOffset + (data s.dataPtr).toNat, dot)]

/-- The cursor after a label that fits. -/
def readNameWriteLabel (data : Memory) (s : NameCursor) : NameCursor :=
  { dataPtr := s.dataPtr + 1 + (data s.dataPtr).toNat
    destOffset := s.destOffset + (data s.dataPtr).toNat + 1
    jumped := s.jumped
    totalOffset :=
      if s.jumped then s.totalOffset
      else s.totalOffset + 1 + UInt16.ofNat (data s.dataPtr).toNat
    writes := s.writes ++ labelWrites data s }

/-- Where the terminator goes. -/
def terminatorOf (s : NameCursor) : Nat := if 0 < s.destOffset then s.destOffset - 1 else 0

/-- The offset returned and the writes made when the name ends. -/
def readNameWriteEnd (s : NameCursor) : Option UInt16 × List (Nat × UInt8) :=
  (some (if s.jumped then s.totalOffset else s.totalOffset + 1),
    s.writes ++ [(terminatorOf s, 0)])

/-- What one turn does: the name ends, a pointer is followed, a label does not fit or is copied. -/
theorem readNameWrite_cases (data : Memory) (maxLen : Nat) (s : NameCursor) :
    (data s.dataPtr = 0 ∧ readNameWrite data maxLen s = .leave (readNameWriteEnd s)) ∨
    (data s.dataPtr ≠ 0 ∧ isPointer (data s.dataPtr) = true ∧
      readNameWrite data maxLen s = .again (readNameWritePointer data s)) ∨
    (data s.dataPtr ≠ 0 ∧ isPointer (data s.dataPtr) = false ∧
      maxLen ≤ s.destOffset + (data s.dataPtr).toNat + 1 ∧
      readNameWrite data maxLen s = .leave (none, s.writes)) ∨
    (data s.dataPtr ≠ 0 ∧ isPointer (data s.dataPtr) = false ∧
      s.destOffset + (data s.dataPtr).toNat + 1 < maxLen ∧
      readNameWrite data maxLen s = .again (readNameWriteLabel data s)) := by
  by_cases h0 : data s.dataPtr = 0
  · refine Or.inl ⟨h0, ?_⟩
    unfold readNameWrite
    rw [if_pos h0]
    rfl
  by_cases hptr : isPointer (data s.dataPtr) = true
  · refine Or.inr (Or.inl ⟨h0, hptr, ?_⟩)
    unfold readNameWrite
    simp only [if_neg h0, hptr, if_true]
    rfl
  have hfalse : isPointer (data s.dataPtr) = false := by simpa using hptr
  have hlabel : readNameWrite data maxLen s =
      if maxLen ≤ s.destOffset + (data s.dataPtr).toNat + 1 then .leave (none, s.writes)
      else .again (readNameWriteLabel data s) := by
    unfold readNameWrite readNameWriteLabel labelWrites
    simp only [if_neg h0, hfalse, Bool.false_eq_true, if_false, List.append_assoc]
  by_cases hfull : maxLen ≤ s.destOffset + (data s.dataPtr).toNat + 1
  · refine Or.inr (Or.inr (Or.inl ⟨h0, hfalse, hfull, ?_⟩))
    rw [hlabel, if_pos hfull]
  · refine Or.inr (Or.inr (Or.inr ⟨h0, hfalse, by omega, ?_⟩))
    rw [hlabel, if_neg hfull]

/-! ### The same name -/

/-- The cursor has written the text the state carries. -/
structure Copies (s : NameCursor) (t : ReadState) : Prop where
  dataPtr : s.dataPtr = t.dataPtr
  destOffset : s.destOffset = t.dest.length
  jumped : s.jumped = t.jumped
  totalOffset : s.totalOffset = t.totalOffset
  lays : Lays 0 t.dest s.writes

theorem Copies.start (offset : UInt16) :
    Copies (readNameWriteStart offset) (readNameStart offset) :=
  ⟨rfl, rfl, rfl, rfl, lays_copyAt 0 []⟩

variable {s : NameCursor} {t : ReadState}

theorem Copies.pointer (h : Copies s t) :
    Copies (readNameWritePointer data s) (readNamePointer data t) where
  dataPtr := by
    show jumpOffset _ _ = jumpOffset _ _
    rw [h.dataPtr]
  destOffset := h.destOffset
  jumped := rfl
  totalOffset := by
    show (if s.jumped then s.totalOffset else s.totalOffset + 2) = _
    rw [h.jumped, h.totalOffset]
    rfl
  lays := h.lays

theorem Copies.label (h : Copies s t) :
    Copies (readNameWriteLabel data s) (readNameLabel data t) where
  dataPtr := by
    show s.dataPtr + 1 + (data s.dataPtr).toNat = _
    rw [h.dataPtr]
    rfl
  destOffset := by
    show s.destOffset + (data s.dataPtr).toNat + 1 = _
    rw [length_dest_label, h.destOffset, h.dataPtr]
  jumped := h.jumped
  totalOffset := by
    show (if s.jumped then s.totalOffset
      else s.totalOffset + 1 + UInt16.ofNat (data s.dataPtr).toNat) = _
    rw [h.jumped, h.totalOffset, h.dataPtr]
    rfl
  lays := by
    show Lays 0 (t.dest ++ slice data (t.dataPtr + 1) (data t.dataPtr).toNat ++ [dot])
      (s.writes ++ labelWrites data s)
    unfold labelWrites
    rw [List.append_assoc, h.destOffset, h.dataPtr]
    refine h.lays.append ?_ (Nat.zero_add _).symm
    refine (lays_copyAt _ _).append (lays_copyAt _ [dot]) ?_
    rw [length_slice]

/-- The terminator takes the place of the last dot. -/
theorem lays_terminator (h : Copies s t) :
    Lays 0 (t.dest.dropLast ++ [0]) (s.writes ++ [(terminatorOf s, 0)]) := by
  have hplace : terminatorOf s = t.dest.length - 1 := by
    unfold terminatorOf
    rw [h.destOffset]
    by_cases hpos : 0 < t.dest.length
    · rw [if_pos hpos]
    · rw [if_neg hpos]
      omega
  obtain ⟨last, hlast, hdest⟩ :
      ∃ last : Bytes, last.length ≤ 1 ∧ t.dest.dropLast ++ last = t.dest := by
    rcases List.eq_nil_or_concat' t.dest with hnil | ⟨front, b, hconcat⟩
    · exact ⟨[], Nat.zero_le 1, by rw [hnil]; rfl⟩
    · exact ⟨[b], Nat.le_refl 1, by rw [hconcat, List.dropLast_concat]⟩
  have hold : Lays 0 (t.dest.dropLast ++ last) s.writes := by
    rw [hdest]
    exact h.lays
  refine hold.overwrite (lays_copyAt (terminatorOf s) [0]) ?_ hlast
  rw [hplace, List.length_dropLast, Nat.zero_add]

/-- What the cursor's loop comes to where the other loop leaves. -/
def CopiesResult (read : Option (UInt16 × Bytes))
    (result : Option UInt16 × List (Nat × UInt8)) : Prop :=
  result.1 = read.map Prod.fst ∧ ∀ value, read = some value → Lays 0 value.2 result.2

/-- The two loops leave together. -/
theorem leaves_readNameWrite {read : Option (UInt16 × Bytes)}
    (h : Leaves (readNameBody data maxLen) t read) :
    ∀ {s : NameCursor}, Copies s t →
      ∃ result, Leaves (readNameWrite data maxLen) s result ∧ CopiesResult read result := by
  induction h with
  | @leave t read hb =>
      intro s hcopies
      have hptr := hcopies.dataPtr
      have hoffset := hcopies.destOffset
      rcases readNameWrite_cases data maxLen s with
        ⟨h0, hturn⟩ | ⟨-, hpointer, -⟩ | ⟨hne, hlabel, hfull, hturn⟩ | ⟨hne, hlabel, hfits, -⟩
      · rw [hptr] at h0
        rw [readNameBody_root h0, Turn.leave.injEq] at hb
        subst hb
        refine ⟨_, Leaves.leave hturn, ?_, ?_⟩
        · show some (if s.jumped then s.totalOffset else s.totalOffset + 1) = _
          rw [hcopies.jumped, hcopies.totalOffset]
          rfl
        · intro value hvalue
          rw [← Option.some.inj hvalue]
          exact lays_terminator hcopies
      · rw [hptr] at hpointer
        rw [readNameBody_pointer hpointer] at hb
        simp at hb
      · rw [hptr] at hne hlabel hfull
        rw [hoffset] at hfull
        rw [readNameBody_label hne hlabel, if_pos hfull, Turn.leave.injEq] at hb
        subst hb
        exact ⟨_, Leaves.leave hturn, rfl, fun value hvalue => by simp at hvalue⟩
      · rw [hptr] at hne hlabel hfits
        rw [readNameBody_label hne hlabel, if_neg (by omega)] at hb
        simp at hb
  | @again t t' read hb _ ih =>
      intro s hcopies
      have hptr := hcopies.dataPtr
      have hoffset := hcopies.destOffset
      rcases readNameWrite_cases data maxLen s with
        ⟨h0, -⟩ | ⟨-, hpointer, hturn⟩ | ⟨hne, hlabel, hfull, -⟩ | ⟨hne, hlabel, hfits, hturn⟩
      · rw [hptr] at h0
        rw [readNameBody_root h0] at hb
        simp at hb
      · rw [hptr] at hpointer
        rw [readNameBody_pointer hpointer, Turn.again.injEq] at hb
        subst hb
        obtain ⟨result, hleaves, hresult⟩ := ih hcopies.pointer
        exact ⟨result, Leaves.again hturn hleaves, hresult⟩
      · rw [hptr] at hne hlabel hfull
        rw [readNameBody_label hne hlabel, if_pos (by omega)] at hb
        simp at hb
      · rw [hptr] at hne hlabel hfits
        rw [readNameBody_label hne hlabel, if_neg (by omega), Turn.again.injEq] at hb
        subst hb
        obtain ⟨result, hleaves, hresult⟩ := ih hcopies.label
        exact ⟨result, Leaves.again hturn hleaves, hresult⟩

/-- The writes of a call that returns leave the text the call is said to return. -/
theorem readNameWrite_lays {read : Option (UInt16 × Bytes)}
    (h : Settles (fun fuel => dnsReadName fuel data offset maxLen) (done read)) :
    ∃ result, Leaves (readNameWrite data maxLen) (readNameWriteStart offset) result ∧
      CopiesResult read result :=
  leaves_readNameWrite (settles_ofRun_iff.mp h) (Copies.start offset)

/-! ### Inside the buffer -/

/-- The offset leaves room for a byte more, and everything written is in the buffer. -/
structure InBuffer (maxLen : Nat) (s : NameCursor) : Prop where
  room : s.destOffset + 1 ≤ maxLen
  inside : Inside maxLen s.writes

theorem InBuffer.start (hmax : 1 ≤ maxLen) : InBuffer maxLen (readNameWriteStart offset) :=
  ⟨hmax, inside_nil maxLen⟩

theorem InBuffer.label (h : InBuffer maxLen s)
    (hfits : s.destOffset + (data s.dataPtr).toNat + 1 < maxLen) :
    InBuffer maxLen (readNameWriteLabel data s) where
  room := hfits
  inside := by
    show Inside maxLen (s.writes ++ labelWrites data s)
    have hlays : Lays s.destOffset (slice data (s.dataPtr + 1) (data s.dataPtr).toNat ++ [dot])
        (labelWrites data s) :=
      (lays_copyAt _ _).append (lays_copyAt _ [dot]) (by rw [length_slice])
    rw [inside_append_iff, hlays.inside_iff (by simp)]
    refine ⟨h.inside, ?_⟩
    rw [List.length_append, length_slice, List.length_singleton]
    omega

/-- One turn keeps it. -/
theorem InBuffer.again {s' : NameCursor} (h : InBuffer maxLen s)
    (hturn : readNameWrite data maxLen s = .again s') : InBuffer maxLen s' := by
  rcases readNameWrite_cases data maxLen s with
    ⟨-, heq⟩ | ⟨-, -, heq⟩ | ⟨-, -, -, heq⟩ | ⟨-, -, hfits, heq⟩
  · rw [heq] at hturn
    simp at hturn
  · rw [heq, Turn.again.injEq] at hturn
    rw [← hturn]
    exact ⟨h.room, h.inside⟩
  · rw [heq] at hturn
    simp at hturn
  · rw [heq, Turn.again.injEq] at hturn
    rw [← hturn]
    exact h.label hfits

theorem InBuffer.terminator_lt (h : InBuffer maxLen s) : terminatorOf s < maxLen := by
  have hroom := h.room
  unfold terminatorOf
  split
  · omega
  · omega

/-- What is left behind when the loop leaves: writes inside, and after a name a NUL there. -/
def EndsInBuffer (maxLen : Nat) (result : Option UInt16 × List (Nat × UInt8)) : Prop :=
  Inside maxLen result.2 ∧
    ∀ totalOffset, result.1 = some totalOffset → ∃ i < maxLen, written result.2 i = some 0

theorem InBuffer.leave {result : Option UInt16 × List (Nat × UInt8)} (h : InBuffer maxLen s)
    (hturn : readNameWrite data maxLen s = .leave result) : EndsInBuffer maxLen result := by
  rcases readNameWrite_cases data maxLen s with
    ⟨-, heq⟩ | ⟨-, -, heq⟩ | ⟨-, -, -, heq⟩ | ⟨-, -, -, heq⟩
  · rw [heq, Turn.leave.injEq] at hturn
    rw [← hturn]
    refine ⟨?_, ?_⟩
    · refine inside_append_iff.mpr ⟨h.inside, ?_⟩
      intro w hw
      rw [List.mem_singleton.mp hw]
      exact h.terminator_lt
    · intro totalOffset _
      refine ⟨terminatorOf s, h.terminator_lt, ?_⟩
      show written (s.writes ++ [(terminatorOf s, 0)]) (terminatorOf s) = some 0
      rw [written_append, written_singleton, if_pos rfl]
      rfl
  · rw [heq] at hturn
    simp at hturn
  · rw [heq, Turn.leave.injEq] at hturn
    rw [← hturn]
    exact ⟨h.inside, fun totalOffset hsome => by simp at hsome⟩
  · rw [heq] at hturn
    simp at hturn

/--
**Decoded names never overrun their buffer**, whatever the message, the offset and the size:
after any number of turns the offset is at most `max_len - 1`, every write made is below
`max_len`, and the sum the guard tests is less than `max_len + 256`, which a `size_t` holds
for every buffer there is.  Where the call returns, the same is true of all its writes, and
with a value that is not negative they leave a NUL below `max_len`.
-/
theorem name_stays_in_buffer (data : Memory) (offset : UInt16) (maxLen : Nat)
    (hmax : 1 ≤ maxLen) :
    (∀ s, Visits (readNameWrite data maxLen) (readNameWriteStart offset) s →
      s.destOffset ≤ maxLen - 1 ∧ Inside maxLen s.writes ∧
        s.destOffset + (data s.dataPtr).toNat + 1 < maxLen + 256) ∧
    ∀ result, Leaves (readNameWrite data maxLen) (readNameWriteStart offset) result →
      Inside maxLen result.2 ∧
        ∀ totalOffset, result.1 = some totalOffset →
          ∃ i < maxLen, written result.2 i = some 0 := by
  refine ⟨?_, ?_⟩
  · intro s hvisits
    have hin : InBuffer maxLen s :=
      hvisits.of_inv (fun _ _ h hturn => h.again hturn) (InBuffer.start hmax)
    have hroom := hin.room
    have hoctet := (data s.dataPtr).toNat_lt
    exact ⟨by omega, hin.inside, by omega⟩
  · intro result hleaves
    have hends : EndsInBuffer maxLen result :=
      hleaves.of_inv (fun _ _ h hturn => h.again hturn) (fun _ _ h hturn => h.leave hturn)
        (InBuffer.start hmax)
    exact hends

/-- `www` and a pointer to `example.com`, read into the 17 bytes the name just fits. -/
theorem name_stays_in_buffer_www :
    ∃ writes, Leaves (readNameWrite (Memory.ofBytes compressedName fun _ => 0) 17)
        (readNameWriteStart 13) (some 19, writes) ∧
      Inside 17 writes ∧ ∃ i < 17, written writes i = some 0 := by
  obtain ⟨result, hleaves, hvalue⟩ :
      ∃ result, Leaves (readNameWrite (Memory.ofBytes compressedName fun _ => 0) 17)
        (readNameWriteStart 13) result ∧ result.1 = some 19 :=
    ⟨_, leaves_of_run (by rfl : Loop.run _ 5 _ = some _), rfl⟩
  obtain ⟨hinside, hnul⟩ :=
    (name_stays_in_buffer (Memory.ofBytes compressedName fun _ => 0) 13 17 (by decide)).2
      result hleaves
  refine ⟨result.2, ?_, hinside, hnul 19 hvalue⟩
  rw [← hvalue]
  exact hleaves

end DnsServer
