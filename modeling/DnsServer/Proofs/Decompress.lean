/-
Names whose pointers point back.

`dns_read_name` follows any pointer, so on some messages it never stops.  Where every
pointer it meets points before itself it does: pointers alone then lead further and
further down and cannot come back to where they were, so they run in no ring, and
rings are all that keeps the loop from ending.  Labels can still lead round for ever,
but each of them takes up room in the destination, and when that is used up the loop
gives the name up.

The offset returned counts in sixteen bits.  It is the position after the name's own
bytes as long as that position has a sixteen-bit number, which the room left for the
text bounds.
-/
import DnsServer.Proofs.ParseEnds

namespace DnsServer

open Call

variable {data : Memory} {maxLen start : Nat}

/-- Every pointer met on the way from a position points to a position before itself. -/
def PointsBack (data : Memory) (maxLen start : Nat) : Prop :=
  ∀ p used, Follows data maxLen start p used → isPointer (data p) = true → jump data p < p

/-! ### Termination -/

/-- Pointers that point back lead down. -/
theorem PointsBack.iterate_lt (h : PointsBack data maxLen start) {used : Nat} (n : Nat) :
    ∀ {p : Nat}, Follows data maxLen start p used →
      (∀ k, isPointer (data ((jump data)^[k] p)) = true) →
      (jump data)^[n + 1] p < p := by
  induction n with
  | zero =>
      intro p hp hall
      exact h p used hp (hall 0)
  | succ n ih =>
      intro p hp hall
      have hfirst : jump data p < p := h p used hp (hall 0)
      have hrest : (jump data)^[n + 1] (jump data p) < jump data p := by
        refine ih (Follows.pointer hp (hall 0)) fun k => ?_
        rw [← Function.iterate_succ_apply]
        exact hall (k + 1)
      rw [Function.iterate_succ_apply]
      omega

/-- Where every pointer points back there is no ring of them. -/
theorem PointsBack.not_leadsToRing (h : PointsBack data maxLen start) :
    ¬ LeadsToRing data maxLen start := by
  intro hring
  obtain ⟨p, used, hp, n, hpos, hback, hall⟩ := hring
  obtain ⟨n, rfl⟩ : ∃ m, n = m + 1 := ⟨n - 1, by omega⟩
  have hdown := h.iterate_lt n hp hall
  omega

/-! ### Room -/

/-- The text fits with its NUL and a byte to spare: the loop asks for no less. -/
theorem dotted_fits_iff (hmax : 2 ≤ maxLen) (ls : List Bytes) :
    (dotted ls).length < maxLen ↔ (joined ls).length ≤ maxLen - 2 := by
  rcases ls with _ | ⟨l, ls⟩
  · have hnone : (joined []).length = 0 := rfl
    rw [hnone, dotted_nil, List.length_nil]
    omega
  · rw [dotted_eq_joined (List.cons_ne_nil l ls), List.length_append, List.length_singleton]
    omega

/-- The position after a name that fits, counted in sixteen bits, is that position. -/
theorem toNat_nameEnd {offset : UInt16} {ls : List Bytes} {e : Nat} {m : Contents}
    (hname : NameAt m offset.toNat ls e) (hfits : (dotted ls).length < maxLen)
    (hroom : offset.toNat + maxLen + 2 < 65536) :
    (offset + UInt16.ofNat (e - offset.toNat)).toNat = e := by
  have hlt := nameAt_lt_end hname
  have hle := nameAt_end_le hname
  rw [UInt16.toNat_add, UInt16.toNat_ofNat']
  omega

/-! ### What is read -/

/-- A name whose text fits is at the position, with these labels and this end. -/
def NameFits (data : Memory) (maxLen start : Nat) (ls : List Bytes) (e : Nat) : Prop :=
  NameAt data.contents start ls e ∧ (joined ls).length ≤ maxLen - 2

theorem dnsReadName_backward {offset : UInt16} (hmax : 2 ≤ maxLen)
    (hroom : offset.toNat + maxLen + 2 < 65536) (hback : PointsBack data maxLen offset.toNat) :
    ∃ result, Settles (fun fuel => dnsReadName fuel data offset maxLen) (done result) ∧
      (∀ ls e, NameFits data maxLen offset.toNat ls e →
        ∃ totalOffset, result = some (totalOffset, joined ls ++ [0]) ∧ totalOffset.toNat = e) ∧
      ((¬ ∃ ls e, NameFits data maxLen offset.toNat ls e) → result = none) := by
  obtain ⟨result, hresult⟩ := (dnsReadName_returns_iff.mpr hback.not_leadsToRing).settles
    (dnsReadName_mono data offset maxLen) (Defined.ofRun _ _)
  refine ⟨result, hresult, ?_, ?_⟩
  · intro ls e hfits
    obtain ⟨hname, hshort⟩ := hfits
    have hroom' : (dotted ls).length < maxLen := (dotted_fits_iff hmax ls).mpr hshort
    have hread := (dnsReadName_settles_iff (by omega)).mpr ⟨ls, e, hname, hroom', rfl⟩
    have heq := Settles.unique hresult hread
    rw [done.injEq] at heq
    exact ⟨_, heq, toNat_nameEnd hname hroom' hroom⟩
  · intro hnone
    rcases result with _ | value
    · rfl
    · obtain ⟨ls, e, hname, hroom', -⟩ := (dnsReadName_settles_iff (by omega)).mp hresult
      exact absurd ⟨ls, e, hname, (dotted_fits_iff hmax ls).mp hroom'⟩ hnone

/--
**Name decompression is correct.**  For every message followed by zeros, every offset and
every `max_len` of two or more with room for sixteen bits to count: where every pointer met
points back, `dns_read_name` ends.  If the labels come to an end and their text has at most
`max_len - 2` bytes it writes that text and returns the offset after the name's own bytes;
if not it returns -1.  Labels may have any length an octet that starts no pointer can say.
-/
theorem dnsReadName_decompresses (msg : Bytes) (offset : UInt16) (maxLen : Nat)
    (hmax : 2 ≤ maxLen) (hroom : offset.toNat + maxLen + 2 < 65536)
    (hback : PointsBack (Memory.ofBytes msg fun _ => 0) maxLen offset.toNat) :
    ∃ result,
      Settles (fun fuel => dnsReadName fuel (Memory.ofBytes msg fun _ => 0) offset maxLen)
        (done result) ∧
      (∀ ls e, NameFits (Memory.ofBytes msg fun _ => 0) maxLen offset.toNat ls e →
        ∃ totalOffset, result = some (totalOffset, joined ls ++ [0]) ∧ totalOffset.toNat = e) ∧
      ((¬ ∃ ls e, NameFits (Memory.ofBytes msg fun _ => 0) maxLen offset.toNat ls e) →
        result = none) :=
  dnsReadName_backward hmax hroom hback

/-! ### A compressed name -/

/-- The labels of `example.com`, and after them `www` and a pointer to them. -/
def compressedName : Bytes :=
  7 :: ascii "example" ++ 3 :: ascii "com" ++ [0] ++ 3 :: ascii "www" ++ [0xC0, 0]

/-- The name leads through its own label and back to the ones before it. -/
theorem compressedName_follows {p used : Nat}
    (h : Follows (Memory.ofBytes compressedName fun _ => 0) 256 13 p used) :
    p ∈ [13, 17, 0, 8, 12] := by
  have hlabel : ∀ p ∈ [13, 17, 0, 8, 12], Memory.ofBytes compressedName (fun _ => 0) p ≠ 0 →
      isPointer (Memory.ofBytes compressedName (fun _ => 0) p) = false →
      p + 1 + (Memory.ofBytes compressedName (fun _ => 0) p).toNat ∈ [13, 17, 0, 8, 12] := by
    decide
  have hpointer : ∀ p ∈ [13, 17, 0, 8, 12],
      isPointer (Memory.ofBytes compressedName (fun _ => 0) p) = true →
      jump (Memory.ofBytes compressedName fun _ => 0) p ∈ [13, 17, 0, 8, 12] := by
    decide
  induction h with
  | start => exact List.mem_cons_self
  | label _ hne hptr _ ih => exact hlabel _ ih hne hptr
  | pointer _ hptr ih => exact hpointer _ ih hptr

theorem compressedName_pointsBack :
    PointsBack (Memory.ofBytes compressedName fun _ => 0) 256 13 := by
  have hback : ∀ p ∈ [13, 17, 0, 8, 12],
      isPointer (Memory.ofBytes compressedName (fun _ => 0) p) = true →
      jump (Memory.ofBytes compressedName fun _ => 0) p < p := by
    decide
  intro p used hfollows hptr
  exact hback p (compressedName_follows hfollows) hptr

/-- It is read as `www.example.com`, and the offset returned is the one after its pointer. -/
theorem dnsReadName_decompresses_www :
    Settles (fun fuel => dnsReadName fuel (Memory.ofBytes compressedName fun _ => 0) 13 256)
      (done (some (19, ascii "www.example.com" ++ [0]))) := by
  obtain ⟨result, hresult, hfits, -⟩ := dnsReadName_decompresses compressedName 13 256
    (by decide) (by decide) compressedName_pointsBack
  have htarget : NameAt (Memory.ofBytes compressedName fun _ => 0).contents 0
      [ascii "example", ascii "com"] 13 := by
    refine NameAt.label rfl (by decide) (by decide) rfl (by decide) ?_
    refine NameAt.label rfl (by decide) (by decide) rfl (by decide) ?_
    exact NameAt.root rfl
  have hname : NameAt (Memory.ofBytes compressedName fun _ => 0).contents 13
      [ascii "www", ascii "example", ascii "com"] 19 := by
    refine NameAt.label rfl (by decide) (by decide) rfl (by decide) ?_
    exact NameAt.pointer rfl (by decide) rfl htarget
  obtain ⟨totalOffset, rfl, hend⟩ := hfits _ 19 ⟨hname, by decide⟩
  have htotal : totalOffset = 19 := UInt16.toNat.inj hend
  rw [htotal] at hresult
  exact hresult

end DnsServer
