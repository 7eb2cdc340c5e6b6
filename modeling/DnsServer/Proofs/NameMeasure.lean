/-
The two measures of a name.

`dns_read_name` returns the offset after a name and `util_measure_name` the bytes the
name takes up.  The first goes on behind a pointer, through any number of further ones,
with its offset standing still; the second stops at the first pointer.  A name that is
read ends where its own bytes end, which is what the second counts, and the room of the
buffer keeps the sixteen bits of the first from wrapping.
-/
import DnsServer.Proofs.LegalNames

namespace DnsServer

open Call Loop

variable {data : Memory} {offset : UInt16}

/-! ### One turn -/

theorem measureNameBody_root {s : MeasureState} (h : data s.dataPtr = 0) :
    measureNameBody data s = .leave (s.length + 1) := by
  unfold measureNameBody
  rw [if_pos h]

theorem measureNameBody_pointer {s : MeasureState} (h : isPointer (data s.dataPtr) = true) :
    measureNameBody data s = .leave (s.length + 2) := by
  unfold measureNameBody
  rw [if_neg (isPointer_ne_zero h), if_pos h]

theorem measureNameBody_label {s : MeasureState} (hne : data s.dataPtr ≠ 0)
    (hptr : isPointer (data s.dataPtr) = false) :
    measureNameBody data s = .again
      { dataPtr := s.dataPtr + ((data s.dataPtr).toNat + 1)
        length := s.length + ((data s.dataPtr).toNat + 1) } := by
  unfold measureNameBody
  simp only [if_neg hne, hptr, Bool.false_eq_true, if_false]

/-! ### The name's own bytes -/

/-- Started at a name, the loop counts the bytes up to the name's end. -/
theorem measure_leaves {p e : Nat} {ls : List Bytes} (h : NameAt data.contents p ls e) :
    ∀ {s : MeasureState}, s.dataPtr = p →
      Leaves (measureNameBody data) s (s.length + (e - p)) := by
  induction h with
  | @root p h0 =>
      intro s hs
      have hb : data s.dataPtr = 0 := by simpa [hs] using h0
      rw [show p + 1 - p = 1 by omega]
      exact Leaves.leave (measureNameBody_root hb)
  | @label p e b l ls hb hne hptr hlen hl hrest ih =>
      intro s hs
      have hb' : data s.dataPtr = b := by simpa [hs] using hb
      have hlt := nameAt_lt_end hrest
      have hcounted : s.length + (e - p) = s.length + (b.toNat + 1) + (e - (p + 1 + b.toNat)) := by
        omega
      rw [hcounted]
      refine Leaves.again ?_
        (ih (s := { dataPtr := p + 1 + b.toNat, length := s.length + (b.toNat + 1) }) rfl)
      rw [measureNameBody_label (by rw [hb']; exact hne) (by rw [hb']; exact hptr), hb', hs,
        show p + (b.toNat + 1) = p + 1 + b.toNat by omega]
  | @pointer p e b c ls hb hptr _ _ _ =>
      -- the name's own bytes end here, wherever the pointer leads
      intro s hs
      have hb' : data s.dataPtr = b := by simpa [hs] using hb
      rw [show p + 2 - p = 2 by omega]
      exact Leaves.leave (measureNameBody_pointer (by rw [hb']; exact hptr))

theorem utilMeasureName_settles {e : Nat} {ls : List Bytes}
    (h : NameAt data.contents offset.toNat ls e) :
    Settles (fun fuel => utilMeasureName fuel data offset) (done (e - offset.toNat)) := by
  have hleaves := measure_leaves h (s := { dataPtr := offset.toNat, length := 0 }) rfl
  rw [Nat.zero_add] at hleaves
  exact settles_ofRun_iff.mpr hleaves

/--
**The two measures of a name agree.**  For every message and offset with room for the longest
name below 65536: where `dns_read_name` returns a name, with the buffer its callers give it,
`util_measure_name` returns too, and the offset returned is the name's plus what it measures.
-/
theorem name_measures_agree (data : Memory) (offset : UInt16) (value : UInt16 × Bytes)
    (hroom : offset.toNat ≤ 65535 - 257)
    (hread : Settles (fun fuel => dnsReadName fuel data offset nameBufferSize)
      (done (some value))) :
    ∃ length, Settles (fun fuel => utilMeasureName fuel data offset) (done length) ∧
      value.1.toNat = offset.toNat + length := by
  obtain ⟨ls, e, hname, hfits, rfl⟩ := (dnsReadName_settles_iff (by decide)).mp hread
  refine ⟨_, utilMeasureName_settles hname, ?_⟩
  have hlt := nameAt_lt_end hname
  have hle := nameAt_end_le hname
  have hshort : (dotted ls).length < 256 := hfits
  show (offset + UInt16.ofNat (e - offset.toNat)).toNat = offset.toNat + (e - offset.toNat)
  rw [UInt16.toNat_add, UInt16.toNat_ofNat']
  omega

/-- `www` and a pointer take up six bytes. -/
theorem name_measures_agree_www :
    ∃ length, Settles (fun fuel => utilMeasureName fuel
        (Memory.ofBytes compressedName fun _ => 0) 13) (done length) ∧
      (19 : UInt16).toNat = (13 : UInt16).toNat + length :=
  name_measures_agree (Memory.ofBytes compressedName fun _ => 0) 13
    (19, ascii "www.example.com" ++ [0]) (by decide)
    ((dnsReadName_mono _ _ _).settles_done 9 rfl)

end DnsServer
