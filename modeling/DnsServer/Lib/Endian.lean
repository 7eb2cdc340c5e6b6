/-
Numbers as bytes, in both orders.

A multi-byte number goes to memory in the host's order and to the wire in the
network's.  Everything here is about the one list of bytes both orders share:
`leBytes w x` is the number `x` in `w` bytes, least significant first, and the
other order is its reverse.  Swapping the bytes of a number is then reading back
the reversed list, so a swapped number laid out little end first is the number
laid out big end first, and the other way round.
-/
import Mathlib.Data.List.Basic
import Mathlib.Tactic.Ring

namespace Endian

/-- The `w` low bytes of `x`, least significant first. -/
def leBytes : Nat → Nat → List UInt8
  | 0, _ => []
  | w + 1, x => UInt8.ofNat x :: leBytes w (x / 256)

/-- The number a list of bytes spells, least significant byte first. -/
def ofLeBytes : List UInt8 → Nat
  | [] => 0
  | b :: bs => b.toNat + 256 * ofLeBytes bs

/-- The same bytes, most significant first. -/
def beBytes (w x : Nat) : List UInt8 := (leBytes w x).reverse

/-- The number a list of bytes spells, most significant byte first. -/
def ofBeBytes (bs : List UInt8) : Nat := ofLeBytes bs.reverse

/-- The number whose `w` bytes are those of `x` in the opposite order. -/
def swapBytes (w x : Nat) : Nat := ofLeBytes (leBytes w x).reverse

@[simp] theorem length_leBytes (w x : Nat) : (leBytes w x).length = w := by
  induction w generalizing x with
  | zero => rfl
  | succ w ih => simp [leBytes, ih]

@[simp] theorem length_beBytes (w x : Nat) : (beBytes w x).length = w := by
  rw [beBytes, List.length_reverse, length_leBytes]

theorem ofLeBytes_lt (bs : List UInt8) : ofLeBytes bs < 256 ^ bs.length := by
  induction bs with
  | nil => simp [ofLeBytes]
  | cons b bs ih =>
      have hb := b.toNat_lt
      simp only [ofLeBytes, List.length_cons, Nat.pow_succ]
      omega

theorem ofBeBytes_lt (bs : List UInt8) : ofBeBytes bs < 256 ^ bs.length := by
  have h := ofLeBytes_lt bs.reverse
  rwa [List.length_reverse] at h

theorem swapBytes_lt (w x : Nat) : swapBytes w x < 256 ^ w := by
  have h := ofLeBytes_lt (leBytes w x).reverse
  simpa [swapBytes] using h

/-- Laying a number out and reading it back keeps its `w` low bytes. -/
theorem ofLeBytes_leBytes (w x : Nat) : ofLeBytes (leBytes w x) = x % 256 ^ w := by
  induction w generalizing x with
  | zero => simp [leBytes, ofLeBytes, Nat.mod_one]
  | succ w ih =>
      simp only [leBytes, ofLeBytes, ih, UInt8.toNat_ofNat']
      show x % 256 + 256 * (x / 256 % 256 ^ w) = x % 256 ^ (w + 1)
      rw [show (256 : Nat) ^ (w + 1) = 256 * 256 ^ w from by ring, Nat.mod_mul]

/-- Reading bytes and laying the number out again gives the bytes. -/
theorem leBytes_ofLeBytes (bs : List UInt8) : leBytes bs.length (ofLeBytes bs) = bs := by
  induction bs with
  | nil => rfl
  | cons b bs ih =>
      have hb := b.toNat_lt
      have hhead : UInt8.ofNat (b.toNat + 256 * ofLeBytes bs) = b := by
        apply UInt8.toNat_inj.mp
        rw [UInt8.toNat_ofNat']
        omega
      have htail : (b.toNat + 256 * ofLeBytes bs) / 256 = ofLeBytes bs := by omega
      simp only [List.length_cons, ofLeBytes, leBytes, hhead, htail, ih]

/-- A swapped number in one order is the number in the other. -/
theorem leBytes_swapBytes (w x : Nat) : leBytes w (swapBytes w x) = beBytes w x := by
  have h := leBytes_ofLeBytes (leBytes w x).reverse
  simpa [swapBytes, beBytes] using h

/-- Swapping what was read in one order is reading it in the other. -/
theorem swapBytes_ofLeBytes (bs : List UInt8) :
    swapBytes bs.length (ofLeBytes bs) = ofBeBytes bs := by
  rw [swapBytes, leBytes_ofLeBytes, ofBeBytes]

theorem ofBeBytes_beBytes (w x : Nat) : ofBeBytes (beBytes w x) = x % 256 ^ w := by
  rw [ofBeBytes, beBytes, List.reverse_reverse, ofLeBytes_leBytes]

/-- Numbers that fit are told apart by their bytes. -/
theorem beBytes_inj {w x y : Nat} (hx : x < 256 ^ w) (hy : y < 256 ^ w)
    (h : beBytes w x = beBytes w y) : x = y := by
  have hof := congrArg ofBeBytes h
  rwa [ofBeBytes_beBytes, ofBeBytes_beBytes, Nat.mod_eq_of_lt hx, Nat.mod_eq_of_lt hy] at hof

theorem beBytes_ofBeBytes (bs : List UInt8) : beBytes bs.length (ofBeBytes bs) = bs := by
  have h := leBytes_ofLeBytes bs.reverse
  rw [List.length_reverse] at h
  rw [beBytes, ofBeBytes, h, List.reverse_reverse]

/-- Bytes spell a number that fits them exactly when they are the number laid out. -/
theorem ofBeBytes_eq_iff {bs : List UInt8} {x : Nat} (hx : x < 256 ^ bs.length) :
    ofBeBytes bs = x ↔ bs = beBytes bs.length x := by
  refine ⟨?_, ?_⟩
  · intro h
    rw [← h, beBytes_ofBeBytes]
  · intro h
    rw [h, ofBeBytes_beBytes, Nat.mod_eq_of_lt hx]

end Endian
