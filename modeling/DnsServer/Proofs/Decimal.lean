/-
Numbers as text.

`inet_ntop`, `sprintf` and the shell print a number's decimal digits, `atoi` reads them
back: the digits make the number again, so numbers with one text are one, and what an
`int` holds is what `atoi` returns.
-/
import DnsServer.Code.Loader

namespace DnsServer

theorem ascii_decimal (n : Nat) :
    ascii (toString n) = (Nat.toDigits 10 n).map fun c => UInt8.ofNat c.toNat := by
  rw [ascii, Nat.toString_eq_repr, Nat.toList_repr]

/-- The bytes of a number are digits. -/
theorem decimal_digit {n : Nat} {b : UInt8} (h : b ∈ ascii (toString n)) :
    48 ≤ b.toNat ∧ b.toNat ≤ 57 := by
  rw [ascii_decimal] at h
  obtain ⟨c, hc, rfl⟩ := List.mem_map.mp h
  have hdigit := Nat.isDigit_of_mem_toDigits (by decide) (by decide) hc
  rw [Char.isDigit_iff_toNat] at hdigit
  have hlt : c.toNat < 256 := Nat.lt_of_le_of_lt hdigit.2 (by decide)
  rw [UInt8.toNat_ofNat', Nat.mod_eq_of_lt hlt]
  exact hdigit

theorem length_decimal_le_iff {n k : Nat} (hk : 0 < k) :
    (ascii (toString n)).length ≤ k ↔ n < 10 ^ k := by
  rw [ascii_decimal, List.length_map]
  exact Nat.length_toDigits_le_iff (by decide) hk

theorem noNul_decimal (n : Nat) : (0 : UInt8) ∉ ascii (toString n) :=
  fun hmem => absurd (decimal_digit hmem).1 (by decide)

theorem isDigit_decimal {n : Nat} {c : UInt8} (h : c ∈ ascii (toString n)) : isDigit c = true := by
  have hdigit := decimal_digit h
  unfold isDigit
  rw [Bool.and_eq_true, decide_eq_true_eq, decide_eq_true_eq]
  exact ⟨UInt8.le_iff_toNat_le.mpr hdigit.1, UInt8.le_iff_toNat_le.mpr hdigit.2⟩

theorem decimal_ne_nil (n : Nat) : ascii (toString n) ≠ [] := by
  intro hnil
  rw [ascii_decimal, List.map_eq_nil_iff] at hnil
  exact Nat.toDigits_ne_nil hnil

/-- Digits are worth the same to `strtol`. -/
theorem foldl_digits (digits : List Char) (h : ∀ c ∈ digits, c.isDigit = true) (init : Nat) :
    (digits.map fun c => UInt8.ofNat c.toNat).foldl
        (fun (n : Int) c => n * 10 + (c.toNat - 48)) init
      = (Nat.ofDigitChars 10 digits init : Nat) := by
  induction digits generalizing init with
  | nil => rfl
  | cons c digits ih =>
      have hc := Char.isDigit_iff_toNat.mp (h c List.mem_cons_self)
      have hbyte : (UInt8.ofNat c.toNat).toNat = c.toNat := by
        rw [UInt8.toNat_ofNat', Nat.mod_eq_of_lt (Nat.lt_of_le_of_lt hc.2 (by decide))]
      have hzero : '0'.toNat = 48 := rfl
      have hstep : (init : Int) * 10 + ((c.toNat : Int) - 48)
          = ((10 * init + (c.toNat - '0'.toNat) : Nat) : Int) := by
        rw [hzero]
        omega
      rw [List.map_cons, List.foldl_cons, hbyte, hstep,
        ih fun d hd => h d (List.mem_cons_of_mem c hd), Nat.ofDigitChars_cons]

/-- The digits of a number make the number. -/
theorem digitsValue_decimal (n : Nat) : digitsValue (ascii (toString n) ++ [newline]) = n := by
  have hdigits : (ascii (toString n) ++ [newline]).takeWhile isDigit = ascii (toString n) := by
    rw [List.takeWhile_append_of_pos fun c hc => isDigit_decimal hc,
      List.takeWhile_cons_of_neg (by decide), List.append_nil]
  have hfold := foldl_digits (Nat.toDigits 10 n)
    (fun c hc => Nat.isDigit_of_mem_toDigits (by decide) (by decide) hc) 0
  rw [← ascii_decimal, Nat.ofDigitChars_ten_toDigits] at hfold
  unfold digitsValue
  rw [hdigits]
  exact hfold

/-- Numbers are told apart by their texts. -/
theorem decimal_inj {m n : Nat} (h : ascii (toString m) = ascii (toString n)) : m = n := by
  have hvalue := congrArg (fun text => digitsValue (text ++ [newline])) h
  rw [digitsValue_decimal, digitsValue_decimal] at hvalue
  exact Int.ofNat.inj hvalue

/-- The number `strtol` reads is the one printed, up to the end of a `long`. -/
theorem strtol_decimal (n : Nat) :
    strtol (ascii (toString n) ++ [newline]) = min (n : Int) (2 ^ 63 - 1) := by
  obtain ⟨c, rest, hcons⟩ := List.exists_cons_of_ne_nil (decimal_ne_nil n)
  have hc : 48 ≤ c.toNat := by
    refine (decimal_digit (n := n) ?_).1
    rw [hcons]
    exact List.mem_cons_self
  have hspace : ¬ isSpace c = true := by
    unfold isSpace
    rw [Bool.or_eq_true, Bool.and_eq_true, beq_iff_eq, decide_eq_true_eq, decide_eq_true_eq]
    intro h
    rcases h with rfl | ⟨-, h⟩
    · exact absurd hc (by decide)
    · have hle := UInt8.le_iff_toNat_le.mp h
      rw [show (13 : UInt8).toNat = 13 from rfl] at hle
      omega
  have hminus : c ≠ 45 := by
    intro h
    rw [h] at hc
    exact absurd hc (by decide)
  have hplus : c ≠ 43 := by
    intro h
    rw [h] at hc
    exact absurd hc (by decide)
  have hvalue := digitsValue_decimal n
  unfold strtol
  rw [hcons, List.cons_append] at hvalue ⊢
  rw [List.dropWhile_cons_of_neg hspace]
  dsimp only
  rw [if_neg hminus, if_neg hplus, hvalue]
  omega

/-- An `int` is read back. -/
theorem atoi_decimal {n : Nat} (h : n < 2 ^ 31) : atoi (ascii (toString n) ++ [newline]) = n := by
  unfold atoi
  rw [strtol_decimal, min_eq_left (by omega)]
  exact Int.bmod_eq_of_le (by omega) (by omega)

/-- What is past an `int` is not. -/
example : atoi (ascii "3024111601\n") = -1270855695 := by decide

end DnsServer
