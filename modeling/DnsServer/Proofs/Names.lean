/-
Names in a message.

A name read from known bytes is read the same way when more bytes become known,
is read in only one way, and takes up at most two octets more than its labels.
Labels laid out uncompressed read back as themselves.  The rest of the file is
what the program's text form of a name does to a legal one: nothing.
-/
import DnsServer.Lib.Split
import DnsServer.Proofs.Memory
import Mathlib.Data.List.TakeWhile

namespace DnsServer

/-! ### Reading names -/

theorem nameAt_mono {m m' : Contents} (hle : Contents.Le m m') {p e : Nat} {ls : List Bytes}
    (h : NameAt m p ls e) : NameAt m' p ls e := by
  induction h with
  | root h => exact NameAt.root (hle _ _ h)
  | label hb hne hptr hlen hl _ ih =>
      exact NameAt.label (hle _ _ hb) hne hptr hlen (holdsAt_mono hle hl) ih
  | pointer hb hptr hc _ ih => exact NameAt.pointer (hle _ _ hb) hptr (hle _ _ hc) ih

theorem nameAt_det {m : Contents} {p e e' : Nat} {ls ls' : List Bytes} (h : NameAt m p ls e)
    (h' : NameAt m p ls' e') : ls = ls' ∧ e = e' := by
  induction h generalizing ls' e' with
  | root h0 =>
      cases h' with
      | root => exact ⟨rfl, rfl⟩
      | label hb hne => exact absurd (by simpa [h0] using hb.symm) hne
      | pointer hb hptr =>
          rw [h0, Option.some.injEq] at hb
          rw [← hb] at hptr
          exact absurd hptr (by decide)
  | label hb hne hptr hlen hl _ ih =>
      cases h' with
      | root h0 => exact absurd (by simpa [hb] using h0) hne
      | label hb' _ _ hlen' hl' hrest' =>
          rw [hb, Option.some.injEq] at hb'
          subst hb'
          obtain ⟨hls, he⟩ := ih hrest'
          rw [holdsAt_inj hl hl' (by rw [hlen, hlen']), hls]
          exact ⟨rfl, he⟩
      | pointer hb' hptr' =>
          rw [hb, Option.some.injEq] at hb'
          rw [← hb', hptr] at hptr'
          exact absurd hptr' (by decide)
  | pointer hb hptr hc _ ih =>
      cases h' with
      | root h0 =>
          rw [hb, Option.some.injEq] at h0
          rw [h0] at hptr
          exact absurd hptr (by decide)
      | label hb' _ hptr' =>
          rw [hb, Option.some.injEq] at hb'
          rw [← hb', hptr] at hptr'
          exact absurd hptr' (by decide)
      | pointer hb' _ hc' htarget' =>
          rw [hb, Option.some.injEq] at hb'
          rw [hc, Option.some.injEq] at hc'
          subst hb' hc'
          exact ⟨(ih htarget').1, rfl⟩

/-! ### Room on the wire -/

@[simp] theorem dotted_nil : dotted [] = [] := rfl

@[simp] theorem dotted_cons (l : Bytes) (ls : List Bytes) :
    dotted (l :: ls) = l ++ dot :: dotted ls := by
  simp [dotted]

theorem nameAt_lt_end {m : Contents} {p e : Nat} {ls : List Bytes} (h : NameAt m p ls e) :
    p < e := by
  induction h with
  | root => exact Nat.lt_succ_self _
  | label _ _ _ _ _ _ ih => omega
  | pointer => omega

/-- The name's own bytes are at most its labels and a pointer. -/
theorem nameAt_end_le {m : Contents} {p e : Nat} {ls : List Bytes} (h : NameAt m p ls e) :
    e ≤ p + (dotted ls).length + 2 := by
  induction h with
  | root => simp
  | label _ _ _ hlen _ _ ih =>
      simp only [dotted_cons, List.length_append, List.length_cons, hlen]
      omega
  | pointer => omega

/-! ### Uncompressed names -/

@[simp] theorem encodeLabels_cons (l : Bytes) (ls : List Bytes) :
    encodeLabels (l :: ls) = UInt8.ofNat l.length :: (l ++ encodeLabels ls) := by
  simp [encodeLabels]

theorem length_encodeLabels (ls : List Bytes) :
    (encodeLabels ls).length = (dotted ls).length + 1 := by
  induction ls with
  | nil => rfl
  | cons l ls ih => simp [ih, Nat.add_assoc]

/-- Below 192 an octet is not a pointer's, and from there on it is. -/
theorem octet_cases : ∀ n : Fin 256, isPointer (UInt8.ofNat n.val) = decide (192 ≤ n.val) := by
  decide +kernel

theorem lt_of_not_pointer {b : UInt8} (h : isPointer b = false) : b.toNat < 192 := by
  have hcase := octet_cases ⟨b.toNat, b.toNat_lt⟩
  rw [show UInt8.ofNat b.toNat = b from UInt8.ofNat_toNat, h] at hcase
  exact Nat.not_le.mp (of_decide_eq_false hcase.symm)

/-- The parser takes labels of these lengths; the format stops at 63. -/
def Readable (l : Bytes) : Prop := 1 ≤ l.length ∧ l.length ≤ 191

/-- An octet that can be the length of a label is not a pointer's. -/
theorem Readable.octet {l : Bytes} (h : Readable l) :
    UInt8.ofNat l.length ≠ 0 ∧ isPointer (UInt8.ofNat l.length) = false ∧
      (UInt8.ofNat l.length).toNat = l.length := by
  obtain ⟨hpos, hle⟩ := h
  have hnat : (UInt8.ofNat l.length).toNat = l.length := by
    rw [UInt8.toNat_ofNat']
    exact Nat.mod_eq_of_lt (by omega)
  refine ⟨fun h0 => ?_, ?_, hnat⟩
  · rw [h0] at hnat
    rw [← hnat] at hpos
    exact absurd hpos (by decide)
  · rw [octet_cases ⟨l.length, by omega⟩]
    exact decide_eq_false (by simp only; omega)

/-- The labels of any name that can be read. -/
theorem nameAt_readable {m : Contents} {p e : Nat} {ls : List Bytes} (h : NameAt m p ls e) :
    ∀ l ∈ ls, Readable l := by
  induction h with
  | root => exact fun l hl => absurd hl List.not_mem_nil
  | label hb hne hptr hlen _ _ ih =>
      intro l' hl'
      rcases List.mem_cons.mp hl' with rfl | hl'
      · have hpos : 0 < UInt8.toNat _ := Nat.pos_of_ne_zero fun h0 => hne (UInt8.toNat_inj.mp h0)
        have hlt := lt_of_not_pointer hptr
        unfold Readable
        omega
      · exact ih l' hl'
  | pointer _ _ _ _ ih => exact ih

/-- Labels laid out uncompressed read back as themselves. -/
theorem nameAt_encodeLabels {m : Contents} {ls : List Bytes} (hls : ∀ l ∈ ls, Readable l) :
    ∀ {p : Nat}, HoldsAt m p (encodeLabels ls) → NameAt m p ls (p + (encodeLabels ls).length) := by
  induction ls with
  | nil => intro p h; exact NameAt.root h.1
  | cons l ls ih =>
      intro p h
      obtain ⟨hne, hptr, hnat⟩ := (hls l List.mem_cons_self).octet
      rw [encodeLabels_cons, holdsAt_cons, holdsAt_append] at h
      obtain ⟨hb, hl, hrest⟩ := h
      have hend : p + (encodeLabels (l :: ls)).length
          = p + 1 + l.length + (encodeLabels ls).length := by
        simp only [encodeLabels_cons, List.length_cons, List.length_append]
        omega
      rw [hend]
      refine NameAt.label hb hne hptr hnat.symm hl ?_
      rw [hnat]
      exact ih (fun l' hl' => hls l' (List.mem_cons_of_mem l hl')) hrest

theorem nameAt_encode {m : Contents} {ls : List Bytes}
    (hls : ∀ l ∈ ls, 1 ≤ l.length ∧ l.length ≤ 63) {p : Nat} (h : HoldsAt m p (encodeLabels ls)) :
    NameAt m p ls (p + (encodeLabels ls).length) :=
  nameAt_encodeLabels (fun l hl => ⟨(hls l hl).1, (hls l hl).2.trans (by decide)⟩) h

/-! ### Names as text -/

/-- The string a parsed name becomes: its buffer, up to the first NUL. -/
def nameText (ls : List Bytes) : Bytes := cstr ((dotted ls).dropLast ++ [0])

theorem dotted_eq_joined {ls : List Bytes} (hls : ls ≠ []) : dotted ls = joined ls ++ [dot] := by
  induction ls with
  | nil => exact absurd rfl hls
  | cons l ls ih =>
      cases ls with
      | nil => simp [joined, List.intercalate]
      | cons l' ls =>
          have hjoin : joined (l :: l' :: ls) = l ++ dot :: joined (l' :: ls) := by
            simp [joined, List.intercalate]
          rw [dotted_cons, ih (by simp), hjoin]
          simp

theorem dropLast_dotted (ls : List Bytes) : (dotted ls).dropLast = joined ls := by
  cases ls with
  | nil => rfl
  | cons l ls => rw [dotted_eq_joined (by simp), List.dropLast_concat]

theorem noNul_cstr (buf : Bytes) : (0 : UInt8) ∉ cstr buf := by
  intro h
  have htrue := List.mem_takeWhile_imp h
  simp at htrue

theorem cstr_append {s : Bytes} (h : (0 : UInt8) ∉ s) (t : Bytes) :
    cstr (s ++ t) = s ++ cstr t := Split.takeWhile_ne_append h t

theorem cstr_self {s : Bytes} (h : (0 : UInt8) ∉ s) : cstr s = s := Split.takeWhile_ne_self h

@[simp] theorem cstr_nul (t : Bytes) : cstr (0 :: t) = [] := rfl

/-- A string without NUL survives its buffer. -/
theorem cstr_of_noNul {s : Bytes} (h : (0 : UInt8) ∉ s) : cstr (s ++ [0]) = s := by
  rw [cstr_append h, cstr_nul, List.append_nil]

theorem noNul_joined {ls : List Bytes} (h : ∀ l ∈ ls, (0 : UInt8) ∉ l) :
    (0 : UInt8) ∉ joined ls := by
  rw [← dropLast_dotted]
  intro hmem
  have hd := List.mem_of_mem_dropLast hmem
  obtain ⟨l, hl, hin⟩ := List.mem_flatMap.mp hd
  rcases List.mem_append.mp hin with hin | hin
  · exact h l hl hin
  · simp [dot] at hin

/-! ### Tokens -/

theorem strtok_eq_tokens (delim s : Bytes) :
    strtok delim s = Split.tokens (fun c => decide (c ∈ delim)) s := rfl

theorem not_delim {delim word : Bytes} (h : ∀ d ∈ delim, d ∉ word) :
    ∀ c ∈ word, decide (c ∈ delim) = false := by
  intro c hc
  rw [decide_eq_false_iff_not]
  exact fun hd => h c hd hc

/-- A text without delimiters is one token. -/
theorem strtok_single {delim word : Bytes} (hne : word ≠ []) (h : ∀ d ∈ delim, d ∉ word) :
    strtok delim word = [word] := Split.tokens_single hne (not_delim h)

/-- The tokens on both sides of a delimiter. -/
theorem strtok_append {delim : Bytes} {d : UInt8} (hd : d ∈ delim) (a b : Bytes) :
    strtok delim (a ++ d :: b) = strtok delim a ++ strtok delim b := by
  rw [strtok_eq_tokens, strtok_eq_tokens, strtok_eq_tokens]
  exact Split.tokens_append_sep (by simpa using hd) a b

namespace Name

variable (n : Name)

theorem raw_legal {l : Bytes} (hl : l ∈ n.raw) :
    1 ≤ l.length ∧ l.length ≤ 63 ∧ (0 : UInt8) ∉ l ∧ dot ∉ l := by
  obtain ⟨l', -, rfl⟩ := List.mem_map.mp hl
  exact ⟨l'.nonempty, l'.le63, l'.noNul, l'.noDot⟩

theorem length_dotted_le : (dotted n.raw).length ≤ 254 := by
  have h := n.short
  rw [length_encodeLabels] at h
  exact Nat.le_of_succ_le_succ h

theorem noNul_text : (0 : UInt8) ∉ n.text := noNul_joined fun _ hl => (n.raw_legal hl).2.2.1

/-- The text of a legal name is what the parser makes of its labels. -/
theorem nameText_raw : nameText n.raw = n.text := by
  rw [nameText, dropLast_dotted]
  exact cstr_of_noNul n.noNul_text

theorem length_text_le : n.text.length ≤ 253 := by
  have h := n.length_dotted_le
  have hd : n.text.length = (dotted n.raw).length - 1 := by
    rw [Name.text, ← dropLast_dotted, List.length_dropLast]
  omega

end Name

end DnsServer
