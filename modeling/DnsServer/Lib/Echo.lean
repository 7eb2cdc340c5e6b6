/-
What `echo` prints.

The words in front that begin with `-` and have nothing but `n`, `e` and `E` behind it are
options.  An `n` among their letters leaves the newline at the end out, and the last of `e`
and `E` says whether escapes are replaced in the words that are left.  What that makes of a
word is a parameter; an escape can stop the printing.  The words are printed with a blank
between them, and of what is printed the first line is put together from theirs.
-/
import Mathlib.Data.List.Infix

namespace Echo

/-- A text that is printed, and whether nothing is printed behind it. -/
abbrev Said := List UInt8 × Bool

def isOption : List UInt8 → Bool
  | 45 :: letters => decide (letters ≠ []) && letters.all (fun c => decide (c ∈ [110, 101, 69]))
  | _ => false

/-- The letters of the options. -/
def letters (words : List (List UInt8)) : List UInt8 :=
  (words.takeWhile isOption).flatMap List.tail

/-- What is printed of a word without escapes. -/
def asIs (word : List UInt8) : Said := (word, false)

/-- What is printed of a word behind these options. -/
def saying (unescape : List UInt8 → Said) (words : List (List UInt8)) : List UInt8 → Said :=
  if ((letters words).filter (· ≠ 110)).getLast? = some 101 then unescape else asIs

/-- Words with a blank between them, up to one that stops the printing. -/
def joined (said : List UInt8 → Said) : List (List UInt8) → Said
  | [] => ([], false)
  | [word] => said word
  | word :: next :: words =>
      if (said word).2 then said word
      else
        let rest := joined said (next :: words)
        ((said word).1 ++ 32 :: rest.1, rest.2)

/-- What is printed before the newline at the end. -/
def printed (unescape : List UInt8 → Said) (words : List (List UInt8)) : Said :=
  joined (saying unescape words) (words.dropWhile isOption)

/-- No newline is printed at the end. -/
def Unclosed (unescape : List UInt8 → Said) (words : List (List UInt8)) : Prop :=
  (printed unescape words).2 = true ∨ 110 ∈ letters words

instance (unescape : List UInt8 → Said) (words : List (List UInt8)) :
    Decidable (Unclosed unescape words) := inferInstanceAs (Decidable (_ ∨ _))

def echoed (unescape : List UInt8 → Said) (words : List (List UInt8)) : List UInt8 :=
  (printed unescape words).1 ++ if Unclosed unescape words then [] else [10]

variable {unescape said : List UInt8 → Said} {words : List (List UInt8)}

/-! ### Options -/

theorem isOption_of_head {word : List UInt8} (h : word.head? ≠ some 45) :
    isOption word = false := by
  cases word with
  | nil => rfl
  | cons c word =>
      have hc : c ≠ 45 := fun heq => h (congrArg some heq)
      unfold isOption
      split
      · rename_i heq
        exact absurd (List.cons.inj heq).1 hc
      · rfl

theorem letters_of_head (h : ∀ word ∈ words.head?, isOption word = false) : letters words = [] := by
  cases words with
  | nil => rfl
  | cons word words =>
      unfold letters
      rw [List.takeWhile_cons_of_neg (by rw [h word rfl]; exact Bool.false_ne_true)]
      rfl

theorem dropWhile_of_head (h : ∀ word ∈ words.head?, isOption word = false) :
    words.dropWhile isOption = words := by
  cases words with
  | nil => rfl
  | cons word words =>
      exact List.dropWhile_cons_of_neg (by rw [h word rfl]; exact Bool.false_ne_true)

theorem saying_of_letters (h : letters words = []) : saying unescape words = asIs := by
  unfold saying
  rw [h]
  rfl

/-! ### Printing -/

theorem joined_asIs (words : List (List UInt8)) :
    joined asIs words = ([32].intercalate words, false) := by
  induction words with
  | nil => rfl
  | cons word words ih =>
      cases words with
      | nil =>
          rw [List.intercalate_singleton]
          rfl
      | cons next words =>
          rw [List.intercalate_cons_cons, List.append_assoc]
          show ((word ++ 32 :: (joined asIs (next :: words)).1, (joined asIs (next :: words)).2)
            : Said) = _
          rw [ih]
          rfl

/-- Where the first word is no option all are printed. -/
theorem echoed_words (h : ∀ word ∈ words.head?, isOption word = false) :
    echoed unescape words = [32].intercalate words ++ [10] := by
  have hletters := letters_of_head h
  have hprinted : printed unescape words = ([32].intercalate words, false) := by
    unfold printed
    rw [dropWhile_of_head h, saying_of_letters hletters, joined_asIs]
  have hclosed : ¬ Unclosed unescape words := by
    unfold Unclosed
    rw [hprinted, hletters]
    simp
  unfold echoed
  rw [hprinted, if_neg hclosed]

/-- Nothing is printed at all where no word has anything and no newline closes them. -/
theorem echoed_eq_nil_iff :
    echoed unescape words = [] ↔ (printed unescape words).1 = [] ∧ Unclosed unescape words := by
  unfold echoed
  rw [List.append_eq_nil_iff]
  refine and_congr_right fun _ => ?_
  by_cases h : Unclosed unescape words
  · rw [if_pos h]
    exact ⟨fun _ => h, fun _ => rfl⟩
  · rw [if_neg h]
    exact ⟨fun hnil => absurd hnil (List.cons_ne_nil _ _), fun h' => absurd h' h⟩

/-! ### The first line -/

section Line

variable {ends : UInt8 → Bool}

/-- A text up to what ends the line, and whether the line ends with it. -/
def upTo (ends : UInt8 → Bool) (text : Said) : Said :=
  (text.1.takeWhile (!ends ·), text.2 || text.1.any ends)

theorem takeWhile_append_of_any {front : List UInt8} (h : front.any ends = true)
    (back : List UInt8) :
    (front ++ back).takeWhile (!ends ·) = front.takeWhile (!ends ·) := by
  induction front with
  | nil => exact absurd h (by simp)
  | cons c front ih =>
      by_cases hc : ends c = true
      · rw [List.cons_append, List.takeWhile_cons_of_neg (by simp [hc]),
          List.takeWhile_cons_of_neg (by simp [hc])]
      · have hfront : front.any ends = true := by
          rw [List.any_cons, Bool.or_eq_true] at h
          exact h.resolve_left hc
        rw [List.cons_append, List.takeWhile_cons_of_pos (by simp [hc]),
          List.takeWhile_cons_of_pos (by simp [hc]), ih hfront]

theorem takeWhile_append_of_none {front : List UInt8} (h : front.any ends = false)
    (back : List UInt8) :
    (front ++ back).takeWhile (!ends ·) = front ++ back.takeWhile (!ends ·) := by
  refine List.takeWhile_append_of_pos fun c hc => ?_
  rw [List.any_eq_false] at h
  simpa using h c hc

/-- **The first line of what is printed is put together from the words' first lines.** -/
theorem joined_upTo (hblank : ends 32 = false) (said : List UInt8 → Said)
    (words : List (List UInt8)) :
    joined (fun word => upTo ends (said word)) words = upTo ends (joined said words) := by
  induction words with
  | nil => rfl
  | cons word words ih =>
      cases words with
      | nil => rfl
      | cons next words =>
          unfold joined
          rw [ih]
          cases hstop : (said word).2 with
          | true =>
              have hends : (upTo ends (said word)).2 = true := by
                unfold upTo
                rw [hstop, Bool.true_or]
              rw [if_pos hends, if_pos rfl]
          | false =>
              rw [if_neg Bool.false_ne_true]
              cases hany : (said word).1.any ends with
              | true =>
                  have hends : (upTo ends (said word)).2 = true := by
                    unfold upTo
                    rw [hany, Bool.or_true]
                  rw [if_pos hends]
                  unfold upTo
                  dsimp only
                  rw [takeWhile_append_of_any hany, List.any_append, hany, Bool.true_or,
                    Bool.or_true, Bool.or_true]
              | false =>
                  have hends : (upTo ends (said word)).2 = false := by
                    unfold upTo
                    rw [hstop, hany, Bool.or_false]
                  rw [hends, if_neg Bool.false_ne_true]
                  unfold upTo
                  dsimp only
                  rw [takeWhile_append_of_none hany, List.takeWhile_cons_of_pos (by simp [hblank]),
                    List.any_append, hany, List.any_cons, hblank, Bool.false_or, Bool.false_or]
                  have hfront : (said word).1.takeWhile (!ends ·) = (said word).1 := by
                    have h := takeWhile_append_of_none hany []
                    rwa [List.append_nil, List.takeWhile_nil, List.append_nil] at h
                  rw [hfront]

/-- What stands in the line before the newline at the end. -/
theorem echoed_line (hblank : ends 32 = false) (hnewline : ends 10 = true) :
    (echoed unescape words).takeWhile (!ends ·)
      = (joined (fun word => upTo ends (saying unescape words word))
          (words.dropWhile isOption)).1 := by
  rw [joined_upTo hblank]
  show _ = (printed unescape words).1.takeWhile (!ends ·)
  unfold echoed
  split
  · rw [List.append_nil]
  · cases hany : (printed unescape words).1.any ends with
    | true => exact takeWhile_append_of_any hany [10]
    | false =>
        have h := takeWhile_append_of_none hany []
        rw [List.append_nil, List.takeWhile_nil] at h
        rw [takeWhile_append_of_none hany, List.takeWhile_cons_of_neg (by simp [hnewline]), h]

end Line

end Echo
