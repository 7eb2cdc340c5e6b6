/-
Lists cut at a separator.

`List.splitOn a` gives the pieces between the separators, empty ones included, so
a list and its pieces determine each other.  A list is either one piece or a
piece, a separator and a shorter list: `pieces_induction` is the induction that
follows the cuts.  The rest says where a piece comes from.  It holds no separator,
it stands in the list as it is, and in a list that was itself put together with
separators it lies within one of the parts.

`tokens` are the pieces that are not empty, at separators of any kind.  A list has
none, or it is separators, the first token, and, after one more separator, what
holds the others: that is how a tokenizer goes through it.  Of a text that is cut the
tokens are those that begin before the cut, the last one as far as it goes.
-/
import Mathlib.Algebra.GroupWithZero.Nat
import Mathlib.Data.List.Infix

universe u

namespace Split

variable {α : Type u} {a : α}

/-! ### Stretches -/

/-- What holds no separator lies on one side of it. -/
theorem infix_side {x l rest : List α} (hx : a ∉ x) (h : x <:+: l ++ a :: rest) :
    x <:+: l ∨ x <:+: rest := by
  rcases List.infix_append_iff.mp h with h | h | ⟨l₁, l₂, rfl, hl₁, hl₂⟩
  · exact Or.inl h
  · rcases List.infix_cons_iff.mp h with h | h
    · rcases List.prefix_cons_iff.mp h with rfl | ⟨t, rfl, -⟩
      · exact Or.inl (List.nil_infix)
      · exact absurd List.mem_cons_self hx
    · exact Or.inr h
  · rcases List.prefix_cons_iff.mp hl₂ with rfl | ⟨t, rfl, -⟩
    · rw [List.append_nil]
      exact Or.inl hl₁.isInfix
    · exact absurd (List.mem_append_right l₁ List.mem_cons_self) hx

/-- A stretch without separators lies within one of the parts that were put together. -/
theorem infix_part {x : List α} (hx : a ∉ x) (hne : x ≠ []) {parts : List (List α)}
    (h : x <:+: parts.flatMap (· ++ [a])) : ∃ part ∈ parts, x <:+: part := by
  induction parts with
  | nil => exact absurd (List.eq_nil_of_infix_nil h) hne
  | cons part parts ih =>
      rw [List.flatMap_cons, List.append_assoc] at h
      rcases infix_side hx h with h | h
      · exact ⟨part, List.mem_cons_self, h⟩
      · obtain ⟨part', hmem, hpart'⟩ := ih h
        exact ⟨part', List.mem_cons_of_mem part hmem, hpart'⟩

section Free

variable [DecidableEq α] {x : List α}

/-- What holds no separator is gone over. -/
theorem takeWhile_ne_append (hx : a ∉ x) (ys : List α) :
    (x ++ ys).takeWhile (· ≠ a) = x ++ ys.takeWhile (· ≠ a) := by
  refine List.takeWhile_append_of_pos fun b hb => ?_
  rw [decide_eq_true_eq]
  exact ne_of_mem_of_not_mem hb hx

theorem takeWhile_ne_self (hx : a ∉ x) : x.takeWhile (· ≠ a) = x := by
  have h := takeWhile_ne_append hx []
  rwa [List.append_nil, List.takeWhile_nil, List.append_nil] at h

/-- What comes before the first separator. -/
theorem takeWhile_ne_piece (hx : a ∉ x) (ys : List α) : (x ++ a :: ys).takeWhile (· ≠ a) = x := by
  rw [takeWhile_ne_append hx, List.takeWhile_cons_of_neg (by simp), List.append_nil]

theorem filter_ne_self (hx : a ∉ x) : x.filter (· ≠ a) = x := by
  refine List.filter_eq_self.mpr fun b hb => ?_
  rw [decide_eq_true_eq]
  exact ne_of_mem_of_not_mem hb hx

end Free

/-- A list is all of one kind, or a stretch of that kind and one that is not. -/
theorem span_cases (p : α → Bool) (xs : List α) :
    (∀ x ∈ xs, p x) ∨
      ∃ front b back, xs = front ++ b :: back ∧ (∀ x ∈ front, p x) ∧ p b = false := by
  induction xs with
  | nil => exact Or.inl fun x hx => absurd hx List.not_mem_nil
  | cons x xs ih =>
      by_cases hx : p x
      · rcases ih with hall | ⟨front, b, back, rfl, hfront, hb⟩
        · exact Or.inl (List.forall_mem_cons.mpr ⟨hx, hall⟩)
        · exact Or.inr ⟨x :: front, b, back, rfl, List.forall_mem_cons.mpr ⟨hx, hfront⟩, hb⟩
      · exact Or.inr ⟨[], x, xs, rfl, fun y hy => absurd hy List.not_mem_nil, by simpa using hx⟩

section Pieces

variable [DecidableEq α]

/-! ### One cut -/

/-- A separator at the end adds an empty piece. -/
theorem splitOn_concat_self (a : α) (xs : List α) :
    (xs ++ [a]).splitOn a = xs.splitOn a ++ [[]] := by
  rw [List.splitOn_append_cons_self, List.splitOn_nil]

theorem splitOn_piece {x : List α} (hx : a ∉ x) (ys : List α) :
    (x ++ a :: ys).splitOn a = x :: ys.splitOn a := by
  rw [List.splitOn_append_cons_self, List.splitOn_eq_singleton hx]
  rfl

/-- Where a separator stands after each part, no cut is but in a part or after it. -/
theorem splitOn_flatMap_sep (a : α) (parts : List (List α)) :
    (parts.flatMap (· ++ [a])).splitOn a = parts.flatMap (·.splitOn a) ++ [[]] := by
  induction parts with
  | nil => rfl
  | cons part parts ih =>
      rw [List.flatMap_cons, List.append_assoc, List.singleton_append,
        List.splitOn_append_cons_self, ih, List.flatMap_cons, List.append_assoc]

theorem splitOn_flatMap_pieces {parts : List (List α)} (h : ∀ part ∈ parts, a ∉ part) :
    (parts.flatMap (· ++ [a])).splitOn a = parts ++ [[]] := by
  have hpieces : parts.flatMap (·.splitOn a) = parts.flatMap fun part => [part] :=
    List.flatMap_congr fun part hpart => List.splitOn_eq_singleton (h part hpart)
  rw [splitOn_flatMap_sep, hpieces, List.flatMap_singleton']

/-- **Induction along the cuts.** -/
theorem pieces_induction {motive : List α → Prop} (a : α) (last : ∀ x, a ∉ x → motive x)
    (piece : ∀ x ys, a ∉ x → motive ys → motive (x ++ a :: ys)) (xs : List α) : motive xs := by
  induction hn : xs.length using Nat.strong_induction_on generalizing xs with
  | _ n ih =>
      by_cases h : a ∈ xs
      · obtain ⟨x, ys, rfl, hx⟩ := List.eq_append_cons_of_mem h
        refine piece x ys hx (ih ys.length ?_ ys rfl)
        rw [← hn, List.length_append, List.length_cons]
        omega
      · exact last xs h

/-! ### The pieces -/

theorem not_mem_of_mem_splitOn {xs x : List α} (h : x ∈ xs.splitOn a) : a ∉ x := by
  induction xs using pieces_induction a with
  | last y hy =>
      rw [List.splitOn_eq_singleton hy, List.mem_singleton] at h
      rwa [h]
  | piece y ys hy ih =>
      rw [splitOn_piece hy, List.mem_cons] at h
      rcases h with rfl | h
      · exact hy
      · exact ih h

theorem infix_of_mem_splitOn {xs x : List α} (h : x ∈ xs.splitOn a) : x <:+: xs := by
  induction xs using pieces_induction a with
  | last y hy =>
      rw [List.splitOn_eq_singleton hy, List.mem_singleton] at h
      rw [h]
  | piece y ys hy ih =>
      rw [splitOn_piece hy, List.mem_cons] at h
      rcases h with rfl | h
      · exact List.infix_append_left
      · exact ((ih h).trans (List.suffix_cons a ys).isInfix).trans List.infix_append_right

/-- A list with two marks is cut at them in one way only. -/
theorem marks_unique {front mid back front' mid' back' : List α} (hfront : a ∉ front)
    (hmid : a ∉ mid) (hback : a ∉ back)
    (h : front' ++ a :: (mid' ++ a :: back') = front ++ a :: (mid ++ a :: back)) :
    front' = front ∧ mid' = mid ∧ back' = back := by
  have hcount := congrArg (List.count a) h
  simp only [List.count_append, List.count_cons_self, List.count_eq_zero_of_not_mem hfront,
    List.count_eq_zero_of_not_mem hmid, List.count_eq_zero_of_not_mem hback] at hcount
  have hfront' : a ∉ front' := List.count_eq_zero.mp (by omega)
  have hmid' : a ∉ mid' := List.count_eq_zero.mp (by omega)
  have hback' : a ∉ back' := List.count_eq_zero.mp (by omega)
  have hpieces := congrArg (List.splitOn a) h
  rw [splitOn_piece hfront', splitOn_piece hmid', List.splitOn_eq_singleton hback',
    splitOn_piece hfront, splitOn_piece hmid, List.splitOn_eq_singleton hback] at hpieces
  simpa using hpieces

end Pieces

/-- Nothing is in joined pieces but what is in a piece or between two. -/
theorem mem_intercalate {sep : List α} {parts : List (List α)} {x : α}
    (h : x ∈ sep.intercalate parts) : x ∈ sep ∨ ∃ part ∈ parts, x ∈ part := by
  induction parts with
  | nil =>
      rw [List.intercalate_nil] at h
      exact absurd h List.not_mem_nil
  | cons part parts ih =>
      cases parts with
      | nil =>
          rw [List.intercalate_singleton] at h
          exact Or.inr ⟨part, List.mem_cons_self, h⟩
      | cons next parts =>
          rw [List.intercalate_cons_cons] at h
          rcases List.mem_append.mp h with hfront | hrest
          · rcases List.mem_append.mp hfront with hpart | hsep
            · exact Or.inr ⟨part, List.mem_cons_self, hpart⟩
            · exact Or.inl hsep
          · rcases ih hrest with hsep | ⟨part', hmem, hin⟩
            · exact Or.inl hsep
            · exact Or.inr ⟨part', List.mem_cons_of_mem part hmem, hin⟩

/-- Pieces with a separator after each are the joined pieces and one separator. -/
theorem flatMap_eq_intercalate {sep : List α} {parts : List (List α)} (hne : parts ≠ []) :
    parts.flatMap (· ++ sep) = sep.intercalate parts ++ sep := by
  induction parts with
  | nil => exact absurd rfl hne
  | cons part parts ih =>
      cases parts with
      | nil =>
          rw [List.intercalate_singleton, List.flatMap_cons, List.flatMap_nil, List.append_nil]
      | cons next parts =>
          rw [List.flatMap_cons, ih (List.cons_ne_nil next parts), List.intercalate_cons_cons]
          simp only [List.append_assoc]

theorem intercalate_ne_nil {sep : List α} {parts : List (List α)} (hne : parts ≠ [])
    (h : ∀ part ∈ parts, part ≠ []) : sep.intercalate parts ≠ [] := by
  cases parts with
  | nil => exact absurd rfl hne
  | cons part parts =>
      have hpart := h part List.mem_cons_self
      cases parts with
      | nil => rwa [List.intercalate_singleton]
      | cons next parts =>
          rw [List.intercalate_cons_cons]
          exact List.append_ne_nil_of_left_ne_nil
            (List.append_ne_nil_of_left_ne_nil hpart sep) _

/-- Joined pieces end as the last one does. -/
theorem getLast?_intercalate {sep : List α} {parts : List (List α)}
    (h : ∀ part ∈ parts, part ≠ []) :
    (sep.intercalate parts).getLast? = parts.getLast?.bind List.getLast? := by
  induction parts with
  | nil => rfl
  | cons part parts ih =>
      cases parts with
      | nil => rw [List.intercalate_singleton, List.getLast?_singleton, Option.bind_some]
      | cons next parts =>
          have hrest : ∀ part ∈ next :: parts, part ≠ [] := fun part' hpart' =>
            h part' (List.mem_cons_of_mem part hpart')
          rw [List.intercalate_cons_cons, List.getLast?_append_of_ne_nil _
            (intercalate_ne_nil (List.cons_ne_nil next parts) hrest), ih hrest,
            List.getLast?_cons_cons]

/-! ### Tokens -/

/-- The pieces that are not empty. -/
def tokens (p : α → Bool) (xs : List α) : List (List α) :=
  (xs.splitOnP p).filter fun token => decide (token ≠ [])

variable {p : α → Bool}

@[simp] theorem tokens_nil : tokens p ([] : List α) = [] := by
  simp [tokens, List.splitOnP_nil]

theorem tokens_append_sep {sep : α} (hsep : p sep) (xs ys : List α) :
    tokens p (xs ++ sep :: ys) = tokens p xs ++ tokens p ys := by
  unfold tokens
  rw [List.splitOnP_append_cons xs ys hsep, List.filter_append]

theorem tokens_single {t : List α} (hne : t ≠ []) (ht : ∀ x ∈ t, p x = false) :
    tokens p t = [t] := by
  unfold tokens
  rw [List.splitOnP_eq_singleton ht]
  simp [hne]

/-- Separators in front change nothing. -/
theorem tokens_seps {seps : List α} (hseps : ∀ x ∈ seps, p x) (xs : List α) :
    tokens p (seps ++ xs) = tokens p xs := by
  induction seps with
  | nil => rfl
  | cons sep seps ih =>
      have hstep := tokens_append_sep (hseps sep List.mem_cons_self) [] (seps ++ xs)
      rw [List.nil_append, tokens_nil, List.nil_append] at hstep
      rw [List.cons_append, hstep]
      exact ih fun x hx => hseps x (List.mem_cons_of_mem sep hx)

theorem tokens_of_seps {seps : List α} (hseps : ∀ x ∈ seps, p x) : tokens p seps = [] := by
  have h := tokens_seps hseps []
  rwa [List.append_nil, tokens_nil] at h

/-- **How a list is gone through token by token.** -/
theorem tokens_cases (p : α → Bool) (xs : List α) :
    (tokens p xs = [] ∧ ∀ x ∈ xs, p x) ∨
    ∃ seps t ys, xs = seps ++ (t ++ ys) ∧ (∀ x ∈ seps, p x) ∧ t ≠ [] ∧ (∀ x ∈ t, p x = false) ∧
      ((ys = [] ∧ tokens p xs = [t]) ∨
        ∃ sep zs, ys = sep :: zs ∧ p sep ∧ tokens p xs = t :: tokens p zs) := by
  rcases span_cases p xs with hall | ⟨seps, b, back, rfl, hseps, hb⟩
  · exact Or.inl ⟨tokens_of_seps hall, hall⟩
  · refine Or.inr ?_
    rcases span_cases (fun x => !p x) (b :: back) with hall | ⟨t, sep, zs, heq, ht, hsep⟩
    · have htoken : ∀ x ∈ b :: back, p x = false := fun x hx => by simpa using hall x hx
      refine ⟨seps, b :: back, [], by simp, hseps, List.cons_ne_nil b back, htoken,
        Or.inl ⟨rfl, ?_⟩⟩
      rw [tokens_seps hseps, tokens_single (List.cons_ne_nil b back) htoken]
    · have htoken : ∀ x ∈ t, p x = false := fun x hx => by simpa using ht x hx
      have hsep' : p sep := by simpa using hsep
      have hne : t ≠ [] := by
        intro hnil
        rw [hnil, List.nil_append, List.cons.injEq] at heq
        rw [heq.1, hsep'] at hb
        exact absurd hb (by decide)
      refine ⟨seps, t, sep :: zs, by rw [heq], hseps, hne, htoken, Or.inr ⟨sep, zs, rfl, hsep', ?_⟩⟩
      rw [tokens_seps hseps, heq, tokens_append_sep hsep', tokens_single hne htoken]
      rfl

/-! ### Parts with separators between them -/

/-- A list of these parts, with separators in front of each and behind each. -/
inductive Spaced (p : α → Bool) : List (List α) → List α → Prop
  | none {seps : List α} (hseps : ∀ x ∈ seps, p x) : Spaced p [] seps
  | last {seps t : List α} (hseps : ∀ x ∈ seps, p x) (hne : t ≠ []) (ht : ∀ x ∈ t, p x = false) :
      Spaced p [t] (seps ++ t)
  | part {seps t xs : List α} {sep : α} {ts : List (List α)} (hseps : ∀ x ∈ seps, p x)
      (hne : t ≠ []) (ht : ∀ x ∈ t, p x = false) (hsep : p sep) (hrest : Spaced p ts xs) :
      Spaced p (t :: ts) (seps ++ (t ++ sep :: xs))

/-- **The tokens are the parts that are spaced out.** -/
theorem tokens_eq_iff_spaced {ts : List (List α)} {xs : List α} :
    tokens p xs = ts ↔ Spaced p ts xs := by
  constructor
  · intro h
    induction hn : xs.length using Nat.strong_induction_on generalizing xs ts with
    | _ n ih =>
        subst h
        rcases tokens_cases p xs with ⟨hnone, hall⟩ | ⟨seps, t, ys, rfl, hseps, hne, ht, hrest⟩
        · rw [hnone]
          exact .none hall
        · rcases hrest with ⟨rfl, htokens⟩ | ⟨sep, zs, rfl, hsep, htokens⟩
          · rw [htokens, List.append_nil]
            exact .last hseps hne ht
          · rw [htokens]
            refine .part hseps hne ht hsep (ih zs.length ?_ rfl rfl)
            rw [← hn, List.length_append, List.length_append, List.length_cons]
            omega
  · intro h
    induction h with
    | none hseps => exact tokens_of_seps hseps
    | last hseps hne ht => rw [tokens_seps hseps, tokens_single hne ht]
    | part hseps hne ht hsep hrest ih =>
        rw [tokens_seps hseps, tokens_append_sep hsep, tokens_single hne ht, ih]
        rfl

instance [DecidableEq α] (p : α → Bool) (ts : List (List α)) (xs : List α) :
    Decidable (Spaced p ts xs) := decidable_of_iff (tokens p xs = ts) tokens_eq_iff_spaced

/-- There are no more tokens than separators, and one. -/
theorem length_tokens_le (p : α → Bool) (xs : List α) :
    (tokens p xs).length ≤ xs.countP p + 1 := by
  induction hn : xs.length using Nat.strong_induction_on generalizing xs with
  | _ n ih =>
      rcases span_cases (fun x => !p x) xs with hall | ⟨t, sep, zs, rfl, ht, hsep⟩
      · by_cases hne : xs = []
        · rw [hne, tokens_nil]
          exact Nat.zero_le _
        · rw [tokens_single hne fun x hx => by simpa using hall x hx]
          exact Nat.le_add_left 1 _
      · have hsep' : p sep := by simpa using hsep
        have hshorter : zs.length < n := by
          rw [← hn, List.length_append, List.length_cons]
          omega
        have hrest := ih zs.length hshorter zs rfl
        have hfront : (tokens p t).length ≤ 1 := by
          by_cases hne : t = []
          · rw [hne, tokens_nil]
            exact Nat.zero_le 1
          · rw [tokens_single hne fun x hx => by simpa using ht x hx]
            exact Nat.le_refl 1
        rw [tokens_append_sep hsep', List.length_append, List.countP_append,
          List.countP_cons_of_pos hsep']
        omega

/-- The first token, and what comes before and after it. -/
theorem tokens_eq_cons {xs t : List α} {ts : List (List α)} (h : tokens p xs = t :: ts) :
    ∃ seps ys, xs = seps ++ (t ++ ys) ∧ (∀ x ∈ seps, p x) ∧ t ≠ [] ∧ (∀ x ∈ t, p x = false) ∧
      ((ys = [] ∧ ts = []) ∨ ∃ sep zs, ys = sep :: zs ∧ p sep ∧ ts = tokens p zs) := by
  rcases tokens_cases p xs with ⟨hnone, -⟩ | ⟨seps, t', ys, heq, hseps, hne, ht', hrest⟩
  · rw [hnone] at h
    exact absurd h.symm (List.cons_ne_nil t ts)
  · rcases hrest with ⟨hys, htokens⟩ | ⟨sep, zs, hys, hsep, htokens⟩
    · rw [htokens, List.cons.injEq] at h
      rw [← h.1]
      exact ⟨seps, ys, heq, hseps, hne, ht', Or.inl ⟨hys, h.2.symm⟩⟩
    · rw [htokens, List.cons.injEq] at h
      rw [← h.1]
      exact ⟨seps, ys, heq, hseps, hne, ht', Or.inr ⟨sep, zs, hys, hsep, h.2.symm⟩⟩

/-- A token is not empty, and no separator is in it. -/
theorem of_mem_tokens {xs t : List α} (h : t ∈ tokens p xs) : t ≠ [] ∧ ∀ x ∈ t, p x = false := by
  induction hn : xs.length using Nat.strong_induction_on generalizing xs with
  | _ n ih =>
      rcases tokens_cases p xs with ⟨hnone, -⟩ | ⟨seps, t', ys, rfl, -, hne, ht', hrest⟩
      · rw [hnone] at h
        exact absurd h List.not_mem_nil
      · rcases hrest with ⟨-, htokens⟩ | ⟨sep, zs, rfl, -, htokens⟩
        · rw [htokens, List.mem_singleton] at h
          rw [h]
          exact ⟨hne, ht'⟩
        · rw [htokens, List.mem_cons] at h
          rcases h with rfl | h
          · exact ⟨hne, ht'⟩
          · refine ih zs.length ?_ h rfl
            rw [← hn, List.length_append, List.length_append, List.length_cons]
            omega

/-- A token stands in the list as it is. -/
theorem infix_of_mem_tokens {xs t : List α} (h : t ∈ tokens p xs) : t <:+: xs := by
  induction hn : xs.length using Nat.strong_induction_on generalizing xs with
  | _ n ih =>
      rcases tokens_cases p xs with ⟨hnone, -⟩ | ⟨seps, t', ys, rfl, -, -, -, hrest⟩
      · rw [hnone] at h
        exact absurd h List.not_mem_nil
      · have hfirst : t' <:+: seps ++ (t' ++ ys) := ⟨seps, ys, List.append_assoc _ _ _⟩
        rcases hrest with ⟨-, htokens⟩ | ⟨sep, zs, rfl, -, htokens⟩
        · rw [htokens, List.mem_singleton] at h
          rw [h]
          exact hfirst
        · rw [htokens, List.mem_cons] at h
          rcases h with rfl | h
          · exact hfirst
          · have hlater := ih zs.length (by
              rw [← hn, List.length_append, List.length_append, List.length_cons]
              omega) h rfl
            refine hlater.trans ⟨seps ++ (t' ++ [sep]), [], ?_⟩
            simp only [List.append_assoc, List.append_nil, List.singleton_append]

/-- Behind the first tokens stand the others. -/
theorem tokens_suffix {front back : List (List α)} {ys : List α}
    (h : tokens p ys = front ++ back) (hne : back ≠ []) :
    ∃ zs, zs <:+ ys ∧ tokens p zs = back := by
  induction front generalizing ys with
  | nil => exact ⟨ys, List.suffix_rfl, h⟩
  | cons t front ih =>
      obtain ⟨seps, rest, rfl, -, -, -, hrest⟩ := tokens_eq_cons h
      rcases hrest with ⟨-, hnone⟩ | ⟨sep, zs, rfl, -, htokens⟩
      · exact absurd (List.append_eq_nil_iff.mp hnone).2 hne
      · obtain ⟨zs', hsuffix, hback⟩ := ih htokens.symm
        refine ⟨zs', hsuffix.trans ⟨seps ++ (t ++ [sep]), ?_⟩, hback⟩
        simp only [List.append_assoc, List.singleton_append]

/-- Tokens with a separator after each are gone through one by one. -/
theorem tokens_flatMap {sep : α} (hsep : p sep) {parts : List (List α)}
    (hparts : ∀ t ∈ parts, t ≠ [] ∧ ∀ x ∈ t, p x = false) (ys : List α) :
    tokens p (parts.flatMap (· ++ [sep]) ++ ys) = parts ++ tokens p ys := by
  induction parts with
  | nil => rfl
  | cons t parts ih =>
      obtain ⟨hne, ht⟩ := hparts t List.mem_cons_self
      have hrest := ih fun t' ht' => hparts t' (List.mem_cons_of_mem t ht')
      rw [List.flatMap_cons, List.append_assoc, List.append_assoc, List.singleton_append,
        tokens_append_sep hsep, tokens_single hne ht, hrest]
      rfl

/-- The tokens of joined texts are those of each. -/
theorem tokens_intercalate {sep : α} (hsep : p sep) (parts : List (List α)) :
    tokens p ([sep].intercalate parts) = parts.flatMap (tokens p) := by
  induction parts with
  | nil => rw [List.intercalate_nil, tokens_nil, List.flatMap_nil]
  | cons part parts ih =>
      cases parts with
      | nil => rw [List.intercalate_singleton, List.flatMap_singleton]
      | cons next parts =>
          rw [List.intercalate_cons_cons, List.append_assoc, List.singleton_append,
            tokens_append_sep hsep, ih]
          rfl

/-- Whatever is no separator is in a token. -/
theorem mem_token_of_mem {xs : List α} {x : α} (h : x ∈ xs) (hx : p x = false) :
    ∃ t ∈ tokens p xs, x ∈ t := by
  induction hn : xs.length using Nat.strong_induction_on generalizing xs with
  | _ n ih =>
      rcases tokens_cases p xs with ⟨-, hall⟩ | ⟨seps, t, ys, rfl, hseps, -, -, hrest⟩
      · rw [hall x h] at hx
        exact absurd hx (by decide)
      · have hin : x ∈ t ∨ x ∈ ys := by
          rcases List.mem_append.mp h with hsep | h
          · rw [hseps x hsep] at hx
            exact absurd hx (by decide)
          · exact List.mem_append.mp h
        rcases hrest with ⟨rfl, htokens⟩ | ⟨sep, zs, rfl, hsep, htokens⟩
        · rw [htokens]
          exact ⟨t, List.mem_cons_self, hin.resolve_right List.not_mem_nil⟩
        · rw [htokens]
          rcases hin with ht | hys
          · exact ⟨t, List.mem_cons_self, ht⟩
          · rcases List.mem_cons.mp hys with rfl | hzs
            · rw [hsep] at hx
              exact absurd hx (by decide)
            · obtain ⟨t', ht', hmem⟩ := ih zs.length (by
                rw [← hn, List.length_append, List.length_append, List.length_cons]
                omega) hzs rfl
              exact ⟨t', List.mem_cons_of_mem t ht', hmem⟩

/-- A cut within the first part leaves one token at most. -/
theorem tokens_take_getElem? {u t : List α} (hu : ∀ x ∈ u, p x = false) {n k : Nat} :
    (tokens p (u.take n))[k]? = some t ↔ k = 0 ∧ t ≠ [] ∧ u.take n = t := by
  by_cases hnil : u.take n = []
  · rw [hnil, tokens_nil, List.getElem?_nil]
    refine ⟨fun h => absurd h (by simp), fun h => ?_⟩
    exact absurd h.2.2.symm h.2.1
  · rw [tokens_single hnil fun x hx => hu x (List.mem_of_mem_take hx)]
    cases k with
    | zero =>
        rw [List.getElem?_cons_zero, Option.some.injEq]
        refine ⟨fun h => ⟨rfl, ?_, h⟩, fun h => h.2.2⟩
        rwa [← h]
    | succ k => simp

/-- A cut behind the first part leaves that part. -/
theorem tokens_take_cons {sep : α} (hsep : p sep) {u : List α} (hne : u ≠ [])
    (hu : ∀ x ∈ u, p x = false) (ys : List α) (m : Nat) :
    tokens p ((u ++ sep :: ys).take (u.length + 1 + m)) = u :: tokens p (ys.take m) := by
  rw [show u.length + 1 + m = u.length + (m + 1) by omega, List.take_length_add_append,
    List.take_succ_cons, tokens_append_sep hsep, tokens_single hne hu, List.singleton_append]

theorem length_flatMap_take_cons {sep : α} (u : List α) (parts : List (List α)) (k : Nat) :
    (((u :: parts).take (k + 1)).flatMap (· ++ [sep])).length
      = u.length + 1 + ((parts.take k).flatMap (· ++ [sep])).length := by
  rw [List.take_succ_cons, List.flatMap_cons, List.length_append, List.length_append,
    List.length_singleton]

/-- **What is left of parts when the text is cut.**  A part is still the token in its place
exactly when the cut is not before its end. -/
theorem tokens_take_flatMap {sep : α} (hsep : p sep) {parts : List (List α)}
    (hparts : ∀ t ∈ parts, t ≠ [] ∧ ∀ x ∈ t, p x = false) (ys : List α) {k : Nat} {t : List α}
    (hk : parts[k]? = some t) (n : Nat) :
    (tokens p ((parts.flatMap (· ++ [sep]) ++ ys).take n))[k]? = some t ↔
      ((parts.take (k + 1)).flatMap (· ++ [sep])).length ≤ n + 1 := by
  induction parts generalizing k n with
  | nil => simp at hk
  | cons u parts ih =>
      obtain ⟨hne, hu⟩ := hparts u List.mem_cons_self
      have hrest := fun t' ht' => hparts t' (List.mem_cons_of_mem u ht')
      have htext : (u :: parts).flatMap (· ++ [sep]) ++ ys
          = u ++ sep :: (parts.flatMap (· ++ [sep]) ++ ys) := by
        rw [List.flatMap_cons, List.append_assoc, List.append_assoc, List.singleton_append]
      rw [htext, length_flatMap_take_cons]
      by_cases hcut : n ≤ u.length
      · -- the cut is in the first part, or right after it
        rw [List.take_append_of_le_length hcut, tokens_take_getElem? hu]
        cases k with
        | zero =>
            rw [List.getElem?_cons_zero, Option.some.injEq] at hk
            rw [← hk, List.take_zero, List.flatMap_nil, List.length_nil]
            refine ⟨fun h => ?_, fun h => ⟨rfl, hne, List.take_of_length_le (by omega)⟩⟩
            have hlength := congrArg List.length h.2.2
            rw [List.length_take] at hlength
            omega
        | succ k =>
            rw [List.getElem?_cons_succ] at hk
            obtain ⟨v, rest, rfl⟩ : ∃ v rest, parts = v :: rest :=
              List.exists_cons_of_ne_nil fun hnil => by simp [hnil] at hk
            rw [length_flatMap_take_cons]
            exact ⟨fun h => absurd h.1 (Nat.succ_ne_zero k), fun h => by omega⟩
      · -- the first part and its separator are there
        obtain ⟨m, rfl⟩ : ∃ m, n = u.length + 1 + m := ⟨n - u.length - 1, by omega⟩
        rw [tokens_take_cons hsep hne hu]
        cases k with
        | zero =>
            rw [List.getElem?_cons_zero, Option.some.injEq] at hk
            rw [List.getElem?_cons_zero, hk, List.take_zero, List.flatMap_nil, List.length_nil]
            exact ⟨fun _ => by omega, fun _ => rfl⟩
        | succ k =>
            rw [List.getElem?_cons_succ] at hk
            rw [List.getElem?_cons_succ, ih hrest hk m]
            omega

/-! ### A text that is cut -/

/-- Where a part begins, with one separator after each. -/
def partStart (parts : List (List α)) (j : Nat) : Nat :=
  ((parts.take j).map fun u => u.length + 1).sum

theorem partStart_cons (u : List α) (parts : List (List α)) (j : Nat) :
    partStart (u :: parts) (j + 1) = u.length + 1 + partStart parts j := by
  simp only [partStart, List.take_succ_cons, List.map_cons, List.sum_cons]

/-- Where a part begins does not depend on what follows it. -/
theorem partStart_append {parts : List (List α)} {j : Nat} (hj : j ≤ parts.length)
    (rest : List (List α)) : partStart (parts ++ rest) j = partStart parts j := by
  unfold partStart
  rw [List.take_append_of_le_length hj]

theorem partStart_succ {parts : List (List α)} {j : Nat} {u : List α}
    (hj : parts[j]? = some u) : partStart parts (j + 1) = partStart parts j + (u.length + 1) := by
  unfold partStart
  rw [List.take_add_one, hj, Option.toList_some, List.map_append, List.sum_append]
  simp

theorem partStart_mono (parts : List (List α)) {i j : Nat} (hij : i ≤ j) :
    partStart parts i ≤ partStart parts j := by
  obtain ⟨rest, hrest⟩ := List.take_prefix_take_left (l := parts) hij
  unfold partStart
  rw [← hrest, List.map_append, List.sum_append]
  omega

/-- Behind all the parts. -/
theorem length_flatMap_sep (sep : α) (parts : List (List α)) :
    (parts.flatMap (· ++ [sep])).length = partStart parts parts.length := by
  induction parts with
  | nil => rfl
  | cons u parts ih =>
      rw [List.flatMap_cons, List.length_append, ih, List.length_append, List.length_singleton,
        List.length_cons, partStart_cons]

theorem partStart_intercalate (sep : α) {parts : List (List α)} (hne : parts ≠ []) :
    partStart parts parts.length = ([sep].intercalate parts).length + 1 := by
  rw [← length_flatMap_sep sep, flatMap_eq_intercalate hne, List.length_append,
    List.length_singleton]

/-- Tokens with one separator after each take up no more room than where they were found. -/
theorem partStart_tokens_le (p : α → Bool) (xs : List α) :
    partStart (tokens p xs) (tokens p xs).length ≤ xs.length + 1 := by
  induction hn : xs.length using Nat.strong_induction_on generalizing xs with
  | _ n ih =>
      rcases tokens_cases p xs with ⟨hnone, -⟩ | ⟨seps, t, ys, rfl, -, -, -, hrest⟩
      · rw [hnone]
        exact Nat.zero_le _
      · rw [List.length_append, List.length_append] at hn
        rcases hrest with ⟨rfl, htokens⟩ | ⟨sep, zs, rfl, -, htokens⟩
        · rw [htokens, List.length_cons, partStart_cons]
          have hstart : partStart ([] : List (List α)) 0 = 0 := rfl
          rw [List.length_nil] at hn ⊢
          omega
        · rw [List.length_cons] at hn
          have hrest := ih zs.length (by omega) zs rfl
          rw [htokens, List.length_cons, partStart_cons]
          omega

/-- The parts that begin before the cut, each as far as it goes. -/
def cutParts : Nat → List (List α) → List (List α)
  | _, [] => []
  | 0, _ :: _ => []
  | n + 1, u :: parts => u.take (n + 1) :: cutParts (n - u.length) parts

theorem cutParts_zero (parts : List (List α)) : cutParts 0 parts = [] := by
  cases parts with
  | nil => rfl
  | cons u parts => rfl

/-- **The tokens of a text that is cut.** -/
theorem tokens_take_parts {sep : α} (hsep : p sep) {last : List α}
    (hlast : last ≠ [] ∧ ∀ x ∈ last, p x = false) {parts : List (List α)}
    (hparts : ∀ t ∈ parts, t ≠ [] ∧ ∀ x ∈ t, p x = false) :
    ∀ n, tokens p ((parts.flatMap (· ++ [sep]) ++ last).take n)
      = cutParts n (parts ++ [last]) := by
  induction parts with
  | nil =>
      intro n
      cases n with
      | zero => rw [List.take_zero, tokens_nil, cutParts_zero]
      | succ n =>
          have hne : last.take (n + 1) ≠ [] := by
            intro hnil
            rcases List.take_eq_nil_iff.mp hnil with h | h
            · exact absurd h (Nat.succ_ne_zero n)
            · exact hlast.1 h
          rw [List.flatMap_nil, List.nil_append, List.nil_append,
            tokens_single hne fun x hx => hlast.2 x (List.mem_of_mem_take hx)]
          rfl
  | cons u parts ih =>
      obtain ⟨hne, hu⟩ := hparts u List.mem_cons_self
      have hrest := ih fun t ht => hparts t (List.mem_cons_of_mem u ht)
      have htext : (u :: parts).flatMap (· ++ [sep]) ++ last
          = u ++ sep :: (parts.flatMap (· ++ [sep]) ++ last) := by
        rw [List.flatMap_cons, List.append_assoc, List.append_assoc, List.singleton_append]
      intro n
      rw [htext, List.cons_append]
      cases n with
      | zero => rw [List.take_zero, tokens_nil, cutParts_zero]
      | succ n =>
          rw [cutParts]
          by_cases hcut : n + 1 ≤ u.length
          · -- the cut is in this part, or right after it
            have hpart : u.take (n + 1) ≠ [] := by
              intro hnil
              rcases List.take_eq_nil_iff.mp hnil with h | h
              · exact absurd h (Nat.succ_ne_zero n)
              · exact hne h
            rw [List.take_append_of_le_length hcut,
              tokens_single hpart fun x hx => hu x (List.mem_of_mem_take hx),
              show n - u.length = 0 by omega, cutParts_zero]
          · obtain ⟨m, rfl⟩ : ∃ m, n = u.length + m := ⟨n - u.length, by omega⟩
            rw [show u.length + m + 1 = u.length + 1 + m by omega,
              tokens_take_cons hsep hne hu, hrest, Nat.add_sub_cancel_left,
              List.take_of_length_le (show u.length ≤ u.length + 1 + m by omega)]

/-- Which part is left in each place. -/
theorem cutParts_getElem? (parts : List (List α)) :
    ∀ n j, (cutParts n parts)[j]? = (parts[j]?).bind fun u =>
      if partStart parts j < n then some (u.take (n - partStart parts j)) else none := by
  induction parts with
  | nil =>
      intro n j
      rw [show cutParts n ([] : List (List α)) = [] by rw [cutParts], List.getElem?_nil]
      rfl
  | cons u parts ih =>
      intro n j
      cases n with
      | zero =>
          rw [cutParts_zero, List.getElem?_nil]
          cases (u :: parts)[j]? with
          | none => rfl
          | some v => rfl
      | succ n =>
          rw [cutParts]
          cases j with
          | zero =>
              have hstart : partStart (u :: parts) 0 = 0 := rfl
              rw [List.getElem?_cons_zero, List.getElem?_cons_zero, Option.bind_some, hstart,
                if_pos (Nat.succ_pos n), Nat.sub_zero]
          | succ j =>
              rw [List.getElem?_cons_succ, List.getElem?_cons_succ, ih, partStart_cons]
              refine congrArg _ (funext fun v => ?_)
              by_cases hlt : partStart parts j < n - u.length
              · rw [if_pos hlt, if_pos (by omega),
                  show n - u.length - partStart parts j
                    = n + 1 - (u.length + 1 + partStart parts j) by omega]
              · rw [if_neg hlt, if_neg (by omega)]

theorem mem_cutParts_iff {parts : List (List α)} {n : Nat} {t : List α} :
    t ∈ cutParts n parts ↔ ∃ j u, parts[j]? = some u ∧ partStart parts j < n ∧
      t = u.take (n - partStart parts j) := by
  rw [List.mem_iff_getElem?]
  refine exists_congr fun j => ?_
  rw [cutParts_getElem?, Option.bind_eq_some_iff]
  refine exists_congr fun u => and_congr_right fun _ => ?_
  by_cases hlt : partStart parts j < n
  · rw [if_pos hlt, Option.some.injEq, eq_comm]
    exact (and_iff_right hlt).symm
  · rw [if_neg hlt]
    exact ⟨fun h => absurd h (by simp), fun h => absurd h.1 hlt⟩

/-- There are no more than `m` when part `m` does not begin before the cut. -/
theorem length_cutParts_le_iff {parts : List (List α)} {n m : Nat} :
    (cutParts n parts).length ≤ m ↔ parts.length ≤ m ∨ n ≤ partStart parts m := by
  rw [← List.getElem?_eq_none_iff, cutParts_getElem?, ← List.getElem?_eq_none_iff]
  cases hm : parts[m]? with
  | none => simp
  | some u =>
      rw [Option.bind_some]
      by_cases hlt : partStart parts m < n
      · rw [if_pos hlt]
        refine ⟨fun h => absurd h (by simp), fun h => ?_⟩
        rcases h with h | h
        · exact absurd h (by simp)
        · omega
      · rw [if_neg hlt]
        exact ⟨fun _ => Or.inr (by omega), fun _ => rfl⟩

end Split
