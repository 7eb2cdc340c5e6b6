/-
Searching texts.

A matcher looks at the beginning of a text.  `anywhere` asks it at every position;
`only` goes through a text and keeps the stretches it matches, each search going on
behind the stretch before.  `withContext` goes through the lines of a file, keeps those
that match and some lines behind each, and puts a separator where it left lines out
between two groups.
-/
import Mathlib.Data.List.Infix

universe u

namespace Grep

variable {α : Type u}

/-- The matcher matches at some position. -/
def anywhere (here : List α → Bool) (text : List α) : Bool := text.tails.any here

/-- The stretches matched, each `here` long; `skip` elements are left of the one before. -/
def only (here : List α → Option Nat) : Nat → List α → List (List α)
  | _, [] => []
  | skip + 1, _ :: text => only here skip text
  | 0, c :: text =>
      match here (c :: text) with
      | none => only here 0 text
      | some n => (c :: text).take n :: only here (n - 1) text

/-- The lines that match and `after` lines behind each: `left` lines of context are still to
come, and `gap` says that lines were left out since the last one `printed`. -/
def withContext (after : Nat) (sep : α) (p : α → Bool) : Nat → Bool → Bool → List α → List α
  | _, _, _, [] => []
  | left, printed, gap, line :: lines =>
      if p line then
        (if gap then [sep] else []) ++ line :: withContext after sep p after true false lines
      else
        match left with
        | 0 => withContext after sep p 0 printed printed lines
        | left + 1 => line :: withContext after sep p left true false lines

/-! ### Positions -/

theorem anywhere_iff {here : List α → Bool} {text : List α} :
    anywhere here text = true ↔ ∃ rest, rest <:+ text ∧ here rest = true := by
  unfold anywhere
  rw [List.any_eq_true]
  refine exists_congr fun rest => ?_
  rw [List.mem_tails]

/-- Looking for a fixed text is asking for a stretch. -/
theorem anywhere_isPrefixOf_iff [BEq α] [LawfulBEq α] {word text : List α} :
    anywhere (word.isPrefixOf ·) text = true ↔ word <:+: text := by
  rw [anywhere_iff]
  constructor
  · intro h
    obtain ⟨rest, hrest, hhere⟩ := h
    exact (List.isPrefixOf_iff_prefix.mp hhere).isInfix.trans hrest.isInfix
  · intro h
    obtain ⟨before, behind, rfl⟩ := h
    refine ⟨word ++ behind, ⟨before, (List.append_assoc _ _ _).symm⟩, ?_⟩
    exact List.isPrefixOf_iff_prefix.mpr (List.prefix_append word behind)

/-! ### Stretches -/

variable {here : List α → Option Nat}

/-- What is left of a stretch is gone over. -/
theorem only_skip (u v : List α) : only here u.length (u ++ v) = only here 0 v := by
  induction u with
  | nil => rfl
  | cons c u ih => exact ih

/-- So is what the matcher can begin at no element of. -/
theorem only_front {front : List α} (h : ∀ c ∈ front, ∀ v, here (c :: v) = none) (v : List α) :
    only here 0 (front ++ v) = only here 0 v := by
  induction front with
  | nil => rfl
  | cons c front ih =>
      rw [List.cons_append, only, h c List.mem_cons_self]
      exact ih fun c' hc' => h c' (List.mem_cons_of_mem c hc')

/-- A stretch that is matched is kept, and the search goes on behind it. -/
theorem only_cons {c : α} {u : List α} (v : List α)
    (h : here (c :: u ++ v) = some (c :: u).length) :
    only here 0 (c :: u ++ v) = (c :: u) :: only here 0 v := by
  have htake : (c :: (u ++ v)).take (c :: u).length = c :: u := by
    rw [← List.cons_append]
    exact List.take_left
  rw [List.cons_append] at h ⊢
  rw [only, h]
  dsimp only
  rw [htake, List.length_cons, Nat.add_sub_cancel, only_skip]

/-- Whatever is kept was matched. -/
theorem of_mem_only {text found : List α} {skip : Nat} (h : found ∈ only here skip text) :
    ∃ rest n, rest <:+ text ∧ here rest = some n ∧ found = rest.take n := by
  induction text generalizing skip with
  | nil =>
      rw [only] at h
      exact absurd h List.not_mem_nil
  | cons c text ih =>
      have hbehind : ∀ {skip}, found ∈ only here skip text →
          ∃ rest n, rest <:+ c :: text ∧ here rest = some n ∧ found = rest.take n := by
        intro skip hmem
        obtain ⟨rest, n, hrest, hhere, hfound⟩ := ih hmem
        exact ⟨rest, n, hrest.trans (List.suffix_cons c text), hhere, hfound⟩
      cases skip with
      | succ skip =>
          rw [only] at h
          exact hbehind h
      | zero =>
          rw [only] at h
          cases hhere : here (c :: text) with
          | none =>
              rw [hhere] at h
              exact hbehind h
          | some n =>
              rw [hhere] at h
              rcases List.mem_cons.mp h with hfound | hmem
              · exact ⟨c :: text, n, List.suffix_rfl, hhere, hfound⟩
              · exact hbehind hmem

/-! ### Lines -/

variable {after : Nat} {sep : α} {p : α → Bool}

/-- Lines that do not match, before any that does, leave nothing. -/
theorem withContext_skip {front : List α} (h : ∀ line ∈ front, p line = false) (lines : List α) :
    withContext after sep p 0 false false (front ++ lines)
      = withContext after sep p 0 false false lines := by
  induction front with
  | nil => rfl
  | cons line front ih =>
      rw [List.cons_append, withContext, h line List.mem_cons_self, if_neg Bool.false_ne_true]
      exact ih fun line' hline' => h line' (List.mem_cons_of_mem line hline')

/-- The lines behind a match are kept. -/
theorem withContext_left {context : List α} (h : ∀ line ∈ context, p line = false)
    (lines : List α) :
    withContext after sep p context.length true false (context ++ lines)
      = context ++ withContext after sep p 0 true false lines := by
  induction context with
  | nil => rfl
  | cons line context ih =>
      rw [List.cons_append, List.length_cons, withContext, h line List.mem_cons_self,
        if_neg Bool.false_ne_true]
      rw [ih fun line' hline' => h line' (List.mem_cons_of_mem line hline'), List.cons_append]

/-- The first match is kept with the lines behind it. -/
theorem withContext_match {line : α} {context : List α} (hline : p line = true)
    (h : ∀ line ∈ context, p line = false) (hafter : context.length = after) (lines : List α) :
    withContext after sep p 0 false false (line :: (context ++ lines))
      = line :: (context ++ withContext after sep p 0 true false lines) := by
  rw [withContext, hline, if_pos rfl, if_neg Bool.false_ne_true, List.nil_append, ← hafter,
    withContext_left h]

end Grep
