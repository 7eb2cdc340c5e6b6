/-
Labelled trees as lists.

A tree has a label and its children, in order; a forest is a list of trees.  Two ways to
write a forest down are here.  An outline is the labels in the order they are come upon,
each with its depth; what follows at a greater depth is below, and what follows at the same
depth is beside.  A drawing gives each tree's node a name of its own and keeps two lists,
of the names with their labels and of the arrows from each name to those below it.

`readOutline` reads an outline back.  A drawing is read from a name on: `Unfolds` says what
forest hangs from a list of names, and it is one forest.
-/
import Mathlib.Data.List.Basic

universe u v

inductive Forest (α : Type u)
  | empty
  /-- A tree, with what is below its node, and the trees beside it. -/
  | plant (label : α) (below beside : Forest α)

namespace Forest

variable {α : Type u} {V : Type v}

/-- How many nodes a forest has. -/
def count : Forest α → Nat
  | .empty => 0
  | .plant _ below beside => 1 + count below + count beside

/-- The labels in a forest. -/
def labels : Forest α → List α
  | .empty => []
  | .plant label below beside => label :: (labels below ++ labels beside)

/-! ### Outlines -/

/-- The labels with their depths, from `depth` on. -/
def outline (depth : Nat) : Forest α → List (Nat × α)
  | .empty => []
  | .plant label below beside =>
      (depth, label) :: (outline (depth + 1) below ++ outline depth beside)

/-- What stands at `depth` and below it at the beginning of an outline, and the rest of it. -/
def readOutline : Nat → Nat → List (Nat × α) → Forest α × List (Nat × α)
  | _, _, [] => (.empty, [])
  | 0, _, items => (.empty, items)
  | fuel + 1, depth, (d, label) :: items =>
      if d = depth then
        let (below, items) := readOutline fuel (depth + 1) items
        let (beside, items) := readOutline fuel depth items
        (.plant label below beside, items)
      else (.empty, (d, label) :: items)

/-- What stands higher is not read. -/
theorem readOutline_higher {depth : Nat} {rest : List (Nat × α)}
    (hrest : ∀ item ∈ rest.head?, item.1 < depth) (fuel : Nat) :
    readOutline fuel depth rest = (.empty, rest) := by
  cases rest with
  | nil => simp [readOutline]
  | cons item rest =>
      obtain ⟨d, label⟩ := item
      have hlt : d < depth := hrest (d, label) (by simp)
      cases fuel with
      | zero => rfl
      | succ fuel => rw [readOutline, if_neg (Nat.ne_of_lt hlt)]

/-- **An outline can be read back**, up to where something stands higher. -/
theorem readOutline_outline (ts : Forest α) : ∀ (depth fuel : Nat) (rest : List (Nat × α)),
    (outline depth ts ++ rest).length ≤ fuel → (∀ item ∈ rest.head?, item.1 < depth) →
    readOutline fuel depth (outline depth ts ++ rest) = (ts, rest) := by
  induction ts with
  | empty =>
      intro depth fuel rest _ hrest
      exact readOutline_higher hrest fuel
  | plant label below beside ihBelow ihBeside =>
      intro depth fuel rest hfuel hrest
      rw [outline, List.cons_append, List.append_assoc] at hfuel ⊢
      rw [List.length_cons] at hfuel
      obtain ⟨fuel, rfl⟩ : ∃ k, fuel = k + 1 := ⟨fuel - 1, by omega⟩
      -- what is beside stands higher than what is below
      have hhead : ∀ item ∈ (outline depth beside ++ rest).head?, item.1 < depth + 1 := by
        intro item hitem
        cases beside with
        | empty => exact Nat.lt_succ_of_lt (hrest item hitem)
        | plant label' below' beside' =>
            rw [outline, List.cons_append, List.head?_cons, Option.mem_some_iff] at hitem
            rw [← hitem]
            exact Nat.lt_succ_self depth
      rw [readOutline, if_pos rfl, ihBelow (depth + 1) fuel _ (by omega) hhead]
      dsimp only
      rw [ihBeside depth fuel rest (by rw [List.length_append] at hfuel; omega) hrest]

/-- What is read and what is left are all there was. -/
theorem labels_readOutline : ∀ (fuel depth : Nat) (items : List (Nat × α)),
    labels (readOutline fuel depth items).1 ++ (readOutline fuel depth items).2.map Prod.snd
      = items.map Prod.snd := by
  intro fuel
  induction fuel with
  | zero =>
      intro depth items
      cases items with
      | nil => rfl
      | cons item items => rfl
  | succ fuel ih =>
      intro depth items
      cases items with
      | nil => rfl
      | cons item items =>
          obtain ⟨d, label⟩ := item
          rw [readOutline]
          by_cases hd : d = depth
          · rw [if_pos hd]
            dsimp only
            rw [labels, List.cons_append, List.append_assoc, ih depth, ih (depth + 1),
              List.map_cons]
          · rw [if_neg hd]
            rfl

/-! ### Drawings -/

section Drawings

/-- The forest that hangs from the names. -/
inductive Unfolds (label : V → Option α) (next : V → List V) : List V → Forest α → Prop
  | nil : Unfolds label next [] .empty
  | cons {v : V} {vs : List V} {a : α} {below beside : Forest α} (hlabel : label v = some a)
      (hbelow : Unfolds label next (next v) below) (hbeside : Unfolds label next vs beside) :
      Unfolds label next (v :: vs) (.plant a below beside)

variable {label : V → Option α} {next : V → List V}

/-- **From the same names hangs the same forest.** -/
theorem Unfolds.unique {vs : List V} {ts us : Forest α} (ht : Unfolds label next vs ts)
    (hu : Unfolds label next vs us) : ts = us := by
  induction ht generalizing us with
  | nil =>
      cases hu with
      | nil => rfl
  | cons hlabel _ _ ihBelow ihBeside =>
      cases hu with
      | cons hlabel' hbelow' hbeside' =>
          rw [hlabel, Option.some.injEq] at hlabel'
          rw [hlabel', ihBelow hbelow', ihBeside hbeside']

/-- Each label was found under some name. -/
theorem Unfolds.label_mem {vs : List V} {ts : Forest α} (h : Unfolds label next vs ts) :
    ∀ a ∈ labels ts, ∃ v, label v = some a := by
  induction h with
  | nil => exact fun a ha => absurd ha List.not_mem_nil
  | cons hlabel _ _ ihBelow ihBeside =>
      intro a ha
      rw [labels, List.mem_cons, List.mem_append] at ha
      rcases ha with rfl | ha | ha
      · exact ⟨_, hlabel⟩
      · exact ihBelow a ha
      · exact ihBeside a ha

variable [DecidableEq V]

/-- The label of a name in a list. -/
def labelIn (named : List (V × α)) (v : V) : Option α :=
  named.findSome? fun p => if p.1 = v then some p.2 else none

/-- The names below a name in a list. -/
def nextIn (arrows : List (V × V)) (v : V) : List V :=
  arrows.filterMap fun p => if p.1 = v then some p.2 else none

theorem labelIn_append (named named' : List (V × α)) (v : V) :
    labelIn (named ++ named') v = (labelIn named v).or (labelIn named' v) :=
  List.findSome?_append

theorem labelIn_cons_self (v : V) (a : α) (named : List (V × α)) :
    labelIn ((v, a) :: named) v = some a := by
  unfold labelIn
  rw [List.findSome?_cons_of_isSome] <;> simp

theorem labelIn_eq_none {named : List (V × α)} {v : V} (h : ∀ p ∈ named, p.1 ≠ v) :
    labelIn named v = none := by
  unfold labelIn
  rw [List.findSome?_eq_none_iff]
  exact fun p hp => if_neg (h p hp)

theorem labelIn_mem {named : List (V × α)} {v : V} {a : α} (h : labelIn named v = some a) :
    (v, a) ∈ named := by
  obtain ⟨p, hp, heq⟩ := List.exists_of_findSome?_eq_some h
  by_cases hv : p.1 = v
  · rw [if_pos hv, Option.some.injEq] at heq
    rw [← hv, ← heq]
    exact hp
  · rw [if_neg hv] at heq
    exact absurd heq (by simp)

theorem nextIn_append (arrows arrows' : List (V × V)) (v : V) :
    nextIn (arrows ++ arrows') v = nextIn arrows v ++ nextIn arrows' v :=
  List.filterMap_append

theorem nextIn_eq_nil {arrows : List (V × V)} {v : V} (h : ∀ p ∈ arrows, p.1 ≠ v) :
    nextIn arrows v = [] := by
  unfold nextIn
  rw [List.filterMap_eq_nil_iff]
  exact fun p hp => if_neg (h p hp)

/-- The names with their labels, numbered as they are come upon. -/
def drawNames (name : Nat → V) (k : Nat) : Forest α → List (V × α)
  | .empty => []
  | .plant a below beside =>
      (name k, a) :: (drawNames name (k + 1) below ++ drawNames name (k + 1 + count below) beside)

/-- The arrows, with one from `parent` to each tree of the forest. -/
def drawArrows (name : Nat → V) (parent : Option V) (k : Nat) : Forest α → List (V × V)
  | .empty => []
  | .plant _ below beside =>
      (parent.map fun p => (p, name k)).toList ++
        (drawArrows name (some (name k)) (k + 1) below ++
          drawArrows name parent (k + 1 + count below) beside)

/-- The names of the trees of the forest. -/
def drawTops (name : Nat → V) (k : Nat) : Forest α → List V
  | .empty => []
  | .plant _ below beside => name k :: drawTops name (k + 1 + count below) beside

variable {name : Nat → V}

omit [DecidableEq V] in
theorem length_drawNames (name : Nat → V) (ts : Forest α) :
    ∀ k, (drawNames name k ts).length = count ts := by
  induction ts with
  | empty => exact fun k => rfl
  | plant a below beside ihBelow ihBeside =>
      intro k
      rw [drawNames, List.length_cons, List.length_append, ihBelow, ihBeside, count]
      omega

omit [DecidableEq V] in
/-- The names are those of the numbers from `k` on. -/
theorem drawNames_names (name : Nat → V) (ts : Forest α) :
    ∀ k, (drawNames name k ts).map Prod.fst = (List.range' k (count ts)).map name := by
  induction ts with
  | empty => exact fun k => rfl
  | plant a below beside ihBelow ihBeside =>
      intro k
      rw [drawNames, List.map_cons, List.map_append, ihBelow, ihBeside, count,
        show 1 + count below + count beside = count below + count beside + 1 by omega,
        List.range'_succ, List.map_cons, ← List.range'_append_1, List.map_append]

omit [DecidableEq V] in
theorem drawNames_labels (name : Nat → V) (ts : Forest α) : ∀ k,
    (drawNames name k ts).map Prod.snd = labels ts := by
  induction ts with
  | empty => exact fun _ => rfl
  | plant a below beside ihBelow ihBeside =>
      intro k
      rw [drawNames, List.map_cons, List.map_append, ihBelow, ihBeside, labels]

omit [DecidableEq V] in
theorem drawNames_mem {ts : Forest α} {k : Nat} {p : V × α}
    (hp : p ∈ drawNames name k ts) : ∃ i, k ≤ i ∧ i < k + count ts ∧ p.1 = name i := by
  have hmem := List.mem_map_of_mem (f := Prod.fst) hp
  rw [drawNames_names] at hmem
  obtain ⟨i, hi, hname⟩ := List.mem_map.mp hmem
  rw [List.mem_range'_1] at hi
  exact ⟨i, hi.1, hi.2, hname.symm⟩

omit [DecidableEq V] in
theorem drawArrows_mem (ts : Forest α) : ∀ {parent : Option V} {k : Nat} {p : V × V},
    p ∈ drawArrows name parent k ts →
      parent = some p.1 ∨ ∃ i, k ≤ i ∧ i < k + count ts ∧ p.1 = name i := by
  induction ts with
  | empty => exact fun hp => absurd hp List.not_mem_nil
  | plant a below beside ihBelow ihBeside =>
      intro parent k p hp
      rw [drawArrows, List.mem_append, List.mem_append] at hp
      rw [count]
      rcases hp with hp | hp | hp
      · rw [Option.mem_toList, Option.map_eq_some_iff] at hp
        obtain ⟨q, hq, rfl⟩ := hp
        exact Or.inl hq
      · refine Or.inr ?_
        rcases ihBelow hp with hself | ⟨i, hle, hlt, hi⟩
        · rw [Option.some.injEq] at hself
          exact ⟨k, Nat.le_refl k, by omega, hself.symm⟩
        · exact ⟨i, by omega, by omega, hi⟩
      · rcases ihBeside hp with hparent | ⟨i, hle, hlt, hi⟩
        · exact Or.inl hparent
        · exact Or.inr ⟨i, by omega, by omega, hi⟩

/-- Below a parent that has none of the numbers are the trees of the forest. -/
theorem nextIn_parent (ts : Forest α) : ∀ {parent : V} {k : Nat},
    (∀ i, k ≤ i → parent ≠ name i) →
      nextIn (drawArrows name (some parent) k ts) parent = drawTops name k ts := by
  induction ts with
  | empty => exact fun _ => rfl
  | plant a below beside _ ihBeside =>
      intro parent k hparent
      have hbelow : nextIn (drawArrows name (some (name k)) (k + 1) below) parent = [] := by
        refine nextIn_eq_nil fun p hp heq => ?_
        rcases drawArrows_mem below hp with hself | ⟨i, hle, -, hi⟩
        · rw [Option.some.injEq] at hself
          exact hparent k (Nat.le_refl k) (heq.symm.trans hself.symm)
        · exact hparent i (by omega) (heq.symm.trans hi)
      rw [drawArrows, nextIn_append, nextIn_append, hbelow,
        ihBeside fun i hi => hparent i (by omega), drawTops]
      simp [nextIn]

/-- **A drawing unfolds to what was drawn**, whatever else is written with other names. -/
theorem unfolds_drawn (hname : Function.Injective name) (named : List (V × α))
    (arrows : List (V × V)) (ts : Forest α) : ∀ (parent : Option V) (k : Nat),
    (∀ p ∈ parent, ∀ i, k ≤ i → p ≠ name i) →
    (∀ i, k ≤ i → i < k + count ts →
      labelIn named (name i) = labelIn (drawNames name k ts) (name i) ∧
      nextIn arrows (name i) = nextIn (drawArrows name parent k ts) (name i)) →
    Unfolds (labelIn named) (nextIn arrows) (drawTops name k ts) ts := by
  induction ts with
  | empty => exact fun _ _ _ _ => Unfolds.nil
  | plant a below beside ihBelow ihBeside =>
      intro parent k hparent hagree
      rw [count] at hagree
      -- where a number is, only one of the three parts says something of its name
      have hself : ∀ i, k ≤ i → nextIn (parent.map fun p => (p, name k)).toList (name i) = [] := by
        intro i hi
        refine nextIn_eq_nil fun p hp heq => ?_
        rw [Option.mem_toList, Option.map_eq_some_iff] at hp
        obtain ⟨q, hq, rfl⟩ := hp
        exact hparent q hq i hi heq
      have hbelow : ∀ i, ¬ (k ≤ i ∧ i < k + 1 + count below) →
          nextIn (drawArrows name (some (name k)) (k + 1) below) (name i) = [] := by
        intro i hi
        refine nextIn_eq_nil fun p hp heq => ?_
        rcases drawArrows_mem below hp with hself | ⟨j, hle, hlt, hj⟩
        · rw [Option.some.injEq] at hself
          have hik := hname (hself.trans heq)
          exact hi ⟨by omega, by omega⟩
        · have hij := hname (hj.symm.trans heq)
          exact hi ⟨by omega, by omega⟩
      have hbeside : ∀ i, k ≤ i → i < k + 1 + count below →
          nextIn (drawArrows name parent (k + 1 + count below) beside) (name i) = [] := by
        intro i hi hlt
        refine nextIn_eq_nil fun p hp heq => ?_
        rcases drawArrows_mem beside hp with hp | ⟨j, hle, -, hj⟩
        · exact hparent p.1 hp i hi heq
        · have hij := hname (hj.symm.trans heq)
          omega
      refine Unfolds.cons ?_ ?_ ?_
      · rw [(hagree k (Nat.le_refl k) (by omega)).1, drawNames, labelIn_cons_self]
      · have hnext := (hagree k (Nat.le_refl k) (by omega)).2
        rw [drawArrows, nextIn_append, nextIn_append, hself k (Nat.le_refl k),
          hbeside k (Nat.le_refl k) (by omega), List.nil_append, List.append_nil,
          nextIn_parent below fun i hi heq => by have := hname heq; omega] at hnext
        rw [hnext]
        refine ihBelow (some (name k)) (k + 1) ?_ fun i hle hlt => ?_
        · intro p hp i hi heq
          rw [Option.mem_some_iff] at hp
          have hik := hname (hp.trans heq)
          omega
        · obtain ⟨hlabel, hnext⟩ := hagree i (by omega) (by omega)
          refine ⟨?_, ?_⟩
          · have hne : name k ≠ name i := fun heq => by have := hname heq; omega
            have hnone : labelIn (drawNames name (k + 1 + count below) beside) (name i) = none := by
              refine labelIn_eq_none fun p hp heq => ?_
              obtain ⟨j, hle', -, hj⟩ := drawNames_mem hp
              have hij := hname (hj.symm.trans heq)
              omega
            have hfirst : labelIn [(name k, a)] (name i) = none :=
              labelIn_eq_none fun p hp => by rwa [List.mem_singleton.mp hp]
            rw [hlabel, drawNames, ← List.singleton_append, labelIn_append, labelIn_append,
              hfirst, hnone, Option.none_or, Option.or_none]
          · rw [hnext, drawArrows, nextIn_append, nextIn_append, hself i (by omega),
              hbeside i (by omega) (by omega), List.nil_append, List.append_nil]
      · refine ihBeside parent (k + 1 + count below)
          (fun p hp i hi => hparent p hp i (by omega)) fun i hle hlt => ?_
        obtain ⟨hlabel, hnext⟩ := hagree i (by omega) (by omega)
        refine ⟨?_, ?_⟩
        · have hfront : labelIn ((name k, a) :: drawNames name (k + 1) below) (name i) = none := by
            refine labelIn_eq_none fun p hp heq => ?_
            rcases List.mem_cons.mp hp with rfl | hp
            · have hik := hname heq
              omega
            · obtain ⟨j, hle', hlt', hj⟩ := drawNames_mem hp
              have hij := hname (hj.symm.trans heq)
              omega
          rw [hlabel, drawNames, ← List.cons_append, labelIn_append, hfront, Option.none_or]
        · rw [hnext, drawArrows, nextIn_append, nextIn_append, hself i (by omega),
            hbelow i (by omega), List.nil_append, List.nil_append]

omit [DecidableEq V] in
/-- Arrows lead to every name of a forest with a parent. -/
theorem drawArrows_targets (name : Nat → V) (ts : Forest α) : ∀ (parent : V) (k : Nat),
    (drawArrows name (some parent) k ts).map Prod.snd = (drawNames name k ts).map Prod.fst := by
  induction ts with
  | empty => exact fun _ _ => rfl
  | plant a below beside ihBelow ihBeside =>
      intro parent k
      rw [drawArrows, drawNames, List.map_append, List.map_append, ihBelow, ihBeside,
        List.map_cons, List.map_append]
      rfl

omit [DecidableEq V] in
theorem mem_drawArrows_target {ts : Forest α} : ∀ {k : Nat} {v : V},
    v ∈ (drawArrows name none k ts).map Prod.snd → v ∈ (drawNames name k ts).map Prod.fst := by
  induction ts with
  | empty => exact fun h => h
  | plant a below beside _ ihBeside =>
      intro k v hv
      rw [drawArrows, Option.map_none, Option.toList_none, List.nil_append, List.map_append,
        drawArrows_targets, List.mem_append] at hv
      rw [drawNames, List.map_cons, List.map_append, List.mem_cons, List.mem_append]
      exact Or.inr (hv.imp_right ihBeside)

/-- The names no arrow leads to. -/
def topsOf (named : List (V × α)) (arrows : List (V × V)) : List V :=
  (named.map Prod.fst).filter fun v => v ∉ arrows.map Prod.snd

theorem topsOf_drawing (hname : Function.Injective name) (ts : Forest α) : ∀ k,
    topsOf (drawNames name k ts) (drawArrows name none k ts) = drawTops name k ts := by
  induction ts with
  | empty => exact fun _ => rfl
  | plant a below beside _ ihBeside =>
      intro k
      have hall : (drawArrows name none k (.plant a below beside)).map Prod.snd
          = (drawNames name (k + 1) below).map Prod.fst ++
            (drawArrows name none (k + 1 + count below) beside).map Prod.snd := by
        rw [drawArrows, Option.map_none, Option.toList_none, List.nil_append, List.map_append,
          drawArrows_targets]
      have hmem : ∀ {v k} {ts : Forest α}, v ∈ (drawNames name k ts).map Prod.fst →
          ∃ i, k ≤ i ∧ i < k + count ts ∧ v = name i := by
        intro v k ts hv
        obtain ⟨p, hp, rfl⟩ := List.mem_map.mp hv
        exact drawNames_mem hp
      have htop : name k ∉ (drawArrows name none k (.plant a below beside)).map Prod.snd := by
        rw [hall, List.mem_append]
        rintro (h | h)
        · obtain ⟨i, hle, -, hi⟩ := hmem h
          have hik := hname hi
          omega
        · obtain ⟨i, hle, -, hi⟩ := hmem (mem_drawArrows_target h)
          have hik := hname hi
          omega
      have hbelow : ((drawNames name (k + 1) below).map Prod.fst).filter
          (fun v => v ∉ (drawArrows name none k (.plant a below beside)).map Prod.snd) = [] := by
        rw [List.filter_eq_nil_iff]
        intro v hv
        rw [hall]
        simp [hv]
      have hbeside : ((drawNames name (k + 1 + count below) beside).map Prod.fst).filter
            (fun v => v ∉ (drawArrows name none k (.plant a below beside)).map Prod.snd)
          = drawTops name (k + 1 + count below) beside := by
        rw [← ihBeside, topsOf]
        refine List.filter_congr fun v hv => ?_
        obtain ⟨i, hle, -, rfl⟩ := hmem hv
        have hnot : name i ∉ (drawNames name (k + 1) below).map Prod.fst := by
          intro h
          obtain ⟨j, -, hlt, hj⟩ := hmem h
          have hij := hname hj
          omega
        rw [hall, decide_eq_decide, List.mem_append, not_or]
        exact and_iff_right hnot
      have hnames : (drawNames name k (.plant a below beside)).map Prod.fst
          = name k :: ((drawNames name (k + 1) below).map Prod.fst ++
            (drawNames name (k + 1 + count below) beside).map Prod.fst) := by
        rw [drawNames, List.map_cons, List.map_append]
      rw [topsOf, hnames, List.filter_cons_of_pos (by simpa using htop), List.filter_append,
        hbelow, hbeside, List.nil_append, drawTops]

/-- A drawing alone unfolds to what was drawn. -/
theorem unfolds_drawing (hname : Function.Injective name) (k : Nat) (ts : Forest α) :
    Unfolds (labelIn (drawNames name k ts)) (nextIn (drawArrows name none k ts))
      (drawTops name k ts) ts :=
  unfolds_drawn hname _ _ ts none k (fun _ hp => absurd hp (by simp)) fun _ _ _ => ⟨rfl, rfl⟩

end Drawings

end Forest
