/-
The drawings of the trie say what the trie is.

What `visualizeTrie` writes for one trie is a drawing of its labels with the numbers from
where the counter stood, and is read back by the rules for forests.  A quote in a label spoils
a file for `dot`, and nothing else does.

The counter is never set back, so no two drawings have a name in common, and after
2147483647 nodes there are no more names to be had.
-/
import DnsServer.Proofs.Decimal
import DnsServer.Proofs.Listing
import Mathlib.Data.List.ReduceOption

namespace DnsServer

open Call Forest

/-! ### What is written for `dot` -/

/-- The name with a number. -/
def dotName (id : Nat) : Bytes := ascii "node" ++ ascii (toString id)

theorem dotName_injective : Function.Injective dotName := fun _ _ h =>
  decimal_inj (List.append_cancel_left h)

/-- What no part of a name is. -/
theorem notMem_dotName {c : UInt8} (hnode : c ∉ ascii "node") (hdigit : isDigit c = false)
    (id : Nat) : c ∉ dotName id := by
  rw [dotName, List.mem_append, not_or]
  exact ⟨hnode, fun h => absurd (isDigit_decimal h) (by simp [hdigit])⟩

/-- A node as it is drawn. -/
structure DotNode where
  id : Nat
  label : Bytes
  parent : Option Nat

/-- The line of its arrow, or nothing. -/
def DotNode.arrow (node : DotNode) : Bytes :=
  node.parent.elim [] fun parent => arrowLine parent node.id

def DotNode.text (node : DotNode) : Bytes := nodeLine node.id node.label ++ node.arrow

/-- The nodes of a forest, the numbers from `k` on. -/
def dotNodes (parent : Option Nat) (k : Nat) : Forest Bytes → List DotNode
  | .empty => []
  | .plant label below beside =>
      { id := k, label, parent } ::
        (dotNodes (some k) (k + 1) below ++ dotNodes parent (k + 1 + count below) beside)

/-- **The children are drawn with the numbers from `nodeId` on**, as far as there are any. -/
theorem writeChildrensToDot_eq (nodes : List TrieNode) : ∀ parent nodeId, nodeId ≤ intMax →
    writeChildrensToDot nodes parent nodeId =
      if nodeId + count (drawnAll nodes) ≤ intMax then
        .done (nodeId + count (drawnAll nodes),
          (dotNodes (some parent) nodeId (drawnAll nodes)).flatMap DotNode.text)
      else .undefined := by
  induction nodes using childrens_induction with
  | nil =>
      intro parent nodeId hle
      rw [writeChildrensToDot, drawnAll, count, Nat.add_zero, if_pos hle]
      rfl
  | cons label childrens records soa ns beside ihBelow ihBeside =>
      intro parent nodeId hle
      rw [writeChildrensToDot, writeTrieToDot, drawnAll_cons, count]
      by_cases hlast : nodeId = intMax
      · rw [if_pos hlast, if_neg (by omega)]
        rfl
      rw [if_neg hlast]
      dsimp only
      rw [ihBelow nodeId (nodeId + 1) (by omega)]
      by_cases hbelow : nodeId + 1 + count (drawnAll childrens) ≤ intMax
      · rw [if_pos hbelow]
        simp only [done_bind, pure]
        rw [ihBeside parent (nodeId + 1 + count (drawnAll childrens)) hbelow]
        have hsum : nodeId + 1 + count (drawnAll childrens) + count (drawnAll beside)
            = nodeId + (1 + count (drawnAll childrens) + count (drawnAll beside)) := by omega
        rw [hsum]
        by_cases hbeside : nodeId + (1 + count (drawnAll childrens) + count (drawnAll beside))
            ≤ intMax
        · rw [if_pos hbeside, if_pos hbeside, done_bind, dotNodes, List.flatMap_cons,
            List.flatMap_append, DotNode.text, DotNode.arrow]
          simp only [List.append_assoc]
        · rw [if_neg hbeside, if_neg hbeside, undefined_bind]
      · rw [if_neg hbelow, if_neg (by omega)]
        rfl

/-- The whole of a file. -/
def dotFile (k : Nat) (forest : Forest Bytes) : Bytes :=
  ascii "digraph Trie \x7b\n" ++ ascii "    node [shape=circle];\n" ++
    (dotNodes none k forest).flatMap DotNode.text ++ ascii "\x7d\n"

theorem visualizeTrie_eq {nodeId : Nat} (hle : nodeId ≤ intMax) (root : TrieNode)
    (opened : Bool) : visualizeTrie nodeId root opened =
      if opened then
        if nodeId + count root.tree ≤ intMax then
          .done (nodeId + count root.tree, some (dotFile nodeId root.tree))
        else .undefined
      else .done (nodeId, none) := by
  obtain ⟨label, childrens, records, soa, ns⟩ := root
  cases opened with
  | false => rfl
  | true =>
      have htree : TrieNode.tree ⟨label, childrens, records, soa, ns⟩
          = .plant label (drawnAll childrens) .empty := rfl
      rw [visualizeTrie, if_pos rfl, if_pos rfl, htree, count, count, Nat.add_zero,
        writeTrieToDot]
      by_cases hlast : nodeId = intMax
      · rw [if_pos hlast, if_neg (by omega)]
        rfl
      rw [if_neg hlast]
      dsimp only
      rw [writeChildrensToDot_eq childrens nodeId (nodeId + 1) (by omega),
        show nodeId + 1 + count (drawnAll childrens)
          = nodeId + (1 + count (drawnAll childrens)) by omega]
      by_cases hbelow : nodeId + (1 + count (drawnAll childrens)) ≤ intMax
      · rw [if_pos hbelow, if_pos hbelow]
        simp only [done_bind, pure]
        rw [dotFile, dotNodes, dotNodes, List.append_nil, List.flatMap_cons, DotNode.text,
          DotNode.arrow]
      · rw [if_neg hbelow, if_neg hbelow]
        rfl

/-! ### What is read -/

theorem dropWhile_ne_piece {v : Bytes} (hv : space ∉ v) (rest : Bytes) :
    (v ++ space :: rest).dropWhile (· ≠ space) = space :: rest := by
  have hfree : ∀ b ∈ v, decide (b ≠ space) = true := by
    intro b hb
    rw [decide_eq_true_eq]
    exact ne_of_mem_of_not_mem hb hv
  rw [List.dropWhile_append_of_pos hfree, List.dropWhile_cons_of_neg (by simp)]

/-- What stands before the quotes around a label. -/
def namePart (v : Bytes) : Bytes := ascii "    " ++ (v ++ ascii " [label=")

def arrowText (v w : Bytes) : Bytes :=
  ascii "    " ++ (v ++ (ascii " -> " ++ (w ++ ascii ";")))

theorem nodeLine_eq (id : Nat) (label : Bytes) : nodeLine id label
    = namePart (dotName id) ++ quote :: (label ++ quote :: (ascii "];" ++ [newline])) := by
  have hname : ascii "    node" = ascii "    " ++ ascii "node" := by decide
  have hopen : ascii " [label=\"" = ascii " [label=" ++ [quote] := by decide
  have hclose : ascii "\"];" = quote :: ascii "];" := by decide
  rw [nodeLine, namePart, dotName, hname, hopen, hclose]
  simp only [List.append_assoc, List.cons_append, List.nil_append]

theorem arrowLine_eq (parent id : Nat) :
    arrowLine parent id = arrowText (dotName parent) (dotName id) ++ [newline] := by
  have hname : ascii "    node" = ascii "    " ++ ascii "node" := by decide
  have harrow : ascii " -> node" = ascii " -> " ++ ascii "node" := by decide
  rw [arrowLine, arrowText, dotName, dotName, hname, harrow]
  simp only [List.append_assoc]

theorem readName_namePart (v : Bytes) : readName (namePart v) = some v := by
  rw [readName, namePart, List.isPrefixOf?_eq_some_iff_append_eq.mpr rfl, Option.bind_eq_bind,
    Option.bind_some]
  exact List.isSuffixOf?_eq_some_iff_append_eq.mpr rfl

theorem readArrow_arrowText {v : Bytes} (hv : space ∉ v) (w : Bytes) :
    readArrow (arrowText v w) = some (v, w) := by
  have hmark : ascii " -> " = space :: ascii "-> " := by decide
  simp only [readArrow, arrowText, Option.bind_eq_bind, Option.bind_eq_some_iff,
    List.isPrefixOf?_eq_some_iff_append_eq, List.isSuffixOf?_eq_some_iff_append_eq, pure,
    Option.some.injEq, Prod.mk.injEq]
  refine ⟨_, rfl, w ++ ascii ";", ?_, w, rfl, ?_, rfl⟩
  · rw [hmark, List.cons_append, dropWhile_ne_piece hv]
  · rw [hmark, List.cons_append, Split.takeWhile_ne_piece hv]

/-- What stands before a label is not an arrow. -/
theorem readArrow_namePart {v : Bytes} (hv : space ∉ v) : readArrow (namePart v) = none := by
  have hmark : ascii " [label=" = space :: ascii "[label=" := by decide
  have hnot : (ascii " -> ").isPrefixOf? (space :: ascii "[label=") = none := by decide
  rw [readArrow, namePart, List.isPrefixOf?_eq_some_iff_append_eq.mpr rfl, Option.bind_eq_bind,
    Option.bind_some, hmark, dropWhile_ne_piece hv, hnot]
  rfl

theorem space_dotName (id : Nat) : space ∉ dotName id := notMem_dotName (by decide) (by decide) id

theorem newline_dotName (id : Nat) : newline ∉ dotName id :=
  notMem_dotName (by decide) (by decide) id

theorem quote_dotName (id : Nat) : quote ∉ dotName id := notMem_dotName (by decide) (by decide) id

theorem newline_namePart (id : Nat) : newline ∉ namePart (dotName id) := by
  have hindent : newline ∉ ascii "    " := by decide
  have hopen : newline ∉ ascii " [label=" := by decide
  simp [namePart, hindent, hopen, newline_dotName]

theorem quote_namePart (id : Nat) : quote ∉ namePart (dotName id) := by
  have hindent : quote ∉ ascii "    " := by decide
  have hopen : quote ∉ ascii " [label=" := by decide
  simp [namePart, hindent, hopen, quote_dotName]

/-- The arrow to a node. -/
def DotNode.arrows (node : DotNode) : List (Bytes × Bytes) :=
  (node.parent.map fun parent => (dotName parent, dotName node.id)).toList

/-- What stands between a label and the next name, without the last newline. -/
def DotNode.after (node : DotNode) : Bytes :=
  ascii "];" ++ node.parent.elim [] fun parent =>
    newline :: arrowText (dotName parent) (dotName node.id)

theorem DotNode.text_eq (node : DotNode) : node.text = namePart (dotName node.id) ++
    quote :: (node.label ++ quote :: (node.after ++ [newline])) := by
  obtain ⟨id, label, parent⟩ := node
  rw [DotNode.text, nodeLine_eq, DotNode.arrow, DotNode.after]
  cases parent with
  | none => simp
  | some parent => simp [arrowLine_eq]

theorem DotNode.quote_after (node : DotNode) : quote ∉ node.after := by
  have hparts : quote ∉ ascii "];" ∧ quote ∉ ascii "    " ∧ quote ∉ ascii " -> " ∧
      quote ∉ ascii ";" ∧ quote ≠ newline := by decide
  obtain ⟨hclose, hindent, harrow, hend, hne⟩ := hparts
  obtain ⟨id, label, parent⟩ := node
  cases parent with
  | none => simpa [DotNode.after] using hclose
  | some parent =>
      simp [DotNode.after, arrowText, hclose, hindent, harrow, hend, hne, quote_dotName]

theorem DotNode.readArrows_after (node : DotNode) : readArrows node.after = node.arrows := by
  have hclose : newline ∉ ascii "];" := by decide
  have halone : readArrows (ascii "];" ++ []) = [] := by decide
  obtain ⟨id, label, parent⟩ := node
  cases parent with
  | none => exact halone
  | some parent =>
      have hline : newline ∉ arrowText (dotName parent) (dotName id) := by
        have hparts : newline ∉ ascii "    " ∧ newline ∉ ascii " -> " ∧ newline ∉ ascii ";" := by
          decide
        obtain ⟨hindent, harrow, hend⟩ := hparts
        simp [arrowText, hindent, harrow, hend, newline_dotName]
      have hnone : readArrow (ascii "];") = none := by decide
      rw [readArrows, DotNode.after, Option.elim_some, Split.splitOn_piece hclose,
        List.splitOn_eq_singleton hline, List.filterMap_cons_none hnone,
        List.filterMap_cons_some (readArrow_arrowText (space_dotName parent) _)]
      rfl

/-- **The nodes are read in order**, after what was written before them. -/
theorem readPieces_nodes (nodes : List DotNode) (hquotes : ∀ node ∈ nodes, quote ∉ node.label) :
    ∀ before, quote ∉ before →
      readPieces ((before ++ newline ::
          (nodes.flatMap DotNode.text ++ ascii "\x7d\n")).splitOn quote)
        = { names := nodes.map fun node => (dotName node.id, node.label)
            arrows := readArrows before ++ nodes.flatMap DotNode.arrows } := by
  induction nodes with
  | nil =>
      intro before hbefore
      have hend : quote ∉ newline :: ascii "\x7d\n" := by decide
      have hlast : ((ascii "\x7d\n").splitOn newline).filterMap readArrow = [] := by decide
      have hfree : quote ∉ before ++ newline :: (([] : List DotNode).flatMap DotNode.text ++
          ascii "\x7d\n") := by
        rw [List.mem_append, not_or]
        exact ⟨hbefore, hend⟩
      rw [List.splitOn_eq_singleton hfree, readPieces, readArrows, List.splitOn_append_cons_self,
        List.filterMap_append, List.flatMap_nil, List.nil_append, hlast]
      rfl
  | cons node nodes ih =>
      intro before hbefore
      rw [List.forall_mem_cons] at hquotes
      obtain ⟨hquote, hquotes⟩ := hquotes
      have hfront : quote ∉ before ++ newline :: namePart (dotName node.id) := by
        have hne : quote ≠ newline := by decide
        simp [hbefore, hne, quote_namePart]
      have htext : before ++ newline :: ((node :: nodes).flatMap DotNode.text ++ ascii "\x7d\n")
          = (before ++ newline :: namePart (dotName node.id)) ++ quote :: (node.label ++
              quote :: (node.after ++ newline ::
                (nodes.flatMap DotNode.text ++ ascii "\x7d\n"))) := by
        rw [List.flatMap_cons, DotNode.text_eq]
        simp only [List.append_assoc, List.cons_append, List.nil_append]
      have hline : (before ++ newline :: namePart (dotName node.id)).splitOn newline
          = before.splitOn newline ++ [namePart (dotName node.id)] := by
        rw [List.splitOn_append_cons_self, List.splitOn_eq_singleton (newline_namePart node.id)]
      have harrows : readArrows (before ++ newline :: namePart (dotName node.id))
          = readArrows before := by
        rw [readArrows, hline, List.filterMap_append,
          List.filterMap_cons_none (readArrow_namePart (space_dotName node.id)),
          List.filterMap_nil, List.append_nil]
        rfl
      rw [htext, Split.splitOn_piece hfront, Split.splitOn_piece hquote, readPieces,
        ih hquotes node.after node.quote_after, harrows, hline, List.getLast?_concat,
        Option.bind_some, readName_namePart, node.readArrows_after, List.map_cons,
        List.flatMap_cons]
      rfl

theorem dotNodes_names (forest : Forest Bytes) : ∀ parent k,
    (dotNodes parent k forest).map (fun node => (dotName node.id, node.label))
      = drawNames dotName k forest := by
  induction forest with
  | empty => exact fun _ _ => rfl
  | plant label below beside ihBelow ihBeside =>
      intro parent k
      rw [dotNodes, List.map_cons, List.map_append, ihBelow, ihBeside, drawNames]

theorem dotNodes_arrows (forest : Forest Bytes) : ∀ parent k,
    (dotNodes parent k forest).flatMap DotNode.arrows
      = drawArrows dotName (parent.map dotName) k forest := by
  induction forest with
  | empty => exact fun _ _ => rfl
  | plant label below beside ihBelow ihBeside =>
      intro parent k
      rw [dotNodes, List.flatMap_cons, List.flatMap_append, ihBelow, ihBeside, drawArrows,
        DotNode.arrows, Option.map_map, Option.map_some]
      rfl

/-- What is read from a file whose labels have no quotes. -/
theorem readDot_dotFile {forest : Forest Bytes} (hquotes : ∀ label ∈ forest.labels,
    quote ∉ label) (k : Nat) : readDot (dotFile k forest)
      = { names := drawNames dotName k forest, arrows := drawArrows dotName none k forest } := by
  have hlabels : ∀ node ∈ dotNodes none k forest, quote ∉ node.label := by
    intro node hnode
    refine hquotes node.label ?_
    rw [← drawNames_labels dotName forest k, ← dotNodes_names forest none k, List.map_map]
    exact List.mem_map_of_mem (f := fun node => node.label) hnode
  have hopen : ascii "digraph Trie \x7b\n" ++ ascii "    node [shape=circle];\n"
      = ascii "digraph Trie \x7b\n    node [shape=circle];" ++ [newline] := by decide
  have hnone : readArrows (ascii "digraph Trie \x7b\n    node [shape=circle];") = [] := by decide
  rw [readDot, dotFile, hopen, List.append_assoc, List.append_assoc, List.singleton_append,
    readPieces_nodes _ hlabels _ (by decide), hnone, List.nil_append, dotNodes_names,
    dotNodes_arrows]
  rfl

/-- A label read stands in the file between two cuts. -/
theorem mem_of_readPieces : ∀ {pieces : List Bytes} {v label : Bytes},
    (v, label) ∈ (readPieces pieces).names → label ∈ pieces
  | [], _, _, h => absurd h List.not_mem_nil
  | [_], _, _, h => absurd h List.not_mem_nil
  | outside :: between :: pieces, v, label, h => by
      rw [readPieces] at h
      rcases List.mem_append.mp h with h | h
      · rw [Option.mem_toList, Option.map_eq_some_iff] at h
        obtain ⟨v', -, heq⟩ := h
        rw [Prod.mk.injEq] at heq
        rw [← heq.2]
        exact List.mem_cons_of_mem _ List.mem_cons_self
      · exact List.mem_cons_of_mem _ (List.mem_cons_of_mem _ (mem_of_readPieces h))

/-- A drawing shows one forest. -/
theorem Drawing.Shows.unique {drawing : Drawing} {forest forest' : Forest Bytes}
    (h : drawing.Shows forest) (h' : drawing.Shows forest') : forest' = forest :=
  h'.hangs.unique h.hangs

/-- **A file shows the forest exactly if no label has a quote in it.** -/
theorem dotFile_shows_iff (k : Nat) (forest : Forest Bytes) :
    (readDot (dotFile k forest)).Shows forest ↔ ∀ label ∈ forest.labels, quote ∉ label := by
  refine ⟨fun h label hlabel => ?_, fun hquotes => ?_⟩
  · obtain ⟨v, hv⟩ := h.hangs.label_mem label hlabel
    exact Split.not_mem_of_mem_splitOn (mem_of_readPieces (labelIn_mem hv))
  · rw [readDot_dotFile hquotes]
    refine ⟨?_, length_drawNames dotName forest k⟩
    dsimp only
    rw [topsOf_drawing dotName_injective]
    exact unfolds_drawing dotName_injective k forest

/-! ### One drawing after the other -/

/-- How many nodes are drawn. -/
def drawnNodes : List (TrieNode × Bool) → Nat
  | [] => 0
  | (root, opened) :: drawings => (if opened then count root.tree else 0) + drawnNodes drawings

/-- The files drawn with the numbers from `k` on. -/
def dotFiles (k : Nat) : List (TrieNode × Bool) → List (Option Bytes)
  | [] => []
  | (root, true) :: drawings =>
      some (dotFile k root.tree) :: dotFiles (k + count root.tree) drawings
  | (_, false) :: drawings => none :: dotFiles k drawings

/-- Each drawing takes the numbers it needs, and there is none once they have run out. -/
theorem visualizeTries_eq (drawings : List (TrieNode × Bool)) : ∀ nodeId, nodeId ≤ intMax →
    execAll (fun nodeId drawing => visualizeTrie nodeId drawing.1 drawing.2) nodeId drawings =
      if nodeId + drawnNodes drawings ≤ intMax then
        .done (nodeId + drawnNodes drawings, dotFiles nodeId drawings)
      else .undefined := by
  induction drawings with
  | nil =>
      intro nodeId hle
      rw [execAll, drawnNodes, Nat.add_zero, if_pos hle, dotFiles]
  | cons drawing drawings ih =>
      obtain ⟨root, opened⟩ := drawing
      intro nodeId hle
      rw [execAll, visualizeTrie_eq hle, drawnNodes]
      cases opened with
      | false =>
          rw [if_neg Bool.false_ne_true, if_neg Bool.false_ne_true, done_bind, Nat.zero_add]
          dsimp only
          rw [ih nodeId hle]
          by_cases hall : nodeId + drawnNodes drawings ≤ intMax
          · rw [if_pos hall, if_pos hall, dotFiles]
            rfl
          · rw [if_neg hall, if_neg hall]
            rfl
      | true =>
          rw [if_pos rfl, if_pos rfl]
          by_cases hfirst : nodeId + count root.tree ≤ intMax
          · rw [if_pos hfirst, done_bind]
            dsimp only
            rw [ih _ hfirst, Nat.add_assoc]
            by_cases hall : nodeId + (count root.tree + drawnNodes drawings) ≤ intMax
            · rw [if_pos hall, if_pos hall, dotFiles]
              rfl
            · rw [if_neg hall, if_neg hall]
              rfl
          · rw [if_neg hfirst, if_neg (by omega)]
            rfl

/-- A file is there if it could be opened, and shows the trie and nothing else exactly if that
can be shown. -/
def DrawnAs (drawing : TrieNode × Bool) (file : Option Bytes) : Prop :=
  if drawing.2 then
    ∃ text, file = some text ∧
      ((∀ forest, (readDot text).Shows forest ↔ forest = drawing.1.tree) ↔ drawing.1.Quotable)
  else file = none

theorem drawnAs_dotFile (k : Nat) (root : TrieNode) :
    DrawnAs (root, true) (some (dotFile k root.tree)) := by
  refine ⟨_, rfl, fun h => ?_, fun h forest => ⟨fun hshows => ?_, ?_⟩⟩
  · exact (dotFile_shows_iff k root.tree).mp ((h root.tree).mpr rfl)
  · exact ((dotFile_shows_iff k root.tree).mpr h).unique hshows
  · rintro rfl
    exact (dotFile_shows_iff k root.tree).mpr h

theorem dotFiles_drawn (drawings : List (TrieNode × Bool)) : ∀ k,
    List.Forall₂ DrawnAs drawings (dotFiles k drawings) := by
  induction drawings with
  | nil => exact fun _ => List.Forall₂.nil
  | cons drawing drawings ih =>
      obtain ⟨root, opened⟩ := drawing
      intro k
      cases opened with
      | false => exact List.Forall₂.cons rfl (ih k)
      | true => exact List.Forall₂.cons (drawnAs_dotFile k root) (ih _)

/-- The names in the files, one file after the other. -/
def namesIn (files : List (Option Bytes)) : List Bytes :=
  files.reduceOption.flatMap fun file => (readDot file).names.map Prod.fst

theorem namesIn_dotFiles (drawings : List (TrieNode × Bool))
    (hquotes : ∀ drawing ∈ drawings, drawing.1.Quotable) : ∀ k,
    namesIn (dotFiles k drawings) = (List.range' k (drawnNodes drawings)).map dotName := by
  induction drawings with
  | nil => exact fun _ => rfl
  | cons drawing drawings ih =>
      obtain ⟨root, opened⟩ := drawing
      rw [List.forall_mem_cons] at hquotes
      obtain ⟨hroot, hrest⟩ := hquotes
      intro k
      cases opened with
      | false =>
          rw [dotFiles, drawnNodes, if_neg Bool.false_ne_true, Nat.zero_add, ← ih hrest k]
          rfl
      | true =>
          have hfirst : (readDot (dotFile k root.tree)).names.map Prod.fst
              = (List.range' k (count root.tree)).map dotName := by
            rw [readDot_dotFile hroot, drawNames_names]
          have hnext := ih hrest (k + count root.tree)
          rw [dotFiles, drawnNodes, if_pos rfl, ← List.range'_append_1, List.map_append, ← hfirst,
            ← hnext, namesIn, List.reduceOption_cons_of_some, List.flatMap_cons]
          rfl

/-- **Every drawing shows its trie**, with names no other drawing has, as long as there are
numbers. -/
theorem drawings_show_tries (drawings : List (TrieNode × Bool)) :
    (intMax < drawnNodes drawings ∧ visualizeTries drawings = .undefined) ∨
    ∃ files, drawnNodes drawings ≤ intMax ∧
      visualizeTries drawings = .done (drawnNodes drawings, files) ∧
      List.Forall₂ DrawnAs drawings files ∧
      ((∀ drawing ∈ drawings, drawing.1.Quotable) →
        namesIn files = (List.range (drawnNodes drawings)).map dotName ∧
          (namesIn files).Nodup) := by
  have hrun := visualizeTries_eq drawings 0 (Nat.zero_le _)
  rw [Nat.zero_add] at hrun
  by_cases hall : drawnNodes drawings ≤ intMax
  · rw [if_pos hall] at hrun
    refine Or.inr ⟨_, hall, hrun, dotFiles_drawn drawings 0, fun hquotes => ?_⟩
    have hnames := namesIn_dotFiles drawings hquotes 0
    rw [← List.range_eq_range'] at hnames
    refine ⟨hnames, ?_⟩
    rw [hnames]
    exact List.nodup_range.map dotName_injective
  · rw [if_neg hall] at hrun
    exact Or.inl ⟨Nat.lt_of_not_le hall, hrun⟩

end DnsServer
