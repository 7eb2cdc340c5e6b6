/-
Whose record each name gets.

The names come from the lines the pattern picks, the records from the lines below the
header one after the other.  So the node of a record's line holds its record exactly when
the two keep step: the line that is as far below the header as names were picked before
shows the same type and value.  Any other line among the records puts them out of step.
-/
import DnsServer.Proofs.Scripts

namespace DnsServer

open Split

variable {file : Bytes} {bash : Bash}

/-! ### The fields of a plain line -/

theorem noNul_line {line : Bytes} (h : 0 ∉ line) : 0 ∉ line ++ [newline] := by
  intro hmem
  rcases List.mem_append.mp hmem with hin | hend
  · exact h hin
  · exact absurd (List.mem_singleton.mp hend) (by decide)

/-- `$(…)` takes one newline off where the text before it does not end in one. -/
theorem substituted_text {text : Bytes} (hnul : 0 ∉ text) (hlast : text.getLast? ≠ some newline) :
    substituted (text ++ [newline]) = text := by
  have hkeep : (text ++ [newline]).filter (· ≠ 0) = text ++ [newline] :=
    filter_ne_self (noNul_line hnul)
  have hstay : text.reverse.dropWhile (· = newline) = text.reverse := by
    cases hreverse : text.reverse with
    | nil => rfl
    | cons c rest =>
        rw [List.getLast?_eq_head?_reverse, hreverse, List.head?_cons] at hlast
        refine List.dropWhile_cons_of_neg ?_
        rw [decide_eq_true_eq]
        exact fun heq => hlast (congrArg some heq)
  unfold substituted
  rw [hkeep, List.reverse_append, List.reverse_singleton, List.singleton_append,
    List.dropWhile_cons_of_pos (by simp), hstay, List.reverse_reverse]

theorem substituted_line {line : Bytes} (hnul : 0 ∉ line) (hnewline : newline ∉ line) :
    substituted (line ++ [newline]) = line :=
  substituted_text hnul fun hlast => hnewline (List.mem_of_getLast? hlast)

/-- `echo` prints plain words with a blank between them. -/
theorem echoUnquoted_plain {value : Bytes} (h : ∀ word ∈ blankWords value, Plain word) :
    bash.echoUnquoted value = [space].intercalate (blankWords value) ++ [newline] := by
  have hsingle : ∀ words : List Bytes, (∀ word ∈ words, Plain word) →
      words.flatMap bash.expand = words := by
    intro words
    induction words with
    | nil => intro _; rfl
    | cons word words ih =>
        intro hall
        rw [List.flatMap_cons, bash.expand_plain word (hall word List.mem_cons_self),
          ih fun word' h' => hall word' (List.mem_cons_of_mem word h')]
        rfl
  unfold Bash.echoUnquoted
  rw [hsingle _ h, bash.echo_plain _ h]

/-- A word without blanks comes out as it is. -/
theorem echoUnquoted_word {word : Bytes} (hblank : space ∉ word ∧ tab ∉ word ∧ newline ∉ word)
    (hplain : Plain word) : bash.echoUnquoted word = word ++ [newline] := by
  by_cases hne : word = []
  · have hnone : blankWords word = [] := by
      rw [hne]
      exact tokens_nil
    rw [echoUnquoted_plain (by simp [hnone]), hnone, hne]
    rfl
  · have hone : blankWords word = [word] := strtok_single hne (by simpa using hblank)
    have hall : ∀ word' ∈ blankWords word, Plain word' := by
      intro word' hword'
      rw [hone, List.mem_singleton] at hword'
      rw [hword']
      exact hplain
    rw [echoUnquoted_plain hall, hone, List.intercalate_singleton]

/-- The word that is cut out is one of the words, or empty. -/
theorem cutWord_of_forall {P : Bytes → Prop} {words : List Bytes} (hnil : P [])
    (h : ∀ word ∈ words, P word) (field : Nat) : P (cutWord field words) := by
  have hget : P ((words[field - 1]?).getD []) := by
    cases hword : words[field - 1]? with
    | none => exact hnil
    | some word => exact h word (List.mem_of_getElem? hword)
  cases words with
  | nil => exact hnil
  | cons word words =>
      cases words with
      | nil => exact h word List.mem_cons_self
      | cons word' words => exact hget

/-- `cut` takes one of the words that `echo` printed. -/
theorem cutLine_words {words : List Bytes} (h : ∀ word ∈ words, space ∉ word) (field : Nat) :
    cutLine field ([space].intercalate words) = cutWord field words := by
  unfold cutLine
  cases words with
  | nil => simp [cutWord]
  | cons word words =>
      cases words with
      | nil =>
          have hnot : space ∉ [space].intercalate [word] := by
            simpa using h word List.mem_cons_self
          rw [if_neg hnot]
          simp [cutWord]
      | cons word' words =>
          have hmem : space ∈ [space].intercalate (word :: word' :: words) := by
            simp [List.intercalate, List.intersperse]
          rw [if_pos hmem, List.splitOn_intercalate space h (List.cons_ne_nil _ _)]
          rfl

theorem cut_words {words : List Bytes}
    (h : ∀ word ∈ words, space ∉ word ∧ tab ∉ word ∧ newline ∉ word) (field : Nat) :
    cut field ([space].intercalate words ++ [newline]) = cutWord field words ++ [newline] := by
  have hline : newline ∉ [space].intercalate words := by
    intro hmem
    rcases mem_intercalate hmem with hsep | ⟨word, hword, hin⟩
    · exact absurd (List.mem_singleton.mp hsep) (by decide)
    · exact (h word hword).2.2 hin
  have hlines := @linesOf_flatMap [[space].intercalate words] fun line hmem => by
    rw [List.mem_singleton.mp hmem]
    exact hline
  rw [List.flatMap_singleton] at hlines
  unfold cut
  rw [hlines, List.flatMap_singleton, cutLine_words fun word hword => (h word hword).1]

/-- The line a script takes, as the shell keeps it in a variable. -/
theorem substituted_sedLine (hplain : PlainFile file) (nrLine : Nat) :
    substituted (sedLine nrLine file) = ((linesOf file)[nrLine - 1]?).getD [] ∧
      ∀ word ∈ wordsAt file nrLine, Plain word := by
  unfold wordsAt sedLine
  cases hline : (linesOf file)[nrLine - 1]? with
  | none =>
      refine ⟨rfl, fun word hword => ?_⟩
      rw [Option.getD_none, show blankWords [] = [] from tokens_nil] at hword
      exact absurd hword List.not_mem_nil
  | some line =>
      have hmem := List.mem_of_getElem? hline
      have hnul : 0 ∉ line := by
        intro hzero
        obtain ⟨word, hword, hin⟩ := @mem_token_of_mem _
          (fun c => decide (c ∈ [space, tab, newline])) _ _ hzero (by decide)
        exact (hplain line hmem word hword).noNul hin
      exact ⟨substituted_line hnul (not_mem_of_mem_linesOf hmem), hplain line hmem⟩

theorem plain_nil : Plain [] := ⟨by simp, fun _ _ => List.not_mem_nil, List.not_mem_nil⟩

/-- **What the scripts print of a plain file**: the word, on a line. -/
theorem getDNSFieldSh_plain (hplain : PlainFile file) (field nrLine : Nat) :
    Plain (cutWord field (wordsAt file nrLine)) ∧ newline ∉ cutWord field (wordsAt file nrLine) ∧
      getDNSFieldSh bash field file nrLine = cutWord field (wordsAt file nrLine) ++ [newline] := by
  obtain ⟨hline, hwords⟩ := substituted_sedLine hplain nrLine
  have hblank : ∀ word ∈ wordsAt file nrLine, space ∉ word ∧ tab ∉ word ∧ newline ∉ word :=
    fun word hword => (of_mem_blankWords hword).2
  have hcutPlain := cutWord_of_forall plain_nil hwords field
  have hcutBlank := @cutWord_of_forall (fun word => space ∉ word ∧ tab ∉ word ∧ newline ∉ word) _
    ⟨List.not_mem_nil, List.not_mem_nil, List.not_mem_nil⟩ hblank field
  have hecho : bash.echoUnquoted (((linesOf file)[nrLine - 1]?).getD [])
      = [space].intercalate (wordsAt file nrLine) ++ [newline] := echoUnquoted_plain hwords
  refine ⟨hcutPlain, hcutBlank.2.2, ?_⟩
  unfold getDNSFieldSh
  dsimp only
  rw [hline, hecho, cut_words hblank, substituted_line hcutPlain.noNul hcutBlank.2.2,
    echoUnquoted_word hcutBlank hcutPlain]

theorem readBack_line {word : Bytes} (hnul : 0 ∉ word) (hnewline : newline ∉ word) :
    readBack (word ++ [newline]) = some (word.take (lineBufferSize - 1)) := by
  have hkeep : 0 ∉ (word ++ [newline]).take (lineBufferSize - 1) :=
    fun hmem => noNul_line hnul (List.mem_of_mem_take hmem)
  have hcut : cutNewline ((word ++ [newline]).take (lineBufferSize - 1))
      = word.take (lineBufferSize - 1) := by
    have hend : ∀ n, ([newline].take n).takeWhile (· ≠ newline) = [] := by
      intro n
      cases n with
      | zero => rfl
      | succ n => rfl
    have hfree : newline ∉ word.take (lineBufferSize - 1) :=
      fun hmem => hnewline (List.mem_of_mem_take hmem)
    unfold cutNewline
    rw [List.take_append, takeWhile_ne_append hfree, hend, List.append_nil]
  unfold readBack
  rw [fgets_line _ hnewline, Option.map_some, cstr_self hkeep, hcut]

/-- What is read of a line's field: its first 127 bytes. -/
theorem readBack_plain (hplain : PlainFile file) (field nrLine : Nat) :
    readBack (getDNSFieldSh bash field file nrLine)
      = some ((cutWord field (wordsAt file nrLine)).take (lineBufferSize - 1)) := by
  obtain ⟨hword, hnewline, hprinted⟩ := @getDNSFieldSh_plain _ bash hplain field nrLine
  rw [hprinted, readBack_line hword.noNul hnewline]

/-! ### The place of each line -/

/-- An element that is kept has as many before it as were kept. -/
theorem filter_getElem? {α : Type} {q : α → Bool} {xs : List α} {p : Nat} {x : α}
    (hx : xs[p]? = some x) (hq : q x = true) : (xs.filter q)[(xs.take p).countP q]? = some x := by
  obtain ⟨hp, hget⟩ := List.getElem?_eq_some_iff.mp hx
  have hsplit : xs = xs.take p ++ x :: xs.drop (p + 1) := by
    rw [← hget, ← List.drop_eq_getElem_cons hp, List.take_append_drop]
  have hfilter : xs.filter q = (xs.take p).filter q ++ x :: (xs.drop (p + 1)).filter q := by
    conv_lhs => rw [hsplit]
    rw [List.filter_append, List.filter_cons_of_pos hq]
  rw [hfilter, List.countP_eq_length_filter, List.getElem?_append_right (Nat.le_refl _),
    Nat.sub_self, List.getElem?_cons_zero]

/-- The name picked in the place of a record's line is its owner. -/
theorem AddressAt.selected {p : Nat} {owner type value : Bytes}
    (h : AddressAt file p owner type value) :
    (selectedNames file)[placeOf file p]? = some owner := by
  obtain ⟨line, hline, haddress⟩ := h
  obtain ⟨rest, hwords⟩ := haddress.words
  unfold selectedNames placeOf
  rw [List.getElem?_map, filter_getElem? hline haddress.selected, Option.map_some, hwords,
    List.headD_cons]

/-- Without words special to the shell, keeping step can be read off the file. -/
theorem inStep_iff_linesAgree (hplain : PlainFile file) : InStep bash file ↔ LinesAgree file := by
  have hnul : 0 ∉ getTerminalNamesSh file := by
    rw [getTerminalNamesSh_eq]
    refine noNul_line fun hmem => ?_
    obtain ⟨name, hname, hin⟩ := List.mem_flatMap.mp hmem
    obtain ⟨line, hline, hword⟩ := exists_line_of_mem_selectedNames hname
    rcases List.mem_append.mp hin with hzero | hspace
    · exact (hplain line hline name hword).noNul hzero
    · exact absurd (List.mem_singleton.mp hspace) (by decide)
  unfold InStep LinesAgree getDNSTypeSh getDNSValueSh
  refine forall_congr' fun p => forall_congr' fun owner => forall_congr' fun type =>
    forall_congr' fun value => forall_congr' fun h => ?_
  rw [listedNames_getElem?_iff hnul h.selected, readBack_plain hplain, readBack_plain hplain,
    Option.some.injEq, Option.some.injEq]

/-! ### The nodes -/

variable {shell : Shell} {path : Bytes}

/-- The nodes are made one by one, each from the line after the one before. -/
theorem createSpecialNodes_getElem? {names : List Bytes} :
    ∀ {startIndex : Nat} {nodes : List TrieNode},
      createSpecialNodes shell path startIndex names = .ok nodes →
      ∀ (k : Nat) (node : TrieNode), nodes[k]? = some node ↔
        ∃ name, names[k]? = some name ∧
          createSpecialNode shell path (startIndex + k) name = .ok node := by
  induction names with
  | nil =>
      intro startIndex nodes h k node
      rw [← Except.ok.inj h]
      simp
  | cons name names ih =>
      intro startIndex nodes h k node
      unfold createSpecialNodes at h
      obtain ⟨first, hfirst, h⟩ := load_bind_eq_ok.mp h
      obtain ⟨rest, hrest, h⟩ := load_bind_eq_ok.mp h
      rw [← Except.ok.inj h]
      cases k with
      | zero =>
          rw [List.getElem?_cons_zero, List.getElem?_cons_zero, Nat.add_zero]
          simp only [Option.some.injEq, exists_eq_left', hfirst, Except.ok.injEq]
      | succ k =>
          rw [List.getElem?_cons_succ, List.getElem?_cons_succ, ih hrest,
            show startIndex + 1 + k = startIndex + (k + 1) by omega]

theorem createSpecialNodes_labels {names : List Bytes} :
    ∀ {startIndex : Nat} {nodes : List TrieNode},
      createSpecialNodes shell path startIndex names = .ok nodes →
      nodes.map (·.label) = names := by
  induction names with
  | nil =>
      intro startIndex nodes h
      rw [← Except.ok.inj h]
      rfl
  | cons name names ih =>
      intro startIndex nodes h
      unfold createSpecialNodes at h
      obtain ⟨first, hfirst, h⟩ := load_bind_eq_ok.mp h
      obtain ⟨rest, hrest, h⟩ := load_bind_eq_ok.mp h
      obtain ⟨type, value, ttl, -, -, hnode⟩ := createSpecialNode_cases hfirst
      rw [← Except.ok.inj h, List.map_cons, ih hrest, hnode]
      rfl

theorem createSpecialNodes_length {names : List Bytes} {startIndex : Nat} {nodes : List TrieNode}
    (h : createSpecialNodes shell path startIndex names = .ok nodes) :
    nodes.length = names.length := by
  have hlabels := congrArg List.length (createSpecialNodes_labels h)
  rw [List.length_map] at hlabels
  exact hlabels

/-- What a node holds is what was read of its line. -/
theorem createSpecialNode_reads {line : Nat} {name type value : Bytes} {node : TrieNode}
    (htype : shell (getDNSType ++ path ++ lineArgument line) = some type)
    (hvalue : shell (getDNSValue ++ path ++ lineArgument line) = some value)
    (h : createSpecialNode shell path line name = .ok node) :
    ∃ record, node.label = name ∧ node.records = [record] ∧
      readBack type = some (cutNewline record.type) ∧
      readBack value = record.value.map cutNewline := by
  obtain ⟨typeLine, valueLine, ttl, htypeLine, hvalueLine, rfl⟩ := createSpecialNode_cases h
  obtain ⟨stream, hstream, htypeGet⟩ := popenLine_ok_iff.mp htypeLine
  rw [htype, Option.some.injEq] at hstream
  subst hstream
  obtain ⟨stream, hstream, hvalueGet⟩ := popenLine_ok_iff.mp hvalueLine
  rw [hvalue, Option.some.injEq] at hstream
  subst hstream
  refine ⟨_, rfl, rfl, ?_, ?_⟩
  · unfold readBack
    rw [htypeGet, Option.map_some]
  · unfold readBack
    rw [hvalueGet]

/-- **A line's node holds its record exactly when its owner is listed in its place and the line
that many below the header shows its type and value.** -/
theorem node_holds_iff {node : TrieNode} {name domain : Bytes}
    (hpath : pathToZoneFile shell domain = .ok path) (hprints : PrintsFields shell bash path file)
    (hnode : createTerminalNode shell name domain = .ok node) (k : Nat)
    (owner type value : Bytes) :
    (∃ child record, node.childrens[k + 1]? = some child ∧ child.label = owner ∧
        child.records = [record] ∧ cutNewline record.type = type ∧
        record.value.map cutNewline = some value) ↔
      (listedNames file)[k]? = some owner ∧
        readBack (getDNSTypeSh bash file (firstRecordLine + k)) = some type ∧
        readBack (getDNSValueSh bash file (firstRecordLine + k)) = some value := by
  obtain ⟨path', itself, names, nodes, hpath', -, hnames, hnodes, rfl⟩ :=
    createTerminalNode_cases hnode
  rw [hpath, Except.ok.injEq] at hpath'
  subst hpath'
  have hlisted := getTerminalNames_eq hprints.names hnames
  have hcount := getTerminalNames_length hnames
  rw [hlisted] at hcount hnodes
  have hreads : ∀ name child, (listedNames file)[k]? = some name →
      createSpecialNode shell path (firstRecordLine + k) name = .ok child →
      ∃ record, child.label = name ∧ child.records = [record] ∧
        readBack (getDNSTypeSh bash file (firstRecordLine + k)) = some (cutNewline record.type) ∧
        readBack (getDNSValueSh bash file (firstRecordLine + k))
          = record.value.map cutNewline := by
    intro name child hname hchild
    have hk : k < nrArray := by
      obtain ⟨hlt, -⟩ := List.getElem?_eq_some_iff.mp hname
      omega
    exact createSpecialNode_reads (hprints.type k hk) (hprints.value k hk) hchild
  dsimp only
  rw [List.getElem?_cons_succ]
  refine ⟨?_, ?_⟩
  · intro h
    obtain ⟨child, record, hchild, hlabel, hrecords, htype, hvalue⟩ := h
    obtain ⟨name, hname, hcreated⟩ := (createSpecialNodes_getElem? hnodes k child).mp hchild
    obtain ⟨record', hlabel', hrecords', htype', hvalue'⟩ := hreads name child hname hcreated
    rw [hrecords, List.cons.injEq] at hrecords'
    rw [← hrecords'.1] at htype' hvalue'
    rw [← hlabel, hlabel', htype', hvalue', htype, hvalue]
    exact ⟨hname, rfl, rfl⟩
  · intro h
    obtain ⟨hname, htype, hvalue⟩ := h
    obtain ⟨child, hchild⟩ : ∃ child, nodes[k]? = some child := by
      obtain ⟨hlt, -⟩ := List.getElem?_eq_some_iff.mp hname
      rw [← createSpecialNodes_length hnodes] at hlt
      exact ⟨nodes[k], List.getElem?_eq_getElem hlt⟩
    obtain ⟨name, hname', hcreated⟩ := (createSpecialNodes_getElem? hnodes k child).mp hchild
    obtain ⟨record, hlabel, hrecords, htype', hvalue'⟩ := hreads name child hname' hcreated
    rw [hname, Option.some.injEq] at hname'
    rw [htype, Option.some.injEq] at htype'
    exact ⟨child, record, hchild, hlabel.trans hname'.symm, hrecords, htype'.symm,
      hvalue'.symm.trans hvalue⟩

theorem holdsOwnRecords_iff_inStep {node : TrieNode} {name domain : Bytes}
    (hpath : pathToZoneFile shell domain = .ok path) (hprints : PrintsFields shell bash path file)
    (hnode : createTerminalNode shell name domain = .ok node) :
    HoldsOwnRecords file node ↔ InStep bash file := by
  refine ⟨?_, ?_⟩
  · intro h p owner type value haddress
    exact (node_holds_iff hpath hprints hnode _ _ _ _).mp (h p owner type value haddress)
  · intro h p owner type value haddress
    exact (node_holds_iff hpath hprints hnode _ _ _ _).mpr (h p owner type value haddress)

/-! ### Lines below the header -/

section ZoneFiles

variable {lines : List Bytes}

theorem zoneFile_line (h : ∀ line ∈ lines, newline ∉ line) (k : Nat) :
    (linesOf (zoneFile lines))[zoneHeader.length + k]? = lines[k]? := by
  rw [linesOf_zoneFile h, List.getElem?_append_right (Nat.le_add_right _ _),
    Nat.add_sub_cancel_left]

theorem zoneFile_words (h : ∀ line ∈ lines, newline ∉ line) (k : Nat) :
    wordsAt (zoneFile lines) (firstRecordLine + k) = blankWords ((lines[k]?).getD []) := by
  have hindex : firstRecordLine + k - 1 = zoneHeader.length + k := by
    show 11 + k - 1 = 10 + k
    omega
  unfold wordsAt
  rw [hindex, zoneFile_line h]

theorem zoneFile_place (h : ∀ line ∈ lines, newline ∉ line) (k : Nat) :
    placeOf (zoneFile lines) (zoneHeader.length + k) = (lines.take k).countP terminalPattern := by
  have hheader : zoneHeader.countP terminalPattern = 0 := by
    refine List.countP_eq_zero.mpr fun line hline => ?_
    rw [(zoneHeader_plain line hline).2]
    exact Bool.false_ne_true
  unfold placeOf
  rw [linesOf_zoneFile h, List.take_length_add_append, List.countP_append, hheader, Nat.zero_add]

/-- No record of an address is in the header. -/
theorem zoneFile_addressAt (h : ∀ line ∈ lines, newline ∉ line) {p : Nat}
    {owner type value : Bytes} (haddress : AddressAt (zoneFile lines) p owner type value) :
    ∃ k line, p = zoneHeader.length + k ∧ lines[k]? = some line ∧
      AddressLine line owner type value := by
  obtain ⟨line, hline, haddress⟩ := haddress
  by_cases hp : p < zoneHeader.length
  · rw [linesOf_zoneFile h, List.getElem?_append_left hp] at hline
    have hnone := (zoneHeader_plain line (List.mem_of_getElem? hline)).2
    rw [haddress.selected] at hnone
    exact absurd hnone (by decide)
  · obtain ⟨k, rfl⟩ : ∃ k, p = zoneHeader.length + k := ⟨p - zoneHeader.length, by omega⟩
    rw [zoneFile_line h] at hline
    exact ⟨k, line, rfl, hline, haddress⟩

theorem zoneHeader_plainWords : ∀ line ∈ zoneHeader, ∀ word ∈ blankWords line, Plain word := by
  decide

theorem zoneFile_plain (h : ∀ line ∈ lines, newline ∉ line)
    (hplain : ∀ line ∈ lines, ∀ word ∈ blankWords line, Plain word) :
    PlainFile (zoneFile lines) := by
  intro line hline
  rw [linesOf_zoneFile h] at hline
  rcases List.mem_append.mp hline with hheader | hrest
  · exact zoneHeader_plainWords line hheader
  · exact hplain line hrest

/-- Where every line below the header is a record of an address, and the names fit, all keep
step. -/
theorem linesAgree_zoneFile (h : ∀ line ∈ lines, newline ∉ line)
    (hall : ∀ line ∈ lines, ∃ owner type value, AddressLine line owner type value)
    (hshort : ∀ line ∈ lines, ∀ word ∈ blankWords line, word.length < lineBufferSize)
    (hfits : (getTerminalNamesSh (zoneFile lines)).length ≤ lineBufferSize) :
    LinesAgree (zoneFile lines) := by
  intro p owner type value haddress
  obtain ⟨k, line, rfl, hline, haddress⟩ := zoneFile_addressAt h haddress
  have hplace : (lines.take k).countP terminalPattern = k := by
    have hselected : (lines.take k).countP terminalPattern = (lines.take k).length :=
      List.countP_eq_length.mpr fun line' hline' => by
        obtain ⟨_, _, _, haddress'⟩ := hall line' (List.mem_of_mem_take hline')
        exact haddress'.selected
    obtain ⟨hk, -⟩ := List.getElem?_eq_some_iff.mp hline
    rw [hselected, List.length_take]
    omega
  obtain ⟨rest, hwords⟩ := haddress.words
  have hword : ∀ word ∈ owner :: ascii "IN" :: type :: value :: rest,
      word.take (lineBufferSize - 1) = word := by
    intro word hmem
    rw [← hwords] at hmem
    have hlength := hshort line (List.mem_of_getElem? hline) word hmem
    exact List.take_of_length_le (by omega)
  rw [zoneFile_place h, hplace, zoneFile_words h, hline, Option.getD_some, hwords]
  refine ⟨?_, hword type (by simp), hword value (by simp)⟩
  have hparts := congrArg (fun names => (names.flatMap (· ++ [space])).length)
    (List.take_append_drop (k + 1) (selectedNames (zoneFile lines)))
  rw [getTerminalNamesSh_eq, List.length_append] at hfits
  simp only [List.flatMap_append, List.length_append] at hparts
  omega

end ZoneFiles

/-! ### The commands for a line -/

/-- A command for a line of the zone's file. -/
def lineCommand (script : Bytes) (k : Nat) : Bytes :=
  script ++ ascii "BINDzones/example.com" ++ lineArgument (firstRecordLine + k)

theorem typeCommand_asks : ∀ k < nrArray,
    lineCommand getDNSType k ≠ getNrZonesForRootStart ∧
      lineCommand getDNSType k ≠ getArrayOfDomains ∧
      ¬ getPathToZoneFile.isPrefixOf (lineCommand getDNSType k) ∧
      ¬ getTerminalNamesScript.isPrefixOf (lineCommand getDNSType k) ∧
      getDNSType.isPrefixOf (lineCommand getDNSType k) ∧
      askedLine getDNSType (lineCommand getDNSType k) = firstRecordLine + k := by decide

theorem valueCommand_asks : ∀ k < nrArray,
    lineCommand getDNSValue k ≠ getNrZonesForRootStart ∧
      lineCommand getDNSValue k ≠ getArrayOfDomains ∧
      ¬ getPathToZoneFile.isPrefixOf (lineCommand getDNSValue k) ∧
      ¬ getTerminalNamesScript.isPrefixOf (lineCommand getDNSValue k) ∧
      ¬ getDNSType.isPrefixOf (lineCommand getDNSValue k) ∧
      getDNSValue.isPrefixOf (lineCommand getDNSValue k) ∧
      askedLine getDNSValue (lineCommand getDNSValue k) = firstRecordLine + k := by decide

/-- The shell prints what the scripts do of its file. -/
theorem zoneShell_printsFields (file : Bytes) :
    PrintsFields (zoneShell file) plainBash (ascii "BINDzones/example.com") file := by
  refine ⟨zoneShell_names file, ?_, ?_⟩
  · intro k hk
    obtain ⟨hnr, harray, hpath, hnames, htype, hline⟩ := typeCommand_asks k hk
    show zoneShell file (lineCommand getDNSType k) = _
    unfold zoneShell
    rw [if_neg hnr, if_neg harray, if_neg hpath, if_neg hnames, if_pos htype, hline]
  · intro k hk
    obtain ⟨hnr, harray, hpath, hnames, htype, hvalue, hline⟩ := valueCommand_asks k hk
    show zoneShell file (lineCommand getDNSValue k) = _
    unfold zoneShell
    rw [if_neg hnr, if_neg harray, if_neg hpath, if_neg hnames, if_neg htype, if_pos hvalue, hline]

theorem hostLines_address :
    ∀ line ∈ hostLines, ∃ owner type value, AddressLine line owner type value := by
  have hfields : ∀ line ∈ hostLines, ∃ host ∈ [(ascii "ns1", ascii "192.168.1.1"),
      (ascii "ns2", ascii "192.168.1.2"), (ascii "www", ascii "192.168.1.3"),
      (ascii "mail", ascii "192.168.1.4")],
      blankWords line = [host.1, ascii "IN", ascii "A", host.2] ∧ 59 ∉ host.1 ∧ 59 ∉ host.2 := by
    decide
  intro line hline
  obtain ⟨host, -, hwords, howner, hvalue⟩ := hfields line hline
  exact ⟨host.1, ascii "A", host.2, ⟨[], hwords⟩, Or.inl rfl, howner, hvalue⟩

/-! ### Whose record each name gets -/

/-- Where every command prints, the node is built unless there are more names than places. -/
theorem createTerminalNode_iff {name domain : Bytes} (hall : AllPrint shell)
    (hpath : pathToZoneFile shell domain = .ok path)
    (hnames : shell (getTerminalNamesScript ++ path) = some (getTerminalNamesSh file)) :
    (∃ node, createTerminalNode shell name domain = .ok node) ↔
      (listedNames file).length < nrArray := by
  refine ⟨?_, fun hcount => hall.createTerminalNode hpath (getTerminalNames_ok hnames hcount) _⟩
  intro h
  obtain ⟨node, hnode⟩ := h
  obtain ⟨path', itself, names, nodes, hpath', -, hread, -, -⟩ := createTerminalNode_cases hnode
  rw [hpath, Except.ok.injEq] at hpath'
  subst hpath'
  rw [← getTerminalNames_eq hnames hread]
  exact getTerminalNames_length hread

/--
**Each name gets its own record** exactly when names and lines keep step: the owner of each A
and MX record with no TTL of its own is listed in its place, and the line that many below the
header shows its type and value.  In a file without words special to the shell that can be read
off the lines.  The node is there when fewer than ten names are listed.
-/
theorem own_records_iff (shell : Shell) (bash : Bash) (name domain path file : Bytes)
    (hpath : pathToZoneFile shell domain = .ok path)
    (hprints : PrintsFields shell bash path file) :
    (∀ node, createTerminalNode shell name domain = .ok node →
      (HoldsOwnRecords file node ↔ InStep bash file) ∧
        (PlainFile file → (HoldsOwnRecords file node ↔ LinesAgree file))) ∧
      (AllPrint shell → ((∃ node, createTerminalNode shell name domain = .ok node) ↔
        (listedNames file).length < nrArray)) := by
  refine ⟨fun node hnode => ?_, fun hall => createTerminalNode_iff hall hpath hprints.names⟩
  have hstep := holdsOwnRecords_iff_inStep hpath hprints hnode
  exact ⟨hstep, fun hplain => hstep.trans (inStep_iff_linesAgree hplain)⟩

/-- The names of the zone that is shipped have their own records. -/
theorem own_records_shipped : ∃ node,
    createTerminalNode (zoneShell (zoneFile hostLines)) (ascii "example") (ascii "example.com")
      = .ok node ∧ HoldsOwnRecords (zoneFile hostLines) node := by
  obtain ⟨hholds, hbuilt⟩ := own_records_iff _ plainBash (ascii "example") _ _ _
    (zoneShell_path (zoneFile hostLines)) (zoneShell_printsFields _)
  have hcount : (listedNames (zoneFile hostLines)).length < nrArray := by
    rw [hostLines_listed]
    decide
  have hagree : LinesAgree (zoneFile hostLines) := by
    refine linesAgree_zoneFile hostLines_whole hostLines_address (by decide) ?_
    rw [hostLines_names]
    decide
  obtain ⟨node, hnode⟩ := (hbuilt (zoneShell_allPrint _)).mpr hcount
  have hplain := zoneFile_plain hostLines_whole (by decide)
  exact ⟨node, hnode, ((hholds node hnode).2 hplain).mpr hagree⟩

/-! ### An alias between two addresses -/

/-- An alias before an address. -/
def aliasLines : List Bytes :=
  [ascii "www     IN  A    192.168.1.3", ascii "ftp     IN  CNAME www",
    ascii "mail    IN  A    192.168.1.4"]

theorem aliasLines_listed : listedNames (zoneFile aliasLines)
    = [ascii "www", ascii "mail", ascii "\n"] := by
  have hselected : selectedNames (zoneFile aliasLines) = [ascii "www", ascii "mail"] := by
    rw [selectedNames_zoneFile (by decide)]
    decide
  have hprinted : getTerminalNamesSh (zoneFile aliasLines) = ascii "www mail \n" := by
    rw [getTerminalNamesSh_eq, hselected]
    rfl
  unfold listedNames
  rw [hprinted]
  decide

/-- The name after an alias gets the alias. -/
theorem alias_shifts_records : ∃ node,
    createTerminalNode (zoneShell (zoneFile aliasLines)) (ascii "example") (ascii "example.com")
      = .ok node ∧ ¬ HoldsOwnRecords (zoneFile aliasLines) node := by
  have hwhole : ∀ line ∈ aliasLines, newline ∉ line := by decide
  have hcount : (listedNames (zoneFile aliasLines)).length < nrArray := by
    rw [aliasLines_listed]
    decide
  obtain ⟨node, hnode⟩ := zoneShell_loaded hcount
  refine ⟨node, hnode, fun hholds => ?_⟩
  have hagree := (inStep_iff_linesAgree (zoneFile_plain hwhole (by decide))).mp
    ((holdsOwnRecords_iff_inStep (zoneShell_path _) (zoneShell_printsFields _) hnode).mp hholds)
  have haddress : AddressAt (zoneFile aliasLines) (zoneHeader.length + 2) (ascii "mail")
      (ascii "A") (ascii "192.168.1.4") :=
    ⟨_, zoneFile_line hwhole 2, ⟨[], by decide⟩, Or.inl rfl, by decide, by decide⟩
  -- one name is picked before the line of `mail`, and the alias is one line below the header
  obtain ⟨-, htype, -⟩ := hagree _ _ _ _ haddress
  rw [zoneFile_place hwhole, zoneFile_words hwhole] at htype
  exact absurd htype (by decide)

end DnsServer
