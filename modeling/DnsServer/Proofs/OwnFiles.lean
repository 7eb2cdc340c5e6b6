/-
Which file each zone is loaded from.

`get_path_to_zone_file.sh` takes the zone's name for a regular expression.  It finds the
lines `zone "…"` of every block whose name agrees with the zone's but where that has dots,
and the caller keeps the first line that is printed.  So what is read comes from the first
such block, whichever it is: its path, as far as the buffer takes it, or the line with its
name when `file` is a part of the name.
-/
import DnsServer.Proofs.ConfLines
import DnsServer.Proofs.OwnRecords

namespace DnsServer

open Grep Split

variable {block : ZoneBlock} {items : List ConfItem} {name line : Bytes}

/-! ### The name as a regular expression -/

theorem dotHere_iff {pattern text : Bytes} :
    dotHere pattern text = true ↔
      ∃ matched rest, text = matched ++ rest ∧ AgreesUpToDots pattern matched := by
  induction pattern generalizing text with
  | nil => exact ⟨fun _ => ⟨[], text, rfl, List.Forall₂.nil⟩, fun _ => rfl⟩
  | cons p pattern ih =>
      cases text with
      | nil =>
          refine ⟨fun h => absurd h Bool.false_ne_true, fun h => ?_⟩
          obtain ⟨matched, rest, hnil, hagrees⟩ := h
          rw [(List.append_eq_nil_iff.mp hnil.symm).1] at hagrees
          exact nomatch hagrees
      | cons c text =>
          rw [dotHere, Bool.and_eq_true, Bool.or_eq_true, beq_iff_eq, beq_iff_eq, ih]
          constructor
          · intro h
            obtain ⟨hc, matched, rest, rfl, hagrees⟩ := h
            exact ⟨c :: matched, rest, rfl, List.Forall₂.cons hc hagrees⟩
          · intro h
            obtain ⟨matched, rest, htext, hagrees⟩ := h
            cases hagrees with
            | cons hc hagrees =>
                rw [List.cons_append, List.cons.injEq] at htext
                obtain ⟨rfl, rfl⟩ := htext
                exact ⟨hc, _, rest, rfl, hagrees⟩

/-- Without a dot a name agrees with itself alone. -/
theorem agrees_plain {pattern : Bytes} (hdot : dot ∉ pattern) {text : Bytes} :
    AgreesUpToDots pattern text ↔ text = pattern := by
  have hsame : ∀ p ∈ pattern, p ≠ dot := fun p hp => ne_of_mem_of_not_mem hp hdot
  constructor
  · intro h
    have heq : List.Forall₂ (· = ·) pattern text := by
      induction h with
      | nil => exact List.Forall₂.nil
      | cons hpc _ ih =>
          refine List.Forall₂.cons (hpc.resolve_left (hsame _ List.mem_cons_self)) ?_
          exact ih (fun hmem => hdot (List.mem_cons_of_mem _ hmem))
            fun p hp => hsame p (List.mem_cons_of_mem _ hp)
    rw [List.forall₂_eq_eq_eq] at heq
    exact heq.symm
  · intro h
    subst h
    exact List.forall₂_same.mpr fun p _ => Or.inr rfl

theorem agrees_append {pattern pattern' text : Bytes} :
    AgreesUpToDots (pattern ++ pattern') text ↔
      ∃ u v, text = u ++ v ∧ AgreesUpToDots pattern u ∧ AgreesUpToDots pattern' v := by
  constructor
  · intro h
    refine ⟨text.take pattern.length, text.drop pattern.length,
      (List.take_append_drop _ _).symm, ?_, ?_⟩
    · have htake := List.forall₂_take pattern.length h
      rw [List.take_left] at htake
      exact htake
    · have hdrop := List.forall₂_drop pattern.length h
      rw [List.drop_left] at hdrop
      exact hdrop
  · intro h
    obtain ⟨u, v, rfl, hu, hv⟩ := h
    exact List.rel_append hu hv

/-- The pattern for a name is matched by `zone "…"` around what agrees with the name. -/
theorem agrees_zone {text : Bytes} :
    AgreesUpToDots (ascii "zone \"" ++ name ++ [quote]) text ↔
      ∃ body, text = zoneText body ∧ AgreesUpToDots name body := by
  constructor
  · intro h
    obtain ⟨opening, closing, rfl, hopening, hclosing⟩ := agrees_append.mp h
    obtain ⟨word, body, rfl, hword, hbody⟩ := agrees_append.mp hopening
    rw [agrees_plain (by decide)] at hword hclosing
    exact ⟨body, by rw [hword, hclosing]; rfl, hbody⟩
  · intro h
    obtain ⟨body, rfl, hbody⟩ := h
    refine agrees_append.mpr ⟨ascii "zone \"" ++ body, [quote], rfl,
      agrees_append.mpr ⟨_, _, rfl, ?_, hbody⟩, ?_⟩
    · exact (agrees_plain (by decide)).mpr rfl
    · exact (agrees_plain (by decide)).mpr rfl

/-- **Where the pattern for a name matches**: at `zone "…"`, where what stands between the
quotation marks agrees with the name. -/
theorem zonePattern_iff : zonePattern name line = true ↔
    ∃ body, zoneText body <:+: line ∧ AgreesUpToDots name body := by
  unfold zonePattern
  rw [anywhere_iff]
  constructor
  · intro h
    obtain ⟨rest, hrest, hhere⟩ := h
    obtain ⟨matched, back, rfl, hagrees⟩ := dotHere_iff.mp hhere
    obtain ⟨body, rfl, hbody⟩ := agrees_zone.mp hagrees
    exact ⟨body, (List.prefix_append _ _).isInfix.trans hrest.isInfix, hbody⟩
  · intro h
    obtain ⟨body, ⟨front, back, rfl⟩, hbody⟩ := h
    refine ⟨zoneText body ++ back, ⟨front, (List.append_assoc _ _ _).symm⟩, dotHere_iff.mpr ?_⟩
    exact ⟨zoneText body, back, rfl, agrees_zone.mpr ⟨body, rfl, hbody⟩⟩

/-! ### What is found in a block -/

/-- The line with a block's name is found for the names that agree with it. -/
theorem zonePattern_zoneLine (name : Bytes) (block : ZoneBlock) :
    zonePattern name block.zoneLine = decide (AgreesUpToDots name block.name) := by
  rw [Bool.eq_iff_iff, decide_eq_true_eq, zonePattern_iff]
  simp only [block.zoneText_zoneLine, exists_eq_left]

theorem zonePattern_none (h : ∀ body, ¬ zoneText body <:+: line) (name : Bytes) :
    zonePattern name line = false := by
  rw [Bool.eq_false_iff]
  intro hmatch
  obtain ⟨body, hwithin, -⟩ := zonePattern_iff.mp hmatch
  exact h body hwithin

theorem filePattern_iff : filePattern line = true ↔ ascii "file" <:+: line :=
  anywhere_isPrefixOf_iff

theorem filePattern_zoneLine (block : ZoneBlock) :
    filePattern block.zoneLine = true ↔ ascii "file" <:+: block.name := by
  rw [filePattern_iff, block.zoneLine_marks]
  constructor
  · intro h
    rcases infix_side (by decide) h with h | h
    · exact absurd h (by decide)
    · rcases infix_side (by decide) h with h | h
      · exact h
      · exact absurd h (by decide)
  · intro h
    exact (h.trans (List.prefix_append _ _).isInfix).trans
      ((List.suffix_cons _ _).isInfix.trans (List.suffix_append _ _).isInfix)

theorem filePattern_fileLine (block : ZoneBlock) : filePattern block.fileLine = true := by
  rw [filePattern_iff, block.fileLine_marks]
  exact (show ascii "file" <:+: ascii "    file " by decide).trans (List.prefix_append _ _).isInfix

/-! ### What is made of the line -/

theorem getLast?_of_unique {α : Type} {l : List α} {a : α} (hmem : a ∈ l)
    (hall : ∀ b ∈ l, b = a) : l.getLast? = some a := by
  have hne : l ≠ [] := List.ne_nil_of_mem hmem
  rw [List.getLast?_eq_some_getLast hne, hall _ (List.getLast_mem hne)]

/-- Before the only quotation mark there is. -/
theorem beforeClose_eq {path : Bytes} (h : quote ∉ path) :
    beforeClose (path ++ quote :: ascii ";") = path := by
  have hlast : ((path ++ quote :: ascii ";").tails.filter
      ((ascii "\";").isPrefixOf ·)).getLast? = some (quote :: ascii ";") := by
    refine getLast?_of_unique ?_ ?_
    · rw [List.mem_filter, List.mem_tails]
      exact ⟨List.suffix_append _ _, rfl⟩
    · intro rest hrest
      rw [List.mem_filter, List.mem_tails] at hrest
      obtain ⟨⟨front, hfront⟩, hopens⟩ := hrest
      obtain ⟨back, rfl⟩ := List.isPrefixOf_iff_prefix.mp hopens
      have hcut : front ++ quote :: (ascii ";" ++ back) = path ++ quote :: ascii ";" := hfront
      have hback := ((List.append_cons_inj_of_notMem h (by decide)).mp hcut.symm).2.2
      show quote :: (ascii ";" ++ back) = _
      rw [← hback]
  unfold beforeClose
  rw [hlast]
  dsimp only
  rw [List.length_append, Nat.add_sub_cancel, List.take_left]

/-- Where `file "…";` can begin. -/
theorem opens_marks {rest : Bytes}
    (h : ((ascii "file \"").isPrefixOf rest &&
      anywhere ((ascii "\";").isPrefixOf ·) (rest.drop 6)) = true) :
    ∃ path back, rest = ascii "file " ++ quote :: (path ++ quote :: back) := by
  rw [Bool.and_eq_true, anywhere_isPrefixOf_iff] at h
  obtain ⟨hopens, hclose⟩ := h
  obtain ⟨behind, rfl⟩ := List.isPrefixOf_iff_prefix.mp hopens
  obtain ⟨path, back, hbehind⟩ := hclose
  have hdrop : (ascii "file \"" ++ behind).drop 6 = behind := rfl
  rw [hdrop] at hbehind
  refine ⟨path, ascii ";" ++ back, ?_⟩
  rw [← hbehind, show ascii "file \"" = ascii "file " ++ [quote] from rfl,
    show ascii "\";" = quote :: ascii ";" from rfl]
  simp only [List.append_assoc, List.cons_append, List.nil_append]

/-- The path is cut out of its line. -/
theorem sedFile_fileLine (block : ZoneBlock) : sedFile block.fileLine = block.path := by
  have hquote := block.zonePath.noQuote
  have hlast : (block.fileLine.tails.filter fun rest => (ascii "file \"").isPrefixOf rest &&
      anywhere ((ascii "\";").isPrefixOf ·) (rest.drop 6)).getLast?
      = some (ascii "file " ++ quote :: (block.path ++ quote :: ascii ";")) := by
    refine getLast?_of_unique ?_ ?_
    · rw [List.mem_filter, List.mem_tails, Bool.and_eq_true, anywhere_isPrefixOf_iff,
        block.fileLine_marks]
      refine ⟨⟨ascii "    ", rfl⟩, ?_, ?_⟩
      · exact List.isPrefixOf_iff_prefix.mpr ⟨block.path ++ quote :: ascii ";", rfl⟩
      · exact (List.suffix_append block.path _).isInfix
    · intro rest hrest
      rw [List.mem_filter, List.mem_tails] at hrest
      obtain ⟨⟨front, hline⟩, hopens⟩ := hrest
      obtain ⟨path, back, rfl⟩ := opens_marks hopens
      rw [block.fileLine_marks, ← List.append_assoc] at hline
      obtain ⟨-, rfl, rfl⟩ := marks_unique (by decide) hquote (by decide) hline
      rfl
  unfold sedFile
  dsimp only
  rw [hlast]
  exact beforeClose_eq hquote

/-- The line with the name has no `file "` in it and is left as it is. -/
theorem sedFile_zoneLine (block : ZoneBlock) : sedFile block.zoneLine = block.zoneLine := by
  have hnone : (block.zoneLine.tails.filter fun rest => (ascii "file \"").isPrefixOf rest &&
      anywhere ((ascii "\";").isPrefixOf ·) (rest.drop 6)) = [] := by
    refine List.filter_eq_nil_iff.mpr fun rest hrest hopens => ?_
    obtain ⟨front, hline⟩ := (List.mem_tails _ _).mp hrest
    obtain ⟨path, back, rfl⟩ := opens_marks hopens
    rw [block.zoneLine_marks, ← List.append_assoc] at hline
    obtain ⟨hfront, -, -⟩ := marks_unique (by decide) block.name_noQuote (by decide) hline
    have hword : ascii "file " <:+ ascii "zone " := ⟨front, hfront⟩
    exact absurd hword (by decide)
  unfold sedFile
  dsimp only
  rw [hnone]
  rfl

/-! ### The first line that is printed -/

/-- The line of a block the path is taken from. -/
def pathLine (block : ZoneBlock) : Bytes :=
  if ascii "file" <:+: block.name then block.zoneLine else block.fileLine

theorem filter_block (block : ZoneBlock) :
    ([block.zoneLine, ZoneBlock.typeLine, block.fileLine].filter filePattern).head?
      = some (pathLine block) := by
  unfold pathLine
  by_cases hfile : ascii "file" <:+: block.name
  · rw [if_pos hfile, List.filter_cons_of_pos ((filePattern_zoneLine block).mpr hfile)]
    rfl
  · have htype : ¬ filePattern ZoneBlock.typeLine = true := by decide
    rw [if_neg hfile, List.filter_cons_of_neg fun h => hfile ((filePattern_zoneLine block).mp h),
      List.filter_cons_of_neg htype, List.filter_cons_of_pos (filePattern_fileLine block)]
    rfl

/-- What is left of the file's lines once `grep` has gone over them twice. -/
def foundLines (name : Bytes) (lines : List Bytes) : List Bytes :=
  (withContext 2 (ascii "--") (zonePattern name) 0 false false lines).filter filePattern

theorem foundLines_skip {front : List Bytes} (h : ∀ line ∈ front, zonePattern name line = false)
    (lines : List Bytes) : foundLines name (front ++ lines) = foundLines name lines := by
  unfold foundLines
  rw [withContext_skip h]

/-- A block that is found comes first. -/
theorem foundLines_block (hagrees : AgreesUpToDots name block.name) (lines : List Bytes) :
    (foundLines name (block.lines ++ lines)).head? = some (pathLine block) := by
  have hline : zonePattern name block.zoneLine = true := by
    rw [zonePattern_zoneLine]
    exact decide_eq_true hagrees
  have hcontext : ∀ line ∈ [ZoneBlock.typeLine, block.fileLine], zonePattern name line = false :=
    fun line hline => zonePattern_none (fun body => block.zoneText_rest body line
      (List.mem_append_left [ZoneBlock.closeLine] hline)) name
  have hfound : withContext 2 (ascii "--") (zonePattern name) 0 false false
      (block.zoneLine :: ([ZoneBlock.typeLine, block.fileLine] ++
        (ZoneBlock.closeLine :: lines))) = _ :=
    withContext_match hline hcontext rfl _
  show ((withContext 2 (ascii "--") (zonePattern name) 0 false false
    (block.zoneLine :: ([ZoneBlock.typeLine, block.fileLine] ++
      (ZoneBlock.closeLine :: lines)))).filter filePattern).head? = _
  rw [hfound, ← List.cons_append, List.filter_append, List.head?_append, filter_block]
  rfl

/-- No line of a block that is not found matches. -/
theorem zonePattern_lines (hagrees : ¬ AgreesUpToDots name block.name) :
    ∀ line ∈ block.lines, zonePattern name line = false := by
  have hline : zonePattern name block.zoneLine = false := by
    rw [zonePattern_zoneLine]
    exact decide_eq_false hagrees
  refine List.forall_mem_cons.mpr ⟨hline, fun line hrest => ?_⟩
  exact zonePattern_none (fun body => block.zoneText_rest body line hrest) name

/-- **The first line printed is of the first block found.** -/
theorem foundLines_head (name : Bytes) (hcomments : PlainComments items) :
    (foundLines name (confLines items)).head? = (firstNamed items name).map pathLine := by
  unfold firstNamed
  induction items with
  | nil => rfl
  | cons item items ih =>
      have hrest := ih fun text htext => hcomments text (List.mem_cons_of_mem item htext)
      show (foundLines name (item.lines ++ confLines items)).head? = _
      cases item with
      | comment text =>
          rw [foundLines_skip]
          · exact hrest
          · intro line hline
            rw [List.mem_singleton.mp hline]
            refine zonePattern_none (fun body hwithin => ?_) name
            exact hcomments text List.mem_cons_self
              ((zoneText_front body).isInfix.trans hwithin)
      | empty =>
          rw [foundLines_skip]
          · exact hrest
          · intro line hline
            rw [List.mem_singleton.mp hline]
            exact zonePattern_none (zoneText_noQuote List.not_mem_nil) name
      | block zone =>
          have hlines : ConfItem.lines (.block zone) = zone.lines := rfl
          by_cases hagrees : AgreesUpToDots name zone.name
          · have hfirst : (zoneBlocks (.block zone :: items)).find?
                (fun block => decide (AgreesUpToDots name block.name)) = some zone :=
              List.find?_cons_of_pos (decide_eq_true hagrees)
            rw [hfirst]
            exact foundLines_block hagrees _
          · have hfirst : (zoneBlocks (.block zone :: items)).find?
                (fun block => decide (AgreesUpToDots name block.name)) =
                  (zoneBlocks items).find? fun block => decide (AgreesUpToDots name block.name) :=
              List.find?_cons_of_neg (by simpa using hagrees)
            rw [hfirst, hlines, foundLines_skip (zonePattern_lines hagrees)]
            exact hrest

/-! ### What is read -/

theorem firstNamed_congr {items' : List ConfItem} (h : zoneBlocks items' = zoneBlocks items)
    (name : Bytes) : firstNamed items' name = firstNamed items name := by
  unfold firstNamed
  rw [h]

/-- The first line of a command, without its newline, as far as the buffer takes it. -/
theorem pathToZoneFile_eq {shell : Shell} {domain rest : Bytes} (hnewline : newline ∉ line)
    (hnul : 0 ∉ line)
    (hprints : shell (getPathToZoneFile ++ domain) = some (line ++ newline :: rest)) :
    pathToZoneFile shell domain = .ok (line.take (lineBufferSize - 1)) := by
  have hread := readBack_line hnul hnewline
  unfold readBack at hread
  rw [fgets_line _ hnewline, Option.map_some, Option.some.injEq] at hread
  refine load_bind_eq_ok.mpr ⟨_, popenLine_ok_iff.mpr ⟨_, hprints, fgets_first _ hnewline _⟩, ?_⟩
  rw [hread]
  rfl

/-- What the path is taken from has neither newline nor NUL. -/
theorem sedFile_pathLine (block : ZoneBlock) :
    sedFile (pathLine block) =
      if ascii "file" <:+: block.name then block.zoneLine else block.path := by
  unfold pathLine
  by_cases hfile : ascii "file" <:+: block.name
  · rw [if_pos hfile, if_pos hfile, sedFile_zoneLine]
  · rw [if_neg hfile, if_neg hfile, sedFile_fileLine]

/-- **The path read for a name** is that of the first block found, as far as the buffer takes it,
or that block's line with the name when `file` is a part of this. -/
theorem pathToZoneFile_first {shell : Shell} {closed : Bool} {first : ZoneBlock}
    (hcomments : PlainComments items)
    (hprints : shell (getPathToZoneFile ++ name)
      = some (getPathToZoneFileSh (confText items closed) name))
    (hfirst : firstNamed items name = some first) :
    pathToZoneFile shell name
      = .ok ((if ascii "file" <:+: first.name then first.zoneLine else first.path).take
        (lineBufferSize - 1)) := by
  obtain ⟨items', hitems, hblocks, hlines⟩ := linesOf_confText items closed
  have hcomments' : PlainComments items' := fun text htext => hcomments text (hitems.subset htext)
  have hhead := foundLines_head name hcomments'
  rw [firstNamed_congr hblocks, hfirst, Option.map_some] at hhead
  obtain ⟨more, hfound⟩ := List.head?_eq_some_iff.mp hhead
  have hprinted : getPathToZoneFileSh (confText items closed) name = sedFile (pathLine first) ++
      newline :: more.flatMap (sedFile · ++ [newline]) := by
    show (foundLines name (linesOf (confText items closed))).flatMap _ = _
    rw [hlines, hfound, List.flatMap_cons, List.append_assoc, List.singleton_append]
  rw [hprinted, sedFile_pathLine] at hprints
  refine pathToZoneFile_eq ?_ ?_ hprints
  · split
    · exact first.lines_whole _ List.mem_cons_self
    · exact first.zonePath.noNewline
  · split
    · exact first.lines_noNul _ List.mem_cons_self
    · exact first.zonePath.noNul

/-- A line with a name is no path, however much of it is read. -/
theorem zoneLine_take_ne {path : Bytes} (h : quote ∉ path) (block : ZoneBlock) :
    block.zoneLine.take (lineBufferSize - 1) ≠ path := by
  intro heq
  have hquote : quote ∈ block.zoneLine.take (lineBufferSize - 1) := by
    refine (List.take_subset_take_left _ (show 6 ≤ lineBufferSize - 1 by decide)) ?_
    show quote ∈ ascii "zone \""
    decide
  rw [heq] at hquote
  exact h hquote

/-- The zone's own block is found for its name, if no other is before it. -/
theorem firstNamed_isSome (hblock : block ∈ zoneBlocks items) :
    ∃ first, firstNamed items block.name = some first := by
  have hself : AgreesUpToDots block.name block.name := List.forall₂_same.mpr fun _ _ => Or.inr rfl
  exact Option.isSome_iff_exists.mp
    (List.find?_isSome.mpr ⟨block, hblock, decide_eq_true hself⟩)

/-- Each zone's path is the one in its block. -/
def OwnFiles (shell : Shell) (items : List ConfItem) : Prop :=
  ∀ block ∈ zoneBlocks items, pathToZoneFile shell block.name = .ok block.path

/-- The first block that a zone's name finds has its path in 127 bytes, and no `file` in its
name. -/
def FoundFirst (items : List ConfItem) (block : ZoneBlock) : Prop :=
  ∀ first, firstNamed items block.name = some first →
    ¬ ascii "file" <:+: first.name ∧ first.path.take (lineBufferSize - 1) = block.path

/--
**Each zone is loaded from its own file exactly where its name finds its own path first**: of
the blocks whose names agree with the zone's but where that has dots, the first one has no
`file` in its name, and the first 127 bytes of its path are the zone's path.
-/
theorem own_files_iff (shell : Shell) (items : List ConfItem) (closed : Bool)
    (hcomments : PlainComments items)
    (hprints : ∀ block ∈ zoneBlocks items, shell (getPathToZoneFile ++ block.name)
      = some (getPathToZoneFileSh (confText items closed) block.name)) :
    OwnFiles shell items ↔ ∀ block ∈ zoneBlocks items, FoundFirst items block := by
  refine forall₂_congr fun block hblock => ?_
  obtain ⟨first, hfirst⟩ := firstNamed_isSome hblock
  rw [pathToZoneFile_first hcomments (hprints block hblock) hfirst, Except.ok.injEq]
  unfold FoundFirst
  rw [hfirst]
  simp only [Option.some.injEq, forall_eq']
  by_cases hfile : ascii "file" <:+: first.name
  · rw [if_pos hfile]
    refine ⟨fun h => absurd h (zoneLine_take_ne block.zonePath.noQuote first), fun h => ?_⟩
    exact absurd hfile h.1
  · rw [if_neg hfile]
    exact (and_iff_right hfile).symm

theorem foundFirst_of {first : ZoneBlock} (hfirst : firstNamed items block.name = some first)
    (hfile : ¬ ascii "file" <:+: first.name)
    (hpath : first.path.take (lineBufferSize - 1) = block.path) : FoundFirst items block := by
  intro first' hfirst'
  rw [hfirst, Option.some.injEq] at hfirst'
  subst hfirst'
  exact ⟨hfile, hpath⟩

/-- The four zones that are shipped have their own files. -/
theorem own_files_shipped : OwnFiles (confShell (confText shippedItems false)) shippedItems := by
  refine (own_files_iff _ shippedItems false ?_ fun block _ => confShell_path _ block.name).mpr ?_
  · intro text htext
    rw [shippedItems_comment htext]
    decide
  · show ∀ block ∈ [_, _, _, _], FoundFirst _ block
    simp only [List.forall_mem_cons, List.not_mem_nil, false_implies, implies_true, and_true]
    refine ⟨foundFirst_of rfl ?_ rfl, foundFirst_of rfl ?_ rfl, foundFirst_of rfl ?_ rfl,
      foundFirst_of rfl ?_ rfl⟩
    · decide
    · decide
    · decide
    · decide

/-- Two zones whose names differ where one has a dot. -/
def dashedItems : List ConfItem :=
  [.block (.shipped (ascii "example-com.org") (.of_bytes (by decide) rfl (by decide))),
    .block (.shipped (ascii "example.com.org") (.of_bytes (by decide) rfl (by decide)))]

/-- The second zone is loaded from the file of the first. -/
theorem other_file_loaded :
    zoneNames dashedItems = [ascii "example-com.org", ascii "example.com.org"] ∧
      (zoneNames dashedItems).Nodup ∧
      pathToZoneFile (confShell (confText dashedItems true)) (ascii "example.com.org")
        = .ok (ascii "BINDzones/example-com.org") ∧
      ¬ OwnFiles (confShell (confText dashedItems true)) dashedItems := by
  have hpath : pathToZoneFile (confShell (confText dashedItems true)) (ascii "example.com.org")
      = .ok (ascii "BINDzones/example-com.org") := rfl
  refine ⟨rfl, by decide, hpath, fun h => ?_⟩
  have hown := hpath.symm.trans (h _ (List.mem_cons_of_mem _ List.mem_cons_self))
  rw [Except.ok.injEq] at hown
  exact absurd hown (by decide)

end DnsServer
