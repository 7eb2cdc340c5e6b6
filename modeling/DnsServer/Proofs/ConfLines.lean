/-
The lines of `zones.conf`, and what the scripts' patterns find in them.

A block has quotation marks in two of its lines, two in each, so a pattern with two
quotation marks in it can only match in one place there: between its own marks stands
what stands between the line's.  All other lines of the file have none, but for the
comments.
-/
import DnsServer.Proofs.Scripts
import DnsServer.Spec.ZonesConf

namespace DnsServer

open Grep Split

variable {block : ZoneBlock} {items : List ConfItem} {name line : Bytes}

/-! ### Names -/

theorem ZoneName.not_mem {c : UInt8} (h : ZoneName name) (hc : isNameByte c = false) :
    c ∉ name := by
  intro hmem
  have hbyte := h.bytes c hmem
  rw [hc] at hbyte
  exact Bool.false_ne_true hbyte

theorem ZoneName.of_bytes (hne : name ≠ []) (hbytes : name.all isNameByte = true)
    (hoption : name.head? ≠ some 45) : ZoneName name :=
  ⟨hne, List.all_eq_true.mp hbytes, hoption⟩

theorem ZoneBlock.name_noQuote (block : ZoneBlock) : quote ∉ block.name :=
  block.zoneName.not_mem (by decide)

/-! ### The lines of a block -/

/-- The quotation marks of the line with the name. -/
theorem ZoneBlock.zoneLine_marks (block : ZoneBlock) :
    block.zoneLine = ascii "zone " ++ quote :: (block.name ++ quote :: ascii " \x7b") := by
  unfold ZoneBlock.zoneLine
  rw [show ascii "zone \"" = ascii "zone " ++ [quote] from rfl,
    show ascii "\" \x7b" = quote :: ascii " \x7b" from rfl]
  simp only [List.append_assoc, List.cons_append, List.nil_append]

/-- The quotation marks of the line with the path. -/
theorem ZoneBlock.fileLine_marks (block : ZoneBlock) :
    block.fileLine = ascii "    file " ++ quote :: (block.path ++ quote :: ascii ";") := by
  unfold ZoneBlock.fileLine
  rw [show ascii "    file \"" = ascii "    file " ++ [quote] from rfl,
    show ascii "\";" = quote :: ascii ";" from rfl]
  simp only [List.append_assoc, List.cons_append, List.nil_append]

/-- `zone "…"` stands in the line with the name once. -/
theorem ZoneBlock.zoneText_zoneLine (block : ZoneBlock) {body : Bytes} :
    zoneText body <:+: block.zoneLine ↔ body = block.name := by
  rw [block.zoneLine_marks]
  constructor
  · intro h
    obtain ⟨front, back, hline⟩ := h
    have hmarks : (front ++ ascii "zone ") ++ quote :: (body ++ quote :: back) =
        ascii "zone " ++ quote :: (block.name ++ quote :: ascii " \x7b") := by
      rw [← hline]
      unfold zoneText
      simp only [List.append_assoc, List.cons_append, List.nil_append]
    exact (marks_unique (by decide) block.name_noQuote (by decide) hmarks).2.1
  · intro h
    subst h
    refine ⟨[], ascii " \x7b", ?_⟩
    unfold zoneText
    simp only [List.append_assoc, List.cons_append, List.nil_append]

theorem zoneText_front (body : Bytes) : ascii "zone \"" <+: zoneText body :=
  ⟨body ++ [quote], rfl⟩

theorem zoneText_noQuote (h : quote ∉ line) (body : Bytes) : ¬ zoneText body <:+: line := by
  intro hwithin
  exact h (hwithin.subset (List.mem_append_right _ List.mem_cons_self))

/-- The word before the first mark of the line with the path is another. -/
theorem ZoneBlock.zoneText_fileLine (block : ZoneBlock) (body : Bytes) :
    ¬ zoneText body <:+: block.fileLine := by
  intro h
  obtain ⟨front, back, hline⟩ := h
  rw [block.fileLine_marks] at hline
  have hmarks : (front ++ ascii "zone ") ++ quote :: (body ++ quote :: back) =
      ascii "    file " ++ quote :: (block.path ++ quote :: ascii ";") := by
    rw [← hline]
    unfold zoneText
    simp only [List.append_assoc, List.cons_append, List.nil_append]
  obtain ⟨hfront, -, -⟩ := marks_unique (by decide) block.zonePath.noQuote (by decide) hmarks
  have hword : ascii "zone " <:+ ascii "    file " := ⟨front, hfront⟩
  exact absurd hword (by decide)

/-- No other line of a block has `zone "…"` in it. -/
theorem ZoneBlock.zoneText_rest (block : ZoneBlock) (body : Bytes) :
    ∀ line ∈ [ZoneBlock.typeLine, block.fileLine, ZoneBlock.closeLine],
      ¬ zoneText body <:+: line := by
  simp only [List.forall_mem_cons, List.not_mem_nil, false_implies, implies_true, and_true]
  exact ⟨zoneText_noQuote (by decide) body, block.zoneText_fileLine body,
    zoneText_noQuote (by decide) body⟩

/-- What is in neither the layout nor the two texts is in no line. -/
theorem ZoneBlock.lines_lack (block : ZoneBlock) {c : UInt8} (hname : c ∉ block.name)
    (hpath : c ∉ block.path)
    (hlayout : ∀ text ∈ [ascii "zone \"", ascii "\" \x7b", ZoneBlock.typeLine, ascii "    file \"",
      ascii "\";", ZoneBlock.closeLine], c ∉ text) :
    ∀ line ∈ block.lines, c ∉ line := by
  simp only [List.forall_mem_cons, List.not_mem_nil, false_implies, implies_true, and_true]
    at hlayout
  obtain ⟨hzone, hopen, htype, hfile, hsemicolon, hclose⟩ := hlayout
  unfold ZoneBlock.lines
  simp only [List.forall_mem_cons, List.not_mem_nil, false_implies, implies_true, and_true]
  refine ⟨?_, htype, ?_, hclose⟩
  · exact List.not_mem_append (List.not_mem_append hzone hname) hopen
  · exact List.not_mem_append (List.not_mem_append hfile hpath) hsemicolon

theorem ZoneBlock.lines_whole (block : ZoneBlock) : ∀ line ∈ block.lines, newline ∉ line :=
  block.lines_lack (block.zoneName.not_mem (by decide)) block.zonePath.noNewline (by decide)

theorem ZoneBlock.lines_noNul (block : ZoneBlock) : ∀ line ∈ block.lines, 0 ∉ line :=
  block.lines_lack (block.zoneName.not_mem (by decide)) block.zonePath.noNul (by decide)

/-- The first byte of a comment. -/
theorem CommentLine.head (text : CommentLine) :
    (text.line.dropWhile isBlank).head? = some 35 ∨
      (text.line.dropWhile isBlank).head? = some 47 := by
  rcases text.marked with h | h | h
  · obtain ⟨rest, hrest⟩ := h
    rw [← hrest]
    exact Or.inl rfl
  · obtain ⟨rest, hrest⟩ := h
    rw [← hrest]
    exact Or.inr rfl
  · obtain ⟨rest, hrest⟩ := h
    rw [← hrest]
    exact Or.inr rfl

theorem CommentLine.ne_nil (text : CommentLine) : text.line ≠ [] := by
  intro hnil
  have hhead := text.head
  rw [hnil] at hhead
  exact absurd hhead (by decide)

/-! ### The lines of the file -/

/-- A line of the file is of a block, a comment, or empty. -/
theorem forall_confLines {P : Bytes → Prop}
    (hblock : ∀ zone : ZoneBlock, ∀ line ∈ zone.lines, P line)
    (hcomment : ∀ text : CommentLine, P text.line) (hempty : P []) (items : List ConfItem) :
    ∀ line ∈ confLines items, P line := by
  intro line hline
  obtain ⟨item, -, hline⟩ := List.mem_flatMap.mp hline
  cases item with
  | block zone => exact hblock zone line hline
  | comment text =>
      rw [List.mem_singleton.mp hline]
      exact hcomment text
  | empty =>
      rw [List.mem_singleton.mp hline]
      exact hempty

theorem confLines_whole (items : List ConfItem) : ∀ line ∈ confLines items, newline ∉ line :=
  forall_confLines ZoneBlock.lines_whole CommentLine.noNewline List.not_mem_nil items

theorem confLines_noNul (items : List ConfItem) : ∀ line ∈ confLines items, 0 ∉ line :=
  forall_confLines ZoneBlock.lines_noNul CommentLine.noNul List.not_mem_nil items

theorem confLines_append (items items' : List ConfItem) :
    confLines (items ++ items') = confLines items ++ confLines items' := List.flatMap_append

theorem zoneBlocks_append (items items' : List ConfItem) :
    zoneBlocks (items ++ items') = zoneBlocks items ++ zoneBlocks items' := List.flatMap_append

/-- Only an empty line ends in nothing. -/
theorem lines_getLast?_nil {item : ConfItem} (h : item.lines.getLast? = some []) :
    item = .empty := by
  cases item with
  | block zone =>
      have hclose : ZoneBlock.closeLine = [] := Option.some.inj h
      exact absurd hclose (by decide)
  | comment text => exact absurd (Option.some.inj h) text.ne_nil
  | empty => rfl

/-- The lines of the file are those of its items, but for an empty one at the end that no newline
closes. -/
theorem linesOf_confText (items : List ConfItem) (closed : Bool) :
    ∃ items', items' <+: items ∧ zoneBlocks items' = zoneBlocks items ∧
      linesOf (confText items closed) = confLines items' := by
  cases closed with
  | true =>
      refine ⟨items, List.prefix_rfl, rfl, ?_⟩
      unfold confText
      rw [if_pos rfl]
      exact linesOf_flatMap (confLines_whole items)
  | false =>
      have hpieces : confLines items ≠ [] →
          (confText items false).splitOn newline = confLines items := by
        intro hne
        unfold confText
        rw [if_neg Bool.false_ne_true]
        exact List.splitOn_intercalate newline (confLines_whole items) hne
      rcases List.eq_nil_or_concat' items with rfl | ⟨front, item, rfl⟩
      · exact ⟨[], List.prefix_rfl, rfl, rfl⟩
      have hlast : (confLines (front ++ [item])).getLast? = item.lines.getLast? := by
        have hlines : item.lines ≠ [] := by
          cases item with
          | block zone => exact List.cons_ne_nil _ _
          | comment text => exact List.cons_ne_nil _ _
          | empty => exact List.cons_ne_nil _ _
        rw [confLines_append, show confLines [item] = item.lines by simp [confLines],
          List.getLast?_append_of_ne_nil _ hlines]
      have hne : confLines (front ++ [item]) ≠ [] := by
        intro hnil
        rw [hnil] at hlast
        cases item with
        | block zone => exact absurd hlast (by simp [ConfItem.lines, ZoneBlock.lines])
        | comment text => exact absurd hlast (by simp [ConfItem.lines])
        | empty => exact absurd hlast (by simp [ConfItem.lines])
      unfold linesOf
      rw [hpieces hne]
      dsimp only
      by_cases hempty : (confLines (front ++ [item])).getLast? = some []
      · have hitem := lines_getLast?_nil (hlast.symm.trans hempty)
        subst hitem
        refine ⟨front, List.prefix_append _ _, ?_, ?_⟩
        · rw [zoneBlocks_append]
          exact (List.append_nil _).symm
        · rw [if_pos hempty, confLines_append]
          exact List.dropLast_concat
      · exact ⟨front ++ [item], List.prefix_rfl, rfl, if_neg hempty⟩

/-! ### The scripts over one file -/

/-- A shell in a directory without files, with the options of `echo`. -/
def optionBash : Bash :=
  { plainBash with
    echo := Echo.echoed Echo.asIs
    echo_plain := fun _ h => Echo.echoed_words fun word hword =>
      Echo.isOption_of_head (h word (List.mem_of_head? hword)).noOption }

/-- What the three scripts print of a file. -/
def confShell (conf : Bytes) : Shell := fun command =>
  if getPathToZoneFile.isPrefixOf command then
    some (getPathToZoneFileSh conf (command.drop getPathToZoneFile.length))
  else if command = getNrZonesForRootStart then some (getNrZonesForRootStartSh conf)
  else if command = getArrayOfDomains then some (getArrayOfDomainsSh optionBash conf)
  else none

theorem confShell_path (conf name : Bytes) :
    confShell conf (getPathToZoneFile ++ name) = some (getPathToZoneFileSh conf name) := by
  unfold confShell
  rw [if_pos (List.isPrefixOf_iff_prefix.mpr (List.prefix_append _ _)), List.drop_left]

/-- A zone with the file of its name. -/
def ZoneBlock.shipped (name : Bytes) (h : ZoneName name) : ZoneBlock where
  name := name
  path := ascii "BINDzones/" ++ name
  zoneName := h
  zonePath := by
    refine ⟨?_, ?_, ?_⟩
    · exact List.not_mem_append (by decide) (h.not_mem (by decide))
    · exact List.not_mem_append (by decide) (h.not_mem (by decide))
    · exact List.not_mem_append (by decide) (h.not_mem (by decide))

/-- The first zone that is shipped. -/
def exampleZone : ZoneBlock :=
  .shipped (ascii "example.com") (.of_bytes (by decide) rfl (by decide))

/-- The file that is shipped; no newline closes it. -/
def shippedItems : List ConfItem :=
  [.comment ⟨ascii "# List of zones managed by this DNS server", by decide, by decide, by decide⟩,
    .block exampleZone, .empty,
    .block (.shipped (ascii "mydomain.org") (.of_bytes (by decide) rfl (by decide))), .empty,
    .block (.shipped (ascii "google.ro") (.of_bytes (by decide) rfl (by decide))), .empty,
    .block (.shipped (ascii "youtube.gov") (.of_bytes (by decide) rfl (by decide)))]

theorem shippedItems_comment {text : CommentLine} (h : .comment text ∈ shippedItems) :
    text.line = ascii "# List of zones managed by this DNS server" := by
  simp only [shippedItems, List.mem_cons, List.not_mem_nil, reduceCtorEq, or_false,
    ConfItem.comment.injEq] at h
  rw [h]

end DnsServer
