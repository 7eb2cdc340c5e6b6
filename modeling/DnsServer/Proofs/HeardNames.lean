/-
The list of names that `get_array_of_domains.sh` prints.

The script takes a name from every line that has `zone "…"` anywhere in it.  Of a block
that is one line, and what is taken is the block's name; of a comment it is whatever
stands between the quotation marks, once for each time there is something.
-/
import DnsServer.Proofs.ConfLines
import DnsServer.Proofs.OwnRecords

namespace DnsServer

open Grep Split

variable {block : ZoneBlock} {items : List ConfItem} {bash : Bash} {line : Bytes}
  {unescape : Bytes → Echo.Said}

/-- Where the first word is no option all are printed. -/
theorem EchoesAs.words (h : EchoesAs bash unescape) {words : List Bytes}
    (hfirst : ∀ word ∈ words.head?, word.head? ≠ some 45) :
    bash.echo words = [space].intercalate words ++ [newline] :=
  (h.echo words).trans (Echo.echoed_words fun word hword =>
    Echo.isOption_of_head (hfirst word hword))

/-! ### Between quotation marks -/

/-- What can stand between the marks. -/
def Quoted (body : Bytes) : Prop := body ≠ [] ∧ quote ∉ body

theorem quotedHere_eq {body : Bytes} (h : Quoted body) (back : Bytes) :
    quotedHere (quote :: (body ++ quote :: back)) = some (body.length + 2) := by
  have hlength : body.length < (body ++ quote :: back).length := by
    rw [List.length_append, List.length_cons]
    omega
  unfold quotedHere
  dsimp only
  rw [takeWhile_ne_piece h.2, if_pos ⟨rfl, h.1, hlength⟩]

theorem quotedHere_some {text : Bytes} {n : Nat} (h : quotedHere text = some n) :
    ∃ body back, text = quote :: (body ++ quote :: back) ∧ Quoted body ∧ n = body.length + 2 := by
  cases text with
  | nil =>
      unfold quotedHere at h
      exact absurd h (by simp)
  | cons c text =>
      unfold quotedHere at h
      dsimp only at h
      split at h
      · rename_i hmatch
        obtain ⟨hc, hne, hlength⟩ := hmatch
        by_cases hquote : quote ∈ text
        · obtain ⟨body, back, rfl, hbody⟩ := List.eq_append_cons_of_mem hquote
          rw [takeWhile_ne_piece hbody] at h hne
          exact ⟨body, back, by rw [hc], ⟨hne, hbody⟩, (Option.some.inj h).symm⟩
        · -- no mark closes the text
          rw [takeWhile_ne_self hquote] at hlength
          exact absurd hlength (Nat.lt_irrefl _)
      · exact absurd h (by simp)

theorem zoneHere_eq {body : Bytes} (h : Quoted body) (back : Bytes) :
    zoneHere (zoneText body ++ back) = some (zoneText body).length := by
  have htext : zoneText body ++ back = ascii "zone " ++ quote :: (body ++ quote :: back) := by
    unfold zoneText
    simp only [List.append_assoc, List.cons_append, List.nil_append]
  have hlength : (zoneText body).length = 5 + (body.length + 2) := by
    unfold zoneText
    rw [List.length_append, List.length_cons, List.length_append]
    rfl
  have hdrop : (ascii "zone " ++ quote :: (body ++ quote :: back)).drop 5
      = quote :: (body ++ quote :: back) := rfl
  unfold zoneHere
  rw [htext, if_pos (List.isPrefixOf_iff_prefix.mpr (List.prefix_append _ _)), hdrop,
    quotedHere_eq h, Option.map_some, hlength]

theorem zoneHere_some {text : Bytes} {n : Nat} (h : zoneHere text = some n) :
    ∃ body back, text = zoneText body ++ back ∧ Quoted body ∧ n = (zoneText body).length := by
  unfold zoneHere at h
  split at h
  · rename_i hfront
    obtain ⟨rest, rfl⟩ := List.isPrefixOf_iff_prefix.mp hfront
    have hdrop : (ascii "zone " ++ rest).drop 5 = rest := rfl
    rw [hdrop] at h
    obtain ⟨k, hk, rfl⟩ := Option.map_eq_some_iff.mp h
    obtain ⟨body, back, rfl, hbody, rfl⟩ := quotedHere_some hk
    refine ⟨body, back, ?_, hbody, ?_⟩
    · unfold zoneText
      simp only [List.append_assoc, List.cons_append, List.nil_append]
    · unfold zoneText
      rw [List.length_append, List.length_cons, List.length_append]
      rfl
  · exact absurd h (by simp)

theorem zoneText_body (body : Bytes) : ((zoneText body).drop 6).dropLast = body := by
  have hdrop : (zoneText body).drop 6 = body ++ [quote] := rfl
  rw [hdrop, List.dropLast_concat]

/-- What `egrep` finds in a line. -/
theorem of_mem_only_zoneHere {found : Bytes} (h : found ∈ only zoneHere 0 line) :
    ∃ body, found = zoneText body ∧ Quoted body ∧ zoneText body <:+: line := by
  obtain ⟨rest, n, hrest, hhere, rfl⟩ := of_mem_only h
  obtain ⟨body, back, rfl, hbody, rfl⟩ := zoneHere_some hhere
  refine ⟨body, List.take_left, hbody, ?_⟩
  exact (List.prefix_append _ _).isInfix.trans hrest.isInfix

theorem only_zoneHere_eq (line : Bytes) :
    only zoneHere 0 line
      = ((only zoneHere 0 line).map fun found => (found.drop 6).dropLast).map zoneText := by
  rw [List.map_map]
  refine (List.map_id' _).symm.trans (List.map_congr_left fun found hfound => ?_)
  obtain ⟨body, rfl, -⟩ := of_mem_only_zoneHere hfound
  exact congrArg zoneText (zoneText_body body).symm

/-- Between the marks is what `tr` leaves. -/
theorem only_quotedHere_zoneText {body : Bytes} (h : Quoted body) :
    only quotedHere 0 (zoneText body) = [quote :: (body ++ [quote])] := by
  have hfront : ∀ c ∈ ascii "zone ", ∀ v, quotedHere (c :: v) = none := by
    intro c hc v
    have hne : c ≠ quote := ne_of_mem_of_not_mem hc (by decide)
    unfold quotedHere
    dsimp only
    rw [if_neg fun hmatch => hne hmatch.1]
  have hhere : quotedHere (quote :: (body ++ [quote]) ++ []) =
      some (quote :: (body ++ [quote])).length := by
    rw [List.append_nil, quotedHere_eq h, List.length_cons, List.length_append]
    rfl
  have hkept := only_cons [] hhere
  rw [List.append_nil] at hkept
  unfold zoneText
  rw [only_front hfront, hkept]
  rfl

/-! ### What a line adds -/

theorem infix_stripBlanks (line : Bytes) : stripBlanks line <:+: line :=
  (List.rdropWhile_prefix _ _).isInfix.trans (List.dropWhile_suffix _).isInfix

/-- Lines that are printed, taken as a text. -/
theorem substituted_lines {parts : List Bytes}
    (h : ∀ part ∈ parts, part ≠ [] ∧ newline ∉ part ∧ 0 ∉ part) :
    substituted (parts.flatMap (· ++ [newline])) = [newline].intercalate parts := by
  by_cases hne : parts = []
  · rw [hne]
    rfl
  rw [flatMap_eq_intercalate hne]
  refine substituted_text ?_ ?_
  · intro hmem
    rcases mem_intercalate hmem with hsep | ⟨part, hpart, hin⟩
    · exact absurd hsep (by decide)
    · exact (h part hpart).2.2 hin
  · rw [getLast?_intercalate fun part hpart => (h part hpart).1]
    intro hlast
    obtain ⟨part, hpart, hend⟩ := Option.bind_eq_some_iff.mp hlast
    exact (h part (List.mem_of_getLast? hpart)).2.1 (List.mem_of_getLast? hend)

/-- The texts in a line are of the line. -/
theorem of_mem_namedIn {body : Bytes} (h : body ∈ namedIn line) :
    Quoted body ∧ zoneText body <:+: line := by
  obtain ⟨found, hfound, rfl⟩ := List.mem_map.mp h
  obtain ⟨body, rfl, hbody, hwithin⟩ := of_mem_only_zoneHere hfound
  rw [zoneText_body]
  exact ⟨hbody, hwithin.trans (infix_stripBlanks line)⟩

theorem subset_of_mem_namedIn {body : Bytes} (h : body ∈ namedIn line) : body ⊆ line := by
  refine List.Subset.trans (fun c hc => ?_) (of_mem_namedIn h).2.subset
  exact List.mem_append_right _ (List.mem_cons_of_mem _ (List.mem_append_left _ hc))

theorem trQuotes_lines {bodies : List Bytes} (h : ∀ body ∈ bodies, Quoted body) :
    trQuotes ((bodies.map fun body => quote :: (body ++ [quote])).flatMap (· ++ [newline]))
      = bodies.flatMap (· ++ [newline]) := by
  unfold trQuotes
  rw [List.flatMap_map, List.filter_flatMap]
  refine List.flatMap_congr fun body hbody => ?_
  have hkeep : body.filter (· ≠ quote) = body := filter_ne_self (h body hbody).2
  rw [List.cons_append, List.filter_cons_of_neg (by simp), List.filter_append, List.filter_append,
    hkeep]
  simp [newline, quote]

/-- **What the script makes of a line** is what stands between the marks in it. -/
theorem domainsOfLine_eq (hecho : EchoesAs bash unescape) (hnewline : newline ∉ line)
    (hnul : 0 ∉ line) (hoption : (stripBlanks line).head? ≠ some 45) :
    domainsOfLine bash line = heardOf line := by
  have hprint : ∀ text : Bytes, text.head? ≠ some 45 → bash.echo [text] = text ++ [newline] := by
    intro text htext
    rw [hecho.words (by simpa using htext), List.intercalate_singleton]
  have hstripped : newline ∉ stripBlanks line := fun hmem =>
    hnewline ((infix_stripBlanks line).subset hmem)
  have hbodies : ∀ body ∈ namedIn line, body ≠ [] ∧ newline ∉ body ∧ 0 ∉ body := by
    intro body hbody
    have hsubset := subset_of_mem_namedIn hbody
    exact ⟨(of_mem_namedIn hbody).1.1, fun hc => hnewline (hsubset hc),
      fun hc => hnul (hsubset hc)⟩
  have hquoted : ∀ body ∈ namedIn line, Quoted body := fun body hbody => (of_mem_namedIn hbody).1
  have hfounds : ∀ found ∈ (namedIn line).map zoneText,
      found ≠ [] ∧ newline ∉ found ∧ 0 ∉ found := by
    intro found hfound
    obtain ⟨body, hbody, rfl⟩ := List.mem_map.mp hfound
    obtain ⟨-, hwithin⟩ := of_mem_namedIn hbody
    exact ⟨List.cons_ne_nil _ _, fun hc => hnewline (hwithin.subset hc),
      fun hc => hnul (hwithin.subset hc)⟩
  have hegrep : egrepOnly zoneHere (bash.echo [stripBlanks line])
      = ((namedIn line).map zoneText).flatMap (· ++ [newline]) := by
    have hlines := @linesOf_flatMap [stripBlanks line] (by simpa using hstripped)
    rw [List.flatMap_singleton] at hlines
    unfold egrepOnly
    rw [hprint _ hoption, hlines, List.flatMap_singleton, only_zoneHere_eq]
    rfl
  unfold domainsOfLine heardOf
  dsimp only
  rw [hegrep, substituted_lines hfounds]
  by_cases hnone : namedIn line = []
  · rw [if_pos hnone, if_pos (by rw [hnone]; rfl)]
  · have hsome : (namedIn line).map zoneText ≠ [] := by simpa using hnone
    have hvar : [newline].intercalate ((namedIn line).map zoneText) ≠ [] :=
      intercalate_ne_nil hsome fun found hfound => (hfounds found hfound).1
    have hword : ([newline].intercalate ((namedIn line).map zoneText)).head? ≠ some 45 := by
      obtain ⟨body, bodies, hcons⟩ := List.exists_cons_of_ne_nil hnone
      rw [hcons, List.map_cons]
      cases bodies with
      | nil => simp [zoneText, ascii]
      | cons next bodies => simp [zoneText, ascii]
    have hquotes : egrepOnly quotedHere (bash.echo [[newline].intercalate
        ((namedIn line).map zoneText)])
        = ((namedIn line).map fun body => quote :: (body ++ [quote])).flatMap (· ++ [newline]) := by
      unfold egrepOnly
      rw [hprint _ hword, ← flatMap_eq_intercalate hsome,
        linesOf_flatMap fun found hfound => (hfounds found hfound).2.1, List.flatMap_map]
      refine congrArg (List.flatMap (· ++ [newline])) ?_
      rw [← List.flatMap_pure_eq_map]
      exact List.flatMap_congr fun body hbody => only_quotedHere_zoneText (hquoted body hbody)
    rw [if_neg hvar, if_neg hnone, hquotes, trQuotes_lines hquoted, substituted_lines hbodies]

/-! ### What an item adds -/

theorem heardOf_none (h : ¬ NamesZone line) : heardOf line = [] := by
  have hnone : namedIn line = [] := by
    refine List.eq_nil_iff_forall_not_mem.mpr fun body hbody => ?_
    obtain ⟨hquoted, hwithin⟩ := of_mem_namedIn hbody
    exact h ⟨body, hquoted.1, hquoted.2, hwithin⟩
  unfold heardOf
  rw [if_pos hnone]

theorem heardOf_zoneLine (block : ZoneBlock) : heardOf block.zoneLine = [block.name] := by
  have hquoted : Quoted block.name := ⟨block.zoneName.nonempty, block.name_noQuote⟩
  have hline : block.zoneLine = zoneText block.name ++ ascii " \x7b" := by
    rw [block.zoneLine_marks]
    unfold zoneText
    simp only [List.append_assoc, List.cons_append, List.nil_append]
  have hstripped : stripBlanks block.zoneLine = block.zoneLine := by
    have hfront : block.zoneLine.dropWhile isBlank = block.zoneLine := rfl
    unfold stripBlanks
    rw [hfront, hline]
    have hbrace : zoneText block.name ++ ascii " \x7b"
        = (zoneText block.name ++ [space]) ++ [123] := by
      rw [List.append_assoc]
      rfl
    rw [hbrace]
    exact List.rdropWhile_concat_neg _ _ _ (by decide)
  have hnamed : namedIn block.zoneLine = [block.name] := by
    have hkept : only zoneHere 0 (zoneText block.name ++ ascii " \x7b")
        = zoneText block.name :: only zoneHere 0 (ascii " \x7b") :=
      only_cons _ (zoneHere_eq hquoted _)
    have hrest : only zoneHere 0 (ascii " \x7b") = [] := rfl
    unfold namedIn
    rw [hstripped, hline, hkept, hrest, List.map_singleton, zoneText_body]
  unfold heardOf
  rw [hnamed, if_neg (by simp), List.intercalate_singleton]

/-- What the lines of an item add. -/
theorem heard_lines (item : ConfItem) : item.lines.flatMap heardOf = entryWords item.heard := by
  cases item with
  | block zone =>
      have hrest :
          [ZoneBlock.typeLine, zone.fileLine, ZoneBlock.closeLine].flatMap heardOf = [] := by
        refine List.flatMap_eq_nil_iff.mpr fun line hline => heardOf_none fun hnames => ?_
        obtain ⟨body, -, -, hwithin⟩ := hnames
        exact zone.zoneText_rest body line hline hwithin
      show (zone.zoneLine :: _).flatMap heardOf = [zone.name]
      rw [List.flatMap_cons, heardOf_zoneLine, hrest]
      rfl
  | comment text =>
      show [text.line].flatMap heardOf = ((heardOf text.line).map .comment).map ListEntry.word
      rw [List.flatMap_singleton, List.map_map]
      exact (List.map_id _).symm
  | empty => rfl

/-- What they add without the last of them. -/
theorem heard_lines_dropLast (item : ConfItem) :
    item.lines.dropLast.flatMap heardOf = item.blocks.map ZoneBlock.name := by
  cases item with
  | block zone =>
      have hclose : heardOf ZoneBlock.closeLine = [] := rfl
      have hlines : zone.lines = zone.lines.dropLast ++ [ZoneBlock.closeLine] := rfl
      have hall := heard_lines (.block zone)
      rw [show ConfItem.lines (.block zone) = _ from hlines, List.flatMap_append,
        List.flatMap_singleton, hclose, List.append_nil] at hall
      exact hall
  | comment text => rfl
  | empty => rfl

theorem items_heard (items : List ConfItem) :
    (confLines items).flatMap heardOf = entryWords (items.flatMap ConfItem.heard) := by
  unfold confLines entryWords
  rw [List.flatMap_assoc, List.map_flatMap]
  exact List.flatMap_congr fun item _ => heard_lines item

/-- Without comments that name zones the list is the names of the blocks. -/
theorem heard_quiet (hquiet : QuietComments items) :
    items.flatMap ConfItem.heard = (zoneNames items).map .block := by
  unfold zoneNames zoneBlocks
  rw [List.map_flatMap, List.map_flatMap]
  refine List.flatMap_congr fun item hitem => ?_
  cases item with
  | block zone => rfl
  | comment text =>
      show (heardOf text.line).map ListEntry.comment = []
      rw [heardOf_none (hquiet text hitem)]
      rfl
  | empty => rfl

/-! ### The lines that are gone round for -/

theorem readLines_closed (items : List ConfItem) :
    readLines (confText items true) = confLines items := by
  have hpieces : ((confLines items).flatMap (· ++ [newline])).splitOn newline
      = confLines items ++ [[]] := splitOn_flatMap (confLines_whole items)
  unfold readLines confText
  rw [if_pos rfl, hpieces, List.dropLast_concat]

theorem readLines_open {items : List ConfItem} (item : ConfItem) :
    readLines (confText (items ++ [item]) false) = confLines items ++ item.lines.dropLast := by
  have hlines : item.lines ≠ [] := by
    cases item with
    | block zone => exact List.cons_ne_nil _ _
    | comment text => exact List.cons_ne_nil _ _
    | empty => exact List.cons_ne_nil _ _
  have hall : confLines (items ++ [item]) = confLines items ++ item.lines := by
    rw [confLines_append]
    simp [confLines]
  have hne : confLines (items ++ [item]) ≠ [] := by
    rw [hall]
    exact List.append_ne_nil_of_right_ne_nil _ hlines
  unfold readLines confText
  rw [if_neg Bool.false_ne_true, List.splitOn_intercalate newline (confLines_whole _) hne, hall,
    List.dropLast_append_of_ne_nil hlines]

/-- The words of the list are those of the lines gone round for. -/
theorem listEntries_words (items : List ConfItem) (closed : Bool) :
    (readLines (confText items closed)).flatMap heardOf
      = entryWords (listEntries items closed) := by
  unfold listEntries
  cases closed with
  | true => rw [readLines_closed, items_heard, if_pos rfl]
  | false =>
      rw [if_neg Bool.false_ne_true]
      rcases List.eq_nil_or_concat' items with rfl | ⟨front, item, rfl⟩
      · rfl
      · rw [readLines_open, List.flatMap_append, items_heard, heard_lines_dropLast,
          List.dropLast_concat, List.getLast?_concat]
        unfold entryWords
        rw [List.map_append, List.map_map]
        simp [zoneNames, zoneBlocks, Function.comp_def, ListEntry.word]

/-! ### What is printed -/

/-- No line is an option to `echo`. -/
theorem lines_noOption (items : List ConfItem) :
    ∀ line ∈ confLines items, (stripBlanks line).head? ≠ some 45 := by
  have hfirst : ∀ line : Bytes, (line.dropWhile isBlank).head? ≠ some 45 →
      (stripBlanks line).head? ≠ some 45 := by
    intro line hline hhead
    obtain ⟨rest, hrest⟩ := List.rdropWhile_prefix isBlank (line.dropWhile isBlank)
    have hstripped : stripBlanks line ++ rest = line.dropWhile isBlank := hrest
    rw [← hstripped, List.head?_append, hhead] at hline
    exact hline rfl
  refine forall_confLines (fun zone line hline => hfirst line ?_) (fun text => hfirst _ ?_)
    (by decide) items
  · have hlines : ∀ line ∈ zone.lines, (line.dropWhile isBlank).head? ≠ some 45 := by
      unfold ZoneBlock.lines
      simp only [List.forall_mem_cons, List.not_mem_nil, false_implies, implies_true, and_true]
      refine ⟨?_, by decide, ?_, by decide⟩
      · show some 122 ≠ some 45
        decide
      · show some 102 ≠ some 45
        decide
    exact hlines line hline
  · rcases text.head with hhead | hhead
    · rw [hhead]
      decide
    · rw [hhead]
      decide

theorem mem_readLines {file : Bytes} (h : line ∈ readLines file) : line ∈ linesOf file := by
  unfold readLines at h
  unfold linesOf
  dsimp only
  split
  · exact h
  · exact List.mem_of_mem_dropLast h

/-- **The list printed is what is heard of the file.** -/
theorem getArrayOfDomainsSh_eq (hecho : EchoesAs bash unescape) (items : List ConfItem)
    (closed : Bool) :
    getArrayOfDomainsSh bash (confText items closed)
      = bash.echo (entryWords (listEntries items closed)) := by
  unfold getArrayOfDomainsSh
  rw [← listEntries_words]
  refine congrArg bash.echo (List.flatMap_congr fun line hline => ?_)
  obtain ⟨items', -, -, hlines⟩ := linesOf_confText items closed
  have hmem : line ∈ confLines items' := hlines ▸ mem_readLines hline
  exact domainsOfLine_eq hecho (confLines_whole items' line hmem) (confLines_noNul items' line hmem)
    (lines_noOption items' line hmem)

end DnsServer
