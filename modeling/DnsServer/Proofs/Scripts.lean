/-
What the scripts print, line by line.
-/
import DnsServer.Proofs.Loading
import DnsServer.Proofs.Names
import DnsServer.Spec.ZoneFile

namespace DnsServer

open Split

/-! ### Lines -/

theorem splitOn_flatMap {lines : List Bytes} (h : ∀ line ∈ lines, newline ∉ line) :
    (lines.flatMap (· ++ [newline])).splitOn newline = lines ++ [[]] := by
  induction lines with
  | nil => rfl
  | cons line lines ih =>
      rw [List.flatMap_cons, List.append_assoc, List.singleton_append,
        splitOn_piece (h line List.mem_cons_self),
        ih fun line' hline' => h line' (List.mem_cons_of_mem line hline'), List.cons_append]

/-- A file of whole lines is these lines. -/
theorem linesOf_flatMap {lines : List Bytes} (h : ∀ line ∈ lines, newline ∉ line) :
    linesOf (lines.flatMap (· ++ [newline])) = lines := by
  unfold linesOf
  rw [splitOn_flatMap h]
  simp

theorem not_mem_of_mem_linesOf {file line : Bytes} (h : line ∈ linesOf file) : newline ∉ line := by
  have hpiece : line ∈ file.splitOn newline := by
    unfold linesOf at h
    dsimp only at h
    split at h
    · exact List.mem_of_mem_dropLast h
    · exact h
  exact not_mem_of_mem_splitOn hpiece

/-- `fgets` reads the first line. -/
theorem fgets_first (size : Nat) {line : Bytes} (h : newline ∉ line) (rest : Bytes) :
    fgets size (line ++ newline :: rest) = some (cstr ((line ++ [newline]).take (size - 1))) := by
  unfold fgets
  rw [if_neg (by simp), takeWhile_ne_piece h]
  dsimp only
  rw [if_pos (by simp)]

theorem fgets_line (size : Nat) {line : Bytes} (h : newline ∉ line) :
    fgets size (line ++ [newline]) = some (cstr ((line ++ [newline]).take (size - 1))) :=
  fgets_first size h []

/-! ### Words -/

/-- A word has no blank in it. -/
theorem of_mem_blankWords {text word : Bytes} (h : word ∈ blankWords text) :
    word ≠ [] ∧ space ∉ word ∧ tab ∉ word ∧ newline ∉ word := by
  obtain ⟨hne, hnot⟩ := of_mem_tokens h
  have hblank : ∀ c ∈ [space, tab, newline], c ∉ word := by
    intro c hc hmem
    have hno := hnot c hmem
    rw [decide_eq_false_iff_not] at hno
    exact hno hc
  exact ⟨hne, hblank _ (by simp), hblank _ (by simp), hblank _ (by simp)⟩

theorem isSpace_of_blank {c : UInt8} (h : decide (c ∈ [space, tab, newline]) = true) :
    isSpace c = true := by
  have hcases : c = space ∨ c = tab ∨ c = newline := by simpa using h
  rcases hcases with rfl | rfl | rfl
  · rfl
  · rfl
  · rfl

/-! ### The pattern -/

/-- Where the pattern matches there is a word. -/
theorem blankWords_of_terminalPattern {line : Bytes} (h : terminalPattern line = true) :
    blankWords line ≠ [] := by
  obtain ⟨text, htail, hhere⟩ := List.any_eq_true.mp h
  have hstarts : ascii "IN" <+: text := by
    unfold patternHere at hhere
    rw [Bool.and_eq_true, Bool.and_eq_true] at hhere
    exact List.isPrefixOf_iff_prefix.mp hhere.1.1
  have hmem : (73 : UInt8) ∈ line :=
    ((List.mem_tails _ _).mp htail).subset (hstarts.subset (by decide))
  intro hnone
  rcases tokens_cases (fun c => decide (c ∈ [space, tab, newline])) line with
    ⟨-, hall⟩ | ⟨seps, t, ys, -, -, -, -, hrest⟩
  · exact absurd (hall 73 hmem) (by decide)
  · rcases hrest with ⟨-, htokens⟩ | ⟨sep, zs, -, -, htokens⟩
    · exact absurd (htokens.symm.trans hnone) (List.cons_ne_nil _ _)
    · exact absurd (htokens.symm.trans hnone) (List.cons_ne_nil _ _)

theorem dropWhile_spaces {spaces text : Bytes} (hspaces : ∀ c ∈ spaces, isSpace c = true)
    (htext : ∀ c ∈ text.head?, isSpace c = false) :
    (spaces ++ text).dropWhile isSpace = text := by
  rw [List.dropWhile_append_of_pos hspaces]
  cases text with
  | nil => rfl
  | cons c text => exact List.dropWhile_cons_of_neg (by simp [htext c rfl])

theorem typeFollows_self (type : Bytes) {sep : UInt8} (hsep : isSpace sep = true) (rest : Bytes) :
    typeFollows type (type ++ sep :: rest) = true := by
  unfold typeFollows
  rw [List.drop_left, Bool.and_eq_true]
  exact ⟨List.isPrefixOf_iff_prefix.mpr (List.prefix_append _ _), by simpa using hsep⟩

/-- The pattern matches at an `IN` that a type follows. -/
theorem patternHere_of_type {gap type : Bytes} {sep : UInt8}
    (hgap : gap ≠ [] ∧ ∀ c ∈ gap, isSpace c = true)
    (htype : type = ascii "A" ∨ type = ascii "MX") (hsep : isSpace sep = true) (rest : Bytes) :
    patternHere (ascii "IN" ++ (gap ++ (type ++ sep :: rest))) = true := by
  have hhead : ∀ c ∈ (type ++ sep :: rest).head?, isSpace c = false := by
    intro c hc
    rcases htype with rfl | rfl
    · cases hc
      rfl
    · cases hc
      rfl
  have hdrop := dropWhile_spaces hgap.2 hhead
  have hfollows := typeFollows_self type hsep rest
  obtain ⟨c, gap', rfl⟩ := List.exists_cons_of_ne_nil hgap.1
  have hfirst : ((c :: gap') ++ (type ++ sep :: rest)).head?.any isSpace = true :=
    hgap.2 c List.mem_cons_self
  have hskip : (ascii "IN" ++ ((c :: gap') ++ (type ++ sep :: rest))).drop 2
      = (c :: gap') ++ (type ++ sep :: rest) := rfl
  unfold patternHere
  rw [hskip, hdrop, hfirst, Bool.and_true, Bool.and_eq_true, Bool.or_eq_true]
  refine ⟨List.isPrefixOf_iff_prefix.mpr (List.prefix_append _ _), ?_⟩
  rcases htype with rfl | rfl
  · exact Or.inl hfollows
  · exact Or.inr hfollows

/-- How a text whose first word is `IN` is laid out. -/
theorem layout_of_words {text type value : Bytes} {rest : List Bytes}
    (h : blankWords text = ascii "IN" :: type :: value :: rest) :
    ∃ front gap sep back, text = front ++ (ascii "IN" ++ (gap ++ (type ++ sep :: back))) ∧
      (gap ≠ [] ∧ ∀ c ∈ gap, isSpace c = true) ∧ isSpace sep = true := by
  obtain ⟨seps₁, ys₁, rfl, -, -, -, hafter⟩ := tokens_eq_cons h
  obtain ⟨sep₁, zs₁, rfl, hsep₁, hwords⟩ := hafter.resolve_left (by simp)
  obtain ⟨seps₂, ys₂, rfl, hseps₂, -, -, hafter⟩ := tokens_eq_cons hwords.symm
  obtain ⟨sep₂, zs₂, rfl, hsep₂, -⟩ := hafter.resolve_left (by simp)
  have hspaces : ∀ c ∈ sep₁ :: seps₂, isSpace c = true :=
    List.forall_mem_cons.mpr
      ⟨isSpace_of_blank hsep₁, fun c hc => isSpace_of_blank (hseps₂ c hc)⟩
  refine ⟨seps₁, sep₁ :: seps₂, sep₂, zs₂, ?_,
    ⟨List.cons_ne_nil sep₁ seps₂, hspaces⟩, isSpace_of_blank hsep₂⟩
  simp only [List.cons_append]

/-- **The pattern picks every A and MX record.** -/
theorem AddressOwner.selected {line owner : Bytes} (h : AddressOwner line owner) :
    terminalPattern line = true := by
  obtain ⟨ttl, type, value, rest, hwords, -, htype, -⟩ := h.words
  have hsplit : blankWords line = (owner :: ttl) ++ ascii "IN" :: type :: value :: rest := hwords
  obtain ⟨text, hsuffix, htext⟩ := tokens_suffix hsplit (List.cons_ne_nil _ _)
  obtain ⟨front, gap, sep, back, rfl, hgap, hsep⟩ := layout_of_words htext
  exact List.any_eq_true.mpr ⟨_,
    (List.mem_tails _ _).mpr ((List.suffix_append front _).trans hsuffix),
    patternHere_of_type hgap htype hsep back⟩

theorem AddressLine.addressOwner {line owner type value : Bytes}
    (h : AddressLine line owner type value) : AddressOwner line owner := by
  obtain ⟨rest, hwords⟩ := h.words
  exact ⟨⟨[], type, value, rest, hwords, Or.inl rfl, h.type, h.value⟩, h.owner⟩

theorem AddressLine.selected {line owner type value : Bytes}
    (h : AddressLine line owner type value) : terminalPattern line = true :=
  h.addressOwner.selected

/-! ### The line of names -/

variable {file : Bytes}

/-- A name is a word of a line. -/
theorem exists_line_of_mem_selectedNames {name : Bytes} (h : name ∈ selectedNames file) :
    ∃ line ∈ linesOf file, name ∈ blankWords line := by
  obtain ⟨line, hline, rfl⟩ := List.mem_map.mp h
  obtain ⟨hmem, hselected⟩ := List.mem_filter.mp hline
  obtain ⟨word, words, heq⟩ :=
    List.exists_cons_of_ne_nil (blankWords_of_terminalPattern hselected)
  refine ⟨line, hmem, ?_⟩
  rw [heq, List.headD_cons]
  exact List.mem_cons_self

theorem of_mem_selectedNames {name : Bytes} (h : name ∈ selectedNames file) :
    name ≠ [] ∧ space ∉ name ∧ newline ∉ name := by
  obtain ⟨line, -, hword⟩ := exists_line_of_mem_selectedNames h
  obtain ⟨hne, hspace, -, hnewline⟩ := of_mem_blankWords hword
  exact ⟨hne, hspace, hnewline⟩

/-- The owner of a record is picked. -/
theorem AddressOwner.mem_selectedNames {line owner : Bytes} (h : AddressOwner line owner)
    (hline : line ∈ linesOf file) : owner ∈ selectedNames file := by
  obtain ⟨ttl, type, value, rest, hwords, -⟩ := h.words
  refine List.mem_map.mpr ⟨line, List.mem_filter.mpr ⟨hline, h.selected⟩, ?_⟩
  rw [hwords, List.headD_cons]

/-- The names are tokens of the line they are printed on. -/
theorem selectedNames_tokens :
    ∀ name ∈ selectedNames file, name ≠ [] ∧ ∀ c ∈ name, decide (c ∈ [space]) = false := by
  intro name hname
  obtain ⟨hne, hspace, -⟩ := of_mem_selectedNames hname
  exact ⟨hne, not_delim (by simpa using hspace)⟩

theorem trNewlines_name {name : Bytes} (h : newline ∉ name) :
    trNewlines (name ++ [newline]) = name ++ [space] := by
  unfold trNewlines
  rw [List.map_append]
  have hsame : name.map (fun c => if c = newline then space else c) = name := by
    conv_rhs => rw [← List.map_id name]
    refine List.map_congr_left fun c hc => ?_
    have hne : c ≠ newline := ne_of_mem_of_not_mem hc h
    rw [if_neg hne, id]
  rw [hsame]
  rfl

/-- The names are printed on one line, a blank after each. -/
theorem getTerminalNamesSh_eq (file : Bytes) :
    getTerminalNamesSh file = (selectedNames file).flatMap (· ++ [space]) ++ [newline] := by
  have htr : ∀ names : List Bytes, (∀ name ∈ names, newline ∉ name) →
      trNewlines (names.flatMap (· ++ [newline])) = names.flatMap (· ++ [space]) := by
    intro names
    induction names with
    | nil => intro _; rfl
    | cons name names ih =>
        intro hall
        have hrest := ih fun name' h => hall name' (List.mem_cons_of_mem name h)
        have hname := trNewlines_name (hall name List.mem_cons_self)
        rw [List.flatMap_cons, List.flatMap_cons, ← hname, ← hrest]
        exact List.map_append
  have hawk : awkTerminalNames file = (selectedNames file).flatMap (· ++ [newline]) := by
    unfold awkTerminalNames selectedNames
    rw [List.flatMap_map]
  unfold getTerminalNamesSh
  rw [hawk, htr _ fun name h => (of_mem_selectedNames h).2.2]

/-- The buffer holds all of the line that fits. -/
theorem fgets_getTerminalNamesSh (file : Bytes) :
    fgets lineBufferSize (getTerminalNamesSh file)
      = some (cstr ((getTerminalNamesSh file).take (lineBufferSize - 1))) := by
  rw [getTerminalNamesSh_eq]
  refine fgets_line _ ?_
  intro h
  obtain ⟨name, hname, hmem⟩ := List.mem_flatMap.mp h
  rcases List.mem_append.mp hmem with hin | hspace
  · exact (of_mem_selectedNames hname).2.2 hin
  · exact absurd (List.mem_singleton.mp hspace) (by decide)

theorem getTerminalNames_eq {shell : Shell} {path : Bytes} {names : List Bytes}
    (hnames : shell (getTerminalNamesScript ++ path) = some (getTerminalNamesSh file))
    (h : getTerminalNames shell path = .ok names) : names = listedNames file := by
  unfold getTerminalNames at h
  obtain ⟨line, hline, h⟩ := load_bind_eq_ok.mp h
  obtain ⟨stream, hstream, hget⟩ := popenLine_ok_iff.mp hline
  rw [hnames, Option.some.injEq] at hstream
  rw [← hstream, fgets_getTerminalNamesSh, Option.some.injEq] at hget
  dsimp only at h
  split at h
  · rw [← Except.ok.inj h, ← hget]
    rfl
  · exact absurd h load_throw_ne_ok

theorem getTerminalNames_length {shell : Shell} {path : Bytes} {names : List Bytes}
    (h : getTerminalNames shell path = .ok names) : names.length < nrArray := by
  unfold getTerminalNames at h
  obtain ⟨line, -, h⟩ := load_bind_eq_ok.mp h
  dsimp only at h
  split at h
  · rename_i hlength
    rw [← Except.ok.inj h]
    exact hlength
  · exact absurd h load_throw_ne_ok

theorem getTerminalNames_ok {shell : Shell} {path : Bytes}
    (hnames : shell (getTerminalNamesScript ++ path) = some (getTerminalNamesSh file))
    (hcount : (listedNames file).length < nrArray) :
    getTerminalNames shell path = .ok (listedNames file) := by
  refine load_bind_eq_ok.mpr
    ⟨_, popenLine_ok_iff.mpr ⟨_, hnames, fgets_getTerminalNamesSh file⟩, ?_⟩
  exact if_pos hcount

/-- Where the whole line fits, its words are the names picked and the newline after them. -/
theorem listedNames_of_fits (hfits : (getTerminalNamesSh file).length < lineBufferSize)
    (hnul : 0 ∉ getTerminalNamesSh file) :
    listedNames file = selectedNames file ++ [[newline]] := by
  unfold listedNames
  rw [List.take_of_length_le (by omega), cstr_self hnul, getTerminalNamesSh_eq, strtok_eq_tokens,
    tokens_flatMap (by decide) selectedNames_tokens,
    tokens_single (by simp) (by simp [newline, space])]

/-- Where no NUL is printed, a name is listed in its place exactly when it ends before the line
is cut. -/
theorem listedNames_getElem?_iff (hnul : 0 ∉ getTerminalNamesSh file) {k : Nat} {name : Bytes}
    (hname : (selectedNames file)[k]? = some name) :
    (listedNames file)[k]? = some name ↔
      (((selectedNames file).take (k + 1)).flatMap (· ++ [space])).length ≤ lineBufferSize := by
  unfold listedNames
  rw [cstr_self fun hmem => hnul (List.mem_of_mem_take hmem), getTerminalNamesSh_eq,
    strtok_eq_tokens]
  exact tokens_take_flatMap (by decide) selectedNames_tokens [newline] hname (lineBufferSize - 1)

/-! ### A server with one zone -/

/-- A shell in a directory without files. -/
def plainBash : Bash where
  expand word := [word]
  echo words := [space].intercalate words ++ [newline]
  expand_plain _ _ := rfl
  echo_plain _ _ := rfl

/-- The line number at the end of a command. -/
def askedLine (script command : Bytes) : Nat :=
  (atoi (command.drop (script ++ ascii "BINDzones/example.com").length)).toNat

/-- The scripts over one zone, `example.com`, with this file. -/
def zoneShell (file : Bytes) : Shell := fun command =>
  if command = getNrZonesForRootStart then some (ascii "1\n")
  else if command = getArrayOfDomains then some (ascii "example.com\n")
  else if getPathToZoneFile.isPrefixOf command then some (ascii "BINDzones/example.com\n")
  else if getTerminalNamesScript.isPrefixOf command then some (getTerminalNamesSh file)
  else if getDNSType.isPrefixOf command then
    some (getDNSTypeSh plainBash file (askedLine getDNSType command))
  else if getDNSValue.isPrefixOf command then
    some (getDNSValueSh plainBash file (askedLine getDNSValue command))
  else if getDNSTtl.isPrefixOf command then
    some (getDNSTtlSh plainBash file (askedLine getDNSTtl command))
  else if getNsDomains.isPrefixOf command then some (ascii "ns1.example.com\n")
  else some (ascii "3600\n")

theorem zoneShell_allPrint (file : Bytes) : AllPrint (zoneShell file) := by
  have hecho : ∀ value, plainBash.echoUnquoted value ≠ [] := by
    intro value
    unfold Bash.echoUnquoted plainBash
    simp
  have hnames : getTerminalNamesSh file ≠ [] := by
    unfold getTerminalNamesSh
    simp
  have hprints : ∀ stream : Bytes, stream ≠ [] → Printed (some stream) := fun stream h =>
    ⟨stream, rfl, h⟩
  intro command
  unfold zoneShell
  exact printed_ite (hprints _ (by decide)) (printed_ite (hprints _ (by decide))
    (printed_ite (hprints _ (by decide)) (printed_ite (hprints _ hnames)
    (printed_ite (hprints _ (hecho _)) (printed_ite (hprints _ (hecho _))
    (printed_ite (hprints _ (hecho _)) (printed_ite (hprints _ (by decide))
    (hprints _ (by decide)))))))))

theorem zoneShell_zones (file : Bytes) :
    getArrayOfDomainNames (zoneShell file) = .ok [ascii "example.com"] := rfl

theorem zoneShell_path (file : Bytes) :
    pathToZoneFile (zoneShell file) (ascii "example.com") = .ok (ascii "BINDzones/example.com") :=
  rfl

theorem zoneShell_names (file : Bytes) :
    zoneShell file (getTerminalNamesScript ++ ascii "BINDzones/example.com")
      = some (getTerminalNamesSh file) := by
  unfold zoneShell
  rw [if_neg (by decide), if_neg (by decide), if_neg (by decide), if_pos (by decide)]

/-- A zone of at most nine names is loaded. -/
theorem zoneShell_loaded (hcount : (listedNames file).length < nrArray) :
    ∃ node, createTerminalNode (zoneShell file) (ascii "example") (ascii "example.com")
      = .ok node :=
  (zoneShell_allPrint file).createTerminalNode (zoneShell_path file)
    (getTerminalNames_ok (zoneShell_names file) hcount) _

/-- The ten lines the zone file begins with. -/
def zoneHeader : List Bytes :=
  [ascii "$TTL 3600                      ; Default TTL for all records",
    ascii "@       IN  SOA ns1.example.com. admin.example.com. (",
    ascii "            2024111601         ; Serial",
    ascii "            3600               ; Refresh",
    ascii "            1800               ; Retry",
    ascii "            1209600            ; Expire",
    ascii "            3600               ; Minimum TTL",
    ascii "        )",
    ascii "        IN  NS   ns1.example.com",
    ascii "        IN  NS   ns2.example.com"]

/-- The zone file with these lines after its header. -/
def zoneFile (lines : List Bytes) : Bytes := (zoneHeader ++ lines).flatMap (· ++ [newline])

theorem zoneHeader_plain : ∀ line ∈ zoneHeader, newline ∉ line ∧ terminalPattern line = false := by
  decide

theorem linesOf_zoneFile {lines : List Bytes} (h : ∀ line ∈ lines, newline ∉ line) :
    linesOf (zoneFile lines) = zoneHeader ++ lines := by
  refine linesOf_flatMap fun line hline => ?_
  rcases List.mem_append.mp hline with hheader | hrest
  · exact (zoneHeader_plain line hheader).1
  · exact h line hrest

/-- Nothing is picked of the header. -/
theorem selectedNames_zoneFile {lines : List Bytes} (h : ∀ line ∈ lines, newline ∉ line) :
    selectedNames (zoneFile lines)
      = (lines.filter terminalPattern).map fun line => (blankWords line).headD [] := by
  have hnone : zoneHeader.filter terminalPattern = [] := by
    refine List.filter_eq_nil_iff.mpr fun line hline => ?_
    rw [(zoneHeader_plain line hline).2]
    exact Bool.false_ne_true
  unfold selectedNames
  rw [linesOf_zoneFile h, List.filter_append, hnone, List.nil_append]

/-- The records of the zone that is shipped. -/
def hostLines : List Bytes :=
  [ascii "ns1     IN  A    192.168.1.1", ascii "ns2     IN  A    192.168.1.2",
    ascii "www     IN  A    192.168.1.3", ascii "mail    IN  A    192.168.1.4"]

theorem hostLines_whole : ∀ line ∈ hostLines, newline ∉ line := by decide

theorem hostLines_names :
    getTerminalNamesSh (zoneFile hostLines) = ascii "ns1 ns2 www mail \n" := by
  have hselected : selectedNames (zoneFile hostLines)
      = [ascii "ns1", ascii "ns2", ascii "www", ascii "mail"] := by
    rw [selectedNames_zoneFile hostLines_whole]
    decide
  rw [getTerminalNamesSh_eq, hselected]
  rfl

theorem hostLines_listed : listedNames (zoneFile hostLines)
    = [ascii "ns1", ascii "ns2", ascii "www", ascii "mail", ascii "\n"] := by
  unfold listedNames
  rw [hostLines_names]
  decide

end DnsServer
