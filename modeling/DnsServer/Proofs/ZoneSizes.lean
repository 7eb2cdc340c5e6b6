/-
Which zones are loaded whole.

A zone's names go through a line of 127 bytes, into an array of ten that ends in a null
pointer, and from there into the 32 children of the zone's node; nothing compares their
number or their lengths with any of these.  The newline at the end of the line counts as
a name when it is read.  So the names stay inside exactly when no more than nine words
begin in the 127 bytes, and all of them are there when each is what is left of one.

Loading a zone is refused only where a number of its SOA record or a name server is
missing: the lines that are too long are not noticed.
-/
import DnsServer.Code.Arrays
import DnsServer.Proofs.OwnRecords

namespace DnsServer

open Split Writes

variable {shell : Shell} {bash : Bash} {name domain path file : Bytes}

/-! ### Refusing -/

/-- Loading stops with a message. -/
def Refuses {α : Type} (x : Load α) : Prop := ∃ text, x = .error (.exit text)

theorem refuses_bind_iff {α β : Type} {x : Load α} {f : α → Load β} :
    Refuses (x >>= f) ↔ Refuses x ∨ ∃ a, x = .ok a ∧ Refuses (f a) := by
  unfold Refuses
  rcases x with e | a
  · simp [bind, Except.bind]
  · simp [bind, Except.bind]

theorem refuses_map {α β : Type} {x : Load α} {f : α → β} (h : Refuses (x.map f)) : Refuses x := by
  obtain ⟨text, h⟩ := h
  rcases x with e | a
  · exact ⟨text, by simpa [Except.map] using h⟩
  · simp [Except.map] at h

theorem not_refuses_ok {α : Type} (a : α) : ¬ Refuses (.ok a : Load α) := by
  intro h
  obtain ⟨text, h⟩ := h
  simp at h

theorem not_refuses_undefined {α : Type} : ¬ Refuses (throw .undefined : Load α) := by
  intro h
  obtain ⟨text, h⟩ := h
  simp [throw, throwThe, MonadExceptOf.throw] at h

/-- The first part refuses under its condition and else succeeds; so the whole does under one or
the other. -/
theorem refuses_bind_of {α β : Type} {x : Load α} {f : α → Load β} {P Q : Prop}
    (hrefuses : P → Refuses x) (hok : ¬ P → ∃ a, x = .ok a)
    (hrest : ∀ a, Refuses (f a) ↔ Q) : Refuses (x >>= f) ↔ P ∨ Q := by
  rw [refuses_bind_iff]
  by_cases hP : P
  · exact ⟨fun _ => Or.inl hP, fun _ => Or.inl (hrefuses hP)⟩
  · obtain ⟨a, ha⟩ := hok hP
    refine ⟨fun h => ?_, fun h => ?_⟩
    · rcases h with h | ⟨a', -, h⟩
      · rw [ha] at h
        exact absurd h (not_refuses_ok a)
      · exact Or.inr ((hrest a').mp h)
    · exact Or.inr ⟨a, ha, (hrest a).mpr (h.resolve_left hP)⟩

/-- What asks for a line stops where nothing is printed and goes on where something is. -/
theorem refuses_popenLine {α : Type} (g : Bytes → α) (nullPipe : LoadFault) (text : String)
    {command stream : Bytes} (h : shell command = some stream) :
    (stream = [] → Refuses (popenLine shell command nullPipe (.exit text) >>=
      fun buffer => pure (g buffer))) ∧
    (¬ stream = [] → ∃ a, (popenLine shell command nullPipe (.exit text) >>=
      fun buffer => pure (g buffer)) = .ok a) := by
  unfold popenLine fgets
  rw [h]
  dsimp only
  refine ⟨fun hempty => ?_, fun hne => ?_⟩
  · rw [if_pos hempty]
    exact ⟨text, rfl⟩
  · rw [if_neg hne]
    exact ⟨_, rfl⟩

theorem getMetadataNumber_refuses {type stream : Bytes}
    (h : shell (getMetadataFromSoa ++ path ++ type) = some stream) :
    (stream = [] → Refuses (getMetadataNumber shell path type)) ∧
      (¬ stream = [] → ∃ number, getMetadataNumber shell path type = .ok number) :=
  refuses_popenLine atoi .undefined _ h

theorem getNSDomain_refuses {type stream : Bytes}
    (h : shell (getNsDomains ++ path ++ type) = some stream) :
    (stream = [] → Refuses (getNSDomain shell path type)) ∧
      (¬ stream = [] → ∃ server, getNSDomain shell path type = .ok server) :=
  refuses_popenLine cutNewline (.exit _) _ h

/-- The zone's own node is refused exactly where one of its seven texts is missing. -/
theorem createItselfNode_refuses_iff (hprints : PrintsZone shell bash path file) :
    Refuses (createItselfNode shell name path) ↔ Incomplete bash file := by
  have hnumber : ∀ field ∈ soaFields,
      (getMetadataFromSoaSh file field = [] →
        Refuses (getMetadataNumber shell path (ascii " " ++ field))) ∧
      (¬ getMetadataFromSoaSh file field = [] →
        ∃ number, getMetadataNumber shell path (ascii " " ++ field) = .ok number) :=
    fun field hfield => getMetadataNumber_refuses (hprints.metadata field hfield)
  have hserver : ∀ nsRecord ∈ nsRecords,
      (getNsDomainsSh bash file nsRecord = [] →
        Refuses (getNSDomain shell path (ascii " " ++ nsRecord))) ∧
      (¬ getNsDomainsSh bash file nsRecord = [] →
        ∃ server, getNSDomain shell path (ascii " " ++ nsRecord) = .ok server) :=
    fun nsRecord hnsRecord => getNSDomain_refuses (hprints.servers nsRecord hnsRecord)
  unfold soaFields at hnumber
  unfold nsRecords at hserver
  simp only [List.forall_mem_cons] at hnumber hserver
  obtain ⟨hserial, hrefresh, hretry, hexpire, hminimum, -⟩ := hnumber
  obtain ⟨hfirst, hsecond, -⟩ := hserver
  unfold createItselfNode
  refine (refuses_bind_of hserial.1 hserial.2 fun _ => refuses_bind_of hrefresh.1 hrefresh.2
    fun _ => refuses_bind_of hretry.1 hretry.2 fun _ => refuses_bind_of hexpire.1 hexpire.2
    fun _ => refuses_bind_of hminimum.1 hminimum.2 fun _ => refuses_bind_of hfirst.1 hfirst.2
    fun _ => refuses_bind_of hsecond.1 hsecond.2 fun _ => iff_false_intro
    (not_refuses_ok _)).trans ?_
  unfold Incomplete soaFields nsRecords
  simp only [List.exists_mem_cons_iff, List.not_mem_nil, false_and, exists_false, or_false,
    or_assoc]

/-- What is read of a line stops nothing. -/
theorem popenLine_not_refuses (command : Bytes) :
    ¬ Refuses (popenLine shell command .undefined .undefined) := by
  intro h
  obtain ⟨text, h⟩ := h
  unfold popenLine at h
  split at h
  · simp at h
  · split at h
    · simp at h
    · simp at h

theorem createSpecialNodes_not_refuses (names : List Bytes) :
    ∀ startIndex, ¬ Refuses (createSpecialNodes shell path startIndex names) := by
  induction names with
  | nil => exact fun _ => not_refuses_ok _
  | cons name names ih =>
      intro startIndex h
      unfold createSpecialNodes at h
      rcases refuses_bind_iff.mp h with h | ⟨_, -, h⟩
      · unfold createSpecialNode at h
        rcases refuses_bind_iff.mp h with h | ⟨_, -, h⟩
        · exact popenLine_not_refuses _ h
        rcases refuses_bind_iff.mp h with h | ⟨_, -, h⟩
        · exact popenLine_not_refuses _ h
        rcases refuses_bind_iff.mp h with h | ⟨_, -, h⟩
        · exact popenLine_not_refuses _ (refuses_map h)
        · exact not_refuses_ok _ h
      · rcases refuses_bind_iff.mp h with h | ⟨_, -, h⟩
        · exact ih _ h
        · exact not_refuses_ok _ h

/-- The line of names is there: it has a newline at least. -/
theorem popenLine_names (hprints : PrintsZone shell bash path file) (nullPipe noLine : LoadFault) :
    popenLine shell (getTerminalNamesScript ++ path) nullPipe noLine
      = .ok (cstr ((getTerminalNamesSh file).take (lineBufferSize - 1))) :=
  popenLine_ok_iff.mpr ⟨_, hprints.names, fgets_getTerminalNamesSh file⟩

theorem getTerminalNames_not_refuses (hprints : PrintsZone shell bash path file) :
    ¬ Refuses (getTerminalNames shell path) := by
  intro h
  unfold getTerminalNames at h
  rw [popenLine_names hprints] at h
  rcases refuses_bind_iff.mp h with h | ⟨_, -, h⟩
  · exact not_refuses_ok _ h
  · dsimp only at h
    split at h
    · exact not_refuses_ok _ h
    · exact not_refuses_undefined h

/-- **A zone is refused exactly where its own node is.** -/
theorem createTerminalNode_refuses_iff (hpath : pathToZoneFile shell domain = .ok path)
    (hprints : PrintsZone shell bash path file) :
    Refuses (createTerminalNode shell name domain) ↔ Incomplete bash file := by
  rw [← createItselfNode_refuses_iff hprints]
  unfold createTerminalNode
  rw [refuses_bind_iff, hpath]
  refine ⟨fun h => ?_, fun h => Or.inr ⟨path, rfl, refuses_bind_iff.mpr (Or.inl h)⟩⟩
  rcases h with h | ⟨path', hpath', h⟩
  · exact absurd h (not_refuses_ok path)
  rw [Except.ok.injEq] at hpath'
  subst hpath'
  rcases refuses_bind_iff.mp h with h | ⟨_, -, h⟩
  · exact h
  rcases refuses_bind_iff.mp h with h | ⟨_, -, h⟩
  · exact absurd h (getTerminalNames_not_refuses hprints)
  rcases refuses_bind_iff.mp h with h | ⟨_, -, h⟩
  · exact absurd h (createSpecialNodes_not_refuses _ _)
  · exact absurd h (not_refuses_ok _)

/-! ### The names that are listed -/

/-- The names' line as far as it is read. -/
theorem names_take (file : Bytes) :
    cstr ((getTerminalNamesSh file).take (lineBufferSize - 1))
      = ((selectedNames file).flatMap (· ++ [space]) ++ [newline]).take (namesRoom file) := by
  have hfront : cstr ((getTerminalNamesSh file).take (lineBufferSize - 1))
      <+: (selectedNames file).flatMap (· ++ [space]) ++ [newline] := by
    rw [← getTerminalNamesSh_eq]
    exact (List.takeWhile_prefix _).trans (List.take_prefix _ _)
  exact List.prefix_iff_eq_take.mp hfront

theorem listedNames_eq_cutParts (file : Bytes) :
    listedNames file = cutParts (namesRoom file) (selectedNames file ++ [[newline]]) := by
  unfold listedNames
  rw [names_take, strtok_eq_tokens]
  exact tokens_take_parts (by decide) ⟨by simp, by simp [newline, space]⟩ selectedNames_tokens _

theorem length_listedNames_lt_iff (file : Bytes) :
    (listedNames file).length < nrArray ↔ (selectedNames file).length < nrArray - 1 ∨
      namesRoom file ≤ partStart (selectedNames file) (nrArray - 1) := by
  have hcount : (listedNames file).length < nrArray ↔
      (listedNames file).length ≤ nrArray - 1 := by
    unfold nrArray
    omega
  rw [hcount, listedNames_eq_cutParts, length_cutParts_le_iff, List.length_append,
    List.length_singleton]
  rcases Nat.lt_or_ge (selectedNames file).length (nrArray - 1) with hfew | hmany
  · exact ⟨fun _ => Or.inl hfew, fun _ => Or.inl hfew⟩
  · rw [partStart_append hmany]
    refine ⟨fun h => Or.inr (h.resolve_left (by omega)), fun h => ?_⟩
    exact Or.inr (h.resolve_left (by omega))

/-- An owner is listed when it is what the buffer holds of an owner. -/
theorem mem_listedNames_iff {owner : Bytes} (howner : owner ∈ selectedNames file) :
    owner ∈ listedNames file ↔ ∃ j u, (selectedNames file)[j]? = some u ∧
      partStart (selectedNames file) j < namesRoom file ∧
      owner = u.take (namesRoom file - partStart (selectedNames file) j) := by
  rw [listedNames_eq_cutParts, mem_cutParts_iff]
  refine exists_congr fun j => exists_congr fun u => ?_
  rcases Nat.lt_or_ge j (selectedNames file).length with hj | hj
  · rw [List.getElem?_append_left hj, partStart_append (by omega)]
  · -- the newline is no owner
    rw [List.getElem?_append_right hj, List.getElem?_eq_none hj]
    refine ⟨fun h => ?_, fun h => absurd h.1 (by simp)⟩
    obtain ⟨hu, -, htake⟩ := h
    have hnewline : u = [newline] := List.mem_singleton.mp (List.mem_of_getElem? hu)
    obtain ⟨hne, -, hnot⟩ := of_mem_selectedNames howner
    obtain ⟨c, hc⟩ := List.exists_mem_of_ne_nil owner hne
    have hmem : c ∈ [newline] := by
      rw [htake, hnewline] at hc
      exact List.mem_of_mem_take hc
    rw [List.mem_singleton.mp hmem] at hc
    exact absurd hc hnot

/-! ### The arrays -/

theorem inside_getTerminalNamesWrites {buffer : Bytes} :
    Inside nrArray (getTerminalNamesWrites buffer) ↔
      (strtok [space] buffer).length < nrArray := by
  unfold getTerminalNamesWrites
  rw [(lays_copyAt 0 _).inside_iff (by simp), List.length_append, List.length_map,
    List.length_singleton]
  omega

theorem inside_createTerminalNodeWrites {names : List Bytes} :
    Inside nrMaxChildren (createTerminalNodeWrites names) ↔ names.length < nrMaxChildren := by
  unfold createTerminalNodeWrites
  rw [(lays_copyAt 0 _).inside_iff (by simp), List.length_cons]
  omega

/-- The labels written are the node's own and the names. -/
theorem written_createTerminalNodeWrites {names : List Bytes} {label : Bytes} :
    (∃ i, written (createTerminalNodeWrites names) i = some label) ↔
      label = ascii "@" ∨ label ∈ names := by
  rw [← List.mem_cons, List.mem_iff_getElem?]
  refine exists_congr fun i => ?_
  have hlays : written (createTerminalNodeWrites names) i = _ := lays_copyAt 0 _ i
  rw [hlays, if_pos (Nat.zero_le i), Nat.sub_zero]

/-- The children of a node that is built are the ones written. -/
theorem createTerminalNode_lays {node : TrieNode} (hpath : pathToZoneFile shell domain = .ok path)
    (hprints : PrintsZone shell bash path file)
    (hnode : createTerminalNode shell name domain = .ok node) :
    Lays 0 (node.childrens.map (·.label)) (createTerminalNodeWrites (listedNames file)) := by
  obtain ⟨path', itself, names, nodes, hpath', hitself, hnames, hnodes, rfl⟩ :=
    createTerminalNode_cases hnode
  rw [hpath, Except.ok.injEq] at hpath'
  subst hpath'
  rw [← getTerminalNames_eq hprints.names hnames]
  have hlabels : (itself :: nodes).map (·.label) = ascii "@" :: names := by
    rw [List.map_cons, (createItselfNode_ok hitself).1, createSpecialNodes_labels hnodes]
  show Lays 0 ((itself :: nodes).map (·.label)) _
  rw [hlabels]
  exact lays_copyAt 0 _

/-- Loading is refused, or the names stay in their array and the nodes among the children, and
the owner of every A and MX record is the label of one of these. -/
def LoadsWhole (shell : Shell) (name domain path file : Bytes) : Prop :=
  (∃ text, createTerminalNode shell name domain = .error (.exit text)) ∨
    ∃ buffer, popenLine shell (getTerminalNamesScript ++ path)
        (.exit "Error popen for GET_TERMINAL_NAMES!") .undefined = .ok buffer ∧
      Inside nrArray (getTerminalNamesWrites buffer) ∧
      Inside nrMaxChildren (createTerminalNodeWrites (strtok [space] buffer)) ∧
      ∀ line ∈ linesOf file, ∀ owner, AddressOwner line owner →
        ∃ i, written (createTerminalNodeWrites (strtok [space] buffer)) i = some owner

/-- What is read of the names' line is enough exactly where the owners fit. -/
theorem ownersFit_iff (file : Bytes) :
    OwnersFit file ↔ (listedNames file).length < nrArray ∧
      ∀ line ∈ linesOf file, ∀ owner, AddressOwner line owner →
        owner = ascii "@" ∨ owner ∈ listedNames file := by
  have hwhole : (∀ line ∈ linesOf file, ∀ owner, AddressOwner line owner →
        owner = ascii "@" ∨ owner ∈ listedNames file) ↔
      ∀ line ∈ linesOf file, ∀ owner, AddressOwner line owner → owner = ascii "@" ∨
        ∃ j u, (selectedNames file)[j]? = some u ∧
          partStart (selectedNames file) j < namesRoom file ∧
          owner = u.take (namesRoom file - partStart (selectedNames file) j) :=
    forall₂_congr fun line hline => forall₂_congr fun owner howner =>
      or_congr_right (mem_listedNames_iff (howner.mem_selectedNames hline))
  rw [length_listedNames_lt_iff, hwhole]
  exact ⟨fun h => ⟨h.count, h.whole⟩, fun h => ⟨h.1, h.2⟩⟩

/--
**A zone of any size is loaded whole and in bounds exactly where it is refused for its header or
its owners fit**: a number of the SOA record or a name server is missing; or no more than nine
words, the newline counted, begin in the 127 bytes that are read of the names' line, and the owner
of each A and MX record is what these bytes hold of one of the names, or is the zone itself.
-/
theorem zone_loads_whole_iff (shell : Shell) (bash : Bash) (name domain path file : Bytes)
    (hpath : pathToZoneFile shell domain = .ok path)
    (hprints : PrintsZone shell bash path file) :
    LoadsWhole shell name domain path file ↔ Incomplete bash file ∨ OwnersFit file := by
  unfold LoadsWhole
  rw [← createTerminalNode_refuses_iff hpath hprints, ownersFit_iff]
  refine or_congr_right ?_
  rw [popenLine_names hprints]
  simp only [Except.ok.injEq, exists_eq_left']
  rw [inside_getTerminalNamesWrites, inside_createTerminalNodeWrites]
  simp only [written_createTerminalNodeWrites]
  refine and_congr_right fun hcount => ?_
  refine and_iff_right ?_
  have hlisted : (listedNames file).length < nrArray := hcount
  exact Nat.lt_trans hlisted (by decide)

/-! ### Owners that fit the line -/

/-- At most eight names that take up the room of the line and no more. -/
theorem ownersFit_of_room (hcount : (selectedNames file).length < nrArray - 1)
    (hroom : partStart (selectedNames file) (selectedNames file).length ≤ namesRoom file + 1) :
    OwnersFit file := by
  refine ⟨Or.inl hcount, fun line hline owner haddress => Or.inr ?_⟩
  have howner := haddress.mem_selectedNames hline
  obtain ⟨j, hj⟩ := List.mem_iff_getElem?.mp howner
  have hlength : j + 1 ≤ (selectedNames file).length := (List.getElem?_eq_some_iff.mp hj).1
  have hend := partStart_mono (selectedNames file) hlength
  rw [partStart_succ hj] at hend
  have hpos : 0 < owner.length := List.length_pos_of_ne_nil (of_mem_selectedNames howner).1
  exact ⟨j, owner, hj, by omega, (List.take_of_length_le (by omega)).symm⟩

/-! ### A zone of nine records -/

/-- The scripts over one zone, `example.com`, with this file, its header included. -/
def soaShell (file : Bytes) : Shell := fun command =>
  if getMetadataFromSoa.isPrefixOf command then
    some (getMetadataFromSoaSh file
      (command.drop (getMetadataFromSoa ++ ascii "BINDzones/example.com ").length))
  else if getNsDomains.isPrefixOf command then
    some (getNsDomainsSh plainBash file
      (command.drop (getNsDomains ++ ascii "BINDzones/example.com ").length))
  else zoneShell file command

theorem soaShell_path (file : Bytes) :
    pathToZoneFile (soaShell file) (ascii "example.com") = .ok (ascii "BINDzones/example.com") :=
  rfl

theorem soaShell_printsZone (file : Bytes) :
    PrintsZone (soaShell file) plainBash (ascii "BINDzones/example.com") file := by
  have hfield : ∀ script field : Bytes,
      (script ++ ascii "BINDzones/example.com" ++ (ascii " " ++ field)).drop
        (script ++ ascii "BINDzones/example.com ").length = field := by
    intro script field
    rw [show script ++ ascii "BINDzones/example.com" ++ (ascii " " ++ field)
      = (script ++ ascii "BINDzones/example.com ") ++ field by
        rw [List.append_assoc, List.append_assoc]
        rfl]
    exact List.drop_left
  have hfront : ∀ script rest : Bytes, script.isPrefixOf (script ++ rest) = true :=
    fun script rest => List.isPrefixOf_iff_prefix.mpr (List.prefix_append script rest)
  refine ⟨fun field _ => ?_, fun nsRecord _ => ?_, ?_⟩
  · unfold soaShell
    rw [hfield, List.append_assoc, if_pos (hfront _ _)]
  · have hother : getMetadataFromSoa.isPrefixOf
        (getNsDomains ++ ascii "BINDzones/example.com" ++ (ascii " " ++ nsRecord)) = false := rfl
    unfold soaShell
    rw [hother, if_neg Bool.false_ne_true, hfield, List.append_assoc, if_pos (hfront _ _)]
  · unfold soaShell
    rw [if_neg (by decide), if_neg (by decide)]
    exact zoneShell_names file

/-- The header has every number, and a name server is always printed. -/
theorem zoneFile_complete {lines : List Bytes} (h : ∀ line ∈ lines, newline ∉ line) :
    ¬ Incomplete plainBash (zoneFile lines) := by
  have hfields : ∀ pattern : Bytes → Bool, (∃ line ∈ zoneHeader, pattern line = true) →
      firstFields pattern (zoneFile lines) ≠ [] := by
    intro pattern hline hnone
    obtain ⟨line, hheader, hpattern⟩ := hline
    unfold firstFields at hnone
    rw [linesOf_zoneFile h] at hnone
    have hempty := List.flatMap_eq_nil_iff.mp hnone line
      (List.mem_filter.mpr ⟨List.mem_append_left lines hheader, hpattern⟩)
    simp at hempty
  intro hincomplete
  rcases hincomplete with ⟨field, hfield, hnone⟩ | ⟨nsRecord, -, hnone⟩
  · unfold soaFields at hfield
    simp only [List.mem_cons, List.not_mem_nil, or_false] at hfield
    unfold getMetadataFromSoaSh at hnone
    rcases hfield with rfl | rfl | rfl | rfl | rfl
    · rw [if_pos rfl] at hnone
      exact hfields _ (by decide) hnone
    · rw [if_neg (by decide), if_pos rfl] at hnone
      exact hfields _ (by decide) hnone
    · rw [if_neg (by decide), if_neg (by decide), if_pos rfl] at hnone
      exact hfields _ (by decide) hnone
    · rw [if_neg (by decide), if_neg (by decide), if_neg (by decide), if_pos rfl] at hnone
      exact hfields _ (by decide) hnone
    · rw [if_neg (by decide), if_neg (by decide), if_neg (by decide), if_neg (by decide),
        if_pos rfl] at hnone
      exact hfields _ (by decide) hnone
  · unfold getNsDomainsSh at hnone
    split at hnone
    · simp [getDNSFieldSh, Bash.echoUnquoted, plainBash] at hnone
    · simp [getDNSFieldSh, Bash.echoUnquoted, plainBash] at hnone

theorem hostLines_selected : selectedNames (zoneFile hostLines)
    = [ascii "ns1", ascii "ns2", ascii "www", ascii "mail"] := by
  rw [selectedNames_zoneFile hostLines_whole]
  decide

/-- The zone that is shipped is loaded whole. -/
theorem zone_loads_whole_shipped :
    LoadsWhole (soaShell (zoneFile hostLines)) (ascii "example") (ascii "example.com")
      (ascii "BINDzones/example.com") (zoneFile hostLines) := by
  refine (zone_loads_whole_iff _ plainBash _ _ _ _ (soaShell_path _) (soaShell_printsZone _)).mpr
    (Or.inr (ownersFit_of_room ?_ ?_))
  · rw [hostLines_selected]
    decide
  · unfold namesRoom
    rw [hostLines_selected, hostLines_names]
    decide

/-- Nine hosts. -/
def nineLines : List Bytes :=
  [ascii "a IN A 10.0.0.1", ascii "b IN A 10.0.0.2", ascii "c IN A 10.0.0.3",
    ascii "d IN A 10.0.0.4", ascii "e IN A 10.0.0.5", ascii "f IN A 10.0.0.6",
    ascii "g IN A 10.0.0.7", ascii "h IN A 10.0.0.8", ascii "i IN A 10.0.0.9"]

theorem nineLines_whole : ∀ line ∈ nineLines, newline ∉ line := by decide

theorem nineLines_listed : (listedNames (zoneFile nineLines)).length = 10 := by
  have hselected : selectedNames (zoneFile nineLines)
      = [ascii "a", ascii "b", ascii "c", ascii "d", ascii "e", ascii "f", ascii "g", ascii "h",
        ascii "i"] := by
    rw [selectedNames_zoneFile nineLines_whole]
    decide
  have hprinted : getTerminalNamesSh (zoneFile nineLines) = ascii "a b c d e f g h i \n" := by
    rw [getTerminalNamesSh_eq, hselected]
    rfl
  unfold listedNames
  rw [hprinted]
  decide

/-- With the newline they are ten words, and the null pointer goes behind the array. -/
theorem nine_hosts_overrun :
    ¬ LoadsWhole (soaShell (zoneFile nineLines)) (ascii "example") (ascii "example.com")
      (ascii "BINDzones/example.com") (zoneFile nineLines) := by
  intro h
  rcases h with hrefuses | ⟨buffer, hbuffer, hinside, -, -⟩
  · exact zoneFile_complete nineLines_whole ((createTerminalNode_refuses_iff (soaShell_path _)
      (soaShell_printsZone _)).mp hrefuses)
  · rw [popenLine_names (soaShell_printsZone _), Except.ok.injEq] at hbuffer
    rw [inside_getTerminalNamesWrites, ← hbuffer] at hinside
    have hlisted : (listedNames (zoneFile nineLines)).length < nrArray := hinside
    rw [nineLines_listed] at hlisted
    exact absurd hlisted (by decide)

end DnsServer
