/-
Which command strings fit.

What is put together in a block is its strings one behind the other and one terminator,
so it fits when their lengths and one more are at most the block's size.  Seven of the
builders count every string they copy and leave a few bytes over.  `createTerminalNode`
counts the zone's first label and copies the whole name, so there the name may be a byte
longer than the label and no more, which leaves a label and at most one dot.
-/
import DnsServer.Code.Commands
import DnsServer.Proofs.Names

namespace DnsServer

open Writes

theorem CommandBlock.fits_iff (block : CommandBlock) :
    block.Fits ↔ block.string.length + 1 ≤ block.size :=
  inside_concatAt_iff 0 block.nonempty

/-! ### The commands that are run -/

theorem string_zoneFieldBlock (command pathToZone type : Bytes) :
    (zoneFieldBlock command pathToZone type).string = command ++ pathToZone ++ type := by
  simp [CommandBlock.string, zoneFieldBlock]

theorem string_getTerminalNamesBlock (pathToZone : Bytes) :
    (getTerminalNamesBlock pathToZone).string = getTerminalNamesScript ++ pathToZone := by
  simp [CommandBlock.string, getTerminalNamesBlock]

theorem string_getDNSFieldBlock (command pathToZone nrLineInZone : Bytes) :
    (getDNSFieldBlock command pathToZone nrLineInZone).string
      = command ++ pathToZone ++ nrLineInZone := by
  simp [CommandBlock.string, getDNSFieldBlock]

theorem string_createSpecialNodeBlock (nrLineInZone : Nat) :
    (createSpecialNodeBlock nrLineInZone).string = lineArgument nrLineInZone := by
  simp [CommandBlock.string, createSpecialNodeBlock, lineArgument]

theorem string_createTerminalNodeBlock (name domain : Bytes) :
    (createTerminalNodeBlock name domain).string = getPathToZoneFile ++ domain := by
  simp [CommandBlock.string, createTerminalNodeBlock]

/-- The strings in the blocks are the commands the loader runs. -/
theorem loader_runs_blocks (shell : Shell) (pathToZone type nrLine name domain : Bytes) :
    (getMetadataNumber shell pathToZone type = do
      let buffer ← popenLine shell (getMetadataNumberBlock pathToZone type).string .undefined
        (.exit "Error retriving the metadata number with fgets() for GET_METADATA_FROM_SOA")
      return atoi buffer) ∧
    (getNSDomain shell pathToZone type = do
      let buffer ← popenLine shell (getNSDomainBlock pathToZone type).string
        (.exit "Error creating a pipe with popen() for GET_NS_DOMAINS!")
        (.exit "Error getting the ns domains with fgets()!")
      return cutNewline buffer) ∧
    (getTerminalNames shell pathToZone = do
      let buffer ← popenLine shell (getTerminalNamesBlock pathToZone).string
        (.exit "Error popen for GET_TERMINAL_NAMES!") .undefined
      let names := strtok [space] buffer
      if names.length < nrArray then return names else throw .undefined) ∧
    (∀ nrLineInZone, lineArgument nrLineInZone = (createSpecialNodeBlock nrLineInZone).string) ∧
    (∀ command, getDNSField shell command pathToZone nrLine
      = popenLine shell (getDNSFieldBlock command pathToZone nrLine).string .undefined
        .undefined) ∧
    (pathToZoneFile shell domain = do
      let buffer ← popenLine shell (createTerminalNodeBlock name domain).string .undefined
        .undefined
      return cutNewline buffer) := by
  unfold getMetadataNumberBlock getNSDomainBlock
  simp only [string_zoneFieldBlock, string_getTerminalNamesBlock, string_createSpecialNodeBlock,
    string_getDNSFieldBlock, string_createTerminalNodeBlock]
  exact ⟨rfl, rfl, rfl, fun _ => trivial, fun _ => rfl, rfl⟩

/-! ### Which fit -/

theorem fits_zoneFieldBlock (command pathToZone type : Bytes) :
    (zoneFieldBlock command pathToZone type).Fits := by
  rw [CommandBlock.fits_iff, string_zoneFieldBlock, List.length_append, List.length_append]
  show _ ≤ pathToZone.length + 2 + command.length + 2 + type.length + 1
  omega

theorem fits_getTerminalNamesBlock (pathToZone : Bytes) :
    (getTerminalNamesBlock pathToZone).Fits := by
  rw [CommandBlock.fits_iff, string_getTerminalNamesBlock, List.length_append]
  show _ ≤ pathToZone.length + 2 + getTerminalNamesScript.length + 2
  omega

theorem fits_getDNSFieldBlock (command pathToZone nrLineInZone : Bytes) :
    (getDNSFieldBlock command pathToZone nrLineInZone).Fits := by
  rw [CommandBlock.fits_iff, string_getDNSFieldBlock, List.length_append, List.length_append]
  show _ ≤ command.length + 2 + pathToZone.length + nrLineInZone.length + 1
  omega

theorem length_ascii (s : String) : (ascii s).length = s.length := by
  unfold ascii
  rw [List.length_map, String.length_toList]

/-- Four digits and the terminator. -/
theorem fits_strNumberBlock {nrLineInZone : Nat} :
    (strNumberBlock nrLineInZone).Fits ↔ nrLineInZone ≤ 9999 := by
  rw [CommandBlock.fits_iff]
  show ([ascii (toString nrLineInZone)].flatten).length + 1 ≤ 5 ↔ _
  rw [List.flatten_singleton, length_ascii, Nat.toString_eq_repr]
  have hdigits : nrLineInZone.repr.length ≤ 4 ↔ nrLineInZone < 10 ^ 4 :=
    Nat.length_repr_le_iff (by omega)
  omega

theorem fits_createSpecialNodeBlock (nrLineInZone : Nat) :
    (createSpecialNodeBlock nrLineInZone).Fits := by
  rw [CommandBlock.fits_iff, string_createSpecialNodeBlock]
  unfold lineArgument
  rw [List.length_append]
  show _ ≤ (ascii (toString nrLineInZone)).length + 2 + (ascii " ").length
  omega

theorem fits_createTerminalNodeBlock {name domain : Bytes} :
    (createTerminalNodeBlock name domain).Fits ↔ domain.length ≤ name.length + 1 := by
  rw [CommandBlock.fits_iff, string_createTerminalNodeBlock, List.length_append]
  show _ ≤ getPathToZoneFile.length + 2 + name.length ↔ _
  omega

/-- Each of the eight builders allocates what it puts together, for a zone's name, the path of its
file, a field's name and a line's number. -/
structure CommandsFit (pathToZone type : Bytes) (nrLineInZone : Nat) (name domain : Bytes) :
    Prop where
  metadataNumber : (getMetadataNumberBlock pathToZone type).Fits
  nsDomain : (getNSDomainBlock pathToZone type).Fits
  terminalNames : (getTerminalNamesBlock pathToZone).Fits
  dnsType : (getDNSTypeBlock pathToZone (lineArgument nrLineInZone)).Fits
  dnsValue : (getDNSValueBlock pathToZone (lineArgument nrLineInZone)).Fits
  dnsTtl : (getDNSTtlBlock pathToZone (ascii " 1")).Fits
  strNumber : (strNumberBlock nrLineInZone).Fits
  specialNode : (createSpecialNodeBlock nrLineInZone).Fits
  terminalNode : (createTerminalNodeBlock name domain).Fits

/-- A zone's name that is its first label, alone or with one dot beside it. -/
def OneLabel (name domain : Bytes) : Prop :=
  domain = name ∨ domain = dot :: name ∨ domain = name ++ [dot]

theorem OneLabel.short {name domain : Bytes} (h : OneLabel name domain) :
    domain.length ≤ name.length + 1 := by
  rcases h with rfl | rfl | rfl
  · omega
  · rw [List.length_cons]
  · rw [List.length_append, List.length_singleton]

/-- A name with a second label is longer than its first by two bytes or more. -/
theorem oneLabel_of_short {name domain : Bytes}
    (hname : (extractWordsFromDomain domain).head? = some name)
    (hshort : domain.length ≤ name.length + 1) : OneLabel name domain := by
  obtain ⟨names, hnames⟩ := List.head?_eq_some_iff.mp hname
  obtain ⟨dots, rest, rfl, hdots, -, -, hrest⟩ := Split.tokens_eq_cons hnames
  have hdot : ∀ c, decide (c ∈ [dot]) = true → c = dot := by
    intro c hc
    simpa using hc
  rw [List.length_append, List.length_append] at hshort
  rcases dots with _ | ⟨d, dots⟩
  · rcases hrest with ⟨rfl, -⟩ | ⟨sep, after, rfl, hsep, -⟩
    · exact Or.inl (List.append_nil name)
    · rw [List.length_cons, List.length_nil] at hshort
      have hafter : after = [] := List.eq_nil_of_length_eq_zero (by omega)
      subst hafter
      rw [hdot sep hsep]
      exact Or.inr (Or.inr rfl)
  · rw [List.length_cons] at hshort
    have hnone : dots = [] := List.eq_nil_of_length_eq_zero (by omega)
    have hend : rest = [] := List.eq_nil_of_length_eq_zero (by omega)
    subst hnone hend
    rw [hdot d (hdots d List.mem_cons_self), List.append_nil]
    exact Or.inr (Or.inl rfl)

/--
**Command strings fit exactly where the zone's name is a single label**, alone or with one
dot beside it, for every path of a zone file, every field and every line up to 9999: only
`createTerminalNode` allocates too little, and it does so for every name with two labels.
-/
theorem commands_fit_iff (pathToZone type : Bytes) (nrLineInZone : Nat) (name domain : Bytes)
    (hline : nrLineInZone ≤ 9999)
    (hname : (extractWordsFromDomain domain).head? = some name) :
    CommandsFit pathToZone type nrLineInZone name domain ↔ OneLabel name domain := by
  refine ⟨fun h => oneLabel_of_short hname (fits_createTerminalNodeBlock.mp h.terminalNode), ?_⟩
  intro hone
  exact {
    metadataNumber := fits_zoneFieldBlock _ _ _
    nsDomain := fits_zoneFieldBlock _ _ _
    terminalNames := fits_getTerminalNamesBlock _
    dnsType := fits_getDNSFieldBlock _ _ _
    dnsValue := fits_getDNSFieldBlock _ _ _
    dnsTtl := fits_getDNSFieldBlock _ _ _
    strNumber := fits_strNumberBlock.mpr hline
    specialNode := fits_createSpecialNodeBlock _
    terminalNode := fits_createTerminalNodeBlock.mpr hone.short }

/-- A zone of one label. -/
theorem commands_fit_local :
    CommandsFit (ascii "BINDzones/localhost") (ascii " serial") 11 (ascii "localhost")
        (ascii "localhost") ↔ OneLabel (ascii "localhost") (ascii "localhost") :=
  commands_fit_iff _ _ _ _ _ (by decide) rfl

/-- The command for the zone of `example.com` is three bytes longer than its block. -/
theorem command_overruns_block :
    (extractWordsFromDomain (ascii "example.com")).head? = some (ascii "example") ∧
      ¬ CommandsFit (ascii "BINDzones/example.com") (ascii " serial") 11 (ascii "example")
        (ascii "example.com") := by
  refine ⟨rfl, ?_⟩
  intro h
  have hshort := fits_createTerminalNodeBlock.mp h.terminalNode
  exact absurd hshort (by decide)

end DnsServer
