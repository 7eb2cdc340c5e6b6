/-
Whether the zones are counted as they are named.

One script counts the lines that begin with `zone`, another lists the names it finds in
quotation marks, and the server stores the words of the list's first 127 bytes in an
array of as many places as were counted.  The count is always the number of blocks.  The
words are the blocks' names exactly when these are all that is seen of the list in the room
there is; and each index is one of the root's children when there are no more than 32.
-/
import DnsServer.Code.Arrays
import DnsServer.Proofs.Decimal
import DnsServer.Proofs.SeenNames
import Mathlib.Data.List.Flatten

namespace DnsServer

open Split Writes

variable {shell : Shell} {bash : Bash} {items : List ConfItem} {names : List Bytes}
  {entries : List ListEntry} {unescape : Bytes → Echo.Said}

/-! ### The count -/

theorem comment_notZone (text : CommentLine) : (ascii "zone").isPrefixOf text.line = false := by
  rw [Bool.eq_false_iff]
  intro hfront
  obtain ⟨rest, hrest⟩ := List.isPrefixOf_iff_prefix.mp hfront
  have hhead := text.head
  rw [← hrest] at hhead
  have hmark : some (122 : UInt8) = some 35 ∨ some (122 : UInt8) = some 47 := hhead
  exact absurd hmark (by decide)

/-- One line of each block begins with the word, and no other line does. -/
theorem countP_zone (items : List ConfItem) :
    (confLines items).countP ((ascii "zone").isPrefixOf ·) = (zoneNames items).length := by
  induction items with
  | nil => rfl
  | cons item items ih =>
      have hlines : confLines (item :: items) = item.lines ++ confLines items := rfl
      have hitem : item.lines.countP ((ascii "zone").isPrefixOf ·) = item.blocks.length := by
        cases item with
        | block zone => rfl
        | comment text =>
            show [text.line].countP _ = 0
            rw [List.countP_singleton, comment_notZone, if_neg Bool.false_ne_true]
        | empty => rfl
      unfold zoneNames zoneBlocks at ih ⊢
      rw [hlines, List.countP_append, ih, hitem, List.flatMap_cons, List.map_append,
        List.length_append, List.length_map, List.length_map]

/-- **The count that is printed is the number of blocks.** -/
theorem getNrZonesForRootStartSh_eq (items : List ConfItem) (closed : Bool) :
    getNrZonesForRootStartSh (confText items closed)
      = ascii (toString (zoneNames items).length) ++ [newline] := by
  obtain ⟨items', -, hblocks, hlines⟩ := linesOf_confText items closed
  have hnames : zoneNames items' = zoneNames items := congrArg (List.map ZoneBlock.name) hblocks
  unfold getNrZonesForRootStartSh
  rw [hlines, countP_zone, hnames]

/-- No count is taken for a message. -/
theorem decimal_ne_error (n : Nat) (text : Bytes) :
    ascii (toString n) ++ [newline] ≠ ascii "error" ++ text := by
  intro h
  obtain ⟨c, rest, hcons⟩ := List.exists_cons_of_ne_nil (decimal_ne_nil n)
  rw [hcons] at h
  have hc : c = 101 := (List.cons.inj h).1
  have hdigit : isDigit c = true := isDigit_decimal (n := n) (hcons ▸ List.mem_cons_self)
  rw [hc] at hdigit
  exact absurd hdigit (by decide)

/-- A count of two digits is read whole. -/
theorem fgets_decimal {n : Nat} (hn : n ≤ nrMaxChildren) :
    fgets lineBufferSize (ascii (toString n) ++ [newline])
      = some (ascii (toString n) ++ [newline]) := by
  have hnewline : newline ∉ ascii (toString n) := fun hmem =>
    absurd (isDigit_decimal hmem) (by decide)
  have hlength : (ascii (toString n)).length ≤ 2 := by
    unfold nrMaxChildren at hn
    exact (length_decimal_le_iff (by decide)).mpr (by omega)
  have hwhole : (ascii (toString n) ++ [newline]).take (lineBufferSize - 1)
      = ascii (toString n) ++ [newline] := by
    refine List.take_of_length_le ?_
    rw [List.length_append, List.length_singleton]
    unfold lineBufferSize
    omega
  rw [fgets_line _ hnewline, hwhole, cstr_self (noNul_line (noNul_decimal n))]

/-! ### The words -/

/-- A list that fits the line is read whole. -/
theorem wordsRead_joined {pieces : List Bytes} (hnewline : ∀ piece ∈ pieces, newline ∉ piece)
    (hnul : ∀ piece ∈ pieces, 0 ∉ piece) (hfit : NamesFit pieces) :
    wordsRead ([space].intercalate pieces ++ [newline]) = some (pieces.flatMap wordsOf) := by
  have hlack : ∀ c, c ∉ [space] → (∀ piece ∈ pieces, c ∉ piece) →
      c ∉ [space].intercalate pieces := by
    intro c hspace hpieces hmem
    rcases mem_intercalate hmem with hsep | ⟨piece, hpiece, hin⟩
    · exact hspace hsep
    · exact hpieces piece hpiece hin
  have hwords : wordsOf ([space].intercalate pieces) = pieces.flatMap wordsOf :=
    tokens_intercalate (by decide) pieces
  -- the newline may be left out, but is no word either way
  have hline : ∀ room, wordsOf ([space].intercalate pieces ++ [newline].take room)
      = pieces.flatMap wordsOf := by
    intro room
    cases room with
    | zero => rw [List.take_zero, List.append_nil, hwords]
    | succ room =>
        have hend : wordsOf ([space].intercalate pieces ++ [newline])
            = wordsOf ([space].intercalate pieces) ++ wordsOf [] :=
          tokens_append_sep (by decide) _ _
        have hnil : wordsOf [] = [] := tokens_nil
        rw [List.take_succ_cons, List.take_nil, hend, hwords, hnil, List.append_nil]
  have htake : ([space].intercalate pieces ++ [newline]).take (lineBufferSize - 1)
      = [space].intercalate pieces ++
        [newline].take (lineBufferSize - 1 - ([space].intercalate pieces).length) := by
    rw [List.take_append, List.take_of_length_le (by unfold NamesFit at hfit; omega)]
  have hkept : 0 ∉ ([space].intercalate pieces ++ [newline]).take (lineBufferSize - 1) :=
    fun hmem => noNul_line (hlack 0 (by decide) hnul) (List.mem_of_mem_take hmem)
  unfold wordsRead
  rw [fgets_line _ (hlack newline (by decide) hnewline), cstr_self hkept, Option.map_some,
    strtok_eq_tokens, htake]
  exact congrArg some (hline _)

/-- Words that fit are all read, where the first one is no option. -/
theorem wordsRead_echoed {pieces : List Bytes}
    (hfirst : ∀ piece ∈ pieces.head?, piece.head? ≠ some 45)
    (hnewline : ∀ piece ∈ pieces, newline ∉ piece) (hnul : ∀ piece ∈ pieces, 0 ∉ piece)
    (hfit : NamesFit pieces) :
    wordsRead (Echo.echoed unescape pieces) = some (pieces.flatMap wordsOf) := by
  rw [Echo.echoed_words fun piece hpiece => Echo.isOption_of_head (hfirst piece hpiece)]
  exact wordsRead_joined hnewline hnul hfit

theorem wordsRead_names (hnames : ∀ name ∈ names, ZoneName name) (hfit : NamesFit names) :
    wordsRead (Echo.echoed unescape names) = some names := by
  have hwords : names.flatMap wordsOf = names := by
    rw [List.flatMap_congr fun name hname => wordsOf_name (hnames name hname)]
    exact List.flatMap_singleton' names
  rw [wordsRead_echoed (fun name hname => (hnames name (List.mem_of_head? hname)).noOption)
    (fun name hname => (hnames name hname).not_mem (by decide))
    (fun name hname => (hnames name hname).not_mem (by decide)) hfit, hwords]

theorem fgets_length {size : Nat} {stream buffer : Bytes} (h : fgets size stream = some buffer) :
    buffer.length ≤ size - 1 := by
  unfold fgets at h
  split at h
  · exact absurd h (by simp)
  · rw [← Option.some.inj h]
    exact (List.takeWhile_prefix _).length_le.trans (List.length_take_le _ _)

/-- Names that are read have fitted. -/
theorem namesFit_of_read {stream : Bytes} (h : wordsRead stream = some names) : NamesFit names := by
  obtain ⟨buffer, hbuffer, hwords⟩ := Option.map_eq_some_iff.mp h
  rw [strtok_eq_tokens] at hwords
  have hroom := partStart_tokens_le (fun c => decide (c ∈ [space, newline])) buffer
  have hlength := fgets_length hbuffer
  rw [hwords] at hroom
  unfold NamesFit
  by_cases hne : names = []
  · rw [hne]
    decide
  · rw [partStart_intercalate space hne] at hroom
    unfold lineBufferSize at hlength ⊢
    omega

/-! ### Starting up -/

/-- The zones are counted as they are named, and stored where they are counted. -/
structure StartsInStep (shell : Shell) (names : List Bytes) : Prop where
  root : ∃ root, createTrieROOT shell = .ok (root, names.length)
  branches : getNrBranches shell = .ok names.length
  domains : getArrayOfDomainNames shell = .ok names
  /-- What is written into `domains`, and where. -/
  stored : ∃ stream buffer, shell getArrayOfDomains = some stream ∧
    fgets lineBufferSize stream = some buffer ∧
    ∀ i, written (getArrayOfDomainNamesWrites buffer) i = names[i]?
  children : ∀ i ∈ rootIndices names.length, i < nrMaxChildren

theorem StartsInStep.few (h : StartsInStep shell names) : names.length ≤ nrMaxChildren := by
  by_contra hmany
  have hlast := h.children nrMaxChildren
    (List.mem_range.mpr (by rw [Int.toNat_natCast]; omega))
  exact absurd hlast (Nat.lt_irrefl _)

/-- The count is one an `int` holds. -/
theorem atoi_count (hfew : names.length ≤ nrMaxChildren) :
    atoi (ascii (toString names.length) ++ [newline]) = names.length := by
  refine atoi_decimal (Nat.lt_of_le_of_lt hfew ?_)
  decide

section Counted

variable (hcount : shell getNrZonesForRootStart = some (ascii (toString names.length) ++ [newline]))
  (hfew : names.length ≤ nrMaxChildren)

include hcount hfew

theorem popenLine_count (nullPipe noLine : LoadFault) :
    popenLine shell getNrZonesForRootStart nullPipe noLine
      = .ok (ascii (toString names.length) ++ [newline]) :=
  popenLine_ok_iff.mpr ⟨_, hcount, fgets_decimal hfew⟩

theorem createTrieROOT_count : ∃ root, createTrieROOT shell = .ok (root, names.length) := by
  unfold createTrieROOT
  rw [popenLine_count hcount hfew, ← atoi_count hfew]
  show ∃ root, (if _ = ascii "error" ++ [newline] then _ else _) = _
  rw [if_neg (decimal_ne_error _ _)]
  exact ⟨_, rfl⟩

theorem getNrBranches_count : getNrBranches shell = .ok names.length := by
  have herror := decimal_ne_error names.length []
  rw [List.append_nil] at herror
  unfold getNrBranches
  rw [popenLine_count hcount hfew, ← atoi_count hfew]
  show (if _ = ascii "error" then _ else _) = _
  rw [if_neg herror]
  rfl

/-- The names are stored where they are the words that are read. -/
theorem getArrayOfDomainNames_iff {stream : Bytes}
    (hstream : shell getArrayOfDomains = some stream) :
    getArrayOfDomainNames shell = .ok names ↔ wordsRead stream = some names := by
  have herror := decimal_ne_error names.length []
  rw [List.append_nil] at herror
  unfold getArrayOfDomainNames
  rw [popenLine_count hcount hfew]
  show (if _ = ascii "error" then _ else _) = _ ↔ _
  rw [if_neg herror, load_bind_eq_ok]
  unfold wordsRead
  rw [Option.map_eq_some_iff]
  refine exists_congr fun buffer => ?_
  rw [popenLine_ok_iff, hstream]
  simp only [Option.some.injEq, exists_eq_left']
  refine and_congr_right fun _ => ?_
  rw [atoi_count hfew, Int.toNat_natCast]
  constructor
  · intro h
    split at h
    · exact Except.ok.inj h
    · exact absurd h load_throw_ne_ok
  · intro h
    rw [h, if_pos rfl]
    rfl

end Counted

/-- **Starting up is in step exactly where the words read are the names, and there are no more
than the root has children.** -/
theorem startsInStep_iff {stream : Bytes}
    (hcount : shell getNrZonesForRootStart = some (ascii (toString names.length) ++ [newline]))
    (hstream : shell getArrayOfDomains = some stream) :
    StartsInStep shell names ↔
      names.length ≤ nrMaxChildren ∧ wordsRead stream = some names := by
  constructor
  · intro h
    exact ⟨h.few, (getArrayOfDomainNames_iff hcount h.few hstream).mp h.domains⟩
  · intro h
    obtain ⟨hfew, hwords⟩ := h
    obtain ⟨buffer, hbuffer, htokens⟩ := Option.map_eq_some_iff.mp hwords
    refine ⟨createTrieROOT_count hcount hfew, getNrBranches_count hcount hfew,
      (getArrayOfDomainNames_iff hcount hfew hstream).mpr hwords,
      ⟨stream, buffer, hstream, hbuffer, fun i => ?_⟩, fun i hi => ?_⟩
    · have hlays : written (getArrayOfDomainNamesWrites buffer) i = _ := lays_copyAt 0 _ i
      rw [hlays, if_pos (Nat.zero_le i), Nat.sub_zero, htokens]
    · have hlt : i < (names.length : Int).toNat := List.mem_range.mp hi
      rw [Int.toNat_natCast] at hlt
      omega

/-- Then only the zones themselves can stop the loading. -/
theorem StartsInStep.loads (h : StartsInStep shell names) {branches : List TrieNode}
    (hbranches : List.Forall₂ (fun z branch => createBranch shell z = .ok branch) names branches) :
    ∃ root, buildTrie shell = .ok root ∧ root.childrens = branches := by
  have hlength : names.length = branches.length := hbranches.length_eq
  have hroom : 0 + branches.length ≤ nrMaxChildren := by
    rw [Nat.zero_add, ← hlength]
    exact h.few
  obtain ⟨root, hroot⟩ := h.root
  have hcreated := createBranches_all (i := 0) hbranches hroom
  refine ⟨{ root with childrens := branches }, ?_, rfl⟩
  unfold buildTrie
  rw [hroot]
  show (getArrayOfDomainNames shell >>= _) = _
  rw [h.domains]
  show (getNrBranches shell >>= _) = _
  rw [h.branches]
  show (createBranches shell names (names.length : Int).toNat 0 >>= _) = _
  rw [Int.toNat_natCast, hlength, hcreated]
  show (if (branches.length : Int).toNat ≤ branches.length then _ else _) = _
  rw [Int.toNat_natCast, if_pos (Nat.le_refl _), List.take_length]
  rfl

/-! ### Comments -/

/-- Without comments that name zones the list is the names. -/
theorem listEntries_quiet (hquiet : QuietComments items) (closed : Bool) :
    listEntries items closed = (zoneNames items).map .block := by
  unfold listEntries
  cases closed with
  | true => rw [if_pos rfl, heard_quiet hquiet]
  | false =>
      rw [if_neg Bool.false_ne_true]
      rcases List.eq_nil_or_concat' items with rfl | ⟨front, item, rfl⟩
      · rfl
      · have hfront : QuietComments front := fun text htext =>
          hquiet text (List.mem_append_left _ htext)
        rw [List.dropLast_concat, List.getLast?_concat, heard_quiet hfront]
        unfold zoneNames
        simp only [zoneBlocks_append, List.map_append]
        rfl

/-- These are heard where they fit the line. -/
theorem namesHeard_iff_of_quiet (hplain : ∀ text, 92 ∉ text → unescape text = (text, false))
    (hquiet : QuietComments items) (closed : Bool) :
    NamesHeard unescape (listEntries items closed) ↔ NamesFit (zoneNames items) := by
  have hnames := listEntries_names items closed
  have hwords : entryWords (listEntries items closed) = zoneNames items := by
    rw [listEntries_quiet hquiet]
    unfold entryWords
    rw [List.map_map]
    exact List.map_id _
  rw [← wordsRead_iff hplain fun name hname => zoneNames_name (hnames ▸ hname), hwords, hnames]
  exact ⟨namesFit_of_read, wordsRead_names fun _ => zoneNames_name⟩

/-- The words of the list are the names and those of the comments. -/
theorem entryNames_sublist (hnames : ∀ name ∈ entryNames entries, ZoneName name) :
    (entryNames entries).Sublist ((entryWords entries).flatMap wordsOf) := by
  induction entries with
  | nil => exact List.Sublist.refl _
  | cons entry entries ih =>
      have hrest := ih fun name hname => hnames name (List.mem_append_right _ hname)
      unfold entryNames entryWords at hrest ⊢
      rw [List.flatMap_cons, List.map_cons, List.flatMap_cons]
      refine List.Sublist.append ?_ hrest
      cases entry with
      | block name =>
          show [name].Sublist (wordsOf name)
          rw [wordsOf_name (hnames name List.mem_cons_self)]
      | comment text => exact List.nil_sublist _

/-- They are the names alone where the comments add none. -/
theorem words_eq_entryNames_iff (hnames : ∀ name ∈ entryNames entries, ZoneName name) :
    (entryWords entries).flatMap wordsOf = entryNames entries ↔
      ∀ text, ListEntry.comment text ∈ entries → wordsOf text = [] := by
  induction entries with
  | nil => exact iff_of_true rfl fun _ htext => absurd htext List.not_mem_nil
  | cons entry entries ih =>
      have hrest : ∀ name ∈ entryNames entries, ZoneName name := fun name hname =>
        hnames name (List.mem_append_right _ hname)
      have hwords : (entryWords (entry :: entries)).flatMap wordsOf
          = wordsOf entry.word ++ (entryWords entries).flatMap wordsOf := List.flatMap_cons
      have hentries : entryNames (entry :: entries) = entry.names ++ entryNames entries :=
        List.flatMap_cons
      rw [hwords, hentries]
      cases entry with
      | block name =>
          have hname : wordsOf (ListEntry.block name).word = (ListEntry.block name).names :=
            wordsOf_name (hnames name List.mem_cons_self)
          rw [hname, List.append_cancel_left_eq, ih hrest]
          simp
      | comment text =>
          show wordsOf text ++ _ = [] ++ _ ↔ _
          rw [List.nil_append]
          constructor
          · intro h
            have hlength := congrArg List.length h
            have hmore := (entryNames_sublist hrest).length_le
            rw [List.length_append] at hlength
            have hnone : wordsOf text = [] := List.length_eq_zero_iff.mp (by omega)
            rw [hnone, List.nil_append] at h
            intro text' htext'
            rcases List.mem_cons.mp htext' with heq | htext'
            · rw [ListEntry.comment.inj heq]
              exact hnone
            · exact (ih hrest).mp h text' htext'
          · intro h
            rw [h text List.mem_cons_self, List.nil_append]
            exact (ih hrest).mpr fun text' htext' => h text' (List.mem_cons_of_mem _ htext')

/-- Where the whole list fits the line, and is one line, the names alone are heard exactly when
there is nothing but blanks in the texts. -/
theorem namesHeard_iff_of_room (hplain : ∀ text, 92 ∉ text → unescape text = (text, false))
    (hnames : ∀ name ∈ entryNames entries, ZoneName name)
    (hfirst : ∀ word ∈ (entryWords entries).head?, word.head? ≠ some 45)
    (hline : ∀ text, ListEntry.comment text ∈ entries → newline ∉ text ∧ 0 ∉ text)
    (hroom : NamesFit (entryWords entries)) :
    NamesHeard unescape entries ↔
      ∀ text, ListEntry.comment text ∈ entries → ∀ c ∈ text, c = space := by
  have hwhole : ∀ word ∈ entryWords entries, newline ∉ word ∧ 0 ∉ word := by
    intro word hword
    obtain ⟨entry, hentry, rfl⟩ := List.mem_map.mp hword
    cases entry with
    | block name =>
        have hname := hnames name (List.mem_flatMap_of_mem hentry List.mem_cons_self)
        exact ⟨hname.not_mem (by decide), hname.not_mem (by decide)⟩
    | comment text => exact hline text hentry
  have hblank : ∀ text, ListEntry.comment text ∈ entries →
      (wordsOf text = [] ↔ ∀ c ∈ text, c = space) := by
    intro text htext
    constructor
    · intro h c hc
      by_contra hne
      have hgap : isGap c = false := decide_eq_false fun hgap => by
        rcases List.mem_cons.mp hgap with rfl | hgap
        · exact hne rfl
        · exact (hline text htext).1 (List.mem_singleton.mp hgap ▸ hc)
      obtain ⟨word, hword, -⟩ := mem_token_of_mem hc hgap
      have hmem : word ∈ wordsOf text := hword
      rw [h] at hmem
      exact absurd hmem List.not_mem_nil
    · intro h
      exact tokens_of_seps fun c hc => by rw [h c hc]; decide
  rw [← wordsRead_iff hplain hnames,
    wordsRead_echoed hfirst (fun word hword => (hwhole word hword).1)
    (fun word hword => (hwhole word hword).2) hroom, Option.some.injEq,
    words_eq_entryNames_iff hnames]
  exact forall_congr' fun text => forall_congr' fun htext => hblank text htext

/-! ### The whole file -/

/--
**The zones are counted as they are named exactly when there are no more than 32 blocks and of the
list that is printed their names alone are heard.**  Where no comment has `zone "…"` in it, they
are heard when they fit the line with a blank between them.
-/
theorem starts_in_step_iff (shell : Shell) (bash : Bash) (unescape : Bytes → Echo.Said)
    (items : List ConfItem) (closed : Bool) (hecho : EchoesAs bash unescape)
    (hcount : shell getNrZonesForRootStart
      = some (getNrZonesForRootStartSh (confText items closed)))
    (hnames : shell getArrayOfDomains = some (getArrayOfDomainsSh bash (confText items closed))) :
    (StartsInStep shell (zoneNames items) ↔ (zoneNames items).length ≤ nrMaxChildren ∧
      NamesHeard unescape (listEntries items closed)) ∧
    (QuietComments items →
      (NamesHeard unescape (listEntries items closed) ↔ NamesFit (zoneNames items))) := by
  have hentries := listEntries_names items closed
  rw [getNrZonesForRootStartSh_eq] at hcount
  rw [getArrayOfDomainsSh_eq hecho, hecho.echo] at hnames
  refine ⟨(startsInStep_iff hcount hnames).trans (and_congr_right fun _ => ?_),
    fun hquiet => namesHeard_iff_of_quiet hecho.plain hquiet closed⟩
  rw [← wordsRead_iff hecho.plain fun name hname => zoneNames_name (hentries ▸ hname), hentries]

theorem optionBash_echoesAs : EchoesAs optionBash Echo.asIs := ⟨fun _ _ => rfl, fun _ => rfl⟩

theorem confShell_count (conf : Bytes) :
    confShell conf getNrZonesForRootStart = some (getNrZonesForRootStartSh conf) := rfl

theorem confShell_names (conf : Bytes) :
    confShell conf getArrayOfDomains = some (getArrayOfDomainsSh optionBash conf) := rfl

/-- Two zones under comments: one that `echo` takes for an option, one with blanks for a name. -/
def optionItems : List ConfItem :=
  [.comment ⟨ascii "# zone \"-nE\" \x7b of old", by decide, by decide, by decide⟩,
    .block exampleZone, .comment ⟨ascii "// zone \"  \"", by decide, by decide, by decide⟩,
    .block (.shipped (ascii "next.org") (.of_bytes (by decide) rfl (by decide)))]

/-- The four zones that are shipped are counted and named, and so are the two. -/
theorem starts_in_step_shipped :
    StartsInStep (confShell (confText shippedItems false))
        [ascii "example.com", ascii "mydomain.org", ascii "google.ro", ascii "youtube.gov"] ∧
      StartsInStep (confShell (confText optionItems true))
        [ascii "example.com", ascii "next.org"] := by
  constructor
  · obtain ⟨hiff, hheard⟩ := starts_in_step_iff _ optionBash Echo.asIs shippedItems false
      optionBash_echoesAs (confShell_count _) (confShell_names _)
    refine hiff.mpr ⟨by decide, (hheard fun text htext hnames => ?_).mpr ?_⟩
    · obtain ⟨body, -, -, hwithin⟩ := hnames
      rw [shippedItems_comment htext] at hwithin
      exact zoneText_noQuote (by decide) body hwithin
    · show List.length _ < lineBufferSize
      decide
  · obtain ⟨hiff, -⟩ := starts_in_step_iff _ optionBash Echo.asIs optionItems true
      optionBash_echoesAs (confShell_count _) (confShell_names _)
    exact hiff.mpr ⟨by decide, by decide +kernel⟩

/-- A zone, and above it a comment about another that is gone. -/
def goneItems : List ConfItem :=
  [.comment ⟨ascii "# zone \"old.org\" is gone", by decide, by decide, by decide⟩,
    .block exampleZone]

/-- One zone is counted and two names are stored, the second behind the end of the array. -/
theorem comment_counted_apart :
    zoneNames goneItems = [ascii "example.com"] ∧
      getNrBranches (confShell (confText goneItems true)) = .ok 1 ∧
      (∃ buffer, popenLine (confShell (confText goneItems true)) getArrayOfDomains .undefined
          .undefined = .ok buffer ∧
        written (getArrayOfDomainNamesWrites buffer) 1 = some (ascii "example.com")) ∧
      ¬ StartsInStep (confShell (confText goneItems true)) (zoneNames goneItems) := by
  refine ⟨rfl, rfl, ⟨ascii "old.org example.com\n", rfl, rfl⟩, fun h => ?_⟩
  have hdomains : getArrayOfDomainNames (confShell (confText goneItems true))
      = .error .undefined := rfl
  exact absurd (hdomains.symm.trans h.domains) (by simp)

end DnsServer
