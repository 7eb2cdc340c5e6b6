/-
What is seen of the list of names.

The server reads 127 bytes of the list's first line and takes the words in them.  Going
along the entries with the room that is left says when these words are the names: a name
in front is the first word if it is there whole, blanks are no word, and any other text is
the first word itself, so that what follows must be the names from there on.
-/
import DnsServer.Proofs.HeardNames

namespace DnsServer

open Split

variable {items : List ConfItem} {names : List Bytes} {entries : List ListEntry}
  {said unescape : Bytes → Echo.Said} {text : Bytes} {room : Nat}

/-! ### Words -/

/-- The words `getArrayOfDomainNames` takes from a text. -/
def wordsOf (text : Bytes) : List Bytes := tokens isGap text

theorem not_isGap_name {name : Bytes} (h : ZoneName name) : ∀ c ∈ name, isGap c = false := by
  refine fun c hc => decide_eq_false fun hgap => ?_
  have hbyte := h.bytes c hc
  rcases List.mem_cons.mp hgap with rfl | hgap
  · exact absurd hbyte (by decide)
  · rw [List.mem_singleton.mp hgap] at hbyte
    exact absurd hbyte (by decide)

theorem wordsOf_name {name : Bytes} (h : ZoneName name) : wordsOf name = [name] :=
  tokens_single h.nonempty (not_isGap_name h)

theorem zoneNames_name {name : Bytes} (h : name ∈ zoneNames items) : ZoneName name := by
  obtain ⟨block, -, rfl⟩ := List.mem_map.mp h
  exact block.zoneName

/-- What begins with a blank, if it has anything. -/
def StartsBlank (text : Bytes) : Prop := ∀ c ∈ text.head?, c = space

theorem StartsBlank.take (h : StartsBlank text) (n : Nat) : StartsBlank (text.take n) := by
  intro c hc
  cases n with
  | zero => exact absurd hc (by simp)
  | succ n =>
      cases text with
      | nil => exact absurd hc (by simp)
      | cons d text => exact h c hc

theorem wordsOf_name_append {name : Bytes} (h : ZoneName name) (htext : StartsBlank text) :
    wordsOf (name ++ text) = name :: wordsOf text := by
  cases text with
  | nil =>
      rw [List.append_nil, wordsOf_name h]
      exact congrArg _ tokens_nil.symm
  | cons c text =>
      have hc : isGap c = true := by
        rw [htext c rfl]
        decide
      have hnone : wordsOf [] = [] := tokens_nil
      have hrest : wordsOf ([] ++ c :: text) = wordsOf [] ++ wordsOf text :=
        tokens_append_sep hc [] text
      have hwords : wordsOf (name ++ c :: text) = wordsOf name ++ wordsOf text :=
        tokens_append_sep hc name text
      rw [hnone] at hrest
      rw [hwords, wordsOf_name h]
      exact congrArg (name :: ·) hrest.symm

/-! ### The line that is read -/

/-- The words in the part of the list that is read. -/
def wordsRead (output : Bytes) : Option (List Bytes) :=
  (fgets lineBufferSize output).map (strtok [space, newline])

/-- A newline at the end, or none, is no word. -/
theorem wordsOf_newline (text : Bytes) (n : Nat) :
    wordsOf (cstr ((text ++ [newline]).take n)) = wordsOf (cstr (text.take n)) := by
  rw [List.take_append]
  rcases Nat.eq_zero_or_pos (n - text.length) with hn | hn
  · rw [hn, List.take_zero, List.append_nil]
  rw [List.take_of_length_le (l := [newline]) (by rw [List.length_singleton]; exact hn)]
  by_cases hnul : 0 ∈ text.take n
  · obtain ⟨front, back, htext, hfront⟩ := List.eq_append_cons_of_mem hnul
    unfold cstr
    rw [htext, List.append_assoc, List.cons_append, takeWhile_ne_piece hfront,
      takeWhile_ne_piece hfront]
  · have hwhole : 0 ∉ text.take n ++ [newline] := noNul_line hnul
    have hend : wordsOf (text.take n ++ [newline]) = wordsOf (text.take n) ++ wordsOf [] :=
      tokens_append_sep (by decide) _ _
    have hnil : wordsOf [] = [] := tokens_nil
    rw [cstr_self hwhole, cstr_self hnul, hend, hnil, List.append_nil]

theorem wordsRead_eq {output : Bytes} (hne : output ≠ []) :
    wordsRead output
      = some (wordsOf ((output.takeWhile (!endsLine ·)).take (lineBufferSize - 1))) := by
  have hline : cstr ((output.takeWhile (· ≠ newline)).take (lineBufferSize - 1))
      = (output.takeWhile (!endsLine ·)).take (lineBufferSize - 1) := by
    unfold cstr
    rw [← List.take_takeWhile, List.takeWhile_takeWhile]
    refine congrArg (List.take _) (congrArg (List.takeWhile · output) (funext fun c => ?_))
    unfold endsLine
    rw [Bool.eq_iff_iff]
    simp [and_comm]
  have hbuffer : ∃ buffer, fgets lineBufferSize output = some buffer ∧
      wordsOf buffer
        = wordsOf (cstr ((output.takeWhile (· ≠ newline)).take (lineBufferSize - 1))) := by
    unfold fgets
    rw [if_neg hne]
    dsimp only
    split
    · exact ⟨_, rfl, wordsOf_newline _ _⟩
    · exact ⟨_, rfl, rfl⟩
  obtain ⟨buffer, hbuffer, hwords⟩ := hbuffer
  unfold wordsRead
  rw [hbuffer, Option.map_some, strtok_eq_tokens, ← hline, ← hwords]
  rfl

/-! ### Along the entries -/

/-- The line put together from these entries. -/
def lineFrom (said : Bytes → Echo.Said) (entries : List ListEntry) : Bytes :=
  (Echo.joined (lineOf said) (entryWords entries)).1

/-- What stands in the line behind an entry. -/
def behind (said : Bytes → Echo.Said) : List ListEntry → Bytes
  | [] => []
  | entry :: entries => space :: lineFrom said (entry :: entries)

theorem startsBlank_behind (said : Bytes → Echo.Said) (entries : List ListEntry) :
    StartsBlank (behind said entries) := by
  cases entries with
  | nil => exact fun c hc => absurd hc (by simp [behind])
  | cons entry entries => exact fun c hc => (Option.some.inj hc).symm

theorem lineFrom_cons (said : Bytes → Echo.Said) (entry : ListEntry) (entries : List ListEntry) :
    lineFrom said (entry :: entries) =
      if (lineOf said entry.word).2 then (lineOf said entry.word).1
      else (lineOf said entry.word).1 ++ behind said entries := by
  cases entries with
  | nil =>
      show (lineOf said entry.word).1 = _
      split
      · rfl
      · exact (List.append_nil _).symm
  | cons next entries =>
      show (if (lineOf said entry.word).2 then lineOf said entry.word else _ : Echo.Said).1 = _
      split
      · rfl
      · rfl

/-- The blank in between is room that is gone. -/
theorem wordsOf_behind (said : Bytes → Echo.Said) (entries : List ListEntry) (room : Nat) :
    wordsOf ((behind said entries).take room)
      = wordsOf ((lineFrom said entries).take (room - 1)) := by
  cases entries with
  | nil =>
      show wordsOf (([] : Bytes).take room) = wordsOf (([] : Bytes).take (room - 1))
      rw [List.take_nil, List.take_nil]
  | cons entry entries =>
      cases room with
      | zero => rfl
      | succ room =>
          have hnil : wordsOf [] = [] := tokens_nil
          have hwords : wordsOf ([] ++ space :: (lineFrom said (entry :: entries)).take room)
              = wordsOf [] ++ wordsOf ((lineFrom said (entry :: entries)).take room) :=
            tokens_append_sep (by decide) _ _
          rw [hnil, List.nil_append, List.nil_append] at hwords
          exact hwords

/-- A name is printed as it is. -/
theorem lineOf_name {name : Bytes} (h : ZoneName name) (hsaid : said name = (name, false)) :
    lineOf said name = (name, false) := by
  have hends : ∀ c ∈ name, endsLine c = false := by
    intro c hc
    have hnewline : c ≠ newline := fun heq => h.not_mem (by decide) (heq ▸ hc)
    have hnul : c ≠ 0 := fun heq => h.not_mem (by decide) (heq ▸ hc)
    unfold endsLine
    simp [hnewline, hnul]
  have hwhole : name.takeWhile (!endsLine ·) = name :=
    List.takeWhile_eq_self_iff.mpr fun c hc => by rw [hends c hc]; rfl
  have hnone : name.any endsLine = false :=
    List.any_eq_false.mpr fun c hc => by rw [hends c hc]; exact Bool.false_ne_true
  unfold lineOf Echo.upTo
  rw [hsaid, hwhole, hnone]
  rfl

/-- **The words in the room that is left are the names.**  Each entry takes some of the room. -/
theorem wordsOf_line_iff (hnames : ∀ name ∈ entryNames entries, ZoneName name)
    (hsaid : ∀ name ∈ entryNames entries, said name = (name, false)) :
    wordsOf ((lineFrom said entries).take room) = entryNames entries
      ↔ NamesSeen said entries room := by
  induction entries generalizing room with
  | nil =>
      show wordsOf (([] : Bytes).take room) = [] ↔ True
      rw [List.take_nil]
      exact iff_true_intro tokens_nil
  | cons entry entries ih =>
      have hrest : ∀ room, wordsOf ((lineFrom said entries).take room) = entryNames entries
          ↔ NamesSeen said entries room := fun room =>
        ih (fun name hname => hnames name (List.mem_append_right _ hname))
          (fun name hname => hsaid name (List.mem_append_right _ hname))
      cases entry with
      | block name =>
          have hname := hnames name List.mem_cons_self
          have hline : lineFrom said (.block name :: entries) = name ++ behind said entries := by
            have hword : lineOf said (ListEntry.block name).word = (name, false) :=
              lineOf_name hname (hsaid name List.mem_cons_self)
            rw [lineFrom_cons, hword, if_neg Bool.false_ne_true]
          show wordsOf _ = name :: entryNames entries
            ↔ name.length ≤ room ∧ NamesSeen said entries (room - (name.length + 1))
          rw [hline, List.take_append]
          by_cases hroom : name.length ≤ room
          · rw [List.take_of_length_le hroom,
              wordsOf_name_append hname ((startsBlank_behind said entries).take _),
              wordsOf_behind, Nat.sub_sub, List.cons.injEq, hrest]
            exact ⟨fun h => ⟨hroom, h.2⟩, fun h => ⟨rfl, h.2⟩⟩
          · -- of the name only a part is there
            rw [show room - name.length = 0 by omega, List.take_zero, List.append_nil]
            refine ⟨fun h => ?_, fun h => absurd h.1 hroom⟩
            have hmem : name ∈ wordsOf (name.take room) := h ▸ List.mem_cons_self
            have hlength := (infix_of_mem_tokens hmem).length_le
            rw [List.length_take] at hlength
            omega
      | comment text =>
          have hline : lineFrom said (.comment text :: entries) =
              if (lineOf said text).2 then (lineOf said text).1
              else (lineOf said text).1 ++ behind said entries :=
            lineFrom_cons said (.comment text) entries
          show wordsOf _ = entryNames entries ↔ (if _ then _ else _)
          split
          · rename_i hblank
            have hnone : wordsOf ((lineOf said text).1.take room) = [] := tokens_of_seps hblank
            split
            · rename_i hends
              rw [hline, if_pos hends, hnone]
              exact eq_comm
            · rename_i hends
              have hwords : wordsOf ((lineOf said text).1.take room ++
                  (behind said entries).take (room - (lineOf said text).1.length))
                  = wordsOf ((behind said entries).take (room - (lineOf said text).1.length)) :=
                tokens_seps hblank _
              rw [hline, if_neg hends, List.take_append, hwords, wordsOf_behind, Nat.sub_sub, hrest]
          · exact tokens_eq_iff_spaced

/-! ### The whole list -/

theorem listEntries_names (items : List ConfItem) (closed : Bool) :
    entryNames (listEntries items closed) = zoneNames items := by
  have hblocks : ∀ names : List Bytes, entryNames (names.map .block) = names := by
    intro names
    unfold entryNames
    rw [List.flatMap_map]
    exact List.flatMap_singleton' names
  have hall : ∀ items : List ConfItem, entryNames (items.flatMap ConfItem.heard)
      = zoneNames items := by
    intro items
    unfold entryNames zoneNames zoneBlocks
    rw [List.flatMap_assoc, List.map_flatMap]
    refine List.flatMap_congr fun item _ => ?_
    cases item with
    | block zone => rfl
    | comment text =>
        show ((heardOf text.line).map ListEntry.comment).flatMap ListEntry.names = []
        rw [List.flatMap_map]
        exact List.flatMap_eq_nil_iff.mpr fun _ _ => rfl
    | empty => rfl
  unfold listEntries
  cases closed with
  | true => rw [if_pos rfl, hall]
  | false =>
      rw [if_neg Bool.false_ne_true]
      rcases List.eq_nil_or_concat' items with rfl | ⟨front, item, rfl⟩
      · rfl
      · have hfront := hall front
        rw [List.dropLast_concat, List.getLast?_concat]
        unfold entryNames at hfront hblocks ⊢
        rw [List.flatMap_append, hfront, hblocks]
        unfold zoneNames
        rw [zoneBlocks_append, List.map_append]
        rfl

/-- Options are none of the names. -/
theorem printedEntries_names (hnames : ∀ name ∈ entryNames entries, ZoneName name) :
    entryNames (printedEntries entries) = entryNames entries := by
  induction entries with
  | nil => rfl
  | cons entry entries ih =>
      unfold printedEntries
      by_cases hoption : Echo.isOption entry.word = true
      · rw [List.dropWhile_cons_of_pos (by exact hoption)]
        cases entry with
        | block name =>
            have hword := Echo.isOption_of_head (hnames name List.mem_cons_self).noOption
            exact absurd (hword.symm.trans hoption) Bool.false_ne_true
        | comment text => exact ih hnames
      · rw [List.dropWhile_cons_of_neg (by exact hoption)]

theorem printedEntries_words (entries : List ListEntry) :
    entryWords (printedEntries entries) = (entryWords entries).dropWhile Echo.isOption := by
  unfold printedEntries entryWords
  rw [List.dropWhile_map]
  rfl

/-- What is printed of a text without escapes is the text. -/
theorem saying_plain (hplain : ∀ text, 92 ∉ text → unescape text = (text, false))
    (words : List Bytes) {name : Bytes} (h : ZoneName name) :
    Echo.saying unescape words name = (name, false) := by
  unfold Echo.saying
  split
  · exact hplain name (h.not_mem (by decide))
  · rfl

/-- **The words that are read are the names exactly where nothing else is heard.** -/
theorem wordsRead_iff (hplain : ∀ text, 92 ∉ text → unescape text = (text, false))
    (hnames : ∀ name ∈ entryNames entries, ZoneName name) :
    wordsRead (Echo.echoed unescape (entryWords entries)) = some (entryNames entries)
      ↔ NamesHeard unescape entries := by
  have hline : (Echo.echoed unescape (entryWords entries)).takeWhile (!endsLine ·)
      = lineFrom (Echo.saying unescape (entryWords entries)) (printedEntries entries) := by
    rw [Echo.echoed_line (by decide) (by decide)]
    unfold lineFrom
    rw [printedEntries_words]
    rfl
  have hprinted := printedEntries_names hnames
  have hseen := @wordsOf_line_iff (printedEntries entries)
    (Echo.saying unescape (entryWords entries)) (lineBufferSize - 1)
    (fun name hname => hnames name (hprinted ▸ hname))
    (fun name hname => saying_plain hplain _ (hnames name (hprinted ▸ hname)))
  rw [hprinted] at hseen
  by_cases hnone : Echo.echoed unescape (entryWords entries) = []
  · have hread : wordsRead ([] : Bytes) = none := rfl
    rw [hnone, hread]
    obtain ⟨hempty, hunclosed⟩ := Echo.echoed_eq_nil_iff.mp hnone
    refine ⟨fun h => absurd h (by simp), fun h => ?_⟩
    rcases h.line with hline | hline
    · exact absurd hempty hline
    · exact absurd hunclosed hline
  · rw [wordsRead_eq hnone, hline, Option.some.injEq, hseen]
    refine ⟨fun h => ⟨h, ?_⟩, fun h => h.seen⟩
    rw [Echo.echoed_eq_nil_iff] at hnone
    exact Decidable.not_and_iff_or_not.mp hnone

end DnsServer
