/-
Names between text and labels.

The encoder cuts a text at its dots, and the parser puts a dot after each label
and drops the last.  Cutting and joining undo each other, up to the three things
text cannot say: that there are no labels at all, and which dots and which NULs
belong to a label.  Laid out, different labels are different bytes, so what the
text loses can be seen in the datagram.
-/
import DnsServer.Proofs.Query
import DnsServer.Lib.Split

namespace DnsServer

/-! ### The labels of a text -/

theorem textLabels_ne_nil (text : Bytes) : textLabels text ≠ [] := List.splitOn_ne_nil dot text

theorem joined_textLabels (text : Bytes) : joined (textLabels text) = text :=
  List.intercalate_splitOn dot

theorem dotted_textLabels (text : Bytes) : dotted (textLabels text) = text ++ [dot] := by
  rw [dotted_eq_joined (textLabels_ne_nil text), joined_textLabels]

theorem textLabels_inj {s t : Bytes} (h : textLabels s = textLabels t) : s = t := by
  rw [← joined_textLabels s, h, joined_textLabels]

theorem textLabels_joined {ls : List Bytes} (hne : ls ≠ []) (hdot : ∀ l ∈ ls, dot ∉ l) :
    textLabels (joined ls) = ls :=
  List.splitOn_intercalate dot hdot hne

@[simp] theorem textLabels_nil : textLabels [] = [[]] := List.splitOn_nil dot

/-- A dot at the end adds an empty label. -/
theorem textLabels_concat_dot (text : Bytes) :
    textLabels (text ++ [dot]) = textLabels text ++ [[]] := Split.splitOn_concat_self dot text

/-! ### The text of some labels -/

theorem nameText_of_noNul {ls : List Bytes} (h : ∀ l ∈ ls, (0 : UInt8) ∉ l) :
    nameText ls = joined ls := by
  rw [nameText, dropLast_dotted]
  exact cstr_of_noNul (noNul_joined h)

/-- The text is the beginning of the labels as they were joined. -/
theorem nameText_begins (ls : List Bytes) : nameText ls <+: joined ls := by
  have hcut : nameText ls <+: joined ls ++ [0] := by
    rw [nameText, dropLast_dotted]
    exact List.takeWhile_prefix _
  refine (List.prefix_concat_iff.mp hcut).resolve_left fun heq => ?_
  apply noNul_cstr ((dotted ls).dropLast ++ [0])
  show 0 ∈ nameText ls
  rw [heq]
  exact List.mem_append_right _ List.mem_cons_self

/-- A name that fits its buffer has room for the dot and the NUL beside its text. -/
theorem length_nameText_of_fits {ls : List Bytes} (h : (dotted ls).length < nameBufferSize) :
    (nameText ls).length ≤ 254 := by
  have hle := (nameText_begins ls).length_le
  rw [← dropLast_dotted, List.length_dropLast] at hle
  unfold nameBufferSize at h
  omega

/-- A label of the text lies within one of the labels read. -/
theorem length_textLabel_le {ls : List Bytes} {n : Nat} (hls : ∀ l ∈ ls, l.length ≤ n) :
    ∀ l ∈ textLabels (nameText ls), l.length ≤ n := by
  intro l hl
  by_cases hne : l = []
  · rw [hne]
    exact Nat.zero_le n
  · have hbegins : nameText ls <+: dotted ls := by
      refine (nameText_begins ls).trans ?_
      rw [← dropLast_dotted]
      exact List.dropLast_prefix _
    have hinfix := (Split.infix_of_mem_splitOn hl).trans hbegins.isInfix
    obtain ⟨part, hmem, hpart⟩ :=
      Split.infix_part (Split.not_mem_of_mem_splitOn hl) hne hinfix
    exact hpart.length_le.trans (hls part hmem)

/-! ### Labels laid out -/

/-- An empty label ends the name early; what follows is laid out as before. -/
theorem encodeLabels_early_end (pre post : List Bytes) :
    encodeLabels (pre ++ [] :: post) = encodeLabels pre ++ encodeLabels post := by
  simp [encodeLabels]

theorem encodeLabels_length_pos (ls : List Bytes) : 0 < (encodeLabels ls).length := by
  rw [length_encodeLabels]
  exact Nat.succ_pos _

/-- Different labels are different bytes, as long as a byte can tell their lengths apart. -/
theorem encodeLabels_inj {ls ls' : List Bytes} (hls : ∀ l ∈ ls, l.length < 256)
    (hls' : ∀ l ∈ ls', l.length < 256) (h : encodeLabels ls = encodeLabels ls') : ls = ls' := by
  induction ls generalizing ls' with
  | nil =>
      cases ls' with
      | nil => rfl
      | cons l' ls' =>
          have hlen := congrArg List.length h
          have hpos := encodeLabels_length_pos ls'
          simp only [encodeLabels_cons, List.length_cons, List.length_append] at hlen
          have hnil : (encodeLabels []).length = 1 := rfl
          omega
  | cons l ls ih =>
      cases ls' with
      | nil =>
          have hlen := congrArg List.length h
          have hpos := encodeLabels_length_pos ls
          simp only [encodeLabels_cons, List.length_cons, List.length_append] at hlen
          have hnil : (encodeLabels []).length = 1 := rfl
          omega
      | cons l' ls' =>
          rw [encodeLabels_cons, encodeLabels_cons, List.cons.injEq] at h
          obtain ⟨hoctet, hrest⟩ := h
          have hlength : l.length = l'.length := by
            have hnat := congrArg UInt8.toNat hoctet
            rw [UInt8.toNat_ofNat', UInt8.toNat_ofNat',
              Nat.mod_eq_of_lt (hls l List.mem_cons_self),
              Nat.mod_eq_of_lt (hls' l' List.mem_cons_self)] at hnat
            exact hnat
          obtain ⟨hl, htail⟩ := List.append_inj hrest hlength
          rw [hl, ih (fun k hk => hls k (List.mem_cons_of_mem l hk))
            (fun k hk => hls' k (List.mem_cons_of_mem l' hk)) htail]

end DnsServer
