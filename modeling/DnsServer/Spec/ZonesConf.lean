/-
What `zones.conf` says.

The file is zone blocks in the layout of the one that is shipped, comment lines with any
text, and empty lines between them.  A zone's name is printable and has nothing in it that
is special to the shell or to `grep` but the dot; its file's path is anything that can
stand between the quotes.
-/
import DnsServer.Code.ConfScripts
import DnsServer.Lib.Echo
import DnsServer.Lib.Split

namespace DnsServer

/-- `zone "body"`. -/
def zoneText (body : Bytes) : Bytes := ascii "zone " ++ quote :: (body ++ [quote])

/-- A line has `zone "…"` in it, with something between the quotes. -/
def NamesZone (line : Bytes) : Prop :=
  ∃ body, body ≠ [] ∧ quote ∉ body ∧ zoneText body <:+: line

/-! ### Blocks -/

/-- A byte of a zone's name. -/
def isNameByte (c : UInt8) : Bool :=
  33 ≤ c && c ≤ 126 && !(ascii "\"$&'()*;<>?[\\]^`\x7b|\x7d~#!").contains c

structure ZoneName (name : Bytes) : Prop where
  nonempty : name ≠ []
  bytes : ∀ c ∈ name, isNameByte c
  noOption : name.head? ≠ some 45

structure ZonePath (path : Bytes) : Prop where
  noQuote : quote ∉ path
  noNewline : newline ∉ path
  noNul : 0 ∉ path

/-- A zone with its file. -/
structure ZoneBlock where
  name : Bytes
  path : Bytes
  zoneName : ZoneName name
  zonePath : ZonePath path

namespace ZoneBlock

variable (block : ZoneBlock)

def zoneLine : Bytes := ascii "zone \"" ++ block.name ++ ascii "\" \x7b"

def typeLine : Bytes := ascii "    type master;"

def fileLine : Bytes := ascii "    file \"" ++ block.path ++ ascii "\";"

def closeLine : Bytes := ascii "\x7d;"

end ZoneBlock

def ZoneBlock.lines (block : ZoneBlock) : List Bytes :=
  [block.zoneLine, ZoneBlock.typeLine, block.fileLine, ZoneBlock.closeLine]

/-! ### Comments -/

/-- A line that has, after blanks, a comment. -/
structure CommentLine where
  line : Bytes
  marked : ascii "#" <+: line.dropWhile isBlank ∨ ascii "//" <+: line.dropWhile isBlank ∨
    ascii "/*" <+: line.dropWhile isBlank
  noNewline : newline ∉ line
  noNul : 0 ∉ line

/-! ### The file -/

inductive ConfItem
  | block (zone : ZoneBlock)
  | comment (text : CommentLine)
  | empty

def ConfItem.lines : ConfItem → List Bytes
  | .block zone => zone.lines
  | .comment text => [text.line]
  | .empty => [[]]

def ConfItem.blocks : ConfItem → List ZoneBlock
  | .block zone => [zone]
  | .comment _ => []
  | .empty => []

def confLines (items : List ConfItem) : List Bytes := items.flatMap ConfItem.lines

/-- The zones in file order. -/
def zoneBlocks (items : List ConfItem) : List ZoneBlock := items.flatMap ConfItem.blocks

def zoneNames (items : List ConfItem) : List Bytes := (zoneBlocks items).map ZoneBlock.name

/-- The file, its last line `closed` by a newline or not. -/
def confText (items : List ConfItem) (closed : Bool) : Bytes :=
  if closed then (confLines items).flatMap (· ++ [newline])
  else [newline].intercalate (confLines items)

/-- No comment names a zone. -/
def QuietComments (items : List ConfItem) : Prop :=
  ∀ text, ConfItem.comment text ∈ items → ¬ NamesZone text.line

/-- No comment has the word and a quotation mark in it. -/
def PlainComments (items : List ConfItem) : Prop :=
  ∀ text, ConfItem.comment text ∈ items → ¬ ascii "zone \"" <:+: text.line

/-! ### The list of names -/

/-- The texts of the `zone "…"` in a line, each search going on behind the one before. -/
def namedIn (line : Bytes) : List Bytes :=
  (Grep.only zoneHere 0 (stripBlanks line)).map fun found => (found.drop 6).dropLast

/-- What a line adds to the list: its texts with a newline between them. -/
def heardOf (line : Bytes) : List Bytes :=
  if namedIn line = [] then [] else [[newline].intercalate (namedIn line)]

/-- What the list is put together from: names of blocks, and texts in comments. -/
inductive ListEntry
  | block (name : Bytes)
  | comment (text : Bytes)

def ListEntry.word : ListEntry → Bytes
  | .block name => name
  | .comment text => text

def ListEntry.names : ListEntry → List Bytes
  | .block name => [name]
  | .comment _ => []

def entryNames (entries : List ListEntry) : List Bytes := entries.flatMap ListEntry.names

def entryWords (entries : List ListEntry) : List Bytes := entries.map ListEntry.word

def ConfItem.heard : ConfItem → List ListEntry
  | .block zone => [.block zone.name]
  | .comment text => (heardOf text.line).map .comment
  | .empty => []

/-- What is in the list; a comment at the end is not, unless a newline closes it. -/
def listEntries (items : List ConfItem) (closed : Bool) : List ListEntry :=
  if closed then items.flatMap ConfItem.heard
  else items.dropLast.flatMap ConfItem.heard ++ (zoneNames items.getLast?.toList).map .block

/-- `echo` is as documented; `unescape` is what `-e` makes of a text. -/
structure EchoesAs (bash : Bash) (unescape : Bytes → Echo.Said) : Prop where
  plain : ∀ text, 92 ∉ text → unescape text = (text, false)
  echo : ∀ words, bash.echo words = Echo.echoed unescape words

/-- What ends a line for `fgets`, or the text in its buffer. -/
def endsLine (c : UInt8) : Bool := c == newline || c == 0

/-- What stands between words. -/
def isGap (c : UInt8) : Bool := decide (c ∈ [space, newline])

/-- The part of the first line that is printed of a word. -/
def lineOf (said : Bytes → Echo.Said) (word : Bytes) : Echo.Said := Echo.upTo endsLine (said word)

/--
The names are all that can be seen of the list in the room that is left.  A name is there whole.
Of a text there are only blanks, and where it ends the line no name is left; or else what is seen
of the list from there on is the names that are left, over again.
-/
def NamesSeen (said : Bytes → Echo.Said) : List ListEntry → Nat → Prop
  | [], _ => True
  | .block name :: entries, room =>
      name.length ≤ room ∧ NamesSeen said entries (room - (name.length + 1))
  | .comment text :: entries, room =>
      let line := lineOf said text
      if ∀ c ∈ line.1.take room, isGap c then
        if line.2 then entryNames entries = []
        else NamesSeen said entries (room - (line.1.length + 1))
      else
        Split.Spaced isGap (entryNames entries)
          ((Echo.joined (lineOf said) (text :: entryWords entries)).1.take room)

instance decidableNamesSeen (said : Bytes → Echo.Said) :
    (entries : List ListEntry) → (room : Nat) → Decidable (NamesSeen said entries room)
  | [], _ => inferInstanceAs (Decidable True)
  | .block name :: entries, room =>
      have := decidableNamesSeen said entries (room - (name.length + 1))
      inferInstanceAs (Decidable (_ ∧ _))
  | .comment text :: entries, room =>
      have := decidableNamesSeen said entries (room - ((lineOf said text).1.length + 1))
      inferInstanceAs (Decidable (if ∀ c ∈ (lineOf said text).1.take room, isGap c then
        (if (lineOf said text).2 then entryNames entries = []
        else NamesSeen said entries (room - ((lineOf said text).1.length + 1)))
        else Split.Spaced isGap (entryNames entries)
          ((Echo.joined (lineOf said) (text :: entryWords entries)).1.take room)))

/-- The entries that are left when `echo` has taken its options. -/
def printedEntries (entries : List ListEntry) : List ListEntry :=
  entries.dropWhile fun entry => Echo.isOption entry.word

/-- The names are heard, and nothing else. -/
structure NamesHeard (unescape : Bytes → Echo.Said) (entries : List ListEntry) : Prop where
  seen : NamesSeen (Echo.saying unescape (entryWords entries)) (printedEntries entries)
    (lineBufferSize - 1)
  /-- Something is printed, and be it the newline. -/
  line : (Echo.printed unescape (entryWords entries)).1 ≠ [] ∨
    ¬ Echo.Unclosed unescape (entryWords entries)

instance (unescape : Bytes → Echo.Said) (entries : List ListEntry) :
    Decidable (NamesHeard unescape entries) :=
  decidable_of_iff
    (NamesSeen (Echo.saying unescape (entryWords entries)) (printedEntries entries)
        (lineBufferSize - 1) ∧
      ((Echo.printed unescape (entryWords entries)).1 ≠ [] ∨
        ¬ Echo.Unclosed unescape (entryWords entries)))
    ⟨fun h => ⟨h.1, h.2⟩, fun h => ⟨h.seen, h.line⟩⟩

/-- The names with a blank between them are no longer than what is read. -/
def NamesFit (names : List Bytes) : Prop := ([space].intercalate names).length < lineBufferSize

/-! ### Names as regular expressions -/

/-- A name is another one, but where the first has dots. -/
def AgreesUpToDots (pattern name : Bytes) : Prop :=
  List.Forall₂ (fun p c => p = dot ∨ p = c) pattern name

instance (pattern name : Bytes) : Decidable (AgreesUpToDots pattern name) :=
  inferInstanceAs (Decidable (List.Forall₂ _ pattern name))

/-- The first block that `grep` finds for a name. -/
def firstNamed (items : List ConfItem) (name : Bytes) : Option ZoneBlock :=
  (zoneBlocks items).find? fun block => decide (AgreesUpToDots name block.name)

end DnsServer
