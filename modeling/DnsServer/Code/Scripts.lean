/-
What the scripts print of a zone file.

`get_terminal_names.sh` goes through the whole file with a pattern and prints the first
field of each line that matches, on one line.  `get_DNSttl.sh`, `get_DNStype.sh` and
`get_DNSvalue.sh` are one script with three fields: it takes one line by its number,
echoes it unquoted and cuts out the field; `get_ns_domains.sh` does the same with the lines
of the name servers.  `get_metadata_from_soa.sh` looks for a number before a comment that
names it.

An unquoted word is expanded to the names of the files that match it, and `echo` takes
some words for options; what depends on the directory and on these words is in `Bash`,
with what the shell promises of all others.
-/
import DnsServer.Code.Loader

namespace DnsServer

def tab : UInt8 := 9

/-! ### Lines and fields -/

/-- The lines of a file without their newlines; the last line may have none. -/
def linesOf (file : Bytes) : List Bytes :=
  let pieces := file.splitOn newline
  if pieces.getLast? = some [] then pieces.dropLast else pieces

/-- The fields of a line in `awk`, and the words the shell splits a text into. -/
def blankWords (text : Bytes) : List Bytes := strtok [space, tab, newline] text

/-- `sed -n "${nr_line}p"`. -/
def sedLine (nrLine : Nat) (file : Bytes) : Bytes :=
  match (linesOf file)[nrLine - 1]? with
  | some line => line ++ [newline]
  | none => []

/-- `tr '\n' ' '`. -/
def trNewlines (text : Bytes) : Bytes := text.map fun c => if c = newline then space else c

/-- One line of `cut -d" " -f`: a line without a blank is printed whole. -/
def cutLine (field : Nat) (line : Bytes) : Bytes :=
  if space ∈ line then ((line.splitOn space)[field - 1]?).getD [] else line

/-- `cut -d" " -f`. -/
def cut (field : Nat) (text : Bytes) : Bytes :=
  (linesOf text).flatMap fun line => cutLine field line ++ [newline]

/-! ### get_terminal_names.sh -/

/-- `type\s+` at the beginning of a text. -/
def typeFollows (type text : Bytes) : Bool :=
  type.isPrefixOf text && (text.drop type.length).head?.any isSpace

/-- `IN\s+(A|MX)\s+` at the beginning of a text. -/
def patternHere (text : Bytes) : Bool :=
  (ascii "IN").isPrefixOf text && (text.drop 2).head?.any isSpace &&
    (typeFollows (ascii "A") ((text.drop 2).dropWhile isSpace) ||
      typeFollows (ascii "MX") ((text.drop 2).dropWhile isSpace))

/-- `/IN\s+(A|MX)\s+/` -/
def terminalPattern (line : Bytes) : Bool := line.tails.any patternHere

/-- `print $1`, for each line that matches. -/
def awkTerminalNames (zoneFile : Bytes) : Bytes :=
  ((linesOf zoneFile).filter terminalPattern).flatMap fun line =>
    (blankWords line).headD [] ++ [newline]

def getTerminalNamesSh (zoneFile : Bytes) : Bytes :=
  trNewlines (awkTerminalNames zoneFile) ++ [newline]

/-! ### get_DNSttl.sh, get_DNStype.sh and get_DNSvalue.sh -/

/-- A word that is no pattern for a file name and no option. -/
structure Plain (word : Bytes) : Prop where
  noOption : word.head? ≠ some 45
  noPattern : ∀ c ∈ ascii "*?[\\", c ∉ word
  noNul : 0 ∉ word

instance (word : Bytes) : Decidable (Plain word) :=
  decidable_of_iff
    (word.head? ≠ some 45 ∧ (ascii "*?[\\").all (fun c => decide (c ∉ word)) = true ∧ 0 ∉ word)
    ⟨fun h => ⟨h.1, fun c hc => of_decide_eq_true (List.all_eq_true.mp h.2.1 c hc), h.2.2⟩,
      fun h => ⟨h.noOption,
        List.all_eq_true.mpr fun c hc => decide_eq_true (h.noPattern c hc), h.noNul⟩⟩

/-- What the shell makes of words. -/
structure Bash where
  /-- Pathname expansion. -/
  expand : Bytes → List Bytes
  echo : List Bytes → Bytes
  expand_plain : ∀ word, Plain word → expand word = [word]
  echo_plain : ∀ words, (∀ word ∈ words, Plain word) →
    echo words = [space].intercalate words ++ [newline]

/-- `$(…)`: NUL bytes are dropped, and the newlines at the end. -/
def substituted (output : Bytes) : Bytes :=
  ((output.filter (· ≠ 0)).reverse.dropWhile (· = newline)).reverse

/-- `echo` of a variable without quotes. -/
def Bash.echoUnquoted (bash : Bash) (value : Bytes) : Bytes :=
  bash.echo ((blankWords value).flatMap bash.expand)

/-- The script the three have in common. -/
def getDNSFieldSh (bash : Bash) (field : Nat) (file : Bytes) (nrLine : Nat) : Bytes :=
  let line := substituted (sedLine nrLine file)
  let type := substituted (cut field (bash.echoUnquoted line))
  bash.echoUnquoted type

def getDNSTtlSh (bash : Bash) (file : Bytes) (nrLine : Nat) : Bytes :=
  getDNSFieldSh bash 2 file nrLine

def getDNSTypeSh (bash : Bash) (file : Bytes) (nrLine : Nat) : Bytes :=
  getDNSFieldSh bash 3 file nrLine

def getDNSValueSh (bash : Bash) (file : Bytes) (nrLine : Nat) : Bytes :=
  getDNSFieldSh bash 4 file nrLine

/-! ### get_ns_domains.sh -/

/-- The third field of line 9 or 10. -/
def getNsDomainsSh (bash : Bash) (file nsRecord : Bytes) : Bytes :=
  if nsRecord = ascii "ns1" then getDNSFieldSh bash 3 file 9 else getDNSFieldSh bash 3 file 10

/-! ### get_metadata_from_soa.sh -/

/-- `^[[:space:]]*[0-9]…[[:space:]]*;[[:space:]]*comment`, with a condition on how many digits
there are. -/
def soaPattern (digits : Nat → Bool) (comment line : Bytes) : Bool :=
  let number := line.dropWhile isSpace
  match (number.dropWhile isDigit).dropWhile isSpace with
  | [] => false
  | c :: rest =>
      c == 59 && digits (number.takeWhile isDigit).length &&
        comment.isPrefixOf (rest.dropWhile isSpace)

/-- `grep -E pattern file | awk '{print $1}'`. -/
def firstFields (pattern : Bytes → Bool) (file : Bytes) : Bytes :=
  ((linesOf file).filter pattern).flatMap fun line => (blankWords line).headD [] ++ [newline]

def getMetadataFromSoaSh (file field : Bytes) : Bytes :=
  if field = ascii "serial" then firstFields (soaPattern (· == 10) []) file
  else if field = ascii "refresh" then
    firstFields (soaPattern (1 ≤ ·) (ascii "Refresh")) file
  else if field = ascii "retry" then firstFields (soaPattern (1 ≤ ·) (ascii "Retry")) file
  else if field = ascii "expire" then firstFields (soaPattern (1 ≤ ·) (ascii "Expire")) file
  else if field = ascii "minimum_ttl" then
    firstFields (soaPattern (1 ≤ ·) (ascii "Minimum TTL")) file
  else ascii "Invalid field. Choose: serial, refresh, retry, expire, minimum_ttl\n"

end DnsServer
