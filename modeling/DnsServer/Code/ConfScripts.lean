/-
What the scripts print of `zones.conf`.

`get_nr_zones_for_root_start.sh` counts the lines that begin with `zone`;
`get_array_of_domains.sh` goes through the lines and takes a name from each that has
`zone "…"` anywhere in it; `get_path_to_zone_file.sh` looks for `zone "name"` with the
name as part of a regular expression and prints the path behind `file` in the two lines
after.  Texts are bytes, as they are in the C locale.
-/
import DnsServer.Code.Scripts
import DnsServer.Lib.Grep
import Mathlib.Data.List.DropRight

namespace DnsServer

def quote : UInt8 := 34

/-! ### get_nr_zones_for_root_start.sh -/

/-- `grep -c '^zone'`, echoed. -/
def getNrZonesForRootStartSh (file : Bytes) : Bytes :=
  ascii (toString ((linesOf file).countP ((ascii "zone").isPrefixOf ·))) ++ [newline]

/-! ### get_array_of_domains.sh -/

/-- The lines `while read` goes round for: what comes after the last newline is no line to it. -/
def readLines (file : Bytes) : List Bytes := (file.splitOn newline).dropLast

def isBlank (c : UInt8) : Bool := c == space || c == tab

/-- `read -r` of a line into one variable. -/
def stripBlanks (line : Bytes) : Bytes := (line.dropWhile isBlank).rdropWhile isBlank

/-- How much of the beginning of a text `"[^"]+"` matches. -/
def quotedHere : Bytes → Option Nat
  | [] => none
  | c :: text =>
      let body := text.takeWhile (· ≠ quote)
      if c = quote ∧ body ≠ [] ∧ body.length < text.length then some (body.length + 2) else none

/-- How much of the beginning of a text `zone "[^"]+"` matches. -/
def zoneHere (text : Bytes) : Option Nat :=
  if (ascii "zone ").isPrefixOf text then (quotedHere (text.drop 5)).map (5 + ·) else none

/-- `egrep -o`. -/
def egrepOnly (here : Bytes → Option Nat) (text : Bytes) : Bytes :=
  ((linesOf text).flatMap (Grep.only here 0)).flatMap (· ++ [newline])

/-- `tr -d '"'`. -/
def trQuotes (text : Bytes) : Bytes := text.filter (· ≠ quote)

/-- What one line adds to `domains`. -/
def domainsOfLine (bash : Bash) (line : Bytes) : List Bytes :=
  let var := substituted (egrepOnly zoneHere (bash.echo [stripBlanks line]))
  if var = [] then []
  else [substituted (trQuotes (egrepOnly quotedHere (bash.echo [var])))]

def getArrayOfDomainsSh (bash : Bash) (file : Bytes) : Bytes :=
  bash.echo ((readLines file).flatMap (domainsOfLine bash))

/-! ### get_path_to_zone_file.sh -/

/-- A regular expression of plain bytes and dots, at the beginning of a text. -/
def dotHere : Bytes → Bytes → Bool
  | [], _ => true
  | _ :: _, [] => false
  | p :: pattern, c :: text => (p == dot || p == c) && dotHere pattern text

/-- `zone "$domain_name"`, for a name without bytes special to `grep` but the dot. -/
def zonePattern (domainName line : Bytes) : Bool :=
  Grep.anywhere (dotHere (ascii "zone \"" ++ domainName ++ [quote])) line

/-- `grep 'file'`. -/
def filePattern (line : Bytes) : Bool := Grep.anywhere ((ascii "file").isPrefixOf ·) line

/-- What comes before the last `";`. -/
def beforeClose (text : Bytes) : Bytes :=
  match (text.tails.filter ((ascii "\";").isPrefixOf ·)).getLast? with
  | none => text
  | some rest => text.take (text.length - rest.length)

/-- `s/.*file "(.*)";.*/\1/`: the stars take as much as they can, the first one first. -/
def sedFile (line : Bytes) : Bytes :=
  let opens (rest : Bytes) : Bool :=
    (ascii "file \"").isPrefixOf rest && Grep.anywhere ((ascii "\";").isPrefixOf ·) (rest.drop 6)
  match (line.tails.filter opens).getLast? with
  | none => line
  | some rest => beforeClose (rest.drop 6)

def getPathToZoneFileSh (file domainName : Bytes) : Bytes :=
  let found := Grep.withContext 2 (ascii "--") (zonePattern domainName) 0 false false
    (linesOf file)
  (found.filter filePattern).flatMap fun line => sedFile line ++ [newline]

end DnsServer
