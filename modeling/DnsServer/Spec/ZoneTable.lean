/-
What the zones answer, without a trie.

A zone is the labels of its name, its two name servers and its records.  A question
is its words from the top label down.  The first zone with the question's top label
decides: the words under the zone's own name select one of its records, no word at
all stands for the zone itself and is redirected to its servers.

The labels between the top one and the zone's own are no way to the zone: a
question that takes one of them ends there, and so does one that stops short of
the zone, where the source reads a field nobody set.
-/
import DnsServer.Code.Trie

namespace DnsServer

/-- `labels` is the zone's name from the top label down. -/
structure ZoneData where
  labels : List Bytes
  servers : NSQuerys
  records : List (Bytes × Bytes)

/-- The value of the first record under a label, `@` apart: that is the zone's own node. -/
def firstValue (records : List (Bytes × Bytes)) (label : Bytes) : Option Bytes :=
  if label = ascii "@" then none
  else (records.find? (fun record => record.1 = label)).map Prod.snd

namespace ZoneData

/-- The label of the zone's own node, where that is not the top one. -/
def own (zone : ZoneData) : Option Bytes := zone.labels.tail.getLast?

/-- The labels between the top one and the zone's own. -/
def middles (zone : ZoneData) : List Bytes := zone.labels.tail.dropLast

/-- What the words under the zone's own name come to. -/
def below (zone : ZoneData) : List Bytes → Call SearchResult
  | [] => .done (.redirect zone.servers)
  | [label] =>
      if label = ascii "@" then .undefined
      else
        match firstValue zone.records label with
        | some value => .done (.record value)
        | none => .done .missing
  | _ :: _ :: _ => .done .missing

/-- What the words under the zone's top label come to. -/
def underTop (zone : ZoneData) (words : List Bytes) : Call SearchResult :=
  match zone.own with
  | none => zone.below words
  | some own =>
      match words with
      | [] => .undefined
      | word :: rest =>
          if word ∈ zone.middles then (if rest = [] then .undefined else .done .missing)
          else if word = own then zone.below rest
          else .done .missing

/-- The words under the top label that stand for the zone itself. -/
def IsApex (zone : ZoneData) (words : List Bytes) : Prop :=
  match zone.own with
  | none => words = []
  | some own => own ∉ zone.middles ∧ words = [own]

/-- The words under the top label at which the search reads what is not there: none, one of
the labels between, or the zone's name and `@`. -/
def IsFatal (zone : ZoneData) (words : List Bytes) : Prop :=
  match zone.own with
  | none => words = [ascii "@"]
  | some own =>
      words = [] ∨ (∃ middle ∈ zone.middles, words = [middle]) ∨
        (own ∉ zone.middles ∧ words = [own, ascii "@"])

end ZoneData

/-- The zone that decides for a top label. -/
def decidingZone (table : List ZoneData) (word : Bytes) : Option ZoneData :=
  table.find? (fun zone => zone.labels.head? = some word)

/-- What a question comes to. -/
def landing (table : List ZoneData) : List Bytes → Call SearchResult
  | [] => if table = [] then .done .missing else .undefined
  | word :: words =>
      match decidingZone table word with
      | none => .done .missing
      | some zone => zone.underTop words

/-! ### Names -/

/-- The words of a name, from the top label down. -/
def question (domainName : Bytes) : List Bytes := (extractWordsFromDomain domainName).reverse

/-- The search for the name reads what is not there. -/
def Fatal (table : List ZoneData) (domainName : Bytes) : Prop :=
  match question domainName with
  | [] => table ≠ []
  | word :: words => ∃ zone, decidingZone table word = some zone ∧ zone.IsFatal words

/-- The first name is a zone's own, and the second one of its servers. -/
def RedirectsTo (table : List ZoneData) (domainName next : Bytes) : Prop :=
  ∃ word words zone, question domainName = word :: words ∧
    decidingZone table word = some zone ∧ zone.IsApex words ∧
    (next = zone.servers.domain1 ∨ next = zone.servers.domain2)

end DnsServer
