/-
Which records of an answer are an answer.

An address answers a question when it is owned by the name asked for, or by the
name the aliases in the same section lead to from there.  The target of an alias
is a name in the record's data, and may be compressed, so a record is taken
together with the place of its data in the message.  Names are the same whatever
the case of their letters.
-/
import DnsServer.Spec.Wire
import Mathlib.Logic.Relation

namespace DnsServer

def dnsTypeCname : UInt16 := 5

/-- A capital letter made small. -/
def lower (b : UInt8) : UInt8 := if 65 ≤ b ∧ b ≤ 90 then b + 32 else b

def Name.Same (a b : Name) : Prop := a.raw.map (·.map lower) = b.raw.map (·.map lower)

theorem Name.Same.refl (a : Name) : a.Same a := rfl

/-! ### Records and their data -/

/-- The record is one of those at `p`, and its data is at `f`. -/
inductive RecordIn (m : Contents) : Nat → List Record → Record → Nat → Prop
  | head {p e : Nat} {r : Record} {rs : List Record} (hname : NameAt m p r.name.raw e) :
      RecordIn m p (r :: rs) r (e + 10)
  | tail {p e f : Nat} {r r' : Record} {rs : List Record} (hname : NameAt m p r.name.raw e)
      (hrest : RecordIn m (e + r.fields.length) rs r' f) : RecordIn m p (r :: rs) r' f

/-- The record is in the answer section, and its data is at `f`. -/
def InAnswers (msg : Bytes) (m : Message) (r : Record) (f : Nat) : Prop :=
  ∃ p, QuestionsAt msg.contents headerSize m.questions p ∧ RecordIn msg.contents p m.answers r f

/-! ### Aliases -/

/-- The answer section has an alias of `x`, and it stands for `y`. -/
def Alias (msg : Bytes) (m : Message) (x y : Name) : Prop :=
  ∃ r f, InAnswers msg m r f ∧ r.type = dnsTypeCname ∧ r.name.Same x ∧
    NameAt msg.contents f y.raw (f + r.rdata.length)

/-- The aliases lead from `d` to `x`, and no further. -/
def AliasEnd (msg : Bytes) (m : Message) (d x : Name) : Prop :=
  Relation.ReflTransGen (Alias msg m) d x ∧ ∀ y, ¬ Alias msg m x y

/-- The record is an address of `d`, or of what `d` is an alias of in the end. -/
structure AddressFor (msg : Bytes) (m : Message) (d : Name) (r : Record) : Prop where
  answer : r ∈ m.answers
  type : r.type = dnsTypeA
  rclass : r.rclass = dnsClassIn
  short : r.rdata.length = 4
  owner : r.name.Same d ∨ ∃ x, AliasEnd msg m d x ∧ r.name.Same x

end DnsServer
