/-
What becomes of a connection.

A connection is accepted, and `main` has it.  `main` closes it, or puts it into the queue;
a worker takes it from there, and closes it.  A book says for each connection that was
accepted who has it, and the steps of a book are these.  No connection is ever with two
at once, because the book has one entry for it, and one that is closed stays so.
-/
import DnsServer.Lib.Runs

namespace DnsServer

/-- Who has a connection. -/
inductive Holder (n : Nat)
  | main
  | queue
  | worker (w : Fin n)
  | closed
  deriving DecidableEq

/-- Who may have it next; a connection nobody has had yet is accepted. -/
inductive Holder.Next {n : Nat} : Option (Holder n) → Holder n → Prop
  | accept : Next none .main
  | enqueue : Next (some .main) .queue
  | fetch (w : Fin n) : Next (some .queue) (.worker w)
  | drop : Next (some .main) .closed
  | finish (w : Fin n) : Next (some (.worker w)) .closed

/-- The holder of each connection that was accepted. -/
abbrev Book (n : Nat) := Nat → Option (Holder n)

/-- One connection goes on, to this holder. -/
inductive BookStep {n : Nat} : Book n → Nat × Holder n → Book n → Prop
  | next {book : Book n} {c : Nat} {holder : Holder n} (h : Holder.Next (book c) holder) :
      BookStep book (c, holder) (Function.update book c (some holder))

/-- One connection goes on, or none does. -/
def BookMove {n : Nat} (book book' : Book n) : Prop :=
  book' = book ∨ ∃ label, BookStep book label book'

/-- Nothing has been accepted. -/
def BookStart {n : Nat} (book : Book n) : Prop := ∀ c, book c = none

end DnsServer
