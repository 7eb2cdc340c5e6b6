/-
Splitting a name with `strtok`, as several workers do it at once.

`strtok` keeps one pointer for the whole process: where the next call with a null
first argument goes on.  Each call is one step.  It skips delimiters, finds the end
of the token, writes a NUL over the delimiter there and keeps the pointer after it.
A worker in `extractWordsFromDomain` copies the domain, calls `strtok` with the copy
and then without, copies every token it is given, and frees its copy at the end.

A string is a block with its NUL; no block is given out twice.  What reads a freed
block, or runs past the end of one, is undefined, and so is a word written past the
end of `words`.  An allocation that fails ends the process and is left out.
-/
import DnsServer.Code.Memory
import DnsServer.Lib.Loop
import Mathlib.Logic.Function.Basic

namespace DnsServer

/-- A pointer into a string on the heap. -/
structure CharPtr where
  block : Nat
  offset : Nat
  deriving DecidableEq, Repr

/-- The bytes of each block, or `none` where it is not allocated. -/
abbrev Strings := Nat → Option Bytes

/-- What lies at and after a pointer, if a string does. -/
def stringAt (heap : Strings) (ptr : CharPtr) : Option Bytes :=
  (heap ptr.block).bind fun bytes =>
    let rest := bytes.drop ptr.offset
    if (0 : UInt8) ∈ rest then some rest else none

/-- One call of `strtok`: the token, and the heap and the pointer kept after it.  `saved` is
the pointer kept, null at the start. -/
def strtokCall (heap : Strings) (saved : Option CharPtr) (s : Option CharPtr) (delim : Bytes) :
    Call (Option CharPtr × Strings × Option CharPtr) :=
  match s.or saved with
  | none => .undefined
  | some ptr =>
      match stringAt heap ptr with
      | none => .undefined
      | some rest =>
          let skipped := rest.takeWhile fun c => decide (c ∈ delim)
          let start := ptr.offset + skipped.length
          let token := (rest.drop skipped.length).takeWhile fun c => decide (c ≠ 0 ∧ c ∉ delim)
          let stop := start + token.length
          if token = [] then .done (none, heap, some { ptr with offset := start })
          else
            match (heap ptr.block).bind fun bytes => bytes[stop]? with
            | none => .undefined
            | some c =>
                if c = 0 then
                  .done (some { ptr with offset := start }, heap, some { ptr with offset := stop })
                else
                  .done (some { ptr with offset := start },
                    Function.update heap ptr.block
                      ((heap ptr.block).map fun bytes => bytes.set stop 0),
                    some { ptr with offset := stop + 1 })

/-! ### Workers -/

/-- Where a worker is in `extractWordsFromDomain`. -/
inductive SplitPhase
  | idle
  /-- About to call `strtok(domain_copy, ".")`. -/
  | copied (domain : Bytes) (domainCopy : Nat)
  /-- About to copy the token it was given to `words[i]`. -/
  | token (domain : Bytes) (domainCopy : Nat) (words : List Bytes) (token : CharPtr)
  /-- About to call `strtok(NULL, ".")`. -/
  | between (domain : Bytes) (domainCopy : Nat) (words : List Bytes)
  /-- There are no more tokens. -/
  | last (domain : Bytes) (domainCopy : Nat) (words : List Bytes)
  deriving DecidableEq

structure SplitState where
  heap : Strings
  /-- The next block `strdup` gives out. -/
  fresh : Nat
  saved : Option CharPtr
  workers : Nat → SplitPhase

/-- The number of words `words` has room for, less the null pointer after them. -/
def wordCount (domain : Bytes) : Nat := domain.count dot + 1

/-- The phase after a call of `strtok`. -/
def afterToken (domain : Bytes) (domainCopy : Nat) (words : List Bytes) :
    Option CharPtr → SplitPhase
  | none => .last domain domainCopy words
  | some token => .token domain domainCopy words token

/-- A call of `strtok` by a worker. -/
def splitStrtok (s : SplitState) (w : Nat) (arg : Option CharPtr) (domain : Bytes)
    (domainCopy : Nat) (words : List Bytes) : Call SplitState := do
  let (token, heap, saved) ← strtokCall s.heap s.saved arg [dot]
  return { s with
    heap, saved
    workers := Function.update s.workers w (afterToken domain domainCopy words token) }

/-- The next step of a worker that is splitting a name: the state after it. -/
def splitTurn (s : SplitState) (w : Nat) : Call SplitState :=
  match s.workers w with
  | .idle => .done s
  | .copied domain domainCopy =>
      splitStrtok s w (some { block := domainCopy, offset := 0 }) domain domainCopy []
  | .between domain domainCopy words => splitStrtok s w none domain domainCopy words
  | .token domain domainCopy words token =>
      match stringAt s.heap token with
      | none => .undefined
      | some rest =>
          if wordCount domain < words.length then .undefined
          else .done { s with
            workers := Function.update s.workers w
              (.between domain domainCopy (words ++ [cstr rest])) }
  | .last domain domainCopy words =>
      -- `words[i] = NULL`, then `free(domain_copy)`
      if wordCount domain < words.length then .undefined
      else .done { s with
        heap := Function.update s.heap domainCopy none
        workers := Function.update s.workers w .idle }

/-- What a step did. -/
inductive SplitEvent
  | called (w : Nat) (domain : Bytes)
  | went (w : Nat)
  | returned (w : Nat) (domain : Bytes) (words : List Bytes)
  | undefined (w : Nat)

/-- One step of any worker. -/
inductive SplitStep : SplitState → SplitEvent → SplitState → Prop
  /-- `extractWordsFromDomain(domain)`, up to its `strdup`. -/
  | called {s : SplitState} {w : Nat} {domain : Bytes} (hidle : s.workers w = .idle)
      (hstring : (0 : UInt8) ∉ domain) :
      SplitStep s (.called w domain)
        { s with
          heap := Function.update s.heap s.fresh (some (domain ++ [0]))
          fresh := s.fresh + 1
          workers := Function.update s.workers w (.copied domain s.fresh) }
  | went {s s' : SplitState} {w : Nat} (hbusy : s.workers w ≠ .idle)
      (hmore : ∀ domain domainCopy words, s.workers w ≠ .last domain domainCopy words)
      (hturn : splitTurn s w = .done s') : SplitStep s (.went w) s'
  | returned {s s' : SplitState} {w : Nat} {domain : Bytes} {domainCopy : Nat}
      {words : List Bytes} (hlast : s.workers w = .last domain domainCopy words)
      (hturn : splitTurn s w = .done s') : SplitStep s (.returned w domain words) s'
  | undefined {s : SplitState} {w : Nat} (hturn : splitTurn s w = .undefined) :
      SplitStep s (.undefined w) s

/-- Before any name is split. -/
structure SplitStart (s : SplitState) : Prop where
  heap : ∀ block, s.heap block = none
  saved : s.saved = none
  workers : ∀ w, s.workers w = .idle

end DnsServer
