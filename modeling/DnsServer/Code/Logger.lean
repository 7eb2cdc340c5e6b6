/-
The log, as `logger.c` writes it for many threads at once.

`logMessage` takes the lock, reads the clock, has `localtime` convert it, writes the
timestamp, the message and a newline, flushes the stream and gives the lock back.  Each of
these is a step of its own, so that another thread may take any step in between.
`localtime` leaves the time in a buffer the whole process shares, and the stream may write
out what it holds at any moment; a flush writes out all of it.

What a format string and its arguments come to is the message here.
-/
import DnsServer.Code.Scripts
import Mathlib.Logic.Function.Basic

namespace DnsServer

structure Tm where
  tmYear : Nat
  tmMon : Nat
  tmMday : Nat
  tmHour : Nat
  tmMin : Nat
  tmSec : Nat
  deriving DecidableEq, Repr

/-- `%0<width>d`. -/
def zeroPadded (width n : Nat) : Bytes :=
  List.replicate (width - (ascii (toString n)).length) 48 ++ ascii (toString n)

/-- `"[%04d-%02d-%02d %02d:%02d:%02d] [%s] "`. -/
def Tm.stamp (t : Tm) (level : Bytes) : Bytes :=
  ascii "[" ++ zeroPadded 4 (t.tmYear + 1900) ++ ascii "-" ++ zeroPadded 2 (t.tmMon + 1) ++
    ascii "-" ++ zeroPadded 2 t.tmMday ++ ascii " " ++ zeroPadded 2 t.tmHour ++ ascii ":" ++
    zeroPadded 2 t.tmMin ++ ascii ":" ++ zeroPadded 2 t.tmSec ++ ascii "] [" ++ level ++
    ascii "] "

/-- The arguments of `logMessage` that reach the file. -/
structure LogCall where
  level : Bytes
  message : Bytes
  deriving DecidableEq, Repr

/-- Where a thread is in `logMessage`. -/
inductive LogPoint
  | outside
  /-- Waiting for the lock. -/
  | calling (call : LogCall)
  /-- About to read the clock. -/
  | locked (call : LogCall)
  | read (call : LogCall) (now : Int)
  /-- About to write the timestamp. -/
  | converted (call : LogCall) (now : Int)
  | stamped (call : LogCall) (now : Int)
  /-- About to write the newline. -/
  | written (call : LogCall) (now : Int)
  | ended
  /-- About to give the lock back. -/
  | flushed
  deriving DecidableEq

/-- The logger, and what `logMessage` uses with it. -/
structure LoggerState (ι : Type) where
  lock : Option ι
  /-- The buffer of `localtime`. -/
  tm : Tm
  /-- What was written to the stream. -/
  logFile : Bytes
  /-- How much of it is in the file. -/
  inFile : Nat
  point : ι → LogPoint

variable {ι : Type} [DecidableEq ι]

/-- `initLogger`: the lock and the stream, which goes on where the file ends. -/
def initLogger (room opened : Bool) (file : Bytes) (tm : Tm) : Option (LoggerState ι) :=
  if room && opened then
    some { lock := none, tm, logFile := file, inFile := file.length, point := fun _ => .outside }
  else none

namespace LoggerState

def goTo (s : LoggerState ι) (w : ι) (p : LogPoint) : LoggerState ι :=
  { s with point := Function.update s.point w p }

def append (s : LoggerState ι) (bytes : Bytes) : LoggerState ι :=
  { s with logFile := s.logFile ++ bytes }

end LoggerState

/-- What a step did. -/
inductive LogEvent (ι : Type)
  | called (w : ι) (call : LogCall)
  | read (w : ι) (call : LogCall) (now : Int)
  | returned (w : ι)
  | other

inductive LoggerStep (localtime : Int → Tm) :
    LoggerState ι → LogEvent ι → LoggerState ι → Prop
  | call {s : LoggerState ι} {w : ι} {call : LogCall} (hat : s.point w = .outside) :
      LoggerStep localtime s (.called w call) (s.goTo w (.calling call))
  | lock {s : LoggerState ι} {w : ι} {call : LogCall} (hat : s.point w = .calling call)
      (hfree : s.lock = none) :
      LoggerStep localtime s .other { s.goTo w (.locked call) with lock := some w }
  | read {s : LoggerState ι} {w : ι} {call : LogCall} {now : Int}
      (hat : s.point w = .locked call) :
      LoggerStep localtime s (.read w call now) (s.goTo w (.read call now))
  | convert {s : LoggerState ι} {w : ι} {call : LogCall} {now : Int}
      (hat : s.point w = .read call now) :
      LoggerStep localtime s .other { s.goTo w (.converted call now) with tm := localtime now }
  | stamp {s : LoggerState ι} {w : ι} {call : LogCall} {now : Int}
      (hat : s.point w = .converted call now) :
      LoggerStep localtime s .other ((s.append (s.tm.stamp call.level)).goTo w (.stamped call now))
  | write {s : LoggerState ι} {w : ι} {call : LogCall} {now : Int}
      (hat : s.point w = .stamped call now) :
      LoggerStep localtime s .other ((s.append call.message).goTo w (.written call now))
  | endLine {s : LoggerState ι} {w : ι} {call : LogCall} {now : Int}
      (hat : s.point w = .written call now) :
      LoggerStep localtime s .other ((s.append [newline]).goTo w .ended)
  | flush {s : LoggerState ι} {w : ι} (hat : s.point w = .ended) :
      LoggerStep localtime s .other { s.goTo w .flushed with inFile := s.logFile.length }
  | unlock {s : LoggerState ι} {w : ι} (hat : s.point w = .flushed) :
      LoggerStep localtime s (.returned w) { s.goTo w .outside with lock := none }
  /-- The stream writes out some of what it holds. -/
  | spill {s : LoggerState ι} {inFile : Nat} (hmore : s.inFile ≤ inFile)
      (hwritten : inFile ≤ s.logFile.length) : LoggerStep localtime s .other { s with inFile }

/-- `initLogger` has just returned a logger for a file with this in it. -/
def LoggerStart (file : Bytes) (s : LoggerState ι) : Prop :=
  ∃ tm, initLogger true true file tm = some s

end DnsServer
