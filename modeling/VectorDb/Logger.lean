import VectorDb.LoggerFiles
import VectorDb.LoggerLine
import VectorDb.Lib.Claims

/-!
# The ring of lines of `SimpleLogger`

* `LogElem`, `Status` : a slot of the ring, that threads take by compare-and-exchange;
* `Pc` : where a thread is in `put`, `flushAll` or `flush`;
* `SimpleLogger`, `put`, `flushAll`, `go` : the calls, and the next atomic step of a thread;
* `Step` : a call, a step of any thread, or a command of the worker that compresses.
-/

namespace VectorDb
namespace SimpleLogger

inductive Status where
  | clean
  | writing
  | dirty
  | flushing
  deriving DecidableEq, Repr

structure LogElem where
  len : Nat
  ctx : Bytes
  status : Status

/-- What `fs.write` gets. -/
def LogElem.text (e : LogElem) : Bytes := e.ctx.take e.len

/-- A line, and the slot that was drawn for it. -/
structure Ticket where
  slot : Nat
  msg : Line
  deriving DecidableEq

/-- Where a thread is; a flush on the way of a `put` has its ticket. -/
inductive Pc where
  | outside
  /-- `while (!ll->available())`. -/
  | waits (k : Ticket)
  /-- `if (ll->needToFlush())`. -/
  | asks (k : Ticket)
  /-- In `flush`, before the lock. -/
  | locks (start : Nat) (k : Option Ticket)
  /-- `while (ll->needToFlush())`. -/
  | yields (k : Ticket)
  /-- In `write`, before it takes the slot. -/
  | writes (k : Ticket)
  /-- In `write`, with the slot taken. -/
  | lens (k : Ticket)
  /-- `n` bytes are copied. -/
  | copies (k : Ticket) (n : Nat)
  /-- In `flush`, before the first of these slots. -/
  | flushes (todo : List Nat) (k : Option Ticket)
  /-- In `LogElem::flush`, before `fs.write`. -/
  | streams (ii : Nat) (todo : List Nat) (k : Option Ticket)
  /-- In `LogElem::flush`, after `fs.write`. -/
  | cleans (ii : Nat) (todo : List Nat) (k : Option Ticket)

/-- Where a flush goes back to. -/
def Pc.back : Option Ticket → Pc
  | none => .outside
  | some k => .writes k

end SimpleLogger

/-- The logger and its threads, with the lines that were given to `put`, those that `write` has taken and not taken, and
those given to the file. -/
structure SimpleLogger (T : Type) where
  cursor : Nat
  logs : Nat → SimpleLogger.LogElem
  flushingLogs : Option T
  files : SimpleLogger.LogFiles
  pc : T → SimpleLogger.Pc
  lines : List Bytes
  taken : List Bytes
  dropped : List Bytes
  streamed : List Bytes

inductive LoggerAction (T : Type) where
  | put (t : T) (msg : SimpleLogger.Line)
  | flushAll (t : T)
  /-- The next step of a thread. -/
  | go (t : T)
  /-- The next command of the worker. -/
  | compress

namespace SimpleLogger
variable {T : Type} [DecidableEq T]

def setPc (s : SimpleLogger T) (t : T) (p : Pc) : SimpleLogger T := { s with pc := Function.update s.pc t p }

def setElem (s : SimpleLogger T) (i : Nat) (e : LogElem) : SimpleLogger T := { s with logs := Function.update s.logs i e }

variable (num maxLogFiles maxLogFileSize : Nat)

/-- `flush` goes once around the ring. -/
def circular (start : Nat) : List Nat := List.range' start (num - start) ++ List.range start

/-- A slot is drawn; an exchange that fails is tried again. -/
def put (s : SimpleLogger T) (t : T) (msg : Line) : SimpleLogger T :=
  { s.setPc t (.waits ⟨s.cursor, msg⟩) with cursor := (s.cursor + 1) % num, lines := s.lines ++ [msg.text] }

def flushAll (s : SimpleLogger T) (t : T) : SimpleLogger T := s.setPc t (.locks s.cursor none)

/-- The next atomic step of a thread. -/
def go (s : SimpleLogger T) (t : T) : SimpleLogger T :=
  match s.pc t with
  | .outside => s
  | .waits k =>
    if (s.logs k.slot).status = .clean ∨ (s.logs k.slot).status = .dirty then s.setPc t (.asks k) else s
  | .asks k => if (s.logs k.slot).status = .dirty then s.setPc t (.locks k.slot (some k)) else s.setPc t (.writes k)
  | .locks start k =>
    if s.flushingLogs = none then { s.setPc t (.flushes (circular num start) k) with flushingLogs := some t }
    else
      match k with
      | none => s.setPc t .outside
      | some k => s.setPc t (.yields k)
  | .yields k => if (s.logs k.slot).status = .dirty then s else s.setPc t (.writes k)
  | .writes k =>
    if (s.logs k.slot).status = .clean then
      (s.setElem k.slot { s.logs k.slot with status := .writing }).setPc t (.lens k)
    else { s.setPc t .outside with dropped := s.dropped ++ [k.msg.text] }
  | .lens k =>
    let len := if msgSize < k.msg.text.length then msgSize else k.msg.text.length
    (s.setElem k.slot { s.logs k.slot with len }).setPc t (.copies k 0)
  | .copies k n =>
    if n < (s.logs k.slot).len then
      (s.setElem k.slot { s.logs k.slot with ctx := k.msg.text.take (n + 1) ++ (s.logs k.slot).ctx.drop (n + 1) }).setPc t
        (.copies k (n + 1))
    else
      { (s.setElem k.slot { s.logs k.slot with status := .dirty }).setPc t .outside with
        taken := s.taken ++ [k.msg.text] }
  | .flushes [] k => { s.setPc t (Pc.back k) with files := s.files.endFlush maxLogFileSize, flushingLogs := none }
  | .flushes (ii :: todo) k =>
    if (s.logs ii).status = .dirty then
      (s.setElem ii { s.logs ii with status := .flushing }).setPc t (.streams ii todo k)
    else s.setPc t (.flushes todo k)
  | .streams ii todo k =>
    { s.setPc t (.cleans ii todo k) with
      files := s.files.write (s.logs ii).text, streamed := s.streamed ++ [(s.logs ii).text] }
  | .cleans ii todo k => (s.setElem ii { s.logs ii with status := .clean }).setPc t (.flushes todo k)

def Step (s : SimpleLogger T) : LoggerAction T → SimpleLogger T → Prop
  | .put t msg, u => s.pc t = .outside ∧ u = s.put num t msg
  | .flushAll t, u => s.pc t = .outside ∧ u = s.flushAll t
  | .go t, u => u = s.go num maxLogFileSize t
  | .compress, u => u = { s with files := s.files.compress maxLogFiles }

/-- A logger that has started. -/
def first (files : LogFiles) : SimpleLogger T where
  cursor := 0
  logs := fun _ => ⟨0, List.replicate msgSize 0, .clean⟩
  flushingLogs := none
  files
  pc := fun _ => .outside
  lines := []
  taken := []
  dropped := []
  streamed := []

end SimpleLogger
end VectorDb
