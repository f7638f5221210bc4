import Xv6.Disk.Block
import Xv6.Lib.Chain
import Xv6.Lib.Run

/-!
# The disk driver (`ide.c`)

`iderw` puts a buffer at the end of the queue `idequeue`, which is threaded through the
buffers, starts the disk if the buffer is the only one, and sleeps until the buffer is
valid and clean.  `ideintr` takes the buffer whose command has completed off the queue,
wakes its process and starts the next one.  That a command is running for a buffer is
represented only by the buffer being the first.

Both functions hold `idelock` from beginning to end, except while `iderw` sleeps, so each
stretch is one step.  The disk completes a command some time after it was started, and
raises one interrupt for it.
-/

namespace Xv6
namespace Ide

open Lib Function

def SECTOR_SIZE : Nat := 512

def FSSIZE : Nat := 4000

/-- `struct buf`, as far as the driver uses it.  `qnext` is in the queue. -/
structure Buf where
  valid : Bool
  dirty : Bool
  dev : Nat
  blockno : Nat
  data : Block

/-- `(b->flags & (B_VALID|B_DIRTY)) == B_VALID`. -/
def Buf.done (b : Buf) : Bool := b.valid && !b.dirty

/-- What the driver writes to the registers of the disk: the drive, the sector, and for a
write the data. -/
structure Command where
  drive : Nat
  sector : Nat
  write : Option Block

/-- The disk as the driver sees it. -/
inductive Device where
  | idle
  | busy (c : Command)
  /-- The command has completed and the interrupt is pending.  After a read the data are
  there for `insl`. -/
  | done (data : Option Block)

/-- The process that has locked the buffer. -/
inductive Caller where
  /-- It is not in `iderw`. -/
  | outside
  /-- It sleeps in `iderw`. -/
  | asleep
  /-- It has been woken. -/
  | ready
deriving DecidableEq

/-- The driver, its callers and the disk, for `n` buffers. -/
structure Sys (n : Nat) where
  buf : Fin n → Buf
  queue : Chain (Fin n)
  device : Device
  disk : Nat → Nat → Block
  havedisk1 : Bool
  caller : Fin n → Caller
  /-- The buffers in the order in which `iderw` queued them. -/
  queued : List (Fin n)
  /-- The buffers in the order in which their commands were started. -/
  started : List (Fin n)
  /-- The buffers in the order in which `ideintr` finished them. -/
  finished : List (Fin n)

/-- Why a step does not go on. -/
inductive Stop where
  | disabled
  | panic (msg : String)
  /-- The disk is given a command, or asked for data, at the wrong time. -/
  | misuse
  /-- The loop over the queue does not end. -/
  | endless
deriving DecidableEq

variable {n : Nat}

/-- The command for a buffer. -/
def commandOf (b : Buf) : Command where
  drive := b.dev % 2
  sector := b.blockno * (BSIZE / SECTOR_SIZE) % 2 ^ 28
  write := if b.dirty then some b.data else none

def idestart (s : Sys n) (b : Fin n) : Except Stop (Sys n) :=
  if (s.buf b).blockno ≥ FSSIZE then .error (.panic "incorrect blockno")
  else
    match s.device with
    | .idle => .ok { s with
        device := .busy (commandOf (s.buf b))
        started := s.started ++ [b] }
    | _ => .error .misuse

/-- The loop that waits for the request. -/
def awaitDone (s : Sys n) (b : Fin n) : Sys n :=
  { s with caller := update s.caller b (if (s.buf b).done then .outside else .asleep) }

/-- `iderw`, called by the process that has locked the buffer, up to `sleep`. -/
def iderw (s : Sys n) (b : Fin n) : Except Stop (Sys n) :=
  if (s.buf b).done then .error (.panic "iderw: nothing to do")
  else if (s.buf b).dev ≠ 0 ∧ ¬s.havedisk1 then .error (.panic "iderw: ide disk 1 not present")
  else
    match s.queue.append n b with
    | none => .error .endless
    | some queue =>
      let s := { s with queue := queue, queued := s.queued ++ [b] }
      if s.queue.root = some b then
        match idestart s b with
        | .error e => .error e
        | .ok s => .ok (awaitDone s b)
      else .ok (awaitDone s b)

/-- Mark the buffer and wake its process. -/
def markDone (s : Sys n) (b : Fin n) (data : Block) : Sys n :=
  { s with
    buf := update s.buf b { s.buf b with valid := true, dirty := false, data := data }
    caller := update s.caller b
      (match s.caller b with
      | .asleep => .ready
      | c => c)
    device := .idle
    finished := s.finished ++ [b] }

/-- `if(!(b->flags & B_DIRTY)) insl(...)`. -/
def insl (b : Buf) (data : Option Block) : Except Stop Block :=
  if b.dirty then .ok b.data
  else
    match data with
    | some d => .ok d
    | none => .error .misuse

/-- `ideintr`. -/
def ideintr (s : Sys n) (data : Option Block) : Except Stop (Sys n) :=
  match s.queue.root with
  | none => .ok { s with device := .idle }
  | some b =>
    match insl (s.buf b) data with
    | .error e => .error e
    | .ok d =>
      let s := { s with queue := { s.queue with root := s.queue.next b } }
      let s := markDone s b d
      match s.queue.root with
      | none => .ok s
      | some b' => idestart s b'

/-- The disk completes the command. -/
def complete (s : Sys n) (c : Command) : Sys n :=
  match c.write with
  | none => { s with device := .done (some (s.disk c.drive c.sector)) }
  | some d => { s with
      device := .done none
      disk := update s.disk c.drive (update (s.disk c.drive) c.sector d) }

inductive Label (n : Nat) where
  /-- The process that has locked the buffer calls `iderw`. -/
  | call (b : Fin n)
  /-- It goes on after `sleep`. -/
  | resume (b : Fin n)
  /-- The disk completes a command. -/
  | complete
  /-- The interrupt for it. -/
  | intr
  /-- The process that has locked a buffer uses it, or the cache gives the buffer to another
  block. -/
  | use (b : Fin n) (buf : Buf)

def step (l : Label n) (s : Sys n) : Except Stop (Sys n) :=
  match l with
  | .call b => if s.caller b = .outside then iderw s b else .error .disabled
  | .resume b => if s.caller b = .ready then .ok (awaitDone s b) else .error .disabled
  | .complete =>
    match s.device with
    | .busy c => .ok (complete s c)
    | _ => .error .disabled
  | .intr =>
    match s.device with
    | .done data => ideintr s data
    | _ => .error .disabled
  | .use b buf =>
    if s.caller b = .outside then .ok { s with buf := update s.buf b buf }
    else .error .disabled

def Steps (s : Sys n) (l : Label n) (s' : Sys n) : Prop := step l s = .ok s'

/-- After `ideinit`: no buffer is queued and the disk is idle. -/
def start (buf : Fin n → Buf) (disk : Nat → Nat → Block) (havedisk1 : Bool) : Sys n where
  buf := buf
  queue := ⟨none, fun _ => none⟩
  device := .idle
  disk := disk
  havedisk1 := havedisk1
  caller := fun _ => .outside
  queued := []
  started := []
  finished := []

end Ide
end Xv6
