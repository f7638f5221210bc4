import Xv6.Lib.Links
import Xv6.Lib.Run
import Xv6.Disk.Block

/-!
# The buffer cache (`bio.c`, `memide.c`)

Buffers are numbered; the head of the list is the number after the last one.  A step is a
critical section of `bcache.lock`, the moment at which `acquiresleep` gets a buffer's lock,
or a stretch of code of the process that holds the buffer's lock.  `bread` takes three
steps and `brelse` two, and anything may happen between them.
-/

namespace Xv6
namespace Bcache

open Lib Function

/-- Size of disk block cache (`param.h`: `MAXOPBLOCKS*3`). -/
def NBUF : Nat := 30

/-- `&bcache.head`. -/
def head : Nat := NBUF

/-- `struct buf`, without its place in the list; `valid` and `dirty` are the flags
`B_VALID` and `B_DIRTY`, and `lock` says which process holds the lock. -/
structure Buf where
  valid : Bool
  dirty : Bool
  dev : Nat
  blockno : Nat
  refcnt : Nat
  lock : Option Nat
  data : Block

/-- `bcache`. -/
structure Cache where
  buf : Nat → Buf
  links : Links Nat

/-- What stops the machine. -/
inductive Panic where
  /-- "bget: no buffers" -/
  | noBuffers
  /-- "bwrite" -/
  | bwrite
  /-- "brelse" -/
  | brelse
  /-- "iderw: buf not locked" -/
  | notLocked
  /-- "iderw: nothing to do" -/
  | nothingToDo
  /-- "iderw: request not for disk 1" -/
  | notDisk1
  /-- "iderw: block out of range" -/
  | outOfRange
deriving DecidableEq

namespace Cache

def setBuf (c : Cache) (b : Nat) (x : Buf) : Cache :=
  { c with buf := update c.buf b x }

/-- The first loop of `bget`: is the block already cached? -/
def cached (c : Cache) (dev blockno : Nat) : Option Nat :=
  Links.scan c.links.next head
    (fun b => (c.buf b).dev == dev && (c.buf b).blockno == blockno) (NBUF + 1) (c.links.next head)

/-- The second loop of `bget`: an unused buffer. -/
def unused (c : Cache) : Option Nat :=
  Links.scan c.links.prev head
    (fun b => (c.buf b).refcnt == 0 && !(c.buf b).dirty) (NBUF + 1) (c.links.prev head)

end Cache

/-- `binit`, on the pointers. -/
def binit (l : Links Nat) : Links Nat :=
  (List.range NBUF).foldl (fun l b => l.pushFront head b)
    ⟨update l.next head head, update l.prev head head⟩

/-- Look through buffer cache for block on device `dev`.  If not found, allocate a buffer. -/
def bget (c : Cache) (dev blockno : Nat) : Except Panic (Nat × Cache) :=
  match c.cached dev blockno with
  | some b => .ok (b, c.setBuf b { c.buf b with refcnt := (c.buf b).refcnt + 1 })
  | none =>
    match c.unused with
    | some b =>
      .ok (b, c.setBuf b { c.buf b with
        dev := dev, blockno := blockno, valid := false, dirty := false, refcnt := 1 })
    | none => .error .noBuffers

/-- The critical section of `brelse`. -/
def unref (c : Cache) (b : Nat) : Cache :=
  let c' := c.setBuf b { c.buf b with refcnt := (c.buf b).refcnt - 1 }
  if (c'.buf b).refcnt = 0 then
    { c' with links := (c.links.unlink b).pushFront head b }
  else
    c'

/-- Is the buffer's lock locked, by whomever? -/
def holdingsleep (x : Buf) : Bool := x.lock.isSome

/-- Sync buf with disk.  If `B_DIRTY` is set, write buf to disk, clear `B_DIRTY`, set
`B_VALID`.  Else if `B_VALID` is not set, read buf from disk, set `B_VALID`. -/
def iderw (disksize : Nat) (x : Buf) (disk : Nat → Block) : Except Panic (Buf × (Nat → Block)) :=
  if holdingsleep x = false then
    .error .notLocked
  else if x.valid = true ∧ x.dirty = false then
    .error .nothingToDo
  else if x.dev ≠ 1 then
    .error .notDisk1
  else if x.blockno ≥ disksize then
    .error .outOfRange
  else if x.dirty then
    .ok ({ x with dirty := false, valid := true }, update disk x.blockno x.data)
  else
    .ok ({ x with data := disk x.blockno, valid := true }, disk)

/-! ## Processes -/

/-- Where a process is. -/
inductive Io where
  /-- Not in a function of the cache. -/
  | run
  /-- In `bget`, before `acquiresleep(&b->lock)`. -/
  | waiting (b : Nat)
  /-- In `bread`, with the locked buffer. -/
  | got (b : Nat)
  /-- In `brelse`, after `releasesleep(&b->lock)`. -/
  | releasing (b : Nat)
deriving DecidableEq

structure State where
  cache : Cache
  disk : Nat → Block
  /-- The buffers whose locks a process holds. -/
  held : Nat → List Nat
  io : Nat → Io

/-- The number of processes, and the size of the disk. -/
structure Config where
  procs : Nat
  disksize : Nat

inductive Label where
  /-- `bread(dev, blockno)` begins. -/
  | bread (p dev blockno : Nat)
  /-- `acquiresleep` gets the lock. -/
  | lock (p : Nat)
  /-- `bread` reads the block, if need be, and returns. -/
  | fill (p : Nat)
  /-- The process changes the contents of a buffer. -/
  | modify (p b : Nat) (data : Block)
  | bwrite (p b : Nat)
  /-- `log_write`, as far as the buffer is concerned. -/
  | logWrite (p b : Nat)
  | brelse (p b : Nat)
  /-- `brelse` enters its critical section, and returns. -/
  | unref (p : Nat)

/-- The process that takes the step. -/
def Label.proc : Label → Nat
  | .bread p _ _ | .lock p | .fill p | .modify p _ _ | .bwrite p _ | .logWrite p _ | .brelse p _
  | .unref p => p

/-- Why a step does not lead to another state. -/
inductive Stop where
  | disabled
  | panic (e : Panic)

namespace State

variable (s : State)

def buf (b : Nat) : Buf := s.cache.buf b

def setBuf (b : Nat) (x : Buf) : State := { s with cache := s.cache.setBuf b x }

def setIo (p : Nat) (x : Io) : State := { s with io := update s.io p x }

def setHeld (p : Nat) (bs : List Nat) : State := { s with held := update s.held p bs }

end State

/-- `iderw(b)`. -/
def callIderw (cfg : Config) (s : State) (b : Nat) : Except Stop State :=
  match iderw cfg.disksize (s.buf b) s.disk with
  | .error e => .error (.panic e)
  | .ok (x, disk) => .ok { s.setBuf b x with disk := disk }

/-- What a process does that is not in a function of the cache. -/
def client (cfg : Config) (s : State) : Label → Except Stop State
  | .bread p dev blockno =>
    match bget s.cache dev blockno with
    | .error e => .error (.panic e)
    | .ok (b, c) => .ok ({ s with cache := c }.setIo p (.waiting b))
  | .modify _ b data => .ok (s.setBuf b { s.buf b with data := data })
  | .bwrite _ b =>
    if holdingsleep (s.buf b) = false then
      .error (.panic .bwrite)
    else
      callIderw cfg (s.setBuf b { s.buf b with dirty := true }) b
  | .logWrite _ b => .ok (s.setBuf b { s.buf b with dirty := true })
  | .brelse p b =>
    if holdingsleep (s.buf b) = false then
      .error (.panic .brelse)
    else
      .ok (((s.setBuf b { s.buf b with lock := none }).setHeld p ((s.held p).erase b)).setIo p
        (.releasing b))
  | _ => .error .disabled

/-- What a process does in a function of the cache. -/
def inside (cfg : Config) (s : State) (l : Label) : Io → Except Stop State
  | .waiting b =>
    match l with
    | .lock p =>
      if (s.buf b).lock = none then
        .ok (((s.setBuf b { s.buf b with lock := some p }).setHeld p (b :: s.held p)).setIo p
          (.got b))
      else
        .error .disabled
    | _ => .error .disabled
  | .got b =>
    match l with
    | .fill p =>
      if (s.buf b).valid = false then
        match callIderw cfg s b with
        | .error e => .error e
        | .ok s' => .ok (s'.setIo p .run)
      else
        .ok (s.setIo p .run)
    | _ => .error .disabled
  | .releasing b =>
    match l with
    | .unref p => .ok ({ s with cache := unref s.cache b }.setIo p .run)
    | _ => .error .disabled
  | .run => .error .disabled

/-- A step. -/
def step (cfg : Config) (l : Label) (s : State) : Except Stop State :=
  if l.proc < cfg.procs then
    match s.io l.proc with
    | .run => client cfg s l
    | x => inside cfg s l x
  else
    .error .disabled

def Steps (cfg : Config) (s : State) (l : Label) (s' : State) : Prop := step cfg l s = .ok s'

/-- A process releases only a buffer that it got from `bread`. -/
def State.owns (s : State) : Label → Bool
  | .brelse p b => decide (b ∈ s.held p)
  | _ => true

/-- The steps of processes that keep to this. -/
def OwnSteps (cfg : Config) (s : State) (l : Label) (s' : State) : Prop :=
  Steps cfg s l s' ∧ s.owns l = true

/-- The cache after `binit`; `l` are the pointers before, and the buffers are zero. -/
def start (l : Links Nat) (disk : Nat → Block) : State where
  cache := ⟨fun _ => ⟨false, false, 0, 0, 0, none, Block.zero⟩, binit l⟩
  disk := disk
  held := fun _ => []
  io := fun _ => .run

end Bcache
end Xv6
