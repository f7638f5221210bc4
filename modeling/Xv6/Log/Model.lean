import Xv6.Lib.Exec
import Xv6.Disk.Block

/-!
# The redo log (`log.c`): commit and recovery

The model keeps what `commit()` and `recover_from_log()` read and write:

* the disk, one `Block` for each block number;
* the buffer cache, as the contents of the blocks that are cached;
* the in-memory header `log.lh`;
* the number of single-block disk writes the machine still performs.

`bwrite` is the only operation that reaches the disk.  When no write is left the
machine stops there, and all that survives is the disk: a stop between two
writes of `commit()` or of `recover_from_log()` is therefore a choice of that
number.  The words of the header block are those of `struct logheader`: word `0`
is `n`, word `i + 1` is `block[i]`.
-/

namespace Xv6
namespace Log

open Lib Function

/-- Capacity of `log.lh.block` (`param.h`: `MAXOPBLOCKS*3`). -/
def LOGSIZE : Nat := 30

/-- The disk: the contents of every block. -/
abbrev Disk : Type := Nat → Block

/-- `struct logheader`, the in-memory copy. -/
structure LogHeader where
  n : Int
  block : Nat → Nat

/-- Where the log lies on disk (`log.start`, `log.size`, from the superblock). -/
structure LogArea where
  start : Nat
  size : Nat

/-- The log area: the header block and the log blocks. -/
def LogArea.Contains (log : LogArea) (b : Nat) : Prop :=
  log.start ≤ b ∧ b < log.start + log.size

/-- The machine state seen by the log code. -/
structure State where
  disk : Disk
  cache : Nat → Option Block
  lh : LogHeader
  writesLeft : Nat

/-- Log code stops only when the machine does, leaving the disk. -/
abbrev LogM : Type → Type := Exec Disk State

/-- The contents of a block: the cached copy, else the disk's, which is then
cached. -/
def bread (b : Nat) : LogM Block := fun s =>
  match s.cache b with
  | some d => .ok (d, s)
  | none =>
    .ok (s.disk b, { s with cache := update s.cache b (some (s.disk b)) })

/-- Write `d` to block `b`, in the cache and on disk.  The machine stops here if
it has no write left. -/
def bwrite (b : Nat) (d : Block) : LogM Unit := fun s =>
  match s.writesLeft with
  | 0 => .error s.disk
  | k + 1 =>
    .ok ((), { s with
      disk := update s.disk b d
      cache := update s.cache b (some d)
      writesLeft := k })

/-- `for (tail = 0; tail < log.lh.n; tail++)`. -/
def forTail (f : Nat → LogM Unit) : LogM Unit := do
  let s ← Exec.get
  Exec.upto s.lh.n.toNat f

/-- One round of `install_trans()`: read log block, read dst, copy block to dst,
write dst to disk. -/
def installRound (log : LogArea) (tail : Nat) : LogM Unit := do
  let lbuf ← bread (log.start + tail + 1)
  let s ← Exec.get
  let _ ← bread (s.lh.block tail)
  bwrite (s.lh.block tail) lbuf

/-- Copy committed blocks from log to their home location. -/
def installTrans (log : LogArea) : LogM Unit := forTail (installRound log)

/-- A 32-bit word read as an `int`. -/
def toInt (w : Nat) : Int := if w < 2 ^ 31 then (w : Int) else (w : Int) - 2 ^ 32

/-- The header stored in a block, over the previous in-memory header: only the
first `n` entries are read. -/
def decodeHead (d : Block) (old : LogHeader) : LogHeader where
  n := toInt (d.word 0)
  block := fun i => if (i : Int) < toInt (d.word 0) then d.word (i + 1) else old.block i

/-- The block after storing the header in it: `n` and the first `n` entries. -/
def encodeHead (d : Block) (lh : LogHeader) : Block :=
  (List.range lh.n.toNat).foldl (fun hb i => hb.setWord (i + 1) (lh.block i))
    (d.setWord 0 (lh.n % 2 ^ 32).toNat)

/-- Read the log header from disk into the in-memory log header. -/
def readHead (log : LogArea) : LogM Unit := do
  let buf ← bread log.start
  Exec.modify fun s => { s with lh := decodeHead buf s.lh }

/-- Write in-memory log header to disk. -/
def writeHead (log : LogArea) : LogM Unit := do
  let buf ← bread log.start
  let s ← Exec.get
  bwrite log.start (encodeHead buf s.lh)

/-- `log.lh.n = 0`. -/
def clearHead : LogM Unit :=
  Exec.modify fun s => { s with lh := { s.lh with n := 0 } }

/-- Install a committed transaction, if there is one, and clear the log. -/
def recoverFromLog (log : LogArea) : LogM Unit := do
  readHead log
  installTrans log
  clearHead
  writeHead log

/-- One round of `write_log()`: the cache block is copied to the log block. -/
def writeLogRound (log : LogArea) (tail : Nat) : LogM Unit := do
  let _ ← bread (log.start + tail + 1)
  let s ← Exec.get
  let src ← bread (s.lh.block tail)
  bwrite (log.start + tail + 1) src

/-- Copy modified blocks from cache to log. -/
def writeLog (log : LogArea) : LogM Unit := forTail (writeLogRound log)

/-- Commit the recorded transaction. -/
def commit (log : LogArea) : LogM Unit := do
  let s ← Exec.get
  if 0 < s.lh.n then
    writeLog log
    writeHead log
    installTrans log
    clearHead
    writeHead log
  else
    pure ()

/-- The machine right after a reboot: nothing is cached, `log` is in `.bss`. -/
def boot (d : Disk) (writes : Nat) : State where
  disk := d
  cache := fun _ => none
  lh := { n := 0, block := fun _ => 0 }
  writesLeft := writes

/-- The disk a run leaves, whether it completed or was stopped. -/
def diskAfter : Except Disk (Unit × State) → Disk
  | .ok (_, s) => s.disk
  | .error d => d

/-- `Recovers log d d'`: from disk `d`, after any number of recoveries that were
stopped midway, one recovery completes and leaves disk `d'`. -/
inductive Recovers (log : LogArea) : Disk → Disk → Prop
  | complete {d : Disk} {writes : Nat} {s : State}
      (h : recoverFromLog log (boot d writes) = .ok ((), s)) : Recovers log d s.disk
  | stopped {d d1 d' : Disk} {writes : Nat}
      (h : recoverFromLog log (boot d writes) = .error d1)
      (hrest : Recovers log d1 d') : Recovers log d d'

/-- A transaction recorded in `log.lh`, ready to be committed: between one and
`log.size - 1` distinct home blocks outside the log area, each cached with its
new contents, on a disk whose header says that nothing is committed. -/
structure Recorded (log : LogArea) (s : State) : Prop where
  clean : toInt ((s.disk log.start).word 0) = 0
  pos : 1 ≤ s.lh.n
  fits : s.lh.n ≤ (log.size : Int) - 1
  capacity : s.lh.n ≤ LOGSIZE
  isBlockno : ∀ i, i < s.lh.n.toNat → s.lh.block i < 2 ^ 32
  distinct : ∀ i j, i < s.lh.n.toNat → j < s.lh.n.toNat → s.lh.block i = s.lh.block j → i = j
  outside : ∀ i, i < s.lh.n.toNat → ¬ log.Contains (s.lh.block i)
  cached : ∀ i, i < s.lh.n.toNat → (s.cache (s.lh.block i)).isSome

/-- The home blocks of the recorded transaction. -/
def State.IsHome (s : State) (b : Nat) : Prop := ∃ i, i < s.lh.n.toNat ∧ s.lh.block i = b

instance (s : State) (b : Nat) : Decidable (s.IsHome b) :=
  inferInstanceAs (Decidable (∃ i, i < s.lh.n.toNat ∧ s.lh.block i = b))

/-- The disk with every update of the recorded transaction applied. -/
def State.updated (s : State) : Disk := fun b =>
  if s.IsHome b then (s.cache b).getD (s.disk b) else s.disk b

end Log
end Xv6
