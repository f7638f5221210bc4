import Xv6.Log.Model
import Xv6.Sync.Model

/-!
# Concurrent transactions (`log.c`: `begin_op`, `log_write`, `end_op`)

Any number of processes execute file-system operations.  An operation calls `begin_op`,
passes the blocks it modifies to `log_write`, and calls `end_op`; the last one to end
commits for all.  The code is a client of the sleep and wakeup machine, with `log.lock`
as the spin lock.

`log_write` looks at `log.lh.n` and `log.outstanding` before it takes the lock, and
`commit` clears `log.lh.n` without it, as in the source.

Three fields of the state and the arguments of the places within an operation are not in
the source.  They record what the properties speak of: the blocks passed to `log_write`
since the last commit, those of them that it has recorded, the number of commits, and, for
an operation, the number of commits when it began and the blocks it has logged.
-/

namespace Xv6
namespace Log

open Sync

/-- Maximal number of blocks an operation writes (`param.h`). -/
def MAXOPBLOCKS : Nat := 10

/-- The number of log blocks in the superblock that `mkfs` writes (`mkfs.c`). -/
def nlog : Nat := LOGSIZE

/-- The entries of the header in use. -/
def LogHeader.blocks (lh : LogHeader) : List Nat := (List.range lh.n.toNat).map lh.block

/-- The index at which the loop of `log_write` stops: that of the block, if it has been
recorded, else `n`. -/
def LogHeader.slot (lh : LogHeader) (b : Nat) : Nat :=
  ((List.range lh.n.toNat).find? fun i => lh.block i == b).getD lh.n.toNat

/-- The header after `log_write` has recorded a block; `none` if the store is outside the
array `block`. -/
def LogHeader.record (lh : LogHeader) (b : Nat) : Option LogHeader :=
  if LOGSIZE ≤ lh.slot b then
    none
  else
    some {
      n := if lh.slot b = lh.n then lh.n + 1 else lh.n
      block := Function.update lh.block (lh.slot b) b }

/-- `struct log`, without its lock and the place of the log on disk. -/
structure Shared where
  lh : LogHeader
  outstanding : Int
  committing : Bool
  /-- The blocks passed to `log_write` since the last commit, up to the call that is being made. -/
  passed : List Nat
  /-- Those for which `log_write` has been executed to its end. -/
  since : List Nat
  /-- The number of commits. -/
  commits : Nat

/-- What stops the machine. -/
inductive Panic where
  /-- "too big a transaction" -/
  | tooBig
  /-- "log_write outside of trans" -/
  | outside
  /-- "log.committing" -/
  | committing
  /-- A store outside `log.lh.block`. -/
  | overrun
deriving DecidableEq

/-- The places in the code. -/
inductive Place where
  /-- Not in an operation. -/
  | idle
  /-- In `begin_op`, at the tests of the loop. -/
  | begin
  /-- Between `begin_op` and `end_op`. -/
  | op (start : Nat) (logged : List Nat)
  /-- In `log_write`, before the test of `log.outstanding`. -/
  | check (start : Nat) (logged : List Nat) (b : Nat)
  /-- In `log_write`, with the tests behind it. -/
  | record (start : Nat) (logged : List Nat) (b : Nat)
  /-- In `end_op`, at `log.outstanding -= 1`. -/
  | ending (start : Nat) (logged : List Nat)
  /-- Before the last `release(&log.lock)` of `end_op`. -/
  | unlock
  /-- In `commit`. -/
  | commit
  /-- In `commit`, after `log.lh.n = 0`. -/
  | cleared
  /-- In `end_op`, at `log.committing = 0`. -/
  | finish

/-- What a process outside may choose to do. -/
inductive Choice where
  | beginOp
  | logWrite (b : Nat)
  | endOp
  /-- Go on in `log_write` or `commit`. -/
  | goOn
  /-- One of the disk operations of `commit`. -/
  | write

/-- The test of `begin_op`: does the operation have to wait? -/
def Shared.full (s : Shared) : Bool :=
  s.committing || decide (s.lh.n + (s.outstanding + 1) * MAXOPBLOCKS > LOGSIZE)

/-- The blocks an operation has logged, after one more. -/
def addLogged (b : Nat) (logged : List Nat) : List Nat := if b ∈ logged then logged else b :: logged

/-- The statements executed with `log.lock` held. -/
def inside (_p : Nat) (_killed : Bool) (l : Place) (s : Shared) :
    Except Panic (Shared × Next Place Unit) :=
  match l with
  | .begin =>
    if s.full then
      .ok (s, .sleep () .begin)
    else
      .ok ({ s with outstanding := s.outstanding + 1 }, .release (.op s.commits []))
  | .record start logged b =>
    match s.lh.record b with
    | none => .error .overrun
    | some lh =>
      .ok ({ s with lh := lh, since := s.since ++ [b] }, .release (.op start (addLogged b logged)))
  | .ending _ _ =>
    if s.committing then
      .error .committing
    else if s.outstanding - 1 = 0 then
      .ok ({ s with outstanding := s.outstanding - 1, committing := true }, .release .commit)
    else
      .ok ({ s with outstanding := s.outstanding - 1 }, .wakeup () .unlock)
  | .unlock => .ok (s, .release .idle)
  | .finish => .ok ({ s with committing := false }, .wakeup () .unlock)
  | .idle => .ok (s, .release .idle)
  | .op start logged => .ok (s, .release (.op start logged))
  | .check start logged b => .ok (s, .release (.check start logged b))
  | .commit => .ok (s, .release .commit)
  | .cleared => .ok (s, .release .cleared)

/-- The statements executed without `log.lock`; `size` is `log.size`. -/
def outside (size : Nat) (_p : Nat) (a : Choice) (l : Place) (s : Shared) :
    Option (Except Panic (Shared × Outer Place)) :=
  match l, a with
  | .idle, .beginOp => some (.ok (s, .acquire .begin))
  | .op start logged, .logWrite b =>
    if s.lh.n ≥ LOGSIZE ∨ s.lh.n ≥ (size : Int) - 1 then
      some (.error .tooBig)
    else
      some (.ok ({ s with passed := s.passed ++ [b] }, .stay (.check start logged b)))
  | .check start logged b, .goOn =>
    if s.outstanding < 1 then
      some (.error .outside)
    else
      some (.ok (s, .acquire (.record start logged b)))
  | .op start logged, .endOp => some (.ok (s, .acquire (.ending start logged)))
  | .commit, .write => some (.ok (s, .stay .commit))
  | .commit, .goOn =>
    some (.ok ({ s with lh := { s.lh with n := if s.lh.n > 0 then 0 else s.lh.n }
                        passed := [], since := [], commits := s.commits + 1 }, .stay .cleared))
  | .cleared, .goOn => some (.ok (s, .acquire .finish))
  | _, _ => none

/-- The code of the log. -/
def logClient (size : Nat) : Client Shared Place Unit Choice Panic where
  table := false
  inside := inside
  outside := outside size

/-- The log after `initlog`: nothing is recorded and no operation is running. -/
def start (lh : LogHeader) : Sys Shared Place Unit where
  shared := ⟨{ lh with n := 0 }, 0, false, [], [], 0⟩
  lk := none
  ptable := none
  ctl := fun _ => .out .idle
  killed := fun _ => false

/-- Every operation logs at most `MAXOPBLOCKS` distinct blocks. -/
def Limited (s : Sys Shared Place Unit) : Label Choice → Prop
  | .call p (.logWrite b) => ∀ start logged, s.ctl p = .out (.op start logged) →
      (addLogged b logged).length ≤ MAXOPBLOCKS
  | _ => True

end Log
end Xv6
