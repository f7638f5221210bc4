import Xv6.Lib.Run
import Mathlib.Logic.Function.Basic

/-!
# Sleeping and waking up (`proc.c`: `sleep`, `wakeup`, `sched`, `kill`)

Kernel code that waits does so under a spin lock `lk`: it tests a condition with `lk`
held and calls `sleep(chan, lk)`; code that makes the condition true calls
`wakeup(chan)`.  `sleep` and `wakeup` go through the lock of the process table,
`ptable.lock`, which a sleeping process leaves to the scheduler of its CPU.

This module models that machine for any code that uses it.  The code is a `Client`: what
it does with `lk` held is given statement by statement by `inside`, what it does
otherwise by `outside`.  The calls of `acquire`, `release`, `sleep` and `wakeup` are
carried out here, one step for each lock operation of the source, so that every
interleaving of them is a run.  Any number of processes take part.

`lk` may be `ptable.lock` itself (`Client.table`): then `sleep` does not touch the locks,
and the client calls `wakeup1`.
-/

namespace Xv6
namespace Sync

open Function

/-- What a statement executed with `lk` held does next. -/
inductive Next (L C : Type) where
  /-- Go on with `lk` held. -/
  | stay (l : L)
  /-- Call `sleep(chan, lk)`, and go on at `l` with `lk` held again. -/
  | sleep (chan : C) (l : L)
  /-- Call `wakeup(chan)`, and go on at `l`. -/
  | wakeup (chan : C) (l : L)
  /-- Call `release(lk)`, and go on at `l`. -/
  | release (l : L)

/-- What a statement executed without `lk` does next. -/
inductive Outer (L : Type) where
  | stay (l : L)
  /-- Call `acquire(lk)`, and go on at `l`. -/
  | acquire (l : L)

/-- The code of the processes.  `S` is the memory they share, `L` the places in the code,
`C` the channels, `A` the choices of the code outside, and `E` the panics. -/
structure Client (S L C A E : Type) where
  /-- Is `lk` the lock of the process table? -/
  table : Bool
  /-- The statement at a place of the critical section, for a process and its `killed`
  flag. -/
  inside : Nat → Bool → L → S → Except E (S × Next L C)
  /-- The statement at a place outside; `none` if the choice is not open there. -/
  outside : Nat → A → L → S → Option (Except E (S × Outer L))

/-- Where a process is. -/
inductive Ctl (L C : Type) where
  /-- Executing client code without `lk`. -/
  | out (l : L)
  /-- In `acquire(lk)`. -/
  | acquire (l : L)
  /-- Executing client code with `lk` held. -/
  | inside (l : L)
  /-- In `sleep`, before `acquire(&ptable.lock)`. -/
  | sleepLock (chan : C) (l : L)
  /-- In `sleep`, before `release(lk)`. -/
  | sleepUnlock (chan : C) (l : L)
  /-- In `sleep`, before the process goes to sleep and calls `sched`. -/
  | sleepSched (chan : C) (l : L)
  /-- SLEEPING. -/
  | asleep (chan : C) (l : L)
  /-- RUNNABLE, in `sched` called by `sleep`. -/
  | runnable (l : L)
  /-- In `sleep`, back from `sched`, before `release(&ptable.lock)`. -/
  | sleepReturn (l : L)
  /-- In `wakeup`, before `acquire(&ptable.lock)`. -/
  | wakeupLock (chan : C) (l : L)
  /-- Before `wakeup1`. -/
  | wakeupScan (chan : C) (l : L)
  /-- In `wakeup`, before `release(&ptable.lock)`. -/
  | wakeupUnlock (l : L)

/-- Who holds the lock of the process table. -/
inductive Holder where
  | proc (p : Nat)
  /-- The scheduler of some CPU. -/
  | scheduler
deriving DecidableEq

/-- A state of the machine. -/
structure Sys (S L C : Type) where
  shared : S
  /-- The holder of `lk`, if `lk` is not the lock of the process table. -/
  lk : Option Nat
  ptable : Option Holder
  ctl : Nat → Ctl L C
  killed : Nat → Bool

/-- A step of the machine. -/
inductive Label (A : Type) where
  /-- Process `p` executes its next statement. -/
  | run (p : Nat)
  /-- Process `p`, outside, makes choice `a`. -/
  | call (p : Nat) (a : A)
  /-- The scheduler, holding `ptable.lock`, switches to process `p`. -/
  | dispatch (p : Nat)
  /-- A scheduler takes `ptable.lock`. -/
  | lockTable
  /-- A scheduler gives `ptable.lock` back. -/
  | unlockTable
  /-- Somebody kills process `p`; all of `kill` runs under `ptable.lock`. -/
  | kill (p : Nat)

/-- Why a step does not lead to another state. -/
inductive Stop (E : Type) where
  /-- The step cannot be taken now. -/
  | disabled
  | panic (e : E)

/-- `wakeup1`, for one process. -/
def Ctl.wake {L C : Type} [DecidableEq C] (chan : C) : Ctl L C → Ctl L C
  | .asleep c l => if c = chan then .runnable l else .asleep c l
  | x => x

/-- `kill`, for the process killed. -/
def Ctl.rouse {L C : Type} : Ctl L C → Ctl L C
  | .asleep _ l => .runnable l
  | x => x

variable {S L C A E : Type}

namespace Sys

/-- Process `p` goes on at `x`. -/
def goto (s : Sys S L C) (p : Nat) (x : Ctl L C) : Sys S L C :=
  { s with ctl := update s.ctl p x }

end Sys

variable (cl : Client S L C A E)

/-- `acquire(lk)`. -/
def acquireLk (p : Nat) (l : L) (s : Sys S L C) : Except (Stop E) (Sys S L C) :=
  if cl.table then
    if s.ptable = none then
      .ok { s.goto p (.inside l) with ptable := some (.proc p) }
    else
      .error .disabled
  else
    if s.lk = none then
      .ok { s.goto p (.inside l) with lk := some p }
    else
      .error .disabled

/-- `release(lk)`. -/
def releaseLk (s : Sys S L C) : Sys S L C :=
  if cl.table then { s with ptable := none } else { s with lk := none }

/-- `acquire(&ptable.lock)`, after which process `p` is at `x`. -/
def acquireTable (p : Nat) (x : Ctl L C) (s : Sys S L C) : Except (Stop E) (Sys S L C) :=
  if s.ptable = none then
    .ok { s.goto p x with ptable := some (.proc p) }
  else
    .error .disabled

/-- Carry out what client code holding `lk` does next. -/
def proceed (p : Nat) (s : Sys S L C) : Next L C → Sys S L C
  | .stay l => s.goto p (.inside l)
  | .sleep c l => s.goto p (if cl.table then .sleepSched c l else .sleepLock c l)
  | .wakeup c l => s.goto p (if cl.table then .wakeupScan c l else .wakeupLock c l)
  | .release l => (releaseLk cl s).goto p (.out l)

variable [DecidableEq C]

/-- The next statement of process `p`. -/
def runProc (p : Nat) (s : Sys S L C) : Except (Stop E) (Sys S L C) :=
  match s.ctl p with
  | .acquire l => acquireLk cl p l s
  | .inside l =>
    match cl.inside p (s.killed p) l s.shared with
    | .error e => .error (.panic e)
    | .ok (s', n) => .ok (proceed cl p { s with shared := s' } n)
  | .sleepLock c l => acquireTable p (.sleepUnlock c l) s
  | .sleepUnlock c l => .ok { s.goto p (.sleepSched c l) with lk := none }
  -- `sched` switches to the scheduler of this CPU, which now has the lock.
  | .sleepSched c l => .ok { s.goto p (.asleep c l) with ptable := some .scheduler }
  | .sleepReturn l => .ok { s.goto p (.acquire l) with ptable := none }
  | .wakeupLock c l => acquireTable p (.wakeupScan c l) s
  | .wakeupScan c l =>
    let woken : Sys S L C := { s with ctl := fun q => (s.ctl q).wake c }
    .ok (woken.goto p (if cl.table then .inside l else .wakeupUnlock l))
  | .wakeupUnlock l => .ok { s.goto p (.inside l) with ptable := none }
  | .out _ | .asleep _ _ | .runnable _ => .error .disabled

/-- A step of the machine. -/
def step : Label A → Sys S L C → Except (Stop E) (Sys S L C)
  | .run p, s => runProc cl p s
  | .call p a, s =>
    match s.ctl p with
    | .out l =>
      match cl.outside p a l s.shared with
      | none => .error .disabled
      | some (.error e) => .error (.panic e)
      | some (.ok (s', .stay l')) => .ok ({ s with shared := s' }.goto p (.out l'))
      | some (.ok (s', .acquire l')) => .ok ({ s with shared := s' }.goto p (.acquire l'))
    | _ => .error .disabled
  | .dispatch p, s =>
    match s.ptable, s.ctl p with
    | some .scheduler, .runnable l =>
      .ok { s.goto p (if cl.table then .inside l else .sleepReturn l) with
        ptable := some (.proc p) }
    | _, _ => .error .disabled
  | .lockTable, s =>
    if s.ptable = none then .ok { s with ptable := some .scheduler } else .error .disabled
  | .unlockTable, s =>
    if s.ptable = some .scheduler then .ok { s with ptable := none } else .error .disabled
  | .kill p, s =>
    if s.ptable = none then
      .ok { s.goto p (s.ctl p).rouse with killed := update s.killed p true }
    else
      .error .disabled

/-- The machine as a transition system. -/
def Steps (s : Sys S L C) (l : Label A) (s' : Sys S L C) : Prop := step cl l s = .ok s'

/-- No process has begun: all are outside, no lock is held. -/
structure Initial (s : Sys S L C) : Prop where
  lk : s.lk = none
  ptable : s.ptable = none
  out : ∀ p, ∃ l, s.ctl p = .out l

end Sync
end Xv6
