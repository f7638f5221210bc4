import Xv6.Lib.Run
import Xv6.Proc.Model
import Xv6.Sched.Kin

/-!
# The process table and the scheduler (`proc.c`)

The life of processes at the grain of the lock of the process table.  A step is one stretch
of code between taking `ptable.lock` and giving it up, between one `swtch` and the next, or
an assignment `fork` makes without the lock.  The lock belongs to a CPU: `swtch` hands it
from the scheduler to the process it switches to, which releases it in `forkret`, `yield`,
`sleep` or goes on with it in `wait`; and `sched` hands it from a process to the scheduler of
its CPU.

Every CPU runs the loop of `scheduler` with the policy it reads at the top.  Policy 0 goes
round the table; any other number is the multi-level feedback queue, whose arrays
`proc_priority`, `proc_ticks` and `proc_wait_ticks` are fields of the slots here.  What a
process does apart from these calls is arbitrary: any process that runs may call any of them.

The fields marked as history are read by no step.
-/

namespace Xv6
namespace Sched

open Proc Function

/-- What a process sleeps on: nothing, the slot of a process that waits for its children, or
some other address. -/
inductive Chan where
  | null
  | proc (i : Nat)
  | other (n : Nat)
deriving DecidableEq

/-- Where a process goes on when the scheduler switches to it. -/
inductive Cont where
  | forkret
  | yield
  | sleep
  | wait
deriving DecidableEq

/-- Where the code of a process is. -/
inductive Place where
  /-- There is none: the slot is free, being filled, or its process has exited. -/
  | off
  /-- Running without `ptable.lock`. -/
  | run
  /-- In `sched`. -/
  | sched (k : Cont)
  /-- Just switched to, with `ptable.lock` held. -/
  | back (k : Cont)
deriving DecidableEq

/-- Where a process in `sched` goes on. -/
def Place.cont : Place → Cont
  | .sched k => k
  | _ => .forkret

/-- The entries of `proc_priority`, `proc_ticks` and `proc_wait_ticks` for one slot. -/
structure Row where
  priority : Int
  ticks : Int → Int
  waitTicks : Int → Int
  /-- History: the slices that ended at each level since the slot was allocated. -/
  slices : Int → Nat
  /-- History: the calls of `yield` and `exit` at each level since then. -/
  charged : Int → Nat
  /-- History: the slices since the process came to its level. -/
  stay : Nat
  /-- History: the calls of `yield` and `exit` since it came to its level. -/
  stayCharged : Nat
  /-- History: its ticks at the level when it came there. -/
  entered : Int

/-- A slot of the process table, with its row of the scheduler's arrays. -/
structure Task where
  state : ProcState
  pid : Nat
  parent : Option Nat
  chan : Chan
  killed : Bool
  place : Place
  job : Job
  /-- History: the pid of the process that created this one. -/
  creator : Nat
  row : Row

/-- Where the scheduler of a CPU is. -/
inductive Loop where
  /-- At the top of the loop. -/
  | top
  /-- In `swtch`: slot `i` runs, under the policy read at the top. -/
  | ran (policy : Int) (i : Nat)
  /-- Back from `swtch`, with `ptable.lock` held. -/
  | back (policy : Int) (i : Nat)
deriving DecidableEq

/-- Per-CPU state. -/
structure Cpu where
  proc : Option Nat
  policy : Int
  loop : Loop
  /-- History: the pid of the process last switched to. -/
  ranPid : Nat
  /-- History: the level it had then. -/
  ranLevel : Int
  /-- History: how many iterations of the multi-level feedback queue have ended. -/
  iterations : Nat

/-- What is recorded of `exit` and `wait`. -/
inductive Event where
  | exit (pid : Nat)
  /-- `wait`, called by the process in a slot, returns a pid. -/
  | wait (caller pid : Nat)
  /-- `wait` returns -1. -/
  | noChild (caller : Nat)
deriving DecidableEq

structure State where
  proc : Nat → Task
  cpu : Nat → Cpu
  /-- The CPU that holds `ptable.lock`. -/
  lock : Option Nat
  /-- The next pid; an `int` takes its value modulo `2 ^ 32`. -/
  nextpid : Nat
  initproc : Nat
  /-- History. -/
  events : List Event

/-- What a process that runs can do next. -/
inductive Act where
  /-- `fork`, as far as the allocation of a slot. -/
  | fork
  /-- `fork` finds no memory and frees the slot. -/
  | forkFail
  /-- `np->parent = curproc` -/
  | forkParent
  /-- `np->state = RUNNABLE` -/
  | forkDone
  | exit
  | wait
  | yield
  | sleep (n : Nat)
  /-- Go on after the switch. -/
  | resume
  /-- `p->killed = 1` in `trap`. -/
  | fault
  | setSchedPolicy (policy : Int)

inductive Label where
  /-- The process on CPU `c` goes on. -/
  | act (c : Nat) (a : Act)
  /-- The scheduler of CPU `c` begins an iteration. -/
  | schedule (c : Nat)
  /-- The scheduler of CPU `c` goes on after `swtch`. -/
  | goOn (c : Nat)
  /-- `wakeup`, by a process or an interrupt. -/
  | wakeup (n : Nat)
  | kill (pid : Nat)

/-- Why a step does not lead to another state. -/
inductive Stop where
  | disabled
  /-- "init exiting" -/
  | initExiting
deriving DecidableEq

namespace State

/-- Update a slot. -/
def setProc (s : State) (i : Nat) (t : Task) : State :=
  { s with proc := update s.proc i t }

/-- Update a CPU. -/
def setCpu (s : State) (c : Nat) (u : Cpu) : State :=
  { s with cpu := update s.cpu c u }

/-- Move the code of a process. -/
def goto (s : State) (i : Nat) (x : Place) : State := s.setProc i { s.proc i with place := x }

/-- Change what a process is in the middle of. -/
def setJob (s : State) (i : Nat) (j : Job) : State := s.setProc i { s.proc i with job := j }

/-- The first slot that satisfies a test. -/
def find (s : State) (test : Task → Bool) : Option Nat :=
  (List.range NPROC).find? fun i => test (s.proc i)

end State

/-! ## Ticks and levels -/

/-- `x++` for an `int`. -/
def incr (x : Int) : Int := (x + 1).bmod (2 ^ 32)

/-- `(int[]){0, 32, 16, 8}[q]` -/
def allotment (q : Int) : Int :=
  if q = 1 then 32 else if q = 2 then 16 else if q = 3 then 8 else 0

/-- `(proc_priority[idx] == 0) ? 500 : 10 * (int[]){0, 32, 16, 8}[proc_priority[idx]]` -/
def required (q : Int) : Int := if q = 0 then 500 else 10 * allotment q

namespace Row

/-- The row of a slot that has just been allocated. -/
def fresh : Row where
  priority := 3
  ticks := fun _ => 0
  waitTicks := fun _ => 0
  slices := fun _ => 0
  charged := fun _ => 0
  stay := 0
  stayCharged := 0
  entered := 0

/-- `proc_ticks[idx][proc_priority[idx]]++` -/
def tick (r : Row) : Row :=
  { r with ticks := update r.ticks r.priority (incr (r.ticks r.priority)) }

/-- The tick that `yield` and `exit` add. -/
def charge (r : Row) : Row :=
  { r.tick with
    charged := update r.charged r.priority (r.charged r.priority + 1)
    stayCharged := r.stayCharged + 1 }

/-- The tick that the scheduler adds after `swtch`. -/
def slice (r : Row) : Row :=
  { r.tick with
    slices := update r.slices r.priority (r.slices r.priority + 1)
    stay := r.stay + 1 }

/-- Move to level `q` and forget the time waited. -/
def move (r : Row) (q : Int) : Row :=
  { r with
    priority := q, waitTicks := fun _ => 0
    stay := 0, stayCharged := 0, entered := r.ticks q }

/-- Demotion, after the tick of the slice. -/
def demote (r : Row) : Row :=
  if r.ticks r.priority ≥ allotment r.priority ∧ r.priority > 0 then r.move (r.priority - 1)
  else r

/-- `proc_wait_ticks[idx][proc_priority[idx]]++` -/
def waitTick (r : Row) : Row :=
  { r with
    waitTicks := update r.waitTicks r.priority (incr (r.waitTicks r.priority)) }

/-- Boosting. -/
def boost (r : Row) : Row :=
  if r.priority < 3 ∧ r.waitTicks r.priority ≥ required r.priority then r.move (r.priority + 1)
  else r

/-- What the end of an iteration does to the row of a RUNNABLE process; `chosen` tells
whether it is the process that was chosen. -/
def age (policy : Int) (chosen : Bool) (r : Row) : Row :=
  let r := if chosen then r else r.waitTick
  if policy ≠ 3 then r.boost else r

end Row

/-- The two loops at the end of an iteration, for one slot. -/
def Task.age (policy : Int) (chosen : Bool) (t : Task) : Task :=
  if t.state = .runnable then { t with row := t.row.age policy chosen } else t

/-! ## The scheduler -/

/-- The search of the multi-level feedback queue: levels from 3 down, slots from 0 up. -/
def choose (s : State) : Option Nat :=
  [3, 2, 1, 0].findSome? fun level =>
    s.find fun t => t.state == .runnable && t.row.priority == level

/-- `c->proc = p; p->state = RUNNING; swtch(...)` -/
def dispatch (c i : Nat) (policy : Int) (s : State) : State :=
  { (s.setProc i
      { s.proc i with state := .running, place := .back (s.proc i).place.cont }).setCpu c
      { s.cpu c with
        proc := some i, loop := .ran policy i
        ranPid := (s.proc i).pid, ranLevel := (s.proc i).row.priority } with
    lock := some c }

/-- The end of an iteration of the multi-level feedback queue. -/
def endIteration (c : Nat) (policy : Int) (chosen : Option Nat) (s : State) : State :=
  { s with
    proc := fun i => (s.proc i).age policy (chosen == some i)
    cpu := update s.cpu c
      { s.cpu c with loop := .top, iterations := (s.cpu c).iterations + 1 }
    lock := none }

/-- Round robin, from slot `i` on: the next RUNNABLE process runs, or the loop ends. -/
def roundRobin (c i : Nat) (s : State) : State :=
  match (List.range' i (NPROC - i)).find? fun j => (s.proc j).state == .runnable with
  | some j => dispatch c j 0 s
  | none => { s.setCpu c { s.cpu c with loop := .top } with lock := none }

/-- The loop of `scheduler` from the top to `swtch` or to the end of the iteration. -/
def schedule (c : Nat) (s : State) : Except Stop State :=
  if (s.cpu c).loop = .top ∧ s.lock = none then
    let policy := (s.cpu c).policy
    if policy = 0 then
      .ok (roundRobin c 0 s)
    else
      match choose s with
      | some i => .ok (dispatch c i policy s)
      | none => .ok (endIteration c policy none s)
  else
    .error .disabled

/-- The loop of `scheduler` from `swtch` on. -/
def goOn (c : Nat) (s : State) : Except Stop State :=
  match (s.cpu c).loop with
  | .back policy i =>
    let s := s.setCpu c { s.cpu c with proc := none }
    if policy = 0 then
      .ok (roundRobin c (i + 1) s)
    else
      .ok (endIteration c policy (some i)
        (s.setProc i { s.proc i with row := (s.proc i).row.slice.demote }))
  | _ => .error .disabled

/-! ## System calls -/

/-- `sched()`: the process on CPU `c` hands the lock to the scheduler. -/
def sched (c : Nat) (s : State) : State :=
  let loop := match (s.cpu c).loop with
    | .ran policy i => .back policy i
    | l => l
  { s.setCpu c { s.cpu c with loop := loop } with lock := some c }

theorem sched_cpu (c : Nat) (s : State) : (sched c s).cpu c =
    { s.cpu c with
      loop := match (s.cpu c).loop with
        | .ran policy i => .back policy i
        | l => l } := update_self ..

/-- `wakeup1`, for one slot. -/
def Task.wake (chan : Chan) (t : Task) : Task :=
  if t.state = .sleeping ∧ t.chan = chan then { t with state := .runnable } else t

/-- `wakeup1`. -/
def wakeup1 (chan : Chan) (s : State) : State := { s with proc := fun i => (s.proc i).wake chan }

/-- The channel of a process in `wait`. -/
def waitChan : Option Nat → Chan
  | none => .null
  | some i => .proc i

/-- `allocproc` has found slot `n`, called by process `p`. -/
def fill (p n : Nat) (s : State) : State :=
  { (s.setProc n
      { s.proc n with state := .embryo, pid := s.nextpid % 2 ^ 32, row := Row.fresh }).setJob p
        (.forking n) with
    nextpid := s.nextpid + 1 }

/-- `allocproc`, as far as `ptable.lock` is held. -/
def allocproc (p : Nat) (s : State) : State :=
  match s.find fun t => t.state == .unused with
  | none => s
  | some n => fill p n s

/-- Pass abandoned children to init. -/
def reparent (p : Nat) (s : State) : State :=
  { s with
    proc := fun i =>
      if (s.proc i).parent = some p then { s.proc i with parent := some s.initproc }
      else s.proc i }

/-- What `exit` of process `p` does to the other processes: it wakes its parent, and hands its
children to init, which is woken if one of them has exited. -/
def abandon (p : Nat) (s : State) : State :=
  let s := wakeup1 (waitChan (s.proc p).parent) s
  let orphan := (s.find fun t => t.parent == some p && t.state == .zombie).isSome
  let s := reparent p s
  if orphan then wakeup1 (.proc s.initproc) s else s

/-- `exit` of process `p`, from `acquire(&ptable.lock)` to `sched`. -/
def becomeZombie (p : Nat) (s : State) : State :=
  { s.setProc p
      { s.proc p with state := .zombie, place := .off, row := (s.proc p).row.charge } with
    events := s.events ++ [.exit (s.proc p).pid] }

/-- `exit` of process `p` on CPU `c`. -/
def exit (c p : Nat) (s : State) : Except Stop State :=
  if p = s.initproc then .error .initExiting
  else .ok (sched c (becomeZombie p (abandon p s)))

/-- `wait`, called by process `p`, has found an exited child in slot `j`. -/
def reap (p j : Nat) (s : State) : State :=
  { (s.setProc j
      { s.proc j with pid := 0, parent := none, killed := false, state := .unused }).goto p
        .run with
    lock := none, events := s.events ++ [.wait p (s.proc j).pid] }

/-- `wait`, called by process `p`, returns -1. -/
def noChild (p : Nat) (s : State) : State :=
  { s.goto p .run with lock := none, events := s.events ++ [.noChild p] }

/-- `sleep`: process `p` on CPU `c` goes to sleep, to go on at `k`. -/
def sleepOn (c p : Nat) (chan : Chan) (k : Cont) (s : State) : State :=
  sched c (s.setProc p { s.proc p with chan := chan, state := .sleeping, place := .sched k })

/-- One round of the loop of `wait`, with `ptable.lock` held. -/
def waitRound (c p : Nat) (s : State) : State :=
  match s.find fun t => t.parent == some p && t.state == .zombie with
  | some j => reap p j s
  | none =>
    if (s.find fun t => t.parent == some p).isNone || (s.proc p).killed then noChild p s
    else sleepOn c p (.proc p) .wait s

/-- `yield`. -/
def yield (c p : Nat) (s : State) : State :=
  sched c (s.setProc p
    { s.proc p with
      state := .runnable, place := .sched .yield, row := (s.proc p).row.charge })

/-- A process that has been switched to goes on. -/
def resume (c p : Nat) (k : Cont) (s : State) : State :=
  match k with
  | .forkret | .yield => { s.goto p .run with lock := none }
  | .sleep => { s.setProc p { s.proc p with chan := .null, place := .run } with lock := none }
  | .wait => waitRound c p (s.setProc p { s.proc p with chan := .null })

/-- A system call of process `p` that begins with `acquire(&ptable.lock)`. -/
def locked (p : Nat) (s : State) (next : Except Stop State) : Except Stop State :=
  if (s.proc p).job = .none ∧ s.lock = none then next else .error .disabled

/-- Process `p`, which runs on CPU `c` without `ptable.lock`, goes on. -/
def actRun (c p : Nat) (s : State) : Act → Except Stop State
  | .fork => locked p s (.ok (allocproc p s))
  | .forkFail =>
    match (s.proc p).job with
    | .forking n => .ok ((s.setProc n { s.proc n with state := .unused }).setJob p .none)
    | _ => .error .disabled
  | .forkParent =>
    match (s.proc p).job with
    | .forking n =>
      .ok ((s.setProc n
        { s.proc n with parent := some p, creator := (s.proc p).pid }).setJob p (.forked n))
    | _ => .error .disabled
  | .forkDone =>
    match (s.proc p).job with
    | .forked n =>
      if s.lock = none then
        .ok ((s.setProc n
          { s.proc n with state := .runnable, place := .sched .forkret }).setJob p .none)
      else
        .error .disabled
    | _ => .error .disabled
  | .exit => locked p s (exit c p s)
  | .wait => locked p s (.ok (waitRound c p s))
  -- the lock of the caller of `sleep` is another than `ptable.lock`
  | .sleep n => locked p s (.ok (sleepOn c p (.other n) .sleep s))
  -- the timer interrupts a process wherever it is
  | .yield => if s.lock = none then .ok (yield c p s) else .error .disabled
  | .fault => .ok (s.setProc p { s.proc p with killed := true })
  | .setSchedPolicy policy => .ok (s.setCpu c { s.cpu c with policy := policy })
  | .resume => .error .disabled

/-- The process on CPU `c` goes on. -/
def act (c : Nat) (a : Act) (s : State) : Except Stop State :=
  match (s.cpu c).loop with
  | .ran _ p =>
    match (s.proc p).place, a with
    | .run, a => actRun c p s a
    | .back k, .resume => .ok (resume c p k s)
    | _, _ => .error .disabled
  | _ => .error .disabled

/-- `kill`. -/
def kill (pid : Nat) (s : State) : State :=
  match s.find fun t => t.pid == pid with
  | none => s
  | some j =>
    s.setProc j
      { s.proc j with
        killed := true
        state := if (s.proc j).state = .sleeping then .runnable else (s.proc j).state }

/-- A step of the machine. -/
def step : Label → State → Except Stop State
  | .act c a, s => act c a s
  | .schedule c, s => schedule c s
  | .goOn c, s => goOn c s
  | .wakeup n, s => if s.lock = none then .ok (wakeup1 (.other n) s) else .error .disabled
  | .kill pid, s => if s.lock = none then .ok (kill pid s) else .error .disabled

/-- The machine as a transition system. -/
def Steps (s : State) (l : Label) (s' : State) : Prop := step l s = .ok s'

/-- A free slot, as the table begins. -/
def Task.free : Task where
  state := .unused
  pid := 0
  parent := none
  chan := .null
  killed := false
  place := .off
  job := .none
  creator := 0
  row := { Row.fresh with priority := 0 }

/-- The table after `userinit`, with the first process in slot 0.  The CPUs begin with the
given policies. -/
def start (policy : Nat → Int) : State where
  proc := fun i =>
    if i = 0 then
      { Task.free with state := .runnable, pid := 1, place := .sched .forkret, row := Row.fresh }
    else Task.free
  cpu := fun c => ⟨none, policy c, .top, 0, 0, 0⟩
  lock := none
  nextpid := 2
  initproc := 0
  events := []

end Sched
end Xv6
