import Xv6.Vm.Image

/-!
# Processes (`proc.c`, `trap.c`, `sysproc.c`, `file.c`, `pipe.c`)

The kernel state seen by processes: the process table, the file table, pipes, the
CPUs, and the memory underneath.  A system call, a page fault and a timer
interrupt are each one transition; `Label` lists them and `step` runs one.  Each
of them holds the locks it needs for the data it touches, so transitions of
different CPUs interleave as wholes.

Pointers into the tables are indexes.  A pipe is named by the number of its
allocation, so that two pipes never share a name even if they share a page.  What
a process computes in user mode is arbitrary: `userRun` replaces its registers.
-/

namespace Xv6
namespace Proc

open Lib Vm Function

/-- Maximum number of processes. -/
def NPROC : Nat := 64

/-- Open files per process. -/
def NOFILE : Nat := 16

/-- Open files per system. -/
def NFILE : Nat := 100

/-- Top of the first process's stack: `KERNBASE - GUARD_SIZE`. -/
def USERSTACKTOP : Nat := KERNBASE - 8 * PGSIZE

/-- `enum procstate`. -/
inductive ProcState
  | unused
  | embryo
  | sleeping
  | runnable
  | running
  | zombie
deriving DecidableEq, Repr

/-- The registers saved on entry to the kernel (`struct trapframe`); those the
kernel never names are in `other`. -/
structure Trapframe where
  eax : Nat
  eip : Nat
  esp : Nat
  eflags : Nat
  cs : Nat
  ds : Nat
  es : Nat
  ss : Nat
  other : Nat → Nat

/-- Saved registers for kernel context switches. -/
structure Context where
  edi : Nat
  esi : Nat
  ebx : Nat
  ebp : Nat
  eip : Nat

/-- Per-process state (`struct proc`), with the process's row of the scheduler's
arrays `proc_priority`, `proc_ticks` and `proc_wait_ticks`. -/
structure Process where
  sz : Nat
  pgdir : Option PageDir
  kstack : Option Nat
  state : ProcState
  pid : Nat
  parent : Option Nat
  tf : Trapframe
  context : Context
  chan : Nat
  killed : Bool
  ofile : Nat → Option Nat
  cwd : Option Nat
  name : List UInt8
  scheduler : Nat
  checkThread : Int
  priority : Nat
  ticks : Nat → Nat
  waitTicks : Nat → Nat

/-- What an open file refers to. -/
inductive FileType
  | none
  | pipe
  | inode
deriving DecidableEq, Repr

/-- `struct file`. -/
structure File where
  type : FileType
  ref : Nat
  readable : Bool
  writable : Bool
  pipe : Nat
  ip : Nat

/-- `struct pipe`: the page it lives in and its open ends. -/
structure Pipe where
  page : Nat
  readopen : Bool
  writeopen : Bool

/-- Per-CPU state: the process it runs, and how often `lcr3` was executed. -/
structure Cpu where
  proc : Option Nat
  flushes : Nat

/-- The kernel. -/
structure Kernel where
  kmem : Kmem
  kpgdir : PageDir
  proc : Nat → Process
  nextpid : Nat
  initproc : Nat
  ftable : Nat → File
  /-- The references to each inode in memory, `ip->ref`. -/
  iref : Nat → Int
  pipe : Nat → Option Pipe
  npipe : Nat
  cpu : Nat → Cpu

/-- Kernel code. -/
abbrev KM : Type → Type := Exec Stop Kernel

/-- Run memory-management code. -/
def liftVm {α : Type} (m : VmM α) : KM α := fun k =>
  match m k.kmem with
  | .ok (a, s) => .ok (a, { k with kmem := s })
  | .error e => .error e

/-- The process in a slot. -/
def getProc (i : Nat) : KM Process := fun k => .ok (k.proc i, k)

/-- Update the process in a slot. -/
def modProc (i : Nat) (f : Process → Process) : KM Unit :=
  Exec.modify fun k => { k with proc := update k.proc i (f (k.proc i)) }

/-- The file in an entry of the file table. -/
def getFile (f : Nat) : KM File := fun k => .ok (k.ftable f, k)

/-- Update an entry of the file table. -/
def modFile (f : Nat) (g : File → File) : KM Unit :=
  Exec.modify fun k => { k with ftable := update k.ftable f (g (k.ftable f)) }

/-- The first slot of the process table that satisfies a test. -/
def findProc (k : Kernel) (test : Process → Bool) : Option Nat :=
  (List.range NPROC).find? fun i => test (k.proc i)

/-- The process running on a CPU; without one there is nothing to do. -/
def myproc (c : Nat) : KM Nat := fun k =>
  match (k.cpu c).proc with
  | some i => .ok (i, k)
  | none => .error .blocked

/-- The page directory of a process, to be dereferenced. -/
def pgdirOf (p : Process) : KM PageDir :=
  match p.pgdir with
  | some d => pure d
  | none => Exec.stop .wild

/-- The CPUs after one of them executed `lcr3`. -/
def Kernel.flush (k : Kernel) (c : Nat) : Nat → Cpu :=
  update k.cpu c { k.cpu c with flushes := (k.cpu c).flushes + 1 }

/-- Load the page table register: the CPU forgets every translation. -/
def lcr3 (c : Nat) : KM Unit :=
  Exec.modify fun k => { k with cpu := k.flush c }

/-- Switch to the process's page table. -/
def switchuvm (c i : Nat) : KM Unit := do
  let p ← getProc i
  match p.kstack with
  | none => Exec.stop (.panic .switchuvmKstack)
  | some _ =>
    match p.pgdir with
    | none => Exec.stop (.panic .switchuvmPgdir)
    | some _ => lcr3 c

/-- Assign `c->proc`. -/
def setCpuProc (c : Nat) (i : Option Nat) : KM Unit :=
  Exec.modify fun k => { k with cpu := update k.cpu c { k.cpu c with proc := i } }

/-- Enter the scheduler, which switches to the kernel's page table (`switchkvm`)
and clears `c->proc`; the registers saved in `p->context` are arbitrary. -/
def sched (c i : Nat) (context : Context) : KM Unit := do
  modProc i fun p => { p with context := context }
  lcr3 c
  setCpuProc c none

/-! ## Files and pipes -/

/-- Wake up all processes sleeping on `chan`. -/
def wakeup (chan : Nat) : KM Unit :=
  Exec.modify fun k =>
    { k with
      proc := fun i =>
        if (k.proc i).state = .sleeping ∧ (k.proc i).chan = chan then
          { k.proc i with state := .runnable }
        else
          k.proc i }

/-- The channel of `wait`: the address of a slot of the process table; null for no
process. -/
def procChan : Option Nat → Nat
  | none => 0
  | some i => i + 1

variable (M : Machine)

/-- The channels of a pipe's writers and readers. -/
def pipeChan (id : Nat) (writable : Bool) : Nat :=
  NPROC + 1 + 2 * id + if writable then 1 else 0

/-- Close one end of a pipe; with the last one the pipe goes. -/
def pipeclose (id : Nat) (writable : Bool) : KM Unit := do
  let k ← Exec.get
  match k.pipe id with
  | none => Exec.stop .wild
  | some p => do
    let p : Pipe := if writable then { p with writeopen := false } else { p with readopen := false }
    wakeup (pipeChan id writable)
    if p.readopen = false ∧ p.writeopen = false then do
      liftVm (kfree M p.page)
      Exec.modify fun k => { k with pipe := update k.pipe id none }
    else
      Exec.modify fun k => { k with pipe := update k.pipe id (some p) }

/-- Take a reference to an inode (`iget`, `idup`). -/
def idup (ip : Nat) : KM Unit :=
  Exec.modify fun k => { k with iref := update k.iref ip (k.iref ip + 1) }

/-- Drop a reference to an inode. -/
def iput (ip : Nat) : KM Unit :=
  Exec.modify fun k => { k with iref := update k.iref ip (k.iref ip - 1) }

/-- Allocate a file structure. -/
def filealloc : KM (Option Nat) := do
  let k ← Exec.get
  match (List.range NFILE).find? fun f => (k.ftable f).ref == 0 with
  | none => pure none
  | some f => do
    modFile f fun x => { x with ref := 1 }
    pure (some f)

/-- Increment ref count for file `f`. -/
def filedup (f : Nat) : KM Unit := do
  let x ← getFile f
  if x.ref < 1 then
    Exec.stop (.panic .filedup)
  else
    modFile f fun x => { x with ref := x.ref + 1 }

/-- Close file `f`.  (Decrement ref count, close when reaches 0.) -/
def fileclose (f : Nat) : KM Unit := do
  let x ← getFile f
  if x.ref < 1 then
    Exec.stop (.panic .fileclose)
  else if x.ref - 1 > 0 then
    modFile f fun x => { x with ref := x.ref - 1 }
  else do
    modFile f fun x => { x with ref := 0, type := .none }
    if x.type = .pipe then
      pipeclose M x.pipe x.writable
    else if x.type = .inode then
      iput x.ip
    else
      pure ()

/-- Allocate a file descriptor for the given file; `none` for `-1`. -/
def fdalloc (i f : Nat) : KM (Option Nat) := do
  let p ← getProc i
  match (List.range NOFILE).find? fun fd => (p.ofile fd).isNone with
  | none => pure none
  | some fd => do
    modProc i fun p => { p with ofile := update p.ofile fd (some f) }
    pure (some fd)

/-- Allocate a pipe and its two files; `none` for `-1`. -/
def pipealloc : KM (Option (Nat × Nat)) := do
  match ← filealloc with
  | none => pure none
  | some f0 => do
    match ← filealloc with
    | none => do
      fileclose M f0
      pure none
    | some f1 => do
      match ← liftVm kalloc with
      | none => do
        fileclose M f0
        fileclose M f1
        pure none
      | some page => do
        let k ← Exec.get
        let id := k.npipe
        Exec.modify fun k =>
          { k with pipe := update k.pipe id (some ⟨page, true, true⟩), npipe := id + 1 }
        modFile f0 fun x =>
          { x with type := .pipe, readable := true, writable := false, pipe := id }
        modFile f1 fun x =>
          { x with type := .pipe, readable := false, writable := true, pipe := id }
        pure (some (f0, f1))

/-- `sys_pipe`. -/
def sysPipe (i : Nat) : KM Int := do
  match ← pipealloc M with
  | none => pure (-1)
  | some (rf, wf) => do
    match ← fdalloc i rf with
    | none => do
      fileclose M rf
      fileclose M wf
      pure (-1)
    | some fd0 => do
      match ← fdalloc i wf with
      | none => do
        modProc i fun p => { p with ofile := update p.ofile fd0 none }
        fileclose M rf
        fileclose M wf
        pure (-1)
      | some _ => pure 0

/-- `sys_close`; `fd` is the argument as an unsigned word. -/
def sysClose (i fd : Nat) : KM Int := do
  let p ← getProc i
  if fd ≥ NOFILE then
    pure (-1)
  else
    match p.ofile fd with
    | none => pure (-1)
    | some f => do
      modProc i fun p => { p with ofile := update p.ofile fd none }
      fileclose M f
      pure 0

/-- `sys_dup`. -/
def sysDup (i fd : Nat) : KM Int := do
  let p ← getProc i
  if fd ≥ NOFILE then
    pure (-1)
  else
    match p.ofile fd with
    | none => pure (-1)
    | some f => do
      match ← fdalloc i f with
      | none => pure (-1)
      | some fd' => do
        filedup f
        pure fd'

/-- The part of `sys_open` that installs the file, once the path has led to the
inode `ip` and taken a reference to it. -/
def sysOpen (i ip : Nat) (readable writable : Bool) : KM Int := do
  idup ip
  match ← filealloc with
  | none => do
    iput ip
    pure (-1)
  | some f => do
    match ← fdalloc i f with
    | none => do
      fileclose M f
      iput ip
      pure (-1)
    | some fd => do
      modFile f fun x =>
        { x with type := .inode, ip := ip, readable := readable, writable := writable }
      pure fd

/-! ## Processes -/

/-- The address of `forkret`, where every new process starts in the kernel. -/
def forkret : Nat := KERNLINK

/-- Look in the process table for an UNUSED proc and initialize the state required
to run in the kernel; `none` if there is no slot or no page for the stack. -/
def allocproc : KM (Option Nat) := do
  let k ← Exec.get
  match findProc k fun p => p.state == .unused with
  | none => pure none
  | some n => do
    modProc n fun p =>
      { p with state := .embryo, pid := k.nextpid, priority := 3,
               ticks := fun _ => 0, waitTicks := fun _ => 0 }
    Exec.modify fun k => { k with nextpid := (k.nextpid + 1) % 2 ^ 32 }
    match ← liftVm kalloc with
    | none => do
      modProc n fun p => { p with kstack := none, state := .unused }
      pure none
    | some page => do
      modProc n fun p => { p with kstack := some page, context := ⟨0, 0, 0, 0, forkret⟩ }
      pure (some n)

/-- `safestrcpy(s, t, 16)`. -/
def safestrcpy (t : List UInt8) : List UInt8 := t.take 15

/-- The loop of `fork` over the descriptors. -/
def dupFiles (i n : Nat) : KM Unit :=
  Exec.upto NOFILE fun fd => do
    let p ← getProc i
    match p.ofile fd with
    | none => pure ()
    | some f => do
      filedup f
      modProc n fun q => { q with ofile := update q.ofile fd (some f) }

/-- `idup(curproc->cwd)`. -/
def dupCwd : Option Nat → KM Unit
  | some ip => idup ip
  | none => pure ()

/-- `iput(curproc->cwd)`. -/
def putCwd : Option Nat → KM Unit
  | some ip => iput ip
  | none => pure ()

/-- Create a new process copying process `i` as the parent; the result is the
child's pid. -/
def fork (i : Nat) : KM Int := do
  match ← allocproc with
  | none => pure (-1)
  | some n => do
    let cur ← getProc i
    let d ← pgdirOf cur
    match ← liftVm (copyuvm M d) with
    | none => do
      let np ← getProc n
      match np.kstack with
      | none => Exec.stop (.panic .kfree)
      | some page => do
        liftVm (kfree M page)
        modProc n fun q => { q with pgdir := none, kstack := none, state := .unused }
        pure (-1)
    | some child => do
      modProc n fun q =>
        { q with pgdir := some child, sz := cur.sz, parent := some i,
                 tf := { cur.tf with eax := 0 } }
      dupFiles i n
      dupCwd cur.cwd
      modProc n fun q =>
        { q with cwd := cur.cwd, name := safestrcpy cur.name, state := .runnable }
      let np ← getProc n
      pure np.pid

/-- Close all open files. -/
def closeFiles (i : Nat) : KM Unit :=
  Exec.upto NOFILE fun fd => do
    let p ← getProc i
    match p.ofile fd with
    | none => pure ()
    | some f => do
      fileclose M f
      modProc i fun q => { q with ofile := update q.ofile fd none }

/-- Pass abandoned children to init. -/
def reparent (i : Nat) : KM Unit :=
  Exec.modify fun k =>
    { k with
      proc := fun j =>
        if (k.proc j).parent = some i then
          { k.proc j with parent := some k.initproc }
        else
          k.proc j }

/-- Wake up init if it was given a child that has already exited. -/
def wakeupInit (orphan : Bool) : KM Unit := do
  let k ← Exec.get
  if orphan then
    wakeup (procChan (some k.initproc))
  else
    pure ()

/-- Add a tick to the level the process is on. -/
def addTick (i : Nat) : KM Unit :=
  modProc i fun p => { p with ticks := update p.ticks p.priority (p.ticks p.priority + 1) }

/-- Exit the current process.  Does not return; the process remains in the zombie
state until its parent calls `wait`. -/
def exit (c i : Nat) (context : Context) : KM Unit := do
  let k ← Exec.get
  if i = k.initproc then
    Exec.stop (.panic .initExiting)
  else do
    closeFiles M i
    let p ← getProc i
    putCwd p.cwd
    modProc i fun p => { p with cwd := none }
    let p ← getProc i
    wakeup (procChan p.parent)
    let k ← Exec.get
    let orphan := (findProc k fun q => q.parent == some i && q.state == .zombie).isSome
    reparent i
    wakeupInit orphan
    addTick i
    modProc i fun p => { p with state := .zombie }
    sched c i context

/-- The part of `wait` that frees an exited child. -/
def reap (j : Nat) : KM Int := do
  let p ← getProc j
  match p.kstack, p.pgdir with
  | none, _ => Exec.stop (.panic .kfree)
  | some _, none => Exec.stop (.panic .freevm)
  | some page, some d => do
    liftVm (kfree M page)
    liftVm (freevm M d)
    modProc j fun q =>
      { q with kstack := none, pid := 0, parent := none, name := [], killed := false,
               state := .unused }
    pure p.pid

/-- Wait for a child process to exit and return its pid; `-1` if this process has
no children.  While there are only running children the call does not return. -/
def wait (i : Nat) : KM Int := do
  let k ← Exec.get
  match findProc k fun q => q.parent == some i && q.state == .zombie with
  | some j => reap M j
  | none =>
    if (findProc k fun q => q.parent == some i).isNone || (k.proc i).killed then
      pure (-1)
    else
      Exec.stop .blocked

/-- Kill the process with the given pid.  Process won't exit until it returns to
user space. -/
def kill (pid : Nat) : KM Int := do
  let k ← Exec.get
  match findProc k fun q => q.pid == pid with
  | none => pure (-1)
  | some j => do
    modProc j fun q =>
      { q with killed := true, state := if q.state = .sleeping then .runnable else q.state }
    pure 0

/-- `sys_sbrk`; `n` is the argument as a signed word. -/
def sysSbrk (i : Nat) (n : Int) : KM Int := do
  let p ← getProc i
  let addr := p.sz
  if n < 0 then do
    let d ← pgdirOf p
    let (d, r) ← liftVm (deallocuvm M d addr (toUint (addr + n)))
    modProc i fun q => { q with pgdir := some d }
    if r = 0 then
      pure (-1)
    else do
      modProc i fun q => { q with sz := toUint (addr + n) }
      pure addr
  else do
    modProc i fun q => { q with sz := toUint (addr + n) }
    pure addr

/-- `sys_uthread_init`. -/
def sysUthreadInit (i addr : Nat) : KM Int := do
  modProc i fun p => { p with scheduler := addr }
  pure 0

/-- `sys_check_thread`; the sum wraps around as a signed word. -/
def sysCheckThread (i : Nat) (op : Int) : KM Int := do
  modProc i fun p => { p with checkThread := (p.checkThread + op).bmod (2 ^ 32) }
  pure 0

/-- Replace the user image of process `i`, once the path has led to the file that
`readi` reads; `last` is the last element of the path. -/
def exec (c i : Nat) (last : List UInt8) (readi : Nat → Nat → List UInt8)
    (argv : List (List UInt8)) : KM Int := do
  match ← liftVm (execImage M readi argv) with
  | none => pure (-1)
  | some im => do
    let p ← getProc i
    let oldpgdir ← pgdirOf p
    modProc i fun q =>
      { q with name := safestrcpy last, pgdir := some im.pgdir, sz := im.sz,
               tf := { q.tf with eip := im.entry, esp := im.sp } }
    switchuvm c i
    liftVm (freevm M oldpgdir)
    pure 0

/-! ## Traps -/

/-- The case `T_SYSCALL` of `trap`: a killed process exits before or after the
call, whose result goes to `eax`. -/
def syscall (c : Nat) (context : Context) (call : Nat → KM Int) : KM Unit := do
  let i ← myproc c
  let p ← getProc i
  if p.killed then
    exit M c i context
  else do
    let r ← call i
    modProc i fun q => { q with tf := { q.tf with eax := toUint r } }
    let p ← getProc i
    if p.killed then
      exit M c i context
    else
      pure ()

/-- Set `p->killed`. -/
def setKilled (i : Nat) : KM Unit := modProc i fun p => { p with killed := true }

/-- The case `T_PGFLT` of `trap`, up to the common exit check. -/
def pageFault (c i cr2 : Nat) : KM Unit := do
  let va := PGROUNDDOWN cr2
  let p ← getProc i
  if va ≥ KERNBASE ∨ p.sz = 0 then
    setKilled i
  else do
    let d ← pgdirOf p
    if (d.pte va).present then
      setKilled i
    else do
      let (d, mapped) ← liftVm (faultPage M d va)
      modProc i fun q => { q with pgdir := some d }
      if mapped then
        lcr3 c
      else
        setKilled i

/-- Force process exit if it has been killed and is in user space. -/
def exitIfKilled (c i : Nat) (user : Bool) (context : Context) : KM Unit := do
  let p ← getProc i
  if p.killed && user then
    exit M c i context
  else
    pure ()

/-- A page fault at address `cr2`, from user mode or from the kernel; without a process
there is nothing that `trap` does. -/
def trapPgflt (c cr2 : Nat) (user : Bool) (context : Context) : KM Unit := do
  let k ← Exec.get
  match (k.cpu c).proc with
  | none => pure ()
  | some i => do
    pageFault M c i cr2
    exitIfKilled M c i user context

/-- Give up the CPU for one scheduling round. -/
def yield (c i : Nat) (context : Context) : KM Unit := do
  addTick i
  modProc i fun p => { p with state := .runnable }
  sched c i context

/-- Redirect a process with a registered thread scheduler and at least two threads
to its scheduler. -/
def redirect (i : Nat) : KM Unit := do
  let p ← getProc i
  if p.state = .running ∧ p.scheduler ≠ 0 ∧ p.checkThread ≥ 2 then
    modProc i fun q => { q with tf := { q.tf with eip := q.scheduler } }
  else
    pure ()

/-- A clock tick: the process may be redirected; then it exits if killed, or gives
up the CPU. -/
def trapTimer (c : Nat) (user : Bool) (context : Context) : KM Unit := do
  let i ← myproc c
  redirect i
  let p ← getProc i
  if p.killed && user then
    exit M c i context
  else if p.state = .running then
    yield c i context
  else
    pure ()

/-- Release the CPU and sleep on `chan`. -/
def sleep (c i chan : Nat) (context : Context) : KM Unit := do
  modProc i fun p => { p with chan := chan, state := .sleeping }
  sched c i context

/-- The scheduler chooses a RUNNABLE process; a process woken from `sleep` first
clears its channel. -/
def dispatch (c i : Nat) : KM Unit := do
  let k ← Exec.get
  if (k.cpu c).proc = none ∧ i < NPROC ∧ (k.proc i).state = .runnable then do
    setCpuProc c (some i)
    switchuvm c i
    modProc i fun p => { p with state := .running, chan := 0 }
  else
    Exec.stop .blocked

/-- The scheduler's bookkeeping for all slots, under any policy. -/
def account (f : Nat → Nat × (Nat → Nat) × (Nat → Nat)) : KM Unit :=
  Exec.modify fun k =>
    { k with
      proc := fun i =>
        { k.proc i with priority := (f i).1, ticks := (f i).2.1, waitTicks := (f i).2.2 } }

/-! ## Transitions -/

/-- What can happen next; `c` is the CPU it happens on. -/
inductive Label
  | userRun (c : Nat) (tf : Trapframe)
  | store (c ppn off : Nat) (b : UInt8)
  | fault (c cr2 : Nat) (user : Bool) (context : Context)
  | fork (c : Nat) (context : Context)
  | exec (c : Nat) (last : List UInt8) (readi : Nat → Nat → List UInt8)
      (argv : List (List UInt8)) (context : Context)
  | sbrk (c : Nat) (n : Int) (context : Context)
  | exit (c : Nat) (context : Context)
  | wait (c : Nat) (context : Context)
  | pipe (c : Nat) (context : Context)
  | close (c fd : Nat) (context : Context)
  | dup (c fd : Nat) (context : Context)
  | openFile (c ip : Nat) (readable writable : Bool) (context : Context)
  | kill (c pid : Nat) (context : Context)
  | uthreadInit (c addr : Nat) (context : Context)
  | checkThread (c : Nat) (op : Int) (context : Context)
  | timer (c : Nat) (user : Bool) (context : Context)
  | yield (c : Nat) (context : Context)
  | sleep (c chan : Nat) (context : Context)
  | wakeup (chan : Nat)
  | dispatch (c i : Nat)
  | account (f : Nat → Nat × (Nat → Nat) × (Nat → Nat))

/-- Some process has the page in its user memory. -/
def Kernel.isUserPage (k : Kernel) (ppn : Nat) : Bool :=
  (List.range NPROC).any fun i => (k.proc i).state != .unused && (k.proc i).pgdir.any fun d =>
    (List.range userPages).any fun v => (d.ent v).present && (d.ent v).ppn == ppn

/-- A store by user code to a byte of a physical page.  In all other pages than those of user memory
the kernel has data of its own, as the links of the free list: a store there, through a translation
that is stale, is wild. -/
def userStore (c ppn off : Nat) (b : UInt8) : KM Unit := do
  let _ ← myproc c
  let k ← Exec.get
  if k.isUserPage ppn then
    Exec.modify fun k =>
      { k with
        kmem := { k.kmem with
          mem := update k.kmem.mem ppn (update (k.kmem.mem ppn) off b) } }
  else
    Exec.stop .wild

/-- Run one transition. -/
def step : Label → KM Unit
  | .userRun c tf => do
    let i ← myproc c
    modProc i fun p => { p with tf := tf }
  | .store c ppn off b => userStore c ppn off b
  | .fault c cr2 user context => trapPgflt M c cr2 user context
  | .fork c context => syscall M c context fun i => fork M i
  | .exec c last readi argv context => syscall M c context fun i => exec M c i last readi argv
  | .sbrk c n context => syscall M c context fun i => sysSbrk M i n
  | .exit c context => do
    let i ← myproc c
    exit M c i context
  | .wait c context => syscall M c context fun i => wait M i
  | .pipe c context => syscall M c context fun i => sysPipe M i
  | .close c fd context => syscall M c context fun i => sysClose M i fd
  | .dup c fd context => syscall M c context fun i => sysDup i fd
  | .openFile c ip readable writable context =>
    syscall M c context fun i => sysOpen M i ip readable writable
  | .kill c pid context => syscall M c context fun _ => kill pid
  | .uthreadInit c addr context => syscall M c context fun i => sysUthreadInit i addr
  | .checkThread c op context => syscall M c context fun i => sysCheckThread i op
  | .timer c user context => trapTimer M c user context
  | .yield c context => do
    let i ← myproc c
    yield c i context
  | .sleep c chan context => do
    let i ← myproc c
    sleep c i chan context
  | .wakeup chan => wakeup chan
  | .dispatch c i => dispatch c i
  | .account f => account f

end Proc
end Xv6
