import Xv6.Lib.X86
import Xv6.Uthread.Model

/-!
# The threads in memory, and `thread_switch`

The array `all_thread` of a linked program as words of memory, the C functions as writes to it,
and `uthread_switch.S` as the instructions it consists of.  `thread_switch` takes the saved
stack pointer to be the first word of `struct thread`; where the field `sp` really is depends on
the program.
-/

namespace Xv6
namespace Uthread

open Function

open Lib X86

/-- Where the fields of `struct thread` are. -/
structure Layout where
  sp : Nat
  stack : Nat
  state : Nat
  tid : Option Nat
  ptid : Option Nat
  size : Nat

/-- `STACK_SIZE`. -/
def stackSize : Nat := 8192

/-- `struct thread`, as each program declares it. -/
def Program.layout : Program → Layout
  | .uthread1 => ⟨0, 4, 8196, none, none, 8200⟩
  | .uthread2 => ⟨0, 4, 8196, some 8200, some 8204, 8208⟩
  | .uthread3 => ⟨4, 8, 8200, some 0, none, 8204⟩

/-- The word that stands for a state. -/
def ThreadState.word : ThreadState → Nat
  | .free => 0
  | .running => 1
  | .runnable => 2
  | .wait => 3

/-- The state that a word stands for; the programs write no others. -/
def ThreadState.ofWord : Nat → ThreadState
  | 0 => .free
  | 1 => .running
  | 2 => .runnable
  | _ => .wait

@[simp] theorem ThreadState.ofWord_word (v : ThreadState) : ofWord v.word = v := by
  cases v <;> rfl

/-- A linked program: the addresses of its variables and the stack of its main thread. -/
structure Image where
  program : Program
  allThread : Nat
  currentThread : Nat
  nextThread : Nat
  /-- The stack of the process, which the main thread uses. -/
  mainStack : Nat
  mainTop : Nat
  aligned : 4 ∣ allThread ∧ 4 ∣ currentThread ∧ 4 ∣ nextThread
  /-- The process ends at `KERNBASE`. -/
  array_le : allThread + program.maxThread * program.layout.size ≤ 0x80000000
  main_le : mainTop ≤ 0x80000000
  /-- No two variables overlap. -/
  current_ne_next : currentThread ≠ nextThread
  current_out : currentThread < allThread ∨
    allThread + program.maxThread * program.layout.size ≤ currentThread
  next_out : nextThread < allThread ∨
    allThread + program.maxThread * program.layout.size ≤ nextThread
  main_array : mainTop ≤ allThread ∨ allThread + program.maxThread * program.layout.size ≤ mainStack
  main_current : mainTop ≤ currentThread ∨ currentThread < mainStack
  main_next : mainTop ≤ nextThread ∨ nextThread < mainStack

namespace Image

/-- `struct thread` of the program. -/
def layout (g : Image) : Layout :=
  g.program.layout

/-- The end of `all_thread`. -/
def arrayEnd (g : Image) : Nat :=
  g.allThread + g.program.maxThread * g.layout.size

/-- `&all_thread[t]`. -/
def thread (g : Image) (t : Nat) : Nat :=
  g.allThread + t * g.layout.size

/-- The end of the array `stack` of a thread. -/
def stackTop (g : Image) (t : Nat) : Nat :=
  g.thread t + g.layout.stack + stackSize

/-- `current_thread`, as an index. -/
def current (g : Image) (mem : Nat → Nat) : Nat :=
  (mem g.currentThread - g.allThread) / g.layout.size

/-- `all_thread[t].state`. -/
def state (g : Image) (mem : Nat → Nat) (t : Nat) : ThreadState :=
  .ofWord (mem (g.thread t + g.layout.state))

/-- `all_thread[t].state = v`. -/
def setState (g : Image) (t : Nat) (v : ThreadState) (mem : Nat → Nat) : Nat → Nat :=
  update mem (g.thread t + g.layout.state) v.word

/-- A write to a field that not every program has. -/
def setField (g : Image) (t : Nat) (o : Option Nat) (v : Nat) (mem : Nat → Nat) : Nat → Nat :=
  match o with
  | some o => update mem (g.thread t + o) v
  | none => mem

/-- `thread_init`, in a program whose `all_thread` is still zero. -/
def threadInit (g : Image) (mem : Nat → Nat) : Nat → Nat :=
  let mem := fun a => if g.allThread ≤ a ∧ a < g.arrayEnd then 0 else mem a
  let mem := update mem g.currentThread (g.thread 0)
  let mem := g.setState 0 .running mem
  g.setField 0 g.layout.ptid 0 (g.setField 0 g.layout.tid 0 mem)

/-- The second half of `thread_create`. -/
def initThread (g : Image) (t func : Nat) (mem : Nat → Nat) : Nat → Nat :=
  -- space for the return address
  let sp := g.stackTop t - 4
  let mem := g.setField t g.layout.tid t mem
  let mem := g.setField t g.layout.ptid (mem (mem g.currentThread + g.layout.tid.getD 0)) mem
  let mem := update mem sp func
  -- space for the registers
  let mem := update mem (g.thread t + g.layout.sp) (sp - 32)
  g.setState t .runnable mem

/-- `thread_create`.  Where no thread is FREE, `uthread2.c` goes on with what is behind the
array; the others print a message. -/
def threadCreate (g : Image) (func : Nat) (mem : Nat → Nat) : Nat → Nat :=
  match g.program.firstFree (g.state mem) with
  | some t => g.initThread t func mem
  | none => if g.program = .uthread2 then g.initThread g.program.maxThread func mem else mem

/-- The states that `thread_schedule` writes before it calls `thread_switch`. -/
def handOver (g : Image) (current next : Nat) (mem : Nat → Nat) : Nat → Nat :=
  let mem := g.setState next .running mem
  match g.program with
  | .uthread3 => g.setState current .runnable mem
  | _ =>
    if current ≠ 0 ∧ g.state mem current = .running then g.setState current .runnable mem
    else mem

/-- The machine at the first instruction of `thread_switch`, from the machine at that point but
for what `thread_schedule` has written. -/
def atSwitch (g : Image) (next : Nat) (m : Machine) : Machine :=
  { m with
    mem := g.handOver (g.current m.mem) next (update m.mem g.nextThread (g.thread next)) }

/-- `thread_switch`. -/
def threadSwitch (g : Image) : List Instr :=
  [.pushal, .load g.currentThread .eax, .storeAt .esp .eax,
    .load g.nextThread .eax, .loadAt .eax .esp,
    .load g.nextThread .eax, .store .eax g.currentThread,
    .popal,
    .storeImm 0 g.nextThread,
    .ret]

variable {g : Image} {mem : Nat → Nat} {t u a o : Nat}

/-! ## The instructions -/

/-- The memory after the first half of `thread_switch`: the registers in a frame at `e`, and the
address of the frame in the first word of the thread that is left. -/
def leftMem (g : Image) (m : Machine) (e : Nat) : Nat → Nat :=
  update (saved m.reg e m.mem) (m.mem g.currentThread) e

section

variable {m : Machine} {e sp : Nat}

/-- `thread_switch` up to `popal`: the first word of the next thread is taken for the address of
a frame. -/
theorem run_threadSwitch (he : m.reg .esp = e + 32) (hlt : e + 32 < 2 ^ 32)
    (hcur : g.currentThread < e ∨ e + 32 ≤ g.currentThread)
    (hnext : g.nextThread < e ∨ e + 32 ≤ g.nextThread)
    (hne : m.mem g.currentThread ≠ g.nextThread) :
    ∃ reg, reg .esp = g.leftMem m e (m.mem g.nextThread) ∧
      run g.threadSwitch m = run [.popal, .storeImm 0 g.nextThread, .ret]
        ⟨reg, m.eip, update (g.leftMem m e) g.currentThread (m.mem g.nextThread)⟩ := by
  have hloadCur : saved m.reg e m.mem g.currentThread = m.mem g.currentThread :=
    saved_of_outside _ _ hcur
  have hloadNext : g.leftMem m e g.nextThread = m.mem g.nextThread := by
    rw [leftMem, update_of_ne hne.symm, saved_of_outside _ _ hnext]
  have hstore : update (saved m.reg e m.mem) (m.mem g.currentThread) e = g.leftMem m e := rfl
  simp only [threadSwitch, run_cons, exec, pushal_of_esp he hlt, Machine.setReg, Machine.store,
    ne_eq, reduceCtorEq, not_false_eq_true, update_self, update_of_ne, hloadCur,
    hstore, hloadNext]
  exact ⟨_, by simp, rfl⟩

/-- Neither `popal` nor `ret` writes. -/
theorem run_threadSwitch_mem (he : m.reg .esp = e + 32) (hlt : e + 32 < 2 ^ 32)
    (hcur : g.currentThread < e ∨ e + 32 ≤ g.currentThread)
    (hnext : g.nextThread < e ∨ e + 32 ≤ g.nextThread)
    (hne : m.mem g.currentThread ≠ g.nextThread) :
    (run g.threadSwitch m).mem =
      update (update (g.leftMem m e) g.currentThread (m.mem g.nextThread))
        g.nextThread 0 := by
  obtain ⟨reg, _, hrun⟩ := run_threadSwitch he hlt hcur hnext hne
  rw [hrun]
  rfl

/-- The registers come from the frame, if the first word of the next thread is its address. -/
theorem run_threadSwitch_reg (he : m.reg .esp = e + 32) (hlt : e + 32 < 2 ^ 32)
    (hcur : g.currentThread < e ∨ e + 32 ≤ g.currentThread)
    (hnext : g.nextThread < e ∨ e + 32 ≤ g.nextThread)
    (hne : m.mem g.currentThread ≠ g.nextThread)
    (hsp : g.leftMem m e (m.mem g.nextThread) = sp) (hsplt : sp + 36 < 2 ^ 32)
    (hsc : g.currentThread < sp ∨ sp + 36 ≤ g.currentThread)
    (hsn : g.nextThread < sp ∨ sp + 36 ≤ g.nextThread) :
    (run g.threadSwitch m).eip = g.leftMem m e (sp + 32) ∧
      (run g.threadSwitch m).reg .esp = sp + 36 ∧
      ∀ r, r ≠ .esp → (run g.threadSwitch m).reg r = g.leftMem m e (sp + r.offset) := by
  obtain ⟨reg, hreg, hrun⟩ := run_threadSwitch he hlt hcur hnext hne
  -- the frame that is taken back is away from both variables
  have hframe (i : Nat) (hi : i < 36) :
      update (g.leftMem m e) g.currentThread (m.mem g.nextThread) (sp + i) =
        g.leftMem m e (sp + i) :=
    update_of_ne (by omega) _ _
  have hesp : (sp + 32 + 4) % 2 ^ 32 = sp + 36 := by omega
  rw [hrun]
  simp only [run_cons, run_nil, exec]
  rw [popal_of_esp (hreg.trans hsp) (by omega)]
  simp only [Machine.store, Machine.setReg, if_true, hesp]
  refine ⟨?_, update_self .., fun r hr => ?_⟩
  · rw [update_of_ne (by omega), hframe 32 (by omega)]
  · have hoff := r.offset_lt
    rw [update_of_ne hr, if_neg hr]
    exact hframe _ (by omega)

end

/-! ## The array -/

/-- `sp`, `stack` and `state` follow each other in this order. -/
theorem layout_spec (p : Program) :
    p.layout.sp + 4 ≤ p.layout.stack ∧ p.layout.stack + stackSize ≤ p.layout.state ∧
      p.layout.state + 4 ≤ p.layout.size ∧ 4 ∣ p.layout.stack ∧ 4 ∣ p.layout.size := by
  cases p <;> decide

/-- `tid` and `ptid` are before `sp` or behind `state`. -/
theorem field_spec (p : Program) (h : p.layout.tid = some o ∨ p.layout.ptid = some o) :
    (o + 4 ≤ p.layout.sp ∨ p.layout.state + 4 ≤ o) ∧ o + 4 ≤ p.layout.size := by
  cases p <;> simp only [Program.layout, reduceCtorEq, or_self, or_false, Option.some.injEq] at h ⊢
  all_goals omega

theorem size_pos (g : Image) : 0 < g.layout.size := by
  have hl := layout_spec g.program
  simp only [layout]
  omega

theorem allThread_le (g : Image) (t : Nat) : g.allThread ≤ g.thread t :=
  Nat.le_add_right _ _

theorem thread_le (ht : t < g.program.maxThread) : g.thread t + g.layout.size ≤ g.arrayEnd := by
  have h := Nat.mul_le_mul_right g.layout.size ht
  rw [Nat.succ_mul] at h
  simp only [thread, arrayEnd]
  omega

/-- Two threads do not overlap. -/
theorem thread_disjoint (h : t ≠ u) :
    g.thread t + g.layout.size ≤ g.thread u ∨ g.thread u + g.layout.size ≤ g.thread t := by
  simp only [thread]
  rcases Nat.lt_or_gt_of_ne h with h | h
  · have hmul := Nat.mul_le_mul_right g.layout.size h
    rw [Nat.succ_mul] at hmul
    omega
  · have hmul := Nat.mul_le_mul_right g.layout.size h
    rw [Nat.succ_mul] at hmul
    omega

theorem current_eq (h : mem g.currentThread = g.thread t) : g.current mem = t := by
  simp only [current, h, thread, Nat.add_sub_cancel_left, Nat.mul_div_cancel _ g.size_pos]

/-- The stack a thread runs on. -/
def stackLo (g : Image) (t : Nat) : Nat :=
  if t = 0 then g.mainStack else g.thread t + g.layout.stack

/-- The end of the stack a thread runs on. -/
def stackHi (g : Image) (t : Nat) : Nat :=
  if t = 0 then g.mainTop else g.stackTop t

/-- The words that say how a thread that does not run goes on: its first word, its `sp` and its
stack. -/
def Own (g : Image) (t a : Nat) : Prop :=
  a = g.thread t ∨ a = g.thread t + g.layout.sp ∨ g.stackLo t ≤ a ∧ a < g.stackHi t

theorem stackHi_le (ht : t < g.program.maxThread) : g.stackHi t ≤ 0x80000000 := by
  have hl := layout_spec g.program
  have hle := thread_le ht
  have harray : g.arrayEnd ≤ 0x80000000 := g.array_le
  have hmain := g.main_le
  simp only [stackHi, stackTop, layout] at *
  split <;> omega

/-- A word of a thread is in the array or on the stack of the main thread. -/
theorem Own.where (h : g.Own t a) (ht : t < g.program.maxThread) :
    g.thread t ≤ a ∧ a < g.thread t + g.layout.state ∧ a < g.arrayEnd ∨
      t = 0 ∧ g.mainStack ≤ a ∧ a < g.mainTop := by
  have hl := layout_spec g.program
  have hle := thread_le ht
  simp only [Own, stackLo, stackHi, stackTop, layout] at *
  split at h <;> omega

/-- A thread's own words are no other thread's. -/
theorem Own.disjoint (h : g.Own t a) (ht : t < g.program.maxThread)
    (hu : u < g.program.maxThread) (htu : t ≠ u) : ¬ g.Own u a := by
  intro h'
  have hl := layout_spec g.program
  have hd := thread_disjoint (g := g) htu
  have hmain := g.main_array
  have ha := h.where ht
  have ha' := h'.where hu
  have hlow := allThread_le g t
  have hlow' := allThread_le g u
  simp only [arrayEnd, layout] at *
  omega

theorem Own.ne_state (h : g.Own t a) (ht : t < g.program.maxThread)
    (hu : u < g.program.maxThread) : a ≠ g.thread u + g.layout.state := by
  have hl := layout_spec g.program
  have hmain := g.main_array
  have ha := h.where ht
  have hle := thread_le hu
  have hlow := allThread_le g u
  simp only [arrayEnd, layout] at *
  by_cases htu : t = u
  · subst htu
    omega
  · have hd := thread_disjoint (g := g) htu
    simp only [layout] at hd
    omega

theorem Own.ne_current (h : g.Own t a) (ht : t < g.program.maxThread) : a ≠ g.currentThread := by
  have ha := h.where ht
  have hlow := allThread_le g t
  have hout := g.current_out
  have hmain := g.main_current
  simp only [arrayEnd, layout] at *
  omega

theorem Own.ne_next (h : g.Own t a) (ht : t < g.program.maxThread) : a ≠ g.nextThread := by
  have ha := h.where ht
  have hlow := allThread_le g t
  have hout := g.next_out
  have hmain := g.main_next
  simp only [arrayEnd, layout] at *
  omega

/-- A field of a thread is not one of the variables. -/
theorem field_ne (ht : t < g.program.maxThread) (ho : o < g.layout.size) :
    g.thread t + o ≠ g.currentThread ∧ g.thread t + o ≠ g.nextThread := by
  have hle := thread_le ht
  have hlow := allThread_le g t
  have hcur := g.current_out
  have hnext := g.next_out
  simp only [arrayEnd, layout] at *
  omega

/-- Fields of two threads are different words. -/
theorem field_ne_field {o' : Nat} (htu : t ≠ u) (ho : o < g.layout.size) (ho' : o' < g.layout.size) :
    g.thread t + o ≠ g.thread u + o' := by
  have hd := thread_disjoint (g := g) htu
  omega

theorem state_lt_size (g : Image) : g.layout.state < g.layout.size := by
  have hl := layout_spec g.program
  simp only [layout]
  omega

/-- The first word is not on the stack. -/
theorem thread_out_of_stack (ht : t < g.program.maxThread) :
    g.thread t < g.stackLo t ∨ g.stackHi t ≤ g.thread t := by
  have hl := layout_spec g.program
  have hle := thread_le ht
  have hlow := allThread_le g t
  have hmain := g.main_array
  simp only [stackLo, stackHi, stackTop, arrayEnd, layout] at *
  split <;> omega

/-- `thread_switch` finds the saved stack pointer in two of the programs. -/
theorem layout_sp_of_ne (h : g.program ≠ .uthread3) : g.layout.sp = 0 := by
  unfold layout
  cases hp : g.program with
  | uthread1 => rfl
  | uthread2 => rfl
  | uthread3 => exact absurd hp h

/-- What a thread owns is not in the structure of another. -/
theorem Own.out_of_thread (h : g.Own t a) (ht : t < g.program.maxThread)
    (hu : u < g.program.maxThread) (htu : t ≠ u) :
    a < g.thread u ∨ g.thread u + g.layout.size ≤ a := by
  have hl := layout_spec g.program
  have hd := thread_disjoint (g := g) htu
  have hmain := g.main_array
  have ha := h.where ht
  have hle := thread_le hu
  have hlow := allThread_le g u
  simp only [arrayEnd, layout] at *
  omega

/-! ## The states -/

theorem state_setState (g : Image) (t : Nat) (v : ThreadState) (mem : Nat → Nat) :
    g.state (g.setState t v mem) = update (g.state mem) t v := by
  funext u
  by_cases hu : u = t
  · subst hu
    simp [state, setState]
  · have hne := field_ne_field hu g.state_lt_size g.state_lt_size
    rw [update_of_ne hu]
    simp only [state, setState, update_of_ne hne]

/-- The states in memory go over as `thread_schedule` decides. -/
theorem state_handOver (g : Image) (c n : Nat) (mem : Nat → Nat) :
    g.state (g.handOver c n mem) = g.program.handOver (g.state mem) c n := by
  unfold handOver Program.handOver
  cases g.program with
  | uthread1 =>
    simp only [state_setState]
    split
    · rw [state_setState, state_setState]
    · rw [state_setState]
  | uthread2 =>
    simp only [state_setState]
    split
    · rw [state_setState, state_setState]
    · rw [state_setState]
  | uthread3 => simp only [state_setState]

theorem setState_of_ne {v : ThreadState} (h : a ≠ g.thread t + g.layout.state) :
    g.setState t v mem a = mem a :=
  update_of_ne h _ _

/-- `thread_schedule` writes states only. -/
theorem handOver_of_ne {c n : Nat} (hc : a ≠ g.thread c + g.layout.state)
    (hn : a ≠ g.thread n + g.layout.state) : g.handOver c n mem a = mem a := by
  unfold handOver
  cases g.program with
  | uthread1 =>
    dsimp only
    split
    · rw [setState_of_ne hc, setState_of_ne hn]
    · rw [setState_of_ne hn]
  | uthread2 =>
    dsimp only
    split
    · rw [setState_of_ne hc, setState_of_ne hn]
    · rw [setState_of_ne hn]
  | uthread3 =>
    dsimp only
    rw [setState_of_ne hc, setState_of_ne hn]

/-! ## Creating a thread -/

theorem setField_of_ne {f : Option Nat} {v : Nat} (h : ∀ o, f = some o → a ≠ g.thread t + o) :
    g.setField t f v mem a = mem a := by
  cases f with
  | none => rfl
  | some o => exact update_of_ne (h o rfl) _ _

/-- `thread_create` writes the structure of the new thread only. -/
theorem initThread_of_out {func : Nat} (h : a < g.thread t ∨ g.thread t + g.layout.size ≤ a) :
    g.initThread t func mem a = mem a := by
  have hl := layout_spec g.program
  have hfield (o : Nat) (ho : g.layout.tid = some o ∨ g.layout.ptid = some o) :
      a ≠ g.thread t + o := by
    have hf := field_spec g.program ho
    simp only [layout] at *
    omega
  have hsp : a ≠ g.stackTop t - 4 ∧ a ≠ g.thread t + g.layout.sp ∧
      a ≠ g.thread t + g.layout.state := by
    simp only [stackTop, stackSize, layout] at *
    omega
  simp only [initThread]
  rw [setState_of_ne hsp.2.2, update_of_ne hsp.2.1, update_of_ne hsp.1,
    setField_of_ne fun o ho => hfield o (.inr ho), setField_of_ne fun o ho => hfield o (.inl ho)]

theorem state_initThread (g : Image) (t func : Nat) (mem : Nat → Nat) :
    g.state (g.initThread t func mem) = update (g.state mem) t .runnable := by
  funext u
  by_cases hu : u = t
  · subst hu
    simp [state, initThread, setState]
  · have hne := thread_disjoint (g := g) hu
    have hlt := g.state_lt_size
    rw [update_of_ne hu]
    simp only [state]
    rw [initThread_of_out (by omega)]

/-- The frame that `thread_create` builds. -/
theorem initThread_frame (g : Image) (t func : Nat) (mem : Nat → Nat) :
    g.initThread t func mem (g.thread t + g.layout.sp) = g.stackTop t - 36 ∧
      g.initThread t func mem (g.stackTop t - 4) = func := by
  have hl := layout_spec g.program
  have hne : g.thread t + g.layout.sp ≠ g.thread t + g.layout.state ∧
      g.stackTop t - 4 ≠ g.thread t + g.layout.state ∧
      g.stackTop t - 4 ≠ g.thread t + g.layout.sp := by
    simp only [stackTop, stackSize, layout] at *
    omega
  simp only [initThread]
  constructor
  · rw [setState_of_ne hne.1, update_self]
    omega
  · rw [setState_of_ne hne.2.1, update_of_ne hne.2.2, update_self]

/-! ## The start -/

theorem maxThread_pos (p : Program) : 0 < p.maxThread := by
  cases p <;> decide

theorem threadInit_current (g : Image) (mem : Nat → Nat) :
    g.threadInit mem g.currentThread = g.thread 0 := by
  have hpos := maxThread_pos g.program
  have hfield (o : Nat) (ho : g.layout.tid = some o ∨ g.layout.ptid = some o) :
      g.currentThread ≠ g.thread 0 + o := by
    have hf := field_spec g.program ho
    exact (field_ne hpos (by simp only [layout]; omega)).1.symm
  simp only [threadInit]
  rw [setField_of_ne fun o ho => hfield o (.inr ho), setField_of_ne fun o ho => hfield o (.inl ho),
    setState_of_ne (field_ne hpos g.state_lt_size).1.symm, update_self]

/-- The main thread is RUNNING and all others are FREE. -/
theorem state_threadInit (ht : t < g.program.maxThread) :
    g.state (g.threadInit mem) t = if t = 0 then .running else .free := by
  have hfield (o : Nat) (ho : g.layout.tid = some o ∨ g.layout.ptid = some o) :
      g.thread t + g.layout.state ≠ g.thread 0 + o := by
    have hl := layout_spec g.program
    have hf := field_spec g.program ho
    by_cases h0 : t = 0
    · subst h0
      simp only [layout]
      omega
    · exact field_ne_field h0 g.state_lt_size (by simp only [layout]; omega)
  have hle := thread_le ht
  have hlow := allThread_le g t
  have hlt := g.state_lt_size
  simp only [state, threadInit]
  rw [setField_of_ne fun o ho => hfield o (.inr ho), setField_of_ne fun o ho => hfield o (.inl ho)]
  by_cases h0 : t = 0
  · subst h0
    simp [setState, ThreadState.word, ThreadState.ofWord]
  · rw [setState_of_ne (field_ne_field h0 g.state_lt_size g.state_lt_size), if_neg h0,
      update_of_ne (field_ne ht g.state_lt_size).1, if_pos (by omega)]
    rfl

end Image

end Uthread
end Xv6
