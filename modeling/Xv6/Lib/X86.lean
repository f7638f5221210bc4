import Mathlib.Algebra.Group.Int.Defs
import Mathlib.Algebra.Group.Nat.Defs
import Mathlib.Logic.Function.Basic
import Mathlib.Tactic.Common

/-!
# A fragment of the 32-bit x86

Registers, a memory of words, and the instructions that move words between them.  All accesses
are to aligned words, so that the memory is a function of the address of the word: two addresses
are the same word or do not overlap.

`pushal` leaves a frame of eight words on the stack and `popal` takes such a frame back.  The
lemmas about the two say where each register is in the frame, which is what code that
switches between stacks needs.
-/

namespace Xv6
namespace Lib
namespace X86

open Function

/-- The general registers. -/
inductive Reg where
  | eax
  | ecx
  | edx
  | ebx
  | esp
  | ebp
  | esi
  | edi
deriving DecidableEq

/-- Where a register is in the frame of `pushal`, counted from its lowest word. -/
def Reg.offset : Reg → Nat
  | .edi => 0
  | .esi => 4
  | .ebp => 8
  | .esp => 12
  | .ebx => 16
  | .edx => 20
  | .ecx => 24
  | .eax => 28

theorem Reg.offset_lt (r : Reg) : r.offset < 32 := by
  cases r <;> decide

/-- Registers and memory. -/
structure Machine where
  reg : Reg → Nat
  eip : Nat
  mem : Nat → Nat

namespace Machine

/-- `movl $v, %r`. -/
def setReg (m : Machine) (r : Reg) (v : Nat) : Machine :=
  { m with reg := update m.reg r v }

/-- `movl $v, a`. -/
def store (m : Machine) (a v : Nat) : Machine :=
  { m with mem := update m.mem a v }

/-- A word onto the stack. -/
def push (m : Machine) (v : Nat) : Machine :=
  let a := (m.reg .esp + (2 ^ 32 - 4)) % 2 ^ 32
  (m.setReg .esp a).store a v

/-- A word off the stack, into a register. -/
def pop (m : Machine) (r : Reg) : Machine :=
  let a := m.reg .esp
  (m.setReg .esp ((a + 4) % 2 ^ 32)).setReg r (m.mem a)

end Machine

/-- The instructions.  Only `ret` says where control goes; the others are read in order. -/
inductive Instr where
  | pushal
  | popal
  | ret
  /-- `movl a, %r`. -/
  | load (a : Nat) (r : Reg)
  /-- `movl %r, a`. -/
  | store (r : Reg) (a : Nat)
  /-- `movl $v, a`. -/
  | storeImm (v a : Nat)
  /-- `movl (%b), %r`. -/
  | loadAt (b r : Reg)
  /-- `movl %r, (%b)`. -/
  | storeAt (r b : Reg)
  /-- `pushl %r`. -/
  | push (r : Reg)
  /-- `movl %r, %r'`. -/
  | mov (r r' : Reg)
  /-- `subl $n, %r`. -/
  | sub (n : Nat) (r : Reg)
  | leave

/-- `pushal`: all registers in order, the stack pointer as it was before the first. -/
def pushal (m : Machine) : Machine :=
  let esp := m.reg .esp
  let m := (((m.push (m.reg .eax)).push (m.reg .ecx)).push (m.reg .edx)).push (m.reg .ebx)
  (((m.push esp).push (m.reg .ebp)).push (m.reg .esi)).push (m.reg .edi)

/-- `popal`: the registers in the other order; the word of the stack pointer is skipped. -/
def popal (m : Machine) : Machine :=
  let m := ((m.pop .edi).pop .esi).pop .ebp
  let m := m.setReg .esp ((m.reg .esp + 4) % 2 ^ 32)
  (((m.pop .ebx).pop .edx).pop .ecx).pop .eax

/-- One instruction. -/
def exec : Instr → Machine → Machine
  | .pushal, m => pushal m
  | .popal, m => popal m
  | .ret, m =>
    { m.setReg .esp ((m.reg .esp + 4) % 2 ^ 32) with eip := m.mem (m.reg .esp) }
  | .load a r, m => m.setReg r (m.mem a)
  | .store r a, m => m.store a (m.reg r)
  | .storeImm v a, m => m.store a v
  | .loadAt b r, m => m.setReg r (m.mem (m.reg b))
  | .storeAt r b, m => m.store (m.reg b) (m.reg r)
  | .push r, m => m.push (m.reg r)
  | .mov r r', m => m.setReg r' (m.reg r)
  | .sub n r, m => m.setReg r ((m.reg r + (2 ^ 32 - n)) % 2 ^ 32)
  | .leave, m => (m.setReg .esp (m.reg .ebp)).pop .ebp

/-- Instructions in order. -/
def run (is : List Instr) (m : Machine) : Machine :=
  is.foldl (fun m i => exec i m) m

@[simp] theorem run_nil (m : Machine) : run [] m = m := rfl

@[simp] theorem run_cons (i : Instr) (is : List Instr) (m : Machine) :
    run (i :: is) m = run is (exec i m) := rfl

/-! ## The frame of `pushal` -/

/-- The memory with the registers `reg` in a frame at `a`. -/
def saved (reg : Reg → Nat) (a : Nat) (mem : Nat → Nat) (x : Nat) : Nat :=
  if x = a then reg .edi else if x = a + 4 then reg .esi
  else if x = a + 8 then reg .ebp else if x = a + 12 then reg .esp
  else if x = a + 16 then reg .ebx else if x = a + 20 then reg .edx
  else if x = a + 24 then reg .ecx else if x = a + 28 then reg .eax
  else mem x

theorem saved_offset (reg : Reg → Nat) (a : Nat) (mem : Nat → Nat) (r : Reg) :
    saved reg a mem (a + r.offset) = reg r := by
  cases r <;> simp [saved, Reg.offset]

theorem saved_of_outside (reg : Reg → Nat) {a x : Nat} (mem : Nat → Nat)
    (h : x < a ∨ a + 32 ≤ x) : saved reg a mem x = mem x := by
  unfold saved
  repeat rw [if_neg (by omega)]

theorem push_mk (reg : Reg → Nat) (eip : Nat) (mem : Nat → Nat) (v : Nat) {a : Nat}
    (ha : a + 4 < 2 ^ 32) :
    Machine.push ⟨update reg .esp (a + 4), eip, mem⟩ v =
      ⟨update reg .esp a, eip, update mem a v⟩ := by
  have hwrap : (a + 4 + (2 ^ 32 - 4)) % 2 ^ 32 = a := by omega
  simp only [Machine.push, Machine.setReg, Machine.store, update_self, update_idem, hwrap]

/-- `pushal` leaves the registers in a frame below the stack pointer. -/
theorem pushal_of_esp {m : Machine} {a : Nat} (h : m.reg .esp = a + 32) (ha : a + 32 < 2 ^ 32) :
    pushal m = ⟨update m.reg .esp a, m.eip, saved m.reg a m.mem⟩ := by
  obtain ⟨reg, eip, mem⟩ := m
  -- the stack pointer as an update, so that one lemma serves all eight words
  have hreg : reg = update reg .esp (a + 28 + 4) := by
    rw [show a + 28 + 4 = reg .esp from h.symm, update_eq_self]
  have hfirst (v : Nat) : Machine.push ⟨reg, eip, mem⟩ v = _ :=
    (congrArg (fun reg => Machine.push ⟨reg, eip, mem⟩ v) hreg).trans
      (push_mk reg eip mem v (by omega))
  simp only [pushal]
  rw [hfirst]
  rw [push_mk (a := a + 24) _ _ _ _ (by omega)]
  rw [push_mk (a := a + 20) _ _ _ _ (by omega)]
  rw [push_mk (a := a + 16) _ _ _ _ (by omega)]
  rw [push_mk (a := a + 12) _ _ _ _ (by omega)]
  rw [push_mk (a := a + 8) _ _ _ _ (by omega)]
  rw [push_mk (a := a + 4) _ _ _ _ (by omega)]
  rw [push_mk (a := a) _ _ _ _ (by omega)]
  simp only [ne_eq, reduceCtorEq, not_false_eq_true, update_of_ne]
  congr 1
  funext x
  simp only [saved, update_apply]

/-- `popal` takes the registers from a frame at the stack pointer. -/
theorem popal_of_esp {m : Machine} {a : Nat} (h : m.reg .esp = a) (ha : a + 32 < 2 ^ 32) :
    popal m =
      ⟨fun r => if r = .esp then a + 32 else m.mem (a + r.offset), m.eip, m.mem⟩ := by
  obtain ⟨reg, eip, mem⟩ := m
  have h : reg .esp = a := h
  -- no word of the frame is beyond the end of the address space
  have hwrap (k : Nat) (hk : k ≤ 32) : (a + k) % 4294967296 = a + k := by omega
  simp only [popal, Machine.pop, Machine.setReg, h]
  congr 1
  funext r
  cases r <;> simp [Reg.offset, Nat.add_assoc, hwrap]

end X86
end Lib
end Xv6
