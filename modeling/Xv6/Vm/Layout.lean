import Mathlib.Algebra.Group.Int.Defs
import Mathlib.Algebra.Group.Nat.Defs
import Mathlib.Tactic.Common

/-!
# Address-space layout (`mmu.h`, `memlayout.h`)

Addresses are natural numbers below `2 ^ 32`; arithmetic that can wrap is reduced
explicitly.  Physical pages are named by their page number, `pa / PGSIZE`.  What
the linker and the boot loader decide (the end of the kernel, the frame buffer)
is collected in `Machine`, with the facts every boot relies on.
-/

namespace Xv6
namespace Vm

/-- Bytes mapped by a page. -/
def PGSIZE : Nat := 4096

/-- First kernel virtual address. -/
def KERNBASE : Nat := 0x80000000

/-- Start of extended memory. -/
def EXTMEM : Nat := 0x100000

/-- Top physical memory. -/
def PHYSTOP : Nat := 0x20000000

/-- Other devices are at high addresses. -/
def DEVSPACE : Nat := 0xFE000000

/-- Physical base of the PCI window. -/
def PCI_BAR_BASE : Nat := 0x80000000

/-- Distance from the PCI window to its virtual address. -/
def PCI_VP_OFFSET : Nat := 0x40000000

/-- Address where kernel is linked. -/
def KERNLINK : Nat := KERNBASE + EXTMEM

/-- Number of directory entries per page directory. -/
def NPDENTRIES : Nat := 1024

/-- Present. -/
def PTE_P : Nat := 1

/-- Writeable. -/
def PTE_W : Nat := 2

/-- User. -/
def PTE_U : Nat := 4

/-- Page directory index. -/
def PDX (va : Nat) : Nat := va / 2 ^ 22 % 1024

/-- Page table index. -/
def PTX (va : Nat) : Nat := va / 2 ^ 12 % 1024

/-- Round down to a page boundary. -/
def PGROUNDDOWN (a : Nat) : Nat := a / PGSIZE * PGSIZE

/-- Round up to a page boundary, in 32-bit arithmetic. -/
def PGROUNDUP (sz : Nat) : Nat := (sz + PGSIZE - 1) % 2 ^ 32 / PGSIZE * PGSIZE

/-- The physical page a kernel address of the direct mapping refers to. -/
def V2P (a : Nat) : Nat := a - KERNBASE

/-- The kernel address of a physical address. -/
def P2V (a : Nat) : Nat := a + KERNBASE

/-- A 32-bit value as an unsigned number. -/
def toUint (x : Int) : Nat := (x % 2 ^ 32).toNat

/-- Page numbers of the virtual addresses below `KERNBASE`. -/
def userPages : Nat := 2 ^ 19

/-- What differs from one machine to another: the link-time symbols `data` and
`end`, and the frame buffer reported by the boot loader, in pages. -/
structure Machine where
  /-- `V2P(data) / PGSIZE`: first page after the kernel's text. -/
  dataPage : Nat
  /-- `V2P(end) / PGSIZE`: first page after the kernel. -/
  endPage : Nat
  /-- `gpu.pvram_addr / PGSIZE`. -/
  vramPage : Nat
  /-- `gpu.vram_size / PGSIZE`. -/
  vramPages : Nat
  text_pos : EXTMEM / PGSIZE < dataPage
  data_lt_end : dataPage < endPage
  end_le : endPage ≤ 4 * 1024 * 1024 / PGSIZE
  vram_pos : 0 < vramPages
  vram_fits : 0xD0000 + vramPages ≤ DEVSPACE / PGSIZE
  vram_high : PHYSTOP / PGSIZE ≤ vramPage
  vram_phys : vramPage + vramPages ≤ 2 ^ 20

/-- The pages `kfree` accepts: those between the end of the kernel and the top of
physical memory. -/
def Machine.InRange (M : Machine) (page : Nat) : Prop :=
  M.endPage ≤ page ∧ page < PHYSTOP / PGSIZE

instance (M : Machine) (page : Nat) : Decidable (M.InRange page) :=
  inferInstanceAs (Decidable (_ ∧ _))

end Vm
end Xv6
