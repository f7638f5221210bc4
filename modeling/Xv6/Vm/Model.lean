import Xv6.Lib.Exec
import Xv6.Vm.PageDir

/-!
# The page allocator and the page-table code (`kalloc.c`, `vm.c`)

Every function here runs over `Kmem`: the free list and the contents of physical
memory.  Page directories are values; a function that writes through a page-table
pointer returns the changed directory.

Counting loops over addresses run on fuel.  `mappages` visits each of the `2 ^ 20`
virtual pages at most once before it meets its last page, so its fuel never runs
out.  `deallocuvm` compares with `<` and its counter can wrap around, so its loop
may really run forever; running out of fuel there is the outcome `hang`.
-/

namespace Xv6

/-- The `panic` calls of the modelled kernel code. -/
inductive Panic
  | kfree
  | freevm
  | remap
  | physTop
  | loaduvmAlign
  | loaduvmMissing
  | inituvm
  | userinit
  | switchuvmKstack
  | switchuvmPgdir
  | initExiting
  | filedup
  | fileclose
deriving DecidableEq, Repr

/-- Why the kernel stops, or why a step cannot be taken. -/
inductive Stop
  /-- `panic` was called. -/
  | panic (p : Panic)
  /-- A loop runs forever. -/
  | hang
  /-- Memory is accessed through a null or dangling pointer. -/
  | wild
  /-- The step is not possible in this state. -/
  | blocked
deriving DecidableEq, Repr

namespace Vm

open Lib Function

/-- The allocator's state: the free list, first page first, and the contents of
every physical page. -/
structure Kmem where
  freelist : List Nat
  mem : Nat → Nat → UInt8

/-- Memory-management code. -/
abbrev VmM : Type → Type := Exec Stop Kmem

variable (M : Machine)

/-- Fill a page with one byte (`memset(v, c, PGSIZE)`). -/
def fillPage (page : Nat) (c : UInt8) : VmM Unit :=
  Exec.modify fun s => { s with mem := update s.mem page fun _ => c }

/-- Free the page of physical memory pointed at by `P2V(page * PGSIZE)`. -/
def kfree (page : Nat) : VmM Unit :=
  if M.InRange page then do
    -- fill with junk to catch dangling refs
    fillPage page 1
    Exec.modify fun s => { s with freelist := page :: s.freelist }
  else
    Exec.stop (.panic .kfree)

/-- Allocate one page of physical memory; `none` if there is none. -/
def kalloc : VmM (Option Nat) := fun s =>
  match s.freelist with
  | [] => .ok (none, s)
  | page :: rest => .ok (some page, { s with freelist := rest })

/-- The loop of `freerange`, over page numbers. -/
def freerangeLoop (first : Nat) : Nat → VmM Unit
  | 0 => pure ()
  | n + 1 => do
    freerangeLoop first n
    kfree M (first + n)

/-- Put the whole pages between two kernel addresses on the free list, lowest
first. -/
def freerange (vstart vend : Nat) : VmM Unit :=
  freerangeLoop M (V2P (PGROUNDUP vstart) / PGSIZE)
    ((vend - PGROUNDUP vstart) / PGSIZE)

/-- Return the directory in which the PTE for `va` exists, creating the page
table if `alloc`; the flag is false when the pointer returned is null. -/
def walkpgdir (d : PageDir) (va : Nat) (alloc : Bool) : VmM (PageDir × Bool) :=
  match d.pde (PDX va) with
  | some _ => pure (d, true)
  | none =>
    if alloc then do
      match ← kalloc with
      | none => pure (d, false)
      | some pgtab => do
        -- make sure all those PTE_P bits are zero
        fillPage pgtab 0
        pure (d.addTable va pgtab, true)
    else
      pure (d, false)

/-- The loop of `mappages`; `ppn` is `pa / PGSIZE`. -/
def mappagesLoop (perm last : Nat) : Nat → PageDir → Nat → Nat → VmM (PageDir × Bool)
  | 0, d, _, _ => pure (d, true)
  | fuel + 1, d, a, ppn => do
    let (d, found) ← walkpgdir d a true
    if found then
      if (d.pte a).present then
        Exec.stop (.panic .remap)
      else
        let d := d.setPte a ⟨ppn, perm ||| PTE_P⟩
        if a = last then
          pure (d, true)
        else
          mappagesLoop perm last fuel d ((a + PGSIZE) % 2 ^ 32) ((ppn + 1) % 2 ^ 20)
    else
      pure (d, false)

/-- Create PTEs for virtual addresses starting at `va` that refer to physical
addresses starting at page `ppn`; the flag is false for the result `-1`. -/
def mappages (d : PageDir) (va size ppn perm : Nat) : VmM (PageDir × Bool) :=
  mappagesLoop perm (PGROUNDDOWN (toUint ((va : Int) + size - 1))) (2 ^ 20) d
    (PGROUNDDOWN va) ppn

/-- One turn of the loop of `deallocuvm`. -/
def deallocPage (d : PageDir) (a : Nat) : VmM PageDir := do
  let (d, found) ← walkpgdir d a false
  if found then
    if (d.pte a).present then
      if (d.pte a).ppn = 0 then
        Exec.stop (.panic .kfree)
      else do
        kfree M (d.pte a).ppn
        pure (d.setPte a Pte.zero)
    else
      pure d
  else
    pure d

/-- The loop of `deallocuvm`. -/
def deallocLoop (oldsz : Nat) : Nat → PageDir → Nat → VmM PageDir
  | 0, _, _ => Exec.stop .hang
  | fuel + 1, d, a =>
    if a < oldsz then do
      let d ← deallocPage M d a
      deallocLoop oldsz fuel d ((a + PGSIZE) % 2 ^ 32)
    else
      pure d

/-- Deallocate user pages to bring the process size from `oldsz` to `newsz`;
returns the new process size. -/
def deallocuvm (d : PageDir) (oldsz newsz : Nat) : VmM (PageDir × Nat) :=
  if newsz ≥ oldsz then
    pure (d, oldsz)
  else do
    let d ← deallocLoop M oldsz (2 ^ 20 + 1) d (PGROUNDDOWN newsz)
    pure (d, newsz)

/-- Free the page tables of a directory, from entry `0` up to entry `n - 1`. -/
def freeTables (d : PageDir) : Nat → VmM Unit
  | 0 => pure ()
  | n + 1 => do
    freeTables d n
    match d.pde n with
    | some t => kfree M t.page
    | none => pure ()

/-- Free a page table and all the physical memory pages in the user part. -/
def freevm (d : PageDir) : VmM Unit := do
  let (d, _) ← deallocuvm M d KERNBASE 0
  freeTables M d NPDENTRIES
  kfree M d.page

/-- One row of the table `kmap`. -/
structure Kmap where
  virt : Nat
  physStart : Nat
  physEnd : Nat
  perm : Nat

/-- The kernel's mappings, which are present in every process's page table; the
fourth row is the frame buffer filled in by `setupkvm`. -/
def kmap : List Kmap :=
  [⟨KERNBASE, 0, EXTMEM, PTE_W⟩, ⟨KERNLINK, V2P KERNLINK, M.dataPage * PGSIZE, 0⟩,
    ⟨P2V (M.dataPage * PGSIZE), M.dataPage * PGSIZE, PHYSTOP, PTE_W⟩,
    ⟨DEVSPACE - M.vramPages * PGSIZE, M.vramPage * PGSIZE,
      (M.vramPage + M.vramPages) * PGSIZE, PTE_W⟩,
    ⟨PCI_BAR_BASE + PCI_VP_OFFSET, PCI_BAR_BASE, 0x10000000 + PCI_BAR_BASE, PTE_W⟩,
    ⟨DEVSPACE, DEVSPACE, 0, PTE_W⟩]

/-- The loop of `setupkvm`. -/
def mapKernel : List Kmap → PageDir → VmM (Option PageDir)
  | [], d => pure (some d)
  | k :: ks, d => do
    let (d, mapped) ← mappages d k.virt (toUint ((k.physEnd : Int) - k.physStart))
      (k.physStart / PGSIZE) k.perm
    if mapped then
      mapKernel ks d
    else do
      freevm M d
      pure none

/-- Set up kernel part of a page table. -/
def setupkvm : VmM (Option PageDir) := do
  match ← kalloc with
  | none => pure none
  | some pgdir => do
    fillPage pgdir 0
    if P2V PHYSTOP > DEVSPACE then
      Exec.stop (.panic .physTop)
    else
      mapKernel M (kmap M) (PageDir.empty pgdir)

/-- The loop of `allocuvm`; the result is `0` on error. -/
def allocLoop (oldsz newsz : Nat) : Nat → PageDir → Nat → VmM (PageDir × Nat)
  | 0, _, _ => Exec.stop .hang
  | fuel + 1, d, a =>
    if a < newsz then do
      match ← kalloc with
      | none => do
        let (d, _) ← deallocuvm M d newsz oldsz
        pure (d, 0)
      | some mem => do
        fillPage mem 0
        let (d, mapped) ← mappages d a PGSIZE mem (PTE_W ||| PTE_U)
        if mapped then
          allocLoop oldsz newsz fuel d (a + PGSIZE)
        else do
          let (d, _) ← deallocuvm M d newsz oldsz
          kfree M mem
          pure (d, 0)
    else
      pure (d, newsz)

/-- Allocate page tables and physical memory to grow process from `oldsz` to
`newsz`; returns the new size or `0` on error. -/
def allocuvm (d : PageDir) (oldsz newsz : Nat) : VmM (PageDir × Nat) :=
  if newsz ≥ KERNBASE then
    pure (d, 0)
  else if newsz < oldsz then
    pure (d, oldsz)
  else
    allocLoop M oldsz newsz (2 ^ 20) d (PGROUNDUP oldsz)

/-- Copy one page (`memmove(dst, src, PGSIZE)`). -/
def copyPage (dst src : Nat) : VmM Unit :=
  Exec.modify fun s => { s with mem := update s.mem dst (s.mem src) }

/-- The loop of `copyuvm` over the last `n` user pages; `parent` is the directory
copied, `d` the child's. -/
def copyLoop (parent : PageDir) : Nat → PageDir → VmM (Option PageDir)
  | 0, d => pure (some d)
  | n + 1, d => do
    let i := (userPages - (n + 1)) * PGSIZE
    let (_, found) ← walkpgdir parent i false
    if found && (parent.pte i).present then
      match ← kalloc with
      | none => do
        freevm M d
        pure none
      | some mem => do
        copyPage mem (parent.pte i).ppn
        let (d, mapped) ← mappages d i PGSIZE mem (parent.pte i).flags
        if mapped then
          copyLoop parent n d
        else do
          -- the page just allocated is neither mapped nor freed
          freevm M d
          pure none
    else
      copyLoop parent n d

/-- Given a parent process's page table, create a copy of it for a child. -/
def copyuvm (parent : PageDir) : VmM (Option PageDir) := do
  match ← setupkvm M with
  | none => pure none
  | some d => copyLoop M parent userPages d

/-- Overwrite bytes of a physical page, from offset `off` on (`memmove`). -/
def writeBytes (page off : Nat) (bs : List UInt8) : VmM Unit :=
  Exec.modify fun s => { s with
    mem := update s.mem page fun i =>
      if off ≤ i ∧ i < off + bs.length then bs.getD (i - off) 0 else s.mem page i }

/-- Load the initcode into address 0 of `pgdir`. -/
def inituvm (d : PageDir) (init : List UInt8) : VmM PageDir :=
  if init.length ≥ PGSIZE then
    Exec.stop (.panic .inituvm)
  else do
    match ← kalloc with
    | none => Exec.stop .wild
    | some mem => do
      fillPage mem 0
      let (d, _) ← mappages d 0 PGSIZE mem (PTE_W ||| PTE_U)
      writeBytes mem 0 init
      pure d

/-- The part of `trap` that serves a page fault: map a zeroed page at `va`.  The
flag is false where `trap` kills the process. -/
def faultPage (d : PageDir) (va : Nat) : VmM (PageDir × Bool) := do
  match ← kalloc with
  | none => pure (d, false)
  | some mem => do
    fillPage mem 0
    let (d, mapped) ← mappages d va PGSIZE mem (PTE_W ||| PTE_U)
    if mapped then
      pure (d, true)
    else do
      kfree M mem
      pure (d, false)

end Vm
end Xv6
