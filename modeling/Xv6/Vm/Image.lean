import Xv6.Vm.Model

/-!
# The memory image built by `exec` (`exec.c`, `vm.c`)

`exec` builds a complete new page directory before it touches the process: the
kernel half, the segments of the program file, one stack page below `KERNBASE`,
and the arguments on that page.  `execImage` is this part; what it returns is
committed by the caller.

The program file is given by what `readi` delivers: `readi off n` is the list of
bytes read, of length `n` unless the read fails or is short.
-/

namespace Xv6
namespace Vm

open Lib

/-- `"\x7FELF"` in little endian. -/
def ELF_MAGIC : Nat := 0x464C457F

/-- The type of a loadable segment. -/
def ELF_PROG_LOAD : Nat := 1

/-- Max exec arguments. -/
def MAXARG : Nat := 32

/-- The little-endian number in the `width` bytes from `off` on. -/
def field (bs : List UInt8) (off : Nat) : Nat → Nat
  | 0 => 0
  | width + 1 => (bs.getD off 0).toNat + 256 * field bs (off + 1) width

/-- The four little-endian bytes of a word. -/
def wordBytes (w : Nat) : List UInt8 :=
  [UInt8.ofNat w, UInt8.ofNat (w / 2 ^ 8), UInt8.ofNat (w / 2 ^ 16), UInt8.ofNat (w / 2 ^ 24)]

/-- File header (`struct elfhdr`). -/
structure Elfhdr where
  magic : Nat
  entry : Nat
  phoff : Nat
  phnum : Nat
  deriving DecidableEq, Repr

/-- `sizeof(struct elfhdr)`. -/
def Elfhdr.size : Nat := 52

/-- Program section header (`struct proghdr`). -/
structure Proghdr where
  type : Nat
  off : Nat
  vaddr : Nat
  filesz : Nat
  memsz : Nat
  deriving DecidableEq, Repr

/-- `sizeof(struct proghdr)`. -/
def Proghdr.size : Nat := 32

/-- The header stored in these bytes. -/
def Elfhdr.ofBytes (bs : List UInt8) : Elfhdr where
  magic := field bs 0 4
  entry := field bs 24 4
  phoff := field bs 28 4
  phnum := field bs 44 2

/-- The program header stored in these bytes. -/
def Proghdr.ofBytes (bs : List UInt8) : Proghdr where
  type := field bs 0 4
  off := field bs 4 4
  vaddr := field bs 8 4
  filesz := field bs 16 4
  memsz := field bs 20 4

variable (M : Machine) (readi : Nat → Nat → List UInt8)

/-- The loop of `loaduvm`; the flag is false for the result `-1`. -/
def loadLoop (d : PageDir) (addr offset sz : Nat) : Nat → Nat → VmM Bool
  | 0, _ => Exec.stop .hang
  | fuel + 1, i =>
    if i < sz then do
      let (_, found) ← walkpgdir d ((addr + i) % 2 ^ 32) false
      if found then
        let n := if sz - i < PGSIZE then sz - i else PGSIZE
        let bs := readi ((offset + i) % 2 ^ 32) n
        writeBytes (d.pte ((addr + i) % 2 ^ 32)).ppn 0 bs
        if bs.length ≠ n then
          pure false
        else
          loadLoop d addr offset sz fuel (i + PGSIZE)
      else
        Exec.stop (.panic .loaduvmMissing)
    else
      pure true

/-- Load a program segment into `pgdir`.  `addr` must be page-aligned and the pages
from `addr` to `addr + sz` must already be mapped. -/
def loaduvm (d : PageDir) (addr offset sz : Nat) : VmM Bool :=
  if addr % PGSIZE ≠ 0 then
    Exec.stop (.panic .loaduvmAlign)
  else
    loadLoop readi d addr offset sz (2 ^ 20 + 1) 0

/-- Load one segment, whose header was read; `none` stands for `goto bad`. -/
def loadSegment (d : PageDir) (sz : Nat) (ph : Proghdr) : VmM (PageDir × Option Nat) :=
  if ph.type ≠ ELF_PROG_LOAD then
    pure (d, some sz)
  else if ph.memsz < ph.filesz then
    pure (d, none)
  else if (ph.vaddr + ph.memsz) % 2 ^ 32 < ph.vaddr then
    pure (d, none)
  else do
    let (d, sz) ← allocuvm M d sz ((ph.vaddr + ph.memsz) % 2 ^ 32)
    if sz = 0 then
      pure (d, none)
    else if ph.vaddr % PGSIZE ≠ 0 then
      pure (d, none)
    else do
      if ← loaduvm readi d ph.vaddr ph.off ph.filesz then
        pure (d, some sz)
      else
        pure (d, none)

/-- The loop of `exec` over the `n` program headers from file offset `off` on. -/
def loadSegments : Nat → Nat → PageDir → Nat → VmM (PageDir × Option Nat)
  | 0, _, d, sz => pure (d, some sz)
  | n + 1, off, d, sz =>
    let bs := readi off Proghdr.size
    if bs.length ≠ Proghdr.size then
      pure (d, none)
    else do
      let (d, r) ← loadSegment M readi d sz (Proghdr.ofBytes bs)
      match r with
      | none => pure (d, none)
      | some sz => loadSegments n ((off + Proghdr.size) % 2 ^ 32) d sz

/-- Map user virtual address to kernel address; `none` for a null result.  When
there is no page table, the entry is read through a null pointer. -/
def uva2ka (d : PageDir) (uva : Nat) : VmM (Option Nat) := do
  let (_, found) ← walkpgdir d uva false
  if found then
    if (d.pte uva).present = false then
      pure none
    else if (d.pte uva).user = false then
      pure none
    else if P2V ((d.pte uva).ppn * PGSIZE) % 2 ^ 32 = 0 then
      -- the kernel address wraps around to the null pointer
      pure none
    else
      pure (some (d.pte uva).ppn)
  else
    Exec.stop .wild

/-- The loop of `copyout`; every turn copies at least one byte. -/
def copyoutLoop (d : PageDir) : Nat → Nat → List UInt8 → VmM Bool
  | _, _, [] => pure true
  | 0, _, _ :: _ => Exec.stop .hang
  | fuel + 1, va, b :: bs => do
    let va0 := PGROUNDDOWN va
    match ← uva2ka d va0 with
    | none => pure false
    | some pa0 =>
      if PHYSTOP / PGSIZE ≤ pa0 then
        -- `P2V` of the page is not in the kernel's mapping of physical memory
        Exec.stop .wild
      else do
        let n := min (PGSIZE - (va - va0)) (b :: bs).length
        writeBytes pa0 (va - va0) ((b :: bs).take n)
        copyoutLoop d fuel ((va0 + PGSIZE) % 2 ^ 32) ((b :: bs).drop n)

/-- Copy bytes to user address `va` in page table `d`; the flag is false for the
result `-1`. -/
def copyout (d : PageDir) (va : Nat) (buf : List UInt8) : VmM Bool :=
  copyoutLoop d buf.length va buf

/-- Push argument strings; returns the stack pointer and the strings' addresses. -/
def pushArgs (d : PageDir) : List (List UInt8) → Nat → List Nat → VmM (Option (Nat × List Nat))
  | [], sp, ustack => pure (some (sp, ustack))
  | arg :: argv, sp, ustack =>
    if ustack.length ≥ MAXARG then
      pure none
    else do
      let sp := toUint ((sp : Int) - (arg.length + 1)) / 4 * 4
      if ← copyout d sp (arg ++ [0]) then
        pushArgs d argv sp (ustack ++ [sp])
      else
        pure none

/-- Push the argument strings and the frame of `main`; returns the stack pointer. -/
def pushStack (d : PageDir) (argv : List (List UInt8)) : VmM (Option Nat) := do
  match ← pushArgs d argv (KERNBASE - 1) [] with
  | none => pure none
  | some (sp, args) => do
    let argc := args.length
    let ustack := [0xffffffff, argc, toUint ((sp : Int) - (argc + 1) * 4)] ++ args ++ [0]
    let sp := toUint ((sp : Int) - (3 + argc + 1) * 4)
    if ← copyout d sp (ustack.flatMap wordBytes) then
      pure (some sp)
    else
      pure none

/-- A complete user image, ready to be committed. -/
structure Image where
  pgdir : PageDir
  sz : Nat
  entry : Nat
  sp : Nat

/-- `goto bad` once there is a page directory. -/
def bad (d : PageDir) : VmM (Option Image) := do
  freevm M d
  pure none

/-- The stack part of `exec`: the segments are loaded. -/
def execStack (d : PageDir) (entry : Nat) (argv : List (List UInt8)) : VmM (Option Image) := do
  let (d, sz) ← allocuvm M d (KERNBASE - 1 - PGSIZE) (KERNBASE - 1)
  if sz = 0 then
    bad M d
  else do
    match ← pushStack d argv with
    | none => bad M d
    | some sp => pure (some ⟨d, PGROUNDDOWN 0x3000, entry, sp⟩)

/-- The part of `exec` that builds the image; `none` for the result `-1`. -/
def execImage (argv : List (List UInt8)) : VmM (Option Image) :=
  let bs := readi 0 Elfhdr.size
  let elf := Elfhdr.ofBytes bs
  if bs.length ≠ Elfhdr.size then
    pure none
  else if elf.magic ≠ ELF_MAGIC then
    pure none
  else do
    match ← setupkvm M with
    | none => pure none
    | some d => do
      let (d, r) ← loadSegments M readi elf.phnum elf.phoff d 0
      match r with
      | none => bad M d
      | some _ => execStack M d elf.entry argv

end Vm
end Xv6
