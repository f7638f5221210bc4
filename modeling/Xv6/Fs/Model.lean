import Xv6.Fs.Layout
import Xv6.Log.Protocol
import Xv6.Proc.Model

/-!
# Blocks, inodes and open files (`fs.c`, `file.c`)

The file system as one call sees it: the disk through the buffer cache, the inode cache and
the open files.  `disk b` is what a buffer for block `b` shows.  A buffer or an inode that the
call waits for without anyone to release it stops the call with `hang`, so a call that
returns has taken and released its locks in an order that works.

There is one disk; the device number is carried by the inodes because the code compares it.
-/

namespace Xv6
namespace Fs

open Lib Function

/-- Maximum number of active i-nodes. -/
def NINODE : Nat := 50

/-- Maximum major device number. -/
def NDEV : Nat := 10

def T_DIR : Int16 := 1
def T_FILE : Int16 := 2
def T_DEV : Int16 := 3

/-- `struct inode`: the in-memory copy of an inode. -/
structure Inode extends Dinode where
  dev : Nat
  inum : Nat
  ref : Int
  /-- The sleep-lock is held. -/
  locked : Bool
  /-- The inode has been read from disk. -/
  valid : Bool

/-- `struct file`, with the offset of inode files. -/
structure File extends Proc.File where
  off : Nat

/-- An entry of `devsw`.  A driver that returns -1 gives `none`. -/
structure Dev where
  read : Option (Nat → Option (List UInt8))
  write : Option (List UInt8 → Option Nat)

/-- The file system, with the descriptors and the directory of the calling process. -/
structure State where
  sb : Superblock
  /-- What `bread` shows. -/
  disk : Nat → Block
  /-- The buffers that are locked. -/
  busy : Nat → Bool
  inode : Nat → Inode
  devsw : Nat → Dev
  ftable : Nat → File
  cwd : Nat
  /-- Operations begun and not ended, `log.outstanding`. -/
  outstanding : Int
  /-- The blocks passed to `log_write`, in this order. -/
  logged : List Nat

/-- Why a call does not return. -/
inductive Stop where
  /-- "balloc: out of blocks" -/
  | balloc
  /-- "freeing free block" -/
  | bfree
  /-- "iget: no inodes" -/
  | iget
  /-- "ilock" -/
  | ilock
  /-- "ilock: no type" -/
  | noType
  /-- "iunlock" -/
  | iunlock
  /-- "bmap: out of range" -/
  | bmap
  /-- "brelse" -/
  | brelse
  /-- "dirlookup not DIR" -/
  | notDir
  /-- "dirlookup read" -/
  | dirlookup
  /-- "dirlink read" -/
  | dirlinkRead
  /-- "dirlink" -/
  | dirlink
  /-- "unlink: writei" -/
  | unlink
  /-- "filewrite" -/
  | filewrite
  /-- "short filewrite" -/
  | shortWrite
  /-- Waiting for a lock that is held. -/
  | hang
deriving DecidableEq

/-- A part of a system call. -/
abbrev FsM := Exec Stop State

/-! ## Buffers and transactions -/

def begin_op : FsM Unit := Exec.modify fun s => { s with outstanding := s.outstanding + 1 }

def end_op : FsM Unit := Exec.modify fun s => { s with outstanding := s.outstanding - 1 }

/-- Lock the buffer of a block and give its data. -/
def bread (b : Nat) : FsM Block := fun s =>
  if s.busy b then .error .hang
  else .ok (s.disk b, { s with busy := update s.busy b true })

/-- Release a buffer. -/
def brelse (b : Nat) : FsM Unit := fun s =>
  if s.busy b then .ok ((), { s with busy := update s.busy b false })
  else .error .brelse

/-- Store into the data of a buffer. -/
def store (b : Nat) (data : Block) : FsM Unit :=
  Exec.modify fun s => { s with disk := update s.disk b data }

def log_write (b : Nat) : FsM Unit := Exec.modify fun s => { s with logged := s.logged ++ [b] }

/-- Read the super block. -/
def readsb : FsM Unit := do
  let bp ← bread 1
  Exec.modify fun s => { s with sb := Superblock.read bp }
  brelse 1

/-- Zero a block. -/
def bzero (b : Nat) : FsM Unit := do
  let _ ← bread b
  store b Block.zero
  log_write b
  brelse b

/-- The outer loop of `balloc`, for `k` blocks of the free map; `b` is the first block whose
bit is in the next of them. -/
def ballocFrom : Nat → Nat → FsM Nat
  | 0, _ => Exec.stop .balloc
  | k + 1, b => do
    let s ← Exec.get
    let bp ← bread (s.sb.BBLOCK b)
    match (List.range (min BPB (s.sb.size - b))).find? fun bi => !bit bp bi with
    | some bi => do
      -- mark block in use
      store (s.sb.BBLOCK b) (setBit bp bi)
      log_write (s.sb.BBLOCK b)
      brelse (s.sb.BBLOCK b)
      bzero (b + bi)
      return b + bi
    | none => do
      brelse (s.sb.BBLOCK b)
      ballocFrom k (b + BPB)

/-- Allocate a zeroed disk block. -/
def balloc : FsM Nat := do
  let s ← Exec.get
  ballocFrom ((s.sb.size + BPB - 1) / BPB) 0

/-- Free a disk block. -/
def bfree (b : Nat) : FsM Unit := do
  readsb
  let s ← Exec.get
  let bp ← bread (s.sb.BBLOCK b)
  if bit bp (b % BPB) then do
    store (s.sb.BBLOCK b) (clearBit bp (b % BPB))
    log_write (s.sb.BBLOCK b)
    brelse (s.sb.BBLOCK b)
  else
    Exec.stop .bfree

/-! ## Inodes -/

/-- The in-memory inode in a slot of the cache. -/
def inode (ip : Nat) : FsM Inode := fun s => .ok (s.inode ip, s)

/-- Update an in-memory inode. -/
def modInode (ip : Nat) (f : Inode → Inode) : FsM Unit :=
  Exec.modify fun s => { s with inode := update s.inode ip (f (s.inode ip)) }

/-- Copy a modified in-memory inode to disk. -/
def iupdate (ip : Nat) : FsM Unit := do
  let s ← Exec.get
  let i ← inode ip
  let bp ← bread (s.sb.IBLOCK i.inum)
  store (s.sb.IBLOCK i.inum) (Dinode.write bp (i.inum % IPB) i.toDinode)
  log_write (s.sb.IBLOCK i.inum)
  brelse (s.sb.IBLOCK i.inum)

/-- Find the inode with number `inum` on device `dev` and return the in-memory copy. -/
def iget (dev inum : Nat) : FsM Nat := do
  let s ← Exec.get
  match (List.range NINODE).find? fun ip =>
      0 < (s.inode ip).ref && (s.inode ip).dev == dev && (s.inode ip).inum == inum with
  | some ip => do
    modInode ip fun i => { i with ref := i.ref + 1 }
    return ip
  | none =>
    -- recycle an inode cache entry
    match (List.range NINODE).find? fun ip => (s.inode ip).ref == 0 with
    | some ip => do
      modInode ip fun i => { i with dev := dev, inum := inum, ref := 1, valid := false }
      return ip
    | none => Exec.stop .iget

/-- Increment reference count for `ip`. -/
def idup (ip : Nat) : FsM Nat := do
  modInode ip fun i => { i with ref := i.ref + 1 }
  return ip

/-- `acquiresleep(&ip->lock)` -/
def acquiresleep (ip : Nat) : FsM Unit := do
  let i ← inode ip
  if i.locked then Exec.stop .hang
  else modInode ip fun i => { i with locked := true }

/-- `releasesleep(&ip->lock)` -/
def releasesleep (ip : Nat) : FsM Unit := modInode ip fun i => { i with locked := false }

/-- Lock the given inode.  Reads the inode from disk if necessary. -/
def ilock (ip : Nat) : FsM Unit := do
  let i ← inode ip
  if i.ref < 1 then
    Exec.stop .ilock
  else do
    acquiresleep ip
    if i.valid then
      return ()
    else do
      let s ← Exec.get
      let bp ← bread (s.sb.IBLOCK i.inum)
      modInode ip fun i => { i with toDinode := Dinode.read bp (i.inum % IPB) }
      brelse (s.sb.IBLOCK i.inum)
      modInode ip fun i => { i with valid := true }
      if (Dinode.read bp (i.inum % IPB)).type = 0 then
        Exec.stop .noType
      else
        return ()

/-- Unlock the given inode. -/
def iunlock (ip : Nat) : FsM Unit := do
  let i ← inode ip
  if !i.locked || i.ref < 1 then
    Exec.stop .iunlock
  else
    releasesleep ip

/-! ## Inode content -/

/-- Set one of the block addresses of an inode. -/
def setAddr (ip : Nat) (j : Fin (NDIRECT + 1)) (addr : Nat) : FsM Unit :=
  modInode ip fun i => { i with addrs := update i.addrs j addr }

/-- `if((addr = ip->addrs[j]) == 0) ip->addrs[j] = addr = balloc(ip->dev);` -/
def addrAt (ip : Nat) (j : Fin (NDIRECT + 1)) : FsM Nat := do
  let i ← inode ip
  if i.addrs j = 0 then do
    let addr ← balloc
    setAddr ip j addr
    return addr
  else
    return i.addrs j

/-- The `k`-th entry of the indirect block, allocating if necessary. -/
def entryAt (ind k : Nat) : FsM Nat := do
  let a ← bread ind
  if a.word k = 0 then do
    let addr ← balloc
    store ind (a.setWord k addr)
    log_write ind
    brelse ind
    return addr
  else do
    brelse ind
    return a.word k

/-- The disk block address of the `bn`-th block in inode `ip`.  If there is no such block,
`bmap` allocates one. -/
def bmap (ip bn : Nat) : FsM Nat :=
  if h : bn < NDIRECT then
    addrAt ip ⟨bn, Nat.lt_succ_of_lt h⟩
  else if bn - NDIRECT < NINDIRECT then do
    -- load indirect block, allocating if necessary
    let ind ← addrAt ip (Fin.last NDIRECT)
    entryAt ind (bn - NDIRECT)
  else
    Exec.stop .bmap

/-- Truncate inode (discard contents). -/
def itrunc (ip : Nat) : FsM Unit := do
  Exec.upto NDIRECT fun k => do
    let i ← inode ip
    if i.addrs (Dinode.direct k) ≠ 0 then do
      bfree (i.addrs (Dinode.direct k))
      setAddr ip (Dinode.direct k) 0
  let i ← inode ip
  if i.addrs (Fin.last NDIRECT) ≠ 0 then do
    let a ← bread (i.addrs (Fin.last NDIRECT))
    Exec.upto NINDIRECT fun j => do
      if a.word j ≠ 0 then
        bfree (a.word j)
    brelse (i.addrs (Fin.last NDIRECT))
    bfree (i.addrs (Fin.last NDIRECT))
    setAddr ip (Fin.last NDIRECT) 0
  modInode ip fun i => { i with size := 0 }
  iupdate ip

/-- Drop a reference to an in-memory inode.  With the last one, an inode without links is
freed on disk. -/
def iput (ip : Nat) : FsM Unit := do
  acquiresleep ip
  let i ← inode ip
  if i.valid && i.nlink == 0 && i.ref == 1 then do
    itrunc ip
    modInode ip fun i => { i with type := 0 }
    iupdate ip
    modInode ip fun i => { i with valid := false }
  releasesleep ip
  modInode ip fun i => { i with ref := i.ref - 1 }

/-- Common idiom: unlock, then put. -/
def iunlockput (ip : Nat) : FsM Unit := do
  iunlock ip
  iput ip

/-- The loop of `readi`: `n` bytes from offset `off` on, in at most `k` rounds. -/
def readLoop (ip : Nat) : Nat → Nat → Nat → FsM (List UInt8)
  | 0, _, _ => pure []
  | k + 1, off, n =>
    if n = 0 then
      pure []
    else do
      let b ← bmap ip (off / BSIZE)
      let bp ← bread b
      let m := min n (BSIZE - off % BSIZE)
      brelse b
      let rest ← readLoop ip k (off + m) (n - m)
      return extract bp (off % BSIZE) m ++ rest

/-- Read data from inode: the bytes, or `none` for -1. -/
def readi (ip off n : Nat) : FsM (Option (List UInt8)) := do
  let i ← inode ip
  if i.type = T_DEV then do
    let s ← Exec.get
    if i.major < 0 || i.major ≥ Int16.ofNat NDEV then
      return none
    else
      match (s.devsw i.major.toNatClampNeg).read with
      | none => return none
      | some f => return f n
  else if off > i.size || (off + n) % 2 ^ 32 < off then
    return none
  else do
    let n := if (off + n) % 2 ^ 32 > i.size then i.size - off else n
    let bytes ← readLoop ip n off n
    return some bytes

/-- The loop of `writei`: `src` goes to offset `off` on, in at most `k` rounds.  Returns the
offset it has reached. -/
def writeLoop (ip : Nat) : Nat → Nat → List UInt8 → FsM Nat
  | 0, off, _ => pure off
  | k + 1, off, src =>
    if src = [] then
      pure off
    else do
      let b ← bmap ip (off / BSIZE)
      let bp ← bread b
      let m := min src.length (BSIZE - off % BSIZE)
      store b (fill bp (off % BSIZE) (src.take m))
      log_write b
      brelse b
      writeLoop ip k (off + m) (src.drop m)

/-- Write data to inode: the number of bytes written, or `none` for -1. -/
def writei (ip : Nat) (src : List UInt8) (off : Nat) : FsM (Option Nat) := do
  let i ← inode ip
  if i.type = T_DEV then do
    let s ← Exec.get
    if i.major < 0 || i.major ≥ Int16.ofNat NDEV then
      return none
    else
      match (s.devsw i.major.toNatClampNeg).write with
      | none => return none
      | some f => return f src
  else if off > i.size || (off + src.length) % 2 ^ 32 < off then
    return none
  else if (off + src.length) % 2 ^ 32 > MAXFILE * BSIZE then
    return none
  else do
    let off ← writeLoop ip src.length off src
    let i ← inode ip
    if src.length > 0 && off > i.size then do
      modInode ip fun i => { i with size := off }
      iupdate ip
    return some src.length

/-! ## Open files -/

/-- An entry of the file table. -/
def file (f : Nat) : FsM File := fun s => .ok (s.ftable f, s)

/-- Update an entry of the file table. -/
def modFile (f : Nat) (g : File → File) : FsM Unit :=
  Exec.modify fun s => { s with ftable := update s.ftable f (g (s.ftable f)) }

/-- Most bytes that `filewrite` writes in one transaction. -/
def maxWrite : Nat := (Log.MAXOPBLOCKS - 1 - 1 - 2) / 2 * 512

/-- One round of the loop in `filewrite`: one transaction that writes `src`. -/
def writeRound (f : Nat) (src : List UInt8) : FsM (Option Nat) := do
  let fl ← file f
  begin_op
  ilock fl.ip
  -- the offset is read and advanced with the inode locked
  let fl ← file f
  let r ← writei fl.ip src fl.off
  if r.getD 0 > 0 then
    modFile f fun fl => { fl with off := (fl.off + r.getD 0) % 2 ^ 32 }
  iunlock fl.ip
  end_op
  return r

/-- The loop of `filewrite`, for the bytes not yet written, in at most `k` rounds.  Tells
whether it has written all. -/
def filewriteLoop (f : Nat) : Nat → List UInt8 → FsM Bool
  | 0, src => pure src.isEmpty
  | k + 1, src =>
    if src = [] then
      pure true
    else do
      let r ← writeRound f (src.take maxWrite)
      match r with
      | none => pure false
      | some r =>
        if r ≠ (src.take maxWrite).length then
          Exec.stop .shortWrite
        else
          filewriteLoop f k (src.drop maxWrite)

/-- Write to file `f`: the number of bytes, or `none` for -1.  `pipewrite` is what writes to
a pipe. -/
def filewrite (pipewrite : FsM (Option Nat)) (f : Nat) (src : List UInt8) :
    FsM (Option Nat) := do
  let fl ← file f
  if fl.writable = false then
    return none
  else
    match fl.type with
    | .pipe => pipewrite
    | .inode => do
      let all ← filewriteLoop f src.length src
      return if all then some src.length else none
    | .none => Exec.stop .filewrite

end Fs
end Xv6
