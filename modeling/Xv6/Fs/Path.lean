import Xv6.Fs.Model

/-!
# Directories and paths (`fs.c`)

A directory is a file of entries, each with an inode number and a name of `DIRSIZ` bytes; an
entry with number 0 is free.  `dirlookup` searches one directory, and `namex` follows a path from
directory to directory, one element at a time.  Paths and names are strings, so they are lists
of bytes that end before the first NUL.
-/

namespace Xv6
namespace Fs

open Lib

/-! ## Directories -/

/-- `strncmp`, on strings that are NUL behind their end. -/
def strncmp : Nat → List UInt8 → List UInt8 → Int
  | 0, _, _ => 0
  | n + 1, p, q =>
    if p.headD 0 ≠ 0 ∧ p.headD 0 = q.headD 0 then
      strncmp n p.tail q.tail
    else
      (p.headD 0).toNat - (q.headD 0).toNat

def namecmp (s t : List UInt8) : Int := strncmp DIRSIZ s t

/-- `sizeof(struct dirent)` -/
def direntSize : Nat := 2 + DIRSIZ

/-- `de.inum` -/
def direntInum (de : List UInt8) : Nat := (de.headD 0).toNat + 256 * (de.tail.headD 0).toNat

/-- `de.name` -/
def direntName (de : List UInt8) : List UInt8 := de.drop 2

/-- Read the directory entry at an offset, or stop with `e`. -/
def readDirent (e : Stop) (dp off : Nat) : FsM (List UInt8) := do
  let r ← readi dp off direntSize
  match r with
  | some de => if de.length = direntSize then return de else Exec.stop e
  | none => Exec.stop e

/-- The loop of `dirlookup`, from offset `off` on, in at most `k` rounds. -/
def dirlookupFrom (dp : Nat) (name : List UInt8) : Nat → Nat → FsM (Option (Nat × Nat))
  | 0, _ => pure none
  | k + 1, off => do
    let d ← inode dp
    if off < d.size then do
      let de ← readDirent .dirlookup dp off
      if direntInum de ≠ 0 ∧ namecmp name (direntName de) = 0 then do
        let ip ← iget d.dev (direntInum de)
        return some (ip, off)
      else
        dirlookupFrom dp name k (off + direntSize)
    else
      return none

/-- Look for a directory entry in a directory.  If found, gives its inode and its offset. -/
def dirlookup (dp : Nat) (name : List UInt8) : FsM (Option (Nat × Nat)) := do
  let d ← inode dp
  if d.type ≠ T_DIR then
    Exec.stop .notDir
  else
    dirlookupFrom dp name (d.size / direntSize + 1) 0

/-- `strncpy(s, t, n)`: the string up to its end, filled up with NULs. -/
def strncpy : Nat → List UInt8 → List UInt8
  | 0, _ => []
  | n + 1, t =>
    if t.headD 0 = 0 then
      List.replicate (n + 1) 0
    else
      t.headD 0 :: strncpy n t.tail

/-- A directory entry; `de.inum` is a `ushort`. -/
def dirent (inum : Nat) (name : List UInt8) : List UInt8 :=
  [UInt8.ofNat inum, UInt8.ofNat (inum / 256)] ++ strncpy DIRSIZ name

/-- The loop of `dirlink` that looks for an empty entry, from offset `off` on, in at most `k`
rounds. -/
def emptyDirentFrom (dp : Nat) : Nat → Nat → FsM Nat
  | 0, off => pure off
  | k + 1, off => do
    let d ← inode dp
    if off < d.size then do
      let de ← readDirent .dirlinkRead dp off
      if direntInum de = 0 then
        return off
      else
        emptyDirentFrom dp k (off + direntSize)
    else
      return off

/-- Write a new directory entry (`name`, `inum`) into the directory `dp`; `false` is -1. -/
def dirlink (dp : Nat) (name : List UInt8) (inum : Nat) : FsM Bool := do
  -- check that name is not present
  let found ← dirlookup dp name
  match found with
  | some (ip, _) => do
    iput ip
    return false
  | none => do
    let d ← inode dp
    let off ← emptyDirentFrom dp (d.size / direntSize + 1) 0
    let r ← writei dp (dirent inum name) off
    if r = some direntSize then
      return true
    else
      Exec.stop .dirlink

/-- Overwrite the entry at `off` with zeros, as `sys_unlink` does. -/
def eraseDirent (dp off : Nat) : FsM Unit := do
  let r ← writei dp (List.replicate direntSize 0) off
  if r = some direntSize then
    return ()
  else
    Exec.stop .unlink

/-! ## Paths -/

/-- The byte `/`. -/
def slash : UInt8 := 47

/-- Copy the next path element into `name`: the name, and the path behind the element. -/
def skipelem (path : List UInt8) : Option (List UInt8 × List UInt8) :=
  let path := path.dropWhile (· = slash)
  if path = [] then
    none
  else
    some ((path.takeWhile (· ≠ slash)).take DIRSIZ,
      (path.dropWhile (· ≠ slash)).dropWhile (· = slash))

/-- An element takes at least one byte of the path. -/
theorem skipelem_length {path name rest : List UInt8}
    (hskip : skipelem path = some (name, rest)) : rest.length < path.length := by
  unfold skipelem at hskip
  dsimp only at hskip
  split at hskip
  · cases hskip
  · rename_i hne
    cases hskip
    have hslash := (List.dropWhile_sublist (l := path) (· = slash)).length_le
    have hhead := List.head?_dropWhile_not (fun c => decide (c = slash)) path
    cases hpath : path.dropWhile (· = slash) with
    | nil => exact absurd hpath hne
    | cons c cs =>
      rw [hpath] at hhead hslash
      have hc : c ≠ slash := of_decide_eq_false hhead
      have hrest := (List.dropWhile_sublist (l := cs) (· ≠ slash)).length_le
      have hrest' := (List.dropWhile_sublist (l := cs.dropWhile (· ≠ slash)) (· = slash)).length_le
      rw [List.dropWhile_cons, if_pos (decide_eq_true hc)]
      rw [List.length_cons] at hslash
      omega

/-- The loop of `namex`, at inode `ip` with `path` before it, in at most `k` rounds. -/
def namexFrom (nameiparent : Bool) : Nat → Nat → List UInt8 → List UInt8 →
    FsM (Option (Nat × List UInt8))
  | 0, _, _, _ => pure none
  | k + 1, ip, path, name =>
    match skipelem path with
    | none =>
      if nameiparent then do
        iput ip
        return none
      else
        return some (ip, name)
    | some (name, path) => do
      ilock ip
      let i ← inode ip
      if i.type ≠ T_DIR then do
        iunlockput ip
        return none
      else if nameiparent && path.isEmpty then do
        -- stop one level early
        iunlock ip
        return some (ip, name)
      else do
        let found ← dirlookup ip name
        match found with
        | none => do
          iunlockput ip
          return none
        | some (next, _) => do
          iunlockput ip
          namexFrom nameiparent k next path name

/-- Look up and return the inode for a path name, or that of its parent with the final path
element. -/
def namex (path : List UInt8) (nameiparent : Bool) : FsM (Option (Nat × List UInt8)) := do
  let s ← Exec.get
  let ip ← if path.head? = some slash then iget ROOTDEV ROOTINO else idup s.cwd
  namexFrom nameiparent (path.length + 1) ip path []

def namei (path : List UInt8) : FsM (Option Nat) := do
  let r ← namex path false
  return r.map Prod.fst

def nameiparent (path : List UInt8) : FsM (Option (Nat × List UInt8)) := namex path true

end Fs
end Xv6
