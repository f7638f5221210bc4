import Xv6.Fs.Dir
import Xv6.Fs.Skipelem

/-!
# Following a path (`fs.c`)

`namex` goes from directory to directory and holds a reference to one inode at a time.  On a file
system that nobody else changes, what it finds depends on the disk alone: `enter` is one step, and
`namei` follows the elements of the path by these steps, from left to right.

* `Consistent` says what the file system is like when the call begins.
* `Walk` says what it is like at any moment of the call: the references that the call has taken,
  the locks that it holds, and nothing else that has changed.  Each function that `namex` calls
  keeps it.
* `namei_spec` and `nameiparent_spec` say what the calls return.
-/

namespace Xv6
namespace Fs

open Lib Lib.Exec Function

/-! ## What is on disk -/

/-- The `j`-th entry of a directory. -/
def direntOnDisk (sb : Superblock) (disk : Nat → Block) (dir j : Nat) : List UInt8 :=
  direntAt ((dinodeAt sb disk dir).byteAt disk) j

/-- The inode number in the first entry with this name. -/
def lookup (sb : Superblock) (disk : Nat → Block) (dir : Nat) (name : List UInt8) : Option Nat :=
  ((List.range ((dinodeAt sb disk dir).size / direntSize)).find? fun j =>
    Matches name (direntOnDisk sb disk dir j)).map fun j => direntInum (direntOnDisk sb disk dir j)

/-- From an inode to what it has under a name, if it is a directory. -/
def enter (sb : Superblock) (disk : Nat → Block) (dir : Nat) (name : List UInt8) : Option Nat :=
  if (dinodeAt sb disk dir).type = T_DIR then lookup sb disk dir name else none

/-- The elements of a path as `skipelem` gives them. -/
def names (path : List UInt8) : List (List UInt8) := (components path).map (·.take DIRSIZ)

/-- A directory whose blocks are there, made of whole entries. -/
structure DirOnDisk (sb : Superblock) (disk : Nat → Block) (dir : Nat) : Prop where
  blocks : ∃ nb, nb ≤ MAXFILE ∧ (dinodeAt sb disk dir).size ≤ nb * BSIZE ∧
    ∀ k, k < nb → (dinodeAt sb disk dir).entry disk k ≠ 0
  whole : direntSize ∣ (dinodeAt sb disk dir).size

/-- The file system between two calls, with the inode numbers that are in use. -/
structure Consistent (used : Nat → Prop) (s : State) : Prop where
  quiet : ∀ b, s.busy b = false
  unlocked : ∀ ip, (s.inode ip).locked = false
  ref : ∀ ip, 0 ≤ (s.inode ip).ref
  cached : ∀ ip, 0 < (s.inode ip).ref → (s.inode ip).valid = true →
    (s.inode ip).toDinode = dinodeAt s.sb s.disk (s.inode ip).inum
  root : used ROOTINO
  cwd : s.cwd < NINODE ∧ 0 < (s.inode s.cwd).ref ∧ (s.inode s.cwd).dev = ROOTDEV ∧
    used (s.inode s.cwd).inum
  typed : ∀ i, used i → (dinodeAt s.sb s.disk i).type ≠ 0
  dirs : ∀ i, used i → (dinodeAt s.sb s.disk i).type = T_DIR → DirOnDisk s.sb s.disk i
  named : ∀ i name j, used i → (dinodeAt s.sb s.disk i).type = T_DIR →
    lookup s.sb s.disk i name = some j → used j
  /-- An inode without a name is still held by someone. -/
  linked : ∀ i, used i → (dinodeAt s.sb s.disk i).nlink = 0 →
    ∃ ip, ip < NINODE ∧ Cached s ROOTDEV i ip

/-- There is room in the cache for the two inodes that a step needs. -/
def Room (s : State) : Prop :=
  ∃ a b, a < NINODE ∧ b < NINODE ∧ a ≠ b ∧ (s.inode a).ref = 0 ∧ (s.inode b).ref = 0

/-- The kernel stops for want of a slot in the cache. -/
def NoSlot {α : Type} (s : State) (run : Except Stop (α × State)) : Prop :=
  run = .error .iget ∧ ¬Room s

/-- A slot of the cache to which the call has taken `n` references, and which it has locked if
`b`. -/
structure Slot (s : State) (ip n : Nat) (b : Bool) (x : Inode) : Prop where
  ref : x.ref = (s.inode ip).ref + n
  locked : x.locked = b
  kept : 0 < (s.inode ip).ref → x.dev = (s.inode ip).dev ∧ x.inum = (s.inode ip).inum
  cached : 0 < x.ref → x.valid = true → x.toDinode = dinodeAt s.sb s.disk x.inum
  dev : 0 < n → x.dev = ROOTDEV
  linked : 0 < n → (dinodeAt s.sb s.disk x.inum).nlink = 0 → 0 < (s.inode ip).ref

/-- A moment of the call that began in `s`. -/
structure Walk (s : State) (extra : Nat → Nat) (lk : Nat → Bool) (t : State) : Prop where
  disk : t.disk = s.disk
  sb : t.sb = s.sb
  busy : t.busy = s.busy
  slot : ∀ j, Slot s j (extra j) (lk j) (t.inode j)

/-- No references, or no locks. -/
def noRefs : Nat → Nat := fun _ => 0

def noLocks : Nat → Bool := fun _ => false

/-- The call holds inode `i`, in slot `ip` of the cache, and nothing else. -/
structure Holds (s : State) (ip i : Nat) (t : State) : Prop extends
    Walk s (update noRefs ip 1) noLocks t where
  bound : ip < NINODE
  inum : (t.inode ip).inum = i

section walk

variable {s t u : State} {extra : Nat → Nat} {lk : Nat → Bool} {used : Nat → Prop} {ip i j k : Nat}
  {name path rest elem : List UInt8} {par : Bool}

theorem Consistent.walk (h : Consistent used s) : Walk s noRefs noLocks s where
  disk := rfl
  sb := rfl
  busy := rfl
  slot j := ⟨(Int.add_zero _).symm, h.unlocked j, fun _ => ⟨rfl, rfl⟩, h.cached j,
    fun hj => absurd hj (Nat.lt_irrefl 0), fun hj => absurd hj (Nat.lt_irrefl 0)⟩

variable {x : Inode}

/-- One slot of the cache changes. -/
theorem Walk.setInode (h : Walk s extra lk t) {n : Nat} {b : Bool} (hx : Slot s ip n b x) :
    Walk s (update extra ip n) (update lk ip b) (t.setInode ip x) := by
  refine ⟨h.disk, h.sb, h.busy, ?_⟩
  intro j
  by_cases hj : j = ip
  · subst hj
    simpa only [State.inode_setInode, update_self] using hx
  · simpa only [State.inode_setInode_of_ne t x hj, update_of_ne hj] using h.slot j

/-- The references of a slot change, and its locks do not. -/
theorem Walk.setRef (h : Walk s extra lk t) {n : Nat} (hx : Slot s ip n (lk ip) x) :
    Walk s (update extra ip n) lk (t.setInode ip x) := by
  simpa only [update_eq_self] using h.setInode hx

/-- The lock of a slot changes, and its references do not. -/
theorem Walk.setLock (h : Walk s extra lk t) {b : Bool} (hx : Slot s ip (extra ip) b x) :
    Walk s extra (update lk ip b) (t.setInode ip x) := by
  simpa only [update_eq_self] using h.setInode hx

theorem inum_setInode (h : x.inum = (t.inode ip).inum) (j : Nat) :
    ((t.setInode ip x).inode j).inum = (t.inode j).inum := by
  by_cases hj : j = ip
  · rw [hj, State.inode_setInode, h]
  · rw [State.inode_setInode_of_ne _ _ hj]

/-- A slot that the call holds has a reference. -/
theorem Walk.ref_pos (h : Walk s extra lk t) (hs : Consistent used s) (hip : 0 < extra ip) :
    1 ≤ (t.inode ip).ref := by
  have := (h.slot ip).ref
  have := hs.ref ip
  omega

/-- `iget` of an inode in use. -/
theorem Walk.iget (h : Walk s extra lk t) (hs : Consistent used s) (hi : used i) :
    (iget ROOTDEV i t = .error .iget ∧ ∀ j, j < NINODE → (t.inode j).ref ≠ 0) ∨
    ∃ ip u, iget ROOTDEV i t = .ok (ip, u) ∧ ip < NINODE ∧ (u.inode ip).inum = i ∧
      Walk s (update extra ip (extra ip + 1)) lk u := by
  have hspec := @iget_spec t ROOTDEV i
  cases hrun : Fs.iget ROOTDEV i t with
  | error e =>
    rw [hrun] at hspec
    obtain ⟨rfl, hnone⟩ := hspec
    exact .inl ⟨rfl, fun j hj hzero => hnone ⟨j, hj, .inr hzero⟩⟩
  | ok r =>
    obtain ⟨ip, u⟩ := r
    rw [hrun] at hspec
    obtain ⟨hip, hgot⟩ := hspec
    have hslot := h.slot ip
    have href := hslot.ref
    have hnonneg := hs.ref ip
    refine .inr ⟨ip, u, rfl, hip, ?_⟩
    cases hgot with
    | cached hc =>
      refine ⟨by rw [State.inode_setInode]; exact hc.2.2, h.setRef ?_⟩
      refine { hslot with ref := ?_, cached := ?_, dev := fun _ => hc.2.1, linked := ?_ }
      · show (t.inode ip).ref + 1 = _
        push_cast
        omega
      · exact fun _ => hslot.cached hc.1
      · intro _ hnlink
        -- the call holds it already, or it was held before
        by_cases hextra : 0 < extra ip
        · exact hslot.linked hextra hnlink
        · have := hc.1
          omega
    | fresh hnot hzero =>
      refine ⟨by rw [State.inode_setInode]; rfl, h.setRef ?_⟩
      refine ⟨?_, hslot.locked, fun hpos => ?_, fun _ => nofun, fun _ => rfl, ?_⟩
      · show (1 : Int) = _
        push_cast
        omega
      · omega
      · intro _ hnlink
        obtain ⟨j, hj, hpos, hdev, hinum⟩ := hs.linked i hi hnlink
        obtain ⟨hkdev, hkinum⟩ := (h.slot j).kept hpos
        refine absurd ⟨?_, hkdev.trans hdev, hkinum.trans hinum⟩ (hnot j hj)
        have := (h.slot j).ref
        omega

/-- `ilock` of an inode in use that the call holds. -/
theorem Walk.ilock (h : Walk s extra lk t) (hs : Consistent used s) (hip : 0 < extra ip)
    (hlk : lk ip = false) (hused : used (t.inode ip).inum) :
    ∃ u, ilock ip t = .ok ((), u) ∧ Walk s extra (update lk ip true) u ∧
      (u.inode ip).inum = (t.inode ip).inum ∧
      (u.inode ip).toDinode = dinodeAt s.sb s.disk (t.inode ip).inum := by
  have hslot := h.slot ip
  have href := h.ref_pos hs hip
  have hlocked : (t.inode ip).locked = false := hslot.locked.trans hlk
  cases hvalid : (t.inode ip).valid with
  | true =>
    refine ⟨_, ilock_valid href hlocked hvalid, h.setLock { hslot with locked := rfl }, ?_, ?_⟩
    · rw [State.inode_setInode]
    · rw [State.inode_setInode]
      exact hslot.cached (by omega) hvalid
  | false =>
    have hdin : dinodeAt t.sb t.disk (t.inode ip).inum = dinodeAt s.sb s.disk (t.inode ip).inum := by
      rw [h.sb, h.disk]
    refine ⟨_, ilock_eq href hlocked hvalid ?_ ?_,
      h.setLock { hslot with locked := rfl, cached := fun _ _ => hdin }, ?_, ?_⟩
    · rw [h.busy]
      exact hs.quiet _
    · rw [hdin]
      exact hs.typed _ hused
    · rw [State.inode_setInode]
      rfl
    · rw [State.inode_setInode]
      exact hdin

/-- `iunlock` of an inode that the call holds and has locked. -/
theorem Walk.iunlock (h : Walk s extra lk t) (hs : Consistent used s) (hip : 0 < extra ip)
    (hlk : lk ip = true) :
    ∃ u, iunlock ip t = .ok ((), u) ∧ Walk s extra (update lk ip false) u ∧
      ∀ j, (u.inode j).inum = (t.inode j).inum :=
  ⟨_, iunlock_eq (h.ref_pos hs hip) ((h.slot ip).locked.trans hlk),
    h.setLock { h.slot ip with locked := rfl }, inum_setInode rfl⟩

/-- `iput` of an inode that the call holds: it is never the last reference to an inode without
links. -/
theorem Walk.iput (h : Walk s extra lk t) (hs : Consistent used s) (hip : 0 < extra ip)
    (hlk : lk ip = false) :
    ∃ u, iput ip t = .ok ((), u) ∧ Walk s (update extra ip (extra ip - 1)) lk u ∧
      ∀ j, (u.inode j).inum = (t.inode j).inum := by
  have hslot := h.slot ip
  have href := hslot.ref
  have hnonneg := hs.ref ip
  have hkeep : ((t.inode ip).valid && (t.inode ip).nlink == 0 && (t.inode ip).ref == 1) = false := by
    rw [Bool.eq_false_iff]
    intro hlast
    simp only [Bool.and_eq_true, beq_iff_eq] at hlast
    obtain ⟨⟨hvalid, hnlink⟩, hone⟩ := hlast
    rw [hslot.cached (by omega) hvalid] at hnlink
    have := hslot.linked hip hnlink
    omega
  refine ⟨_, iput_eq (hslot.locked.trans hlk) hkeep, h.setRef ?_, inum_setInode rfl⟩
  refine { hslot with ref := ?_, cached := ?_, dev := fun _ => hslot.dev hip
                      linked := fun _ => hslot.linked hip }
  · show (t.inode ip).ref - 1 = _
    omega
  · intro _ hvalid
    exact hslot.cached (by omega) hvalid

/-- `iunlockput` of an inode that the call holds and has locked. -/
theorem Walk.iunlockput (h : Walk s extra (update noLocks ip true) t)
    (hs : Consistent used s) (hip : 0 < extra ip) :
    ∃ u, iunlockput ip t = .ok ((), u) ∧ Walk s (update extra ip (extra ip - 1)) noLocks u ∧
      ∀ j, (u.inode j).inum = (t.inode j).inum := by
  obtain ⟨t1, hunlock, h1, hinum1⟩ := h.iunlock hs hip (update_self ..)
  rw [update_idem, show update noLocks ip false = noLocks from
    update_eq_self ip noLocks] at h1
  obtain ⟨t2, hput, h2, hinum2⟩ := h1.iput hs hip rfl
  refine ⟨t2, ?_, h2, fun j => (hinum2 j).trans (hinum1 j)⟩
  rw [Fs.iunlockput, bind_of_ok hunlock, hput]

/-! ## One directory -/

variable {dir : Nat}

theorem lookup_eq_some_iff :
    lookup s.sb s.disk dir name = some i ↔ ∃ j, j < (dinodeAt s.sb s.disk dir).size / direntSize ∧
        Matches name (direntOnDisk s.sb s.disk dir j) ∧
        (∀ m, m < j → ¬Matches name (direntOnDisk s.sb s.disk dir m)) ∧
        direntInum (direntOnDisk s.sb s.disk dir j) = i := by
  simp only [lookup, Option.map_eq_some_iff, List.find?_range_eq_some, List.mem_range,
    decide_eq_true_eq, Bool.not_eq_true', decide_eq_false_iff_not]
  constructor
  · rintro ⟨j, ⟨hmatch, hlt, hbefore⟩, hinum⟩
    exact ⟨j, hlt, hmatch, hbefore, hinum⟩
  · rintro ⟨j, hlt, hmatch, hbefore, hinum⟩
    exact ⟨j, ⟨hmatch, hlt, hbefore⟩, hinum⟩

theorem lookup_eq_none_iff :
    lookup s.sb s.disk dir name = none ↔ ∀ j, j < (dinodeAt s.sb s.disk dir).size / direntSize →
        ¬Matches name (direntOnDisk s.sb s.disk dir j) := by
  simp only [lookup, Option.map_eq_none_iff, List.find?_range_eq_none, Bool.not_eq_true',
    decide_eq_false_iff_not]

theorem DirOnDisk.onDisk {sb : Superblock} {disk : Nat → Block} (h : DirOnDisk sb disk dir) :
    ∃ nb, OnDisk sb disk dir nb ((dinodeAt sb disk dir).byteAt disk) ∧
      (dinodeAt sb disk dir).size ≤ nb * BSIZE ∧ (dinodeAt sb disk dir).size < 2 ^ 32 := by
  obtain ⟨nb, hmax, hsize, hblocks⟩ := h.blocks
  refine ⟨nb, ⟨hmax, hblocks, ?_⟩, hsize, ?_⟩
  · intro k r _ hr
    have hpos : 0 < BSIZE := Nat.lt_of_le_of_lt (Nat.zero_le r) hr
    rw [Dinode.byteAt, Nat.mul_comm, Nat.mul_add_div hpos, Nat.div_eq_of_lt hr, Nat.mul_add_mod,
      Nat.mod_eq_of_lt hr, Nat.add_zero]
  · have hle : nb * BSIZE ≤ MAXFILE * BSIZE := Nat.mul_le_mul_right _ hmax
    have hlt : MAXFILE * BSIZE < 2 ^ 32 := by decide
    omega

/-- `dirlookup` in a directory that the call holds and has read finds what is on disk. -/
theorem Walk.dirlookup (h : Walk s extra lk t) (hs : Consistent used s) (hip : 0 < extra ip)
    (hdir : used dir) (hdin : (t.inode ip).toDinode = dinodeAt s.sb s.disk dir)
    (htype : (dinodeAt s.sb s.disk dir).type = T_DIR) (name : List UInt8) :
    match lookup s.sb s.disk dir name with
    | none => dirlookup ip name t = .ok (none, t)
    | some i => (dirlookup ip name t = .error .iget ∧ ∀ j, j < NINODE → (t.inode j).ref ≠ 0) ∨
        ∃ next off u, dirlookup ip name t = .ok (some (next, off), u) ∧ next < NINODE ∧
          (u.inode next).inum = i ∧ Walk s (update extra next (extra next + 1)) lk u := by
  have hond := hs.dirs dir hdir htype
  obtain ⟨n, hn⟩ := hond.whole
  obtain ⟨nb, hon, hnb, hsmall⟩ := hond.onDisk
  have hshows : Shows t ip nb ((dinodeAt s.sb s.disk dir).byteAt s.disk) := by
    have hon' : OnDisk t.sb t.disk dir nb ((dinodeAt s.sb s.disk dir).byteAt s.disk) := by
      rw [h.sb, h.disk]
      exact hon
    apply hon'.shows
    · rw [hdin, h.sb, h.disk]
    · intro b
      rw [h.busy]
      exact hs.quiet b
  have hcount : (dinodeAt s.sb s.disk dir).size / direntSize = n := by
    rw [hn, Nat.mul_div_cancel_left _ (by decide)]
  rw [← hdin] at hn hnb hsmall htype
  cases hlook : lookup s.sb s.disk dir name with
  | none =>
    rw [lookup_eq_none_iff, hcount] at hlook
    exact hshows.dirlookup_absent htype hsmall hn hnb hlook
  | some i =>
    have hi : used i := hs.named dir name i hdir (hdin ▸ htype) hlook
    rw [lookup_eq_some_iff, hcount] at hlook
    obtain ⟨j, hj, hmatch, hbefore, hinum⟩ := hlook
    have hle : direntSize * (j + 1) ≤ direntSize * n := Nat.mul_le_mul_left _ hj
    have hrun : Fs.dirlookup ip name t = (do
        let ip ← Fs.iget ROOTDEV i
        return some (ip, direntSize * j) : FsM (Option (Nat × Nat))) t := by
      rw [hshows.dirlookup_eq htype hsmall (by omega) (by omega) hbefore hmatch,
        (h.slot ip).dev hip, ← hinum]
      rfl
    rw [hrun]
    rcases h.iget hs hi with ⟨hget, hfull⟩ | ⟨next, u, hget, hnext, hnum, h'⟩
    · exact .inl ⟨bind_of_error hget, hfull⟩
    · exact .inr ⟨next, direntSize * j, u, bind_of_ok hget, hnext, hnum, h'⟩

/-! ## One element of the path -/

/-- What a call gives: nothing, and it has let go of everything; or an inode, which it holds, and a
name. -/
def GivesParent (s : State) (run : Except Stop (Option (Nat × List UInt8) × State))
    (expected : Option (Nat × List UInt8)) : Prop :=
  NoSlot s run ∨ match expected with
    | none => ∃ u, run = .ok (none, u) ∧ Walk s noRefs noLocks u
    | some (i, name) => ∃ ip u, run = .ok (some (ip, name), u) ∧ Holds s ip i u

theorem update_noRefs (ip : Nat) : update (update noRefs ip 1) ip 0 = noRefs := by
  rw [update_idem]
  exact update_eq_self ip noRefs

/-- Where there was room for two inodes, there is room for one more. -/
theorem Walk.room (h : Walk s (update noRefs ip 1) lk t) (hroom : Room s) :
    ∃ j, j < NINODE ∧ (t.inode j).ref = 0 := by
  have hfree : ∀ j, (s.inode j).ref = 0 → j ≠ ip → (t.inode j).ref = 0 := by
    intro j hj hne
    have href := (h.slot j).ref
    rw [update_of_ne hne, hj] at href
    exact href
  obtain ⟨a, b, ha, hb, hab, hra, hrb⟩ := hroom
  by_cases hne : a = ip
  · exact ⟨b, hb, hfree b hrb fun h => hab (hne.trans h.symm)⟩
  · exact ⟨a, ha, hfree a hra hne⟩

/-- The body of the loop, once the inode is locked. -/
def namexBody (par : Bool) (k ip : Nat) (elem rest : List UInt8) : FsM (Option (Nat × List UInt8)) := do
  let i ← inode ip
  if i.type ≠ T_DIR then do
    iunlockput ip
    return none
  else if par && rest.isEmpty then do
    iunlock ip
    return some (ip, elem)
  else do
    let found ← dirlookup ip elem
    match found with
    | none => do
      iunlockput ip
      return none
    | some (next, _) => do
      iunlockput ip
      namexFrom par k next rest elem

/-- The locked inode is let go when the loop fails. -/
theorem Walk.fails (h : Walk s (update noRefs ip 1) (update noLocks ip true) t)
    (hs : Consistent used s) :
    GivesParent s ((do Fs.iunlockput ip; return none : FsM (Option (Nat × List UInt8))) t) none := by
  obtain ⟨u, hput, hu, -⟩ := h.iunlockput hs (by rw [update_self]; exact Nat.one_pos)
  rw [update_self, Nat.sub_self, update_noRefs] at hu
  exact .inr ⟨u, by rw [bind_of_ok hput]; rfl, hu⟩

/-- One round of the loop: the inode is a directory or the loop fails; `nameiparent` stops before
the last element; else the loop goes on where the directory leads, or fails. -/
theorem Holds.round (h : Holds s ip dir t) (par : Bool) (hs : Consistent used s)
    (hdir : used dir) (hskip : skipelem path = some (elem, rest)) (k : Nat) (name : List UInt8) :
    ((dinodeAt s.sb s.disk dir).type ≠ T_DIR →
      GivesParent s (namexFrom par (k + 1) ip path name t) none) ∧
    ((dinodeAt s.sb s.disk dir).type = T_DIR → (par && rest.isEmpty) = true →
      GivesParent s (namexFrom par (k + 1) ip path name t) (some (dir, elem))) ∧
    ((par && rest.isEmpty) = false →
      (enter s.sb s.disk dir elem = none → GivesParent s (namexFrom par (k + 1) ip path name t) none) ∧
      ∀ i, enter s.sb s.disk dir elem = some i →
        used i ∧ (NoSlot s (namexFrom par (k + 1) ip path name t) ∨
          ∃ next u, namexFrom par (k + 1) ip path name t = namexFrom par k next rest elem u ∧
            Holds s next i u)) := by
  have hpos : 0 < update noRefs ip 1 ip := by
    rw [update_self]
    exact Nat.one_pos
  obtain ⟨u, hlock, hu, hinum, hdin⟩ := h.toWalk.ilock hs hpos rfl (by rw [h.inum]; exact hdir)
  rw [h.inum] at hdin hinum
  have hbody : namexFrom par (k + 1) ip path name t = namexBody par k ip elem rest u := by
    rw [namexFrom, hskip]
    exact bind_of_ok hlock
  have htype : (u.inode ip).type = (dinodeAt s.sb s.disk dir).type := by rw [hdin]
  rw [hbody, namexBody, bind_of_ok (show inode ip u = .ok (u.inode ip, u) from rfl), htype]
  -- what is not a directory leads nowhere
  by_cases hT : (dinodeAt s.sb s.disk dir).type = T_DIR
  · rw [if_neg (fun hne => hne hT)]
    refine ⟨fun hne => absurd hT hne, fun _ hstop => ?_, fun hgo => ?_⟩
    · obtain ⟨v, hunlock, hv, hnum⟩ := hu.iunlock hs hpos (update_self ..)
      rw [update_idem, show update noLocks ip false = noLocks from
        update_eq_self ip noLocks] at hv
      rw [if_pos hstop, bind_of_ok hunlock]
      exact .inr ⟨ip, v, rfl, hv, h.bound, (hnum ip).trans hinum⟩
    · rw [hgo, if_neg Bool.false_ne_true]
      have hfind := hu.dirlookup hs hpos hdir hdin hT elem
      have henter : enter s.sb s.disk dir elem = lookup s.sb s.disk dir elem := if_pos hT
      rw [henter]
      cases hlook : lookup s.sb s.disk dir elem with
      | none =>
        rw [hlook] at hfind
        rw [bind_of_ok hfind]
        exact ⟨fun _ => hu.fails hs, nofun⟩
      | some i =>
        rw [hlook] at hfind
        refine ⟨nofun, ?_⟩
        rintro _ ⟨⟩
        refine ⟨hs.named dir elem i hdir hT hlook, ?_⟩
        rcases hfind with ⟨hrun, hfull⟩ | ⟨next, off, v, hrun, hnext, hnum, hv⟩
        · refine .inl ⟨bind_of_error hrun, fun hroom => ?_⟩
          obtain ⟨j, hj, hzero⟩ := hu.room hroom
          exact hfull j hj hzero
        have hextra : 0 < update (update noRefs ip 1) next
            (update noRefs ip 1 next + 1) ip := by
          by_cases hip : ip = next
          · rw [hip, update_self]
            exact Nat.succ_pos _
          · rw [update_of_ne hip]
            exact hpos
        obtain ⟨w, hput, hw, hnum'⟩ := hv.iunlockput hs hextra
        refine .inr ⟨next, w, ?_, ?_, hnext, (hnum' next).trans hnum⟩
        · rw [bind_of_ok hrun]
          exact bind_of_ok hput
        · -- one more reference to `next`, one less to `ip`
          have hrefs : ∀ j, update (update (update noRefs ip 1) next
              (update noRefs ip 1 next + 1)) ip (update (update noRefs ip 1)
              next (update noRefs ip 1 next + 1) ip - 1) j = update noRefs next 1 j := by
            intro j
            simp only [update_apply, noRefs]
            split_ifs <;> omega
          rwa [funext hrefs] at hw
  · rw [if_pos hT]
    refine ⟨fun _ => hu.fails hs, fun h => absurd h hT, fun _ => ⟨fun _ => hu.fails hs, ?_⟩⟩
    intro i hi
    rw [enter, if_neg hT] at hi
    cases hi

/-! ## The whole path -/

theorem length_components_le (path : List UInt8) : (components path).length ≤ path.length := by
  induction hn : path.length using Nat.strong_induction_on generalizing path with
  | _ n ih =>
    cases hskip : skipelem path with
    | none =>
      rw [skipelem_eq_none_iff.mp hskip]
      exact Nat.zero_le _
    | some r =>
      obtain ⟨elem, rest⟩ := r
      have hlt := skipelem_length hskip
      obtain ⟨c, hc, -⟩ := skipelem_some hskip
      have hrest := ih rest.length (hn ▸ hlt) rest rfl
      rw [hc, List.length_cons]
      omega

theorem names_of_none (h : skipelem path = none) : names path = [] := by
  rw [names, skipelem_eq_none_iff.mp h, List.map_nil]

/-- `skipelem` takes the first name off the path, and leaves an empty path if it was the last. -/
theorem names_of_some (h : skipelem path = some (elem, rest)) :
    names path = elem :: names rest ∧ (rest = [] ↔ names rest = []) := by
  obtain ⟨c, hc, helem, hhead⟩ := skipelem_some h
  refine ⟨?_, ?_⟩
  · rw [names, hc, helem, List.map_cons]
    rfl
  · rw [names, List.map_eq_nil_iff, components_eq_nil_iff hhead]

/-- Where the elements of a path lead to. -/
def follow (s : State) (dir : Nat) (elems : List (List UInt8)) : Option Nat :=
  elems.foldlM (enter s.sb s.disk) dir

/-- The directory that all but the last element lead to, with the last. -/
def parent (s : State) (dir : Nat) (elems : List (List UInt8)) : Option (Nat × List UInt8) := do
  let last ← elems.getLast?
  let i ← follow s dir elems.dropLast
  if (dinodeAt s.sb s.disk i).type = T_DIR then some (i, last) else none

theorem follow_cons (dir : Nat) (elem : List UInt8) (elems : List (List UInt8)) :
    follow s dir (elem :: elems) = (enter s.sb s.disk dir elem).bind fun i => follow s i elems := by
  rw [follow, List.foldlM_cons]
  rfl

theorem parent_single (dir : Nat) (elem : List UInt8) :
    parent s dir [elem] = if (dinodeAt s.sb s.disk dir).type = T_DIR then some (dir, elem) else none :=
  rfl

theorem parent_cons {elems : List (List UInt8)} (dir : Nat) (elem : List UInt8) (hne : elems ≠ []) :
    parent s dir (elem :: elems) = (enter s.sb s.disk dir elem).bind fun i => parent s i elems := by
  obtain ⟨b, bs, rfl⟩ := List.exists_cons_of_ne_nil hne
  rw [parent, List.dropLast_cons_of_ne_nil hne, follow_cons, List.getLast?_cons_cons]
  cases henter : enter s.sb s.disk dir elem with
  | none => cases (b :: bs).getLast? <;> rfl
  | some i => rfl

theorem namexFrom_namei (hs : Consistent used s) (hdir : used dir) (h : Holds s ip dir t)
    (hk : path.length < k) :
    GivesParent s (namexFrom false k ip path name t)
      ((follow s dir (names path)).map fun i => (i, (names path).getLast?.getD name)) := by
  induction k generalizing ip dir path name t with
  | zero => omega
  | succ k ih =>
    cases hskip : skipelem path with
    | none =>
      rw [names_of_none hskip, namexFrom, hskip]
      exact .inr ⟨ip, t, rfl, h⟩
    | some r =>
      obtain ⟨elem, rest⟩ := r
      have hlt := skipelem_length hskip
      obtain ⟨-, -, hgo⟩ := h.round false hs hdir hskip k name
      obtain ⟨hmiss, hnext⟩ := hgo rfl
      rw [(names_of_some hskip).1, follow_cons, List.getLast?_cons]
      cases henter : enter s.sb s.disk dir elem with
      | none => exact hmiss henter
      | some i =>
        obtain ⟨hi, hstop | ⟨next, u, hrun, hu⟩⟩ := hnext i henter
        · exact .inl hstop
        · rw [hrun]
          exact ih hi hu (by omega)

theorem namexFrom_parent (hs : Consistent used s) (hdir : used dir) (h : Holds s ip dir t)
    (hk : path.length < k) :
    GivesParent s (namexFrom true k ip path name t) (parent s dir (names path)) := by
  induction k generalizing ip dir path name t with
  | zero => omega
  | succ k ih =>
    cases hskip : skipelem path with
    | none =>
      have hpos : 0 < update noRefs ip 1 ip := by
        rw [update_self]
        exact Nat.one_pos
      obtain ⟨u, hput, hu, -⟩ := h.toWalk.iput hs hpos rfl
      rw [update_self, Nat.sub_self, update_noRefs] at hu
      rw [names_of_none hskip, namexFrom, hskip]
      refine .inr ⟨u, ?_, hu⟩
      show (iput ip >>= _) t = _
      rw [bind_of_ok hput]
      rfl
    | some r =>
      obtain ⟨elem, rest⟩ := r
      have hlt := skipelem_length hskip
      obtain ⟨hnames, hlast⟩ := names_of_some hskip
      obtain ⟨hfile, hstop, hgo⟩ := h.round true hs hdir hskip k name
      rw [hnames]
      by_cases hrest : rest = []
      · -- the last element
        rw [hlast.mp hrest, parent_single]
        by_cases hT : (dinodeAt s.sb s.disk dir).type = T_DIR
        · rw [if_pos hT]
          exact hstop hT (by rw [hrest]; rfl)
        · rw [if_neg hT]
          exact hfile hT
      · rw [parent_cons dir elem (fun hnil => hrest (hlast.mpr hnil))]
        obtain ⟨hmiss, hnext⟩ := hgo (by simpa using hrest)
        cases henter : enter s.sb s.disk dir elem with
        | none => exact hmiss henter
        | some i =>
          obtain ⟨hi, hstop | ⟨next, u, hrun, hu⟩⟩ := hnext i henter
          · exact .inl hstop
          · rw [hrun]
            exact ih hi hu (by omega)

/-- Where a path starts. -/
def start (s : State) (path : List UInt8) : Nat :=
  if path.head? = some slash then ROOTINO else (s.inode s.cwd).inum

theorem Consistent.start (hs : Consistent used s) (path : List UInt8) : used (start s path) := by
  unfold Fs.start
  split_ifs
  · exact hs.root
  · exact hs.cwd.2.2.2

/-- `namex` begins with the root or with the current directory. -/
theorem Consistent.begin (hs : Consistent used s) (par : Bool) (path : List UInt8) :
    NoSlot s (namex path par s) ∨
      ∃ ip u, namex path par s = namexFrom par (path.length + 1) ip path [] u ∧
        Holds s ip (Fs.start s path) u := by
  unfold namex Fs.start
  rw [bind_of_ok (Exec.get_apply s)]
  split_ifs with hslash
  · rcases hs.walk.iget hs hs.root with ⟨hget, hfull⟩ | ⟨ip, u, hget, hip, hnum, hu⟩
    · exact .inl ⟨bind_of_error hget, fun ⟨a, _, ha, _, _, hra, _⟩ => hfull a ha hra⟩
    · exact .inr ⟨ip, u, bind_of_ok hget, hu, hip, hnum⟩
  · obtain ⟨hcwd, href, hdev, hused⟩ := hs.cwd
    have hslot := hs.walk.slot s.cwd
    have hdup : Holds s s.cwd (s.inode s.cwd).inum
        (s.setInode s.cwd { s.inode s.cwd with ref := (s.inode s.cwd).ref + 1 }) := by
      refine ⟨hs.walk.setRef ?_, hcwd, by rw [State.inode_setInode]⟩
      exact { hslot with ref := rfl, cached := fun _ => hs.cached _ href, dev := fun _ => hdev
                         linked := fun _ _ => href }
    exact .inr ⟨s.cwd, _, bind_of_ok rfl, hdup⟩

theorem namex_namei (hs : Consistent used s) (path : List UInt8) :
    GivesParent s (namex path false s)
      ((follow s (start s path) (names path)).map fun i => (i, (names path).getLast?.getD [])) := by
  rcases hs.begin false path with hstop | ⟨ip, u, hrun, hu⟩
  · exact .inl hstop
  · rw [hrun]
    exact namexFrom_namei hs (hs.start path) hu (Nat.lt_succ_self _)

theorem namei_spec (hs : Consistent used s) (path : List UInt8) :
    NoSlot s (namei path s) ∨ match follow s (start s path) (names path) with
      | some i => ∃ ip u, namei path s = .ok (some ip, u) ∧ Holds s ip i u
      | none => ∃ u, namei path s = .ok (none, u) ∧ Walk s noRefs noLocks u := by
  unfold namei
  rcases namex_namei hs path with ⟨hstop, hfull⟩ | hgives
  · exact .inl ⟨bind_of_error hstop, hfull⟩
  · right
    cases hfollow : follow s (start s path) (names path) with
    | none =>
      rw [hfollow] at hgives
      obtain ⟨v, hv, hwalk⟩ := hgives
      exact ⟨v, by rw [bind_of_ok hv]; rfl, hwalk⟩
    | some i =>
      rw [hfollow] at hgives
      obtain ⟨ip, v, hv, hholds⟩ := hgives
      exact ⟨ip, v, by rw [bind_of_ok hv]; rfl, hholds⟩

theorem nameiparent_spec (hs : Consistent used s) (path : List UInt8) :
    GivesParent s (nameiparent path s) (parent s (start s path) (names path)) := by
  rcases hs.begin true path with hstop | ⟨ip, u, hrun, hu⟩
  · exact .inl hstop
  · rw [nameiparent, hrun]
    exact namexFrom_parent hs (hs.start path) hu (Nat.lt_succ_self _)

/-- The calls of `skipelem` that `namex` makes on a string give its longest parts without a slash,
the empty ones left out, each cut to the length of a name; they read nothing behind the NUL.  On a
file system that nobody else changes, `namei` follows these names from the root or the current
directory, and `nameiparent` follows all but the last and gives it; unless the inode cache, which has
not two free slots, is full. -/
theorem path_splitting {mem : Nat → UInt8} {p : Nat} (hpath : CString mem p path)
    (hs : Consistent used s) (buf : Nat → UInt8) :
    (∃ calls reads, elements mem (path.length + 1) (path.length + 1) p buf = some (calls, reads) ∧
      (∀ a ∈ reads, p ≤ a ∧ a ≤ p + path.length) ∧
      List.Forall₂ (fun call c => HoldsName call.1 c) calls (components path) ∧
      ∀ j (hj : j < calls.length), mem calls[j].2 ≠ slash ∧
        (mem calls[j].2 = 0 ↔ j + 1 = calls.length)) ∧
    (NoSlot s (namei path s) ∨ match follow s (start s path) (names path) with
      | some i => ∃ ip u, namei path s = .ok (some ip, u) ∧ Holds s ip i u
      | none => ∃ u, namei path s = .ok (none, u) ∧ Walk s noRefs noLocks u) ∧
    GivesParent s (nameiparent path s) (parent s (start s path) (names path)) :=
  ⟨elements_spec hpath (Nat.lt_succ_self _) (Nat.lt_succ_of_le (length_components_le path)) buf,
    namei_spec hs path, nameiparent_spec hs path⟩

end walk

/-! ## A disk with a root directory -/

/-- The root directory has one entry, which leads to itself. -/
def rootOnly : State := sample T_DIR 1 fun _ => dotBlock

theorem rootOnly_dinode : dinodeAt rootOnly.sb rootOnly.disk 1 = sampleInode T_DIR 1 :=
  (sample_wellFormed (by decide) (by decide)).stored

theorem rootOnly_consistent : Consistent (· = 1) rootOnly where
  quiet _ := rfl
  unlocked _ := rfl
  ref ip := by
    show 0 ≤ if ip = 0 then (1 : Int) else 0
    split_ifs <;> decide
  cached ip _ _ := rootOnly_dinode.symm
  root := rfl
  cwd := ⟨by decide, by decide, rfl, rfl⟩
  typed := by
    rintro _ rfl
    rw [rootOnly_dinode]
    decide
  dirs := by
    rintro _ rfl -
    refine ⟨⟨1, by decide, ?_, ?_⟩, ?_⟩
    · rw [rootOnly_dinode]
      decide
    · rw [rootOnly_dinode]
      decide
    · rw [rootOnly_dinode]
      decide
  named := by
    rintro _ name i rfl - hlook
    obtain ⟨j, hj, ⟨hne, -⟩, -, hinum⟩ := lookup_eq_some_iff.mp hlook
    have hall : ∀ j, j < 32 → direntInum (direntOnDisk rootOnly.sb rootOnly.disk 1 j) ≠ 0 →
        direntInum (direntOnDisk rootOnly.sb rootOnly.disk 1 j) = 1 := by
      unfold direntOnDisk
      rw [rootOnly_dinode]
      decide +kernel
    rw [rootOnly_dinode] at hj
    exact hinum.symm.trans (hall j hj hne)
  linked := by
    rintro _ rfl hnlink
    rw [rootOnly_dinode] at hnlink
    exact absurd hnlink (by decide)

theorem rootOnly_room : Room rootOnly := ⟨1, 2, by decide, by decide, by decide, rfl, rfl⟩

/-- The path `/.//.` leads back to the root, and its parent is the root. -/
theorem path_splitting_dots :
    CString (fun a => [47, 46, 47, 47, 46].getD a 0) 0 [47, 46, 47, 47, 46] ∧
      Consistent (· = 1) rootOnly ∧
      (∃ ip u, namei [47, 46, 47, 47, 46] rootOnly = .ok (some ip, u) ∧ Holds rootOnly ip 1 u) ∧
      ∃ ip u, nameiparent [47, 46, 47, 47, 46] rootOnly = .ok (some (ip, [46]), u) ∧
        Holds rootOnly ip 1 u := by
  have hpath : CString (fun a => [47, 46, 47, 47, 46].getD a 0) 0 [47, 46, 47, 47, 46] := by
    simp [CString]
  obtain ⟨-, hnamei, hparent⟩ := path_splitting hpath rootOnly_consistent fun _ => 0
  have henter : enter rootOnly.sb rootOnly.disk 1 [46] = some 1 := by
    unfold enter lookup direntOnDisk
    rw [rootOnly_dinode]
    decide +kernel
  have hnames : names [47, 46, 47, 47, 46] = [[46], [46]] := by decide +kernel
  have hfollow : follow rootOnly 1 [[46], [46]] = some 1 := by
    rw [follow_cons, henter, Option.bind_some, follow_cons, henter]
    rfl
  have hup : parent rootOnly 1 [[46], [46]] = some (1, [46]) := by
    rw [parent_cons 1 [46] (List.cons_ne_nil _ _), henter, Option.bind_some]
    rw [parent_single, rootOnly_dinode]
    rfl
  rw [hnames] at hnamei hparent
  rw [show start rootOnly [47, 46, 47, 47, 46] = 1 from rfl, hfollow] at hnamei
  rw [show start rootOnly [47, 46, 47, 47, 46] = 1 from rfl, hup] at hparent
  exact ⟨hpath, rootOnly_consistent, hnamei.resolve_left fun h => h.2 rootOnly_room,
    hparent.resolve_left fun h => h.2 rootOnly_room⟩

end Fs
end Xv6
