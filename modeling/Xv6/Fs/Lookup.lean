import Xv6.Fs.Read

/-!
# The inode cache

What `iget`, `iput`, `ilock` and `iunlock` do to the slots of the inode cache: `iget` finds the slot
of an inode or recycles one, and `ilock` reads the inode from disk if the slot is not valid.
-/

namespace Xv6
namespace Fs

open Lib Lib.Exec Function

/-! ## Inodes and the cache -/

section calls

variable {s : State} {ip dev inum : Nat}

/-- The slot that `iget` recycles. -/
def recycled (i : Inode) (dev inum : Nat) : Inode :=
  { i with dev := dev, inum := inum, ref := 1, valid := false }

/-- The slot holds the inode. -/
def Cached (s : State) (dev inum ip : Nat) : Prop :=
  0 < (s.inode ip).ref ∧ (s.inode ip).dev = dev ∧ (s.inode ip).inum = inum

/-- The cache holds the inode, or has a slot for it. -/
def CacheRoom (s : State) (dev inum : Nat) : Prop :=
  ∃ ip, ip < NINODE ∧ (Cached s dev inum ip ∨ (s.inode ip).ref = 0)

/-- What `iget` does: it counts one more reference, or recycles a slot. -/
inductive Got (s : State) (dev inum ip : Nat) : State → Prop
  | cached : Cached s dev inum ip →
      Got s dev inum ip (s.setInode ip { s.inode ip with ref := (s.inode ip).ref + 1 })
  | fresh : (∀ j, j < NINODE → ¬Cached s dev inum j) → (s.inode ip).ref = 0 →
      Got s dev inum ip (s.setInode ip (recycled (s.inode ip) dev inum))

theorem iget_spec : match iget dev inum s with
    | .ok (ip, s') => ip < NINODE ∧ Got s dev inum ip s'
    | .error e => e = .iget ∧ ¬CacheRoom s dev inum := by
  have hmatch : ∀ j, (0 < (s.inode j).ref && (s.inode j).dev == dev && (s.inode j).inum == inum) =
      true ↔ Cached s dev inum j := by
    intro j
    simp only [Cached, Bool.and_eq_true, decide_eq_true_eq, beq_iff_eq, and_assoc]
  rw [iget, bind_of_ok (Exec.get_apply s)]
  cases hfind : (List.range NINODE).find? (fun j =>
      0 < (s.inode j).ref && (s.inode j).dev == dev && (s.inode j).inum == inum) with
  | some ip =>
    have hlt := List.mem_range.mp (List.mem_of_find?_eq_some hfind)
    have hc := List.find?_some hfind
    exact ⟨hlt, .cached ((hmatch ip).mp hc)⟩
  | none =>
    have hnot : ∀ j, j < NINODE → ¬Cached s dev inum j := by
      intro j hj hc
      exact List.find?_eq_none.mp hfind j (List.mem_range.mpr hj) ((hmatch j).mpr hc)
    cases hfree : (List.range NINODE).find? fun ip => (s.inode ip).ref == 0 with
    | some ip =>
      have hlt := List.mem_range.mp (List.mem_of_find?_eq_some hfree)
      have hzero := List.find?_some hfree
      exact ⟨hlt, .fresh hnot (beq_iff_eq.mp hzero)⟩
    | none =>
      refine ⟨rfl, ?_⟩
      rintro ⟨ip, hlt, hc | hzero⟩
      · exact hnot ip hlt hc
      · exact List.find?_eq_none.mp hfree ip (List.mem_range.mpr hlt) (beq_iff_eq.mpr hzero)

theorem modInode_apply (ip : Nat) (g : Inode → Inode) (s : State) :
    modInode ip g s = .ok ((), s.setInode ip (g (s.inode ip))) := rfl

theorem inode_apply (ip : Nat) (s : State) : inode ip s = .ok (s.inode ip, s) := rfl

theorem acquiresleep_eq (hlocked : (s.inode ip).locked = false) :
    acquiresleep ip s = .ok ((), s.setInode ip { s.inode ip with locked := true }) := by
  rw [acquiresleep, bind_of_ok (inode_apply ip s), hlocked]
  rfl

/-- `iput` that frees nothing. -/
theorem iput_eq (hlocked : (s.inode ip).locked = false)
    (hkeep : ((s.inode ip).valid && (s.inode ip).nlink == 0 && (s.inode ip).ref == 1) = false) :
    iput ip s = .ok ((), s.setInode ip { s.inode ip with ref := (s.inode ip).ref - 1 }) := by
  rw [iput, bind_of_ok (acquiresleep_eq hlocked), bind_of_ok (inode_apply ..), State.inode_setInode]
  dsimp only
  rw [hkeep]
  show (releasesleep ip >>= fun _ => modInode ip _) _ = _
  rw [releasesleep, bind_of_ok (modInode_apply ..), modInode_apply]
  simp only [State.setInode, update_self, update_idem, ← hlocked]

/-- `iput` of an inode that the caller has locked. -/
theorem iput_hangs (hlocked : (s.inode ip).locked = true) : iput ip s = .error .hang := by
  have hlock : acquiresleep ip s = .error .hang := by
    rw [acquiresleep, bind_of_ok (inode_apply ip s), hlocked]
    rfl
  rw [iput, bind_of_error hlock]

/-- What `ilock` reads. -/
def dinodeAt (sb : Superblock) (d : Nat → Block) (inum : Nat) : Dinode :=
  Dinode.read (d (sb.IBLOCK inum)) (inum % IPB)

/-- A locked inode, as it is on disk. -/
def loaded (s : State) (ip : Nat) : Inode :=
  { s.inode ip with
    toDinode := dinodeAt s.sb s.disk (s.inode ip).inum
    locked := true
    valid := true }

/-- `ilock` of an inode that has not been read. -/
theorem ilock_eq (href : (s.inode ip).ref ≥ 1) (hlocked : (s.inode ip).locked = false)
    (hvalid : (s.inode ip).valid = false)
    (hbusy : s.busy (s.sb.IBLOCK (s.inode ip).inum) = false)
    (htype : (dinodeAt s.sb s.disk (s.inode ip).inum).type ≠ 0) :
    ilock ip s = .ok ((), s.setInode ip (loaded s ip)) := by
  have hload : (do
      let u ← Exec.get
      let bp ← bread (u.sb.IBLOCK (s.inode ip).inum)
      modInode ip fun i => { i with toDinode := Dinode.read bp (i.inum % IPB) }
      brelse (u.sb.IBLOCK (s.inode ip).inum)
      modInode ip fun i => { i with valid := true }
      if (Dinode.read bp ((s.inode ip).inum % IPB)).type = 0 then Exec.stop .noType
      else return () : FsM Unit) (s.setInode ip { s.inode ip with locked := true }) =
      .ok ((), s.setInode ip (loaded s ip)) := by
    unfold dinodeAt at htype
    simp [bread, brelse, modInode_apply, bind_apply, hbusy, htype, update_busy hbusy, State.setInode,
      loaded, dinodeAt]
  rw [ilock, bind_of_ok (inode_apply ip s), if_neg (by omega),
    bind_of_ok (acquiresleep_eq hlocked), hvalid]
  exact hload

/-- `ilock` of an inode that has been read. -/
theorem ilock_valid (href : (s.inode ip).ref ≥ 1) (hlocked : (s.inode ip).locked = false)
    (hvalid : (s.inode ip).valid = true) :
    ilock ip s = .ok ((), s.setInode ip { s.inode ip with locked := true }) := by
  rw [ilock, bind_of_ok (inode_apply ip s), if_neg (by omega),
    bind_of_ok (acquiresleep_eq hlocked), hvalid]
  rfl

/-- `iunlock` of a locked inode. -/
theorem iunlock_eq (href : (s.inode ip).ref ≥ 1) (hlocked : (s.inode ip).locked = true) :
    iunlock ip s = .ok ((), s.setInode ip { s.inode ip with locked := false }) := by
  have hcond : (!(s.inode ip).locked || decide ((s.inode ip).ref < 1)) = false := by
    rw [hlocked, Bool.not_true, Bool.false_or]
    exact decide_eq_false (by omega)
  rw [iunlock, bind_of_ok (inode_apply ip s), hcond]
  rfl

end calls

/-! ## A mounted disk -/

/-- The first `nb` blocks of an inode on disk are there and have the bytes of `content`. -/
structure OnDisk (sb : Superblock) (d : Nat → Block) (inum nb : Nat) (content : Nat → UInt8) :
    Prop where
  bound : nb ≤ MAXFILE
  mapped : ∀ k, k < nb → (dinodeAt sb d inum).entry d k ≠ 0
  bytes : ∀ k r, k < nb → r < BSIZE →
    (d ((dinodeAt sb d inum).entry d k)).byte r = content (k * BSIZE + r)

section mounted

variable {s : State} {d : Nat → Block} {ip inum nb : Nat} {content : Nat → UInt8}
  {path name : List UInt8}

/-- An inode that has been read shows what is on disk. -/
theorem OnDisk.shows (h : OnDisk s.sb s.disk inum nb content)
    (hino : (s.inode ip).toDinode = dinodeAt s.sb s.disk inum) (hquiet : ∀ b, s.busy b = false) :
    Shows s ip nb content := by
  have hentry : ∀ k, s.entry ip k = (dinodeAt s.sb s.disk inum).entry s.disk k := by
    intro k
    rw [State.entry, hino]
  refine ⟨hquiet, h.bound, ?_, ?_⟩
  · intro k hk
    rw [hentry]
    exact h.mapped k hk
  · intro k r hk hr
    rw [hentry]
    exact h.bytes k r hk hr

end mounted

end Fs
end Xv6
