import Xv6.Lib.Run
import Xv6.Lib.Slots
import Xv6.Fs.Write

/-!
# Directories as finite maps

A directory is a file of entries of 16 bytes.  The entries with a number other than 0 are the
slots of a table from names to inode numbers, where two names are the same if `namecmp` says so
(`key`).  `dirlink` fills the first free slot, or a new one at the end; `sys_unlink` frees a slot;
`dirlookup` finds the slot of a name.

Main definitions:

* `State.table` — the slots of a directory;
* `Dir` — a directory that is locked and well formed;
* `DirStep` — the operations on a directory, with what others do in between;
* `history` — the name's number after a sequence of operations.
-/

namespace Xv6
namespace Fs

open Lib Lib.Exec Function

/-! ## Names -/

/-- What `namecmp` looks at: the first `DIRSIZ` bytes, up to the first NUL. -/
def key (name : List UInt8) : List UInt8 := (name.takeWhile (· ≠ 0)).take DIRSIZ

theorem namecmp_eq_zero_iff {p q : List UInt8} : namecmp p q = 0 ↔ key p = key q :=
  strncmp_eq_zero_iff DIRSIZ p q

theorem takeWhile_strncpy (n : Nat) (t : List UInt8) :
    (strncpy n t).takeWhile (· ≠ 0) = (t.takeWhile (· ≠ 0)).take n := by
  induction n generalizing t with
  | zero => rfl
  | succ n ih =>
    rw [strncpy]
    cases t with
    | nil => simp
    | cons b t =>
      by_cases hb : b = 0
      · simp [hb]
      · have hrest := ih t
        simpa [hb] using hrest

/-- A name keeps its key when it is stored, whether it fills the entry or is cut. -/
theorem key_strncpy (name : List UInt8) : key (strncpy DIRSIZ name) = key name := by
  rw [key, takeWhile_strncpy, List.take_take, Nat.min_self, key]

theorem length_strncpy (n : Nat) (t : List UInt8) : (strncpy n t).length = n := by
  induction n generalizing t with
  | zero => rfl
  | succ n ih =>
    rw [strncpy]
    split_ifs
    · rw [List.length_replicate]
    · rw [List.length_cons, ih]

theorem length_dirent (inum : Nat) (name : List UInt8) : (dirent inum name).length = direntSize := by
  rw [dirent, List.length_append, length_strncpy]
  rfl

theorem direntInum_dirent {inum : Nat} (name : List UInt8) (h : inum < 65536) :
    direntInum (dirent inum name) = inum := by
  show (UInt8.ofNat inum).toNat + 256 * (UInt8.ofNat (inum / 256)).toNat = inum
  rw [UInt8.toNat_ofNat', UInt8.toNat_ofNat']
  omega

theorem direntName_dirent (inum : Nat) (name : List UInt8) :
    direntName (dirent inum name) = strncpy DIRSIZ name := rfl

/-! ## The table -/

/-- The slot that an entry is. -/
def slotOf (de : List UInt8) : Option (List UInt8 × Nat) :=
  if direntInum de = 0 then none else some (key (direntName de), direntInum de)

theorem slotOf_dirent {inum : Nat} (name : List UInt8) (hpos : inum ≠ 0) (h : inum < 65536) :
    slotOf (dirent inum name) = some (key name, inum) := by
  rw [slotOf, direntInum_dirent name h, if_neg hpos, direntName_dirent, key_strncpy]

theorem slotOf_zero : slotOf (List.replicate direntSize 0) = none := by decide

/-- The number of entries. -/
def State.entries (s : State) (dp : Nat) : Nat := (s.inode dp).size / direntSize

/-- The slots of a directory. -/
def State.table (s : State) (dp j : Nat) : Option (List UInt8 × Nat) :=
  if j < s.entries dp then slotOf (direntAt (s.content dp) j) else none

/-- The directory in slot `dp` of the cache: held and locked by the caller, the only copy of its
inode, well formed, and made of whole entries. -/
structure Dir (s : State) (dp : Nat) : Prop where
  wellFormed : WellFormed s dp
  type : (s.inode dp).type = T_DIR
  whole : direntSize * s.entries dp = (s.inode dp).size
  slot : dp < NINODE
  locked : (s.inode dp).locked = true
  ref : 1 ≤ (s.inode dp).ref
  alone : ∀ ip, ip < NINODE → 0 < (s.inode ip).ref → (s.inode ip).dev = (s.inode dp).dev →
    (s.inode ip).inum = (s.inode dp).inum → ip = dp

section table

variable {s s' : State} {dp j : Nat} {name de : List UInt8}

theorem slotOf_eq_some_iff {v : Nat} :
    slotOf de = some (key name, v) ↔ Matches name de ∧ direntInum de = v := by
  unfold slotOf Matches
  rw [namecmp_eq_zero_iff]
  split_ifs with hzero
  · simp [hzero]
  · rw [Option.some.injEq, Prod.mk.injEq]
    constructor
    · rintro ⟨hkey, hnum⟩
      exact ⟨⟨hzero, hkey.symm⟩, hnum⟩
    · rintro ⟨⟨-, hkey⟩, hnum⟩
      exact ⟨hkey.symm, hnum⟩

theorem table_eq_some_iff {v : Nat} : s.table dp j = some (key name, v) ↔
    j < s.entries dp ∧ Matches name (direntAt (s.content dp) j) ∧
      direntInum (direntAt (s.content dp) j) = v := by
  unfold State.table
  split_ifs with hj
  · rw [slotOf_eq_some_iff]
    exact (and_iff_right hj).symm
  · exact iff_of_false nofun (fun h => hj h.1)

theorem Dir.small (h : Dir s dp) : (s.inode dp).size < 2 ^ 32 :=
  h.wellFormed.size_le.trans_lt (by decide)

theorem Dir.entry_le (h : Dir s dp) (hj : j < s.entries dp) :
    direntSize * (j + 1) ≤ (s.inode dp).size :=
  h.whole ▸ Nat.mul_le_mul_left _ hj

/-- A name that is there is found in its slot. -/
theorem Dir.dirlookup_found (h : Dir s dp) (hd : Slots.Distinct (s.table dp)) {inum : Nat}
    (hj : s.table dp j = some (key name, inum)) :
    dirlookup dp name s = (do
      let ip ← iget (s.inode dp).dev inum
      return some (ip, direntSize * j) : FsM (Option (Nat × Nat))) s := by
  obtain ⟨hlt, hmatch, rfl⟩ := table_eq_some_iff.mp hj
  have hsize := h.entry_le hlt
  have hblocks := le_blocksOf (s.inode dp).size
  apply h.wellFormed.shows.dirlookup_eq h.type h.small hsize (hsize.trans hblocks)
  · intro m hm hother
    have hm' : s.table dp m = some (key name, _) :=
      table_eq_some_iff.mpr ⟨Nat.lt_trans hm hlt, hother, rfl⟩
    have := hd m j _ _ _ hm' hj
    omega
  · exact hmatch

theorem Dir.readDirent_eq (h : Dir s dp) {e : Stop} (hj : j < s.entries dp) :
    readDirent e dp (direntSize * j) s = .ok (direntAt (s.content dp) j, s) := by
  have hsize := h.entry_le hj
  have hblocks := le_blocksOf (s.inode dp).size
  exact h.wellFormed.shows.readDirent_eq h.type h.small hsize (hsize.trans hblocks)

theorem Dir.lt_size_iff (h : Dir s dp) : direntSize * j < (s.inode dp).size ↔ j < s.entries dp := by
  rw [← h.whole]
  exact Nat.mul_lt_mul_left (by decide)

/-- A name that is not there is not found. -/
theorem Dir.dirlookup_absent (h : Dir s dp) (hnone : ∀ j v, s.table dp j ≠ some (key name, v)) :
    dirlookup dp name s = .ok (none, s) := by
  refine h.wellFormed.shows.dirlookup_absent h.type h.small h.whole.symm (le_blocksOf _) ?_
  intro j hj hmatch
  exact hnone j _ (table_eq_some_iff.mpr ⟨hj, hmatch, rfl⟩)

/-- The loop of `dirlink` stops at a free slot, or behind the last one. -/
theorem Dir.emptyDirentFrom_spec (h : Dir s dp) {fuel : Nat} (hj : j ≤ s.entries dp)
    (hfuel : s.entries dp < j + fuel) :
    ∃ t, t ≤ s.entries dp ∧ s.table dp t = none ∧ (∀ m, j ≤ m → m < t → s.table dp m ≠ none) ∧
      emptyDirentFrom dp fuel (direntSize * j) s = .ok (direntSize * t, s) := by
  induction fuel generalizing j with
  | zero => omega
  | succ fuel ih =>
    rw [emptyDirentFrom, bind_of_ok (show inode dp s = .ok (s.inode dp, s) from rfl)]
    by_cases hend : j = s.entries dp
    · refine ⟨j, hj, if_neg (by omega), by omega, ?_⟩
      rw [if_neg (fun hlt => absurd (h.lt_size_iff.mp hlt) (by omega))]
      rfl
    · have hlt : j < s.entries dp := by omega
      have hslot : s.table dp j = slotOf (direntAt (s.content dp) j) := if_pos hlt
      rw [if_pos (h.lt_size_iff.mpr hlt), bind_of_ok (h.readDirent_eq hlt)]
      by_cases hfree : direntInum (direntAt (s.content dp) j) = 0
      · refine ⟨j, hj, ?_, by omega, ?_⟩
        · rw [hslot, slotOf, if_pos hfree]
        · rw [if_pos hfree]
          rfl
      · obtain ⟨t, ht, hnone, hfull, hrun⟩ := @ih (j + 1) hlt (by omega)
        refine ⟨t, ht, hnone, ?_, ?_⟩
        · intro m hm hmt
          by_cases hmj : m = j
          · rw [hmj, hslot, slotOf, if_neg hfree]
            nofun
          · exact hfull m (by omega) hmt
        · rw [if_neg hfree, ← Nat.mul_succ]
          exact hrun

/-- The entry that has been laid at its place. -/
theorem direntAt_patch_self {f : Nat → UInt8} (hde : de.length = direntSize) :
    direntAt (patch f (direntSize * j) de) j = de := firsts_patch_self hde

theorem direntAt_patch_of_ne {f : Nat → UInt8} (hde : de.length = direntSize) {i : Nat}
    (hij : i ≠ j) : direntAt (patch f (direntSize * j) de) i = direntAt f i := by
  apply firsts_congr
  intro r hr
  simp only [direntSize, DIRSIZ] at hde hr ⊢
  rcases Nat.lt_or_gt_of_ne hij with hlt | hgt
  · exact patch_of_lt (by omega)
  · exact patch_of_le (by omega)

theorem entries_write (h : Dir s dp) (hupd : Updated dp (direntSize * j) de s s')
    (hde : de.length = direntSize) : s'.entries dp = max (s.entries dp) (j + 1) := by
  have hsize : (s'.inode dp).size = max (s.inode dp).size (direntSize * j + direntSize) := by
    rw [hupd.size, hde]
  rw [State.entries, hsize, ← h.whole]
  simp only [direntSize, DIRSIZ]
  omega

/-- An entry is written: one slot of the table changes. -/
theorem table_write (h : Dir s dp) (hupd : Updated dp (direntSize * j) de s s')
    (hde : de.length = direntSize) (hj : j ≤ s.entries dp) :
    s'.table dp = update (s.table dp) j (slotOf de) := by
  have hentries := entries_write h hupd hde
  have hbytes : ∀ i, i < s'.entries dp → direntAt (s'.content dp) i =
      direntAt (patch (s.content dp) (direntSize * j) de) i := by
    intro i hi
    apply firsts_congr
    intro r hr
    apply hupd.content
    have hwhole := h.whole
    rw [hentries] at hi
    rw [hde]
    simp only [direntSize, DIRSIZ] at hwhole hr ⊢
    omega
  funext i
  rw [update_apply]
  split_ifs with hij
  · subst hij
    rw [State.table, if_pos (by omega), hbytes i (by omega), direntAt_patch_self hde]
  · unfold State.table
    split_ifs with hnew hold hold
    · rw [hbytes i hnew, direntAt_patch_of_ne hde hij]
    · omega
    · omega
    · rfl

theorem Dir.write (h : Dir s dp) (hupd : Updated dp (direntSize * j) de s s')
    (hde : de.length = direntSize) : Dir s' dp := by
  have hentries := entries_write h hupd hde
  have hsize := hupd.size
  have hwhole := h.whole
  refine ⟨hupd.wellFormed, ?_, ?_, h.slot, ?_, ?_, ?_⟩
  · rw [hupd.inode]
    exact h.type
  · rw [hentries, hsize, hde]
    simp only [direntSize, DIRSIZ] at hwhole ⊢
    omega
  · rw [hupd.inode]
    exact h.locked
  · rw [hupd.inode]
    exact h.ref
  · intro ip hip href hdev hinum
    by_contra hne
    rw [hupd.others ip hne] at href hdev hinum
    rw [hupd.inode] at hdev hinum
    exact hne (h.alone ip hip href hdev hinum)

end table

/-! ## What others do -/

/-- The directory and its entries are as they were. -/
structure Elsewhere (dp : Nat) (s s' : State) : Prop where
  dir : Dir s' dp
  dev : (s'.inode dp).dev = (s.inode dp).dev
  inum : (s'.inode dp).inum = (s.inode dp).inum
  table : s'.table dp = s.table dp

/-- Nothing has changed but slots of the cache that are free before and after. -/
def Untouched (s s' : State) : Prop :=
  s' = { s with inode := s'.inode } ∧
    ∀ ip, s'.inode ip = s.inode ip ∨ (s.inode ip).ref = 0 ∧ (s'.inode ip).ref = 0

section operations

variable {s s' : State} {dp ip dev inum j : Nat} {name : List UInt8}

theorem table_congr (hdisk : s'.disk = s.disk)
    (hdinode : (s'.inode dp).toDinode = (s.inode dp).toDinode) : s'.table dp = s.table dp := by
  funext j
  have hcontent : s'.content dp = s.content dp := by
    funext o
    rw [State.content, State.content, hdisk, hdinode]
  rw [State.table, State.table, hcontent, State.entries, State.entries, hdinode]

/-- Another slot of the cache is changed, or the number of references to the directory. -/
theorem Dir.setInode (h : Dir s dp) {i : Inode}
    (hself : ip = dp → i = { s.inode dp with ref := i.ref } ∧ 1 ≤ i.ref)
    (hother : ip ≠ dp → ¬(i.dev = (s.inode dp).dev ∧ i.inum = (s.inode dp).inum) ∨ i.ref = 0 ∨
      i.dev = (s.inode ip).dev ∧ i.inum = (s.inode ip).inum ∧ 0 < (s.inode ip).ref) :
    Elsewhere dp s (s.setInode ip i) := by
  have hdp : ∃ r, 1 ≤ r ∧ (s.setInode ip i).inode dp = { s.inode dp with ref := r } := by
    by_cases heq : ip = dp
    · obtain ⟨hi, hr⟩ := hself heq
      refine ⟨i.ref, hr, ?_⟩
      rw [heq, State.inode_setInode]
      exact hi
    · exact ⟨(s.inode dp).ref, h.ref, State.inode_setInode_of_ne s i (Ne.symm heq)⟩
  obtain ⟨r, hr, hinode⟩ := hdp
  refine ⟨⟨?_, ?_, ?_, h.slot, ?_, ?_, ?_⟩, ?_, ?_, ?_⟩
  · exact h.wellFormed.congr rfl rfl rfl (by rw [hinode]) (by rw [hinode])
  · rw [hinode]
    exact h.type
  · rw [State.entries, hinode]
    exact h.whole
  · rw [hinode]
    exact h.locked
  · rw [hinode]
    exact hr
  · intro x hx href hdev hinum
    rw [hinode] at hdev hinum
    by_contra hne
    by_cases hxi : x = ip
    · rw [hxi, State.inode_setInode] at href hdev hinum
      rcases hother (hxi ▸ hne) with hnot | hzero | ⟨hdev', hinum', href'⟩
      · exact hnot ⟨hdev, hinum⟩
      · omega
      · exact hne (h.alone x hx (hxi ▸ href') (hxi ▸ hdev' ▸ hdev) (hxi ▸ hinum' ▸ hinum))
    · rw [State.inode_setInode_of_ne s i hxi] at href hdev hinum
      exact hne (h.alone x hx href hdev hinum)
  · rw [hinode]
  · rw [hinode]
  · exact table_congr rfl (by rw [hinode])

/-- A reference to an inode of the directory's disk is taken. -/
theorem Dir.got (h : Dir s dp) (hdev : dev = (s.inode dp).dev) (hgot : Got s dev inum ip s') :
    Elsewhere dp s s' := by
  cases hgot with
  | cached hc =>
    apply h.setInode
    · rintro rfl
      refine ⟨rfl, ?_⟩
      have := h.ref
      show 1 ≤ (s.inode ip).ref + 1
      omega
    · intro _
      exact .inr (.inr ⟨rfl, rfl, hc.1⟩)
  | fresh hnot hzero =>
    apply h.setInode
    · rintro rfl
      have := h.ref
      omega
    · intro _
      left
      rintro ⟨-, hinum⟩
      exact hnot dp h.slot ⟨h.ref, hdev.symm, hinum.symm⟩

/-- A reference that is taken and given back leaves the cache as it was, but for a free slot. -/
theorem iput_got (hgot : Got s dev inum ip s') (hfree : (s.inode ip).locked = false) :
    ∃ i : Inode, iput ip s' = .ok ((), s.setInode ip i) ∧
      (i = s.inode ip ∧ 0 < (s.inode ip).ref ∨ (s.inode ip).ref = 0 ∧ i.ref = 0) := by
  cases hgot with
  | cached hc =>
    have hpos := hc.1
    refine ⟨s.inode ip, ?_, .inl ⟨rfl, hpos⟩⟩
    have hkeep : ((s.inode ip).valid && (s.inode ip).nlink == 0 && (s.inode ip).ref + 1 == 1) =
        false := by
      rw [Bool.and_eq_false_iff]
      exact .inr (beq_eq_false_iff_ne.mpr (by omega))
    rw [iput_eq (by rw [State.inode_setInode]; exact hfree)
      (by rw [State.inode_setInode]; exact hkeep)]
    simp only [State.setInode, update_self, update_idem, Int.add_sub_cancel]
  | fresh _ hzero =>
    refine ⟨{ recycled (s.inode ip) dev inum with ref := 0 }, ?_, .inr ⟨hzero, rfl⟩⟩
    rw [iput_eq (by rw [State.inode_setInode]; exact hfree) (by rw [State.inode_setInode]; rfl)]
    simp only [State.setInode, update_self, update_idem, recycled, Int.sub_self]

theorem Got.locked (hgot : Got s dev inum ip s') :
    (s'.inode ip).locked = (s.inode ip).locked := by
  cases hgot with
  | cached => rw [State.inode_setInode]
  | fresh => rw [State.inode_setInode, recycled]

/-- The directory itself is the only slot that `iget` of its number gives. -/
theorem Dir.got_self_iff (h : Dir s dp) (hip : ip < NINODE)
    (hgot : Got s (s.inode dp).dev inum ip s') : ip = dp ↔ inum = (s.inode dp).inum := by
  cases hgot with
  | cached hc =>
    constructor
    · rintro rfl
      exact hc.2.2.symm
    · rintro rfl
      exact h.alone ip hip hc.1 hc.2.1 hc.2.2
  | fresh hnot hzero =>
    constructor
    · rintro rfl
      have := h.ref
      omega
    · rintro rfl
      exact absurd ⟨h.ref, rfl, rfl⟩ (hnot dp h.slot)

/-- The name is there.  The call takes a reference to its inode and gives it back, which it cannot
if the inode is the directory that it has locked. -/
theorem Dir.dirlink_refused (h : Dir s dp) (hd : Slots.Distinct (s.table dp)) {i : Nat}
    (hj : s.table dp j = some (key name, i)) :
    match dirlink dp name inum s with
    | .ok (r, s') => r = false ∧ i ≠ (s.inode dp).inum ∧ Untouched s s' ∧ Elsewhere dp s s'
    | .error _ => i = (s.inode dp).inum ∨ ¬CacheRoom s (s.inode dp).dev i ∨
        ∃ ip, ip < NINODE ∧ ip ≠ dp ∧ (s.inode ip).locked = true := by
  have hfound := h.dirlookup_found hd hj
  have hspec := @iget_spec s (s.inode dp).dev i
  cases hget : iget (s.inode dp).dev i s with
  | error e =>
    rw [hget] at hspec
    rw [bind_of_error hget] at hfound
    rw [dirlink, bind_of_error hfound]
    exact .inr (.inl hspec.2)
  | ok r =>
    obtain ⟨ip, t⟩ := r
    rw [hget] at hspec
    obtain ⟨hip, hgot⟩ := hspec
    have hself := h.got_self_iff hip hgot
    rw [bind_of_ok hget] at hfound
    have hcall : dirlink dp name inum s = (do
        iput ip
        return false : FsM Bool) t := by
      rw [dirlink, bind_of_ok hfound]
    rw [hcall]
    cases hlocked : (s.inode ip).locked with
    | true =>
      rw [bind_of_error (iput_hangs (hgot.locked.trans hlocked))]
      by_cases heq : ip = dp
      · exact .inl (hself.mp heq)
      · exact .inr (.inr ⟨ip, hip, heq, hlocked⟩)
    | false =>
      have hne : ip ≠ dp := by
        rintro rfl
        rw [h.locked] at hlocked
        cases hlocked
      obtain ⟨x, hput, hx⟩ := iput_got hgot hlocked
      rw [bind_of_ok hput]
      refine ⟨rfl, fun heq => hne (hself.mpr heq), ⟨rfl, ?_⟩, ?_⟩
      · intro k
        by_cases hk : k = ip
        · rw [hk, State.inode_setInode]
          exact hx.imp_left fun h => h.1
        · exact .inl (State.inode_setInode_of_ne s x hk)
      · apply h.setInode
        · exact fun heq => absurd heq hne
        · intro _
          rcases hx with ⟨rfl, hpos⟩ | ⟨-, hzero⟩
          · exact .inr (.inr ⟨rfl, rfl, hpos⟩)
          · exact .inr (.inl hzero)

/-- There is room for one more entry: a free slot, or a place behind the last one. -/
def LinkRoom (s : State) (dp : Nat) : Prop :=
  (∃ j, j < s.entries dp ∧ s.table dp j = none) ∨
    (s.inode dp).size < MAXFILE * BSIZE ∧ Enough s dp (s.inode dp).size direntSize

/-- The name is not there: it goes to a free slot. -/
theorem Dir.dirlink_new (h : Dir s dp) (hnone : ∀ j v, s.table dp j ≠ some (key name, v)) :
    match dirlink dp name inum s with
    | .ok (r, s') => r = true ∧ ∃ j, j ≤ s.entries dp ∧ s.table dp j = none ∧
        Updated dp (direntSize * j) (dirent inum name) s s'
    | .error _ => ¬LinkRoom s dp := by
  obtain ⟨t, ht, hfree, hfull, hrun⟩ := @Dir.emptyDirentFrom_spec s dp 0 h
    ((s.inode dp).size / direntSize + 1) (Nat.zero_le _) (by rw [State.entries]; omega)
  have hlen := length_dirent inum name
  have hwhole := h.whole
  have hmax := h.wellFormed.size_le
  have hsize : direntSize = 16 := rfl
  have hlimit : MAXFILE * BSIZE = 16 * 4480 := rfl
  -- if any slot is free, the loop has found one that is inside the file
  have hinside : (∃ j, j < s.entries dp ∧ s.table dp j = none) → t < s.entries dp := by
    rintro ⟨j, hj, hnone⟩
    by_contra hle
    exact hfull j (Nat.zero_le j) (by omega) hnone
  rw [Nat.mul_zero] at hrun
  have hcall : dirlink dp name inum s = (do
      let r ← writei dp (dirent inum name) (direntSize * t)
      if r = some direntSize then return true else Exec.stop .dirlink : FsM Bool) s := by
    rw [dirlink, bind_of_ok (h.dirlookup_absent hnone)]
    show (inode dp >>= _) s = _
    rw [bind_of_ok (show inode dp s = .ok (s.inode dp, s) from rfl), bind_of_ok hrun]
  rw [hcall]
  by_cases hplace : direntSize * t + direntSize ≤ MAXFILE * BSIZE
  · have hspec := @writei_spec s dp (direntSize * t) (dirent inum name) h.wellFormed
      (by rw [hsize] at hwhole ⊢; omega) (by rw [hlen]; exact hplace)
    cases hwrite : writei dp (dirent inum name) (direntSize * t) s with
    | error e =>
      rw [hwrite] at hspec
      rw [bind_of_error hwrite]
      intro hroom
      apply hspec.2
      rw [hlen]
      by_cases hlast : t = s.entries dp
      · rcases hroom with hslot | ⟨-, henough⟩
        · exact absurd (hinside hslot) (by omega)
        · rw [hlast, hwhole]
          exact henough
      · apply enough_inside
        rw [hsize] at hwhole ⊢
        omega
    | ok r =>
      obtain ⟨r, s'⟩ := r
      rw [hwrite] at hspec
      obtain ⟨rfl, hupd, -⟩ := hspec
      rw [bind_of_ok hwrite, hlen, if_pos rfl]
      exact ⟨rfl, t, ht, hfree, hupd⟩
  · have hwrite : writei dp (dirent inum name) (direntSize * t) s = .ok (none, s) := by
      apply writei_refused h.wellFormed
      · rw [hsize] at hwhole ⊢
        omega
      · rw [hlen]
        decide
      · right
        rw [hlen]
        omega
    rw [bind_of_ok hwrite, if_neg nofun]
    rintro (hslot | ⟨hlt, -⟩)
    · have := hinside hslot
      rw [hsize] at hwhole hplace
      omega
    · rw [hsize] at hwhole hplace
      omega

/-- An entry is erased in place. -/
theorem Dir.eraseDirent_eq (h : Dir s dp) (hj : j < s.entries dp) :
    ∃ s', eraseDirent dp (direntSize * j) s = .ok ((), s') ∧
      Updated dp (direntSize * j) (List.replicate direntSize 0) s s' := by
  have hlen : (List.replicate direntSize (0 : UInt8)).length = direntSize := List.length_replicate
  have hinside : direntSize * j + direntSize ≤ (s.inode dp).size := h.entry_le hj
  have hspec := @writei_spec s dp (direntSize * j) (List.replicate direntSize 0) h.wellFormed
    (by omega) (by rw [hlen]; exact hinside.trans h.wellFormed.size_le)
  cases hwrite : writei dp (List.replicate direntSize 0) (direntSize * j) s with
  | error e =>
    rw [hwrite] at hspec
    exact absurd (enough_inside (by rw [hlen]; exact hinside)) hspec.2
  | ok r =>
    obtain ⟨r, s'⟩ := r
    rw [hwrite] at hspec
    obtain ⟨rfl, hupd, -⟩ := hspec
    refine ⟨s', ?_, hupd⟩
    rw [eraseDirent, bind_of_ok hwrite, hlen, if_pos rfl]
    rfl

/-- `dirlink` of a name that the directory has for itself waits for its own lock. -/
theorem Dir.dirlink_hangs (h : Dir s dp) (hd : Slots.Distinct (s.table dp))
    (hj : s.table dp j = some (key name, (s.inode dp).inum)) :
    dirlink dp name inum s = .error .hang := by
  have hfound := h.dirlookup_found hd hj
  have hspec := @iget_spec s (s.inode dp).dev (s.inode dp).inum
  cases hget : iget (s.inode dp).dev (s.inode dp).inum s with
  | error e =>
    rw [hget] at hspec
    exact absurd ⟨dp, h.slot, .inl ⟨h.ref, rfl, rfl⟩⟩ hspec.2
  | ok r =>
    obtain ⟨ip, t⟩ := r
    rw [hget] at hspec
    obtain ⟨hip, hgot⟩ := hspec
    obtain rfl : ip = dp := (h.got_self_iff hip hgot).mpr rfl
    rw [bind_of_ok hget] at hfound
    rw [dirlink, bind_of_ok hfound]
    show (iput ip >>= _) t = _
    rw [bind_of_error (iput_hangs (hgot.locked.trans h.locked))]

/-- What `dirlookup` of a name that is there gives. -/
theorem Dir.dirlookup_spec (h : Dir s dp) (hd : Slots.Distinct (s.table dp)) {i : Nat}
    (hj : s.table dp j = some (key name, i)) :
    match dirlookup dp name s with
    | .ok (r, s') => ∃ ip, r = some (ip, direntSize * j) ∧ (s'.inode ip).dev = (s.inode dp).dev ∧
        (s'.inode ip).inum = i ∧ Elsewhere dp s s'
    | .error _ => ¬CacheRoom s (s.inode dp).dev i := by
  have hfound := h.dirlookup_found hd hj
  have hspec := @iget_spec s (s.inode dp).dev i
  cases hget : iget (s.inode dp).dev i s with
  | error e =>
    rw [hget] at hspec
    rw [hfound, bind_of_error hget]
    exact hspec.2
  | ok r =>
    obtain ⟨ip, t⟩ := r
    rw [hget] at hspec
    obtain ⟨hip, hgot⟩ := hspec
    rw [hfound, bind_of_ok hget]
    refine ⟨ip, rfl, ?_, ?_, h.got rfl hgot⟩
    · cases hgot with
      | cached hc =>
        rw [State.inode_setInode]
        exact hc.2.1
      | fresh => rw [State.inode_setInode, recycled]
    · cases hgot with
      | cached hc =>
        rw [State.inode_setInode]
        exact hc.2.2
      | fresh => rw [State.inode_setInode, recycled]

end operations

/-! ## Runs -/

/-- What happens to a directory. -/
inductive DirEvent where
  /-- `dirlink` has returned 0. -/
  | linked (name : List UInt8) (inum : Nat)
  /-- `dirlink` has returned -1. -/
  | refused (name : List UInt8) (inum : Nat)
  /-- The name has been looked up and its entry overwritten. -/
  | erased (name : List UInt8)
  | looked (name : List UInt8)
  /-- Others have done something that is not about the directory. -/
  | others

/-- The operations on directory `dp`, as calls that return. -/
inductive DirStep (dp : Nat) : State → DirEvent → State → Prop
  | linked {s s' : State} {name : List UInt8} {inum : Nat} : inum ≠ 0 → inum < 65536 →
      dirlink dp name inum s = .ok (true, s') → DirStep dp s (.linked name inum) s'
  | refused {s s' : State} {name : List UInt8} {inum : Nat} :
      dirlink dp name inum s = .ok (false, s') → DirStep dp s (.refused name inum) s'
  | erased {s t t' s' : State} {name : List UInt8} {ip off : Nat} :
      dirlookup dp name s = .ok (some (ip, off), t) → Elsewhere dp t t' →
      eraseDirent dp off t' = .ok ((), s') → DirStep dp s (.erased name) s'
  | looked {s s' : State} {name : List UInt8} {r : Option (Nat × Nat)} :
      dirlookup dp name s = .ok (r, s') → DirStep dp s (.looked name) s'
  | others {s s' : State} : Elsewhere dp s s' → DirStep dp s .others s'

/-- The map after one event. -/
def DirEvent.apply (m : List UInt8 → Option Nat) : DirEvent → List UInt8 → Option Nat
  | .linked name inum => update m (key name) (some inum)
  | .erased name => update m (key name) none
  | _ => m

/-- The number that the last `dirlink` of a name has given it, if it was not erased since; `m` is
what there was at the beginning. -/
def history (m : List UInt8 → Option Nat) (es : List DirEvent) : List UInt8 → Option Nat :=
  es.foldl DirEvent.apply m

/-- The names of a directory. -/
def State.names (s : State) (dp : Nat) (k : List UInt8) : Option Nat :=
  (List.range (s.entries dp)).findSome? fun j =>
    (s.table dp j).bind fun e => if e.1 = k then some e.2 else none

/-- The directory has the names of the map. -/
structure Refines (dp : Nat) (s : State) (m : List UInt8 → Option Nat) : Prop where
  dir : Dir s dp
  distinct : Slots.Distinct (s.table dp)
  holds : Slots.Holds (s.table dp) m

section runs

variable {s s' : State} {dp j : Nat} {m : List UInt8 → Option Nat} {e : DirEvent}

theorem lt_entries_of_table {x : List UInt8 × Nat} (h : s.table dp j = some x) : j < s.entries dp := by
  unfold State.table at h
  split_ifs at h with hj
  exact hj

theorem holds_names (hd : Slots.Distinct (s.table dp)) : Slots.Holds (s.table dp) (s.names dp) := by
  have hfound : ∀ k v, s.names dp k = some v → ∃ j, s.table dp j = some (k, v) := by
    intro k v h
    obtain ⟨j, -, hj⟩ := List.exists_of_findSome?_eq_some h
    obtain ⟨⟨k', v'⟩, hslot, hval⟩ := Option.bind_eq_some_iff.mp hj
    dsimp only at hval
    split_ifs at hval with hk
    cases hval
    exact ⟨j, hk ▸ hslot⟩
  intro k v
  constructor
  · exact hfound k v
  · rintro ⟨j, hj⟩
    cases hnames : s.names dp k with
    | none =>
      have hskip := List.findSome?_eq_none_iff.mp hnames j
        (List.mem_range.mpr (lt_entries_of_table hj))
      simp [hj] at hskip
    | some w =>
      obtain ⟨i, hi⟩ := hfound k w hnames
      obtain rfl := hd i j k w v hi hj
      rw [hi] at hj
      rw [(Prod.mk.inj (Option.some.inj hj)).2]

theorem Refines.elsewhere (h : Refines dp s m) (he : Elsewhere dp s s') : Refines dp s' m :=
  ⟨he.dir, he.table ▸ h.distinct, he.table ▸ h.holds⟩

/-- A name is there or it is not. -/
theorem Refines.cases (h : Refines dp s m) (name : List UInt8) :
    (m (key name) = none ∧ ∀ j v, s.table dp j ≠ some (key name, v)) ∨
      ∃ i j, m (key name) = some i ∧ s.table dp j = some (key name, i) := by
  cases hm : m (key name) with
  | none => exact .inl ⟨rfl, h.holds.of_none hm⟩
  | some i =>
    obtain ⟨j, hj⟩ := (h.holds _ _).mp hm
    exact .inr ⟨i, j, rfl, hj⟩

/-- A step of the directory is a step of the map. -/
theorem DirStep.refines (h : Refines dp s m) (hstep : DirStep dp s e s') :
    Refines dp s' (e.apply m) := by
  have hdir := h.dir
  have hd := h.distinct
  cases hstep with
  | @linked _ name inum hpos hlt hcall =>
    rcases h.cases name with ⟨hm, hnone⟩ | ⟨i, j, -, hj⟩
    · have hspec := @Dir.dirlink_new s dp inum name hdir hnone
      rw [hcall] at hspec
      obtain ⟨-, j, hle, hfree, hupd⟩ := hspec
      have hlen := length_dirent inum name
      have htable := table_write hdir hupd hlen hle
      rw [slotOf_dirent name hpos hlt] at htable
      refine ⟨hdir.write hupd hlen, ?_, ?_⟩
      · rw [htable]
        exact hd.fill hnone
      · rw [htable]
        exact h.holds.fill hfree hm
    · have hspec := @Dir.dirlink_refused s dp inum j name hdir hd i hj
      rw [hcall] at hspec
      cases hspec.1
  | @refused _ name inum hcall =>
    rcases h.cases name with ⟨-, hnone⟩ | ⟨i, j, -, hj⟩
    · have hspec := @Dir.dirlink_new s dp inum name hdir hnone
      rw [hcall] at hspec
      cases hspec.1
    · have hspec := @Dir.dirlink_refused s dp inum j name hdir hd i hj
      rw [hcall] at hspec
      exact h.elsewhere hspec.2.2.2
  | @erased t t' _ name ip off hlook hothers herase =>
    rcases h.cases name with ⟨-, hnone⟩ | ⟨i, j, hm, hj⟩
    · rw [hdir.dirlookup_absent hnone] at hlook
      cases hlook
    · have hspec := hdir.dirlookup_spec hd hj
      rw [hlook] at hspec
      obtain ⟨ip', hr, -, -, helse⟩ := hspec
      obtain ⟨-, rfl⟩ := Prod.mk.inj (Option.some.inj hr)
      -- between the lookup and the write the directory has not changed
      have h' := (h.elsewhere helse).elsewhere hothers
      have hj' : t'.table dp j = some (key name, i) := by
        rw [hothers.table, helse.table]
        exact hj
      obtain ⟨u, hrun, hupd⟩ := h'.dir.eraseDirent_eq (lt_entries_of_table hj')
      rw [hrun] at herase
      cases herase
      have hlen : (List.replicate direntSize (0 : UInt8)).length = direntSize :=
        List.length_replicate
      have htable := table_write h'.dir hupd hlen (Nat.le_of_lt (lt_entries_of_table hj'))
      rw [slotOf_zero] at htable
      refine ⟨h'.dir.write hupd hlen, ?_, ?_⟩
      · rw [htable]
        exact h'.distinct.clear
      · rw [htable]
        exact h'.holds.clear h'.distinct hj'
  | @looked _ name r hlook =>
    rcases h.cases name with ⟨-, hnone⟩ | ⟨i, j, -, hj⟩
    · rw [hdir.dirlookup_absent hnone] at hlook
      cases hlook
      exact h
    · have hspec := hdir.dirlookup_spec hd hj
      rw [hlook] at hspec
      obtain ⟨-, -, -, -, helse⟩ := hspec
      exact h.elsewhere helse
  | others he => exact h.elsewhere he

/-- A run on the directory is a run on the map. -/
theorem refines_of_run {s0 : State} {es : List DirEvent} (hdir : Dir s0 dp)
    (hd : Slots.Distinct (s0.table dp)) (hrun : Run (DirStep dp) s0 es s) :
    Refines dp s (history (s0.names dp) es) := by
  induction hrun with
  | nil => exact ⟨hdir, hd, holds_names hd⟩
  | snoc _ hstep ih =>
    rw [history, List.foldl_append]
    exact hstep.refines ih

/-- The name that an event is about. -/
def DirEvent.key : DirEvent → Option (List UInt8)
  | .linked name _ | .refused name _ | .erased name | .looked name => some (Fs.key name)
  | .others => none

/-- The directory answers as the map does. -/
structure ActsAs (dp : Nat) (s : State) (m : List UInt8 → Option Nat) : Prop where
  distinct : Slots.Distinct (s.table dp)
  absent : ∀ name, m (key name) = none → dirlookup dp name s = .ok (none, s)
  found : ∀ name i, m (key name) = some i → ∃ j, s.table dp j = some (key name, i) ∧
    (CacheRoom s (s.inode dp).dev i → ∃ ip s', dirlookup dp name s = .ok (some (ip, direntSize * j), s') ∧
      (s'.inode ip).dev = (s.inode dp).dev ∧ (s'.inode ip).inum = i) ∧
    ∀ t, Elsewhere dp s t → ∃ s', eraseDirent dp (direntSize * j) t = .ok ((), s')
  link : ∀ name inum, m (key name) = none → (∀ s', dirlink dp name inum s ≠ .ok (false, s')) ∧
    (LinkRoom s dp → ∃ s', dirlink dp name inum s = .ok (true, s'))
  refuse : ∀ name inum i, m (key name) = some i → (∀ s', dirlink dp name inum s ≠ .ok (true, s')) ∧
    (CacheRoom s (s.inode dp).dev i → (∀ ip, ip < NINODE → ip ≠ dp → (s.inode ip).locked = false) →
      ((∃ s', dirlink dp name inum s = .ok (false, s') ∧ Untouched s s') ↔ i ≠ (s.inode dp).inum))
  apart : ∀ e s' k, DirStep dp s e s' → e.key ≠ some k → s'.names dp k = s.names dp k

theorem DirEvent.apply_of_ne {k : List UInt8} (h : e.key ≠ some k) : e.apply m k = m k := by
  cases e with
  | linked name inum => exact update_of_ne (fun heq => h (congrArg some heq.symm)) ..
  | erased name => exact update_of_ne (fun heq => h (congrArg some heq.symm)) ..
  | refused | looked | others => rfl

/-- Whatever is done with a directory, it answers as the map of its history; only a name that it
has for itself makes `dirlink` wait forever. -/
theorem directory_refines_map {s0 : State} {es : List DirEvent} (hdir : Dir s0 dp)
    (hd : Slots.Distinct (s0.table dp)) (hrun : Run (DirStep dp) s0 es s) :
    ActsAs dp s (history (s0.names dp) es) := by
  have h := refines_of_run hdir hd hrun
  refine ⟨h.distinct, ?_, ?_, ?_, ?_, ?_⟩
  · intro name hm
    exact h.dir.dirlookup_absent (h.holds.of_none hm)
  · intro name i hm
    obtain ⟨j, hj⟩ := (h.holds _ _).mp hm
    refine ⟨j, hj, ?_, ?_⟩
    · intro hroom
      have hspec := h.dir.dirlookup_spec h.distinct hj
      cases hlook : dirlookup dp name s with
      | error e =>
        rw [hlook] at hspec
        exact absurd hroom hspec
      | ok r =>
        obtain ⟨r, s'⟩ := r
        rw [hlook] at hspec
        obtain ⟨ip, rfl, hdev, hinum, -⟩ := hspec
        exact ⟨ip, s', rfl, hdev, hinum⟩
    · intro t helse
      have hj' : t.table dp j = some (key name, i) := helse.table ▸ hj
      obtain ⟨s', hrun, -⟩ := helse.dir.eraseDirent_eq (lt_entries_of_table hj')
      exact ⟨s', hrun⟩
  · intro name inum hm
    have hspec := @Dir.dirlink_new s dp inum name h.dir (h.holds.of_none hm)
    cases hcall : dirlink dp name inum s with
    | error e =>
      rw [hcall] at hspec
      exact ⟨nofun, fun hroom => absurd hroom hspec⟩
    | ok r =>
      obtain ⟨r, s'⟩ := r
      rw [hcall] at hspec
      obtain ⟨rfl, -⟩ := hspec
      exact ⟨nofun, fun _ => ⟨s', rfl⟩⟩
  · intro name inum i hm
    obtain ⟨j, hj⟩ := (h.holds _ _).mp hm
    have hspec := @Dir.dirlink_refused s dp inum j name h.dir h.distinct i hj
    cases hcall : dirlink dp name inum s with
    | error e =>
      rw [hcall] at hspec
      refine ⟨nofun, fun hroom hfree => iff_of_false nofun (not_not.mpr ?_)⟩
      rcases hspec with hself | hnot | ⟨ip, hip, hne, hlocked⟩
      · exact hself
      · exact absurd hroom hnot
      · rw [hfree ip hip hne] at hlocked
        cases hlocked
    | ok r =>
      obtain ⟨r, s'⟩ := r
      rw [hcall] at hspec
      obtain ⟨rfl, hne, hsame, -⟩ := hspec
      exact ⟨nofun, fun _ _ => iff_of_true ⟨s', rfl, hsame⟩ hne⟩
  · intro e s' k hstep hk
    have hnames := hstep.refines ⟨h.dir, h.distinct, holds_names h.distinct⟩
    rw [← hnames.holds.unique (holds_names hnames.distinct), DirEvent.apply_of_ne hk]

/-- A block with one entry: `.`, for inode 1. -/
def dotBlock : Block := Block.ofFn fun i => if i = 0 then 1 else if i = 2 then 46 else 0

/-- A directory of one block with one entry, locked by the caller. -/
def oneDir : State :=
  (sample T_DIR 1 fun _ => dotBlock).setInode 0
    { (sample T_DIR 1 fun _ => dotBlock).inode 0 with locked := true }

theorem oneDir_table (j : Nat) : oneDir.table 0 j = if j = 0 then some ([46], 1) else none := by
  by_cases hj : j < 32
  · have hall : ∀ j, j < 32 → oneDir.table 0 j = if j = 0 then some ([46], 1) else none := by
      decide +kernel
    exact hall j hj
  · have hentries : oneDir.entries 0 = 32 := by decide +kernel
    rw [State.table, hentries, if_neg hj, if_neg (by omega)]

theorem oneDir_dir : Dir oneDir 0 where
  wellFormed := by
    have hw : WellFormed (sample T_DIR 1 fun _ => dotBlock) 0 := sample_wellFormed (by decide) (by decide)
    exact hw.congr rfl rfl rfl (by rw [oneDir, State.inode_setInode]) (by rw [oneDir, State.inode_setInode])
  type := rfl
  whole := by decide +kernel
  slot := by decide
  locked := rfl
  ref := by decide
  alone := by
    intro ip _ href _ _
    by_contra hne
    rw [oneDir, State.inode_setInode_of_ne _ _ hne] at href
    have hzero : ((sample T_DIR 1 fun _ => dotBlock).inode ip).ref = 0 := if_neg hne
    omega

theorem oneDir_distinct : Slots.Distinct (oneDir.table 0) := by
  intro i j k v w hi hj
  rw [oneDir_table] at hi hj
  split_ifs at hi hj with hi0 hj0
  omega

/-- A second name is entered and found. -/
theorem directory_refines_map_second :
    ∃ s, dirlink 0 [97] 5 oneDir = .ok (true, s) ∧ ∃ j, s.table 0 j = some ([97], 5) := by
  have hdir := oneDir_dir
  have hd := oneDir_distinct
  have htable := oneDir_table
  have hentries : oneDir.entries 0 = 32 := by decide +kernel
  generalize oneDir = s0 at *
  have hnone : ∀ j v, s0.table 0 j ≠ some (key [97], v) := by
    intro j v h
    rw [htable] at h
    split_ifs at h
    have hkey := (Prod.mk.inj (Option.some.inj h)).1
    exact absurd hkey (by decide)
  have hspec := @Dir.dirlink_new s0 0 5 [97] hdir hnone
  cases hcall : dirlink 0 [97] 5 s0 with
  | error e =>
    rw [hcall] at hspec
    refine absurd (.inl ⟨1, by omega, ?_⟩) hspec
    rw [htable, if_neg (by decide)]
  | ok r =>
    obtain ⟨r, s⟩ := r
    rw [hcall] at hspec
    obtain ⟨rfl, -⟩ := hspec
    have hm : history (s0.names 0) [.linked [97] 5] (key [97]) = some 5 := by
      show update (s0.names 0) (key [97]) (some 5) (key [97]) = some 5
      exact update_self ..
    have hacts := directory_refines_map hdir hd
      (Run.single (.linked (by decide) (by decide) hcall))
    obtain ⟨j, hj, -⟩ := hacts.found [97] 5 hm
    exact ⟨s, rfl, j, hj⟩

/-- `dirlink` of `.`, which is there, does not return. -/
theorem dirlink_dot_hangs :
    Dir oneDir 0 ∧ Slots.Distinct (oneDir.table 0) ∧ oneDir.table 0 0 = some (key [46], 1) ∧
      dirlink 0 [46] 5 oneDir = .error .hang := by
  have hdir := oneDir_dir
  have hd := oneDir_distinct
  have htable := oneDir_table
  have hinum : (oneDir.inode 0).inum = 1 := rfl
  generalize oneDir = s0 at *
  have hj : s0.table 0 0 = some (key [46], 1) := by
    rw [htable, if_pos rfl]
    decide
  refine ⟨hdir, hd, hj, ?_⟩
  rw [← hinum] at hj
  exact hdir.dirlink_hangs hd hj

end runs

end Fs
end Xv6
