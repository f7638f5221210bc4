import Xv6.Fs.Model

/-!
# The free map and the allocator

`Sane` says that the super block in memory is the one on disk, that the areas of the disk
follow one another, and that the free map has every block before the data area as used.
In such a state `balloc` either takes a free block of the data area, marks it and zeroes it
(`Takes`), or stops because the map is full (`balloc_spec`).
-/

namespace Xv6
namespace Fs

open Lib Function

namespace State

/-- The data of a block has been changed and logged. -/
def write (s : State) (b : Nat) (data : Block) : State :=
  { s with disk := update s.disk b data, logged := s.logged ++ [b] }

/-- An in-memory inode has been changed. -/
def setInode (s : State) (ip : Nat) (i : Inode) : State :=
  { s with inode := update s.inode ip i }

/-- Does the free map have the block as used? -/
def used (s : State) (b : Nat) : Bool := bit (s.disk (s.sb.BBLOCK b)) (b % BPB)

@[simp] theorem sb_write (s : State) (b : Nat) (data : Block) : (s.write b data).sb = s.sb := rfl

@[simp] theorem busy_write (s : State) (b : Nat) (data : Block) :
    (s.write b data).busy = s.busy := rfl

@[simp] theorem inode_write (s : State) (b : Nat) (data : Block) :
    (s.write b data).inode = s.inode := rfl

theorem disk_write (s : State) (b : Nat) (data : Block) (x : Nat) :
    (s.write b data).disk x = if x = b then data else s.disk x := update_apply ..

@[simp] theorem sb_setInode (s : State) (ip : Nat) (i : Inode) : (s.setInode ip i).sb = s.sb := rfl

@[simp] theorem disk_setInode (s : State) (ip : Nat) (i : Inode) :
    (s.setInode ip i).disk = s.disk := rfl

@[simp] theorem busy_setInode (s : State) (ip : Nat) (i : Inode) :
    (s.setInode ip i).busy = s.busy := rfl

@[simp] theorem used_setInode (s : State) (ip : Nat) (i : Inode) :
    (s.setInode ip i).used = s.used := rfl

@[simp] theorem inode_setInode (s : State) (ip : Nat) (i : Inode) :
    (s.setInode ip i).inode ip = i := update_self ..

theorem inode_setInode_of_ne (s : State) {ip j : Nat} (i : Inode) (h : j ≠ ip) :
    (s.setInode ip i).inode j = s.inode j := update_of_ne h ..

end State

/-! ## Buffers -/

variable {b bi k : Nat}

/-- Releasing what was locked gives back the locks as they were. -/
theorem update_busy {busy : Nat → Bool} (h : busy b = false) :
    update (update busy b true) b false = busy := by
  rw [update_idem, ← h, update_eq_self]

variable {s : State}

/-- The idiom `bread`, change, `log_write`, `brelse`. -/
theorem rewrite_eq (g : Block → Block) (h : s.busy b = false) :
    (do
      let bp ← bread b
      store b (g bp)
      log_write b
      brelse b : FsM Unit) s = .ok ((), s.write b (g (s.disk b))) := by
  simp [bread, store, log_write, brelse, Exec.bind_apply, h, State.write, update_busy h]

theorem bzero_eq (h : s.busy b = false) :
    bzero b s = .ok ((), s.write b Block.zero) :=
  rewrite_eq (fun _ => Block.zero) h

theorem iupdate_eq {ip : Nat} (h : s.busy (s.sb.IBLOCK (s.inode ip).inum) = false) :
    iupdate ip s = .ok ((), s.write (s.sb.IBLOCK (s.inode ip).inum)
      (Dinode.write (s.disk (s.sb.IBLOCK (s.inode ip).inum)) ((s.inode ip).inum % IPB)
        (s.inode ip).toDinode)) :=
  rewrite_eq (fun bp => Dinode.write bp ((s.inode ip).inum % IPB) (s.inode ip).toDinode) h

/-! ## The areas of the disk -/

/-- The areas follow one another: super block, inodes, free map, data. -/
structure Layout (sb : Superblock) : Prop where
  super : 1 < sb.inodestart
  inodes : sb.inodestart + sb.ninodes / IPB < sb.bmapstart
  data : sb.datastart ≤ sb.size

/-- The block is in the data area. -/
def Superblock.Data (sb : Superblock) (b : Nat) : Prop := sb.datastart ≤ b ∧ b < sb.size

theorem BBLOCK_lt {sb : Superblock} (h : b < sb.size) : sb.BBLOCK b < sb.datastart := by
  have := Nat.div_le_div_right (c := BPB) (Nat.le_of_lt h)
  unfold Superblock.BBLOCK Superblock.datastart
  omega

theorem le_BBLOCK (sb : Superblock) (b : Nat) : sb.bmapstart ≤ sb.BBLOCK b := Nat.le_add_left ..

theorem IBLOCK_lt {sb : Superblock} (hl : Layout sb) {i : Nat} (h : i < sb.ninodes) :
    sb.IBLOCK i < sb.bmapstart := by
  have := Nat.div_le_div_right (c := IPB) (Nat.le_of_lt h)
  have := hl.inodes
  unfold Superblock.IBLOCK
  omega

theorem bmapstart_lt (sb : Superblock) : sb.bmapstart < sb.datastart :=
  Nat.lt_succ_of_le (Nat.le_add_right ..)

theorem Layout.one_lt {sb : Superblock} (hl : Layout sb) : 1 < sb.bmapstart := by
  have := Nat.lt_of_le_of_lt (Nat.le_add_right ..) hl.inodes
  exact Nat.lt_trans hl.super this

/-- The super block in memory is that of the disk, and everything before the data area is
marked as used. -/
structure Sane (s : State) : Prop where
  super : Superblock.read (s.disk 1) = s.sb
  layout : Layout s.sb
  reserved : ∀ b, b < s.sb.datastart → s.used b = true

/-- Only buffers of used data blocks are locked. -/
def Free (s : State) : Prop := ∀ b, s.busy b = true → s.sb.Data b ∧ s.used b = true

theorem Free.busy_of_lt (h : Free s) (hb : b < s.sb.datastart) :
    s.busy b = false := by
  cases hbusy : s.busy b with
  | false => rfl
  | true =>
    have := (h b hbusy).1.1
    omega

theorem Free.busy_of_unused (h : Free s) (hb : s.used b = false) :
    s.busy b = false := by
  cases hbusy : s.busy b with
  | false => rfl
  | true =>
    rw [(h b hbusy).2] at hb
    cases hb

/-! ## Allocation -/

/-- Block `b` has been allocated: it was free and is zeroed and marked now, and the rest of
the disk is as it was. -/
structure Takes (s s' : State) (b : Nat) : Prop where
  data : s.sb.Data b
  free : s.used b = false
  rest : s' = { s with disk := s'.disk, logged := s'.logged }
  used : ∀ x, x < s.sb.size → s'.used x = (decide (x = b) || s.used x)
  disk : ∀ x, x < s.sb.bmapstart ∨ s.sb.datastart ≤ x →
    s'.disk x = if x = b then Block.zero else s.disk x
  logged : s'.logged = s.logged ++ [s.sb.BBLOCK b, b]

/-- The state after `balloc` has taken block `b`. -/
def State.take (s : State) (b : Nat) : State :=
  (s.write (s.sb.BBLOCK b) (setBit (s.disk (s.sb.BBLOCK b)) (b % BPB))).write b Block.zero

theorem takes_take (hb : s.sb.Data b) (hfree : s.used b = false) :
    Takes s (s.take b) b where
  data := hb
  free := hfree
  rest := rfl
  used := by
    intro x hx
    have hxlt := BBLOCK_lt hx
    have hne : s.sb.BBLOCK x ≠ b := by
      have := hb.1
      omega
    have hmod : x % BPB < BPB := Nat.mod_lt _ (by decide)
    show bit ((s.take b).disk (s.sb.BBLOCK x)) (x % BPB) = _
    rw [State.take, State.disk_write, if_neg hne, State.disk_write]
    by_cases hsame : s.sb.BBLOCK x = s.sb.BBLOCK b
    · -- the same block of the map: the bits differ unless the blocks are the same
      have hdiv : x / BPB = b / BPB := Nat.add_right_cancel hsame
      have hiff : x % BPB = b % BPB ↔ x = b := by
        constructor
        · intro h
          rw [← Nat.div_add_mod x BPB, ← Nat.div_add_mod b BPB, hdiv, h]
        · exact fun h => h ▸ rfl
      rw [if_pos hsame, bit_setBit hmod, ← hsame, decide_eq_decide.mpr hiff]
      rfl
    · have hxb : x ≠ b := fun h => hsame (h ▸ rfl)
      rw [if_neg hsame]
      simp [hxb, State.used]
  disk := by
    intro x hx
    have hne : x ≠ s.sb.BBLOCK b := by
      have := BBLOCK_lt hb.2
      have := le_BBLOCK s.sb b
      omega
    rw [State.take, State.disk_write, State.disk_write, if_neg hne]
  logged := List.append_assoc ..

/-- The inner loop of `balloc`: the first block with a clear bit in one block of the map. -/
theorem find_clear {bp : Block} {n : Nat}
    (h : (List.range n).find? (fun bi => !bit bp bi) = some bi) : bi < n ∧ bit bp bi = false :=
  ⟨List.mem_range.mp (List.mem_of_find?_eq_some h), by simpa using List.find?_some h⟩

/-- A block of the map with a clear bit: the block is taken. -/
theorem ballocFrom_some (hmap : s.busy (s.sb.BBLOCK b) = false) (hbusy : s.busy (b + bi) = false)
    (hfind : (List.range (min BPB (s.sb.size - b))).find?
      (fun bi => !bit (s.disk (s.sb.BBLOCK b)) bi) = some bi) :
    ballocFrom (k + 1) b s = .ok (b + bi,
      (s.write (s.sb.BBLOCK b) (setBit (s.disk (s.sb.BBLOCK b)) bi)).write (b + bi)
        Block.zero) := by
  have hzero := bzero_eq (b := b + bi)
    (s := s.write (s.sb.BBLOCK b) (setBit (s.disk (s.sb.BBLOCK b)) bi)) hbusy
  simp only [State.write] at hzero
  simp [ballocFrom, bread, store, log_write, brelse, Exec.bind_apply, hmap, hfind,
    update_busy hmap, State.write, hzero]

/-- A full block of the map: the search goes on behind it. -/
theorem ballocFrom_none (hmap : s.busy (s.sb.BBLOCK b) = false)
    (hfind : (List.range (min BPB (s.sb.size - b))).find?
      (fun bi => !bit (s.disk (s.sb.BBLOCK b)) bi) = none) :
    ballocFrom (k + 1) b s = ballocFrom k (b + BPB) s := by
  simp only [ballocFrom, bread, brelse, Exec.bind_apply, Exec.get_apply, hmap, hfind,
    update_self, update_busy hmap, if_true, Bool.false_eq_true, if_false]

/-- Bit `bi` of the `j`-th block of the map is that of block `j * BPB + bi`. -/
theorem used_add {j : Nat} (hbi : bi < BPB) :
    s.sb.BBLOCK (j * BPB + bi) = s.sb.BBLOCK (j * BPB) ∧
      s.used (j * BPB + bi) = bit (s.disk (s.sb.BBLOCK (j * BPB))) bi ∧
      (j * BPB + bi) % BPB = bi := by
  have hpos : 0 < BPB := by decide
  unfold State.used Superblock.BBLOCK
  rw [Nat.mul_comm j, Nat.mul_add_div hpos, Nat.mul_add_mod, Nat.div_eq_of_lt hbi,
    Nat.mod_eq_of_lt hbi, Nat.mul_div_cancel_left _ hpos, Nat.add_zero]
  exact ⟨rfl, rfl, rfl⟩

/-- What `balloc` does from the `j`-th block of the map on. -/
theorem ballocFrom_spec (hs : Sane s) (hf : Free s) {j : Nat}
    (hk : s.sb.size ≤ (j + k) * BPB) (hj : k = 0 ∨ (j + k - 1) * BPB < s.sb.size) :
    match ballocFrom k (j * BPB) s with
    | .ok (b, s') => Takes s s' b
    | .error e => e = .balloc ∧ ∀ b, j * BPB ≤ b → b < s.sb.size → s.used b = true := by
  induction k generalizing j with
  | zero =>
    refine ⟨rfl, fun b hlo hhi => ?_⟩
    rw [Nat.add_zero] at hk
    omega
  | succ k ih =>
    have hlt : j * BPB < s.sb.size := by
      refine Nat.lt_of_le_of_lt (Nat.mul_le_mul_right _ ?_) (hj.resolve_left (by omega))
      omega
    have hmap := hf.busy_of_lt (BBLOCK_lt hlt)
    cases hfind : (List.range (min BPB (s.sb.size - j * BPB))).find?
        fun bi => !bit (s.disk (s.sb.BBLOCK (j * BPB))) bi with
    | some bi =>
      obtain ⟨hbi, hclear⟩ := find_clear hfind
      obtain ⟨hblock, hused, hmod⟩ := used_add (s := s) (j := j) (show bi < BPB by omega)
      have hunused : s.used (j * BPB + bi) = false := hused.trans hclear
      have hdata : s.sb.Data (j * BPB + bi) := by
        refine ⟨?_, by omega⟩
        by_contra hlow
        rw [hs.reserved _ (Nat.lt_of_not_le hlow)] at hunused
        cases hunused
      have htake := takes_take hdata hunused
      rw [State.take, hblock, hmod] at htake
      rw [ballocFrom_some hmap (hf.busy_of_unused hunused) hfind]
      exact htake
    | none =>
      rw [ballocFrom_none hmap hfind, ← Nat.succ_mul]
      have hrest := ih (j := j + 1) (by rw [Nat.add_right_comm]; exact hk) (by
        rcases Nat.eq_zero_or_pos k with h | h
        · exact .inl h
        · exact .inr (by
            rw [show j + 1 + k - 1 = j + (k + 1) - 1 by omega]
            exact hj.resolve_left (by omega)))
      revert hrest
      cases ballocFrom k ((j + 1) * BPB) s with
      | ok r => exact id
      | error e =>
        rintro ⟨rfl, hall⟩
        refine ⟨rfl, fun b hlo hhi => ?_⟩
        by_cases hb : (j + 1) * BPB ≤ b
        · exact hall b hb hhi
        · -- the bit of `b` is in the block just searched
          rw [Nat.succ_mul] at hb
          obtain ⟨bi, rfl⟩ := Nat.exists_eq_add_of_le hlo
          rw [(used_add (s := s) (j := j) (show bi < BPB by omega)).2.1]
          have := List.find?_eq_none.mp hfind bi (List.mem_range.mpr (by omega))
          simpa using this

/-- `balloc` takes a free block, or stops when there is none. -/
theorem balloc_spec (hs : Sane s) (hf : Free s) :
    match balloc s with
    | .ok (b, s') => Takes s s' b
    | .error e => e = .balloc ∧ ∀ b, b < s.sb.size → s.used b = true := by
  have hsize : 0 < s.sb.size := by
    have := hs.layout.data
    have := bmapstart_lt s.sb
    omega
  have h := ballocFrom_spec hs hf (k := (s.sb.size + BPB - 1) / BPB) (j := 0)
    (by simp only [BPB, BSIZE]; omega) (.inr (by simp only [BPB, BSIZE]; omega))
  rw [Nat.zero_mul] at h
  show match ballocFrom ((s.sb.size + BPB - 1) / BPB) 0 s with
    | .ok (b, s') => Takes s s' b
    | .error e => e = .balloc ∧ ∀ b, b < s.sb.size → s.used b = true
  revert h
  cases ballocFrom ((s.sb.size + BPB - 1) / BPB) 0 s with
  | ok r => exact id
  | error e => exact fun h => ⟨h.1, fun b => h.2 b (Nat.zero_le b)⟩

namespace Takes

variable {s s' : State} {b : Nat}

theorem sb (h : Takes s s' b) : s'.sb = s.sb := by rw [h.rest]

theorem inode (h : Takes s s' b) : s'.inode = s.inode := by rw [h.rest]

theorem busy (h : Takes s s' b) : s'.busy = s.busy := by rw [h.rest]

end Takes

/-! ## Counting free blocks -/

/-- How many blocks the free map has as free. -/
def State.freeCount (s : State) : Nat :=
  ((Finset.range s.sb.size).filter fun b => s.used b = false).card

theorem freeCount_eq_zero (h : ∀ b, b < s.sb.size → s.used b = true) :
    s.freeCount = 0 := by
  rw [State.freeCount, Finset.card_eq_zero, Finset.filter_eq_empty_iff]
  intro b hb
  rw [h b (Finset.mem_range.mp hb)]
  decide

/-- Marking one free block leaves one less. -/
theorem freeCount_mark {s' : State} (hsb : s'.sb = s.sb) (hb : b < s.sb.size)
    (hfree : s.used b = false)
    (hused : ∀ x, x < s.sb.size → s'.used x = (decide (x = b) || s.used x)) :
    s'.freeCount + 1 = s.freeCount := by
  have hset : ((Finset.range s'.sb.size).filter fun x => s'.used x = false) =
      ((Finset.range s.sb.size).filter fun x => s.used x = false).erase b := by
    ext x
    rw [Finset.mem_erase, Finset.mem_filter, Finset.mem_filter, Finset.mem_range, Finset.mem_range, hsb]
    constructor
    · rintro ⟨hx, hx'⟩
      rw [hused x hx, Bool.or_eq_false_iff] at hx'
      exact ⟨of_decide_eq_false hx'.1, hx, hx'.2⟩
    · rintro ⟨hxb, hx, hx'⟩
      exact ⟨hx, by rw [hused x hx, hx', decide_eq_false hxb]; rfl⟩
  have hmem : b ∈ (Finset.range s.sb.size).filter fun x => s.used x = false := by
    rw [Finset.mem_filter, Finset.mem_range]
    exact ⟨hb, hfree⟩
  rw [State.freeCount, State.freeCount, hset]
  exact Finset.card_erase_add_one hmem

end Fs
end Xv6
