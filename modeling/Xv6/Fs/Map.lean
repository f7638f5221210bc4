import Xv6.Fs.Alloc

/-!
# The blocks of an inode

`entry` gives the block numbers an inode holds: those of the data blocks in the order of the
file and, as entry `MAXFILE`, that of the indirect block.  In a well-formed inode (`Maps`)
the data blocks come without holes and every block belongs to the inode alone and is marked
as used.  `bmap_spec` says that `bmap` finds a block of the file or appends a zeroed one and
keeps the inode well formed; `Grow` says what it leaves alone.
-/

namespace Xv6
namespace Fs

open Lib Lib.Exec Function

/-- The block number in entry `k`: a data block, or the indirect block for `k = MAXFILE`. -/
def Dinode.entry (d : Dinode) (disk : Nat → Block) (k : Nat) : Nat :=
  if h : k < NDIRECT then
    d.addrs ⟨k, Nat.lt_succ_of_lt h⟩
  else if k = MAXFILE then
    d.addrs (Fin.last NDIRECT)
  else if d.addrs (Fin.last NDIRECT) = 0 then
    0
  else
    (disk (d.addrs (Fin.last NDIRECT))).word (k - NDIRECT)

/-- The block number in entry `k` of a cached inode. -/
def State.entry (s : State) (ip k : Nat) : Nat := (s.inode ip).entry s.disk k

/-- The inode holds block `x`. -/
def State.Owned (s : State) (ip x : Nat) : Prop := x ≠ 0 ∧ ∃ k, k ≤ MAXFILE ∧ s.entry ip k = x

section entry

variable {s : State} {ip k : Nat}

theorem entry_direct (h : k < NDIRECT) :
    s.entry ip k = (s.inode ip).addrs ⟨k, Nat.lt_succ_of_lt h⟩ := by
  rw [State.entry, Dinode.entry, dif_pos h]

theorem entry_last : s.entry ip MAXFILE = (s.inode ip).addrs (Fin.last NDIRECT) := by
  rw [State.entry, Dinode.entry, dif_neg (by decide), if_pos rfl]

theorem entry_indirect (hlo : NDIRECT ≤ k) (hhi : k < MAXFILE) :
    s.entry ip k = if s.entry ip MAXFILE = 0 then 0
      else (s.disk (s.entry ip MAXFILE)).word (k - NDIRECT) := by
  rw [entry_last, State.entry, Dinode.entry, dif_neg (Nat.not_lt.mpr hlo), if_neg (Nat.ne_of_lt hhi)]

end entry

/-! ## Well-formed inodes -/

/-- Every block of the inode is a used data block and stands in one entry only. -/
structure Owns (s : State) (ip : Nat) : Prop where
  owned : ∀ k, k ≤ MAXFILE → s.entry ip k ≠ 0 →
    s.sb.Data (s.entry ip k) ∧ s.used (s.entry ip k) = true
  once : ∀ j k, j ≤ MAXFILE → k ≤ MAXFILE → s.entry ip j = s.entry ip k → s.entry ip j ≠ 0 → j = k

/-- The first `nb` blocks of the file are there, and no others. -/
structure Maps (s : State) (ip nb : Nat) : Prop extends Owns s ip where
  bound : nb ≤ MAXFILE
  filled : ∀ k, k < MAXFILE → (s.entry ip k ≠ 0 ↔ k < nb)
  indirect : s.entry ip MAXFILE ≠ 0 ↔ NDIRECT < nb

/-- What `bmap` on inode `ip` leaves alone: all but blocks of the free map, free blocks, and
the blocks and addresses of the inode. -/
structure Grow (ip : Nat) (s s' : State) : Prop where
  rest : s' = { s with disk := s'.disk, inode := s'.inode, logged := s'.logged }
  others : ∀ j, j ≠ ip → s'.inode j = s.inode j
  same : s'.inode ip = { s.inode ip with addrs := (s'.inode ip).addrs }
  used : ∀ x, x < s.sb.size → s.used x = true → s'.used x = true
  low : ∀ x, x < s.sb.bmapstart → s'.disk x = s.disk x
  foreign : ∀ x, s.sb.Data x → s.used x = true → ¬s.Owned ip x → s'.disk x = s.disk x
  fresh : ∀ x, s.sb.Data x → s.used x = true → s'.Owned ip x → s.Owned ip x

namespace Grow

variable {ip : Nat} {s s' s'' : State}

theorem sb (h : Grow ip s s') : s'.sb = s.sb := by rw [h.rest]

theorem busy (h : Grow ip s s') : s'.busy = s.busy := by rw [h.rest]

theorem refl (ip : Nat) (s : State) : Grow ip s s where
  rest := rfl
  others := fun _ _ => rfl
  same := rfl
  used := fun _ _ h => h
  low := fun _ _ => rfl
  foreign := fun _ _ _ _ => rfl
  fresh := fun _ _ _ h => h

theorem trans (h : Grow ip s s') (h' : Grow ip s' s'') : Grow ip s s'' where
  rest := by
    rw [h'.rest, h.rest]
  others := fun j hj => (h'.others j hj).trans (h.others j hj)
  same := by
    rw [h'.same, h.same]
  used := fun x hx hu => h'.used x (h.sb ▸ hx) (h.used x hx hu)
  low := fun x hx => (h'.low x (h.sb ▸ hx)).trans (h.low x hx)
  foreign := by
    intro x hx hu ho
    -- a block of another owner is not among those the inode has got in between
    have ho' : ¬s'.Owned ip x := fun hown => ho (h.fresh x hx hu hown)
    exact (h'.foreign x (h.sb ▸ hx) (h.used x hx.2 hu) ho').trans (h.foreign x hx hu ho)
  fresh := fun x hx hu ho =>
    h.fresh x hx hu (h'.fresh x (h.sb ▸ hx) (h.used x hx.2 hu) ho)

end Grow

/-! ## One more block -/

/-- Entry `k0` of the inode, which was empty, has got block `b`, which was free.  Of the other
blocks only the indirect block may have changed. -/
structure Gains (ip k0 b : Nat) (s s' : State) : Prop where
  data : s.sb.Data b
  free : s.used b = false
  rest : s' = { s with disk := s'.disk, inode := s'.inode, logged := s'.logged }
  others : ∀ j, j ≠ ip → s'.inode j = s.inode j
  same : s'.inode ip = { s.inode ip with addrs := (s'.inode ip).addrs }
  used : ∀ x, x < s.sb.size → s'.used x = (decide (x = b) || s.used x)
  entry : ∀ k, k ≤ MAXFILE → s'.entry ip k = if k = k0 then b else s.entry ip k
  low : ∀ x, x < s.sb.bmapstart → s'.disk x = s.disk x
  zero : s'.disk b = Block.zero
  disk : ∀ x, s.sb.datastart ≤ x → x ≠ b → x ≠ s.entry ip MAXFILE → s'.disk x = s.disk x
  logged : ∀ x ∈ s'.logged, x ∈ s.logged ∨ x = s.sb.BBLOCK b ∨
    x ≠ 0 ∧ (s'.entry ip k0 = x ∨ s'.entry ip MAXFILE = x)

namespace Gains

variable {ip k0 b : Nat} {s s' : State}

theorem sb (h : Gains ip k0 b s s') : s'.sb = s.sb := by rw [h.rest]

theorem busy (h : Gains ip k0 b s s') : s'.busy = s.busy := by rw [h.rest]

theorem ne_zero (h : Gains ip k0 b s s') : b ≠ 0 := by
  have := h.data.1
  have := bmapstart_lt s.sb
  omega

theorem ne_of_used (h : Gains ip k0 b s s') {x : Nat} (hx : s.used x = true) : x ≠ b := by
  rintro rfl
  rw [h.free] at hx
  cases hx

theorem used_of_used (h : Gains ip k0 b s s') {x : Nat} (hx : x < s.sb.size)
    (hu : s.used x = true) : s'.used x = true := by
  rw [h.used x hx, hu, Bool.or_true]

theorem sane (h : Gains ip k0 b s s') (hs : Sane s) : Sane s' where
  super := by
    rw [h.low 1 hs.layout.one_lt, h.sb]
    exact hs.super
  layout := h.sb ▸ hs.layout
  reserved := by
    intro x hx
    rw [h.sb] at hx
    exact h.used_of_used (hx.trans_le hs.layout.data) (hs.reserved x hx)

theorem owns (h : Gains ip k0 b s s') (ho : Owns s ip) : Owns s' ip where
  owned := by
    intro k hk hne
    rw [h.entry k hk] at hne ⊢
    rw [h.sb]
    by_cases hk0 : k = k0
    · rw [if_pos hk0]
      exact ⟨h.data, by rw [h.used b h.data.2]; simp⟩
    · rw [if_neg hk0] at hne ⊢
      obtain ⟨hdata, hused⟩ := ho.owned k hk hne
      exact ⟨hdata, h.used_of_used hdata.2 hused⟩
  once := by
    intro j k hj hk heq hne
    rw [h.entry j hj] at heq hne
    rw [h.entry k hk] at heq
    -- the new block is free and so in none of the other entries
    have hnew : ∀ i, i ≤ MAXFILE → s.entry ip i ≠ b := by
      intro i hi hib
      have hne : s.entry ip i ≠ 0 := hib ▸ h.ne_zero
      exact h.ne_of_used (ho.owned i hi hne).2 hib
    by_cases hj0 : j = k0
    · by_cases hk0 : k = k0
      · exact hj0.trans hk0.symm
      · rw [if_pos hj0, if_neg hk0] at heq
        exact absurd heq.symm (hnew k hk)
    · rw [if_neg hj0] at heq hne
      by_cases hk0 : k = k0
      · rw [if_pos hk0] at heq
        exact absurd heq (hnew j hj)
      · rw [if_neg hk0] at heq
        exact ho.once j k hj hk heq hne

theorem grow (h : Gains ip k0 b s s') : Grow ip s s' where
  rest := h.rest
  others := h.others
  same := h.same
  used := fun _ hx hu => h.used_of_used hx hu
  low := h.low
  foreign := by
    intro x hx hu ho
    refine h.disk x hx.1 (h.ne_of_used hu) fun hxe => ho ⟨?_, MAXFILE, Nat.le_refl _, hxe.symm⟩
    have := hx.1
    have := bmapstart_lt s.sb
    omega
  fresh := by
    rintro x hx hu ⟨hne, k, hk, rfl⟩
    refine ⟨hne, k, hk, ?_⟩
    have hxb := h.ne_of_used hu
    rw [h.entry k hk] at hxb ⊢
    by_cases hk0 : k = k0
    · rw [if_pos hk0] at hxb
      exact absurd rfl hxb
    · rw [if_neg hk0]

/-- The entries that were there stay. -/
theorem kept (h : Gains ip k0 b s s') (h0 : s.entry ip k0 = 0) {k : Nat} (hk : k ≤ MAXFILE)
    (hne : s.entry ip k ≠ 0) : s'.entry ip k = s.entry ip k := by
  rw [h.entry k hk, if_neg]
  rintro rfl
  exact hne h0

/-- The blocks of the file that were there keep their place and their data. -/
theorem keeps (h : Gains ip k0 b s s') (ho : Owns s ip) (h0 : s.entry ip k0 = 0) {k : Nat}
    (hk : k < MAXFILE) (hne : s.entry ip k ≠ 0) :
    s'.entry ip k = s.entry ip k ∧ s'.disk (s.entry ip k) = s.disk (s.entry ip k) := by
  have hk0 : k ≠ k0 := by
    rintro rfl
    exact hne h0
  obtain ⟨hdata, hused⟩ := ho.owned k (Nat.le_of_lt hk) hne
  refine ⟨by rw [h.entry k (Nat.le_of_lt hk), if_neg hk0], ?_⟩
  refine h.disk _ hdata.1 (h.ne_of_used hused) fun heq => ?_
  have := ho.once k MAXFILE (Nat.le_of_lt hk) le_rfl heq hne
  omega

end Gains

/-! ## The allocating parts of `bmap` -/

section gains

variable {s t : State} {ip a : Nat}

/-- The state with address `j` of the inode set. -/
def State.setAddr (t : State) (ip : Nat) (j : Fin (NDIRECT + 1)) (a : Nat) : State :=
  t.setInode ip { t.inode ip with addrs := update (t.inode ip).addrs j a }

theorem addrs_setAddr (j i : Fin (NDIRECT + 1)) :
    ((t.setAddr ip j a).inode ip).addrs i = if i = j then a else (t.inode ip).addrs i := by
  rw [State.setAddr, State.inode_setInode]
  exact update_apply ..

theorem Takes.ne_zero (ht : Takes s t a) : a ≠ 0 := by
  have := ht.data.1
  have := bmapstart_lt s.sb
  omega

/-- What both address slots have in common. -/
theorem gains_setAddr {k0 : Nat} {j : Fin (NDIRECT + 1)} (ht : Takes s t a) (hk0 : k0 ≤ MAXFILE)
    (hentry : ∀ k, k ≤ MAXFILE →
      (t.setAddr ip j a).entry ip k = if k = k0 then a else s.entry ip k) :
    Gains ip k0 a s (t.setAddr ip j a) where
  data := ht.data
  free := ht.free
  rest := by
    rw [State.setAddr, ht.rest]
    rfl
  others := fun i hi => by
    rw [State.setAddr, State.inode_setInode_of_ne _ _ hi, ht.inode]
  same := by
    rw [State.setAddr, State.inode_setInode, ht.inode]
  used := ht.used
  entry := hentry
  low := fun x hx => by
    have hne : x ≠ a := by
      have := ht.data.1
      have := bmapstart_lt s.sb
      omega
    exact (ht.disk x (.inl hx)).trans (if_neg hne)
  zero := (ht.disk a (.inr ht.data.1)).trans (if_pos rfl)
  disk := fun x hx hne _ => (ht.disk x (.inr hx)).trans (if_neg hne)
  logged := by
    intro x hx
    have hmem : x ∈ s.logged ++ [s.sb.BBLOCK a, a] := ht.logged ▸ hx
    simp only [List.mem_append, List.mem_cons, List.not_mem_nil, or_false] at hmem
    refine hmem.imp_right fun h => h.imp_right ?_
    rintro rfl
    exact ⟨ht.ne_zero, .inl ((hentry k0 hk0).trans (if_pos rfl))⟩

/-- A direct slot gets a block. -/
theorem gains_direct {bn : Nat} (ho : Owns s ip) (ht : Takes s t a) (hbn : bn < NDIRECT) :
    Gains ip bn a s (t.setAddr ip ⟨bn, Nat.lt_succ_of_lt hbn⟩ a) := by
  have hmax : bn ≠ MAXFILE := Nat.ne_of_lt (hbn.trans_le (by decide))
  have hlast : (t.setAddr ip ⟨bn, Nat.lt_succ_of_lt hbn⟩ a).entry ip MAXFILE = s.entry ip MAXFILE := by
    rw [entry_last, entry_last, addrs_setAddr, ht.inode, if_neg]
    intro h
    have := congrArg Fin.val h
    simp only [Fin.val_last] at this
    omega
  refine gains_setAddr ht (Nat.le_of_lt (hbn.trans_le (by decide))) fun k hk => ?_
  by_cases hdirect : k < NDIRECT
  · rw [entry_direct hdirect, entry_direct hdirect, addrs_setAddr, ht.inode]
    simp only [Fin.mk.injEq]
  · have hk0 : k ≠ bn := by omega
    rw [if_neg hk0]
    by_cases hkmax : k = MAXFILE
    · rw [hkmax, hlast]
    · have hlt : k < MAXFILE := Nat.lt_of_le_of_ne hk hkmax
      rw [entry_indirect (Nat.le_of_not_lt hdirect) hlt,
        entry_indirect (Nat.le_of_not_lt hdirect) hlt, hlast]
      split
      · rfl
      · next hne =>
        -- the indirect block is used, so it is not the block just taken
        obtain ⟨hdata, hused⟩ := ho.owned MAXFILE le_rfl hne
        have hdisk := ht.disk _ (.inr hdata.1)
        rw [if_neg (fun h => by rw [h, ht.free] at hused; cases hused)] at hdisk
        exact congrArg (fun b => Block.word b (k - NDIRECT)) hdisk

/-- The indirect slot gets a block; its entries are empty. -/
theorem gains_last (ht : Takes s t a) (hzero : s.entry ip MAXFILE = 0) :
    Gains ip MAXFILE a s (t.setAddr ip (Fin.last NDIRECT) a) := by
  have hlast : (t.setAddr ip (Fin.last NDIRECT) a).entry ip MAXFILE = a := by
    rw [entry_last, addrs_setAddr, if_pos rfl]
  refine gains_setAddr ht le_rfl fun k hk => ?_
  by_cases hdirect : k < NDIRECT
  · have hne : (⟨k, Nat.lt_succ_of_lt hdirect⟩ : Fin (NDIRECT + 1)) ≠ Fin.last NDIRECT := by
      intro h
      have := congrArg Fin.val h
      simp only [Fin.val_last] at this
      omega
    have hk0 : k ≠ MAXFILE := Nat.ne_of_lt (hdirect.trans_le (by decide))
    rw [entry_direct hdirect, entry_direct hdirect, addrs_setAddr, ht.inode, if_neg hne, if_neg hk0]
  · by_cases hkmax : k = MAXFILE
    · rw [hkmax, hlast, if_pos rfl]
    · have hlt : k < MAXFILE := Nat.lt_of_le_of_ne hk hkmax
      have hblock : (t.setAddr ip (Fin.last NDIRECT) a).disk a = Block.zero :=
        (ht.disk a (.inr ht.data.1)).trans (if_pos rfl)
      rw [if_neg hkmax, entry_indirect (Nat.le_of_not_lt hdirect) hlt,
        entry_indirect (Nat.le_of_not_lt hdirect) hlt, hlast, hzero, hblock, Block.word_zero]
      simp

/-- A slot of the indirect block gets a block. -/
theorem gains_entry {ind k0 : Nat} (hs : Sane s) (ho : Owns s ip) (ht : Takes s t a)
    (hind : s.entry ip MAXFILE = ind) (hne : ind ≠ 0) (hlo : NDIRECT ≤ k0) (hhi : k0 < MAXFILE) :
    Gains ip k0 a s (t.write ind ((s.disk ind).setWord (k0 - NDIRECT) a)) := by
  obtain ⟨hdata, hused⟩ := ho.owned MAXFILE le_rfl (hind ▸ hne)
  rw [hind] at hdata hused
  have hia : ind ≠ a := by
    rintro rfl
    rw [ht.free] at hused
    cases hused
  have hlow := bmapstart_lt s.sb
  have hdisk : ∀ x, (t.write ind ((s.disk ind).setWord (k0 - NDIRECT) a)).disk x =
      if x = ind then (s.disk ind).setWord (k0 - NDIRECT) a else t.disk x := State.disk_write _ _ _
  have hlast : (t.write ind ((s.disk ind).setWord (k0 - NDIRECT) a)).entry ip MAXFILE = ind := by
    rw [entry_last, State.inode_write, ht.inode, ← entry_last, hind]
  have hentry : ∀ k, k ≤ MAXFILE →
      (t.write ind ((s.disk ind).setWord (k0 - NDIRECT) a)).entry ip k =
        if k = k0 then a else s.entry ip k := by
    intro k hk
    by_cases hdirect : k < NDIRECT
    · rw [entry_direct hdirect, entry_direct hdirect, State.inode_write, ht.inode,
        if_neg (by omega)]
    · by_cases hkmax : k = MAXFILE
      · rw [hkmax, hlast, hind, if_neg (by omega)]
      · have hlt : k < MAXFILE := Nat.lt_of_le_of_ne hk hkmax
        rw [entry_indirect (Nat.le_of_not_lt hdirect) hlt,
          entry_indirect (Nat.le_of_not_lt hdirect) hlt, hlast, hind, if_neg hne, if_neg hne,
          hdisk, if_pos rfl]
        by_cases hk0 : k = k0
        · have hsmall : a < 2 ^ 32 := by
            refine Nat.lt_trans ht.data.2 ?_
            rw [← hs.super]
            exact Block.word_lt _ _
          have hidx : k0 - NDIRECT < 128 := by
            simp only [MAXFILE, NINDIRECT] at hhi
            omega
          rw [if_pos hk0, hk0, Block.word_setWord_self _ _ hidx, Nat.mod_eq_of_lt hsmall]
        · rw [if_neg hk0, Block.word_setWord_of_ne _ _ (by omega)]
  exact
    { data := ht.data
      free := ht.free
      rest := by
        rw [ht.rest]
        rfl
      others := fun i _ => congrFun ht.inode i
      same := by
        rw [State.inode_write, ht.inode]
      used := by
        intro x hx
        have hmap := BBLOCK_lt hx
        rw [← ht.used x hx]
        show bit ((t.write ind _).disk (t.sb.BBLOCK x)) (x % BPB) = _
        rw [ht.sb, hdisk, if_neg (by have := hdata.1; omega), ← ht.sb]
        rfl
      entry := hentry
      low := by
        intro x hx
        have h1 := hdata.1
        have h2 := ht.data.1
        rw [hdisk, if_neg (by omega), ht.disk x (.inl hx), if_neg (by omega)]
      zero := by
        rw [hdisk, if_neg hia.symm, ht.disk a (.inr ht.data.1), if_pos rfl]
      disk := by
        intro x hx hxa hxi
        rw [hdisk, if_neg (hind ▸ hxi), ht.disk x (.inr hx), if_neg hxa]
      logged := by
        intro x hx
        have hmem : x ∈ (s.logged ++ [s.sb.BBLOCK a, a]) ++ [ind] := ht.logged ▸ hx
        simp only [List.mem_append, List.mem_cons, List.not_mem_nil, or_false] at hmem
        rcases hmem with (hold | rfl | rfl) | rfl
        · exact .inl hold
        · exact .inr (.inl rfl)
        · exact .inr (.inr ⟨ht.ne_zero, .inl ((hentry k0 (Nat.le_of_lt hhi)).trans (if_pos rfl))⟩)
        · exact .inr (.inr ⟨hne, .inr hlast⟩) }

end gains

/-! ## `bmap` -/

section bmap

variable {s : State} {ip : Nat}

theorem addrAt_spec (hs : Sane s) (hf : Free s) (j : Fin (NDIRECT + 1)) :
    match addrAt ip j s with
    | .ok (a, s') =>
      (a = (s.inode ip).addrs j ∧ a ≠ 0 ∧ s' = s) ∨
      ((s.inode ip).addrs j = 0 ∧ ∃ t, Takes s t a ∧ s' = t.setAddr ip j a)
    | .error e => e = .balloc ∧ (s.inode ip).addrs j = 0 ∧ s.freeCount = 0 := by
  have hinode : inode ip s = .ok (s.inode ip, s) := rfl
  unfold addrAt
  rw [bind_of_ok hinode]
  by_cases hzero : (s.inode ip).addrs j = 0
  · rw [if_pos hzero]
    have hspec := balloc_spec hs hf
    cases hb : balloc s with
    | error e =>
      rw [hb] at hspec
      rw [bind_of_error hb]
      exact ⟨hspec.1, hzero, freeCount_eq_zero hspec.2⟩
    | ok r =>
      obtain ⟨a, t⟩ := r
      rw [hb] at hspec
      rw [bind_of_ok hb]
      exact .inr ⟨hzero, t, hspec, rfl⟩
  · rw [if_neg hzero]
    exact .inl ⟨rfl, hzero, rfl⟩

theorem entryAt_spec {ind k : Nat} (hs : Sane s) (hf : Free s) (hdata : s.sb.Data ind)
    (hused : s.used ind = true) (hbusy : s.busy ind = false) :
    match entryAt ind k s with
    | .ok (a, s') =>
      (a = (s.disk ind).word k ∧ a ≠ 0 ∧ s' = s) ∨
      ((s.disk ind).word k = 0 ∧ ∃ t, Takes s t a ∧ s' = t.write ind ((s.disk ind).setWord k a))
    | .error e => e = .balloc ∧ (s.disk ind).word k = 0 ∧ s.freeCount = 0 := by
  -- the allocator runs while the buffer of the indirect block is locked
  let s1 : State := { s with busy := update s.busy ind true }
  have hread : bread ind s = .ok (s.disk ind, s1) := by
    simp [bread, hbusy, s1]
  have hf1 : Free s1 := by
    intro x hx
    by_cases hxi : x = ind
    · exact hxi ▸ ⟨hdata, hused⟩
    · exact hf x (by simpa [s1, hxi] using hx)
  have hs1 : Sane s1 := ⟨hs.super, hs.layout, hs.reserved⟩
  unfold entryAt
  rw [bind_of_ok hread]
  by_cases hzero : (s.disk ind).word k = 0
  · rw [if_pos hzero]
    have hspec := balloc_spec hs1 hf1
    cases hb : balloc s1 with
    | error e =>
      rw [hb] at hspec
      rw [bind_of_error hb]
      exact ⟨hspec.1, hzero, freeCount_eq_zero hspec.2⟩
    | ok r =>
      obtain ⟨a, t1⟩ := r
      rw [hb] at hspec
      rw [bind_of_ok hb]
      have hlocked : t1.busy ind = true := by
        rw [hspec.busy]
        exact update_self ..
      have hback : update t1.busy ind false = s.busy := by
        rw [hspec.busy]
        exact update_busy hbusy
      simp only [store, log_write, brelse, Exec.bind_apply, Exec.modify_apply, hlocked, if_true,
        Exec.pure_apply]
      refine .inr ⟨hzero, { t1 with busy := s.busy }, ?_, ?_⟩
      · exact ⟨hspec.data, hspec.free, by rw [hspec.rest], hspec.used, hspec.disk, hspec.logged⟩
      · rw [hback]
        rfl
  · rw [if_neg hzero]
    simp [brelse, s1, Exec.bind_apply, update_busy hbusy, hzero]

/-- How many blocks `bmap` takes for block `bn` of a file that has `nb`. -/
def bmapCost (nb bn : Nat) : Nat := if bn < nb then 0 else if bn = NDIRECT then 2 else 1

/-- `bmap` has given block `b` for block `bn` of a file that had `nb`. -/
structure Mapped (ip nb bn b : Nat) (s s' : State) : Prop where
  sane : Sane s'
  maps : Maps s' ip (max nb (bn + 1))
  grow : Grow ip s s'
  block : s'.entry ip bn = b
  same : bn < nb → s' = s
  old : ∀ k, k < nb → s'.entry ip k = s.entry ip k ∧ s'.disk (s.entry ip k) = s.disk (s.entry ip k)
  fresh : bn = nb → s'.disk b = Block.zero
  count : s'.freeCount + bmapCost nb bn = s.freeCount
  kept : ∀ k, k ≤ MAXFILE → s.entry ip k ≠ 0 → s'.entry ip k = s.entry ip k
  logged : ∀ x ∈ s'.logged, x ∈ s.logged ∨ (∃ y, y < s.sb.size ∧ x = s.sb.BBLOCK y) ∨
    x ≠ 0 ∧ (s'.entry ip bn = x ∨ s'.entry ip MAXFILE = x)

variable {s' t : State} {nb bn a b : Nat}

/-- A block that was there. -/
theorem mapped_old (hs : Sane s) (hm : Maps s ip nb) (hbn : bn < nb) (hb : s.entry ip bn = b) :
    Mapped ip nb bn b s s where
  sane := hs
  maps := by
    rw [Nat.max_eq_left hbn]
    exact hm
  grow := Grow.refl ip s
  block := hb
  same := fun _ => rfl
  old := fun _ _ => ⟨rfl, rfl⟩
  fresh := fun h => absurd h (Nat.ne_of_lt hbn)
  count := by rw [bmapCost, if_pos hbn, Nat.add_zero]
  kept := fun _ _ _ => rfl
  logged := fun _ hx => .inl hx

theorem Maps.entry_eq_zero (hm : Maps s ip nb) {k : Nat} (hk : k < MAXFILE) (hnb : nb ≤ k) :
    s.entry ip k = 0 := by
  by_contra hne
  exact absurd ((hm.filled k hk).mp hne) (Nat.not_lt.mpr hnb)

/-- One block more, with the indirect block in place if it is needed. -/
theorem Gains.maps (hg : Gains ip nb b s s') (ho : Owns s ip) (hnb : nb < MAXFILE)
    (hfilled : ∀ k, k < MAXFILE → (s.entry ip k ≠ 0 ↔ k < nb))
    (hind : s.entry ip MAXFILE ≠ 0 ↔ NDIRECT ≤ nb) : Maps s' ip (nb + 1) where
  toOwns := hg.owns ho
  bound := hnb
  filled := by
    intro k hk
    rw [hg.entry k (Nat.le_of_lt hk)]
    by_cases hkn : k = nb
    · rw [if_pos hkn]
      exact iff_of_true hg.ne_zero (by omega)
    · rw [if_neg hkn, hfilled k hk]
      omega
  indirect := by
    rw [hg.entry MAXFILE le_rfl, if_neg (by omega), hind]
    exact Nat.lt_succ_iff.symm

/-- The first block behind those that were there. -/
theorem mapped_gains (hs : Sane s) (hm : Maps s ip nb) (hnb : nb < MAXFILE) (hne : nb ≠ NDIRECT)
    (hg : Gains ip nb b s s') : Mapped ip nb nb b s s' where
  sane := hg.sane hs
  maps := by
    rw [Nat.max_eq_right (Nat.le_succ nb)]
    refine hg.maps hm.toOwns hnb hm.filled ?_
    rw [hm.indirect]
    omega
  grow := hg.grow
  block := (hg.entry nb (Nat.le_of_lt hnb)).trans (if_pos rfl)
  same := fun h => absurd h (Nat.lt_irrefl nb)
  old := fun k hk => hg.keeps hm.toOwns (hm.entry_eq_zero hnb (Nat.le_refl nb))
    (by omega) ((hm.filled k (by omega)).mpr hk)
  fresh := fun _ => hg.zero
  count := by
    rw [bmapCost, if_neg (Nat.lt_irrefl nb), if_neg hne]
    exact freeCount_mark hg.sb hg.data.2 hg.free hg.used
  kept := fun k hk => hg.kept (hm.entry_eq_zero hnb (Nat.le_refl nb)) hk
  logged := fun x hx => (hg.logged x hx).imp_right fun h => h.imp_left fun hx => ⟨b, hg.data.2, hx⟩

theorem Maps.no_indirect (hm : Maps s ip NDIRECT) : s.entry ip MAXFILE = 0 := by
  by_contra hne
  exact absurd (hm.indirect.mp hne) (Nat.lt_irrefl _)

theorem Gains.first_empty (hg : Gains ip MAXFILE a s t) (hm : Maps s ip NDIRECT) :
    t.entry ip NDIRECT = 0 := by
  rw [hg.entry NDIRECT (by decide), if_neg (by decide)]
  exact hm.entry_eq_zero (by decide) le_rfl

/-- The first indirect block: two blocks are taken. -/
theorem mapped_indirect (hs : Sane s) (hm : Maps s ip NDIRECT) (hind : Gains ip MAXFILE a s t)
    (hg : Gains ip NDIRECT b t s') : Mapped ip NDIRECT NDIRECT b s s' where
  sane := hg.sane (hind.sane hs)
  maps := by
    refine hg.maps (hind.owns hm.toOwns) (by decide) ?_ ?_
    · intro k hk
      rw [hind.entry k (Nat.le_of_lt hk), if_neg (Nat.ne_of_lt hk)]
      exact hm.filled k hk
    · rw [hind.entry MAXFILE le_rfl, if_pos rfl]
      exact iff_of_true hind.ne_zero le_rfl
  grow := hind.grow.trans hg.grow
  block := (hg.entry NDIRECT (by decide)).trans (if_pos rfl)
  same := fun h => absurd h (Nat.lt_irrefl _)
  old := by
    intro k hk
    have hkm : k < MAXFILE := Nat.lt_trans hk (by decide)
    obtain ⟨hentry, hdisk⟩ := hind.keeps hm.toOwns hm.no_indirect hkm ((hm.filled k hkm).mpr hk)
    have hthere : t.entry ip k ≠ 0 := hentry ▸ (hm.filled k hkm).mpr hk
    obtain ⟨hentry', hdisk'⟩ := hg.keeps (hind.owns hm.toOwns) (hind.first_empty hm) hkm hthere
    rw [hentry] at hentry' hdisk'
    exact ⟨hentry', hdisk'.trans hdisk⟩
  fresh := fun _ => hg.zero
  count := by
    have h1 := freeCount_mark hind.sb hind.data.2 hind.free hind.used
    have h2 := freeCount_mark hg.sb hg.data.2 hg.free hg.used
    rw [bmapCost, if_neg (Nat.lt_irrefl _), if_pos rfl]
    omega
  kept := by
    intro k hk hne
    have hfirst := hind.kept hm.no_indirect hk hne
    rw [hg.kept (hind.first_empty hm) hk (hfirst ▸ hne), hfirst]
  logged := by
    intro x hx
    have hlast : s'.entry ip MAXFILE = a := by
      rw [hg.entry MAXFILE le_rfl, if_neg (by decide), hind.entry MAXFILE le_rfl,
        if_pos rfl]
    rcases hg.logged x hx with hold | rfl | hx'
    · rcases hind.logged x hold with hold' | rfl | ⟨hne, hx'⟩
      · exact .inl hold'
      · exact .inr (.inl ⟨a, hind.data.2, rfl⟩)
      · rw [hind.entry MAXFILE le_rfl, if_pos rfl, or_self] at hx'
        exact .inr (.inr ⟨hne, .inr (hlast.trans hx')⟩)
    · rw [hind.sb]
      exact .inr (.inl ⟨b, hind.sb ▸ hg.data.2, rfl⟩)
    · exact .inr (.inr hx')

theorem Maps.eq_of_entry (hm : Maps s ip nb) (hbn : bn ≤ nb) (hmax : bn < MAXFILE)
    (hzero : s.entry ip bn = 0) : bn = nb := by
  have hnot : ¬bn < nb := fun h => (hm.filled bn hmax).mpr h hzero
  omega

theorem bmapCost_pos (nb : Nat) : 0 < bmapCost nb nb := by
  unfold bmapCost
  rw [if_neg (Nat.lt_irrefl nb)]
  split <;> omega

/-- `bmap` for a direct block. -/
theorem bmap_direct (hs : Sane s) (hf : Free s) (hm : Maps s ip nb) (hbn : bn ≤ nb)
    (hdirect : bn < NDIRECT) :
    match addrAt ip ⟨bn, Nat.lt_succ_of_lt hdirect⟩ s with
    | .ok (b, s') => Mapped ip nb bn b s s'
    | .error e => e = .balloc ∧ s.freeCount < bmapCost nb bn := by
  have hmax : bn < MAXFILE := hdirect.trans_le (by decide)
  have hspec := @addrAt_spec s ip hs hf ⟨bn, Nat.lt_succ_of_lt hdirect⟩
  rw [← entry_direct hdirect] at hspec
  revert hspec
  cases addrAt ip ⟨bn, Nat.lt_succ_of_lt hdirect⟩ s with
  | error e =>
    rintro ⟨rfl, hzero, hcount⟩
    obtain rfl := hm.eq_of_entry hbn hmax hzero
    exact ⟨rfl, hcount ▸ bmapCost_pos bn⟩
  | ok r =>
    obtain ⟨b, s'⟩ := r
    rintro (⟨hb, hne, rfl⟩ | ⟨hzero, t, ht, rfl⟩)
    · exact mapped_old hs hm ((hm.filled bn hmax).mp (hb ▸ hne)) hb.symm
    · obtain rfl := hm.eq_of_entry hbn hmax hzero
      exact mapped_gains hs hm hmax (Nat.ne_of_lt hdirect) (gains_direct hm.toOwns ht hdirect)

/-- `bmap` for a block whose number is in the indirect block, which is there. -/
theorem bmap_entry (hs : Sane s) (hquiet : ∀ x, s.busy x = false) (hm : Maps s ip nb) (hbn : bn ≤ nb)
    (hlo : NDIRECT ≤ bn) (hmax : bn < MAXFILE) (hind : NDIRECT < nb) :
    match entryAt (s.entry ip MAXFILE) (bn - NDIRECT) s with
    | .ok (b, s') => Mapped ip nb bn b s s'
    | .error e => e = .balloc ∧ s.freeCount < bmapCost nb bn := by
  have hf : Free s := fun x hx => by rw [hquiet x] at hx; cases hx
  have hne : s.entry ip MAXFILE ≠ 0 := hm.indirect.mpr hind
  obtain ⟨hdata, hused⟩ := hm.owned MAXFILE le_rfl hne
  have hword : (s.disk (s.entry ip MAXFILE)).word (bn - NDIRECT) = s.entry ip bn := by
    rw [entry_indirect hlo hmax, if_neg hne]
  have hspec := entryAt_spec (k := bn - NDIRECT) hs hf hdata hused (hquiet _)
  rw [hword] at hspec
  revert hspec
  cases entryAt (s.entry ip MAXFILE) (bn - NDIRECT) s with
  | error e =>
    rintro ⟨rfl, hzero, hcount⟩
    obtain rfl := hm.eq_of_entry hbn hmax hzero
    exact ⟨rfl, hcount ▸ bmapCost_pos bn⟩
  | ok r =>
    obtain ⟨b, s'⟩ := r
    rintro (⟨hb, hne', rfl⟩ | ⟨hzero, t, ht, rfl⟩)
    · exact mapped_old hs hm ((hm.filled bn hmax).mp (hb ▸ hne')) hb.symm
    · obtain rfl := hm.eq_of_entry hbn hmax hzero
      exact mapped_gains hs hm hmax (by omega) (gains_entry hs hm.toOwns ht rfl hne hlo hmax)

/-- `bmap` for the first block whose number is in the indirect block, once that has been
allocated. -/
theorem bmap_first (hs : Sane s) (hquiet : ∀ x, s.busy x = false) (hm : Maps s ip NDIRECT)
    (hg : Gains ip MAXFILE a s t) :
    match entryAt a 0 t with
    | .ok (b, s') => Mapped ip NDIRECT NDIRECT b s s'
    | .error e => e = .balloc ∧ s.freeCount < bmapCost NDIRECT NDIRECT := by
  have hquiet' : ∀ x, t.busy x = false := by
    intro x
    rw [hg.busy]
    exact hquiet x
  have hf : Free t := fun x hx => by rw [hquiet' x] at hx; cases hx
  have hown := hg.owns hm.toOwns
  have hlast : t.entry ip MAXFILE = a := (hg.entry MAXFILE le_rfl).trans (if_pos rfl)
  obtain ⟨hdata, hused⟩ := hown.owned MAXFILE le_rfl (hlast ▸ hg.ne_zero)
  rw [hlast] at hdata hused
  have hword : (t.disk a).word 0 = 0 := by
    rw [hg.zero]
    exact Block.word_zero 0
  have hspec := entryAt_spec (k := 0) (hg.sane hs) hf hdata hused (hquiet' a)
  revert hspec
  cases entryAt a 0 t with
  | error e =>
    rintro ⟨rfl, -, hcount⟩
    have hone := freeCount_mark hg.sb hg.data.2 hg.free hg.used
    refine ⟨rfl, ?_⟩
    rw [bmapCost, if_neg (Nat.lt_irrefl _), if_pos rfl]
    omega
  | ok r =>
    obtain ⟨b, s'⟩ := r
    rintro (⟨hb, hne, -⟩ | ⟨-, t', ht', rfl⟩)
    · exact absurd (hb.trans hword) hne
    · exact mapped_indirect hs hm hg
        (gains_entry (hg.sane hs) hown ht' hlast hg.ne_zero le_rfl (by decide))

/-- `bmap` finds a block of the file or appends a zeroed one; it stops only when there are not
enough free blocks. -/
theorem bmap_spec (hs : Sane s) (hquiet : ∀ x, s.busy x = false) (hm : Maps s ip nb) (hbn : bn ≤ nb)
    (hmax : bn < MAXFILE) :
    match bmap ip bn s with
    | .ok (b, s') => Mapped ip nb bn b s s'
    | .error e => e = .balloc ∧ s.freeCount < bmapCost nb bn := by
  have hf : Free s := fun x hx => by rw [hquiet x] at hx; cases hx
  unfold bmap
  by_cases hdirect : bn < NDIRECT
  · rw [dif_pos hdirect]
    exact bmap_direct hs hf hm hbn hdirect
  · have hlo := Nat.le_of_not_lt hdirect
    rw [dif_neg hdirect, if_pos (by simp only [MAXFILE] at hmax; omega)]
    have hspec := @addrAt_spec s ip hs hf (Fin.last NDIRECT)
    rw [← entry_last] at hspec
    cases hrun : addrAt ip (Fin.last NDIRECT) s with
    | error e =>
      rw [hrun] at hspec
      obtain ⟨rfl, hzero, hcount⟩ := hspec
      have hnb : nb ≤ NDIRECT := Nat.le_of_not_lt fun h => hm.indirect.mpr h hzero
      have hbn' : bn = nb := by omega
      subst hbn'
      rw [bind_of_error hrun]
      exact ⟨rfl, hcount ▸ bmapCost_pos bn⟩
    | ok r =>
      obtain ⟨ind, t⟩ := r
      rw [hrun] at hspec
      rw [bind_of_ok hrun]
      rcases hspec with ⟨rfl, hne, rfl⟩ | ⟨hzero, t', ht', rfl⟩
      · exact bmap_entry hs hquiet hm hbn hlo hmax (hm.indirect.mp hne)
      · -- the indirect block is new, so this is its first entry
        have hnb : nb ≤ NDIRECT := Nat.le_of_not_lt fun h => hm.indirect.mpr h hzero
        obtain rfl : bn = NDIRECT := by omega
        obtain rfl : nb = NDIRECT := by omega
        rw [Nat.sub_self]
        exact bmap_first hs hquiet hm (gains_last ht' hzero)

end bmap

end Fs
end Xv6
