import Xv6.Fs.Lookup

/-!
# Writing a file

`writei` copies its bytes block by block and lets `bmap` append the blocks that are missing.
Seen as one sequence of bytes, zero behind its last block, the file after the loop is the file
before it with the bytes laid over it (`writeLoop_spec`); and what is not the inode's stays as it
is.  `writei_law` puts `writei` and `readi` together.

Main definitions:

* `State.bytes` — the bytes of the first blocks of a file;
* `Wrote` — what a part of the loop has done;
* `WellFormed` — an inode without holes whose copy on the disk is up to date.
-/

namespace Xv6
namespace Fs

open Lib Lib.Exec

/-- The byte at a position of a file. -/
def Dinode.byteAt (d : Dinode) (disk : Nat → Block) (o : Nat) : UInt8 :=
  (disk (d.entry disk (o / BSIZE))).byte (o % BSIZE)

/-- The byte at a position of a cached inode. -/
def State.content (s : State) (ip o : Nat) : UInt8 := (s.inode ip).toDinode.byteAt s.disk o

/-- The bytes of the first `nb` blocks, and zeros behind them. -/
def State.bytes (s : State) (ip nb o : Nat) : UInt8 := if o < nb * BSIZE then s.content ip o else 0

section write

variable {s s' s'' t : State} {ip nb nb' nb'' bn b off : Nat} {data : Block} {src src' : List UInt8}

theorem content_eq (s : State) (ip o : Nat) :
    s.content ip o = (s.disk (s.entry ip (o / BSIZE))).byte (o % BSIZE) := rfl

/-! ## Storing into a data block -/

theorem entry_write (hb : b ≠ s.entry ip MAXFILE) (k : Nat) :
    (s.write b data).entry ip k = s.entry ip k := by
  rw [entry_last] at hb
  simp only [State.entry, Dinode.entry, State.inode_write, State.disk_write, if_neg (Ne.symm hb)]

theorem used_write (hb : s.sb.datastart ≤ b) {x : Nat} (hx : x < s.sb.size) :
    (s.write b data).used x = s.used x := by
  have hmap := BBLOCK_lt hx
  show bit ((s.write b data).disk (s.sb.BBLOCK x)) (x % BPB) = _
  rw [State.disk_write, if_neg (by omega)]
  rfl

theorem Sane.write (hs : Sane s) (hb : s.sb.datastart ≤ b) : Sane (s.write b data) where
  super := by
    have hone := hs.layout.one_lt
    have hlow := bmapstart_lt s.sb
    rw [State.disk_write, if_neg (by omega)]
    exact hs.super
  layout := hs.layout
  reserved := by
    intro x hx
    rw [used_write hb (hx.trans_le hs.layout.data)]
    exact hs.reserved x hx

theorem Maps.write (hm : Maps s ip nb) (hb : b ≠ s.entry ip MAXFILE) (hdata : s.sb.datastart ≤ b) :
    Maps (s.write b data) ip nb where
  owned := by
    intro k hk hne
    rw [entry_write hb] at hne ⊢
    obtain ⟨hd, hu⟩ := hm.owned k hk hne
    exact ⟨hd, by rw [used_write hdata hd.2]; exact hu⟩
  once := by
    intro j k hj hk heq hne
    rw [entry_write hb] at heq hne
    rw [entry_write hb] at heq
    exact hm.once j k hj hk heq hne
  bound := hm.bound
  filled := by
    intro k hk
    rw [entry_write hb]
    exact hm.filled k hk
  indirect := by
    rw [entry_write hb]
    exact hm.indirect

theorem Grow.write (hb : b ≠ s.entry ip MAXFILE) (hdata : s.sb.datastart ≤ b) (hown : s.Owned ip b) :
    Grow ip s (s.write b data) where
  rest := rfl
  others := fun _ _ => rfl
  same := rfl
  used := fun x hx hu => by rw [used_write hdata hx]; exact hu
  low := by
    intro x hx
    have hlow := bmapstart_lt s.sb
    rw [State.disk_write, if_neg (by omega)]
  foreign := by
    intro x _ _ ho
    rw [State.disk_write, if_neg]
    rintro rfl
    exact ho hown
  fresh := by
    rintro x _ _ ⟨hne, k, hk, hx⟩
    rw [entry_write hb] at hx
    exact ⟨hne, k, hk, hx⟩

/-! ## What the loop has done -/

/-- How many blocks a file takes to grow from `nb` to `nb'`. -/
def growCost (nb nb' : Nat) : Nat := nb' - nb + if nb ≤ NDIRECT ∧ NDIRECT < nb' then 1 else 0

/-- The bytes `src` have been written at offset `off` of a file that had `nb` blocks and has `nb'`
now. -/
structure Wrote (ip nb nb' off : Nat) (src : List UInt8) (s s' : State) : Prop where
  sane : Sane s'
  maps : Maps s' ip nb'
  grow : Grow ip s s'
  le : nb ≤ nb'
  room : off + src.length ≤ nb' * BSIZE
  same : nb' = nb → s'.inode = s.inode
  bytes : s'.bytes ip nb' = patch (s.bytes ip nb) off src
  count : s'.freeCount + growCost nb nb' = s.freeCount
  kept : ∀ k, k ≤ MAXFILE → s.entry ip k ≠ 0 → s'.entry ip k = s.entry ip k
  logged : ∀ x ∈ s'.logged, x ∈ s.logged ∨ (∃ y, y < s.sb.size ∧ x = s.sb.BBLOCK y) ∨
    x ≠ 0 ∧ ∃ k, (off / BSIZE ≤ k ∧ k * BSIZE < off + src.length ∧ k < MAXFILE ∨ k = MAXFILE) ∧
      s'.entry ip k = x

theorem freeCount_write (hb : s.sb.datastart ≤ b) : (s.write b data).freeCount = s.freeCount := by
  unfold State.freeCount
  congr 1
  apply Finset.filter_congr
  intro x hx
  rw [used_write hb (Finset.mem_range.mp hx)]

theorem growCost_bmap (hbn : bn ≤ nb) : growCost nb (max nb (bn + 1)) = bmapCost nb bn := by
  unfold growCost bmapCost
  split_ifs <;> omega

/-- A byte of another block of the file. -/
theorem Mapped.other_block (hm : Mapped ip nb bn b s t) (hmax : bn < MAXFILE) {k : Nat}
    (hk : k < nb) (hne : k ≠ bn) :
    t.entry ip k ≠ b ∧ t.disk (t.entry ip k) = s.disk (s.entry ip k) := by
  have hkm : k < MAXFILE := by
    have := hm.maps.bound
    omega
  obtain ⟨hentry, hdisk⟩ := hm.old k hk
  refine ⟨?_, by rw [hentry]; exact hdisk⟩
  intro heq
  have hb := hm.block
  have hthere : t.entry ip k ≠ 0 := (hm.maps.filled k hkm).mpr (by omega)
  exact hne (hm.maps.once k bn (Nat.le_of_lt hkm) (Nat.le_of_lt hmax) (heq.trans hb.symm) hthere)

/-- The bytes of the block before the store: those of the file, or zeros. -/
theorem Mapped.block_bytes (hm : Mapped ip nb bn b s t) (hbn : bn ≤ nb) {r : Nat} (hr : r < BSIZE) :
    (t.disk b).byte r = s.bytes ip nb (bn * BSIZE + r) := by
  have hdiv : (bn * BSIZE + r) / BSIZE = bn := by
    rw [Nat.mul_comm, Nat.mul_add_div (by decide), Nat.div_eq_of_lt hr, Nat.add_zero]
  have hmod : (bn * BSIZE + r) % BSIZE = r := by
    rw [Nat.mul_comm, Nat.mul_add_mod, Nat.mod_eq_of_lt hr]
  unfold State.bytes
  rcases Nat.lt_or_eq_of_le hbn with hlt | rfl
  · have hpos : bn * BSIZE + r < nb * BSIZE := by
      have := Nat.mul_le_mul_right BSIZE (Nat.succ_le_of_lt hlt)
      rw [Nat.succ_mul] at this
      omega
    have hts := hm.same hlt
    subst hts
    rw [if_pos hpos, content_eq, hdiv, hmod, hm.block]
  · rw [if_neg (by omega), hm.fresh rfl]
    exact Block.byte_zero r

/-- The file after one round of the loop, by the block of the position. -/
theorem Mapped.stored_bytes (hm : Mapped ip nb bn b s t) (hbn : bn ≤ nb) (hmax : bn < MAXFILE)
    (hb : b ≠ t.entry ip MAXFILE) {o : Nat} (hroom : o + src.length ≤ BSIZE) :
    (t.write b (fill (t.disk b) o src)).bytes ip (max nb (bn + 1)) =
      patch (s.bytes ip nb) (bn * BSIZE + o) src := by
  funext pos
  by_cases hpos : pos < max nb (bn + 1) * BSIZE
  · have hk : pos / BSIZE < max nb (bn + 1) := Nat.div_lt_of_lt_mul (Nat.mul_comm _ _ ▸ hpos)
    have hr : pos % BSIZE < BSIZE := Nat.mod_lt _ (by decide)
    have hsplit : pos / BSIZE * BSIZE + pos % BSIZE = pos := Nat.div_add_mod' pos BSIZE
    rw [State.bytes, if_pos hpos, content_eq, entry_write hb, State.disk_write]
    by_cases hkb : pos / BSIZE = bn
    · -- the block of this round
      rw [hkb, hm.block, if_pos rfl, byte_fill hr]
      rw [patch_shift (hm.block_bytes hbn hr), ← hkb, hsplit]
    · have hold : pos / BSIZE < nb := by omega
      obtain ⟨hne, hdisk⟩ := hm.other_block hmax hold hkb
      have hlow : pos < nb * BSIZE := by
        have hle := Nat.mul_le_mul_right BSIZE (Nat.succ_le_of_lt hold)
        rw [Nat.succ_mul] at hle
        omega
      have hout : patch (s.bytes ip nb) (bn * BSIZE + o) src pos = s.bytes ip nb pos := by
        rcases Nat.lt_or_gt_of_ne hkb with hlt | hgt
        · apply patch_of_lt
          have hle := Nat.mul_le_mul_right BSIZE (Nat.succ_le_of_lt hlt)
          rw [Nat.succ_mul] at hle
          omega
        · apply patch_of_le
          have hle := Nat.mul_le_mul_right BSIZE (Nat.succ_le_of_lt hgt)
          rw [Nat.succ_mul] at hle
          omega
      rw [if_neg hne, hdisk, hout, State.bytes, if_pos hlow, content_eq]
  · have hle : (bn + 1) * BSIZE ≤ max nb (bn + 1) * BSIZE := Nat.mul_le_mul_right _ (Nat.le_max_right ..)
    have hle' : nb * BSIZE ≤ max nb (bn + 1) * BSIZE := Nat.mul_le_mul_right _ (Nat.le_max_left ..)
    rw [Nat.succ_mul] at hle
    rw [patch_of_le (by omega), State.bytes, State.bytes, if_neg hpos, if_neg (by omega)]

/-- One round of the loop. -/
theorem Mapped.stored (hm : Mapped ip nb bn b s t) (hbn : bn ≤ nb) (hmax : bn < MAXFILE) {o : Nat}
    (hsrc : 0 < src.length) (hroom : o + src.length ≤ BSIZE) :
    Wrote ip nb (max nb (bn + 1)) (bn * BSIZE + o) src s (t.write b (fill (t.disk b) o src)) := by
  have hlt : bn < max nb (bn + 1) := by omega
  have hne : t.entry ip bn ≠ 0 := (hm.maps.filled bn hmax).mpr hlt
  obtain ⟨hdata, -⟩ := hm.maps.owned bn (Nat.le_of_lt hmax) hne
  have hb : b ≠ t.entry ip MAXFILE := by
    intro heq
    have := hm.maps.once bn MAXFILE (Nat.le_of_lt hmax) le_rfl (hm.block.trans heq) hne
    omega
  rw [hm.block] at hne hdata
  have hle : (bn + 1) * BSIZE ≤ max nb (bn + 1) * BSIZE := Nat.mul_le_mul_right _ (Nat.le_max_right ..)
  rw [Nat.succ_mul] at hle
  exact
    { sane := hm.sane.write hdata.1
      maps := hm.maps.write hb hdata.1
      grow := hm.grow.trans (Grow.write hb hdata.1 ⟨hne, bn, Nat.le_of_lt hmax, hm.block⟩)
      le := Nat.le_max_left ..
      room := by omega
      same := by
        intro heq
        have hts := hm.same (by omega)
        subst hts
        rfl
      bytes := hm.stored_bytes hbn hmax hb hroom
      count := by
        rw [freeCount_write hdata.1, growCost_bmap hbn]
        exact hm.count
      kept := by
        intro k hk hk0
        rw [entry_write hb]
        exact hm.kept k hk hk0
      logged := by
        intro x hx
        have hmem : x ∈ t.logged ++ [b] := hx
        have hdiv : (bn * BSIZE + o) / BSIZE = bn := by
          rw [Nat.mul_comm, Nat.mul_add_div (by decide), Nat.div_eq_of_lt (by omega), Nat.add_zero]
        have hthis : t.entry ip bn = x → ∃ k, ((bn * BSIZE + o) / BSIZE ≤ k ∧
            k * BSIZE < bn * BSIZE + o + src.length ∧ k < MAXFILE ∨ k = MAXFILE) ∧
            t.entry ip k = x := by
          intro hx
          exact ⟨bn, .inl ⟨Nat.le_of_eq hdiv, by omega, hmax⟩, hx⟩
        simp only [entry_write hb]
        rcases List.mem_append.mp hmem with hold | hnew
        · refine (hm.logged x hold).imp_right fun h => h.imp_right ?_
          rintro ⟨hx0, hx | hx⟩
          · exact ⟨hx0, hthis hx⟩
          · exact ⟨hx0, MAXFILE, .inr rfl, hx⟩
        · rw [List.mem_singleton.mp hnew]
          rw [List.mem_singleton.mp hnew] at hthis
          exact .inr (.inr ⟨hne, hthis hm.block⟩) }

theorem growCost_add (h : nb ≤ nb') (h' : nb' ≤ nb'') :
    growCost nb nb'' = growCost nb nb' + growCost nb' nb'' := by
  unfold growCost
  split_ifs <;> omega

/-- Nothing to write. -/
theorem Wrote.nil (hs : Sane s) (hm : Maps s ip nb) (hoff : off ≤ nb * BSIZE) :
    Wrote ip nb nb off [] s s where
  sane := hs
  maps := hm
  grow := Grow.refl ip s
  le := Nat.le_refl nb
  room := hoff
  same := fun _ => rfl
  bytes := patch_nil.symm
  count := by
    unfold growCost
    split_ifs <;> omega
  kept := fun _ _ _ => rfl
  logged := fun _ hx => .inl hx

/-- Pieces that meet are written as one. -/
theorem Wrote.append (h : Wrote ip nb nb' off src s s')
    (h' : Wrote ip nb' nb'' (off + src.length) src' s' s'') :
    Wrote ip nb nb'' off (src ++ src') s s'' where
  sane := h'.sane
  maps := h'.maps
  grow := h.grow.trans h'.grow
  le := h.le.trans h'.le
  room := by
    rw [List.length_append, ← Nat.add_assoc]
    exact h'.room
  same := by
    intro heq
    have hle := h.le
    have hle' := h'.le
    rw [h'.same (by omega), h.same (by omega)]
  bytes := by rw [h'.bytes, h.bytes, patch_append]
  count := by
    have hcount := h.count
    have hcount' := h'.count
    rw [growCost_add h.le h'.le]
    omega
  kept := by
    intro k hk hne
    have hfirst := h.kept k hk hne
    rw [h'.kept k hk (hfirst ▸ hne), hfirst]
  logged := by
    intro x hx
    have hdiv : off / BSIZE ≤ (off + src.length) / BSIZE := Nat.div_le_div_right (Nat.le_add_right ..)
    rw [List.length_append, ← Nat.add_assoc]
    rcases h'.logged x hx with hold | ⟨y, hy, rfl⟩ | ⟨hx0, k, hk, hkx⟩
    · rcases h.logged x hold with hold' | hmap | ⟨hx0, k, hk, hkx⟩
      · exact .inl hold'
      · exact .inr (.inl hmap)
      · have hkm : k ≤ MAXFILE := by omega
        refine .inr (.inr ⟨hx0, k, by omega, ?_⟩)
        rw [h'.kept k hkm (hkx ▸ hx0), hkx]
    · rw [h.grow.sb] at hy ⊢
      exact .inr (.inl ⟨y, hy, rfl⟩)
    · exact .inr (.inr ⟨hx0, k, by omega, hkx⟩)

/-! ## The loop -/

/-- How many blocks a file that had `nb` has after a write of `n` bytes at `off`. -/
def blocksAfter (nb off n : Nat) : Nat :=
  if n = 0 then nb else max nb ((off + n + BSIZE - 1) / BSIZE)

/-- The idiom `bread`, change, `log_write`, `brelse` in front of something else. -/
theorem rewrite_then {α : Type} {rest : FsM α} (g : Block → Block) (h : s.busy b = false) :
    (do
      let bp ← bread b
      store b (g bp)
      log_write b
      brelse b
      rest : FsM α) s = rest (s.write b (g (s.disk b))) := by
  simp [bread, store, log_write, brelse, Exec.bind_apply, h, State.write, update_busy h]

/-- The rest of the write ends where the whole does. -/
theorem blocksAfter_rest {n m : Nat} (hm : m = min n (BSIZE - off % BSIZE)) (hn : 0 < n) :
    blocksAfter (max nb (off / BSIZE + 1)) (off + m) (n - m) = blocksAfter nb off n := by
  unfold blocksAfter
  simp only [BSIZE] at hm ⊢
  split_ifs <;> omega

theorem blocksAfter_first {n : Nat} (hn : 0 < n) : max nb (off / BSIZE + 1) ≤ blocksAfter nb off n := by
  unfold blocksAfter
  simp only [BSIZE]
  split_ifs <;> omega

/-- The loop writes all bytes, or stops when there are not enough free blocks for them. -/
theorem writeLoop_spec {fuel : Nat} (hs : Sane s) (hquiet : ∀ x, s.busy x = false) (hm : Maps s ip nb)
    (hoff : off ≤ nb * BSIZE) (hmax : off + src.length ≤ MAXFILE * BSIZE) (hfuel : src.length ≤ fuel) :
    match writeLoop ip fuel off src s with
    | .ok (off', s') => off' = off + src.length ∧
        Wrote ip nb (blocksAfter nb off src.length) off src s s'
    | .error e => e = .balloc ∧ s.freeCount < growCost nb (blocksAfter nb off src.length) := by
  induction fuel generalizing s nb off src with
  | zero =>
    obtain rfl : src = [] := List.eq_nil_of_length_eq_zero (by omega)
    exact ⟨rfl, Wrote.nil hs hm hoff⟩
  | succ fuel ih =>
    by_cases hnil : src = []
    · subst hnil
      exact ⟨rfl, Wrote.nil hs hm hoff⟩
    · have hpos : 0 < src.length := List.length_pos_of_ne_nil hnil
      have hbn : off / BSIZE ≤ nb := by
        simp only [BSIZE] at hoff ⊢
        omega
      have hbmax : off / BSIZE < MAXFILE := by
        simp only [BSIZE] at hmax ⊢
        omega
      have hfirst : max nb (off / BSIZE + 1) ≤ blocksAfter nb off src.length :=
        blocksAfter_first hpos
      have hspec := bmap_spec hs hquiet hm hbn hbmax
      cases hrun : bmap ip (off / BSIZE) s with
      | error e =>
        rw [hrun] at hspec
        rw [writeLoop, if_neg hnil, bind_of_error hrun]
        refine ⟨hspec.1, hspec.2.trans_le ?_⟩
        rw [← growCost_bmap hbn, growCost_add (Nat.le_max_left ..) hfirst]
        exact Nat.le_add_right ..
      | ok r =>
        obtain ⟨b, t⟩ := r
        rw [hrun] at hspec
        obtain ⟨m, hmin⟩ : ∃ m, m = min src.length (BSIZE - off % BSIZE) := ⟨_, rfl⟩
        have hmod : off % BSIZE < BSIZE := Nat.mod_lt _ (by decide)
        have htake : (src.take m).length = m := by
          rw [List.length_take]
          omega
        have hstep : writeLoop ip (fuel + 1) off src s = writeLoop ip fuel (off + m) (src.drop m)
            (t.write b (fill (t.disk b) (off % BSIZE) (src.take m))) := by
          have hbusy : t.busy b = false := by
            rw [hspec.grow.busy]
            exact hquiet b
          rw [writeLoop, if_neg hnil, bind_of_ok hrun, hmin]
          exact rewrite_then (fun bp => fill bp (off % BSIZE) _) hbusy
        have hround : Wrote ip nb (max nb (off / BSIZE + 1)) (off / BSIZE * BSIZE + off % BSIZE)
            (src.take m) s (t.write b (fill (t.disk b) (off % BSIZE) (src.take m))) :=
          hspec.stored hbn hbmax (by omega) (by omega)
        rw [Nat.div_add_mod'] at hround
        generalize t.write b (fill (t.disk b) (off % BSIZE) (src.take m)) = u at hstep hround
        have hlen : (src.drop m).length = src.length - m := List.length_drop
        have hroom := hround.room
        have hrest := @ih u _ (off + m) (src.drop m) hround.sane
          (by rw [hround.grow.busy]; exact hquiet) hround.maps (by omega) (by omega) (by omega)
        rw [hlen, blocksAfter_rest hmin hpos] at hrest
        rw [hstep]
        cases hfin : writeLoop ip fuel (off + m) (src.drop m) u with
        | error e =>
          rw [hfin] at hrest
          have hcount := hround.count
          refine ⟨hrest.1, ?_⟩
          rw [growCost_add (Nat.le_max_left ..) hfirst]
          omega
        | ok r =>
          obtain ⟨off', s'⟩ := r
          rw [hfin] at hrest
          obtain ⟨rfl, hwrote⟩ := hrest
          rw [← htake] at hwrote
          have hall := hround.append hwrote
          rw [htake, List.take_append_drop] at hall
          exact ⟨by omega, hall⟩

end write

/-! ## `writei` -/

/-- The blocks of a file of `n` bytes. -/
def blocksOf (n : Nat) : Nat := (n + BSIZE - 1) / BSIZE

/-- The inode on the disk. -/
def State.dinode (s : State) (inum : Nat) : Dinode := dinodeAt s.sb s.disk inum

/-- A cached inode without holes, whose copy on the disk is up to date, while nothing else is
under way. -/
structure WellFormed (s : State) (ip : Nat) : Prop where
  sane : Sane s
  quiet : ∀ b, s.busy b = false
  file : (s.inode ip).type ≠ T_DEV
  inum : (s.inode ip).inum < s.sb.ninodes
  maps : Maps s ip (blocksOf (s.inode ip).size)
  stored : s.dinode (s.inode ip).inum = (s.inode ip).toDinode

section writei

variable {s s' t : State} {ip off : Nat} {src : List UInt8}

theorem le_blocksOf (n : Nat) : n ≤ blocksOf n * BSIZE := by
  simp only [blocksOf, BSIZE]
  omega

theorem WellFormed.size_le (h : WellFormed s ip) : (s.inode ip).size ≤ MAXFILE * BSIZE :=
  (le_blocksOf _).trans (Nat.mul_le_mul_right _ h.maps.bound)

/-- Whether an inode is well formed depends on the inode and the disk. -/
theorem WellFormed.congr (h : WellFormed s ip) (hsb : s'.sb = s.sb) (hdisk : s'.disk = s.disk)
    (hbusy : s'.busy = s.busy) (hdinode : (s'.inode ip).toDinode = (s.inode ip).toDinode)
    (hinum : (s'.inode ip).inum = (s.inode ip).inum) : WellFormed s' ip := by
  have hentry : ∀ k, s'.entry ip k = s.entry ip k := by
    intro k
    rw [State.entry, State.entry, hdinode, hdisk]
  have hused : ∀ x, s'.used x = s.used x := by
    intro x
    rw [State.used, State.used, hsb, hdisk]
  have hsize : (s'.inode ip).size = (s.inode ip).size := by rw [hdinode]
  refine ⟨⟨?_, ?_, ?_⟩, ?_, ?_, ?_, ?_, ?_⟩
  · rw [hdisk, hsb]
    exact h.sane.super
  · rw [hsb]
    exact h.sane.layout
  · intro b hb
    rw [hused]
    exact h.sane.reserved b (hsb ▸ hb)
  · rw [hbusy]
    exact h.quiet
  · rw [hdinode]
    exact h.file
  · rw [hinum, hsb]
    exact h.inum
  · have hm := h.maps
    rw [hsize]
    refine ⟨⟨?_, ?_⟩, hm.bound, ?_, ?_⟩
    · intro k hk
      rw [hentry, hsb, hused]
      exact hm.owned k hk
    · intro i j hi hj
      rw [hentry, hentry]
      exact hm.once i j hi hj
    · intro k hk
      rw [hentry]
      exact hm.filled k hk
    · rw [hentry]
      exact hm.indirect
  · rw [State.dinode, hsb, hdisk, hinum, hdinode]
    exact h.stored

/-- The blocks that a write of `n` bytes at `off` needs are free. -/
def Enough (s : State) (ip off n : Nat) : Prop :=
  growCost (blocksOf (s.inode ip).size) (blocksOf (max (s.inode ip).size (off + n))) ≤ s.freeCount

variable {n nb o : Nat}

/-- A write inside the file needs no blocks. -/
theorem enough_inside (h : off + n ≤ (s.inode ip).size) : Enough s ip off n := by
  rw [Enough, Nat.max_eq_left h, growCost, Nat.sub_self]
  split_ifs <;> omega

theorem blocksAfter_blocksOf {size off : Nat} (h : off ≤ size) :
    blocksAfter (blocksOf size) off n = blocksOf (max size (off + n)) := by
  simp only [blocksAfter, blocksOf, BSIZE]
  split_ifs <;> omega

/-- What `writei` has done to the file and has left alone. -/
structure Updated (ip off : Nat) (src : List UInt8) (s s' : State) : Prop where
  wellFormed : WellFormed s' ip
  inode : s'.inode ip = { s.inode ip with
    size := max (s.inode ip).size (off + src.length), addrs := (s'.inode ip).addrs }
  content : ∀ o, o < max (s.inode ip).size (off + src.length) →
    s'.content ip o = patch (s.content ip) off src o
  others : ∀ j, j ≠ ip → s'.inode j = s.inode j
  dinodes : ∀ j, j < s.sb.ninodes → j ≠ (s.inode ip).inum → s'.dinode j = s.dinode j
  low : s'.disk 0 = s.disk 0
  foreign : ∀ x, s.sb.Data x → s.used x = true → ¬s.Owned ip x → s'.disk x = s.disk x
  rest : s' = { s with disk := s'.disk, inode := s'.inode, logged := s'.logged }
  count : s'.freeCount +
    growCost (blocksOf (s.inode ip).size) (blocksOf (max (s.inode ip).size (off + src.length))) =
      s.freeCount
  used : ∀ x, x < s.sb.size → s.used x = true → s'.used x = true
  fresh : ∀ x, s.sb.Data x → s.used x = true → s'.Owned ip x → s.Owned ip x

theorem Updated.sb (h : Updated ip off src s s') : s'.sb = s.sb := by rw [h.rest]

theorem Updated.size (h : Updated ip off src s s') :
    (s'.inode ip).size = max (s.inode ip).size (off + src.length) := by rw [h.inode]

/-- The blocks that a write of `n` bytes at `off` logs: the inode, blocks of the free map, the
data blocks of the range and the indirect block. -/
def LogsWrite (ip off n : Nat) (s s' : State) : Prop :=
  ∀ x ∈ s'.logged, x ∈ s.logged ∨ x = s.sb.IBLOCK (s.inode ip).inum ∨
    (∃ y, y < s.sb.size ∧ x = s.sb.BBLOCK y) ∨
    ∃ k, (off / BSIZE ≤ k ∧ k * BSIZE < off + n ∨ k = MAXFILE) ∧ s'.entry ip k = x

theorem Wrote.content_eq {nb' : Nat} (h : Wrote ip nb nb' off src s t)
    (hnb : off ≤ nb * BSIZE) (ho : o < max (nb * BSIZE) (off + src.length)) (hlt : o < nb' * BSIZE) :
    t.content ip o = patch (s.content ip) off src o := by
  have hbytes := congrFun h.bytes o
  rw [State.bytes, if_pos hlt] at hbytes
  rw [hbytes]
  by_cases hold : o < nb * BSIZE
  · exact patch_congr (if_pos hold)
  · -- behind the old blocks there are only new bytes
    have hlo : off ≤ o := by omega
    have hhi : o - off < src.length := by omega
    rw [patch_inside hlo hhi, patch_inside hlo hhi]

/-- Inside the file: only data blocks change. -/
theorem Wrote.updated_inside (hw : WellFormed s ip) (hnb : nb = blocksOf (s.inode ip).size)
    (h : Wrote ip nb nb off src s t) (hsize : off + src.length ≤ (s.inode ip).size) :
    Updated ip off src s t ∧ LogsWrite ip off src.length s t := by
  have hinode := h.same rfl
  have hlow : ∀ j, j < s.sb.ninodes → t.dinode j = s.dinode j := by
    intro j hj
    unfold State.dinode dinodeAt
    rw [h.grow.sb, h.grow.low _ (IBLOCK_lt hw.sane.layout hj)]
  have hmax : max (s.inode ip).size (off + src.length) = (s.inode ip).size := Nat.max_eq_left hsize
  have hroom := le_blocksOf (s.inode ip).size
  rw [← hnb] at hroom
  refine ⟨⟨⟨h.sane, ?_, ?_, ?_, ?_, ?_⟩, ?_, ?_, ?_, ?_, ?_, ?_, h.grow.rest, ?_, h.grow.used,
    h.grow.fresh⟩, ?_⟩
  · rw [h.grow.busy]
    exact hw.quiet
  · rw [hinode]
    exact hw.file
  · rw [hinode, h.grow.sb]
    exact hw.inum
  · rw [hinode, ← hnb]
    exact h.maps
  · rw [hinode, hlow _ hw.inum]
    exact hw.stored
  · rw [hmax, hinode]
  · intro o ho
    rw [hmax] at ho
    exact h.content_eq (by omega) (by omega) (by omega)
  · intro j _
    rw [hinode]
  · intro j hj _
    exact hlow j hj
  · exact h.grow.low 0 (Nat.lt_trans (by decide) hw.sane.layout.one_lt)
  · exact h.grow.foreign
  · rw [hmax, ← hnb]
    exact h.count
  · intro x hx
    rcases h.logged x hx with hold | hmap | ⟨-, k, hk, hkx⟩
    · exact .inl hold
    · exact .inr (.inr (.inl hmap))
    · exact .inr (.inr (.inr ⟨k, hk.imp_left fun h => ⟨h.1, h.2.1⟩, hkx⟩))

/-- The same addresses, and the same blocks behind the inodes. -/
structure SameMap (ip : Nat) (s s' : State) : Prop where
  sb : s'.sb = s.sb
  addrs : (s'.inode ip).addrs = (s.inode ip).addrs
  disk : ∀ x, s.sb.bmapstart ≤ x → s'.disk x = s.disk x

namespace SameMap

variable {nb : Nat}

theorem used (h : SameMap ip s s') (x : Nat) : s'.used x = s.used x := by
  unfold State.used
  rw [h.sb, h.disk _ (le_BBLOCK s.sb x)]

theorem entry (h : SameMap ip s s') (hm : Owns s ip) (k : Nat) : s'.entry ip k = s.entry ip k := by
  simp only [State.entry, Dinode.entry, h.addrs]
  split_ifs with hk hk' hzero
  · rfl
  · rfl
  · rfl
  · rw [h.disk]
    have hne : s.entry ip MAXFILE ≠ 0 := by
      rw [entry_last]
      exact hzero
    have hdata := (hm.owned MAXFILE le_rfl hne).1.1
    have hlow := bmapstart_lt s.sb
    rw [entry_last] at hdata
    omega

theorem maps (h : SameMap ip s s') (hm : Maps s ip nb) : Maps s' ip nb where
  owned := by
    intro k hk hne
    rw [h.entry hm.toOwns] at hne ⊢
    rw [h.sb, h.used]
    exact hm.owned k hk hne
  once := by
    intro j k hj hk heq hne
    rw [h.entry hm.toOwns] at heq hne
    rw [h.entry hm.toOwns] at heq
    exact hm.once j k hj hk heq hne
  bound := hm.bound
  filled := by
    intro k hk
    rw [h.entry hm.toOwns]
    exact hm.filled k hk
  indirect := by
    rw [h.entry hm.toOwns]
    exact hm.indirect

theorem content (h : SameMap ip s s') (hm : Maps s ip nb) {o : Nat} (ho : o < nb * BSIZE) :
    s'.content ip o = s.content ip o := by
  have hk : o / BSIZE < nb := Nat.div_lt_of_lt_mul (Nat.mul_comm _ _ ▸ ho)
  have hkm : o / BSIZE < MAXFILE := hk.trans_le hm.bound
  have hdata := (hm.owned _ (Nat.le_of_lt hkm) ((hm.filled _ hkm).mpr hk)).1.1
  have hlow := bmapstart_lt s.sb
  rw [Fs.content_eq, Fs.content_eq, h.entry hm.toOwns, h.disk _ (by omega)]

theorem freeCount (h : SameMap ip s s') : s'.freeCount = s.freeCount := by
  unfold State.freeCount
  rw [h.sb]
  congr 1
  apply Finset.filter_congr
  intro x _
  rw [h.used]

end SameMap

/-- The block addresses fit in their fields. -/
theorem addrs_lt (hs : Sane s) (hm : Maps s ip nb) (j : Fin (NDIRECT + 1)) :
    (s.inode ip).addrs j < 2 ^ 32 := by
  have hsize : s.sb.size < 2 ^ 32 := by
    rw [← hs.super]
    exact Block.word_lt _ _
  have hentry : ∀ k, k ≤ MAXFILE → s.entry ip k < 2 ^ 32 := by
    intro k hk
    by_cases hne : s.entry ip k = 0
    · rw [hne]
      decide
    · exact Nat.lt_trans (hm.owned k hk hne).1.2 hsize
  by_cases hj : j.val < NDIRECT
  · have := hentry j.val (Nat.le_of_lt (Nat.lt_trans hj (by decide)))
    rwa [entry_direct hj] at this
  · have hlast : j = Fin.last NDIRECT := Fin.ext (by
      have := j.isLt
      simp only [Fin.val_last]
      omega)
    rw [hlast, ← entry_last]
    exact hentry MAXFILE le_rfl

/-- The state after the file has got its new size. -/
def State.resize (t : State) (ip size : Nat) : State :=
  let i : Inode := { t.inode ip with size := size }
  (t.setInode ip i).write (t.sb.IBLOCK i.inum)
    (Dinode.write (t.disk (t.sb.IBLOCK i.inum)) (i.inum % IPB) i.toDinode)

/-- `iupdate` of the resized inode. -/
theorem State.iupdate_resized (t : State) (size : Nat)
    (hbusy : t.busy (t.sb.IBLOCK (t.inode ip).inum) = false) :
    iupdate ip (t.setInode ip { t.inode ip with size := size }) = .ok ((), t.resize ip size) := by
  have hinode : (t.setInode ip { t.inode ip with size := size }).inode ip =
      { t.inode ip with size := size } := State.inode_setInode ..
  have hbusy' : (t.setInode ip { t.inode ip with size := size }).busy
      ((t.setInode ip { t.inode ip with size := size }).sb.IBLOCK
        ((t.setInode ip { t.inode ip with size := size }).inode ip).inum) = false := by
    rw [hinode]
    exact hbusy
  rw [iupdate_eq hbusy', hinode]
  rfl

/-- The file has grown: its size is set, and the inode goes to the disk. -/
theorem Wrote.updated_grown {nb' : Nat} (hw : WellFormed s ip)
    (hnb : nb = blocksOf (s.inode ip).size) (h : Wrote ip nb nb' off src s t)
    (hoff : off ≤ (s.inode ip).size) (hsize : (s.inode ip).size < off + src.length)
    (hmax : off + src.length ≤ MAXFILE * BSIZE) (hnb' : nb' = blocksOf (off + src.length)) :
    Updated ip off src s (t.resize ip (off + src.length)) ∧
      LogsWrite ip off src.length s (t.resize ip (off + src.length)) := by
  have hsame := h.grow.same
  have hinum : (t.inode ip).inum = (s.inode ip).inum := by rw [hsame]
  have hib : s.sb.IBLOCK (s.inode ip).inum < s.sb.bmapstart := IBLOCK_lt hw.sane.layout hw.inum
  have hib' : 1 < s.sb.IBLOCK (s.inode ip).inum :=
    hw.sane.layout.super.trans_le (Nat.le_add_left ..)
  have hrest := le_blocksOf (s.inode ip).size
  have hroom := h.room
  rw [← hnb] at hrest
  have hmaxsize : max (s.inode ip).size (off + src.length) = off + src.length :=
    Nat.max_eq_right (Nat.le_of_lt hsize)
  generalize hu : t.resize ip (off + src.length) = u
  have hinode : u.inode ip = { t.inode ip with size := off + src.length } := by
    rw [← hu]
    exact State.inode_setInode ..
  have hdisk : ∀ x, u.disk x = if x = s.sb.IBLOCK (s.inode ip).inum then
      Dinode.write (t.disk (s.sb.IBLOCK (s.inode ip).inum)) ((s.inode ip).inum % IPB)
        (u.inode ip).toDinode else t.disk x := by
    intro x
    rw [hinode, ← hu, State.resize, State.disk_write, hinum, h.grow.sb]
    rfl
  have hsb : u.sb = s.sb := by
    rw [← hu]
    exact h.grow.sb
  have hsm : SameMap ip t u := by
    refine ⟨hsb.trans h.grow.sb.symm, by rw [hinode], ?_⟩
    intro x hx
    rw [h.grow.sb] at hx
    rw [hdisk, if_neg (by omega)]
  have hfits : (u.inode ip).toDinode.Fits := by
    refine ⟨?_, ?_⟩
    · rw [hinode]
      exact hmax.trans_lt (by decide)
    · intro j
      rw [hinode]
      exact addrs_lt h.sane h.maps j
  have hdinodes : ∀ j, j < s.sb.ninodes → j ≠ (s.inode ip).inum → u.dinode j = s.dinode j := by
    intro j hj hne
    have hlow := h.grow.low _ (IBLOCK_lt hw.sane.layout hj)
    unfold State.dinode dinodeAt
    rw [hsb, hdisk]
    split_ifs with hblock
    · -- another inode of the same block
      have hslot : (s.inode ip).inum % IPB ≠ j % IPB := by
        simp only [Superblock.IBLOCK, IPB] at hblock ⊢
        omega
      rw [Dinode.read_write_of_ne _ _ hslot, ← hblock, hlow]
    · rw [hlow]
  have hsane : Sane u := by
    refine ⟨?_, hsb ▸ hw.sane.layout, ?_⟩
    · rw [hdisk, if_neg (by omega), hsb, h.grow.low 1 hw.sane.layout.one_lt]
      exact hw.sane.super
    · intro x hx
      rw [hsm.used]
      exact h.sane.reserved x (by rw [h.grow.sb]; rwa [hsb] at hx)
  have hgained : ∀ x, s.sb.Data x → s.used x = true → u.Owned ip x → s.Owned ip x := by
    rintro x hdata hused ⟨hne, k, hk, hkx⟩
    rw [hsm.entry h.maps.toOwns] at hkx
    exact h.grow.fresh x hdata hused ⟨hne, k, hk, hkx⟩
  refine ⟨⟨⟨hsane, ?_, ?_, ?_, ?_, ?_⟩, ?_, ?_, ?_, hdinodes, ?_, ?_, ?_, ?_, ?_, hgained⟩, ?_⟩
  · intro x
    rw [← hu]
    show t.busy x = false
    rw [h.grow.busy]
    exact hw.quiet x
  · rw [hinode, hsame]
    exact hw.file
  · rw [hinode, hsb]
    show (t.inode ip).inum < _
    rw [hinum]
    exact hw.inum
  · rw [hinode]
    show Maps u ip (blocksOf (off + src.length))
    rw [← hnb']
    exact hsm.maps h.maps
  · have hinum' : (u.inode ip).inum = (s.inode ip).inum := by
      rw [hinode]
      exact hinum
    unfold State.dinode dinodeAt
    rw [hsb, hinum', hdisk, if_pos rfl]
    exact Dinode.read_write _ (Nat.mod_lt _ (by decide)) hfits
  · rw [hmaxsize, hinode, hsame]
  · intro o ho
    rw [hmaxsize] at ho
    rw [hsm.content h.maps (by omega)]
    exact h.content_eq (by omega) (by omega) (by omega)
  · intro j hj
    rw [← h.grow.others j hj, ← hu]
    exact State.inode_setInode_of_ne t _ hj
  · rw [hdisk, if_neg (by omega)]
    exact h.grow.low 0 (Nat.lt_trans (by decide) hw.sane.layout.one_lt)
  · intro x hx hused hown
    have hlow := bmapstart_lt s.sb
    have hdata := hx.1
    rw [hdisk, if_neg (by omega)]
    exact h.grow.foreign x hx hused hown
  · calc u = { t with disk := u.disk, inode := u.inode, logged := u.logged } := by
          rw [← hu]
          rfl
      _ = { s with disk := u.disk, inode := u.inode, logged := u.logged } := by
          rw [h.grow.rest]
  · rw [hmaxsize, ← hnb, ← hnb', hsm.freeCount]
    exact h.count
  · intro x hx hused
    rw [hsm.used]
    exact h.grow.used x hx hused
  · have hlog : u.logged = t.logged ++ [s.sb.IBLOCK (s.inode ip).inum] := by
      rw [← hu, ← h.grow.sb, ← hinum]
      rfl
    intro x hx
    rw [hlog] at hx
    rcases List.mem_append.mp hx with hold | hnew
    · rcases h.logged x hold with hold' | hmap | ⟨-, k, hk, hkx⟩
      · exact .inl hold'
      · exact .inr (.inr (.inl hmap))
      · refine .inr (.inr (.inr ⟨k, hk.imp_left fun h => ⟨h.1, h.2.1⟩, ?_⟩))
        rw [hsm.entry h.maps.toOwns, hkx]
    · exact .inr (.inl (List.mem_singleton.mp hnew))

/-- The offset or the length is refused. -/
theorem writei_refused (hw : WellFormed s ip) (hoff : off < 2 ^ 32) (hn : src.length < 2 ^ 32)
    (h : (s.inode ip).size < off ∨ MAXFILE * BSIZE < off + src.length) :
    writei ip src off s = .ok (none, s) := by
  rw [writei, bind_of_ok (show inode ip s = .ok (s.inode ip, s) from rfl), if_neg hw.file]
  by_cases hfirst : (decide (off > (s.inode ip).size) ||
      decide ((off + src.length) % 2 ^ 32 < off)) = true
  · rw [if_pos hfirst]
    rfl
  · rw [if_neg hfirst]
    simp only [Bool.or_eq_true, decide_eq_true_eq, not_or] at hfirst
    have hmax : (off + src.length) % 2 ^ 32 > MAXFILE * BSIZE := by omega
    rw [if_pos hmax]
    rfl

/-- `writei` writes all the bytes if there are enough blocks. -/
theorem writei_spec (hw : WellFormed s ip) (hoff : off ≤ (s.inode ip).size)
    (hmax : off + src.length ≤ MAXFILE * BSIZE) :
    match writei ip src off s with
    | .ok (r, s') => r = some src.length ∧ Updated ip off src s s' ∧ LogsWrite ip off src.length s s'
    | .error e => e = .balloc ∧ ¬Enough s ip off src.length := by
  have hmod : (off + src.length) % 2 ^ 32 = off + src.length :=
    Nat.mod_eq_of_lt (hmax.trans_lt (by decide))
  have hguard : ¬(decide (off > (s.inode ip).size) ||
      decide ((off + src.length) % 2 ^ 32 < off)) = true := by
    rw [hmod]
    simp only [Bool.or_eq_true, decide_eq_true_eq]
    omega
  have hguard' : ¬(off + src.length) % 2 ^ 32 > MAXFILE * BSIZE := by omega
  have hfit := le_blocksOf (s.inode ip).size
  have hloop := writeLoop_spec hw.sane hw.quiet hw.maps (by omega) hmax (Nat.le_refl src.length)
  rw [writei, bind_of_ok (show inode ip s = .ok (s.inode ip, s) from rfl), if_neg hw.file,
    if_neg hguard, if_neg hguard']
  cases hrun : writeLoop ip src.length off src s with
  | error e =>
    rw [hrun] at hloop
    rw [bind_of_error hrun]
    exact ⟨hloop.1, Nat.not_le.mpr (blocksAfter_blocksOf hoff ▸ hloop.2)⟩
  | ok r =>
    obtain ⟨off', t⟩ := r
    rw [hrun] at hloop
    obtain ⟨rfl, hwrote⟩ := hloop
    have hsize : (t.inode ip).size = (s.inode ip).size := by rw [hwrote.grow.same]
    rw [bind_of_ok hrun, bind_of_ok (show inode ip t = .ok (t.inode ip, t) from rfl), hsize]
    by_cases hgrown : (s.inode ip).size < off + src.length
    · have hcond : (decide (src.length > 0) && decide (off + src.length > (s.inode ip).size)) = true := by
        simp only [Bool.and_eq_true, decide_eq_true_eq]
        omega
      have hafter : blocksAfter (blocksOf (s.inode ip).size) off src.length =
          blocksOf (off + src.length) := by
        simp only [blocksAfter, blocksOf, BSIZE]
        rw [if_neg (by omega)]
        omega
      have hbusy : t.busy (t.sb.IBLOCK (t.inode ip).inum) = false := by
        rw [hwrote.grow.busy]
        exact hw.quiet _
      have hmodify : modInode ip (fun i => { i with size := off + src.length }) t =
          .ok ((), t.setInode ip { t.inode ip with size := off + src.length }) := rfl
      have hupdate := t.iupdate_resized (off + src.length) hbusy
      have hstep : (if (decide (src.length > 0) &&
            decide (off + src.length > (s.inode ip).size)) = true then do
          modInode ip (fun i => { i with size := off + src.length })
          iupdate ip
          return some src.length
        else return some src.length : FsM (Option Nat)) t =
          .ok (some src.length, t.resize ip (off + src.length)) := by
        rw [if_pos hcond, bind_of_ok hmodify, bind_of_ok hupdate]
        rfl
      rw [hstep]
      exact ⟨rfl, hwrote.updated_grown hw rfl hoff hgrown hmax hafter⟩
    · have hcond : ¬(decide (src.length > 0) && decide (off + src.length > (s.inode ip).size)) = true := by
        simp only [Bool.and_eq_true, decide_eq_true_eq]
        omega
      have hafter : blocksAfter (blocksOf (s.inode ip).size) off src.length =
          blocksOf (s.inode ip).size := by
        simp only [blocksAfter, blocksOf, BSIZE]
        split_ifs <;> omega
      rw [hafter] at hwrote
      rw [if_neg hcond]
      exact ⟨rfl, hwrote.updated_inside hw rfl (by omega)⟩

theorem WellFormed.shows (h : WellFormed s ip) :
    Shows s ip (blocksOf (s.inode ip).size) (s.content ip) := by
  refine ⟨h.quiet, h.maps.bound, ?_, ?_⟩
  · intro k hk
    exact (h.maps.filled k (hk.trans_le h.maps.bound)).mpr hk
  · intro k r _ hr
    rw [content_eq, Nat.mul_comm, Nat.mul_add_div (by decide), Nat.div_eq_of_lt hr, Nat.add_zero,
      Nat.mul_add_mod, Nat.mod_eq_of_lt hr]

/-- Reading a well-formed inode. -/
theorem WellFormed.readi_eq (h : WellFormed s ip) (hn : n < 2 ^ 32) :
    readi ip off n s = .ok (if off ≤ (s.inode ip).size ∧ off + n < 2 ^ 32 then
      some (firsts (fun i => s.content ip (off + i)) (min n ((s.inode ip).size - off))) else none,
      s) := by
  have hfit := le_blocksOf (s.inode ip).size
  exact h.shows.readi_eq h.file (h.size_le.trans_lt (by decide)) hn (by omega)

/-- A file whose blocks belong to nobody else keeps its bytes. -/
theorem Updated.byteAt (h : Updated ip off src s s') {d : Dinode}
    (hd : ∀ k, k ≤ MAXFILE → d.entry s.disk k ≠ 0 → s.sb.Data (d.entry s.disk k) ∧
      s.used (d.entry s.disk k) = true ∧ ¬s.Owned ip (d.entry s.disk k))
    (ho : o < MAXFILE * BSIZE) : d.byteAt s'.disk o = d.byteAt s.disk o := by
  have hblock : ∀ k, k ≤ MAXFILE → s'.disk (d.entry s.disk k) = s.disk (d.entry s.disk k) := by
    intro k hk
    by_cases hzero : d.entry s.disk k = 0
    · rw [hzero]
      exact h.low
    · obtain ⟨hdata, hused, hown⟩ := hd k hk hzero
      exact h.foreign _ hdata hused hown
  have hlast : d.entry s.disk MAXFILE = d.addrs (Fin.last NDIRECT) := by
    rw [Dinode.entry, dif_neg (by decide), if_pos rfl]
  have hentry : ∀ k, d.entry s'.disk k = d.entry s.disk k := by
    intro k
    have hind := hblock MAXFILE le_rfl
    rw [hlast] at hind
    unfold Dinode.entry
    rw [hind]
  have hk : o / BSIZE < MAXFILE := Nat.div_lt_of_lt_mul (Nat.mul_comm _ _ ▸ ho)
  unfold Dinode.byteAt
  rw [hentry, hblock _ (Nat.le_of_lt hk)]

/-- A block of small words. -/
def wordsBlock (f : Nat → UInt8) : Block := Block.ofFn fun i => if i % 4 = 0 then f (i / 4) else 0

theorem word_wordsBlock (f : Nat → UInt8) {j : Nat} (hj : j < 128) :
    (wordsBlock f).word j = (f j).toNat := by
  have hbyte : ∀ m, m < 4 → (wordsBlock f).byte (4 * j + m) = if m = 0 then f j else 0 := by
    intro m hm
    have hlt : 4 * j + m < BSIZE := by
      simp only [BSIZE]
      omega
    rw [wordsBlock, Block.byte_ofFn _ hlt, show (4 * j + m) / 4 = j by omega,
      show (4 * j + m) % 4 = m by omega]
  have h0 := hbyte 0 (by decide)
  rw [Nat.add_zero] at h0
  rw [Block.word, h0, hbyte 1 (by decide), hbyte 2 (by decide), hbyte 3 (by decide)]
  rfl

/-- The inode of a file of `nb` blocks: they follow block 9, which is the indirect block. -/
def sampleInode (type : Int16) (nb : Nat) : Dinode where
  type := type
  major := 0
  minor := 0
  nlink := 1
  size := nb * BSIZE
  addrs := fun j => if j.val = NDIRECT then (if NDIRECT < nb then 9 else 0)
    else if j.val < nb then 10 + j.val else 0

/-- One block of inodes, one of the free map and 203 of data. -/
def sampleSb : Superblock := ⟨208, 203, 8, 0, 0, 2, 4⟩

theorem sampleSb_datastart : sampleSb.datastart = 5 := by decide

/-- A disk with such a file as inode 1, while the blocks from 200 to 207 are free. -/
def sampleDisk (type : Int16) (nb : Nat) (data : Nat → Block) (b : Nat) : Block :=
  if b = 1 then
    wordsBlock fun i => if i = 0 then 208 else if i = 1 then 203 else if i = 2 then 8
      else if i = 5 then 2 else if i = 6 then 4 else 0
  else if b = 2 then
    Dinode.write Block.zero 1 (sampleInode type nb)
  else if b = 4 then
    Block.ofFn fun i => if i = 25 then 0 else 255
  else if b = 9 then
    wordsBlock fun i => if i + NDIRECT < nb then UInt8.ofNat (22 + i) else 0
  else
    data (b - 10)

/-- The file is open as file 0 and cached in slot 0. -/
def sample (type : Int16) (nb : Nat) (data : Nat → Block) : State where
  sb := sampleSb
  disk := sampleDisk type nb data
  busy := fun _ => false
  inode := fun ip => { sampleInode type nb with
    dev := ROOTDEV, inum := 1, ref := if ip = 0 then 1 else 0, locked := false, valid := true }
  devsw := fun _ => ⟨none, none⟩
  ftable := fun _ => ⟨⟨.inode, 1, true, true, 0, 0⟩, 0⟩
  cwd := 0
  outstanding := 0
  logged := []

section sample

variable {type : Int16} {nb : Nat} {data : Nat → Block}

theorem sample_entry {k : Nat} (hk : k < MAXFILE) :
    (sample type nb data).entry 0 k = if k < nb then 10 + k else 0 := by
  have hlast : ((sample type nb data).inode 0).addrs (Fin.last NDIRECT) =
      if NDIRECT < nb then 9 else 0 := rfl
  rw [State.entry, Dinode.entry]
  by_cases hdirect : k < NDIRECT
  · rw [dif_pos hdirect]
    exact if_neg (Nat.ne_of_lt hdirect)
  · rw [dif_neg hdirect, if_neg (Nat.ne_of_lt hk), hlast]
    by_cases hnb : NDIRECT < nb
    · have hj : k - NDIRECT < 128 := by
        simp only [MAXFILE, NINDIRECT, NDIRECT] at hk hdirect ⊢
        omega
      have hword := word_wordsBlock (fun i => if i + NDIRECT < nb then UInt8.ofNat (22 + i) else 0) hj
      rw [if_pos hnb, if_neg (by decide)]
      refine hword.trans ?_
      rw [Nat.sub_add_cancel (Nat.not_lt.mp hdirect)]
      split_ifs
      · rw [UInt8.toNat_ofNat', Nat.mod_eq_of_lt (by omega)]
        simp only [NDIRECT] at hdirect ⊢
        omega
      · rfl
    · rw [if_neg hnb, if_pos rfl, if_neg (by omega)]

theorem sample_used {x : Nat} (hx : x < 208) : (sample type nb data).used x = decide (x < 200) := by
  have hmod : x % BPB = x := Nat.mod_eq_of_lt (Nat.lt_trans hx (by decide))
  have hblock : (sample type nb data).sb.BBLOCK x = 4 := by
    rw [Superblock.BBLOCK, Nat.div_eq_of_lt (Nat.lt_trans hx (by decide))]
    rfl
  have hmap : (sample type nb data).disk 4 = Block.ofFn fun i => if i = 25 then 0 else 255 := rfl
  have hlt : x / 8 < BSIZE := by
    simp only [BSIZE]
    omega
  have hmask : (255 : UInt8) &&& mask x = mask x := by
    have h : ∀ i : Fin 8, (255 : UInt8) &&& 1 <<< UInt8.ofNat i.val = 1 <<< UInt8.ofNat i.val := by
      decide
    exact h ⟨x % 8, Nat.mod_lt _ (by decide)⟩
  rw [State.used, hblock, hmod, hmap, bit, Block.byte_ofFn _ hlt]
  by_cases hfree : x < 200
  · rw [if_neg (by omega), hmask, decide_eq_true hfree]
    exact bne_iff_ne.mpr (mask_ne_zero x)
  · rw [if_pos (by omega), decide_eq_false hfree, UInt8.zero_and]
    rfl

theorem sample_maps (hnb : nb ≤ MAXFILE) : Maps (sample type nb data) 0 nb := by
  have hlast : (sample type nb data).entry 0 MAXFILE = if NDIRECT < nb then 9 else 0 := by
    rw [entry_last]
    rfl
  have hrange : ∀ k, k ≤ MAXFILE → (sample type nb data).entry 0 k ≠ 0 →
      9 ≤ (sample type nb data).entry 0 k ∧ (sample type nb data).entry 0 k < 150 := by
    intro k hk hne
    by_cases hend : k = MAXFILE
    · rw [hend, hlast] at hne ⊢
      split_ifs at hne ⊢
      · omega
      · exact absurd rfl hne
    · have hlt : k < MAXFILE := by omega
      rw [sample_entry hlt] at hne ⊢
      simp only [MAXFILE, NDIRECT, NINDIRECT] at hlt
      split_ifs at hne ⊢
      · omega
      · exact absurd rfl hne
  refine ⟨⟨?_, ?_⟩, hnb, ?_, ?_⟩
  · intro k hk hne
    obtain ⟨hlo, hhi⟩ := hrange k hk hne
    refine ⟨⟨?_, ?_⟩, ?_⟩
    · have hstart : (sample type nb data).sb.datastart = 5 := sampleSb_datastart
      omega
    · have hsize : (sample type nb data).sb.size = 208 := rfl
      omega
    · rw [sample_used (by omega)]
      exact decide_eq_true (by omega)
  · intro j k hj hk heq hne
    by_cases hjend : j = MAXFILE <;> by_cases hkend : k = MAXFILE
    · omega
    · rw [hjend, hlast, sample_entry (by omega)] at heq
      rw [hjend, hlast] at hne
      split_ifs at heq hne <;> omega
    · rw [hkend, hlast, sample_entry (by omega)] at heq
      rw [sample_entry (by omega)] at hne
      split_ifs at heq hne <;> omega
    · rw [sample_entry (by omega), sample_entry (by omega)] at heq
      rw [sample_entry (by omega)] at hne
      split_ifs at heq hne <;> omega
  · intro k hk
    rw [sample_entry hk]
    split_ifs <;> omega
  · rw [hlast]
    split_ifs <;> omega

theorem sample_wellFormed (hnb : nb ≤ MAXFILE) (htype : type ≠ T_DEV) :
    WellFormed (sample type nb data) 0 where
  sane := by
    have hlayout : Layout sampleSb := ⟨by decide, by decide, by decide⟩
    have hsuper : (sample type nb data).disk 1 = wordsBlock fun i => if i = 0 then 208
        else if i = 1 then 203 else if i = 2 then 8 else if i = 5 then 2 else if i = 6 then 4 else 0 :=
      rfl
    refine ⟨?_, hlayout, ?_⟩
    · rw [hsuper, Superblock.read, word_wordsBlock _ (by decide), word_wordsBlock _ (by decide),
        word_wordsBlock _ (by decide), word_wordsBlock _ (by decide), word_wordsBlock _ (by decide),
        word_wordsBlock _ (by decide), word_wordsBlock _ (by decide)]
      rfl
    · intro b hb
      have hstart : (sample type nb data).sb.datastart = 5 := sampleSb_datastart
      rw [sample_used (by omega)]
      exact decide_eq_true (by omega)
  quiet := fun _ => rfl
  file := htype
  inum := show 1 < sampleSb.ninodes by decide
  maps := by
    have hsize : blocksOf ((sample type nb data).inode 0).size = nb := by
      show blocksOf (nb * BSIZE) = nb
      simp only [blocksOf, BSIZE]
      omega
    rw [hsize]
    exact sample_maps hnb
  stored := by
    have hfits : (sampleInode type nb).Fits := by
      refine ⟨?_, ?_⟩
      · exact Nat.lt_of_le_of_lt (Nat.mul_le_mul_right _ hnb) (by decide)
      · intro j
        have hj := j.isLt
        have hle : (sampleInode type nb).addrs j ≤ 10 + NDIRECT := by
          unfold sampleInode
          dsimp only
          split_ifs <;> omega
        exact hle.trans_lt (by decide)
    have hblock : (sample type nb data).disk (sampleSb.IBLOCK 1) =
        Dinode.write Block.zero 1 (sampleInode type nb) := rfl
    show Dinode.read ((sample type nb data).disk (sampleSb.IBLOCK 1)) (1 % IPB) = sampleInode type nb
    rw [hblock]
    exact Dinode.read_write _ (by decide) hfits

theorem sample_content {o : Nat} (ho : o < nb * BSIZE) (hnb : nb ≤ MAXFILE) :
    (sample type nb data).content 0 o = (data (o / BSIZE)).byte (o % BSIZE) := by
  have hk : o / BSIZE < nb := Nat.div_lt_of_lt_mul (Nat.mul_comm _ _ ▸ ho)
  have hdata : ∀ k, (sample type nb data).disk (10 + k) = data k := by
    intro k
    show sampleDisk type nb data _ = _
    rw [sampleDisk, if_neg (by omega), if_neg (by omega), if_neg (by omega), if_neg (by omega),
      Nat.add_sub_cancel_left]
  rw [content_eq, sample_entry (hk.trans_le hnb), if_pos hk, hdata]

theorem sample_freeCount : (sample type nb data).freeCount = 8 := by
  have hset : (Finset.range 208).filter (fun x => (sample type nb data).used x = false) =
      (Finset.range 208).filter fun x => ¬x < 200 := by
    apply Finset.filter_congr
    intro x hx
    rw [sample_used (Finset.mem_range.mp hx), decide_eq_false_iff_not]
  show ((Finset.range 208).filter fun x => (sample type nb data).used x = false).card = 8
  rw [hset]
  decide +kernel

end sample

/-- A file of zeros. -/
def oneFile (nb : Nat) : State := sample T_FILE nb fun _ => Block.zero

theorem oneFile_wellFormed (hnb : nb ≤ MAXFILE) : WellFormed (oneFile nb) 0 :=
  sample_wellFormed hnb (by decide)

theorem oneFile_content (ho : o < nb * BSIZE) (hnb : nb ≤ MAXFILE) :
    (oneFile nb).content 0 o = 0 := by
  rw [oneFile, sample_content ho hnb, Block.byte_zero]

theorem oneFile_freeCount (nb : Nat) : (oneFile nb).freeCount = 8 := sample_freeCount

end writei

end Fs
end Xv6
