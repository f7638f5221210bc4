import Xv6.Fs.Map
import Xv6.Fs.Path

/-!
# Reading a file

A cached inode `Shows` a sequence of bytes when its first `nb` blocks are there and have these
bytes.  Reading such an inode allocates nothing and leaves the state as it is: `readi_eq` gives
the bytes, and `dirlookup_eq` the entry that is found in a directory.
-/

namespace Xv6
namespace Fs

open Lib Lib.Exec

/-- The first `nb` blocks of the inode are there and have the bytes of `content`. -/
structure Shows (s : State) (ip nb : Nat) (content : Nat → UInt8) : Prop where
  quiet : ∀ b, s.busy b = false
  bound : nb ≤ MAXFILE
  mapped : ∀ k, k < nb → s.entry ip k ≠ 0
  bytes : ∀ k r, k < nb → r < BSIZE → (s.disk (s.entry ip k)).byte r = content (k * BSIZE + r)

section readi

variable {s : State} {ip nb : Nat} {content : Nat → UInt8}

theorem addrAt_of_ne {j : Fin (NDIRECT + 1)} (h : (s.inode ip).addrs j ≠ 0) :
    addrAt ip j s = .ok ((s.inode ip).addrs j, s) := by
  rw [addrAt, bind_of_ok (show inode ip s = .ok (s.inode ip, s) from rfl), if_neg h]
  rfl

theorem entryAt_of_ne {ind k : Nat} (hbusy : s.busy ind = false)
    (h : (s.disk ind).word k ≠ 0) : entryAt ind k s = .ok ((s.disk ind).word k, s) := by
  simp [entryAt, bread, brelse, Exec.bind_apply, hbusy, h, update_busy hbusy]

/-- A block that is there is found. -/
theorem Shows.bmap_eq (h : Shows s ip nb content) {k : Nat} (hk : k < nb) :
    bmap ip k s = .ok (s.entry ip k, s) := by
  have hne := h.mapped k hk
  have hmax := hk.trans_le h.bound
  unfold bmap
  by_cases hdirect : k < NDIRECT
  · rw [dif_pos hdirect]
    rw [entry_direct hdirect] at hne ⊢
    exact addrAt_of_ne hne
  · have hlo := Nat.le_of_not_lt hdirect
    have hind : k - NDIRECT < NINDIRECT := by
      simp only [MAXFILE] at hmax
      omega
    rw [dif_neg hdirect, if_pos hind]
    rw [entry_indirect hlo hmax, entry_last] at hne ⊢
    by_cases hlast : (s.inode ip).addrs (Fin.last NDIRECT) = 0
    · rw [if_pos hlast] at hne
      exact absurd rfl hne
    · rw [if_neg hlast] at hne ⊢
      rw [bind_of_ok (addrAt_of_ne hlast)]
      exact entryAt_of_ne (h.quiet _) hne

/-- The loop gathers the bytes. -/
theorem Shows.readLoop_eq (h : Shows s ip nb content) {fuel off n : Nat} (hfuel : n ≤ fuel)
    (hn : off + n ≤ nb * BSIZE) :
    readLoop ip fuel off n s = .ok (firsts (fun i => content (off + i)) n, s) := by
  induction fuel generalizing off n with
  | zero =>
    cases Nat.le_zero.mp hfuel
    rfl
  | succ fuel ih =>
    rw [readLoop]
    by_cases hzero : n = 0
    · subst hzero
      rw [if_pos rfl]
      rfl
    · rw [if_neg hzero]
      have hk : off / BSIZE < nb := by
        rw [Nat.div_lt_iff_lt_mul (by decide)]
        omega
      generalize hm : min n (BSIZE - off % BSIZE) = m
      have hrest : readLoop ip fuel (off + m) (n - m) s =
          .ok (firsts (fun i => content (off + m + i)) (n - m), s) :=
        ih (by simp only [BSIZE] at hm; omega) (by omega)
      have hlook : (do
          let bp ← bread (s.entry ip (off / BSIZE))
          brelse (s.entry ip (off / BSIZE))
          let rest ← readLoop ip fuel (off + m) (n - m)
          return extract bp (off % BSIZE) m ++ rest : FsM (List UInt8)) s =
          .ok (extract (s.disk (s.entry ip (off / BSIZE))) (off % BSIZE) m ++
            firsts (fun i => content (off + m + i)) (n - m), s) := by
        have hbusy := h.quiet (s.entry ip (off / BSIZE))
        simp [bread, brelse, Exec.bind_apply, hbusy, update_busy hbusy, hrest]
      rw [bind_of_ok (h.bmap_eq hk)]
      refine hlook.trans ?_
      -- the block has the first `m` of the bytes
      have hfirst : extract (s.disk (s.entry ip (off / BSIZE))) (off % BSIZE) m =
          firsts (fun i => content (off + i)) m := by
        apply firsts_congr
        intro i hi
        rw [h.bytes _ _ hk (by simp only [BSIZE] at hm ⊢; omega)]
        congr 1
        rw [← Nat.add_assoc, Nat.div_add_mod']
      have hsplit : n = m + (n - m) := by omega
      rw [hfirst]
      conv_rhs => rw [hsplit, firsts_add]
      simp only [Nat.add_assoc]

/-- What `readi` gives: -1 for an offset behind the end of the file or a length that wraps
around, and else the bytes that are there. -/
theorem Shows.readi_eq (h : Shows s ip nb content) (htype : (s.inode ip).type ≠ T_DEV)
    (hmax : (s.inode ip).size < 2 ^ 32) {off n : Nat} (hn : n < 2 ^ 32)
    (hread : min (off + n) (s.inode ip).size ≤ nb * BSIZE) :
    readi ip off n s = .ok (if off ≤ (s.inode ip).size ∧ off + n < 2 ^ 32 then
      some (firsts (fun i => content (off + i)) (min n ((s.inode ip).size - off))) else none,
      s) := by
  rw [readi, bind_of_ok (show inode ip s = .ok (s.inode ip, s) from rfl), if_neg htype]
  by_cases hok : off ≤ (s.inode ip).size ∧ off + n < 2 ^ 32
  · rw [if_pos hok]
    have hmod : (off + n) % 2 ^ 32 = off + n := Nat.mod_eq_of_lt hok.2
    have hguard : ¬(decide (off > (s.inode ip).size) || decide ((off + n) % 2 ^ 32 < off)) = true := by
      rw [hmod]
      simp only [Bool.or_eq_true, decide_eq_true_eq]
      omega
    have hlen : (if (off + n) % 2 ^ 32 > (s.inode ip).size then (s.inode ip).size - off else n) =
        min n ((s.inode ip).size - off) := by
      rw [hmod]
      split <;> omega
    rw [if_neg hguard]
    show (readLoop ip _ off _ >>= _) s = _
    rw [hlen, bind_of_ok (h.readLoop_eq le_rfl (by omega))]
    rfl
  · rw [if_neg hok]
    have hguard : (decide (off > (s.inode ip).size) || decide ((off + n) % 2 ^ 32 < off)) = true := by
      simp only [Bool.or_eq_true, decide_eq_true_eq]
      omega
    rw [if_pos hguard]
    rfl

end readi

/-! ## Looking up a name -/

/-- `strncmp` compares up to the first NUL. -/
theorem strncmp_eq_zero_iff (n : Nat) (p q : List UInt8) :
    strncmp n p q = 0 ↔ (p.takeWhile (· ≠ 0)).take n = (q.takeWhile (· ≠ 0)).take n := by
  induction n generalizing p q with
  | zero => simp [strncmp]
  | succ n ih =>
    have hne : ∀ {a b : UInt8}, a ≠ b → (a.toNat : Int) - b.toNat ≠ 0 := by
      intro a b hab h
      apply hab
      apply UInt8.toNat_inj.mp
      omega
    have hpos : ∀ {a : UInt8}, a ≠ 0 → a.toNat ≠ 0 := by
      intro a ha h
      exact ha (UInt8.toNat_inj.mp h)
    rw [strncmp]
    cases p with
    | nil =>
      cases q with
      | nil => simp
      | cons b q =>
        by_cases hb : b = 0
        · simp [hb]
        · simp [hb, hpos hb]
    | cons a p =>
      by_cases ha : a = 0
      · cases q with
        | nil => simp [ha]
        | cons b q =>
          by_cases hb : b = 0
          · simp [ha, hb]
          · simp [ha, hb, hpos hb]
      · cases q with
        | nil => simp [ha, hpos ha]
        | cons b q =>
          by_cases hab : a = b
          · subst hab
            simp [ha, ih]
          · by_cases hb : b = 0
            · simp [ha, hb, hpos ha]
            · simp [ha, hb, hab, hne hab]

section dirlookup

variable {s : State} {dp nb : Nat} {content : Nat → UInt8} {name : List UInt8}

/-- The `j`-th directory entry. -/
def direntAt (content : Nat → UInt8) (j : Nat) : List UInt8 :=
  firsts (fun i => content (direntSize * j + i)) direntSize

/-- The entry is used and has this name. -/
abbrev Matches (name de : List UInt8) : Prop :=
  direntInum de ≠ 0 ∧ namecmp name (direntName de) = 0

theorem Shows.readDirent_eq (h : Shows s dp nb content) (htype : (s.inode dp).type = T_DIR)
    (hmax : (s.inode dp).size < 2 ^ 32) {e : Stop} {j : Nat}
    (hsize : direntSize * (j + 1) ≤ (s.inode dp).size) (hnb : direntSize * (j + 1) ≤ nb * BSIZE) :
    readDirent e dp (direntSize * j) s = .ok (direntAt content j, s) := by
  have hdev : (s.inode dp).type ≠ T_DEV := by
    rw [htype]
    decide
  rw [Nat.mul_add, Nat.mul_one] at hsize hnb
  have hlen : min direntSize ((s.inode dp).size - direntSize * j) = direntSize := by omega
  have hread : readi dp (direntSize * j) direntSize s = .ok (_, s) :=
    h.readi_eq hdev hmax (by decide) (by omega)
  rw [if_pos ⟨by omega, by omega⟩, hlen] at hread
  rw [readDirent, bind_of_ok hread]
  exact congrFun (if_pos (length_firsts ..)) s

/-- The loop of `dirlookup` finds the first entry that matches. -/
theorem Shows.dirlookupFrom_eq (h : Shows s dp nb content) (htype : (s.inode dp).type = T_DIR)
    (hmax : (s.inode dp).size < 2 ^ 32) {j t fuel : Nat} (hjt : j ≤ t) (hfuel : t < j + fuel)
    (hsize : direntSize * (t + 1) ≤ (s.inode dp).size) (hnb : direntSize * (t + 1) ≤ nb * BSIZE)
    (hskip : ∀ m, j ≤ m → m < t → ¬Matches name (direntAt content m))
    (hfound : Matches name (direntAt content t)) :
    dirlookupFrom dp name fuel (direntSize * j) s = (do
      let ip ← iget (s.inode dp).dev (direntInum (direntAt content t))
      return some (ip, direntSize * t) : FsM (Option (Nat × Nat))) s := by
  induction fuel generalizing j with
  | zero => omega
  | succ fuel ih =>
    have hle : direntSize * (j + 1) ≤ direntSize * (t + 1) := Nat.mul_le_mul_left _ (by omega)
    have hpos : 0 < direntSize := by decide
    have hread := h.readDirent_eq htype hmax (e := .dirlookup) (j := j) (by omega) (by omega)
    rw [dirlookupFrom, bind_of_ok (show inode dp s = .ok (s.inode dp, s) from rfl),
      if_pos (by rw [Nat.mul_add] at hle; omega), bind_of_ok hread]
    rcases Nat.lt_or_eq_of_le hjt with hlt | rfl
    · -- not yet
      rw [if_neg (hskip j (Nat.le_refl j) hlt), ← Nat.mul_succ]
      exact ih hlt (by omega) fun m hm => hskip m (by omega)
    · rw [if_pos hfound]

theorem Shows.dirlookup_eq (h : Shows s dp nb content) (htype : (s.inode dp).type = T_DIR)
    (hmax : (s.inode dp).size < 2 ^ 32) {t : Nat}
    (hsize : direntSize * (t + 1) ≤ (s.inode dp).size) (hnb : direntSize * (t + 1) ≤ nb * BSIZE)
    (hskip : ∀ m, m < t → ¬Matches name (direntAt content m))
    (hfound : Matches name (direntAt content t)) :
    dirlookup dp name s = (do
      let ip ← iget (s.inode dp).dev (direntInum (direntAt content t))
      return some (ip, direntSize * t) : FsM (Option (Nat × Nat))) s := by
  rw [dirlookup, bind_of_ok (show inode dp s = .ok (s.inode dp, s) from rfl),
    if_neg (fun hne => hne htype)]
  have hfuel : t < (s.inode dp).size / direntSize + 1 := by
    have hdiv := (Nat.le_div_iff_mul_le (by decide)).mpr (Nat.mul_comm _ _ ▸ hsize)
    omega
  exact h.dirlookupFrom_eq htype hmax (Nat.zero_le t) (by omega) hsize hnb
    (fun m _ hm => hskip m hm) hfound

/-- The loop of `dirlookup` passes over the entries that do not match. -/
theorem Shows.dirlookupFrom_absent (h : Shows s dp nb content) (htype : (s.inode dp).type = T_DIR)
    (hmax : (s.inode dp).size < 2 ^ 32) {j n fuel : Nat} (hn : (s.inode dp).size = direntSize * n)
    (hnb : (s.inode dp).size ≤ nb * BSIZE) (hj : j ≤ n) (hfuel : n < j + fuel)
    (hskip : ∀ m, m < n → ¬Matches name (direntAt content m)) :
    dirlookupFrom dp name fuel (direntSize * j) s = .ok (none, s) := by
  induction fuel generalizing j with
  | zero => omega
  | succ fuel ih =>
    have hpos : 0 < direntSize := by decide
    rw [dirlookupFrom, bind_of_ok (show inode dp s = .ok (s.inode dp, s) from rfl), hn]
    rcases Nat.lt_or_eq_of_le hj with hlt | rfl
    · have hle : direntSize * (j + 1) ≤ direntSize * n := Nat.mul_le_mul_left _ hlt
      have hread := h.readDirent_eq htype hmax (e := .dirlookup) (j := j) (by omega) (by omega)
      rw [if_pos ((Nat.mul_lt_mul_left hpos).mpr hlt), bind_of_ok hread,
        if_neg (hskip j hlt), ← Nat.mul_succ]
      exact ih hlt (by omega)
    · rw [if_neg (Nat.lt_irrefl _)]
      rfl

/-- A name that is not there is not found. -/
theorem Shows.dirlookup_absent (h : Shows s dp nb content) (htype : (s.inode dp).type = T_DIR)
    (hmax : (s.inode dp).size < 2 ^ 32) {n : Nat} (hn : (s.inode dp).size = direntSize * n)
    (hnb : (s.inode dp).size ≤ nb * BSIZE)
    (hskip : ∀ m, m < n → ¬Matches name (direntAt content m)) :
    dirlookup dp name s = .ok (none, s) := by
  rw [dirlookup, bind_of_ok (show inode dp s = .ok (s.inode dp, s) from rfl),
    if_neg (fun hne => hne htype)]
  refine h.dirlookupFrom_absent htype hmax hn hnb (Nat.zero_le n) ?_ hskip
  rw [hn, Nat.mul_div_cancel_left _ (by decide)]
  omega

end dirlookup

end Fs
end Xv6
