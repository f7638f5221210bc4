import Xv6.Log.Model

/-!
# Crash atomicity of the log

Fix a recorded transaction.  At any moment between two disk writes of
`commit()`, or of a recovery after it, the disk is in one of three stages:

* `clean` and untouched: the header says `n = 0` and no home block changed;
* committed: the header and the log blocks hold the transaction, and every home
  block holds its old or its new contents;
* `clean` and installed: the header says `n = 0` and every home block holds its
  new contents.

Each write of `commit()` keeps the disk in a stage, and so does each write of
`recover_from_log()`; in the second stage `install_trans()` may be repeated from
the start any number of times, because it copies the same log blocks again.  A
completed recovery leaves the first or the third stage.
-/

namespace Xv6
namespace Log

open Lib Lib.Exec Function

/-! ## The header block -/

theorem word_foldl_setWord (d : Block) (f : Nat → Nat) (m k : Nat) (hm : m < 128) :
    ((List.range m).foldl (fun hb i => hb.setWord (i + 1) (f i)) d).word k =
      if 1 ≤ k ∧ k ≤ m then f (k - 1) % 2 ^ 32 else d.word k := by
  induction m with
  | zero =>
    rw [if_neg (by omega)]
    rfl
  | succ m ih =>
    rw [List.range_succ, List.foldl_append]
    simp only [List.foldl_cons, List.foldl_nil]
    by_cases hk : k = m + 1
    · subst hk
      rw [Block.word_setWord_self _ _ hm, if_pos ⟨by omega, by omega⟩]
      simp
    · rw [Block.word_setWord_of_ne _ _ (Ne.symm hk), ih (by omega)]
      have hiff : (1 ≤ k ∧ k ≤ m + 1) ↔ (1 ≤ k ∧ k ≤ m) := by omega
      simp only [hiff]

theorem word_encodeHead_zero (d : Block) (lh : LogHeader) (h : lh.n ≤ LOGSIZE) :
    (encodeHead d lh).word 0 = (lh.n % 2 ^ 32).toNat := by
  have hn : lh.n.toNat < 128 := by
    simp only [LOGSIZE] at h
    omega
  unfold encodeHead
  rw [word_foldl_setWord _ _ _ _ hn, if_neg (by omega), Block.word_setWord_self _ _ (by omega)]
  omega

theorem word_encodeHead_succ (d : Block) (lh : LogHeader) (h : lh.n ≤ LOGSIZE) {i : Nat}
    (hi : i < lh.n.toNat) (hb : lh.block i < 2 ^ 32) :
    (encodeHead d lh).word (i + 1) = lh.block i := by
  have hn : lh.n.toNat < 128 := by
    simp only [LOGSIZE] at h
    omega
  unfold encodeHead
  rw [word_foldl_setWord _ _ _ _ hn, if_pos ⟨by omega, by omega⟩]
  simpa using Nat.mod_eq_of_lt hb

/-! ## Reading and writing one block -/

/-- The contents `bread` returns. -/
def State.read (s : State) (b : Nat) : Block := (s.cache b).getD (s.disk b)

/-- States that differ at most in which unmodified blocks are cached. -/
structure SameView (s t : State) : Prop where
  disk : t.disk = s.disk
  lh : t.lh = s.lh
  writesLeft : t.writesLeft = s.writesLeft
  read : ∀ b, t.read b = s.read b

theorem SameView.refl (s : State) : SameView s s := ⟨rfl, rfl, rfl, fun _ => rfl⟩

theorem SameView.trans {s t u : State} (h1 : SameView s t) (h2 : SameView t u) :
    SameView s u :=
  ⟨h2.disk.trans h1.disk, h2.lh.trans h1.lh, h2.writesLeft.trans h1.writesLeft,
    fun b => (h2.read b).trans (h1.read b)⟩

theorem bread_spec (s : State) (b : Nat) :
    ∃ t, bread b s = .ok (s.read b, t) ∧ SameView s t := by
  unfold bread
  cases hc : s.cache b with
  | some d => exact ⟨s, by simp [State.read, hc], SameView.refl s⟩
  | none =>
    refine ⟨{ s with cache := update s.cache b (some (s.disk b)) },
      by simp [State.read, hc], rfl, rfl, rfl, ?_⟩
    intro b'
    by_cases hb : b' = b
    · subst hb
      simp [State.read, hc]
    · simp [State.read, update_of_ne hb]

/-- `t` is `s` after writing `d` to block `b`. -/
structure Wrote (s t : State) (b : Nat) (d : Block) : Prop where
  disk : t.disk = update s.disk b d
  lh : t.lh = s.lh
  writesLeft : s.writesLeft = t.writesLeft + 1
  read : t.read = update s.read b d

/-- The program performs exactly one disk write, of `data s` to block `dst s`,
or is stopped before it. -/
def OneWrite (m : LogM Unit) (dst : State → Nat) (data : State → Block) : Prop :=
  ∀ s, (∃ t, m s = .ok ((), t) ∧ Wrote s t (dst s) (data s)) ∨
    (s.writesLeft = 0 ∧ m s = .error s.disk)

theorem bwrite_oneWrite (b : Nat) (d : Block) :
    OneWrite (bwrite b d) (fun _ => b) (fun _ => d) := by
  intro s
  cases hw : s.writesLeft with
  | zero => exact .inr ⟨rfl, by simp [bwrite, hw]⟩
  | succ k =>
    refine .inl ⟨{ s with
      disk := update s.disk b d
      cache := update s.cache b (some d)
      writesLeft := k }, by simp only [bwrite, hw], rfl, rfl, hw, ?_⟩
    funext b'
    by_cases hb : b' = b
    · subst hb
      simp [State.read]
    · simp [State.read, update_of_ne hb]

/-- Reads before a write do not matter. -/
theorem OneWrite.of_sameView {s t : State} {m : LogM Unit} {b : Nat} {d : Block}
    (hv : SameView s t) (hm : OneWrite m (fun _ => b) (fun _ => d)) :
    (∃ u, m t = .ok ((), u) ∧ Wrote s u b d) ∨ (s.writesLeft = 0 ∧ m t = .error s.disk) := by
  rcases hm t with ⟨u, hu, hw⟩ | ⟨h0, he⟩
  · refine .inl ⟨u, hu, ?_, hw.lh.trans hv.lh, ?_, ?_⟩
    · rw [hw.disk, hv.disk]
    · rw [← hv.writesLeft, hw.writesLeft]
    · rw [hw.read, funext hv.read]
  · refine .inr ⟨hv.writesLeft ▸ h0, ?_⟩
    rw [he, hv.disk]

theorem installRound_oneWrite (log : LogArea) (tail : Nat) :
    OneWrite (installRound log tail) (fun s => s.lh.block tail)
      (fun s => s.read (log.start + tail + 1)) := by
  intro s
  obtain ⟨t, ht, hvt⟩ := bread_spec s (log.start + tail + 1)
  obtain ⟨u, hu, hvu⟩ := bread_spec t (t.lh.block tail)
  have hrun : installRound log tail s =
      bwrite (t.lh.block tail) (s.read (log.start + tail + 1)) u := by
    unfold installRound
    rw [bind_of_ok ht, bind_of_ok (get_apply t), bind_of_ok hu]
  rw [hrun, hvt.lh]
  exact OneWrite.of_sameView (hvt.trans hvu) (bwrite_oneWrite _ _)

theorem writeLogRound_oneWrite (log : LogArea) (tail : Nat) :
    OneWrite (writeLogRound log tail) (fun _ => log.start + tail + 1)
      (fun s => s.read (s.lh.block tail)) := by
  intro s
  obtain ⟨t, ht, hvt⟩ := bread_spec s (log.start + tail + 1)
  obtain ⟨u, hu, hvu⟩ := bread_spec t (t.lh.block tail)
  have hrun : writeLogRound log tail s =
      bwrite (log.start + tail + 1) (s.read (s.lh.block tail)) u := by
    unfold writeLogRound
    rw [bind_of_ok ht, bind_of_ok (get_apply t), bind_of_ok hu, hvt.read, hvt.lh]
  rw [hrun]
  exact OneWrite.of_sameView (hvt.trans hvu) (bwrite_oneWrite _ _)

theorem writeHead_oneWrite (log : LogArea) :
    OneWrite (writeHead log) (fun _ => log.start)
      (fun s => encodeHead (s.read log.start) s.lh) := by
  intro s
  obtain ⟨t, ht, hvt⟩ := bread_spec s log.start
  have hrun : writeHead log s = bwrite log.start (encodeHead (s.read log.start) s.lh) t := by
    unfold writeHead
    rw [bind_of_ok ht, bind_of_ok (get_apply t), hvt.lh]
  rw [hrun]
  exact OneWrite.of_sameView hvt (bwrite_oneWrite _ _)

/-- The rule for a single write: it is enough to look at the state after it and,
when the machine stops, at the disk before it. -/
theorem OneWrite.triple {m : LogM Unit} {dst : State → Nat} {data : State → Block}
    (h : OneWrite m dst data) {P Q : State → Prop} {E : Disk → Prop}
    (hQ : ∀ s t, P s → Wrote s t (dst s) (data s) → Q t)
    (hE : ∀ s, P s → s.writesLeft = 0 → E s.disk) : Triple P m (fun _ => Q) E := by
  intro s hs
  rcases h s with ⟨t, ht, hw⟩ | ⟨h0, he⟩
  · rw [ht]
    exact hQ s t hs hw
  · rw [he]
    exact hE s hs h0

/-- A loop over `log.lh.n` entries runs its rounds on states with that header. -/
theorem forTail_triple {f : Nat → LogM Unit} {n : Nat} {I : Nat → State → Prop}
    {E : Disk → Prop} (hn : ∀ s, I 0 s → s.lh.n.toNat = n)
    (h : ∀ i, i < n → Triple (I i) (f i) (fun _ => I (i + 1)) E) :
    Triple (I 0) (forTail f) (fun _ => I n) E := by
  intro s hs
  have hrun : forTail f s = upto n f s := by
    unfold forTail
    rw [bind_of_ok (get_apply s), hn s hs]
  rw [hrun]
  exact Triple.upto h s hs

/-! ## The stages of the disk -/

/-- The new contents of the `i`-th home block: what `bread` returns for it. -/
def State.newData (s : State) (i : Nat) : Block := s.read (s.lh.block i)

/-- The on-disk header says that no transaction is committed. -/
def Clean (log : LogArea) (d : Disk) : Prop := toInt ((d log.start).word 0) = 0

/-- Outside the log area the disks agree. -/
def SameOutside (log : LogArea) (d d' : Disk) : Prop := ∀ b, ¬ log.Contains b → d b = d' b

/-- The transaction recorded in `s0` is committed on disk `d`: the header and the
log blocks hold it, and every home block holds its old or its new contents. -/
structure Committed (log : LogArea) (s0 : State) (d : Disk) : Prop where
  count : (d log.start).word 0 = s0.lh.n.toNat
  entry : ∀ i, i < s0.lh.n.toNat → (d log.start).word (i + 1) = s0.lh.block i
  copy : ∀ i, i < s0.lh.n.toNat → d (log.start + i + 1) = s0.newData i
  home : ∀ b, ¬ log.Contains b → d b = s0.disk b ∨ d b = s0.updated b

/-- The three stages a stop can leave behind. -/
inductive Stage (log : LogArea) (s0 : State) (d : Disk) : Prop
  | before (hclean : Clean log d) (hsame : SameOutside log d s0.disk)
  | committed (hcommitted : Committed log s0 d)
  | after (hclean : Clean log d) (hsame : SameOutside log d s0.updated)

/-- The in-memory header describes the recorded transaction. -/
structure HeaderIs (s0 : State) (lh : LogHeader) : Prop where
  n : lh.n = s0.lh.n
  block : ∀ i, i < s0.lh.n.toNat → lh.block i = s0.lh.block i

section Transaction

variable {log : LogArea} {s0 : State}

theorem Recorded.start_contains (h : Recorded log s0) : log.Contains log.start := by
  have := h.pos
  have := h.fits
  exact ⟨by omega, by omega⟩

theorem Recorded.copy_contains (h : Recorded log s0) {i : Nat} (hi : i < s0.lh.n.toNat) :
    log.Contains (log.start + i + 1) := by
  have := h.fits
  exact ⟨by omega, by omega⟩

theorem Recorded.ne_start (h : Recorded log s0) {b : Nat} (hb : ¬ log.Contains b) :
    b ≠ log.start := by
  rintro rfl
  exact hb h.start_contains

theorem Recorded.ne_copy (h : Recorded log s0) {i b : Nat} (hi : i < s0.lh.n.toNat)
    (hb : ¬ log.Contains b) : b ≠ log.start + i + 1 := by
  rintro rfl
  exact hb (h.copy_contains hi)

theorem updated_block {i : Nat} (hi : i < s0.lh.n.toNat) :
    s0.updated (s0.lh.block i) = s0.newData i := by
  have hhome : s0.IsHome (s0.lh.block i) := ⟨i, hi, rfl⟩
  simp [State.updated, hhome, State.newData, State.read]

/-- Once every home block holds its new contents, the disk is the updated one. -/
theorem Committed.sameOutside_updated {d : Disk} (hc : Committed log s0 d)
    (hall : ∀ i, i < s0.lh.n.toNat → d (s0.lh.block i) = s0.newData i) :
    SameOutside log d s0.updated := by
  intro b hb
  by_cases hhome : s0.IsHome b
  · obtain ⟨i, hi, rfl⟩ := hhome
    rw [hall i hi, updated_block hi]
  · rcases hc.home b hb with hold | hnew
    · rw [hold]
      simp [State.updated, hhome]
    · exact hnew

/-- Copying a log block home again keeps the transaction committed: this is what
makes installing idempotent. -/
theorem Committed.install (h : Recorded log s0) {d : Disk} (hc : Committed log s0 d)
    {i : Nat} (hi : i < s0.lh.n.toNat) :
    Committed log s0 (update d (s0.lh.block i) (s0.newData i)) := by
  have hout := h.outside i hi
  have hstart : log.start ≠ s0.lh.block i := (h.ne_start hout).symm
  refine ⟨?_, ?_, ?_, ?_⟩
  · rw [update_of_ne hstart]
    exact hc.count
  · intro j hj
    rw [update_of_ne hstart]
    exact hc.entry j hj
  · intro j hj
    rw [update_of_ne (h.ne_copy hj hout).symm]
    exact hc.copy j hj
  · intro b hb
    by_cases hbi : b = s0.lh.block i
    · subst hbi
      right
      rw [update_self, updated_block hi]
    · rw [update_of_ne hbi]
      exact hc.home b hb

/-- The state between two rounds of `install_trans()`, `i` of them done, with
`writes` disk writes left at its start. -/
structure Installing (log : LogArea) (s0 : State) (writes i : Nat) (s : State) : Prop where
  header : HeaderIs s0 s.lh
  committed : Committed log s0 s.disk
  copy : ∀ j, j < s0.lh.n.toNat → s.read (log.start + j + 1) = s0.newData j
  done : ∀ j, j < i → s.disk (s0.lh.block j) = s0.newData j
  left : s.writesLeft + i = writes

theorem installTrans_triple (h : Recorded log s0) (writes : Nat) :
    Triple (Installing log s0 writes 0) (installTrans log)
      (fun _ => Installing log s0 writes s0.lh.n.toNat)
      (fun d => Committed log s0 d ∧ writes < s0.lh.n.toNat) := by
  refine forTail_triple (I := Installing log s0 writes) (fun s hs => by rw [hs.header.n]) ?_
  intro i hi
  refine (installRound_oneWrite log i).triple ?_ ?_
  · intro s t hs hw
    have hblock := hs.header.block i hi
    have hdata := hs.copy i hi
    have hdisk : t.disk = update s.disk (s0.lh.block i) (s0.newData i) := by
      rw [hw.disk, hblock, hdata]
    refine ⟨hw.lh ▸ hs.header, hdisk ▸ hs.committed.install h hi, ?_, ?_, ?_⟩
    · intro j hj
      rw [hw.read, update_of_ne]
      · exact hs.copy j hj
      · rw [hblock]
        exact (h.ne_copy hj (h.outside i hi)).symm
    · intro j hj
      rw [hdisk]
      by_cases hji : j = i
      · subst hji
        rw [update_self]
      · rw [update_of_ne]
        · exact hs.done j (by omega)
        · intro heq
          exact hji (h.distinct j i (by omega) hi heq)
    · have := hw.writesLeft
      have := hs.left
      omega
  · intro s hs h0
    have := hs.left
    exact ⟨hs.committed, by omega⟩

/-- The end of both `commit()` and `recover_from_log()`: `log.lh.n = 0` and
`write_head()`. -/
theorem clearLog_triple (h : Recorded log s0) (d : Disk) (writes : Nat) :
    Triple (fun s => s.disk = d ∧ s.writesLeft = writes)
      (do
        clearHead
        writeHead log)
      (fun _ t => Clean log t.disk ∧ SameOutside log t.disk d)
      (fun d' => d' = d ∧ writes = 0) := by
  refine Triple.bind (Q := fun _ s => s.lh.n = 0 ∧ s.disk = d ∧ s.writesLeft = writes)
    (Triple.modify fun s hs => ⟨rfl, hs.1, hs.2⟩) fun _ => ?_
  refine (writeHead_oneWrite log).triple ?_ ?_
  · rintro s t ⟨hn, hd, -⟩ hw
    constructor
    · unfold Clean
      rw [hw.disk, update_self, word_encodeHead_zero _ _ (by rw [hn]; decide), hn]
      rfl
    · intro b hb
      rw [hw.disk, update_of_ne (h.ne_start hb), hd]
  · rintro s ⟨-, hd, hwr⟩ h0
    exact ⟨hd, by omega⟩

/-- The state between two rounds of `write_log()`, `i` of them done: nothing has
changed outside the log blocks, of which the first `i` hold the new contents. -/
structure Logging (log : LogArea) (s0 : State) (i : Nat) (s : State) : Prop where
  lh : s.lh = s0.lh
  start : s.disk log.start = s0.disk log.start
  disk : SameOutside log s.disk s0.disk
  read : SameOutside log s.read s0.read
  copy : ∀ j, j < i →
    s.disk (log.start + j + 1) = s0.newData j ∧ s.read (log.start + j + 1) = s0.newData j

theorem Logging.stage (h : Recorded log s0) {i : Nat} {s : State} (hs : Logging log s0 i s) :
    Stage log s0 s.disk :=
  .before (by rw [Clean, hs.start]; exact h.clean) hs.disk

theorem writeLog_triple (h : Recorded log s0) :
    Triple (Logging log s0 0) (writeLog log) (fun _ => Logging log s0 s0.lh.n.toNat)
      (Stage log s0) := by
  refine forTail_triple (I := Logging log s0) (fun s hs => by rw [hs.lh]) ?_
  intro i hi
  refine (writeLogRound_oneWrite log i).triple ?_ fun s hs _ => hs.stage h
  intro s t hs hw
  have hdata : s.read (s.lh.block i) = s0.newData i := by
    rw [hs.lh, hs.read _ (h.outside i hi)]
    rfl
  rw [hdata] at hw
  refine ⟨hw.lh.trans hs.lh, ?_, ?_, ?_, ?_⟩
  · rw [hw.disk, update_of_ne (by omega)]
    exact hs.start
  · intro b hb
    rw [hw.disk, update_of_ne (h.ne_copy hi hb)]
    exact hs.disk b hb
  · intro b hb
    rw [hw.read, update_of_ne (h.ne_copy hi hb)]
    exact hs.read b hb
  · intro j hj
    rw [hw.disk, hw.read]
    by_cases hji : j = i
    · subst hji
      simp only [update_self, and_self]
    · rw [update_of_ne (by omega), update_of_ne (by omega)]
      exact hs.copy j (by omega)

/-- The header write is the commit point. -/
theorem commitPoint_triple (h : Recorded log s0) :
    Triple (Logging log s0 s0.lh.n.toNat) (writeHead log)
      (fun _ t => Installing log s0 t.writesLeft 0 t) (Stage log s0) := by
  refine (writeHead_oneWrite log).triple ?_ fun s hs _ => hs.stage h
  intro s t hs hw
  have hcap : s.lh.n ≤ LOGSIZE := hs.lh ▸ h.capacity
  have hlh : t.lh = s0.lh := hw.lh.trans hs.lh
  refine ⟨⟨by rw [hlh], fun i _ => by rw [hlh]⟩, ⟨?_, ?_, ?_, ?_⟩, ?_, ?_, rfl⟩
  · rw [hw.disk, update_self, word_encodeHead_zero _ _ hcap, hs.lh]
    have := h.pos
    have := h.capacity
    simp only [LOGSIZE] at this
    omega
  · intro i hi
    rw [hw.disk, update_self, word_encodeHead_succ _ _ hcap (hs.lh ▸ hi)
      (hs.lh ▸ h.isBlockno i hi), hs.lh]
  · intro i hi
    rw [hw.disk, update_of_ne (by omega)]
    exact (hs.copy i hi).1
  · intro b hb
    left
    rw [hw.disk, update_of_ne (h.ne_start hb)]
    exact hs.disk b hb
  · intro i hi
    rw [hw.read, update_of_ne (by omega)]
    exact (hs.copy i hi).2
  · intro j hj
    exact absurd hj (Nat.not_lt_zero j)

theorem Installing.stage {writes i : Nat} {s : State} (hs : Installing log s0 writes i s) :
    Stage log s0 s.disk := .committed hs.committed

/-- From a disk on which everything is installed, clearing the log ends in the
last stage, and a stop before the header write is still the committed stage. -/
theorem clearInstalled_triple (h : Recorded log s0) (writes : Nat) :
    Triple (Installing log s0 writes s0.lh.n.toNat)
      (do
        clearHead
        writeHead log)
      (fun _ t => Clean log t.disk ∧ SameOutside log t.disk s0.updated)
      (fun d => Stage log s0 d ∧ writes ≤ s0.lh.n.toNat) := by
  intro s hs
  have hall := hs.committed.sameOutside_updated fun i hi => hs.done i hi
  have hstart : ∀ t, t = s → t.disk = s.disk ∧ t.writesLeft = s.writesLeft := by
    rintro t rfl
    exact ⟨rfl, rfl⟩
  refine (clearLog_triple h s.disk s.writesLeft).weaken hstart ?_ ?_ s rfl
  · rintro _ t ⟨hclean, hsame⟩
    exact ⟨hclean, fun b hb => (hsame b hb).trans (hall b hb)⟩
  · rintro d ⟨rfl, h0⟩
    have := hs.left
    exact ⟨hs.stage, by omega⟩

/-- Wherever the machine stops, and also when it does not, `commit()` leaves the
disk in one of the three stages. -/
theorem commit_stage (h : Recorded log s0) : Stage log s0 (diskAfter (commit log s0)) := by
  have htriple : Triple (fun s => s = s0) (commit log)
      (fun _ t => Stage log s0 t.disk) (Stage log s0) := by
    intro s hs
    rw [hs]
    have hrun : commit log s0 = (do
        writeLog log
        writeHead log
        installTrans log
        clearHead
        writeHead log : LogM Unit) s0 := by
      unfold commit
      rw [bind_of_ok (get_apply s0), if_pos (by have := h.pos; omega)]
    rw [hrun]
    refine (writeLog_triple h).bind (fun _ => (commitPoint_triple h).bind fun _ => ?_) s0
      ⟨rfl, rfl, fun _ _ => rfl, fun _ _ => rfl, fun j hj => absurd hj (Nat.not_lt_zero j)⟩
    -- the number of writes left is a parameter of the remaining two phases
    intro s hs
    refine Triple.bind ((installTrans_triple h s.writesLeft).weaken (fun _ => id) (fun _ _ => id)
      fun d hd => .committed hd.1) (fun _ => ?_) s hs
    exact (clearInstalled_triple h s.writesLeft).weaken (fun _ => id)
      (fun _ t ht => .after ht.1 ht.2) fun d hd => hd.1
  cases hc : commit log s0 with
  | error d => exact htriple.of_error rfl hc
  | ok p => exact htriple.of_ok rfl hc

/-! ## Recovery -/

/-- The outcome of a completed recovery. -/
def Recovered (log : LogArea) (s0 : State) (d : Disk) : Prop :=
  Clean log d ∧ (SameOutside log d s0.disk ∨ SameOutside log d s0.updated)

theorem toInt_of_lt {w : Nat} (h : w < 2 ^ 31) : toInt w = w := by
  simp only [toInt, if_pos h]

/-- `read_head()` on a freshly booted machine. -/
theorem readHead_boot (d : Disk) (writes : Nat) :
    ∃ t, readHead log (boot d writes) = .ok ((), t) ∧ t.disk = d ∧ t.read = d ∧
      t.writesLeft = writes ∧ t.lh = decodeHead (d log.start) (boot d writes).lh := by
  obtain ⟨u, hu, hv⟩ := bread_spec (boot d writes) log.start
  have hread : (boot d writes).read log.start = d log.start := rfl
  refine ⟨{ u with lh := decodeHead (d log.start) u.lh }, ?_, hv.disk, ?_, hv.writesLeft, ?_⟩
  · unfold readHead
    rw [bind_of_ok hu, hread]
    rfl
  · funext b
    exact hv.read b
  · rw [← hv.lh]

/-- A recovery started on a disk in one of the stages ends in such a stage when
it is stopped, which needs at most `n` writes before the stop, and otherwise in
the first or the last stage. -/
theorem recover_triple (h : Recorded log s0) {d : Disk} (hd : Stage log s0 d) (writes : Nat) :
    Triple (fun s => s = boot d writes) (recoverFromLog log)
      (fun _ t => Recovered log s0 t.disk)
      (fun d' => Stage log s0 d' ∧ writes ≤ s0.lh.n.toNat) := by
  rintro _ rfl
  obtain ⟨t, ht, htdisk, htread, htwrites, htlh⟩ := @readHead_boot log d writes
  have hrun : recoverFromLog log (boot d writes) = (do
      installTrans log
      clearHead
      writeHead log : LogM Unit) t := by
    unfold recoverFromLog
    rw [bind_of_ok ht]
  rw [hrun]
  -- with a clean header nothing is installed and only the header is rewritten
  have hcleanCase : Clean log d → (Stage log s0 d) →
      (∀ d', SameOutside log d' d → Clean log d' → Recovered log s0 d') →
      Triple (fun s => s = t) (do
        installTrans log
        clearHead
        writeHead log) (fun _ u => Recovered log s0 u.disk)
        (fun d' => Stage log s0 d' ∧ writes ≤ s0.lh.n.toNat) := by
    intro hclean hstage hrec
    have hn : t.lh.n = 0 := by
      rw [htlh]
      exact hclean
    refine Triple.bind (Q := fun _ s => s = t) ?_ fun _ => ?_
    · intro s hs
      rw [hs]
      have : installTrans log t = .ok ((), t) := by
        unfold installTrans forTail
        rw [bind_of_ok (get_apply t), hn]
        rfl
      rw [this]
    · refine (clearLog_triple h d writes).weaken ?_ ?_ ?_
      · rintro _ rfl
        exact ⟨htdisk, htwrites⟩
      · rintro _ u ⟨hu, hsame⟩
        exact hrec u.disk hsame hu
      · rintro _ ⟨rfl, h0⟩
        exact ⟨hstage, by omega⟩
  cases hd with
  | before hclean hsame =>
    exact hcleanCase hclean (.before hclean hsame)
      (fun d' hd' hc' => ⟨hc', .inl fun b hb => (hd' b hb).trans (hsame b hb)⟩) t rfl
  | after hclean hsame =>
    exact hcleanCase hclean (.after hclean hsame)
      (fun d' hd' hc' => ⟨hc', .inr fun b hb => (hd' b hb).trans (hsame b hb)⟩) t rfl
  | committed hc =>
    have hcap := h.capacity
    simp only [LOGSIZE] at hcap
    have hpos := h.pos
    have hcount : toInt ((d log.start).word 0) = s0.lh.n := by
      rw [hc.count, toInt_of_lt (by omega)]
      omega
    have hstart : Installing log s0 writes 0 t := by
      refine ⟨⟨?_, ?_⟩, htdisk ▸ hc, ?_, ?_, by omega⟩
      · rw [htlh]
        exact hcount
      · intro i hi
        rw [htlh]
        simp only [decodeHead, hcount]
        rw [if_pos (by omega), hc.entry i hi]
      · intro j hj
        rw [htread]
        exact hc.copy j hj
      · intro j hj
        exact absurd hj (Nat.not_lt_zero j)
    refine Triple.bind ((installTrans_triple h writes).weaken (fun _ => id) (fun _ _ => id)
      fun d' hd' => ⟨.committed hd'.1, by omega⟩) (fun _ => ?_) t hstart
    exact (clearInstalled_triple h writes).weaken (fun _ => id)
      (fun _ u hu => ⟨hu.1, .inr hu.2⟩) fun _ hd' => hd'

theorem Stage.recovers (h : Recorded log s0) {d d' : Disk} (hr : Recovers log d d')
    (hd : Stage log s0 d) : Recovered log s0 d' := by
  induction hr with
  | complete hrun => exact (recover_triple h hd _).of_ok rfl hrun
  | stopped hrun _ ih => exact ih ((recover_triple h hd _).of_error rfl hrun).1

theorem Stage.exists_recovers (h : Recorded log s0) {d : Disk} (hd : Stage log s0 d) :
    ∃ d', Recovers log d d' := by
  cases hrun : recoverFromLog log (boot d (s0.lh.n.toNat + 1)) with
  | ok p => exact ⟨_, .complete hrun⟩
  | error d1 =>
    have := ((recover_triple h hd _).of_error rfl hrun).2
    omega

/-- **Crash atomicity of the log.**  Stop the machine at any point between two of
the disk writes of `commit()` (or not at all), and again any number of times
during recovery: a recovery can complete, and once one has, the header says
`n = 0` and the blocks outside the log area are either all as before the
transaction or all as after it. -/
theorem commit_crash_atomic (log : LogArea) (s : State) (h : Recorded log s) :
    (∃ d, Recovers log (diskAfter (commit log s)) d) ∧
      ∀ d, Recovers log (diskAfter (commit log s)) d → toInt ((d log.start).word 0) = 0 ∧
          ((∀ b, ¬ log.Contains b → d b = s.disk b) ∨
            (∀ b, ¬ log.Contains b → d b = s.updated b)) :=
  ⟨(commit_stage h).exists_recovers h, fun _ hd => (commit_stage h).recovers h hd⟩

end Transaction

/-- Two home blocks are recorded in a log area of the size `mkfs` writes; the machine stops after
three writes. -/
def sampleState : State where
  disk := fun _ => Block.zero
  cache := fun b => if b = 100 ∨ b = 101 then some (Block.ofFn fun _ => UInt8.ofNat b) else none
  lh := { n := 2, block := fun i => 100 + i }
  writesLeft := 3

theorem sample_outside {b : Nat} (hb : 100 ≤ b) : ¬(⟨2, 30⟩ : LogArea).Contains b := by
  dsimp only [LogArea.Contains]
  omega

theorem sampleState_recorded : Recorded ⟨2, 30⟩ sampleState where
  clean := by simp [sampleState, toInt]
  pos := by decide
  fits := by decide
  capacity := by decide
  isBlockno := by decide
  distinct := fun i j _ _ h => Nat.add_left_cancel h
  outside := fun i _ => sample_outside (Nat.le_add_right 100 i)
  cached := by decide

/-- After a recovery both blocks are as before, or both are as after the transaction. -/
theorem commit_crash_atomic_sample : Recorded ⟨2, 30⟩ sampleState ∧
    (∃ d, Recovers ⟨2, 30⟩ (diskAfter (commit ⟨2, 30⟩ sampleState)) d) ∧
    ∀ d, Recovers ⟨2, 30⟩ (diskAfter (commit ⟨2, 30⟩ sampleState)) d →
      toInt ((d 2).word 0) = 0 ∧ ((d 100 = Block.zero ∧ d 101 = Block.zero) ∨
        (d 100 = Block.ofFn (fun _ => 100) ∧ d 101 = Block.ofFn fun _ => 101)) := by
  have hcrash := commit_crash_atomic ⟨2, 30⟩ sampleState sampleState_recorded
  refine ⟨sampleState_recorded, hcrash.1, fun d hd => ⟨(hcrash.2 d hd).1, ?_⟩⟩
  rcases (hcrash.2 d hd).2 with hold | hnew
  · exact .inl ⟨hold 100 (sample_outside (by decide)), hold 101 (sample_outside (by decide))⟩
  · right
    rw [hnew 100 (sample_outside (by decide)), hnew 101 (sample_outside (by decide)), State.updated,
      if_pos (by decide), State.updated, if_pos (by decide)]
    exact ⟨rfl, rfl⟩

end Log
end Xv6
