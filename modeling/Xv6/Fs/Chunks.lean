import Xv6.Fs.Write

/-!
# Writing in chunks (`filewrite`)

`filewrite` writes at most `maxWrite` bytes in a transaction and takes as many transactions as it
needs.  When every byte has its place below `MAXFILE * BSIZE` the file is, at the end, what one
call of `writei` would have made of it (`filewriteLoop_spec`).  When the last bytes have none, the
chunks that fit are in the file before the first of the others is refused, so that the call
returns -1 after it has changed the file (`failed_write_iff`).

Main definitions:

* `State.around` — what a call changes beside the contents of the inode;
* `Put` — the bytes have been written through an open file;
* `LateFailure` — the first chunk is taken and a later one refused.
-/

namespace Xv6
namespace Fs

open Lib Lib.Exec Function

/-- The lock of an inode, the number of operations and the file table are set; all that belongs to
the contents of files is as it was. -/
def State.around (s : State) (ip : Nat) (locked : Bool) (ops : Int) (files : Nat → File) : State :=
  { s with
    inode := update s.inode ip { s.inode ip with locked := locked }
    outstanding := ops
    ftable := files }

namespace State

variable {s : State} {ip : Nat} {l l' : Bool} {k k' : Int} {ft ft' : Nat → File}

@[simp] theorem inode_around :
    (s.around ip l k ft).inode ip = { s.inode ip with locked := l } := update_self ..

theorem inode_around_of_ne {j : Nat} (h : j ≠ ip) : (s.around ip l k ft).inode j = s.inode j :=
  update_of_ne h ..

@[simp] theorem entry_around (n : Nat) : (s.around ip l k ft).entry ip n = s.entry ip n := by
  rw [State.entry, inode_around]
  rfl

theorem owned_around {x : Nat} : (s.around ip l k ft).Owned ip x ↔ s.Owned ip x := by
  simp only [State.Owned, entry_around]

@[simp] theorem content_around (o : Nat) : (s.around ip l k ft).content ip o = s.content ip o := by
  rw [State.content, inode_around]
  rfl

@[simp] theorem around_around : (s.around ip l k ft).around ip l' k' ft' = s.around ip l' k' ft' := by
  rw [State.around, inode_around]
  simp only [State.around, update_idem]

/-- Only the file table changes. -/
theorem around_files (hl : (s.inode ip).locked = l) (hk : s.outstanding = k) :
    s.around ip l k ft = { s with ftable := ft } := by
  rw [State.around, ← hl, ← hk]
  show ({ s with inode := update s.inode ip (s.inode ip), ftable := ft } : State) = _
  rw [update_eq_self]

end State

section around

variable {s t : State} {ip off : Nat} {l : Bool} {k : Int} {ft : Nat → File} {src : List UInt8}

theorem WellFormed.around (h : WellFormed s ip) : WellFormed (s.around ip l k ft) ip :=
  h.congr rfl rfl rfl (by rw [State.inode_around]) (by rw [State.inode_around])

theorem WellFormed.files (h : WellFormed s ip) (ft : Nat → File) :
    WellFormed { s with ftable := ft } ip := h.congr rfl rfl rfl rfl rfl

/-- A write does the same whatever there is around the inode. -/
theorem Updated.around (h : Updated ip off src s t) :
    Updated ip off src (s.around ip l k ft) (t.around ip l k ft) where
  wellFormed := h.wellFormed.around
  inode := by
    rw [State.inode_around, State.inode_around, h.inode]
  content := by
    intro o ho
    rw [State.inode_around] at ho
    rw [State.content_around, h.content o ho]
    exact patch_congr (State.content_around o).symm
  others := by
    intro j hj
    rw [State.inode_around_of_ne hj, State.inode_around_of_ne hj]
    exact h.others j hj
  dinodes := by
    intro j hj hne
    rw [State.inode_around] at hne
    exact h.dinodes j hj hne
  low := h.low
  foreign := by
    intro x hdata hused hown
    exact h.foreign x hdata hused (fun hx => hown (State.owned_around.mpr hx))
  rest := by
    rw [h.rest]
    rfl
  count := by
    rw [State.inode_around]
    exact h.count
  used := h.used
  fresh := by
    intro x hdata hused hown
    exact State.owned_around.mpr (h.fresh x hdata hused (State.owned_around.mp hown))

end around

/-! ## Two writes -/

section append

variable {s t u : State} {ip off : Nat} {a b : List UInt8}

theorem blocksOf_le {m n : Nat} (h : m ≤ n) : blocksOf m ≤ blocksOf n :=
  Nat.div_le_div_right (Nat.sub_le_sub_right (Nat.add_le_add_right h _) _)

/-- Two writes that meet are one. -/
theorem Updated.append (h : Updated ip off a s t) (h' : Updated ip (off + a.length) b t u) :
    Updated ip off (a ++ b) s u := by
  have hmax : max (t.inode ip).size (off + a.length + b.length) =
      max (s.inode ip).size (off + (a ++ b).length) := by
    rw [h.size, List.length_append]
    omega
  have hinum : (t.inode ip).inum = (s.inode ip).inum := by rw [h.inode]
  refine ⟨h'.wellFormed, ?_, ?_, ?_, ?_, h'.low.trans h.low, ?_, ?_, ?_, ?_, ?_⟩
  · rw [h'.inode, hmax, h.inode]
  · intro o ho
    rw [← patch_append, h'.content o (hmax ▸ ho)]
    by_cases hold : o < max (s.inode ip).size (off + a.length)
    · exact patch_congr (h.content o hold)
    · -- behind the end of the first write there are only bytes of the second
      rw [List.length_append] at ho
      have hlo : off + a.length ≤ o := by omega
      have hhi : o - (off + a.length) < b.length := by omega
      rw [patch_inside hlo hhi, patch_inside hlo hhi]
  · intro j hj
    rw [h'.others j hj, h.others j hj]
  · intro j hj hne
    rw [h'.dinodes j (h.sb ▸ hj) (hinum ▸ hne), h.dinodes j hj hne]
  · intro x hdata hused hown
    have hx := h.foreign x hdata hused hown
    rw [h'.foreign x (h.sb ▸ hdata) (h.used x hdata.2 hused)
      (fun hx => hown (h.fresh x hdata hused hx)), hx]
  · rw [h'.rest, h.rest]
  · have hcount := h.count
    have hcount' := h'.count
    rw [hmax, h.size] at hcount'
    have hle : max (s.inode ip).size (off + a.length) ≤
        max (s.inode ip).size (off + (a ++ b).length) := by
      rw [List.length_append]
      omega
    rw [growCost_add (blocksOf_le (Nat.le_max_left ..)) (blocksOf_le hle)]
    omega
  · intro x hx hused
    exact h'.used x (h.sb ▸ hx) (h.used x hx hused)
  · intro x hdata hused hown
    have hx := h'.fresh x (h.sb ▸ hdata) (h.used x hdata.2 hused) hown
    exact h.fresh x hdata hused hx

end append

/-! ## One round -/

/-- File `f` is open for writing, and its inode is in the cache and not locked. -/
structure Ready (s : State) (f : Nat) : Prop where
  type : (s.ftable f).type = .inode
  writable : (s.ftable f).writable = true
  off : (s.ftable f).off < 2 ^ 32
  ref : 1 ≤ (s.inode (s.ftable f).ip).ref
  unlocked : (s.inode (s.ftable f).ip).locked = false
  valid : (s.inode (s.ftable f).ip).valid = true

/-- The offset of file `f` has been advanced by `n`. -/
def seek (files : Nat → File) (f n : Nat) : Nat → File :=
  update files f { files f with off := (files f).off + n }

/-- The bytes have been written through file `f`. -/
def Put (f : Nat) (src : List UInt8) (s s' : State) : Prop :=
  ∃ t, Updated (s.ftable f).ip (s.ftable f).off src s t ∧
    s' = { t with ftable := seek s.ftable f src.length }

section round

variable {s t : State} {f : Nat} {src : List UInt8} {r : Option Nat}

/-- The state in which `filewrite` calls `writei`. -/
def State.locked (s : State) (f : Nat) : State :=
  s.around (s.ftable f).ip true (s.outstanding + 1) s.ftable

/-- The round up to `writei`. -/
theorem writeRound_eq (hr : Ready s f) : writeRound f src s = (do
    let r ← writei (s.ftable f).ip src (s.ftable f).off
    if r.getD 0 > 0 then
      modFile f fun fl => { fl with off := (fl.off + r.getD 0) % 2 ^ 32 }
    iunlock (s.ftable f).ip
    end_op
    return r : FsM (Option Nat)) (s.locked f) := by
  have hfile : ∀ t : State, file f t = .ok (t.ftable f, t) := fun _ => rfl
  have hbegin : begin_op s = .ok ((), { s with outstanding := s.outstanding + 1 }) := rfl
  have hlock : ilock (s.ftable f).ip { s with outstanding := s.outstanding + 1 } =
      .ok ((), s.locked f) := ilock_valid hr.ref hr.unlocked hr.valid
  rw [writeRound, bind_of_ok (hfile s), bind_of_ok hbegin, bind_of_ok hlock,
    bind_of_ok (hfile _)]
  rfl

/-- A round in which `writei` stops. -/
theorem writeRound_error (hr : Ready s f) {e : Stop}
    (h : writei (s.ftable f).ip src (s.ftable f).off (s.locked f) = .error e) :
    writeRound f src s = .error e := by
  rw [writeRound_eq hr, bind_of_error h]

/-- A round in which `writei` returns. -/
theorem writeRound_ok (hr : Ready s f)
    (h : writei (s.ftable f).ip src (s.ftable f).off (s.locked f) = .ok (r, t))
    (hfiles : t.ftable = s.ftable) (hlocked : (t.inode (s.ftable f).ip).locked = true)
    (href : 1 ≤ (t.inode (s.ftable f).ip).ref) (hops : t.outstanding = s.outstanding + 1) :
    writeRound f src s = .ok (r, t.around (s.ftable f).ip false s.outstanding
      (if r.getD 0 > 0 then update s.ftable f { s.ftable f with
        off := ((s.ftable f).off + r.getD 0) % 2 ^ 32 } else s.ftable)) := by
  have htail : ∀ u : State, u.inode = t.inode → u.outstanding = t.outstanding →
      (do
        iunlock (s.ftable f).ip
        end_op
        return r : FsM (Option Nat)) u =
        .ok (r, u.around (s.ftable f).ip false s.outstanding u.ftable) := by
    intro u hinode hout
    have hback : s.outstanding = u.outstanding - 1 := by omega
    rw [← hinode] at hlocked href
    rw [bind_of_ok (iunlock_eq href hlocked), hback]
    rfl
  rw [writeRound_eq hr, bind_of_ok h, ← hfiles]
  split_ifs with hpos
  · have hmod : modFile f (fun fl => { fl with off := (fl.off + r.getD 0) % 2 ^ 32 }) t = .ok ((),
        { t with ftable := update t.ftable f { t.ftable f with
          off := ((t.ftable f).off + r.getD 0) % 2 ^ 32 } }) := rfl
    rw [bind_of_ok hmod, hfiles]
    exact htail _ rfl rfl
  · rw [hfiles]
    have hend := htail t rfl rfl
    rw [hfiles] at hend
    exact hend

theorem seek_zero (files : Nat → File) : seek files f 0 = files := update_eq_self ..

theorem seek_self (files : Nat → File) (n : Nat) :
    seek files f n f = { files f with off := (files f).off + n } := update_self ..

theorem seek_seek (files : Nat → File) (m n : Nat) :
    seek (seek files f m) f n = seek files f (m + n) := by
  unfold seek
  rw [update_self, update_idem, Nat.add_assoc]

/-- A chunk that has its place in the file. -/
theorem writeRound_spec (hr : Ready s f) (hw : WellFormed s (s.ftable f).ip)
    (hoff : (s.ftable f).off ≤ (s.inode (s.ftable f).ip).size)
    (hmax : (s.ftable f).off + src.length ≤ MAXFILE * BSIZE) :
    match writeRound f src s with
    | .ok (r, s') => r = some src.length ∧ Put f src s s'
    | .error e => e = .balloc ∧ ¬Enough s (s.ftable f).ip (s.ftable f).off src.length := by
  have hinode : (s.locked f).inode (s.ftable f).ip =
      { s.inode (s.ftable f).ip with locked := true } := State.inode_around
  have hspec := @writei_spec (s.locked f) (s.ftable f).ip (s.ftable f).off src hw.around
    (by rw [hinode]; exact hoff) hmax
  cases hrun : writei (s.ftable f).ip src (s.ftable f).off (s.locked f) with
  | error e =>
    rw [hrun] at hspec
    rw [writeRound_error hr hrun]
    refine ⟨hspec.1, ?_⟩
    intro henough
    apply hspec.2
    unfold Enough
    rw [hinode]
    exact henough
  | ok r =>
    obtain ⟨r, t⟩ := r
    rw [hrun] at hspec
    obtain ⟨rfl, hupd, -⟩ := hspec
    have hfiles : t.ftable = s.ftable := by
      rw [hupd.rest]
      rfl
    have hops : t.outstanding = s.outstanding + 1 := by
      rw [hupd.rest]
      rfl
    have hlocked : (t.inode (s.ftable f).ip).locked = true := by rw [hupd.inode, hinode]
    have href : 1 ≤ (t.inode (s.ftable f).ip).ref := by
      rw [hupd.inode, hinode]
      exact hr.ref
    rw [writeRound_ok hr hrun hfiles hlocked href hops]
    refine ⟨rfl, t.around (s.ftable f).ip false s.outstanding s.ftable, ?_, ?_⟩
    · -- taking the lock and the operation away again
      have hback : Updated (s.ftable f).ip (s.ftable f).off src
          ((s.locked f).around (s.ftable f).ip false s.outstanding s.ftable)
          (t.around (s.ftable f).ip false s.outstanding s.ftable) := hupd.around
      rw [State.locked, State.around_around, State.around_files hr.unlocked rfl] at hback
      exact hback
    · have hseek : (if (some src.length).getD 0 > 0 then update s.ftable f
          { s.ftable f with off := ((s.ftable f).off + (some src.length).getD 0) % 2 ^ 32 }
          else s.ftable) = seek s.ftable f src.length := by
        have hmod : ((s.ftable f).off + src.length) % 2 ^ 32 = (s.ftable f).off + src.length :=
          Nat.mod_eq_of_lt (hmax.trans_lt (by decide))
        show (if src.length > 0 then update s.ftable f
          { s.ftable f with off := ((s.ftable f).off + src.length) % 2 ^ 32 } else s.ftable) = _
        rw [hmod]
        split_ifs with hpos
        · rfl
        · rw [Nat.eq_zero_of_not_pos hpos, seek_zero]
      rw [hseek]
      rfl

/-- A chunk that is refused. -/
theorem writeRound_refused (hr : Ready s f) (hw : WellFormed s (s.ftable f).ip)
    (hn : src.length < 2 ^ 32) (h : (s.inode (s.ftable f).ip).size < (s.ftable f).off ∨
      MAXFILE * BSIZE < (s.ftable f).off + src.length) :
    writeRound f src s = .ok (none, s) := by
  have hinode : (s.locked f).inode (s.ftable f).ip =
      { s.inode (s.ftable f).ip with locked := true } := State.inode_around
  have hrun := @writei_refused (s.locked f) (s.ftable f).ip (s.ftable f).off src hw.around hr.off hn
    (by rw [hinode]; exact h)
  rw [writeRound_ok hr hrun rfl (by rw [hinode]) (by rw [hinode]; exact hr.ref) rfl, State.locked,
    State.around_around, if_neg (by decide), State.around_files hr.unlocked rfl]

end round

/-! ## The loop -/

section steps

variable {s t : State} {f k r : Nat} {src : List UInt8}

/-- The chunk is refused. -/
theorem filewriteLoop_none (h : src ≠ [])
    (hround : writeRound f (src.take maxWrite) s = .ok (none, t)) :
    filewriteLoop f (k + 1) src s = .ok (false, t) := by
  rw [filewriteLoop, if_neg h, bind_of_ok hround]
  rfl

/-- The chunk is written. -/
theorem filewriteLoop_some (h : src ≠ [])
    (hround : writeRound f (src.take maxWrite) s = .ok (some (src.take maxWrite).length, t)) :
    filewriteLoop f (k + 1) src s = filewriteLoop f k (src.drop maxWrite) t := by
  rw [filewriteLoop, if_neg h, bind_of_ok hround]
  show (if (src.take maxWrite).length ≠ (src.take maxWrite).length then Exec.stop .shortWrite
    else filewriteLoop f k (src.drop maxWrite)) t = _
  rw [if_neg (fun hne => hne rfl)]

/-- Only a part of the chunk is written. -/
theorem filewriteLoop_short (h : src ≠ [])
    (hround : writeRound f (src.take maxWrite) s = .ok (some r, t))
    (hr : r ≠ (src.take maxWrite).length) :
    filewriteLoop f (k + 1) src s = .error .shortWrite := by
  rw [filewriteLoop, if_neg h, bind_of_ok hround]
  show (if r ≠ (src.take maxWrite).length then Exec.stop .shortWrite
    else filewriteLoop f k (src.drop maxWrite)) t = _
  rw [if_pos hr]
  rfl

end steps

section loop

variable {s s' t : State} {f ip off n m : Nat} {src a b : List UInt8}

theorem Updated.nil (hw : WellFormed s ip) (hoff : off ≤ (s.inode ip).size) :
    Updated ip off [] s s where
  wellFormed := hw
  inode := by
    rw [List.length_nil, Nat.add_zero, Nat.max_eq_left hoff]
  content := by
    intro o _
    rw [patch_nil]
  others := fun _ _ => rfl
  dinodes := fun _ _ _ => rfl
  low := rfl
  foreign := fun _ _ _ _ => rfl
  rest := rfl
  count := by
    rw [List.length_nil, Nat.add_zero, Nat.max_eq_left hoff, growCost, Nat.sub_self]
    split_ifs <;> omega
  used := fun _ _ h => h
  fresh := fun _ _ _ h => h

namespace Put

theorem nil (hw : WellFormed s (s.ftable f).ip)
    (hoff : (s.ftable f).off ≤ (s.inode (s.ftable f).ip).size) : Put f [] s s := by
  refine ⟨s, Updated.nil hw hoff, ?_⟩
  rw [List.length_nil, seek_zero]

theorem file (h : Put f a s s') :
    s'.ftable f = { s.ftable f with off := (s.ftable f).off + a.length } := by
  obtain ⟨t, -, rfl⟩ := h
  exact seek_self ..

theorem wellFormed (h : Put f a s s') : WellFormed s' (s'.ftable f).ip := by
  rw [h.file]
  obtain ⟨t, hupd, rfl⟩ := h
  exact hupd.wellFormed.files _

theorem inode (h : Put f a s s') :
    s'.inode (s.ftable f).ip = { s.inode (s.ftable f).ip with
      size := max (s.inode (s.ftable f).ip).size ((s.ftable f).off + a.length)
      addrs := (s'.inode (s.ftable f).ip).addrs } := by
  obtain ⟨t, hupd, rfl⟩ := h
  exact hupd.inode

theorem content (h : Put f a s s') {o : Nat}
    (ho : o < max (s.inode (s.ftable f).ip).size ((s.ftable f).off + a.length)) :
    s'.content (s.ftable f).ip o = patch (s.content (s.ftable f).ip) (s.ftable f).off a o := by
  obtain ⟨t, hupd, rfl⟩ := h
  exact hupd.content o ho

theorem ready (h : Put f a s s') (hr : Ready s f)
    (hlt : (s.ftable f).off + a.length < 2 ^ 32) : Ready s' f := by
  have hfile := h.file
  have hinode := h.inode
  refine ⟨?_, ?_, ?_, ?_, ?_, ?_⟩
  · rw [hfile]
    exact hr.type
  · rw [hfile]
    exact hr.writable
  · rw [hfile]
    exact hlt
  · rw [hfile, hinode]
    exact hr.ref
  · rw [hfile, hinode]
    exact hr.unlocked
  · rw [hfile, hinode]
    exact hr.valid

/-- Two writes through the file are one. -/
theorem append (h : Put f a s t) (h' : Put f b t s') : Put f (a ++ b) s s' := by
  have hfile := h.file
  obtain ⟨u, hupd, rfl⟩ := h
  obtain ⟨v, hupd', rfl⟩ := h'
  rw [hfile] at hupd'
  have hlocked : (v.inode (s.ftable f).ip).locked = (u.inode (s.ftable f).ip).locked := by
    rw [hupd'.inode]
  have hops : v.outstanding = u.outstanding := by rw [hupd'.rest]
  -- the second write, with the file table of the first
  have hback : Updated (s.ftable f).ip ((s.ftable f).off + a.length) b
      (({ u with ftable := seek s.ftable f a.length } : State).around (s.ftable f).ip
        (u.inode (s.ftable f).ip).locked u.outstanding u.ftable)
      (v.around (s.ftable f).ip (u.inode (s.ftable f).ip).locked u.outstanding u.ftable) :=
    hupd'.around
  rw [State.around_files rfl rfl, State.around_files hlocked hops] at hback
  refine ⟨_, hupd.append hback, ?_⟩
  rw [List.length_append, ← seek_seek]

/-- The free blocks that the rest of the write needs. -/
theorem enough_iff (h : Put f a s s') :
    Enough s (s.ftable f).ip (s.ftable f).off (a.length + n) ↔
      Enough s' (s.ftable f).ip ((s.ftable f).off + a.length) n := by
  have hinode := h.inode
  obtain ⟨u, hupd, rfl⟩ := h
  have hcount := hupd.count
  have hfree : ({ u with ftable := seek s.ftable f a.length } : State).freeCount = u.freeCount := rfl
  have hmax : max (max (s.inode (s.ftable f).ip).size ((s.ftable f).off + a.length))
      ((s.ftable f).off + a.length + n) =
      max (s.inode (s.ftable f).ip).size ((s.ftable f).off + (a.length + n)) := by omega
  have hle : max (s.inode (s.ftable f).ip).size ((s.ftable f).off + a.length) ≤
      max (s.inode (s.ftable f).ip).size ((s.ftable f).off + (a.length + n)) := by omega
  unfold Enough
  rw [hinode, hfree, hmax, growCost_add (blocksOf_le (Nat.le_max_left ..)) (blocksOf_le hle)]
  dsimp only
  omega

end Put

/-- How many of `n` bytes at `off` the loop writes: all of them, or the whole chunks that have their
place. -/
def fitting (off n : Nat) : Nat :=
  if off + n ≤ MAXFILE * BSIZE then n else (MAXFILE * BSIZE - off) / maxWrite * maxWrite

theorem Enough.mono (h : m ≤ n) : Enough s ip off n → Enough s ip off m := by
  unfold Enough
  have hle : max (s.inode ip).size (off + m) ≤ max (s.inode ip).size (off + n) := by omega
  rw [growCost_add (blocksOf_le (Nat.le_max_left ..)) (blocksOf_le hle)]
  exact Nat.le_trans (Nat.le_add_right ..)

theorem fitting_first (h : off + min n maxWrite ≤ MAXFILE * BSIZE) :
    fitting off n = min n maxWrite + fitting (off + min n maxWrite) (n - min n maxWrite) := by
  have hval : maxWrite = 1536 := by decide
  unfold fitting
  rw [hval] at h ⊢
  split_ifs <;> omega

/-- The first chunk has no place. -/
theorem fitting_eq_zero (h : MAXFILE * BSIZE < off + min n maxWrite) : fitting off n = 0 := by
  have hval : maxWrite = 1536 := by decide
  unfold fitting
  rw [hval] at h ⊢
  rw [if_neg (by omega)]
  omega

/-- How the loop of `filewrite` ends. -/
def Chunked (f : Nat) (src : List UInt8) (s : State) : Except Stop (Bool × State) → Prop
  | .ok (all, s') => all = decide ((s.ftable f).off + src.length ≤ MAXFILE * BSIZE) ∧
      Put f (src.take (fitting (s.ftable f).off src.length)) s s'
  | .error e => e = .balloc ∧
      ¬Enough s (s.ftable f).ip (s.ftable f).off (fitting (s.ftable f).off src.length)

theorem chunked_nil (hw : WellFormed s (s.ftable f).ip)
    (hoff : (s.ftable f).off ≤ (s.inode (s.ftable f).ip).size) : Chunked f [] s (.ok (true, s)) := by
  refine ⟨(decide_eq_true ?_).symm, ?_⟩
  · exact hoff.trans hw.size_le
  · rw [List.take_nil]
    exact Put.nil hw hoff

/-- The rest of the loop after a chunk. -/
theorem Chunked.of_put {r : Except Stop (Bool × State)} (hput : Put f (src.take maxWrite) s t)
    (hplace : (s.ftable f).off + min src.length maxWrite ≤ MAXFILE * BSIZE)
    (h : Chunked f (src.drop maxWrite) t r) : Chunked f src s r := by
  have hchunk : (src.take maxWrite).length = min src.length maxWrite := by
    rw [List.length_take, Nat.min_comm]
  have hdrop : (src.drop maxWrite).length = src.length - min src.length maxWrite := by
    rw [List.length_drop]
    omega
  have hfirst := fitting_first hplace
  have hfile := hput.file
  rw [hchunk] at hfile
  cases r with
  | error e =>
    obtain ⟨he, hnot⟩ := h
    refine ⟨he, ?_⟩
    rw [hfile, hdrop] at hnot
    rw [hfirst, ← hchunk, hput.enough_iff, hchunk]
    exact hnot
  | ok r =>
    obtain ⟨all, s'⟩ := r
    obtain ⟨hall, hrest⟩ := h
    rw [hfile, hdrop] at hall hrest
    refine ⟨?_, ?_⟩
    · rw [hall]
      apply decide_eq_decide.mpr
      dsimp only
      omega
    · have htake : src.take (fitting (s.ftable f).off src.length) = src.take maxWrite ++
          (src.drop maxWrite).take (fitting ((s.ftable f).off + min src.length maxWrite)
            (src.length - min src.length maxWrite)) := by
        rw [hfirst]
        by_cases hle : src.length ≤ maxWrite
        · rw [Nat.min_eq_left hle, List.drop_eq_nil_of_le hle, List.take_of_length_le hle,
            List.take_of_length_le (Nat.le_add_right ..), List.take_nil, List.append_nil]
        · rw [Nat.min_eq_right (Nat.le_of_not_le hle), List.take_add]
      rw [htake]
      exact hput.append hrest

/-- The loop writes the chunks that have their place, one after the other. -/
theorem filewriteLoop_spec {fuel : Nat} (hr : Ready s f) (hw : WellFormed s (s.ftable f).ip)
    (hoff : (s.ftable f).off ≤ (s.inode (s.ftable f).ip).size) (hn : src.length < 2 ^ 32)
    (hfuel : src.length ≤ fuel) : Chunked f src s (filewriteLoop f fuel src s) := by
  induction fuel generalizing s src with
  | zero =>
    obtain rfl : src = [] := List.eq_nil_of_length_eq_zero (by omega)
    exact chunked_nil hw hoff
  | succ fuel ih =>
    by_cases hempty : src = []
    · rw [filewriteLoop, if_pos hempty, hempty]
      exact chunked_nil hw hoff
    · have hpos : 0 < src.length := List.length_pos_of_ne_nil hempty
      have hchunk : (src.take maxWrite).length = min src.length maxWrite := by
        rw [List.length_take, Nat.min_comm]
      have hval : maxWrite = 1536 := by decide
      by_cases hplace : (s.ftable f).off + min src.length maxWrite ≤ MAXFILE * BSIZE
      · have hspec := @writeRound_spec s f (src.take maxWrite) hr hw hoff (by omega)
        cases hrun : writeRound f (src.take maxWrite) s with
        | error e =>
          rw [hrun] at hspec
          rw [filewriteLoop, if_neg hempty, bind_of_error hrun]
          refine ⟨hspec.1, fun henough => hspec.2 (henough.mono ?_)⟩
          rw [hchunk, fitting_first hplace]
          exact Nat.le_add_right ..
        | ok r =>
          obtain ⟨r, t⟩ := r
          rw [hrun] at hspec
          obtain ⟨rfl, hput⟩ := hspec
          rw [filewriteLoop_some hempty hrun]
          have hlt : (s.ftable f).off + (src.take maxWrite).length < 2 ^ 32 :=
            Nat.lt_of_le_of_lt (hchunk ▸ hplace) (by decide)
          have hrest := @ih t (src.drop maxWrite) (hput.ready hr hlt) hput.wellFormed
            (by
              rw [hput.file, hput.inode]
              exact Nat.le_max_right ..)
            (by rw [List.length_drop]; omega) (by rw [List.length_drop]; omega)
          exact Chunked.of_put hput hplace hrest
      · have hrun := writeRound_refused hr hw (by omega : (src.take maxWrite).length < 2 ^ 32)
          (.inr (by omega))
        rw [filewriteLoop_none hempty hrun]
        refine ⟨(decide_eq_false (by omega)).symm, ?_⟩
        rw [fitting_eq_zero (by omega), List.take_zero]
        exact Put.nil hw hoff

/-- A write that has happened had its blocks. -/
theorem Put.enough (h : Put f a s s') : Enough s (s.ftable f).ip (s.ftable f).off a.length := by
  have hzero : Enough s' (s.ftable f).ip ((s.ftable f).off + a.length) 0 := by
    apply enough_inside
    rw [h.inode]
    exact Nat.le_max_right ..
  have hsum : Enough s (s.ftable f).ip (s.ftable f).off (a.length + 0) := h.enough_iff.mpr hzero
  rwa [Nat.add_zero] at hsum

end loop

/-! ## Devices -/

/-- What the driver answers to a write; without a driver there is no write. -/
def State.driver (s : State) (ip : Nat) (src : List UInt8) : Option Nat :=
  if (s.inode ip).major < 0 || (s.inode ip).major ≥ Int16.ofNat NDEV then none
  else (s.devsw (s.inode ip).major.toNatClampNeg).write.bind fun w => w src

/-- The `i`-th chunk. -/
def chunk (src : List UInt8) (i : Nat) : List UInt8 := (src.drop (i * maxWrite)).take maxWrite

/-- The driver takes the first `j` chunks and refuses the next. -/
def RefusesAt (w : List UInt8 → Option Nat) (src : List UInt8) (j : Nat) : Prop :=
  j * maxWrite < src.length ∧ (∀ i, i < j → w (chunk src i) = some (chunk src i).length) ∧
    w (chunk src j) = none

section device

variable {s s' : State} {f ip off : Nat} {src : List UInt8} {w : List UInt8 → Option Nat}

theorem writei_device (htype : (s.inode ip).type = T_DEV) :
    writei ip src off s = .ok (s.driver ip src, s) := by
  rw [writei, bind_of_ok (show inode ip s = .ok (s.inode ip, s) from rfl), if_pos htype,
    bind_of_ok (show Exec.get s = .ok (s, s) from rfl), State.driver]
  split_ifs
  · rfl
  · cases (s.devsw (s.inode ip).major.toNatClampNeg).write <;> rfl

/-- The offset after `n` more bytes. -/
def State.advance (s : State) (f n : Nat) : State :=
  { s with ftable := update s.ftable f { s.ftable f with
    off := ((s.ftable f).off + n) % 2 ^ 32 } }

theorem writeRound_device (hr : Ready s f) (htype : (s.inode (s.ftable f).ip).type = T_DEV)
    (hdriver : s.driver (s.ftable f).ip = w) :
    writeRound f src s = .ok (w src, if (w src).getD 0 > 0 then s.advance f ((w src).getD 0) else s) := by
  have hinode : (s.locked f).inode (s.ftable f).ip =
      { s.inode (s.ftable f).ip with locked := true } := State.inode_around
  have hsame : (s.locked f).driver (s.ftable f).ip src = w src := by
    rw [← hdriver, State.driver, hinode]
    rfl
  have hrun : writei (s.ftable f).ip src (s.ftable f).off (s.locked f) = .ok (w src, s.locked f) := by
    rw [writei_device (by rw [hinode]; exact htype), hsame]
  rw [writeRound_ok hr hrun rfl (by rw [hinode]) (by rw [hinode]; exact hr.ref) rfl, State.locked,
    State.around_around, State.around_files hr.unlocked rfl]
  split_ifs <;> rfl

theorem chunk_zero : chunk src 0 = src.take maxWrite := by
  rw [chunk, Nat.zero_mul, List.drop_zero]

theorem chunk_drop (i : Nat) : chunk (src.drop maxWrite) i = chunk src (i + 1) := by
  rw [chunk, chunk, List.drop_drop, Nat.succ_mul, Nat.add_comm]

theorem refusesAt_succ {j : Nat} : RefusesAt w src (j + 1) ↔
    w (chunk src 0) = some (chunk src 0).length ∧ RefusesAt w (src.drop maxWrite) j := by
  have hlen : (j + 1) * maxWrite < src.length ↔ j * maxWrite < (src.drop maxWrite).length := by
    rw [List.length_drop, Nat.succ_mul]
    omega
  unfold RefusesAt
  simp only [chunk_drop, hlen, Nat.forall_lt_succ_left]
  constructor
  · rintro ⟨h, ⟨h0, hrest⟩, hj⟩
    exact ⟨h0, h, hrest, hj⟩
  · rintro ⟨h0, h, hrest, hj⟩
    exact ⟨h, ⟨h0, hrest⟩, hj⟩

theorem advance_zero (hoff : (s.ftable f).off < 2 ^ 32) : s.advance f 0 = s := by
  rw [State.advance, Nat.add_zero, Nat.mod_eq_of_lt hoff]
  show ({ s with ftable := update s.ftable f (s.ftable f) } : State) = s
  rw [update_eq_self]

theorem advance_file (m : Nat) : (s.advance f m).ftable f = { s.ftable f with
    off := ((s.ftable f).off + m) % 2 ^ 32 } := update_self ..

theorem driver_advance (m : Nat) : (s.advance f m).driver ip = s.driver ip := rfl

theorem advance_advance (m n : Nat) : (s.advance f m).advance f n = s.advance f (m + n) := by
  have hoff : (((s.ftable f).off + m) % 2 ^ 32 + n) % 2 ^ 32 = ((s.ftable f).off + (m + n)) % 2 ^ 32 := by
    omega
  rw [State.advance, advance_file]
  simp only [State.advance, update_idem, hoff]

theorem Ready.advance (hr : Ready s f) (m : Nat) : Ready (s.advance f m) f := by
  have hfile := advance_file (s := s) (f := f) m
  refine ⟨?_, ?_, ?_, ?_, ?_, ?_⟩
  · rw [hfile]
    exact hr.type
  · rw [hfile]
    exact hr.writable
  · rw [hfile]
    exact Nat.mod_lt _ (by decide)
  · rw [hfile]
    exact hr.ref
  · rw [hfile]
    exact hr.unlocked
  · rw [hfile]
    exact hr.valid

/-- Writing to a device fails where the driver refuses a chunk. -/
theorem filewriteLoop_device {fuel : Nat} (hr : Ready s f)
    (htype : (s.inode (s.ftable f).ip).type = T_DEV)
    (hdriver : s.driver (s.ftable f).ip = w) (hfuel : src.length ≤ fuel) :
    filewriteLoop f fuel src s = .ok (false, s') ↔
      ∃ j, RefusesAt w src j ∧ s' = s.advance f (j * maxWrite) := by
  induction fuel generalizing s src with
  | zero =>
    obtain rfl : src = [] := List.eq_nil_of_length_eq_zero (by omega)
    constructor
    · intro h
      cases h
    · rintro ⟨j, hj, -⟩
      exact absurd hj.1 (Nat.not_lt_zero _)
  | succ fuel ih =>
    by_cases hempty : src = []
    · rw [filewriteLoop, if_pos hempty]
      constructor
      · intro h
        cases h
      · rintro ⟨j, hj, -⟩
        rw [hempty] at hj
        exact absurd hj.1 (Nat.not_lt_zero _)
    · have hpos : 0 < src.length := List.length_pos_of_ne_nil hempty
      have hmw : 0 < maxWrite := by decide
      have hround := @writeRound_device s f (src.take maxWrite) w hr htype hdriver
      rw [← chunk_zero] at hround
      cases hw : w (chunk src 0) with
      | none =>
        -- the first chunk is refused: nothing has changed
        rw [hw, if_neg (by decide)] at hround
        rw [filewriteLoop_none hempty (chunk_zero ▸ hround)]
        constructor
        · intro h
          cases h
          refine ⟨0, ⟨?_, fun i hi => absurd hi (Nat.not_lt_zero i), hw⟩, ?_⟩
          · rw [Nat.zero_mul]
            exact hpos
          · rw [Nat.zero_mul, advance_zero hr.off]
        · rintro ⟨j, hj, rfl⟩
          cases j with
          | zero => rw [Nat.zero_mul, advance_zero hr.off]
          | succ j =>
            have hfirst := (refusesAt_succ.mp hj).1
            rw [hw] at hfirst
            cases hfirst
      | some r =>
        rw [hw] at hround
        have hno : ¬RefusesAt w src 0 := by
          rintro ⟨-, -, hfirst⟩
          rw [hw] at hfirst
          cases hfirst
        by_cases hall : r = (chunk src 0).length
        · subst hall
          have hlen : (chunk src 0).length > 0 := by
            rw [chunk_zero, List.length_take]
            omega
          have hround' : writeRound f (src.take maxWrite) s =
              .ok (some (src.take maxWrite).length, s.advance f (chunk src 0).length) := by
            rw [← chunk_zero, hround]
            exact congrArg _ (congrArg _ (if_pos hlen))
          have hrest := @ih (s.advance f (chunk src 0).length) (src.drop maxWrite)
            (hr.advance (chunk src 0).length)
            (by rw [advance_file]; exact htype) (by rw [advance_file, driver_advance]; exact hdriver)
            (by rw [List.length_drop]; omega)
          have hmeet : ∀ j, RefusesAt w (src.drop maxWrite) j →
              (s.advance f (chunk src 0).length).advance f (j * maxWrite) =
                s.advance f ((j + 1) * maxWrite) := by
            intro j hj
            -- there is a chunk behind the first, so the first is full
            have hlt := hj.1
            rw [List.length_drop] at hlt
            rw [advance_advance, chunk_zero, List.length_take, Nat.min_eq_left (by omega),
              Nat.succ_mul, Nat.add_comm]
          rw [filewriteLoop_some hempty hround', hrest]
          constructor
          · rintro ⟨j, hj, rfl⟩
            exact ⟨j + 1, refusesAt_succ.mpr ⟨hw, hj⟩, hmeet j hj⟩
          · rintro ⟨j, hj, rfl⟩
            cases j with
            | zero => exact absurd hj hno
            | succ j =>
              have hj' := (refusesAt_succ.mp hj).2
              exact ⟨j, hj', (hmeet j hj').symm⟩
        · rw [filewriteLoop_short hempty (chunk_zero ▸ hround) (chunk_zero ▸ hall)]
          constructor
          · intro h
            cases h
          · rintro ⟨j, hj, -⟩
            cases j with
            | zero => exact absurd hj hno
            | succ j =>
              have hfirst := (refusesAt_succ.mp hj).1
              rw [hw] at hfirst
              exact absurd (Option.some.inj hfirst) hall

end device

/-! ## A write that fails -/

/-- The first chunk is taken and a later one refused: by the driver of a device, or because the
bytes have no place in a file of `MAXFILE` blocks. -/
def LateFailure (s : State) (f : Nat) (src : List UInt8) : Prop :=
  if (s.inode (s.ftable f).ip).type = T_DEV then
    ∃ j, 0 < j ∧ RefusesAt (s.driver (s.ftable f).ip) src j
  else
    (s.ftable f).off ≤ (s.inode (s.ftable f).ip).size ∧
    (s.ftable f).off + maxWrite ≤ MAXFILE * BSIZE ∧ MAXFILE * BSIZE < (s.ftable f).off + src.length ∧
    Enough s (s.ftable f).ip (s.ftable f).off (fitting (s.ftable f).off src.length)

/-- The contents and the size of the file and the offset are the same. -/
structure SameFile (f : Nat) (s s' : State) : Prop where
  off : (s'.ftable f).off = (s.ftable f).off
  size : (s'.inode (s.ftable f).ip).size = (s.inode (s.ftable f).ip).size
  content : ∀ o, o < (s.inode (s.ftable f).ip).size →
    s'.content (s.ftable f).ip o = s.content (s.ftable f).ip o

section failure

variable {s s' : State} {f : Nat} {src : List UInt8} {pipewrite : FsM (Option Nat)}

theorem filewrite_none_iff (hr : Ready s f) :
    filewrite pipewrite f src s = .ok (none, s') ↔
      filewriteLoop f src.length src s = .ok (false, s') := by
  rw [filewrite, bind_of_ok (show file f s = .ok (s.ftable f, s) from rfl),
    if_neg (by rw [hr.writable]; decide), hr.type]
  show (filewriteLoop f src.length src >>= _) s = _ ↔ _
  cases hrun : filewriteLoop f src.length src s with
  | error e =>
    rw [bind_of_error hrun]
    constructor <;> intro h <;> cases h
  | ok r =>
    obtain ⟨all, t⟩ := r
    rw [bind_of_ok hrun]
    show (pure (if all = true then some src.length else none) : FsM (Option Nat)) t = _ ↔ _
    cases all
    · constructor <;> intro h <;> cases h <;> rfl
    · constructor <;> intro h <;> cases h

theorem SameFile.refl (f : Nat) (s : State) : SameFile f s s := ⟨rfl, rfl, fun _ _ => rfl⟩

/-- A file that begins to be written has another offset. -/
theorem Put.sameFile_iff {a : List UInt8} (h : Put f a s s')
    (hoff : (s.ftable f).off ≤ (s.inode (s.ftable f).ip).size) : SameFile f s s' ↔ a = [] := by
  constructor
  · intro hsame
    have hfile := hsame.off
    rw [h.file] at hfile
    exact List.eq_nil_of_length_eq_zero (by dsimp only at hfile; omega)
  · rintro rfl
    have hmax : max (s.inode (s.ftable f).ip).size ((s.ftable f).off + ([] : List UInt8).length) =
        (s.inode (s.ftable f).ip).size := Nat.max_eq_left hoff
    refine ⟨?_, ?_, ?_⟩
    · rw [h.file]
      rfl
    · rw [h.inode]
      exact hmax
    · intro o ho
      rw [h.content (by rw [hmax]; exact ho), patch_nil]

/-- The offset after some bytes is another one. -/
theorem SameFile.of_advance (hr : Ready s f) {n : Nat} (hn : n < 2 ^ 32)
    (h : SameFile f s (s.advance f n)) : n = 0 := by
  have hoff := hr.off
  have hfile := h.off
  rw [advance_file] at hfile
  dsimp only at hfile
  omega

/-- A failed write to a device. -/
theorem failed_device_iff (hr : Ready s f) (htype : (s.inode (s.ftable f).ip).type = T_DEV)
    (hn : src.length < 2 ^ 31) :
    (∀ s', filewriteLoop f src.length src s = .ok (false, s') → SameFile f s s') ↔
      ¬∃ j, 0 < j ∧ RefusesAt (s.driver (s.ftable f).ip) src j := by
  have hmw : 0 < maxWrite := by decide
  simp only [filewriteLoop_device hr htype rfl le_rfl]
  constructor
  · rintro hsame ⟨j, hpos, hj⟩
    have hlt := hj.1
    have hzero := (hsame _ ⟨j, hj, rfl⟩).of_advance hr (by omega)
    exact absurd hzero (Nat.mul_ne_zero (by omega) (by omega))
  · rintro hnone s' ⟨j, hj, rfl⟩
    have hzero : j = 0 := by
      by_contra hne
      exact hnone ⟨j, Nat.pos_of_ne_zero hne, hj⟩
    rw [hzero, Nat.zero_mul, advance_zero hr.off]
    exact SameFile.refl f s

/-- A failed write to a file with blocks. -/
theorem failed_file_iff (hr : Ready s f) (hw : WellFormed s (s.ftable f).ip)
    (hn : src.length < 2 ^ 31) :
    (∀ s', filewriteLoop f src.length src s = .ok (false, s') → SameFile f s s') ↔
      ¬((s.ftable f).off ≤ (s.inode (s.ftable f).ip).size ∧
        (s.ftable f).off + maxWrite ≤ MAXFILE * BSIZE ∧
        MAXFILE * BSIZE < (s.ftable f).off + src.length ∧
        Enough s (s.ftable f).ip (s.ftable f).off (fitting (s.ftable f).off src.length)) := by
  have hval : maxWrite = 1536 := by decide
  by_cases hoff : (s.ftable f).off ≤ (s.inode (s.ftable f).ip).size
  · have hspec := @filewriteLoop_spec s f src src.length hr hw hoff (by omega) le_rfl
    cases hrun : filewriteLoop f src.length src s with
    | error e =>
      rw [hrun] at hspec
      refine iff_of_true (fun s' h => nomatch h) ?_
      rintro ⟨-, -, -, henough⟩
      exact hspec.2 henough
    | ok r =>
      obtain ⟨all, t⟩ := r
      rw [hrun] at hspec
      obtain ⟨rfl, hput⟩ := hspec
      by_cases hmax : (s.ftable f).off + src.length ≤ MAXFILE * BSIZE
      · rw [decide_eq_true hmax]
        refine iff_of_true (fun s' h => nomatch h) ?_
        rintro ⟨-, -, hlt, -⟩
        omega
      · -- the file is as it was if the loop took nothing
        have henough := hput.enough
        have hfit : fitting (s.ftable f).off src.length =
            (MAXFILE * BSIZE - (s.ftable f).off) / maxWrite * maxWrite := if_neg hmax
        have hlen : (src.take (fitting (s.ftable f).off src.length)).length =
            fitting (s.ftable f).off src.length := by
          rw [List.length_take, hfit, hval]
          omega
        have hnil : src.take (fitting (s.ftable f).off src.length) = [] ↔
            ¬(s.ftable f).off + maxWrite ≤ MAXFILE * BSIZE := by
          rw [← List.length_eq_zero_iff, hlen, hfit, hval]
          omega
        rw [hlen] at henough
        have hiff := (hput.sameFile_iff hoff).trans hnil
        rw [decide_eq_false hmax]
        constructor
        · rintro hsame ⟨-, hplace, -, -⟩
          exact hiff.mp (hsame t rfl) hplace
        · intro hnone s' hs'
          cases hs'
          exact hiff.mpr fun hplace => hnone ⟨hoff, hplace, by omega, henough⟩
  · refine iff_of_true ?_ (fun h => hoff h.1)
    intro s' hrun
    by_cases hempty : src = []
    · rw [hempty] at hrun
      cases hrun
    · have hpos : 0 < src.length := List.length_pos_of_ne_nil hempty
      obtain ⟨k, hk⟩ : ∃ k, src.length = k + 1 := ⟨src.length - 1, by omega⟩
      have hround : writeRound f (src.take maxWrite) s = .ok (none, s) := by
        apply writeRound_refused hr hw
        · rw [List.length_take]
          omega
        · exact .inl (Nat.lt_of_not_le hoff)
      rw [hk, filewriteLoop_none hempty hround] at hrun
      cases hrun
      exact SameFile.refl f s

/-- A write that returns -1 has left the file as it was exactly if no chunk was taken before. -/
theorem failed_write_iff (hr : Ready s f)
    (hkind : (s.inode (s.ftable f).ip).type = T_DEV ∨ WellFormed s (s.ftable f).ip)
    (hn : src.length < 2 ^ 31) :
    (∀ s', filewrite pipewrite f src s = .ok (none, s') → SameFile f s s') ↔
      ¬LateFailure s f src := by
  simp only [filewrite_none_iff hr]
  unfold LateFailure
  rcases hkind with htype | hw
  · rw [if_pos htype]
    exact failed_device_iff hr htype hn
  · rw [if_neg hw.file]
    exact failed_file_iff hr hw hn

/-- A file of `MAXFILE` blocks, open at offset `off`. -/
def fullFile (off : Nat) : State := (oneFile MAXFILE).advance 0 off

theorem fullFile_off {off : Nat} (hoff : off < 2 ^ 32) : ((fullFile off).ftable 0).off = off := by
  rw [fullFile, advance_file]
  show (0 + off) % 2 ^ 32 = off
  rw [Nat.zero_add, Nat.mod_eq_of_lt hoff]

theorem fullFile_ready (off : Nat) : Ready (fullFile off) 0 := by
  have hr : Ready (oneFile MAXFILE) 0 := ⟨rfl, rfl, by decide, by decide, rfl, rfl⟩
  exact hr.advance off

theorem fullFile_wellFormed (off : Nat) : WellFormed (fullFile off) ((fullFile off).ftable 0).ip := by
  have hw : WellFormed (oneFile MAXFILE) 0 := oneFile_wellFormed le_rfl
  rw [fullFile, advance_file]
  exact hw.files _

/-- No chunk has its place: the call returns -1. -/
theorem failed_write_kept : ∃ s',
    filewrite (pure none) 0 (List.replicate 1537 7) (fullFile 71000) = .ok (none, s') ∧
      SameFile 0 (fullFile 71000) s' := by
  have hlen : (List.replicate 1537 (7 : UInt8)).length = 1536 + 1 := List.length_replicate
  generalize List.replicate 1537 (7 : UInt8) = src at *
  have hr := fullFile_ready 71000
  have hw := fullFile_wellFormed 71000
  have hoff : ((fullFile 71000).ftable 0).off = 71000 := fullFile_off (by decide)
  have hchunk : (src.take maxWrite).length = 1536 := by
    rw [List.length_take, hlen]
    decide
  have hround : writeRound 0 (src.take maxWrite) (fullFile 71000) = .ok (none, fullFile 71000) :=
    writeRound_refused hr hw (by rw [hchunk]; decide) (.inr (by rw [hoff, hchunk]; decide))
  have hfails : filewrite (pure none) 0 src (fullFile 71000) = .ok (none, fullFile 71000) := by
    rw [filewrite_none_iff hr, hlen]
    exact filewriteLoop_none (List.ne_nil_of_length_eq_add_one hlen) hround
  have hearly : ¬LateFailure (fullFile 71000) 0 src := by
    rw [LateFailure, if_neg hw.file, hoff]
    rintro ⟨-, hplace, -⟩
    exact absurd hplace (by decide)
  have hsame := (failed_write_iff hr (.inr hw) (by rw [hlen]; decide)).mpr hearly _ hfails
  exact ⟨_, hfails, hsame⟩

/-- The first chunk has its place and the byte behind it has none: the call returns -1, and the
chunk is in the file. -/
theorem failed_write_changes :
    ∃ s', filewrite (pure none) 0 (List.replicate 1537 7) (fullFile 70144) = .ok (none, s') ∧
      ((fullFile 70144).ftable 0).off = 70144 ∧ (s'.ftable 0).off = 71680 ∧
      (fullFile 70144).content 0 70144 = 0 ∧ s'.content 0 70144 = 7 := by
  have hoff : ((fullFile 70144).ftable 0).off = 70144 := fullFile_off (by decide)
  have hip : ((fullFile 70144).ftable 0).ip = 0 := by
    rw [fullFile, advance_file]
    rfl
  have hsize : ((fullFile 70144).inode 0).size = 71680 := rfl
  have hzero : (fullFile 70144).content 0 70144 = 0 := oneFile_content (by decide) le_rfl
  have hfree : (fullFile 70144).freeCount = 8 := oneFile_freeCount MAXFILE
  have hr := fullFile_ready 70144
  have hw := fullFile_wellFormed 70144
  have hlen : (List.replicate 1537 (7 : UInt8)).length = 1537 := List.length_replicate
  have hfirst : (List.replicate 1537 (7 : UInt8)).head? = some 7 := rfl
  generalize fullFile 70144 = s at *
  generalize List.replicate 1537 (7 : UInt8) = src at *
  have hfit : fitting 70144 1537 = 1536 := by decide
  have hmax : ¬70144 + 1537 ≤ MAXFILE * BSIZE := by decide
  have henough : Enough s 0 70144 1536 := by
    rw [Enough, hsize, hfree]
    decide
  have hspec := @filewriteLoop_spec s 0 src src.length hr hw (by rw [hoff, hip, hsize]; decide)
    (by rw [hlen]; decide) le_rfl
  cases hrun : filewriteLoop 0 src.length src s with
  | error e =>
    rw [hrun] at hspec
    have hnot := hspec.2
    rw [hip, hoff, hlen, hfit] at hnot
    exact absurd henough hnot
  | ok r =>
    obtain ⟨all, s'⟩ := r
    rw [hrun] at hspec
    obtain ⟨hall, hput⟩ := hspec
    rw [hoff, hlen, hfit] at hput
    rw [hoff, hlen, decide_eq_false hmax] at hall
    subst hall
    have hlen' : (src.take 1536).length = 1536 := by
      rw [List.length_take, hlen]
      rfl
    refine ⟨s', (filewrite_none_iff hr).mpr hrun, hoff, ?_, hzero, ?_⟩
    · rw [hput.file, hoff, hlen']
    · have hcontent : s'.content 0 70144 = patch (s.content 0) 70144 (src.take 1536) 70144 := by
        have := @Put.content s s' 0 (src.take 1536) hput 70144
        rw [hip, hoff, hsize] at this
        exact this (Nat.lt_of_lt_of_le (by decide) (Nat.le_max_left ..))
      have hbyte : (src.take 1536)[0]? = some 7 := by
        rw [List.getElem?_take_of_lt (by decide), ← List.head?_eq_getElem?, hfirst]
      rw [hcontent, patch, if_pos le_rfl, Nat.sub_self, hbyte]
      rfl

end failure

end Fs
end Xv6
