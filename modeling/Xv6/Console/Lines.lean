import Mathlib.Data.List.Basic
import Xv6.Console.Model
import Xv6.Lib.Run

/-!
# Readers get what was committed

The input buffer is a ring with three indexes.  `Buffer` says which part of what was typed
lies between them; each character that `consoleintr` handles and each stretch of
`consoleread` keeps it.  `console_lines` draws the conclusion for whole runs.
-/

namespace Xv6
namespace Console

open Lib Function

/-- The indexes count modulo this. -/
def UINT : Nat := 2 ^ 32

/-- The buffer as a ring, up to the edit index. -/
def Input.toRing (inp : Input) : Lib.Ring UInt8 := ⟨inp.buf, inp.r.toNat, inp.e.toNat⟩

/-- The bytes from the read index up to the write index. -/
def Input.readable (inp : Input) : List UInt8 :=
  Ring.contents INPUT_BUF ⟨inp.buf, inp.r.toNat, inp.w.toNat⟩ (inp.w - inp.r).toNat

/-- What a byte of the committed text is for the readers. -/
def out (b : UInt8) : Out := if b = ctrl 'D' then .zero else .byte b

/-- The buffer holds what was typed and not taken by the first `k` deliveries. -/
structure Buffer (inp : Input) (t : Typed) (k : Nat) : Prop where
  ring : inp.toRing.Holds INPUT_BUF UINT (t.committed ++ t.line) k
  write : inp.w.toNat = t.committed.length % UINT
  taken : k ≤ t.committed.length
  line : newline ∉ t.line

section buffer

variable {inp : Input} {t : Typed} {k : Nat} {c : UInt8}

theorem inputBuf_dvd : INPUT_BUF ∣ UINT := by decide

theorem inputBuf_lt : INPUT_BUF < UINT := by decide

theorem toNat_succ (i : UInt32) : (i + 1).toNat = (i.toNat + 1) % UINT := UInt32.toNat_add i 1

theorem toNat_pred (i : UInt32) : (i - 1).toNat = (i.toNat + (UINT - 1)) % UINT := by
  rw [UInt32.toNat_sub]
  show (2 ^ 32 - 1 + i.toNat) % 2 ^ 32 = (i.toNat + (2 ^ 32 - 1)) % 2 ^ 32
  rw [Nat.add_comm]

theorem toNat_distance (i j : UInt32) : (i - j).toNat = (i.toNat + (UINT - j.toNat)) % UINT := by
  rw [UInt32.toNat_sub, Nat.add_comm]
  rfl

namespace Buffer

/-- The ring up to the write index. -/
theorem readRing (h : Buffer inp t k) :
    Ring.Holds INPUT_BUF UINT ⟨inp.buf, inp.r.toNat, inp.w.toNat⟩ t.committed k :=
  h.ring.upTo h.taken h.write

theorem edit_distance (h : Buffer inp t k) :
    (inp.e - inp.r).toNat = t.committed.length + t.line.length - k := by
  rw [toNat_distance, ← List.length_append]
  exact h.ring.distance inputBuf_lt

theorem write_distance (h : Buffer inp t k) : (inp.w - inp.r).toNat = t.committed.length - k := by
  rw [toNat_distance]
  exact h.readRing.distance inputBuf_lt

theorem fits (h : Buffer inp t k) : t.committed.length + t.line.length ≤ k + INPUT_BUF := by
  rw [← List.length_append]
  exact h.ring.fits

theorem edit (h : Buffer inp t k) : inp.e.toNat = (t.committed.length + t.line.length) % UINT := by
  rw [← List.length_append]
  exact h.ring.nwrite

/-- Nothing to read. -/
theorem empty_iff (h : Buffer inp t k) : inp.r = inp.w ↔ k = t.committed.length := by
  rw [← UInt32.toNat_inj]
  exact h.readRing.empty_iff inputBuf_lt

/-- Nothing to erase. -/
theorem edit_eq_iff (h : Buffer inp t k) : inp.e = inp.w ↔ t.line = [] := by
  have hfits := h.fits
  have htaken := h.taken
  have hlt := inputBuf_lt
  rw [← UInt32.toNat_inj, h.edit, h.write, ← List.length_eq_zero_iff]
  constructor
  · intro heq
    have := Ring.eq_of_mod_eq (Nat.le_add_right _ _) (by omega) heq.symm
    omega
  · intro heq
    rw [heq, Nat.add_zero]

/-- The last character of the line is erased. -/
theorem erase {l : List UInt8} (h : Buffer inp t k) (hl : t.line = l ++ [c]) :
    inp.buf (cell (inp.e - 1)) = c ∧ Buffer { inp with e := inp.e - 1 } ⟨t.committed, l⟩ k := by
  have hring := h.ring
  rw [hl, ← List.append_assoc] at hring
  have hk : k ≤ (t.committed ++ l).length := by
    rw [List.length_append]
    exact Nat.le_trans h.taken (Nat.le_add_right _ _)
  obtain ⟨hlast, hring⟩ := hring.unpush inputBuf_dvd (by decide) hk
  have hindex : (inp.e - 1).toNat = (inp.toRing.unpush UINT).nwrite := toNat_pred inp.e
  constructor
  · rw [cell, hindex]
    exact hlast
  · refine ⟨?_, h.write, h.taken, ?_⟩
    · have hsame : Input.toRing { inp with e := inp.e - 1 } = inp.toRing.unpush UINT := by
        rw [Input.toRing, hindex]
        rfl
      rw [hsame]
      exact hring
    · intro hmem
      have hline := h.line
      rw [hl] at hline
      exact hline (List.mem_append_left _ hmem)

theorem erase_distance (h : Buffer inp t k) : (inp.e - inp.w).toNat = t.line.length := by
  have hfits := h.fits
  have htaken := h.taken
  have hlt := Nat.mod_lt t.committed.length (show 0 < UINT by decide)
  rw [toNat_distance, h.edit, h.write]
  unfold INPUT_BUF at hfits
  unfold UINT at hlt ⊢
  omega

/-- The loop erases the line: it has no newline. -/
theorem killLoop (n : Nat) (h : Buffer inp t k) (hn : t.line.length = n) :
    Buffer (Console.killLoop n inp) ⟨t.committed, []⟩ k := by
  induction n generalizing inp t with
  | zero =>
    have hnil : t.line = [] := List.length_eq_zero_iff.mp hn
    rw [← hnil]
    exact h
  | succ n ih =>
    obtain hnil | ⟨l, c, hl⟩ := List.eq_nil_or_concat' t.line
    · rw [hnil] at hn
      cases hn
    · obtain ⟨hlast, hnext⟩ := h.erase hl
      have hne : inp.e ≠ inp.w := by
        rw [Ne, h.edit_eq_iff, hl]
        exact List.concat_ne_nil c l
      have hnl : c ≠ newline := by
        intro heq
        exact h.line (hl ▸ heq ▸ List.mem_concat_self)
      rw [Console.killLoop, if_pos ⟨hne, hlast ▸ hnl⟩]
      apply ih hnext
      rw [hl, List.length_append, List.length_singleton] at hn
      exact Nat.succ.inj hn

theorem killLine (h : Buffer inp t k) : Buffer (Console.killLine inp) ⟨t.committed, []⟩ k :=
  h.killLoop _ h.erase_distance.symm

theorem backspace (h : Buffer inp t k) :
    Buffer (if inp.e ≠ inp.w then { inp with e := inp.e - 1 } else inp)
      ⟨t.committed, t.line.dropLast⟩ k := by
  obtain hnil | ⟨l, c, hl⟩ := List.eq_nil_or_concat' t.line
  · rw [if_neg fun hne => hne (h.edit_eq_iff.mpr hnil), hnil, List.dropLast_nil, ← hnil]
    exact h
  · have hne : inp.e ≠ inp.w := by
      rw [Ne, h.edit_eq_iff, hl]
      exact List.concat_ne_nil c l
    rw [if_pos hne, hl, List.dropLast_concat]
    exact (h.erase hl).2

/-- The test for room. -/
theorem room_iff (h : Buffer inp t k) :
    inp.e - inp.r < 128 ↔ t.committed.length + t.line.length - k < INPUT_BUF := by
  rw [UInt32.lt_iff_toNat_lt, h.edit_distance]
  rfl

/-- The test for a full buffer. -/
theorem full_iff (h : Buffer inp t k) (hroom : t.committed.length + t.line.length - k < INPUT_BUF) :
    inp.e + 1 = inp.r + 128 ↔ t.committed.length + (t.line.length + 1) - k = INPUT_BUF := by
  have hread : inp.r.toNat = k % UINT := h.ring.nread
  have htaken := h.taken
  have h128 : (128 : UInt32).toNat = 128 := rfl
  rw [← UInt32.toNat_inj, toNat_succ, UInt32.toNat_add, h.edit, hread, h128]
  unfold INPUT_BUF at hroom ⊢
  unfold UINT
  omega

/-- The character goes in at the end of the line. -/
theorem push (h : Buffer inp t k)
    (hroom : t.committed.length + t.line.length - k < INPUT_BUF) (c : UInt8) (w : UInt32) :
    (Input.toRing ⟨update inp.buf (cell inp.e) c, inp.r, w, inp.e + 1⟩).Holds
      INPUT_BUF UINT (t.committed ++ (t.line ++ [c])) k := by
  have hsame : Input.toRing ⟨update inp.buf (cell inp.e) c, inp.r, w, inp.e + 1⟩ =
      inp.toRing.push INPUT_BUF UINT c := by
    rw [Input.toRing, toNat_succ]
    rfl
  have hlen : (t.committed ++ t.line).length ≠ k + INPUT_BUF := by
    rw [List.length_append]
    have htaken := h.taken
    omega
  rw [hsame, ← List.append_assoc]
  exact h.ring.push inputBuf_dvd hlen c

end Buffer

/-- The branch for ordinary characters. -/
theorem buffer_insert (h : Buffer inp t k) (hP : c ≠ ctrl 'P') (hU : c ≠ ctrl 'U')
    (hH : ¬(c = ctrl 'H' ∨ c = delete)) : Buffer (insert inp c) (t.key k c) k := by
  rw [insert, Typed.key, if_neg hP, if_neg hU, if_neg hH]
  by_cases hroom : c ≠ 0 ∧ t.committed.length + t.line.length - k < INPUT_BUF
  · rw [if_pos hroom, if_pos ⟨hroom.1, h.room_iff.mpr hroom.2⟩]
    generalize (if c = carriageReturn then newline else c) = c'
    have hring := h.push hroom.2 c'
    have hedit : (inp.e + 1).toNat = (t.committed ++ (t.line ++ [c'])).length % UINT :=
      (hring inp.w).nwrite
    have hfull := h.full_iff hroom.2
    dsimp only
    rw [List.length_append, List.length_singleton]
    by_cases hcommit : c' = newline ∨ c' = ctrl 'D' ∨ inp.e + 1 = inp.r + 128
    · rw [if_pos hcommit, if_pos (by rwa [← hfull])]
      refine ⟨?_, hedit, ?_, List.not_mem_nil⟩
      · rw [List.append_nil]
        exact hring (inp.e + 1)
      · rw [List.length_append]
        exact Nat.le_trans h.taken (Nat.le_add_right _ _)
    · rw [if_neg hcommit, if_neg (by rwa [← hfull])]
      refine ⟨hring inp.w, h.write, h.taken, ?_⟩
      intro hmem
      rcases List.mem_append.mp hmem with hold | hnew
      · exact h.line hold
      · exact hcommit (.inl (List.mem_singleton.mp hnew).symm)
  · rw [if_neg hroom, if_neg fun hand => hroom ⟨hand.1, h.room_iff.mp hand.2⟩]
    exact h

/-- One character. -/
theorem buffer_key (h : Buffer inp t k) (c : UInt8) : Buffer (key inp c) (t.key k c) k := by
  by_cases hP : c = ctrl 'P'
  · rw [key, if_pos hP, Typed.key, if_pos hP]
    exact h
  by_cases hU : c = ctrl 'U'
  · rw [key, if_neg hP, if_pos hU, Typed.key, if_neg hP, if_pos hU]
    exact h.killLine
  by_cases hH : c = ctrl 'H' ∨ c = delete
  · rw [key, if_neg hP, if_neg hU, if_pos hH, Typed.key, if_neg hP, if_neg hU, if_pos hH]
    exact h.backspace
  · rw [key, if_neg hP, if_neg hU, if_neg hH]
    exact buffer_insert h hP hU hH

/-- A call of `consoleintr`. -/
theorem buffer_consoleintr (h : Buffer inp t k) (cs : List UInt8) :
    Buffer (consoleintr inp cs) (cs.foldl (Typed.key k) t) k := by
  induction cs generalizing inp t with
  | nil => exact h
  | cons c cs ih => exact ih (buffer_key h c)

/-- The byte at the read index is taken. -/
theorem Buffer.pop (h : Buffer inp t k) (hne : inp.r ≠ inp.w) :
    t.committed.drop k = inp.buf (cell inp.r) :: t.committed.drop (k + 1) ∧
      Buffer { inp with r := inp.r + 1 } t (k + 1) := by
  have hk : k ≠ t.committed.length := fun heq => hne (h.empty_iff.mpr heq)
  have hlt : k < t.committed.length := Nat.lt_of_le_of_ne h.taken hk
  have hall : k ≠ (t.committed ++ t.line).length := by
    rw [List.length_append]
    omega
  constructor
  · have hfront := (h.readRing.pop inputBuf_dvd hk).1
    have hcell : t.committed[k] = inp.buf (cell inp.r) :=
      Option.some.inj ((List.getElem?_eq_getElem hlt).symm.trans hfront)
    rw [List.drop_eq_getElem_cons hlt, hcell]
  · have hsame : Input.toRing { inp with r := inp.r + 1 } = inp.toRing.pop UINT := by
      rw [Input.toRing, toNat_succ]
      rfl
    refine ⟨?_, h.write, hlt, h.line⟩
    rw [hsame]
    exact (h.ring.pop inputBuf_dvd hall).2

end buffer

/-! ## Reading -/

section read

variable {inp : Input} {t : Typed} {k target n : Nat}

/-- A stretch of `consoleread` hands out the next part of the committed text. -/
structure Reads (target : Nat) (t : Typed) (k : Nat) (res : Input × List UInt8 × Status) :
    Prop where
  buffer : Buffer res.1 t (k + (outs target res.2.1 res.2.2).length)
  outs : outs target res.2.1 res.2.2 <+: (t.committed.drop k).map out
  asleep : ∀ m, res.2.2 = .asleep m → 0 < m ∧ m ≤ target

/-- Nothing is handed out. -/
theorem Reads.of_nil {status : Status} (h : Buffer inp t k)
    (houts : Console.outs target [] status = [])
    (hasleep : ∀ m, status = .asleep m → 0 < m ∧ m ≤ target) : Reads target t k (inp, [], status) := by
  refine ⟨?_, ?_, hasleep⟩
  · show Buffer inp t (k + (Console.outs target [] status).length)
    rw [houts]
    exact h
  · show Console.outs target [] status <+: _
    rw [houts]
    exact List.nil_prefix

theorem outs_ret_of_lt (bytes : List UInt8) (h : n < target) :
    outs target bytes (.ret n) = bytes.map Out.byte := by
  have hne : target - n ≠ 0 := by omega
  rw [outs, if_neg hne, List.append_nil]

theorem outs_cons (c : UInt8) (bytes : List UInt8) (status : Status) :
    outs target (c :: bytes) status = .byte c :: outs target bytes status := rfl

theorem out_of_ne {c : UInt8} (h : c ≠ ctrl 'D') : out c = .byte c := if_neg h

theorem reads_readLoop (h : Buffer inp t k) (hn : n ≤ target) (htarget : 0 < target) :
    Reads target t k (readLoop target n inp) := by
  induction n generalizing inp k with
  | zero => exact Reads.of_nil h (outs_ret_of_lt [] htarget) nofun
  | succ n ih =>
    rw [readLoop]
    by_cases hempty : inp.r = inp.w
    · rw [if_pos hempty]
      apply Reads.of_nil h rfl
      intro m hm
      cases hm
      exact ⟨Nat.succ_pos n, hn⟩
    obtain ⟨hdrop, hnext⟩ := h.pop hempty
    rw [if_neg hempty]
    dsimp only
    by_cases heof : inp.buf (cell inp.r) = ctrl 'D'
    · rw [if_pos heof]
      by_cases hlt : n + 1 < target
      · -- the mark is put back, for the next call
        rw [if_pos hlt, UInt32.add_sub_cancel]
        exact Reads.of_nil h (outs_ret_of_lt [] hlt) nofun
      · have hall : n + 1 = target := Nat.le_antisymm hn (Nat.le_of_not_lt hlt)
        have houts : outs target [] (.ret (n + 1)) = [.zero] := by
          rw [hall, outs, if_pos (Nat.sub_self target)]
          rfl
        rw [if_neg hlt]
        refine ⟨?_, ?_, nofun⟩
        · dsimp only
          rw [houts]
          exact hnext
        · dsimp only
          rw [houts, hdrop, List.map_cons, out, if_pos heof, List.cons_prefix_cons]
          exact ⟨rfl, List.nil_prefix⟩
    · rw [if_neg heof]
      by_cases hnl : inp.buf (cell inp.r) = newline
      · rw [if_pos hnl]
        have houts := outs_ret_of_lt [inp.buf (cell inp.r)] hn
        refine ⟨?_, ?_, nofun⟩
        · dsimp only
          rw [houts]
          exact hnext
        · dsimp only
          rw [houts, hdrop, List.map_cons, List.map_cons, out_of_ne heof, List.cons_prefix_cons]
          exact ⟨rfl, List.nil_prefix⟩
      · rw [if_neg hnl]
        obtain ⟨hbuffer, houts, hasleep⟩ := ih hnext (Nat.le_of_succ_le hn)
        refine ⟨?_, ?_, hasleep⟩
        · dsimp only
          rw [outs_cons, List.length_cons, Nat.add_comm _ 1, ← Nat.add_assoc]
          exact hbuffer
        · dsimp only
          rw [outs_cons, hdrop, List.map_cons, out_of_ne heof, List.cons_prefix_cons]
          exact ⟨rfl, houts⟩

end read

/-! ## Runs -/

/-- What holds of the console and its readers. -/
structure Inv (s : Sys) : Prop where
  buffer : Buffer s.input s.typed s.log.length
  log : s.log <+: s.typed.committed.map out
  reader : ∀ i n target, s.reader i = some (n, target) → 0 < n ∧ n ≤ target

section runs

variable {s s' : Sys} {l : Label} {ls : List Label} {i target : Nat}
  {res : Input × List UInt8 × Status}

theorem inv_start (buf : Nat → UInt8) : Inv (start buf) := by
  refine ⟨⟨⟨rfl, rfl, Nat.le_refl 0, Nat.zero_le _, ?_⟩, rfl, Nat.le_refl 0, List.not_mem_nil⟩,
    List.nil_prefix, nofun⟩
  intro j _ hj
  exact absurd hj (Nat.not_lt_zero j)

theorem Inv.finish (h : Inv s) (hres : Reads target s.typed s.log.length res) :
    Inv (s.finish i target res) := by
  have hlen : (s.finish i target res).log.length =
      s.log.length + (outs target res.2.1 res.2.2).length := List.length_append
  constructor
  · rw [hlen]
    exact hres.buffer
  · obtain ⟨rest, hrest⟩ := h.log
    have hdrop : (s.typed.committed.drop s.log.length).map out = rest := by
      rw [List.map_drop, ← hrest, List.drop_left]
    have houts := hres.outs
    rw [hdrop] at houts
    show s.log ++ outs target res.2.1 res.2.2 <+: s.typed.committed.map out
    rw [← hrest]
    exact (List.prefix_append_right_inj _).mpr houts
  · intro j n target' hj
    by_cases hji : j = i
    · subst hji
      change update s.reader j _ j = _ at hj
      rw [update_self] at hj
      cases hstatus : res.2.2 with
      | asleep m =>
        rw [hstatus] at hj
        cases hj
        exact hres.asleep _ hstatus
      | ret m =>
        rw [hstatus] at hj
        cases hj
    · change update s.reader i _ j = _ at hj
      rw [update_of_ne hji] at hj
      exact h.reader j n target' hj

/-- Typing only adds to the committed text. -/
theorem committed_key (k : Nat) (t : Typed) (c : UInt8) :
    t.committed <+: (t.key k c).committed := by
  unfold Typed.key
  dsimp only
  split_ifs
  · exact List.prefix_refl _
  · exact List.prefix_refl _
  · exact List.prefix_refl _
  · exact List.prefix_append _ _
  · exact List.prefix_refl _
  · exact List.prefix_append _ _
  · exact List.prefix_refl _
  · exact List.prefix_refl _

theorem committed_foldl_key (k : Nat) (t : Typed) (cs : List UInt8) :
    t.committed <+: (cs.foldl (Typed.key k) t).committed := by
  induction cs generalizing t with
  | nil => exact List.prefix_refl _
  | cons c cs ih => exact (committed_key k t c).trans (ih (t.key k c))

/-- One step. -/
theorem Inv.step (h : Inv s) (hstep : Steps s l s') :
    Inv s' ∧ s.typed.committed <+: s'.typed.committed := by
  cases l with
  | intr cs =>
    cases hstep
    have hgrow := committed_foldl_key s.log.length s.typed cs
    exact ⟨⟨buffer_consoleintr h.buffer cs, h.log.trans (hgrow.map out), h.reader⟩, hgrow⟩
  | call i n =>
    simp only [Steps, step] at hstep
    split at hstep
    · cases hstep
    · split_ifs at hstep with hn
      · cases hstep
        exact ⟨h, List.prefix_refl _⟩
      · cases hstep
        have hpos : 0 < n.toNat := by omega
        exact ⟨h.finish (reads_readLoop h.buffer (Nat.le_refl _) hpos), List.prefix_refl _⟩
  | wake i =>
    simp only [Steps, step] at hstep
    split at hstep
    · cases hstep
    · next n target hreader =>
      cases hstep
      obtain ⟨hpos, hle⟩ := h.reader i n target hreader
      exact ⟨h.finish (reads_readLoop h.buffer hle (Nat.lt_of_lt_of_le hpos hle)),
        List.prefix_refl _⟩

/-- In every run the indexes are in order, the readers get a prefix of the committed text with
a read of 0 bytes for each ^D, the bytes from the read to the write index are what they have
still to get, and the committed text only grows. -/
theorem console_lines {buf : Nat → UInt8} (h : Run Steps (start buf) ls s) :
    s.input.w - s.input.r ≤ s.input.e - s.input.r ∧ s.input.e - s.input.r ≤ 128 ∧
      s.typed.committed.map out = s.log ++ s.input.readable.map out ∧
      Run (fun s l s' => Steps s l s' ∧ s.typed.committed <+: s'.typed.committed)
        (start buf) ls s := by
  have hinv : Inv s ∧ Run (fun s l s' => Steps s l s' ∧ s.typed.committed <+: s'.typed.committed)
      (start buf) ls s := by
    induction h with
    | nil => exact ⟨inv_start buf, Run.nil⟩
    | snoc _ hs ih =>
      obtain ⟨hinv, hrun⟩ := ih
      obtain ⟨hnext, hgrow⟩ := hinv.step hs
      exact ⟨hnext, hrun.snoc ⟨hs, hgrow⟩⟩
  obtain ⟨hinv, hrun⟩ := hinv
  have hwrite := hinv.buffer.write_distance
  have hedit := hinv.buffer.edit_distance
  have hfits := hinv.buffer.fits
  have htaken := hinv.buffer.taken
  refine ⟨?_, ?_, ?_, hrun⟩
  · rw [UInt32.le_iff_toNat_le, hwrite, hedit]
    omega
  · rw [UInt32.le_iff_toNat_le, hedit]
    show _ ≤ INPUT_BUF
    omega
  · have hreadable : s.input.readable = s.typed.committed.drop s.log.length := by
      rw [Input.readable, hwrite]
      exact hinv.buffer.readRing.contents_eq inputBuf_dvd
    obtain ⟨rest, hrest⟩ := hinv.log
    rw [hreadable, List.map_drop, ← hrest, List.drop_left]

/-- Two readers: one gets a part of a line whose end was erased and typed again, and sleeps;
the other gets the end of the file. -/
theorem console_lines_sample : ∃ s, Run Steps (start fun _ => 0)
      [.intr [97, 98, 8, 99, 4], .call 1 5, .call 2 5, .call 1 5, .intr [100, 21, 101, 13],
        .wake 1] s ∧
    s.log = [.byte 97, .byte 99, .zero, .byte 101, .byte 10] ∧
    s.typed.committed.map out = s.log ++ s.input.readable.map out := by
  have hrun : ∃ s, Run Steps (start fun _ => 0)
      [.intr [97, 98, 8, 99, 4], .call 1 5, .call 2 5, .call 1 5, .intr [100, 21, 101, 13],
        .wake 1] s ∧
      decide (s.log = [.byte 97, .byte 99, .zero, .byte 101, .byte 10]) = true :=
    Run.exists_of_passes (by decide +kernel)
  obtain ⟨s, hs, hlog⟩ := hrun
  exact ⟨s, hs, of_decide_eq_true hlog, (console_lines hs).2.2.1⟩

end runs

end Console
end Xv6
