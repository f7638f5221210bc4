import Xv6.Log.Protocol
import Xv6.Sync.Wakeup
import Mathlib.Data.Finset.Card

/-!
# Group commit

What holds in every state of `Xv6.Log.Protocol`, for any number of operations:

* `Grouped`: `log.outstanding` counts the operations that have begun and not ended; while
  a commit runs there are none, and there is one process that commits.
* `Tidy`: the entries of the header are distinct, and they are the blocks recorded since the last
  commit.
* `Traced`: with those that processes are about to record, they are the blocks passed to
  `log_write`.
* `Sorted.careful`: `begin_op` sleeps only where it has to, and whoever ends its wait calls
  `wakeup(&log)`.
-/

namespace Xv6
namespace Log

open Lib Sync Function

/-! ## The header -/

namespace LogHeader

variable {lh lh' : LogHeader} {b : Nat}

@[simp] theorem length_blocks (lh : LogHeader) : lh.blocks.length = lh.n.toNat := by
  simp [blocks]

theorem mem_blocks {lh : LogHeader} {b : Nat} :
    b ∈ lh.blocks ↔ ∃ i < lh.n.toNat, lh.block i = b := by
  simp [blocks]

theorem slot_of_mem (hb : b ∈ lh.blocks) :
    lh.slot b < lh.n.toNat ∧ lh.block (lh.slot b) = b := by
  obtain ⟨i, hi, hib⟩ := mem_blocks.mp hb
  unfold slot
  cases hfind : (List.range lh.n.toNat).find? fun i => lh.block i == b with
  | none =>
    have := List.find?_eq_none.mp hfind i (List.mem_range.mpr hi)
    simp [hib] at this
  | some j =>
    have hj := List.mem_of_find?_eq_some hfind
    have hjb := List.find?_some hfind
    exact ⟨List.mem_range.mp hj, by simpa using hjb⟩

theorem slot_of_not_mem (hb : b ∉ lh.blocks) : lh.slot b = lh.n.toNat := by
  unfold slot
  cases hfind : (List.range lh.n.toNat).find? fun i => lh.block i == b with
  | none => rfl
  | some j =>
    have hj := List.mem_of_find?_eq_some hfind
    have hjb := List.find?_some hfind
    exact absurd (mem_blocks.mpr ⟨j, List.mem_range.mp hj, by simpa using hjb⟩) hb

/-- A block that has been recorded is absorbed. -/
theorem record_of_mem (hn : 0 ≤ lh.n) (hle : lh.n ≤ LOGSIZE) (hb : b ∈ lh.blocks) :
    lh.record b = some lh := by
  obtain ⟨hlt, hslot⟩ := slot_of_mem hb
  unfold record
  rw [if_neg (by omega), if_neg (by omega)]
  congr
  exact update_eq_self_iff.mpr hslot.symm

/-- A new block is appended, if there is a place for it. -/
theorem record_of_not_mem (hn : 0 ≤ lh.n) (hb : b ∉ lh.blocks) (h : lh.record b = some lh') :
    lh.n < LOGSIZE ∧ lh'.n = lh.n + 1 ∧ lh'.blocks = lh.blocks ++ [b] := by
  unfold record at h
  rw [slot_of_not_mem hb] at h
  split_ifs at h with hfull hlast
  · cases h
    refine ⟨by omega, rfl, ?_⟩
    have hlen : (lh.n + 1).toNat = lh.n.toNat + 1 := by omega
    simp only [blocks, hlen, List.range_succ, List.map_append, List.map_cons, List.map_nil,
      update_self, List.append_cancel_right_eq]
    apply List.map_congr_left
    intro i hi
    have : i ≠ lh.n.toNat := by
      have := List.mem_range.mp hi
      omega
    exact update_of_ne this _ _
  · omega

end LogHeader

/-- The header holds the blocks logged since the last commit, once each. -/
structure Tidy (s : Shared) : Prop where
  nonneg : 0 ≤ s.lh.n
  le : s.lh.n ≤ LOGSIZE
  nodup : s.lh.blocks.Nodup
  mem : ∀ b, b ∈ s.lh.blocks ↔ b ∈ s.since

theorem Tidy.congr {s s' : Shared} (h : Tidy s) (hlh : s'.lh = s.lh) (hsince : s'.since = s.since) :
    Tidy s' := by
  constructor
  · rw [hlh]; exact h.nonneg
  · rw [hlh]; exact h.le
  · rw [hlh]; exact h.nodup
  · rw [hlh, hsince]; exact h.mem

theorem Tidy.record {s : Shared} (h : Tidy s) {b : Nat} {lh : LogHeader}
    (hrec : s.lh.record b = some lh) : Tidy { s with lh := lh, since := s.since ++ [b] } := by
  by_cases hb : b ∈ s.lh.blocks
  · rw [LogHeader.record_of_mem h.nonneg h.le hb] at hrec
    cases hrec
    refine ⟨h.nonneg, h.le, h.nodup, fun b' => ?_⟩
    have hb' := (h.mem b).mp hb
    rw [h.mem b', List.mem_append, List.mem_singleton]
    constructor
    · exact .inl
    · rintro (hin | rfl)
      · exact hin
      · exact hb'
  · obtain ⟨hlt, hn, hblocks⟩ := LogHeader.record_of_not_mem h.nonneg hb hrec
    have hnonneg := h.nonneg
    refine ⟨by dsimp only; omega, by dsimp only; omega, ?_, fun b' => ?_⟩
    · dsimp only
      rw [hblocks, List.nodup_append]
      refine ⟨h.nodup, List.nodup_singleton b, fun x hx y hy hxy => ?_⟩
      rw [List.mem_singleton] at hy
      rw [hxy, hy] at hx
      exact hb hx
    · dsimp only
      rw [hblocks, List.mem_append, List.mem_append, h.mem b']

theorem tidy_clear (lh : LogHeader) {s : Shared} (hn : lh.n = 0) (hlh : s.lh = lh)
    (hsince : s.since = []) : Tidy s := by
  have hblocks : s.lh.blocks = [] := by simp [LogHeader.blocks, hlh, hn]
  refine ⟨by rw [hlh, hn], by rw [hlh, hn]; simp [LOGSIZE], ?_, fun b => ?_⟩
  · rw [hblocks]
    exact List.nodup_nil
  · rw [hblocks, hsince]

/-! ## The operations -/

/-- The operation a process is executing: the number of commits when it began, and the
blocks it has logged. -/
def Place.running : Place → Option (Nat × List Nat)
  | .op start logged | .check start logged _ | .record start logged _ | .ending start logged =>
    some (start, logged)
  | _ => none

/-- The block with which a process is in `log_write`. -/
def Place.logging : Place → Option Nat
  | .check _ _ b | .record _ _ b => some b
  | _ => none

theorem Place.logging_of_not_running {l : Place} (h : l.running = none) : l.logging = none := by
  cases l <;> first | rfl | cases h

/-- A block that was passed to `log_write` is recorded, or a process is about to record it. -/
def Traced (s : Shared) (place : Nat → Place) : Prop :=
  ∀ b, b ∈ s.passed ↔ b ∈ s.since ∨ ∃ q, (place q).logging = some b

variable {p : Nat} {l0 x : Place}

/-- One process goes on; `o` says that another one is about to record the block. -/
theorem Traced.move {s s' : Shared} {place : Nat → Place} (h : Traced s place)
    (hmove : ∀ b o, (b ∈ s.passed ↔ b ∈ s.since ∨ (place p).logging = some b ∨ o) →
      (b ∈ s'.passed ↔ b ∈ s'.since ∨ x.logging = some b ∨ o)) :
    Traced s' (update place p x) := by
  intro b
  have hsplit : ∀ f : Nat → Place, (∃ q, (f q).logging = some b) ↔
      (f p).logging = some b ∨ ∃ q, q ≠ p ∧ (f q).logging = some b := by
    intro f
    constructor
    · rintro ⟨q, hq⟩
      by_cases hqp : q = p
      · exact .inl (hqp ▸ hq)
      · exact .inr ⟨q, hqp, hq⟩
    · rintro (hp | ⟨q, -, hq⟩)
      · exact ⟨p, hp⟩
      · exact ⟨q, hq⟩
  have hothers : (∃ q, q ≠ p ∧ (update place p x q).logging = some b) ↔
      ∃ q, q ≠ p ∧ (place q).logging = some b := by
    refine exists_congr fun q => and_congr_right fun hq => ?_
    rw [update_of_ne hq]
  rw [hsplit, hothers, update_self]
  exact hmove b _ (by rw [← hsplit]; exact h b)

/-- The process is committing. -/
def Place.committer : Place → Bool
  | .commit | .cleared | .finish => true
  | _ => false

/-- The operations `A` are running. -/
structure Grouped (s : Shared) (place : Nat → Place) (A : Finset Nat) : Prop where
  active : ∀ p, p ∈ A ↔ (place p).running.isSome = true
  count : s.outstanding = A.card
  quiet : s.committing = true → A = ∅
  committer : ∀ p, (place p).committer = true → s.committing = true
  single : ∀ p q, (place p).committer = true → (place q).committer = true → p = q
  begun : ∀ p x, (place p).running = some x → x.1 = s.commits

namespace Grouped

variable {s s' : Shared} {place : Nat → Place} {A : Finset Nat} {p : Nat} {l : Place}

/-- A process goes on within its operation, or within its commit, or outside of both. -/
theorem keep (h : Grouped s place A) (hout : s'.outstanding = s.outstanding)
    (hcom : s'.committing = s.committing) (hnum : s'.commits = s.commits)
    (hrun : l.running.map Prod.fst = (place p).running.map Prod.fst)
    (hl : l.committer = (place p).committer) : Grouped s' (update place p l) A := by
  have hrunning : ∀ q, ((update place p l) q).running.map Prod.fst =
      (place q).running.map Prod.fst := by
    intro q
    by_cases hq : q = p
    · subst hq
      simpa using hrun
    · simp [hq]
  have hcommitter : ∀ q, ((update place p l) q).committer = (place q).committer := by
    intro q
    by_cases hq : q = p
    · subst hq
      simpa using hl
    · simp [hq]
  constructor
  · intro q
    rw [h.active q, ← Option.isSome_map (f := Prod.fst), ← hrunning q, Option.isSome_map]
  · rw [hout, h.count]
  · rw [hcom]; exact h.quiet
  · intro q hq
    rw [hcom]
    exact h.committer q (by rwa [hcommitter] at hq)
  · intro q r hq hr
    rw [hcommitter] at hq hr
    exact h.single q r hq hr
  · intro q x hx
    have hmap := hrunning q
    rw [hx, Option.map_some] at hmap
    obtain ⟨y, hy, hxy⟩ := Option.map_eq_some_iff.mp hmap.symm
    rw [hnum, ← h.begun q y hy, hxy]

/-- `begin_op` lets an operation in. -/
theorem enter (h : Grouped s place A) (hp : (place p).running = none) (hbusy : s.committing = false) :
    Grouped { s with outstanding := s.outstanding + 1 }
      (update place p (.op s.commits [])) (insert p A) := by
  have hnew : p ∉ A := by
    rw [h.active p, hp]
    simp
  constructor
  · intro q
    by_cases hq : q = p
    · simp [hq, Place.running]
    · simp [hq, h.active q]
  · dsimp only
    rw [Finset.card_insert_of_notMem hnew, h.count]
    push_cast
    rfl
  · intro hcom
    rw [hbusy] at hcom
    cases hcom
  · intro q hq
    by_cases hqp : q = p
    · subst hqp
      simp [Place.committer] at hq
    · exact h.committer q (by simpa [hqp] using hq)
  · intro q r hq
    have : s.committing = true := by
      by_cases hqp : q = p
      · subst hqp
        simp [Place.committer] at hq
      · exact h.committer q (by simpa [hqp] using hq)
    rw [hbusy] at this
    cases this
  · intro q x hx
    by_cases hqp : q = p
    · subst hqp
      simp only [update_self, Place.running, Option.some.injEq] at hx
      rw [← hx]
    · exact h.begun q x (by simpa [hqp] using hx)

/-- `end_op` takes an operation out; the last one becomes the committer. -/
theorem leave (h : Grouped s place A) (hp : (place p).running.isSome = true)
    (hbusy : s.committing = false) (hl : l.running = none)
    (hlast : l.committer = s'.committing) (hzero : s'.committing = true → s.outstanding - 1 = 0)
    (hout : s'.outstanding = s.outstanding - 1) (hnum : s'.commits = s.commits) :
    Grouped s' (update place p l) (A.erase p) := by
  have hpA : p ∈ A := (h.active p).mpr hp
  have hcard := Finset.card_erase_add_one hpA
  have hnone : ∀ q, (place q).committer = false := by
    intro q
    by_contra hq
    have := h.committer q (by simpa using hq)
    rw [hbusy] at this
    cases this
  have honly : ∀ q, ((update place p l) q).committer = true → q = p := by
    intro q hq
    by_contra hqp
    rw [update_of_ne hqp, hnone q] at hq
    cases hq
  constructor
  · intro q
    by_cases hq : q = p
    · simp [hq, hl]
    · simp [hq, h.active q]
  · rw [hout, h.count, ← hcard]
    push_cast
    omega
  · intro hcom
    have := hzero hcom
    rw [h.count] at this
    exact Finset.card_eq_zero.mp (by omega)
  · intro q hq
    obtain rfl := honly q hq
    rwa [update_self, hlast] at hq
  · intro q r hq hr
    rw [honly q hq, honly r hr]
  · intro q x hx
    by_cases hqp : q = p
    · subst hqp
      simp [hl] at hx
    · rw [hnum]
      exact h.begun q x (by simpa [hqp] using hx)

/-- `commit` ends a transaction; no operation is running. -/
theorem commit (h : Grouped s place A) (hp : (place p).committer = true)
    (hl : l.running = none) (hlc : l.committer = true) (hout : s'.outstanding = s.outstanding)
    (hcom : s'.committing = s.committing) : Grouped s' (update place p l) A := by
  have hA : A = ∅ := h.quiet (h.committer p hp)
  have hnone : ∀ q, ((update place p l) q).running = none := by
    intro q
    by_cases hq : q = p
    · simp [hq, hl]
    · have : q ∉ A := by simp [hA]
      rw [h.active q] at this
      simpa [hq] using this
  have hcommitter : ∀ q, ((update place p l) q).committer = (place q).committer := by
    intro q
    by_cases hq : q = p
    · subst hq
      simp [hlc, hp]
    · simp [hq]
  constructor
  · intro q
    simp [hA, hnone q]
  · rw [hout, h.count]
  · exact fun _ => hA
  · intro q hq
    rw [hcom]
    exact h.committer q (by rwa [hcommitter] at hq)
  · intro q r hq hr
    rw [hcommitter] at hq hr
    exact h.single q r hq hr
  · intro q x hx
    rw [hnone q] at hx
    cases hx

/-- The committer is done. -/
theorem finish (h : Grouped s place A) (hp : (place p).committer = true)
    (hl : l.running = none) (hlc : l.committer = false) (hout : s'.outstanding = s.outstanding)
    (hcom : s'.committing = false) : Grouped s' (update place p l) A := by
  have hA : A = ∅ := h.quiet (h.committer p hp)
  have hnone : ∀ q, ((update place p l) q).committer = false := by
    intro q
    by_cases hq : q = p
    · simp [hq, hlc]
    · rw [update_of_ne hq]
      by_contra hqc
      exact hq (h.single q p (by simpa using hqc) hp)
  have hrunning : ∀ q, ((update place p l) q).running = none := by
    intro q
    by_cases hq : q = p
    · simp [hq, hl]
    · have : q ∉ A := by simp [hA]
      rw [h.active q] at this
      simpa [hq] using this
  constructor
  · intro q
    simp [hA, hrunning q]
  · rw [hout, h.count]
  · intro hbusy
    rw [hcom] at hbusy
    cases hbusy
  · intro q hq
    rw [hnone q] at hq
    cases hq
  · intro q r hq
    rw [hnone q] at hq
    cases hq
  · intro q x hx
    rw [hrunning q] at hx
    cases hx

end Grouped

variable {size : Nat} {s s' : Sys Shared Place Unit} {l : Label Choice}

/-- What holds in every reachable state, whatever the operations do. -/
structure Sorted (s : Sys Shared Place Unit) : Prop where
  tidy : Tidy s.shared
  traced : Traced s.shared s.place
  grouped : ∃ A, Grouped s.shared s.place A

/-- A process goes on, and the log is as before. -/
theorem Sorted.keep (h : Sorted s) (hshared : s'.shared = s.shared)
    (hplace : s'.place = update s.place p x) (hrun : x.running = (s.place p).running)
    (hlog : x.logging = (s.place p).logging) (hcom : x.committer = (s.place p).committer) :
    Sorted s' := by
  obtain ⟨A, hA⟩ := h.grouped
  refine ⟨by rw [hshared]; exact h.tidy, ?_, A, ?_⟩
  · rw [hplace, hshared]
    exact h.traced.move fun b o => by rw [hlog]; exact id
  · rw [hplace, hshared]
    exact hA.keep rfl rfl rfl (by rw [hrun]) hcom

/-- A process goes on outside `log_write`. -/
theorem Sorted.traced_of_none (h : Sorted s) {s1 : Shared}
    (hshared : s'.shared = s1) (hplace : s'.place = update s.place p x)
    (hpassed : s1.passed = s.shared.passed) (hsince : s1.since = s.shared.since)
    (hp : (s.place p).logging = none) (hx : x.logging = none) : Traced s'.shared s'.place := by
  rw [hshared, hplace]
  exact h.traced.move fun b o => by rw [hpassed, hsince, hp, hx]; exact id

theorem Sorted.call {a : Choice} {s1 : Shared} {o : Outer Place}
    (h : Sorted s) (hp : s.place p = l0) (hrun : outside size p a l0 s.shared = some (.ok (s1, o)))
    (hshared : s'.shared = s1) (hplace : s'.place = update s.place p o.loc) :
    Sorted s' := by
  obtain ⟨A, hA⟩ := h.grouped
  cases l0 <;> cases a <;> simp only [outside] at hrun
  -- The choices that are not open at a place.
  all_goals try (cases hrun; done)
  case idle.beginOp | op.endOp | commit.write | cleared.goOn =>
    cases hrun
    exact h.keep hshared hplace (by rw [hp]; rfl) (by rw [hp]; rfl) (by rw [hp]; rfl)
  case check.goOn =>
    split_ifs at hrun
    · cases hrun
    · cases hrun
      exact h.keep hshared hplace (by rw [hp]; rfl) (by rw [hp]; rfl) (by rw [hp]; rfl)
  case op.logWrite st logged b =>
    split_ifs at hrun
    · cases hrun
    · cases hrun
      refine ⟨h.tidy.congr (by rw [hshared]) (by rw [hshared]), ?_, A, ?_⟩
      · rw [hplace, hshared]
        refine h.traced.move fun b' o hb' => ?_
        rw [hp] at hb'
        simp only [Place.logging, Outer.loc, reduceCtorEq, false_or, Option.some.injEq] at hb' ⊢
        rw [List.mem_append, List.mem_singleton, hb', eq_comm (a := b'), or_assoc, or_comm (a := o)]
      · rw [hplace]
        apply hA.keep (by rw [hshared]) (by rw [hshared]) (by rw [hshared])
        · rw [hp]; rfl
        · rw [hp]; rfl
  case commit.goOn =>
    cases hrun
    have hn : (if s.shared.lh.n > 0 then 0 else s.shared.lh.n) = 0 := by
      have := h.tidy.nonneg
      split_ifs
      · rfl
      · omega
    refine ⟨tidy_clear _ hn (by rw [hshared]) (by rw [hshared]), ?_, A, ?_⟩
    · -- nobody is in `log_write` while a process commits
      rw [hplace, hshared]
      intro b
      refine iff_of_false List.not_mem_nil ?_
      rintro (hb | ⟨q, hq⟩)
      · exact List.not_mem_nil hb
      · by_cases hqp : q = p
        · rw [hqp, update_self] at hq
          cases hq
        · rw [update_of_ne hqp, Place.logging_of_not_running] at hq
          · cases hq
          · have hnot : q ∉ A := by simp [hA.quiet (hA.committer p (by rw [hp]; rfl))]
            rw [hA.active q] at hnot
            simpa using hnot
    · rw [hplace]
      apply hA.commit _ rfl rfl (by rw [hshared]) (by rw [hshared])
      rw [hp]
      rfl

theorem Sorted.inside (killed : Bool) {s1 : Shared} {n : Next Place Unit}
    (h : Sorted s) (hp : s.place p = l0) (hrun : inside p killed l0 s.shared = .ok (s1, n))
    (hshared : s'.shared = s1) (hplace : s'.place = update s.place p n.loc) :
    Sorted s' := by
  obtain ⟨A, hA⟩ := h.grouped
  cases l0 with
  | idle | op _ _ | check _ _ _ | commit | cleared | unlock =>
    cases hrun
    exact h.keep hshared hplace (by rw [hp]; rfl) (by rw [hp]; rfl) (by rw [hp]; rfl)
  | begin =>
    simp only [Log.inside] at hrun
    split_ifs at hrun with hfull
    · cases hrun
      exact h.keep hshared hplace (by rw [hp]; rfl) (by rw [hp]; rfl) (by rw [hp]; rfl)
    · cases hrun
      have hbusy : s.shared.committing = false := by
        simp only [Shared.full, Bool.or_eq_true, not_or] at hfull
        simpa using hfull.1
      refine ⟨h.tidy.congr (by rw [hshared]) (by rw [hshared]),
        h.traced_of_none hshared hplace rfl rfl (by rw [hp]; rfl) rfl, insert p A, ?_⟩
      rw [hplace, hshared]
      exact hA.enter (by rw [hp]; rfl) hbusy
  | record st logged b =>
    simp only [Log.inside] at hrun
    cases hrec : s.shared.lh.record b with
    | none =>
      rw [hrec] at hrun
      cases hrun
    | some lh =>
      rw [hrec] at hrun
      cases hrun
      refine ⟨by rw [hshared]; exact h.tidy.record hrec, ?_, A, ?_⟩
      · rw [hplace, hshared]
        refine h.traced.move fun b' o hb' => ?_
        rw [hp] at hb'
        simp only [Place.logging, Next.loc, reduceCtorEq, false_or, Option.some.injEq] at hb' ⊢
        rw [hb', List.mem_append, List.mem_singleton, eq_comm (a := b'), or_assoc]
      · rw [hplace]
        apply hA.keep (by rw [hshared]) (by rw [hshared]) (by rw [hshared])
        · rw [hp]; rfl
        · rw [hp]; rfl
  | ending st logged =>
    simp only [Log.inside] at hrun
    split_ifs at hrun with hbusy hlast
    · cases hrun
      refine ⟨h.tidy.congr (by rw [hshared]) (by rw [hshared]),
        h.traced_of_none hshared hplace rfl rfl (by rw [hp]; rfl) rfl, A.erase p, ?_⟩
      rw [hplace, hshared]
      exact hA.leave (by rw [hp]; rfl) (by simpa using hbusy) rfl rfl (fun _ => hlast) rfl rfl
    · cases hrun
      refine ⟨h.tidy.congr (by rw [hshared]) (by rw [hshared]),
        h.traced_of_none hshared hplace rfl rfl (by rw [hp]; rfl) rfl, A.erase p, ?_⟩
      rw [hplace, hshared]
      have hidle : s.shared.committing = false := by simpa using hbusy
      exact hA.leave (by rw [hp]; rfl) hidle rfl hidle.symm (fun hc => absurd hc hbusy) rfl rfl
  | finish =>
    cases hrun
    refine ⟨h.tidy.congr (by rw [hshared]) (by rw [hshared]),
      h.traced_of_none hshared hplace rfl rfl (by rw [hp]; rfl) rfl, A, ?_⟩
    rw [hplace]
    exact hA.finish (by rw [hp]; rfl) rfl rfl (by rw [hshared]) (by rw [hshared])

theorem Sorted.step (h : Sorted s) (hstep : step (logClient size) l s = .ok s') : Sorted s' := by
  cases seen_step hstep with
  | same hshared hplace =>
    obtain ⟨A, hA⟩ := h.grouped
    exact ⟨by rw [hshared]; exact h.tidy, by rw [hshared, hplace]; exact h.traced, A,
      by rw [hshared, hplace]; exact hA⟩
  | call _ hp hrun hshared hplace => exact h.call (by rw [Sys.place, hp]; rfl) hrun hshared hplace
  | @inside p _ _ _ _ hp hrun hshared hplace =>
    exact h.inside (s.killed p) (by rw [Sys.place, hp]; rfl) hrun hshared hplace

theorem sorted_start (lh : LogHeader) : Sorted (start lh) := by
  refine ⟨tidy_clear _ rfl rfl rfl, fun b => iff_of_false List.not_mem_nil ?_, ∅, ?_⟩
  · rintro (hb | ⟨q, hq⟩)
    · exact List.not_mem_nil hb
    · cases hq
  constructor
  · intro p
    simp [start, Sys.place, Ctl.loc, Place.running]
  · rfl
  · exact fun _ => rfl
  · exact fun p hp => by cases hp
  · exact fun p q hp => by cases hp
  · exact fun p x hx => by cases hx

theorem start_initial (lh : LogHeader) : Initial (start lh) :=
  ⟨rfl, rfl, fun _ => ⟨.idle, rfl⟩⟩

theorem sorted_of_run {lh : LogHeader} {ls : List (Label Choice)}
    (h : Run (Steps (logClient size)) (start lh) ls s) : Sorted s :=
  h.invariant (sorted_start lh) fun _ _ _ hs hstep => hs.step hstep

/-! ## Waiting -/

/-- `begin_op` sleeps only if the operation has to wait, and the wait ends only at a
statement that calls `wakeup`. -/
theorem Sorted.careful (h : Sorted s) (l : Label Choice) :
    Careful (logClient size) (fun _ s => s.full = true) (fun _ _ => False) s l := by
  cases l with
  | run p =>
    intro l0 s1 n hp hrun
    change Log.inside p (s.killed p) l0 s.shared = _ at hrun
    cases l0 with
    | idle | op _ _ | check _ _ _ | commit | cleared | unlock =>
      cases hrun
      exact ⟨fun c _ hc => .inl (hc.resolve_right id), nofun⟩
    | begin =>
      simp only [Log.inside] at hrun
      split_ifs at hrun with hfull
      · cases hrun
        exact ⟨fun c _ _ => .inl hfull, fun c l' _ => hfull⟩
      · cases hrun
        exact ⟨fun c _ hc => absurd (hc.resolve_right id) hfull, nofun⟩
    | record st logged b =>
      simp only [Log.inside] at hrun
      cases hrec : s.shared.lh.record b with
      | none =>
        rw [hrec] at hrun
        cases hrun
      | some lh =>
        rw [hrec] at hrun
        cases hrun
        refine ⟨fun c _ hc => .inl ?_, nofun⟩
        have hle : s.shared.lh.n ≤ lh.n := by
          by_cases hb : b ∈ s.shared.lh.blocks
          · rw [LogHeader.record_of_mem h.tidy.nonneg h.tidy.le hb] at hrec
            cases hrec
            exact le_rfl
          · have := (LogHeader.record_of_not_mem h.tidy.nonneg hb hrec).2.1
            omega
        have hfull := hc.resolve_right id
        simp only [Shared.full, Bool.or_eq_true, decide_eq_true_eq] at hfull ⊢
        exact hfull.imp id fun hgt => by omega
    | ending st logged =>
      simp only [Log.inside] at hrun
      split_ifs at hrun with hbusy hlast
      · cases hrun
        exact ⟨fun c _ _ => .inl rfl, nofun⟩
      · cases hrun
        exact ⟨fun c _ _ => .inr (.inl rfl), nofun⟩
    | finish =>
      cases hrun
      exact ⟨fun c _ _ => .inr (.inl rfl), nofun⟩
  | call p a =>
    intro l0 s1 o hp hrun c _ hc
    change outside size p a l0 s.shared = _ at hrun
    have hfull := hc.resolve_right id
    have hloc : s.place p = l0 := by rw [Sys.place, hp]; rfl
    cases l0 <;> cases a <;> simp only [outside] at hrun
    all_goals try (cases hrun; done)
    case idle.beginOp | op.endOp | commit.write | cleared.goOn =>
      cases hrun
      exact .inl hfull
    case op.logWrite | check.goOn =>
      split_ifs at hrun
      · cases hrun
      · cases hrun
        exact .inl hfull
    case commit.goOn =>
      -- `log.lh.n` becomes 0 here, but `log.committing` is still set.
      cases hrun
      obtain ⟨A, hA⟩ := h.grouped
      have hbusy := hA.committer p (by rw [hloc]; rfl)
      refine .inl ?_
      simp [Shared.full, hbusy]
  | dispatch p | lockTable | unlockTable | kill p => trivial

theorem inside_committing {killed : Bool} {s : Shared}
    (h : (logClient size).inside p killed l0 s = .error .committing) :
    s.committing = true ∧ ∃ st logged, l0 = .ending st logged := by
  change inside p killed l0 s = _ at h
  cases l0 with
  | ending st logged =>
    simp only [inside] at h
    split_ifs at h with hbusy
    exact ⟨hbusy, st, logged, rfl⟩
  | begin =>
    simp only [inside] at h
    split_ifs at h
  | record st logged b =>
    simp only [inside] at h
    split at h <;> cases h
  | _ => cases h

theorem outside_ne_committing {a : Choice} {s : Shared} :
    (logClient size).outside p a l0 s ≠ some (.error .committing) := by
  intro h
  change outside size p a l0 s = _ at h
  unfold outside at h
  split at h
  all_goals try split_ifs at h
  all_goals cases h

/-- In every state that operations reach:

* while a process is in `commit`, and until `log.committing` is cleared, `log.outstanding`
  is 0 and no process is between `begin_op` and `end_op`; an operation that is running
  began after the last commit, so all its blocks belong to one transaction; and `end_op`
  does not panic;
* `log.lh.block[0..n)` has no duplicates and, with the blocks that processes in `log_write` are
  about to record, consists of the blocks passed to `log_write` since the last commit; there are
  no such processes while one is in `commit`;
* whoever is asleep in `begin_op` has to wait, or somebody is in `wakeup(&log)`. -/
theorem group_commit {lh : LogHeader} {ls : List (Label Choice)}
    (h : Run (Steps (logClient size)) (start lh) ls s) :
    ((∃ p, (s.place p).committer = true) →
        s.shared.outstanding = 0 ∧ ∀ q, (s.place q).running = none) ∧
      (∀ q st logged, (s.place q).running = some (st, logged) → st = s.shared.commits) ∧
      (∀ l, step (logClient size) l s ≠ .error (.panic .committing)) ∧
      s.shared.lh.blocks.Nodup ∧
      (∀ b, b ∈ s.shared.passed ↔ b ∈ s.shared.lh.blocks ∨ ∃ q, (s.place q).logging = some b) ∧
      ((∃ p, (s.place p).committer = true) → ∀ b, b ∈ s.shared.lh.blocks ↔ b ∈ s.shared.passed) ∧
      ∀ q l, s.ctl q = .asleep () l → s.shared.full = true ∨ ∃ p, (s.ctl p).Wakes () := by
  have hsort := sorted_of_run h
  obtain ⟨A, hA⟩ := hsort.grouped
  have hquiet : s.shared.committing = true → ∀ q, (s.place q).running = none := by
    intro hbusy q
    have hq : q ∉ A := by simp [hA.quiet hbusy]
    rw [hA.active q] at hq
    simpa using hq
  have hpassed : ∀ b, b ∈ s.shared.passed ↔
      b ∈ s.shared.lh.blocks ∨ ∃ q, (s.place q).logging = some b := by
    intro b
    rw [hsort.tidy.mem b]
    exact hsort.traced b
  refine ⟨?_, fun q st logged hq => hA.begun q _ hq, ?_, hsort.tidy.nodup, hpassed, ?_, ?_⟩
  · rintro ⟨p, hp⟩
    have hbusy := hA.committer p hp
    exact ⟨by rw [hA.count, hA.quiet hbusy]; rfl, hquiet hbusy⟩
  · intro l hpanic
    rcases panic_step hpanic with ⟨p, l0, -, hp, hin⟩ | ⟨p, a, l0, -, -, hout⟩
    · obtain ⟨hbusy, st, logged, rfl⟩ := inside_committing hin
      have hnone := hquiet hbusy p
      rw [Sys.place, hp] at hnone
      cases hnone
    · exact outside_ne_committing hout
  · rintro ⟨p, hp⟩ b
    rw [hpassed b]
    refine (or_iff_left ?_).symm
    rintro ⟨q, hq⟩
    rw [Place.logging_of_not_running (hquiet (hA.committer p hp) q)] at hq
    cases hq
  · intro q l hq
    have hcareful : Run (CarefulSteps (logClient size) (fun _ s => s.full = true)
        (fun _ _ => False)) (start lh) ls s :=
      h.mono_of_invariant (sorted_start lh) (fun _ _ _ hs hstep => hs.step hstep)
        fun s l s' hs hstep => ⟨hstep, hs.careful l⟩
    rcases (attended_of_run (start_initial lh) hcareful).2 q () (by rw [hq]; rfl) with hw | ⟨p, hp⟩
    · exact .inl hw
    · exact .inr ⟨p, hp.resolve_right id⟩

/-- Process 0 logs a block and begins to commit; process 1 waits in `begin_op`. -/
def waitsForCommit : List (Label Choice) :=
  [.call 0 .beginOp, .run 0, .run 0, .call 0 (.logWrite 50), .call 0 .goOn, .run 0, .run 0,
   .call 0 .endOp, .run 0, .run 0, .call 1 .beginOp, .run 1, .run 1, .run 1, .run 1, .run 1]

theorem group_commit_waitsForCommit :
    ∃ s, Run (Steps (logClient nlog)) (start ⟨0, fun _ => 0⟩) waitsForCommit s ∧
      s.place 0 = .commit ∧ (∀ q, (s.place q).running = none) ∧
      50 ∈ s.shared.passed ∧ 50 ∈ s.shared.lh.blocks ∧ s.ctl 1 = .asleep () .begin ∧
      (s.shared.full = true ∨ ∃ p, (s.ctl p).Wakes ()) := by
  obtain ⟨s, hs⟩ : ∃ s, waitsForCommit.foldlM (fun s l => (step (logClient nlog) l s).toOption)
      (start ⟨0, fun _ => 0⟩) = some s := ⟨_, rfl⟩
  have hrun : Run (Steps (logClient nlog)) (start ⟨0, fun _ => 0⟩) waitsForCommit s :=
    Run.of_toOption hs
  have hcommit : s.place 0 = .commit := by
    cases hs
    rfl
  have hasleep : s.ctl 1 = .asleep () .begin := by
    cases hs
    rfl
  have hpassed : 50 ∈ s.shared.passed := by
    cases hs
    exact List.mem_singleton_self 50
  have hcommitter : (s.place 0).committer = true := by rw [hcommit]; rfl
  obtain ⟨hquiet, -, -, -, -, hmem, hwait⟩ := group_commit hrun
  exact ⟨s, hrun, hcommit, (hquiet ⟨0, hcommitter⟩).2, hpassed, (hmem ⟨0, hcommitter⟩ 50).mpr hpassed,
    hasleep, hwait 1 .begin hasleep⟩

end Log
end Xv6
