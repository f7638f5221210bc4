import Mathlib.Data.Fintype.Card
import Xv6.Ide.Model

/-!
# The disk queue is first in, first out

`Inv` says that the queue holds the buffers that were queued and not finished, that the
first of them is the one the disk works for, and that exactly their processes sleep.  Each
step of `iderw`, of `ideintr` and of the disk keeps this, and `Serves` says what the step
does to the buffers.  `ide_fifo` draws the conclusion for whole runs.
-/

namespace Xv6
namespace Ide

open Lib Function

variable {n : Nat} {s s' : Sys n} {l : Label n} {b : Fin n} {xs : List (Fin n)}

/-- The disk is done with the command for `b`: what `insl` will read, and what is on disk. -/
def Completed (s : Sys n) (b : Fin n) (data : Option Block) : Prop :=
  if (s.buf b).dirty then
    data = none ∧ s.disk ((s.buf b).dev % 2) (s.buf b).blockno = (s.buf b).data
  else data = some (s.disk ((s.buf b).dev % 2) (s.buf b).blockno)

/-- The disk works for the first buffer, or waits for its interrupt to be handled. -/
def Active (s : Sys n) (xs : List (Fin n)) : Prop :=
  match xs with
  | [] => s.device = .idle
  | b :: _ => (s.buf b).blockno < FSSIZE ∧
      (s.device = .busy (commandOf (s.buf b)) ∨ ∃ data, s.device = .done data ∧ Completed s b data)

/-- What holds when the buffers `xs` are queued. -/
structure Inv (s : Sys n) (xs : List (Fin n)) : Prop where
  queue : s.queue.Holds xs
  queued : s.queued = s.finished ++ xs
  started : s.started = s.finished ++ xs.take 1
  active : Active s xs
  asleep : ∀ b, s.caller b = .asleep ↔ b ∈ xs
  waiting : ∀ b, b ∈ xs → (s.buf b).done = false
  ready : ∀ b, s.caller b = .ready → (s.buf b).done = true

/-- What a step does to buffers and disk. -/
def Serves (s : Sys n) (l : Label n) (s' : Sys n) : Prop :=
  match l with
  | .call _ | .resume _ => s'.buf = s.buf ∧ s'.disk = s.disk
  | .complete => s'.buf = s.buf ∧ ∃ b, s.queue.root = some b ∧ s'.disk = if (s.buf b).dirty then
        update s.disk ((s.buf b).dev % 2)
          (update (s.disk ((s.buf b).dev % 2)) (s.buf b).blockno (s.buf b).data)
        else s.disk
  | .intr => s'.disk = s.disk ∧ ∃ b, s.queue.root = some b ∧ s'.finished = s.finished ++ [b] ∧
      s'.buf = update s.buf b
        ⟨true, false, (s.buf b).dev, (s.buf b).blockno,
          s.disk ((s.buf b).dev % 2) (s.buf b).blockno⟩ ∧
      ((s.buf b).dirty = true → s.disk ((s.buf b).dev % 2) (s.buf b).blockno = (s.buf b).data)
  | .use b buf => s'.buf = update s.buf b buf ∧ s'.disk = s.disk

/-- The sector is the block. -/
theorem commandOf_sector {b : Buf} (h : b.blockno < FSSIZE) : (commandOf b).sector = b.blockno := by
  show b.blockno * (512 / 512) % 2 ^ 28 = b.blockno
  unfold FSSIZE at h
  omega

theorem idestart_idle (hidle : s.device = .idle) :
    idestart s b = if (s.buf b).blockno ≥ FSSIZE then .error (.panic "incorrect blockno")
      else .ok { s with
        device := .busy (commandOf (s.buf b))
        started := s.started ++ [b] } := by
  rw [idestart, hidle]

/-- A queue without `b` leaves a pointer for it. -/
theorem length_lt_of_not_mem (hnodup : xs.Nodup) (hb : b ∉ xs) : xs.length < n := by
  have hcons : (b :: xs).Nodup := List.nodup_cons.mpr ⟨hb, hnodup⟩
  have hcard := hcons.length_le_card
  rw [Fintype.card_fin] at hcard
  exact hcard

namespace Inv

theorem root_eq (h : Inv s xs) : s.queue.root = xs.head? := h.queue.root_eq

theorem not_mem (h : Inv s xs) (hb : s.caller b ≠ .asleep) : b ∉ xs :=
  fun hmem => hb ((h.asleep b).mpr hmem)

end Inv

theorem inv_start (buf : Fin n → Buf) (disk : Nat → Nat → Block) (havedisk1 : Bool) :
    Inv (start buf disk havedisk1) [] := by
  constructor
  · exact Chain.holds_nil rfl
  · rfl
  · rfl
  · rfl
  · intro b
    exact ⟨nofun, fun hmem => absurd hmem List.not_mem_nil⟩
  · intro b hmem
    exact absurd hmem List.not_mem_nil
  · intro b hready
    cases hready

/-- A step that changes the caller of `b` only, where `b` is not queued. -/
theorem Inv.setCaller {c : Caller} (h : Inv s xs) (hb : b ∉ xs) (hc : c ≠ .asleep)
    (hready : c = .ready → (s.buf b).done = true) :
    Inv { s with caller := update s.caller b c } xs := by
  refine ⟨h.queue, h.queued, h.started, h.active, ?_, h.waiting, ?_⟩
  · intro b'
    show update s.caller b c b' = .asleep ↔ b' ∈ xs
    by_cases hbb : b' = b
    · rw [hbb, update_self]
      exact ⟨fun heq => absurd heq hc, fun hmem => absurd hmem hb⟩
    · rw [update_of_ne hbb]
      exact h.asleep b'
  · intro b' hb'
    change update s.caller b c b' = .ready at hb'
    by_cases hbb : b' = b
    · rw [hbb, update_self] at hb'
      rw [hbb]
      exact hready hb'
    · rw [update_of_ne hbb] at hb'
      exact h.ready b' hb'

/-- The buffer is at the end of the queue and its process sleeps. -/
theorem Inv.enqueue {queue : Chain (Fin n)} {device : Device} {started : List (Fin n)}
    (h : Inv s xs) (hdone : (s.buf b).done = false) (hqueue : queue.Holds (xs ++ [b]))
    (hstarted : started = s.finished ++ (xs ++ [b]).take 1)
    (hs : s' = { s with
      queue := queue
      device := device
      queued := s.queued ++ [b]
      started := started
      caller := update s.caller b .asleep })
    (hactive : Active s' (xs ++ [b])) : Inv s' (xs ++ [b]) := by
  have hcaller : s'.caller = update s.caller b .asleep := by rw [hs]
  have hbuf : s'.buf = s.buf := by rw [hs]
  constructor
  · rw [hs]
    exact hqueue
  · rw [hs]
    show s.queued ++ [b] = s.finished ++ (xs ++ [b])
    rw [h.queued, List.append_assoc]
  · rw [hs]
    exact hstarted
  · exact hactive
  · intro b'
    rw [hcaller, List.mem_append, List.mem_singleton]
    by_cases hbb : b' = b
    · rw [hbb, update_self]
      exact ⟨fun _ => .inr rfl, fun _ => rfl⟩
    · rw [update_of_ne hbb, h.asleep b']
      exact ⟨.inl, fun hor => hor.resolve_right hbb⟩
  · intro b' hmem
    rw [hbuf]
    rcases List.mem_append.mp hmem with hold | hnew
    · exact h.waiting b' hold
    · rw [List.mem_singleton.mp hnew]
      exact hdone
  · intro b' hready
    rw [hcaller] at hready
    rw [hbuf]
    by_cases hbb : b' = b
    · rw [hbb, update_self] at hready
      cases hready
    · rw [update_of_ne hbb] at hready
      exact h.ready b' hready

/-- A call of `iderw` panics or queues the buffer. -/
theorem iderw_spec (h : Inv s xs) (hb : s.caller b = .outside) :
    (∃ msg, iderw s b = .error (.panic msg)) ∨
      ∃ s', iderw s b = .ok s' ∧ Inv s' (xs ++ [b]) ∧ s'.buf = s.buf ∧ s'.disk = s.disk := by
  have hnot : b ∉ xs := h.not_mem (by rw [hb]; decide)
  unfold iderw
  by_cases hdone : (s.buf b).done = true
  · rw [if_pos hdone]
    exact .inl ⟨_, rfl⟩
  by_cases hdisk : (s.buf b).dev ≠ 0 ∧ ¬s.havedisk1 = true
  · rw [if_neg hdone, if_pos hdisk]
    exact .inl ⟨_, rfl⟩
  rw [if_neg hdone, if_neg hdisk]
  obtain ⟨queue, happend, hqueue⟩ :=
    h.queue.append hnot (length_lt_of_not_mem h.queue.nodup hnot)
  rw [happend]
  dsimp only
  have hroot := hqueue.root_eq
  cases xs with
  | nil =>
    -- the disk is idle and is started
    have hidle : s.device = .idle := h.active
    have hfirst : queue.root = some b := hroot
    have hstart := idestart_idle (b := b) (show ({ s with
      queue := queue, queued := s.queued ++ [b] } : Sys n).device = .idle from hidle)
    rw [if_pos hfirst, hstart]
    dsimp only
    by_cases hblock : (s.buf b).blockno ≥ FSSIZE
    · rw [if_pos hblock]
      exact .inl ⟨_, rfl⟩
    · rw [if_neg hblock]
      have hstarted : s.started ++ [b] = s.finished ++ ([] ++ [b]).take 1 := by
        rw [h.started, List.append_assoc]
        rfl
      refine .inr ⟨_, rfl, ?_, rfl, rfl⟩
      apply h.enqueue (Bool.eq_false_iff.mpr hdone) hqueue hstarted
      · rw [awaitDone, if_neg hdone]
      · exact ⟨Nat.lt_of_not_le hblock, .inl rfl⟩
  | cons x ys =>
    have hne : queue.root ≠ some b := by
      rw [hroot]
      intro heq
      exact hnot (by cases heq; exact List.mem_cons_self)
    rw [if_neg hne]
    refine .inr ⟨_, rfl, ?_, rfl, rfl⟩
    apply h.enqueue (Bool.eq_false_iff.mpr hdone) hqueue h.started
    · rw [awaitDone, if_neg hdone]
    · exact h.active

/-- The state after a buffer was finished and before the disk is started again. -/
structure Between (s : Sys n) (xs : List (Fin n)) : Prop where
  queue : s.queue.Holds xs
  queued : s.queued = s.finished ++ xs
  started : s.started = s.finished
  idle : s.device = .idle
  asleep : ∀ b, s.caller b = .asleep ↔ b ∈ xs
  waiting : ∀ b, b ∈ xs → (s.buf b).done = false
  ready : ∀ b, s.caller b = .ready → (s.buf b).done = true

/-- The end of `ideintr`. -/
def restart (s : Sys n) : Except Stop (Sys n) :=
  match s.queue.root with
  | none => .ok s
  | some b => idestart s b

theorem Between.restart (h : Between s xs) :
    (∃ msg, Ide.restart s = .error (.panic msg)) ∨
      ∃ s', Ide.restart s = .ok s' ∧ Inv s' xs ∧ s'.buf = s.buf ∧ s'.disk = s.disk ∧
        s'.finished = s.finished := by
  have hroot := h.queue.root_eq
  unfold Ide.restart
  cases xs with
  | nil =>
    rw [hroot]
    refine .inr ⟨s, rfl, ?_, rfl, rfl, rfl⟩
    refine ⟨h.queue, h.queued, ?_, h.idle, h.asleep, h.waiting, h.ready⟩
    rw [h.started]
    exact (List.append_nil _).symm
  | cons x ys =>
    rw [hroot, List.head?_cons]
    dsimp only
    rw [idestart_idle h.idle]
    by_cases hblock : (s.buf x).blockno ≥ FSSIZE
    · rw [if_pos hblock]
      exact .inl ⟨_, rfl⟩
    · rw [if_neg hblock]
      refine .inr ⟨_, rfl, ?_, rfl, rfl, rfl⟩
      refine ⟨h.queue, h.queued, ?_, ?_, h.asleep, h.waiting, h.ready⟩
      · show s.started ++ [x] = s.finished ++ [x]
        rw [h.started]
      · exact ⟨Nat.lt_of_not_le hblock, .inl rfl⟩

/-- The first buffer is finished. -/
theorem Inv.finish {d : Block} (h : Inv s (b :: xs)) :
    Between (markDone { s with queue := { s.queue with root := s.queue.next b } } b d) xs := by
  have hnodup := List.nodup_cons.mp h.queue.nodup
  have hasleep : s.caller b = .asleep := (h.asleep b).mpr List.mem_cons_self
  have hcaller : (markDone { s with queue := { s.queue with root := s.queue.next b } } b d).caller =
      update s.caller b .ready := by
    rw [markDone, hasleep]
  have hbuf : ∀ b', b' ≠ b →
      (markDone { s with queue := { s.queue with root := s.queue.next b } } b d).buf b' = s.buf b' :=
    fun b' hb' => update_of_ne hb' ..
  have hself : ((markDone { s with queue := { s.queue with root := s.queue.next b } } b d).buf
      b).done = true := by
    show (update s.buf b _ b).done = true
    rw [update_self]
    rfl
  constructor
  · exact h.queue.pop
  · show s.queued = (s.finished ++ [b]) ++ xs
    rw [h.queued, List.append_assoc, List.singleton_append]
  · exact h.started
  · rfl
  · intro b'
    rw [hcaller]
    by_cases hbb : b' = b
    · rw [hbb, update_self]
      exact ⟨nofun, fun hmem => absurd hmem hnodup.1⟩
    · rw [update_of_ne hbb, h.asleep b', List.mem_cons]
      exact ⟨fun hor => hor.resolve_left hbb, .inr⟩
  · intro b' hmem
    have hbb : b' ≠ b := fun heq => hnodup.1 (heq ▸ hmem)
    rw [hbuf b' hbb]
    exact h.waiting b' (List.mem_cons_of_mem b hmem)
  · intro b' hready
    rw [hcaller] at hready
    by_cases hbb : b' = b
    · rw [hbb]
      exact hself
    · rw [update_of_ne hbb] at hready
      rw [hbuf b' hbb]
      exact h.ready b' hready

/-- What `ideintr` stores in the buffer is what is on disk. -/
theorem insl_completed {data : Option Block} (h : Completed s b data) :
    insl (s.buf b) data = .ok (s.disk ((s.buf b).dev % 2) (s.buf b).blockno) ∧
      ((s.buf b).dirty = true →
        s.disk ((s.buf b).dev % 2) (s.buf b).blockno = (s.buf b).data) := by
  unfold Completed at h
  unfold insl
  by_cases hdirty : (s.buf b).dirty = true
  · rw [if_pos hdirty] at h
    rw [if_pos hdirty, h.2]
    exact ⟨rfl, fun _ => rfl⟩
  · rw [if_neg hdirty] at h
    rw [if_neg hdirty, h]
    exact ⟨rfl, fun hd => absurd hd hdirty⟩

/-- The interrupt panics or finishes the first buffer. -/
theorem ideintr_spec {data : Option Block} (h : Inv s xs) (hdev : s.device = .done data) :
    (∃ msg, ideintr s data = .error (.panic msg)) ∨
      ∃ s' b ys, ideintr s data = .ok s' ∧ xs = b :: ys ∧ Inv s' ys ∧ Serves s .intr s' := by
  cases xs with
  | nil =>
    have hidle : s.device = .idle := h.active
    rw [hidle] at hdev
    cases hdev
  | cons b ys =>
    have hroot : s.queue.root = some b := h.root_eq
    have hcompleted : Completed s b data := by
      obtain ⟨_, hbusy | ⟨data', hdone, hc⟩⟩ := h.active
      · rw [hbusy] at hdev
        cases hdev
      · rw [hdone] at hdev
        cases hdev
        exact hc
    obtain ⟨hinsl, hwrite⟩ := insl_completed hcompleted
    have hbetween := h.finish (d := s.disk ((s.buf b).dev % 2) (s.buf b).blockno)
    rw [ideintr, hroot]
    dsimp only
    rw [hinsl]
    rcases hbetween.restart with ⟨msg, herr⟩ | ⟨s', hok, hinv, hbuf, hdisk, hfin⟩
    · exact .inl ⟨msg, herr⟩
    · exact .inr ⟨s', b, ys, hok, rfl, hinv, hdisk, b, hroot, hfin, hbuf, hwrite⟩

/-- The disk completes the command for the first buffer. -/
theorem complete_spec {c : Command} (h : Inv s xs) (hdev : s.device = .busy c) :
    Inv (complete s c) xs ∧ Serves s .complete (complete s c) := by
  cases xs with
  | nil =>
    have hidle : s.device = .idle := h.active
    rw [hidle] at hdev
    cases hdev
  | cons b ys =>
    have hroot : s.queue.root = some b := h.root_eq
    obtain ⟨hblock, hbusy | ⟨data', hdone, _⟩⟩ := h.active
    · have hc : c = commandOf (s.buf b) := by
        rw [hbusy] at hdev
        exact (Device.busy.inj hdev).symm
      have hsector := commandOf_sector hblock
      by_cases hdirty : (s.buf b).dirty = true
      · have hwrite : c.write = some (s.buf b).data := by
          rw [hc]
          exact if_pos hdirty
        have hs : complete s c = { s with
            device := .done none
            disk := update s.disk ((s.buf b).dev % 2)
              (update (s.disk ((s.buf b).dev % 2)) (s.buf b).blockno (s.buf b).data) } := by
          rw [complete, hwrite]
          dsimp only
          rw [hc, hsector]
          rfl
        rw [hs]
        refine ⟨⟨h.queue, h.queued, h.started, ⟨hblock, .inr ⟨none, rfl, ?_⟩⟩, h.asleep,
          h.waiting, h.ready⟩, rfl, b, hroot, ?_⟩
        · rw [Completed, if_pos hdirty]
          refine ⟨rfl, ?_⟩
          show update s.disk _ _ _ _ = _
          rw [update_self, update_self]
        · rw [if_pos hdirty]
      · have hwrite : c.write = none := by
          rw [hc]
          exact if_neg hdirty
        have hs : complete s c = { s with
            device := .done (some (s.disk ((s.buf b).dev % 2) (s.buf b).blockno)) } := by
          rw [complete, hwrite]
          dsimp only
          rw [hc, hsector]
          rfl
        rw [hs]
        refine ⟨⟨h.queue, h.queued, h.started, ⟨hblock, .inr ⟨_, rfl, ?_⟩⟩, h.asleep,
          h.waiting, h.ready⟩, rfl, b, hroot, ?_⟩
        · rw [Completed, if_neg hdirty]
        · rw [if_neg hdirty]
    · rw [hdone] at hdev
      cases hdev

/-- A process changes its buffer, which is not queued. -/
theorem Inv.use {buf : Buf} (h : Inv s xs) (hb : s.caller b = .outside) :
    Inv { s with buf := update s.buf b buf } xs := by
  have hnot : b ∉ xs := h.not_mem (by rw [hb]; decide)
  have hsame : ∀ b', b' ≠ b → update s.buf b buf b' = s.buf b' :=
    fun b' hb' => update_of_ne hb' ..
  refine ⟨h.queue, h.queued, h.started, ?_, h.asleep, ?_, ?_⟩
  · cases xs with
    | nil => exact h.active
    | cons x ys =>
      have hx : x ≠ b := fun heq => hnot (heq ▸ List.mem_cons_self)
      have hactive := h.active
      unfold Active Completed at hactive ⊢
      simp only [hsame x hx]
      exact hactive
  · intro b' hmem
    show (update s.buf b buf b').done = false
    rw [hsame b' fun heq => hnot (heq ▸ hmem)]
    exact h.waiting b' hmem
  · intro b' hready
    have hbb : b' ≠ b := by
      rintro rfl
      rw [hb] at hready
      cases hready
    show (update s.buf b buf b').done = true
    rw [hsame b' hbb]
    exact h.ready b' hready

/-- A step is not possible, panics, or keeps the queue in order. -/
theorem step_spec (h : Inv s xs) (l : Label n) :
    step l s = .error .disabled ∨ (∃ msg, step l s = .error (.panic msg)) ∨
      ∃ s' xs', step l s = .ok s' ∧ Inv s' xs' ∧ Serves s l s' := by
  cases l with
  | call b =>
    by_cases hb : s.caller b = .outside
    · have hstep : step (.call b) s = iderw s b := if_pos hb
      rw [hstep]
      rcases iderw_spec h hb with hpanic | ⟨s', hok, hinv, hserves⟩
      · exact .inr (.inl hpanic)
      · exact .inr (.inr ⟨s', _, hok, hinv, hserves⟩)
    · exact .inl (if_neg hb)
  | resume b =>
    by_cases hb : s.caller b = .ready
    · have hstep : step (.resume b) s = .ok (awaitDone s b) := if_pos hb
      have hnot : b ∉ xs := h.not_mem (by rw [hb]; decide)
      rw [hstep, awaitDone, if_pos (h.ready b hb)]
      exact .inr (.inr ⟨_, xs, rfl, h.setCaller hnot (by decide) nofun, rfl, rfl⟩)
    · exact .inl (if_neg hb)
  | complete =>
    cases hdev : s.device with
    | idle =>
      left
      rw [step, hdev]
    | busy c =>
      right
      right
      obtain ⟨hinv, hserves⟩ := complete_spec h hdev
      refine ⟨_, xs, ?_, hinv, hserves⟩
      rw [step, hdev]
    | done data =>
      left
      rw [step, hdev]
  | intr =>
    cases hdev : s.device with
    | idle =>
      left
      rw [step, hdev]
    | busy c =>
      left
      rw [step, hdev]
    | done data =>
      right
      have hstep : step .intr s = ideintr s data := by rw [step, hdev]
      rw [hstep]
      rcases ideintr_spec h hdev with hpanic | ⟨s', b, ys, hok, _, hinv, hserves⟩
      · exact .inl hpanic
      · exact .inr ⟨s', ys, hok, hinv, hserves⟩
  | use b buf =>
    by_cases hb : s.caller b = .outside
    · exact .inr (.inr ⟨_, xs, if_pos hb, h.use hb, rfl, rfl⟩)
    · exact .inl (if_neg hb)

/-- The buffers `xs` are queued: those that `iderw` queued and that are not finished, in that
order.  The command of the first of them is the last that was started, and exactly their
processes sleep. -/
structure Fifo (s : Sys n) (xs : List (Fin n)) : Prop where
  queue : s.queue.Holds xs
  queued : s.queued = s.finished ++ xs
  started : s.started = s.finished ++ xs.take 1
  asleep : ∀ b, s.caller b = .asleep ↔ b ∈ xs

/-- In every run commands are started one at a time and in the order in which the buffers were
queued, each step serves the first buffer only, and no process sleeps whose buffer is done. -/
theorem ide_fifo {buf : Fin n → Buf} {disk : Nat → Nat → Block} {havedisk1 : Bool}
    {ls : List (Label n)} (h : Run Steps (start buf disk havedisk1) ls s) :
    (∃ xs, Fifo s xs) ∧ (∀ b, s.caller b = .asleep → (s.buf b).done = false) ∧
      (∀ b, s.caller b = .ready → (s.buf b).done = true) ∧
      (∀ l e, step l s = .error e → e = .disabled ∨ ∃ msg, e = .panic msg) ∧
      Run (fun s l s' => Steps s l s' ∧ Serves s l s') (start buf disk havedisk1) ls s := by
  have hinv : (∃ xs, Inv s xs) ∧
      Run (fun s l s' => Steps s l s' ∧ Serves s l s') (start buf disk havedisk1) ls s := by
    induction h with
    | nil => exact ⟨⟨[], inv_start buf disk havedisk1⟩, Run.nil⟩
    | @snoc ls l s s' _ hs ih =>
      obtain ⟨⟨xs, hinv⟩, hrun⟩ := ih
      rcases step_spec hinv l with hoff | ⟨msg, hpanic⟩ | ⟨s1, xs1, hok, hnext, hserves⟩
      · rw [Steps, hoff] at hs
        cases hs
      · rw [Steps, hpanic] at hs
        cases hs
      · have heq : s1 = s' := Except.ok.inj (hok.symm.trans hs)
        subst heq
        exact ⟨⟨xs1, hnext⟩, hrun.snoc ⟨hs, hserves⟩⟩
  obtain ⟨⟨xs, hinv⟩, hrun⟩ := hinv
  refine ⟨⟨xs, hinv.queue, hinv.queued, hinv.started, hinv.asleep⟩, ?_, hinv.ready, ?_, hrun⟩
  · intro b hb
    exact hinv.waiting b ((hinv.asleep b).mp hb)
  · intro l e he
    rcases step_spec hinv l with hoff | ⟨msg, hpanic⟩ | ⟨s1, xs1, hok, _⟩
    · rw [hoff] at he
      cases he
      exact .inl rfl
    · rw [hpanic] at he
      cases he
      exact .inr ⟨msg, rfl⟩
    · rw [hok] at he
      cases he

/-- A read and a write of block 3, one queued behind the other. -/
def sampleBuf (b : Fin 2) : Buf :=
  if b = 0 then ⟨false, false, 0, 3, Block.zero⟩ else ⟨true, true, 0, 3, fun _ => 7⟩

theorem ide_fifo_sample : ∃ s, Run Steps (start sampleBuf (fun _ _ => Block.zero) false)
      [.call 0, .call 1, .complete, .intr, .resume 0, .complete, .intr] s ∧
    s.started = [0, 1] ∧ s.finished = [0, 1] ∧ s.caller 0 = .outside ∧ s.caller 1 = .ready ∧
    (∃ xs, Fifo s xs) ∧
    Run (fun s l s' => Steps s l s' ∧ Serves s l s') (start sampleBuf (fun _ _ => Block.zero) false)
      [.call 0, .call 1, .complete, .intr, .resume 0, .complete, .intr] s := by
  have hrun : ∃ s, Run Steps (start sampleBuf (fun _ _ => Block.zero) false)
      [.call 0, .call 1, .complete, .intr, .resume 0, .complete, .intr] s ∧
      decide (s.started = [0, 1] ∧ s.finished = [0, 1] ∧ s.caller 0 = .outside ∧
        s.caller 1 = .ready) = true := Run.exists_of_passes (by decide +kernel)
  obtain ⟨s, hs, hend⟩ := hrun
  obtain ⟨hstarted, hfinished, hcaller0, hcaller1⟩ := of_decide_eq_true hend
  have hfifo := ide_fifo hs
  exact ⟨s, hs, hstarted, hfinished, hcaller0, hcaller1, hfifo.1, hfifo.2.2.2.2⟩

end Ide
end Xv6
