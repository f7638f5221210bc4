import Mathlib.Algebra.Group.Int.Defs
import Mathlib.Algebra.Group.Nat.Defs
import Mathlib.Data.List.Nodup
import Mathlib.Logic.Function.Basic
import Mathlib.Tactic.Common

/-!
# Parents and children

The part of the process table that says which processes there are and how they are related.
A process makes a child in three steps: it takes a free slot, becomes the parent of what is
in it, and publishes it.  An exiting process leaves its children to the first process, and
an exited child is removed by its parent.

`Kin.Ok` says that the parent of a process is alive, and is the first process unless it is
the creator.  `Kin.Step` keeps it, whatever the names of the processes are; `Kin.Names` says
that names are given out once, and holds as long as the names that are given out are new.
-/

namespace Xv6
namespace Sched

open Function

/-- What a slot of the process table holds. -/
inductive Class where
  | unused
  | embryo
  | alive
  | zombie
deriving DecidableEq

/-- What a process is in the middle of.  The timer may interrupt it there. -/
inductive Job where
  | none
  /-- In `fork`, after `allocproc` has found slot `child`. -/
  | forking (child : Nat)
  /-- In `fork`, after `np->parent = curproc`. -/
  | forked (child : Nat)
deriving DecidableEq

/-- The slot that a process in the middle of `fork` fills. -/
def Job.child : Job → Option Nat
  | .none => .none
  | .forking n => some n
  | .forked n => some n

/-- The processes, and the names that have exited and that `wait` has returned. -/
@[ext]
structure Kin where
  cls : Nat → Class
  parent : Nat → Option Nat
  pid : Nat → Nat
  creator : Nat → Nat
  job : Nat → Job
  init : Nat
  next : Nat
  exits : List Nat
  waits : List Nat

namespace Kin

/-- What can happen in a table of `size` slots. -/
inductive Step (size : Nat) (k : Kin) : Kin → Prop
  | fill (p n : Nat) : k.cls p = .alive → k.job p = .none → n < size → k.cls n = .unused →
      Step size k
        { k with
          cls := update k.cls n .embryo
          pid := update k.pid n (k.next % 2 ^ 32)
          job := update k.job p (.forking n)
          next := k.next + 1 }
  | drop (p n : Nat) : k.job p = .forking n → Step size k
        { k with
          cls := update k.cls n .unused
          job := update k.job p .none }
  | adopt (p n : Nat) : k.job p = .forking n → Step size k
        { k with
          parent := update k.parent n (some p)
          creator := update k.creator n (k.pid p)
          job := update k.job p (.forked n) }
  | publish (p n : Nat) : k.job p = .forked n → Step size k
        { k with
          cls := update k.cls n .alive
          job := update k.job p .none }
  | exit (p : Nat) : k.cls p = .alive → k.job p = .none → p ≠ k.init → Step size k
        { k with
          cls := update k.cls p .zombie
          parent := fun i => if k.parent i = some p then some k.init else k.parent i
          exits := k.exits ++ [k.pid p] }
  | reap (p j : Nat) : k.cls j = .zombie → k.parent j = some p → Step size k
        { k with
          cls := update k.cls j .unused
          parent := update k.parent j none
          pid := update k.pid j 0
          waits := k.waits ++ [k.pid j] }

theorem Step.next_le {size : Nat} {k k' : Kin} (h : Step size k k') : k.next ≤ k'.next := by
  cases h with
  | fill => exact Nat.le_succ _
  | _ => exact Nat.le_refl _

/-- How the processes belong together. -/
structure Ok (size : Nat) (k : Kin) : Prop where
  outside : ∀ i, size ≤ i → k.cls i = .unused
  orphan : ∀ i, k.cls i = .unused → k.parent i = none
  init : k.cls k.init = .alive
  root : k.parent k.init = none
  irrefl : ∀ i, k.parent i ≠ some i
  child : ∀ i, i ≠ k.init → k.cls i = .alive ∨ k.cls i = .zombie →
    ∃ j, k.parent i = some j ∧ k.cls j = .alive ∧ (j = k.init ∨ k.pid j = k.creator i)
  forking : ∀ p n, k.job p = .forking n → k.cls p = .alive ∧ k.cls n = .embryo ∧ k.parent n = none
  forked : ∀ p n, k.job p = .forked n →
    k.cls p = .alive ∧ k.cls n = .embryo ∧ k.parent n = some p ∧ k.creator n = k.pid p
  embryo : ∀ n p, k.cls n = .embryo → k.parent n = some p → k.job p = .forked n
  one : ∀ p q n, (k.job p).child = some n → (k.job q).child = some n → p = q

/-- Names are given out once. -/
structure Names (k : Kin) : Prop where
  lt : ∀ i, k.cls i ≠ .unused → k.pid i < k.next
  inj : ∀ i j, k.cls i ≠ .unused → k.cls j ≠ .unused → k.pid i = k.pid j → i = j
  exitsLt : ∀ q ∈ k.exits, q < k.next
  exitsNodup : k.exits.Nodup
  notExited : ∀ i, k.cls i = .embryo ∨ k.cls i = .alive → k.pid i ∉ k.exits
  /-- An exited process is in the table until `wait` returns it. -/
  zombie : ∀ i, k.cls i = .zombie → k.pid i ∈ k.exits ∧ k.pid i ∉ k.waits
  pending : ∀ q ∈ k.exits, q ∉ k.waits → ∃ i, k.cls i = .zombie ∧ k.pid i = q
  waitsNodup : k.waits.Nodup
  waitsExited : ∀ q ∈ k.waits, q ∈ k.exits

namespace Ok

variable {size : Nat} {k k' : Kin} {i p n : Nat}

/-- A child keeps its parent when nothing but other slots change. -/
theorem child_of_same (h : Ok size k) (hinit : k'.init = k.init) (hpar : k'.parent i = k.parent i)
    (hcr : k'.creator i = k.creator i)
    (halive : ∀ j, k.cls j = .alive → k'.cls j = .alive ∧ k'.pid j = k.pid j)
    (hi : i ≠ k.init) (hcls : k.cls i = .alive ∨ k.cls i = .zombie) :
    ∃ j, k'.parent i = some j ∧ k'.cls j = .alive ∧ (j = k'.init ∨ k'.pid j = k'.creator i) := by
  obtain ⟨j, hj, hjalive, hwho⟩ := h.child i hi hcls
  obtain ⟨hjalive', hjpid⟩ := halive j hjalive
  exact ⟨j, hpar.trans hj, hjalive', by rwa [hinit, hjpid, hcr]⟩

/-- Whoever fills a slot is alive, and what is in the slot is an embryo. -/
theorem of_child (h : Ok size k) (hc : (k.job p).child = some n) :
    k.cls p = .alive ∧ k.cls n = .embryo := by
  cases hjob : k.job p with
  | none => simp [hjob, Job.child] at hc
  | forking m =>
    obtain rfl : m = n := by simpa [hjob, Job.child] using hc
    have := h.forking p m hjob
    exact ⟨this.1, this.2.1⟩
  | forked m =>
    obtain rfl : m = n := by simpa [hjob, Job.child] using hc
    have := h.forked p m hjob
    exact ⟨this.1, this.2.1⟩

/-- One process changes what it fills. -/
theorem one_update (h : Ok size k) {j : Job}
    (hnew : ∀ n, j.child = some n → ∀ q, q ≠ p → (k.job q).child ≠ some n) (q r n : Nat)
    (hq : (update k.job p j q).child = some n)
    (hr : (update k.job p j r).child = some n) : q = r := by
  by_cases hqp : q = p
  · by_cases hrp : r = p
    · rw [hqp, hrp]
    · rw [hqp, update_self] at hq
      rw [update_of_ne hrp] at hr
      exact absurd hr (hnew n hq r hrp)
  · rw [update_of_ne hqp] at hq
    by_cases hrp : r = p
    · rw [hrp, update_self] at hr
      exact absurd hq (hnew n hr q hqp)
    · rw [update_of_ne hrp] at hr
      exact h.one q r n hq hr

/-- Nobody else fills the slot that `p` fills. -/
theorem child_ne (h : Ok size k) (hp : (k.job p).child = some n) (q : Nat) (hq : q ≠ p) :
    (k.job q).child ≠ some n := fun hc => hq (h.one q p n hc hp)

theorem job_ne (h : Ok size k) (hp : (k.job p).child = some n) (q : Nat) (hq : q ≠ p) :
    k.job q ≠ .forking n ∧ k.job q ≠ .forked n := by
  have hne := h.child_ne hp q hq
  constructor
  · intro hjob
    exact hne (by rw [hjob]; rfl)
  · intro hjob
    exact hne (by rw [hjob]; rfl)

theorem step (h : Ok size k) (hs : Step size k k') : Ok size k' := by
  obtain ⟨h0, h1, h2, hroot, hirrefl, h3, h4, h5, h6, h7⟩ := id h
  cases hs with
  | fill p n hp hjob hlt hn =>
    constructor
    case child =>
      clear h0 h1 hroot hirrefl h4 h5 h6 h7
      intro i hi hcls
      exact h.child_of_same rfl rfl rfl (by grind) hi (by grind)
    case one =>
      refine h.one_update fun m hm r _ hc => ?_
      have hfree := (h.of_child hc).2
      grind [Job.child]
    all_goals clear h h3 h7
    all_goals grind
  | drop p n hjob =>
    have hp := h4 p n hjob
    have honly := h.job_ne (p := p) (n := n) (by rw [hjob]; rfl)
    constructor
    case child =>
      clear h0 h1 hroot hirrefl h4 h5 h6 h7
      intro i hi hcls
      exact h.child_of_same rfl rfl rfl (by grind) hi (by grind)
    case one => exact h.one_update (by simp [Job.child])
    all_goals clear h h3 h7
    all_goals grind
  | adopt p n hjob =>
    have hp := h4 p n hjob
    have honly := h.job_ne (p := p) (n := n) (by rw [hjob]; rfl)
    constructor
    case child =>
      clear h0 h1 hroot hirrefl h4 h5 h6 h7
      intro i hi hcls
      exact h.child_of_same rfl (by grind) (by grind) (by grind) hi hcls
    case one =>
      refine h.one_update fun m hm => ?_
      cases hm
      exact h.child_ne (by rw [hjob]; rfl)
    all_goals clear h h3 h7
    all_goals grind
  | publish p n hjob =>
    have hp := h5 p n hjob
    have honly := h.job_ne (p := p) (n := n) (by rw [hjob]; rfl)
    constructor
    case child =>
      clear h0 h1 hroot hirrefl h4 h5 h6 h7
      intro i hi hcls
      by_cases hin : i = n
      · -- the new process: its parent is the one that made it
        exact ⟨p, by grind, by grind, .inr (by grind)⟩
      · exact h.child_of_same rfl rfl rfl (by grind) hi (by grind)
    case one => exact h.one_update (by simp [Job.child])
    all_goals clear h h3 h7
    all_goals grind
  | exit p hp hjob hne =>
    constructor
    case child =>
      clear h0 h1 hroot hirrefl h4 h5 h6 h7
      intro i hi hcls
      by_cases hpar : k.parent i = some p
      · -- an abandoned child
        exact ⟨k.init, by grind, by grind, .inl rfl⟩
      · obtain ⟨j, hj, hjalive, hwho⟩ := h3 i hi (by grind)
        exact ⟨j, by grind, by grind, hwho⟩
    case one => exact h7
    all_goals clear h h3 h7
    all_goals grind
  | reap p j hj hpar =>
    constructor
    case child =>
      clear h0 h1 hroot hirrefl h4 h5 h6 h7
      intro i hi hcls
      exact h.child_of_same rfl (by grind) rfl (by grind) hi (by grind)
    all_goals grind

end Ok

namespace Names

variable {size : Nat} {k k' : Kin}

/-- The names of the steps that neither end a process nor give a new name. -/
theorem of_cls (h : Names k) (hpid : k'.pid = k.pid) (hnext : k'.next = k.next)
    (hexits : k'.exits = k.exits) (hwaits : k'.waits = k.waits)
    (hcls : ∀ i, k'.cls i = k.cls i ∨ k.cls i = .embryo ∧ (k'.cls i = .unused ∨ k'.cls i = .alive)) :
    Names k' := by
  obtain ⟨h1, h2, h3, h4, h5, h6, h7, h8, h9⟩ := h
  constructor
  all_goals simp only [hpid, hnext, hexits, hwaits]
  case pending =>
    intro q hq hw
    obtain ⟨i, hi, hpi⟩ := h7 q hq hw
    exact ⟨i, by grind, hpi⟩
  all_goals grind

theorem step (h : Names k) (hok : Ok size k) (hs : Step size k k') (hnext : k'.next ≤ 2 ^ 32) :
    Names k' := by
  obtain ⟨h1, h2, h3, h4, h5, h6, h7, h8, h9⟩ := id h
  cases hs with
  | fill p n hp hjob hlt hn =>
    have hmod : k.next % 2 ^ 32 = k.next := Nat.mod_eq_of_lt hnext
    rw [hmod]
    constructor
    case pending =>
      intro q hq hw
      obtain ⟨i, hi, hpi⟩ := h7 q hq hw
      have hin : i ≠ n := by grind
      exact ⟨i, by grind, by grind⟩
    all_goals grind
  | drop p n hjob =>
    have hn := (hok.forking p n hjob).2.1
    exact h.of_cls rfl rfl rfl rfl (by grind)
  | adopt p n hjob => exact h.of_cls rfl rfl rfl rfl fun i => .inl rfl
  | publish p n hjob =>
    have hn := (hok.forked p n hjob).2.1
    exact h.of_cls rfl rfl rfl rfl (by grind)
  | exit p hp hjob hne =>
    have hnot := h5 p (.inr hp)
    constructor
    case exitsNodup =>
      show (k.exits ++ [k.pid p]).Nodup
      rw [List.nodup_append]
      exact ⟨h4, List.nodup_singleton _, by grind⟩
    case pending =>
      intro q hq hw
      rcases List.mem_append.mp hq with hq | hq
      · obtain ⟨i, hi, hpi⟩ := h7 q hq hw
        have hip : i ≠ p := by grind
        exact ⟨i, by grind, hpi⟩
      · exact ⟨p, by grind, (List.mem_singleton.mp hq).symm⟩
    all_goals grind
  | reap p j hj hpar =>
    have hmem := h6 j hj
    constructor
    case waitsNodup =>
      show (k.waits ++ [k.pid j]).Nodup
      rw [List.nodup_append]
      exact ⟨h8, List.nodup_singleton _, by grind⟩
    case pending =>
      intro q hq hw
      obtain ⟨i, hi, hpi⟩ := h7 q hq (by grind)
      have hij : i ≠ j := by grind
      exact ⟨i, by grind, by grind⟩
    all_goals grind

end Names

end Kin

end Sched
end Xv6
