import Mathlib.Data.List.Nodup
import Mathlib.Logic.Function.Basic
import Mathlib.Tactic.Common

/-!
# Singly linked queues

A queue is a pointer to its first node, and every node has a pointer to the next one.  A
node is appended by a loop over the places that hold a pointer, from the root on, up to the
null pointer.  `Holds` says that the pointers lead through the nodes of a list and no
others; a loop with as many rounds as there are pointers finds the end.
-/

namespace Xv6
namespace Lib

open Function

/-- The root and the pointers of the nodes. -/
structure Chain (ι : Type) where
  root : Option ι
  next : ι → Option ι

namespace Chain

variable {ι : Type} [DecidableEq ι]

/-- A place that holds a pointer. -/
inductive Slot (ι : Type) where
  | root
  | next (x : ι)

/-- `*pp`. -/
def deref (c : Chain ι) : Slot ι → Option ι
  | .root => c.root
  | .next x => c.next x

/-- `*pp = v`. -/
def assign (c : Chain ι) (pp : Slot ι) (v : Option ι) : Chain ι :=
  match pp with
  | .root => { c with root := v }
  | .next x => { c with next := update c.next x v }

/-- `for (; *pp; pp = &(*pp)->next)`, in less than `n` rounds. -/
def lastSlot (c : Chain ι) : Nat → Slot ι → Option (Slot ι)
  | 0, _ => none
  | n + 1, pp =>
    match c.deref pp with
    | none => some pp
    | some x => c.lastSlot n (.next x)

/-- `b->next = 0`, the loop, and `*pp = b`. -/
def append (c : Chain ι) (n : Nat) (b : ι) : Option (Chain ι) :=
  let c := c.assign (.next b) none
  (c.lastSlot n .root).map fun pp => c.assign pp (some b)

/-- The pointers lead from `pp` through the nodes. -/
def Path (c : Chain ι) : Slot ι → List ι → Prop
  | pp, [] => c.deref pp = none
  | pp, x :: xs => c.deref pp = some x ∧ Path c (.next x) xs

/-- The nodes of the queue. -/
structure Holds (c : Chain ι) (xs : List ι) : Prop where
  path : c.Path .root xs
  nodup : xs.Nodup

variable {c c' : Chain ι} {pp : Slot ι} {xs : List ι} {x b : ι} {n : Nat}

/-- The place after the nodes. -/
def lastOf (pp : Slot ι) (xs : List ι) : Slot ι := (xs.getLast?.map Slot.next).getD pp

omit [DecidableEq ι] in
theorem lastOf_cons (pp : Slot ι) (x : ι) (xs : List ι) :
    lastOf pp (x :: xs) = lastOf (.next x) xs := by
  rw [lastOf, lastOf, List.getLast?_cons]
  cases xs.getLast? with
  | none => rfl
  | some y => rfl

omit [DecidableEq ι] in
/-- A path depends on its first pointer and on those of its nodes. -/
theorem Path.congr (h : c.Path pp xs) (hpp : c'.deref pp = c.deref pp)
    (hnext : ∀ x ∈ xs, c'.next x = c.next x) : c'.Path pp xs := by
  induction xs generalizing pp with
  | nil => exact hpp.trans h
  | cons x xs ih =>
    refine ⟨hpp.trans h.1, ih h.2 (hnext x List.mem_cons_self) ?_⟩
    exact fun y hy => hnext y (List.mem_cons_of_mem x hy)

omit [DecidableEq ι] in
/-- The loop finds the place after the last node. -/
theorem Path.lastSlot (h : c.Path pp xs) (hn : xs.length < n) :
    c.lastSlot n pp = some (lastOf pp xs) := by
  induction xs generalizing pp n with
  | nil =>
    cases n with
    | zero => cases hn
    | succ n =>
      rw [Chain.lastSlot, show c.deref pp = none from h]
      rfl
  | cons x xs ih =>
    cases n with
    | zero => cases hn
    | succ n =>
      rw [Chain.lastSlot, h.1]
      dsimp only
      rw [ih h.2 (Nat.lt_of_succ_lt_succ hn), lastOf_cons]

/-- Storing a node at the end of a path makes it one longer. -/
theorem Path.assign (h : c.Path pp xs) (hb : b ∉ xs) (hpp : pp ≠ .next b) (hnodup : xs.Nodup)
    (hfresh : ∀ x ∈ xs, pp ≠ .next x) (hnull : c.next b = none) :
    (c.assign (lastOf pp xs) (some b)).Path pp (xs ++ [b]) := by
  induction xs generalizing pp with
  | nil =>
    cases pp with
    | root => exact ⟨rfl, hnull⟩
    | next y =>
      have hby : b ≠ y := fun heq => hpp (by rw [heq])
      refine ⟨update_self .., ?_⟩
      show update c.next y (some b) b = none
      rw [update_of_ne hby]
      exact hnull
  | cons x xs ih =>
    have hx := List.nodup_cons.mp hnodup
    rw [lastOf_cons]
    have hih := ih h.2 (fun hmem => hb (List.mem_cons_of_mem x hmem))
      (fun heq => hb (by cases heq; exact List.mem_cons_self)) hx.2
      (fun y hy heq => hx.1 (by cases heq; exact hy))
    refine ⟨?_, hih⟩
    -- the place that is written is not the first one
    rw [← h.1, lastOf]
    cases hget : xs.getLast? with
    | none =>
      cases pp with
      | root => rfl
      | next y =>
        have hne : y ≠ x := fun heq => hfresh x List.mem_cons_self (by rw [heq])
        exact update_of_ne hne ..
    | some z =>
      have hz : z ∈ x :: xs := List.mem_cons_of_mem x (List.mem_of_getLast? hget)
      cases pp with
      | root => rfl
      | next y =>
        have hne : y ≠ z := fun heq => hfresh z hz (by rw [heq])
        exact update_of_ne hne ..

omit [DecidableEq ι] in
/-- The empty queue. -/
theorem holds_nil (h : c.root = none) : c.Holds [] := ⟨h, List.nodup_nil⟩

omit [DecidableEq ι] in
theorem Holds.root_eq (h : c.Holds xs) : c.root = xs.head? := by
  cases xs with
  | nil => exact h.path
  | cons x xs => exact h.path.1

/-- A node that is not in the queue is appended. -/
theorem Holds.append (h : c.Holds xs) (hb : b ∉ xs) (hn : xs.length < n) :
    ∃ c', c.append n b = some c' ∧ c'.Holds (xs ++ [b]) := by
  have hpath : (c.assign (.next b) none).Path .root xs := by
    apply h.path.congr
    · rfl
    · intro x hx
      have hne : x ≠ b := fun heq => hb (heq ▸ hx)
      exact update_of_ne hne ..
  refine ⟨(c.assign (.next b) none).assign (lastOf .root xs) (some b), ?_, ?_, ?_⟩
  · show ((c.assign (.next b) none).lastSlot n .root).map _ = _
    rw [hpath.lastSlot hn]
    rfl
  · exact hpath.assign hb nofun h.nodup nofun (update_self ..)
  · rw [List.nodup_append]
    refine ⟨h.nodup, List.nodup_singleton b, ?_⟩
    intro x hx y hy heq
    rw [List.mem_singleton] at hy
    exact hb (hy ▸ heq ▸ hx)

omit [DecidableEq ι] in
/-- The first node is taken out by making its successor the root. -/
theorem Holds.pop (h : c.Holds (x :: xs)) : Holds { c with root := c.next x } xs := by
  refine ⟨?_, (List.nodup_cons.mp h.nodup).2⟩
  have hpath := h.path.2
  cases xs with
  | nil => exact hpath
  | cons y ys =>
    refine ⟨hpath.1, hpath.2.congr rfl ?_⟩
    exact fun z _ => rfl

end Chain

end Lib
end Xv6
