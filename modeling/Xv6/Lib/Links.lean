import Mathlib.Data.List.Induction
import Mathlib.Logic.Function.Basic
import Mathlib.Tactic.Common

/-!
# Circular doubly linked lists

A list through a head node, with a pointer to the next and to the previous node in every
node.  `Circular l h xs` says that the pointers lead from the head `h` through the nodes
`xs` and back, in either direction.  Inserting a node after the head and taking a node out
do to `xs` what they should, and a loop along the pointers visits the nodes of `xs`.
-/

namespace Xv6
namespace Lib

open Function

variable {ι : Type} [DecidableEq ι]

/-- The pointers of all nodes. -/
structure Links (ι : Type) where
  next : ι → ι
  prev : ι → ι

namespace Links

/-- Insert `b` after the head: `b->next = head.next; b->prev = &head;
head.next->prev = b; head.next = b`. -/
def pushFront (l : Links ι) (h b : ι) : Links ι :=
  let l1 : Links ι := { l with next := update l.next b (l.next h) }
  let l2 : Links ι := { l1 with prev := update l1.prev b h }
  let l3 : Links ι := { l2 with prev := update l2.prev (l2.next h) b }
  { l3 with next := update l3.next h b }

/-- Take `b` out: `b->next->prev = b->prev; b->prev->next = b->next`. -/
def unlink (l : Links ι) (b : ι) : Links ι :=
  let l1 : Links ι := { l with prev := update l.prev (l.next b) (l.prev b) }
  { l1 with next := update l1.next (l1.prev b) (l1.next b) }

/-- The nodes that `for (b = first; b != head; b = step(b))` visits, in at most `n` rounds. -/
def walk (step : ι → ι) (h : ι) : Nat → ι → List ι
  | 0, _ => []
  | n + 1, b => if b = h then [] else b :: walk step h n (step b)

/-- The first node on the way that passes the test. -/
def scan (step : ι → ι) (h : ι) (test : ι → Bool) : Nat → ι → Option ι
  | 0, _ => none
  | n + 1, b => if b = h then none else if test b then some b else scan step h test n (step b)

theorem scan_eq_find (step : ι → ι) (h : ι) (test : ι → Bool) (n : Nat) (b : ι) :
    scan step h test n b = (walk step h n b).find? test := by
  induction n generalizing b with
  | zero => rfl
  | succ n ih =>
    rw [scan, walk]
    split_ifs with hb ht
    · rfl
    · rw [List.find?_cons_of_pos ht]
    · rw [List.find?_cons_of_neg ht, ih]

/-! ## Paths -/

/-- The pointers lead along the nodes, in both directions. -/
def Path (l : Links ι) : List ι → Prop
  | a :: b :: xs => l.next a = b ∧ l.prev b = a ∧ Path l (b :: xs)
  | _ => True

variable {l l' : Links ι} {h a b : ι} {xs ys : List ι}

omit [DecidableEq ι] in
theorem path_append : Path l (xs ++ a :: ys) ↔ Path l (xs ++ [a]) ∧ Path l (a :: ys) := by
  induction xs with
  | nil => simp [Path]
  | cons x xs ih =>
    cases xs with
    | nil =>
      cases ys with
      | nil => simp [Path]
      | cons y ys => simp [Path, and_assoc]
    | cons x' xs =>
      simp only [List.cons_append, Path] at ih ⊢
      rw [ih]
      tauto

omit [DecidableEq ι] in
/-- A path uses the next pointers of all nodes but the last, and the previous pointers of
all but the first. -/
theorem Path.congr (hp : Path l (a :: xs)) (hnext : ∀ x ∈ (a :: xs).dropLast, l'.next x = l.next x)
    (hprev : ∀ x ∈ xs, l'.prev x = l.prev x) : Path l' (a :: xs) := by
  induction xs generalizing a with
  | nil => trivial
  | cons b xs ih =>
    obtain ⟨hn, hv, hrest⟩ := hp
    refine ⟨?_, ?_, ih hrest ?_ ?_⟩
    · rw [hnext a (by simp), hn]
    · rw [hprev b (by simp), hv]
    · exact fun x hx => hnext x (by simpa using .inr hx)
    · exact fun x hx => hprev x (List.mem_cons_of_mem _ hx)

/-- The list of the nodes `xs`, through the head `h`. -/
structure Circular (l : Links ι) (h : ι) (xs : List ι) : Prop where
  path : Path l (h :: xs ++ [h])
  nodup : (h :: xs).Nodup

namespace Circular

omit [DecidableEq ι] in
theorem empty (hn : l.next h = h) (hv : l.prev h = h) : Circular l h [] :=
  ⟨⟨hn, hv, trivial⟩, by simp⟩

theorem pushFront (hc : Circular l h xs) (hb : b ∉ h :: xs) :
    Circular (l.pushFront h b) h (b :: xs) := by
  obtain ⟨hbh, hbxs⟩ : b ≠ h ∧ b ∉ xs := by simpa [not_or] using hb
  obtain ⟨hhxs, hxs⟩ := List.nodup_cons.mp hc.nodup
  have hnext_h : (l.pushFront h b).next h = b := by simp [Links.pushFront]
  have hnext_b : (l.pushFront h b).next b = l.next h := by simp [Links.pushFront, hbh]
  have hnext : ∀ x, x ≠ h → x ≠ b → (l.pushFront h b).next x = l.next x := by
    intro x hxh hxb
    simp [Links.pushFront, hxh, hxb]
  have hprev_y : (l.pushFront h b).prev (l.next h) = b := by
    simp [Links.pushFront, hbh.symm]
  have hprev_b : b ≠ l.next h → (l.pushFront h b).prev b = h := by
    intro hby
    simp [Links.pushFront, hbh.symm, hby]
  have hprev : ∀ x, x ≠ l.next h → x ≠ b → (l.pushFront h b).prev x = l.prev x := by
    intro x hxy hxb
    simp [Links.pushFront, hbh.symm, hxy, hxb]
  have hnodup : (h :: b :: xs).Nodup := by
    simp only [List.nodup_cons, List.mem_cons, not_or]
    exact ⟨⟨hbh.symm, hhxs⟩, hbxs, hxs⟩
  refine ⟨?_, hnodup⟩
  have hpath := hc.path
  cases xs with
  | nil =>
    have hy : l.next h = h := hpath.1
    rw [hy] at hnext_b hprev_y hprev_b
    exact ⟨hnext_h, hprev_b hbh, hnext_b, hprev_y, trivial⟩
  | cons y ys =>
    have hy : l.next h = y := hpath.1
    rw [hy] at hnext_b hprev_y hprev_b hprev
    simp only [List.mem_cons, not_or] at hbxs hhxs
    refine ⟨hnext_h, hprev_b hbxs.1, hnext_b, hprev_y, ?_⟩
    apply hpath.2.2.congr
    · intro x hx
      have hmem : x ∈ y :: ys := by
        change x ∈ ((y :: ys) ++ [h]).dropLast at hx
        rwa [List.dropLast_concat] at hx
      refine hnext x ?_ ?_
      · rintro rfl
        simp only [List.mem_cons] at hmem
        tauto
      · rintro rfl
        simp only [List.mem_cons] at hmem
        tauto
    · intro x hx
      have hmem : x ∈ ys ∨ x = h := by simpa using hx
      refine hprev x ?_ ?_
      · rintro rfl
        rcases hmem with hmem | rfl
        · exact (List.nodup_cons.mp hxs).1 hmem
        · exact hhxs.1 rfl
      · rintro rfl
        rcases hmem with hmem | rfl
        · exact hbxs.2 hmem
        · exact hbh rfl

theorem unlink (hc : Circular l h (xs ++ b :: ys)) : Circular (l.unlink b) h (xs ++ ys) := by
  -- The nodes before and after `b`.
  obtain ⟨pre, p, hpre⟩ : ∃ pre p, h :: xs = pre ++ [p] :=
    ⟨(h :: xs).dropLast, (h :: xs).getLast (by simp), (List.dropLast_concat_getLast _).symm⟩
  obtain ⟨n, suf, hsuf⟩ : ∃ n suf, ys ++ [h] = n :: suf := by
    cases ys with
    | nil => exact ⟨h, [], rfl⟩
    | cons y ys => exact ⟨y, ys ++ [h], rfl⟩
  have hnodup : (h :: xs ++ b :: ys).Nodup := hc.nodup
  have hpath : Path l (pre ++ p :: b :: n :: suf) := by
    have := hc.path
    rw [List.cons_append, List.append_assoc, List.cons_append, hsuf, ← List.cons_append, hpre,
      List.append_assoc] at this
    exact this
  rw [path_append] at hpath
  obtain ⟨hfirst, hn, hv, hn', hv', hlast⟩ := hpath
  have hnext : (l.unlink b).next = update l.next p n := by
    simp only [Links.unlink, hn', hv]
    by_cases hbn : b = n
    · rw [hbn, update_self]
    · rw [update_of_ne hbn, hv]
  have hprev : (l.unlink b).prev = update l.prev n p := by
    simp only [Links.unlink, hn', hv]
  -- No node occurs twice, so the pointers on either side are as before.
  have hdisj : ∀ x ∈ h :: xs, ∀ y ∈ b :: ys, x ≠ y := (List.nodup_append.mp hnodup).2.2
  have hpre_nodup : (pre ++ [p]).Nodup := by
    rw [← hpre]
    exact (List.nodup_append.mp hnodup).1
  have hhys : h ∉ ys := fun hin => hdisj h (by simp) h (by simp [hin]) rfl
  have hhxs : h ∉ xs := (List.nodup_cons.mp (List.nodup_append.mp hnodup).1).1
  have hys : ys.Nodup := (List.nodup_cons.mp (List.nodup_append.mp hnodup).2.1).2
  have hsuf_nodup : (n :: suf).Nodup := by
    rw [← hsuf, List.nodup_append]
    refine ⟨hys, by simp, fun x hx y hy hxy => ?_⟩
    rw [List.mem_singleton] at hy
    exact hhys (by rwa [← hy, ← hxy])
  have hp_mem : p ∈ h :: xs := by simp [hpre]
  have hn_mem : n ∈ ys ∨ n = h := by
    have : n ∈ ys ++ [h] := by simp [hsuf]
    simpa using this
  constructor
  · rw [List.cons_append, List.append_assoc, hsuf, ← List.cons_append, hpre, List.append_assoc]
    show Path (l.unlink b) (pre ++ p :: n :: suf)
    rw [path_append]
    refine ⟨?_, by rw [hnext, update_self], by rw [hprev, update_self], ?_⟩
    · rw [← hpre] at hfirst ⊢
      apply hfirst.congr
      · intro x hx
        rw [hpre, List.dropLast_concat] at hx
        rw [hnext, update_of_ne]
        rintro rfl
        exact (List.nodup_append.mp hpre_nodup).2.2 x hx x (by simp) rfl
      · intro x hx
        rw [hprev, update_of_ne]
        rintro rfl
        rcases hn_mem with hin | rfl
        · exact hdisj x (by simp [hx]) x (by simp [hin]) rfl
        · exact hhxs hx
    · apply hlast.congr
      · intro x hx
        rw [← hsuf, List.dropLast_concat] at hx
        rw [hnext, update_of_ne]
        rintro rfl
        exact hdisj x hp_mem x (by simp [hx]) rfl
      · intro x hx
        rw [hprev, update_of_ne]
        rintro rfl
        exact (List.nodup_cons.mp hsuf_nodup).1 hx
  · refine hnodup.sublist ?_
    simp

/-- The loop along the next pointers visits the nodes in order. -/
theorem walk_next (hc : Circular l h xs) {n : Nat} (hn : xs.length < n) :
    walk l.next h n (l.next h) = xs := by
  have key : ∀ (zs : List ι) (a : ι) (n : Nat), Path l (a :: zs ++ [h]) → h ∉ zs →
      zs.length < n → walk l.next h n (l.next a) = zs := by
    intro zs
    induction zs with
    | nil =>
      intro a n hp _ hn
      obtain ⟨n, rfl⟩ := Nat.exists_eq_succ_of_ne_zero (by omega : n ≠ 0)
      rw [walk, hp.1, if_pos rfl]
    | cons z zs ih =>
      intro a n hp hnot hn
      rw [List.length_cons] at hn
      obtain ⟨n, rfl⟩ := Nat.exists_eq_succ_of_ne_zero (by omega : n ≠ 0)
      simp only [List.mem_cons, not_or] at hnot
      rw [walk, hp.1, if_neg (Ne.symm hnot.1), ih z n hp.2.2 hnot.2 (by omega)]
  exact key xs h n hc.path (List.nodup_cons.mp hc.nodup).1 hn

/-- The loop along the previous pointers visits them in the opposite order. -/
theorem walk_prev (hc : Circular l h xs) {n : Nat} (hn : xs.length < n) :
    walk l.prev h n (l.prev h) = xs.reverse := by
  have key : ∀ (zs : List ι) (a : ι) (n : Nat), Path l (h :: zs ++ [a]) → h ∉ zs →
      zs.length < n → walk l.prev h n (l.prev a) = zs.reverse := by
    intro zs
    induction zs using List.reverseRecOn with
    | nil =>
      intro a n hp _ hn
      obtain ⟨n, rfl⟩ := Nat.exists_eq_succ_of_ne_zero (by omega : n ≠ 0)
      rw [walk, hp.2.1, if_pos rfl]
      rfl
    | append_singleton zs z ih =>
      intro a n hp hnot hn
      rw [List.length_append, List.length_singleton] at hn
      obtain ⟨n, rfl⟩ := Nat.exists_eq_succ_of_ne_zero (by omega : n ≠ 0)
      have hsplit : Path l ((h :: zs) ++ z :: [a]) := by simpa using hp
      rw [path_append] at hsplit
      simp only [List.mem_append, List.mem_singleton, not_or] at hnot
      rw [walk, hsplit.2.2.1, if_neg (Ne.symm hnot.2), ih z n hsplit.1 hnot.1 (by omega),
        List.reverse_append]
      rfl
  exact key xs h n hc.path (List.nodup_cons.mp hc.nodup).1 hn

omit [DecidableEq ι] in
/-- The two directions are inverse to each other. -/
theorem inverse (hc : Circular l h xs) (ha : a ∈ h :: xs) :
    l.prev (l.next a) = a ∧ l.next (l.prev a) = a := by
  have hnext : ∀ (zs : List ι) (w : ι), Path l (zs ++ [w]) → ∀ x ∈ zs, l.prev (l.next x) = x := by
    intro zs w
    induction zs with
    | nil => exact fun _ x hx => absurd hx List.not_mem_nil
    | cons z zs ih =>
      intro hp x hx
      have hhead : l.prev (l.next z) = z ∧ Path l (zs ++ [w]) := by
        cases zs with
        | nil => exact ⟨by rw [hp.1, hp.2.1], trivial⟩
        | cons z' zs => exact ⟨by rw [hp.1, hp.2.1], hp.2.2⟩
      rcases List.mem_cons.mp hx with rfl | hx
      · exact hhead.1
      · exact ih hhead.2 x hx
  have hprev : ∀ (zs : List ι) (w : ι), Path l (w :: zs) → ∀ x ∈ zs, l.next (l.prev x) = x := by
    intro zs
    induction zs with
    | nil => exact fun _ _ x hx => absurd hx List.not_mem_nil
    | cons z zs ih =>
      intro w hp x hx
      rcases List.mem_cons.mp hx with rfl | hx
      · rw [hp.2.1, hp.1]
      · exact ih z hp.2.2 x hx
  refine ⟨hnext (h :: xs) h hc.path a ha, hprev (xs ++ [h]) h hc.path a ?_⟩
  simpa [or_comm] using ha

end Circular

end Links

end Lib
end Xv6
