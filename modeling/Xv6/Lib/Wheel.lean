import Mathlib.Data.Finset.Sort

/-!
# Wheels in increasing order

A finite set of a linear order is linked into a wheel when every element points to the next larger
one and the largest to the smallest.  `Wheel F next` says this locally: no element of `F` lies
between an element and its successor, going up and around.  The rules link an element into a wheel
and take one out; `Wheel.ahead_lt` is what a search along the wheel makes progress by.

* `Between p q r`: going up from `p`, and around, `q` comes before `r`.
* `Wheel.insert`, `Wheel.erase`: the wheel after one element was linked in or taken out.
* `Wheel.ahead_lt`: the elements still ahead of a search get fewer.
* `Wheel.sorted`: the wheel as a sorted list.
-/

namespace Xv6
namespace Lib

open Function

variable {α : Type} [LinearOrder α]

/-- Going up from `p`, and around, `q` comes before `r`. -/
def Between (p q r : α) : Prop := (p < q ∧ q < r) ∨ (r ≤ p ∧ (p < q ∨ q < r))

instance (p q r : α) : Decidable (Between p q r) := inferInstanceAs (Decidable (_ ∨ _))

/-- Every element of `F` is linked to the next one. -/
structure Wheel (F : Finset α) (next : α → α) : Prop where
  closed : ∀ p ∈ F, next p ∈ F
  gap : ∀ p ∈ F, ∀ q ∈ F, ¬Between p q (next p)

variable {F : Finset α} {next next' : α → α} {p q b t : α}

theorem Wheel.singleton (h : next p = p) : Wheel {p} next := by
  constructor
  · intro q hq
    rw [Finset.mem_singleton] at hq ⊢
    rw [hq, h]
  · intro q hq r hr
    rw [Finset.mem_singleton] at hq hr
    rw [hq, hr, h]
    unfold Between
    grind

theorem Wheel.congr (h : Wheel F next) (hsame : ∀ p ∈ F, next' p = next p) : Wheel F next' := by
  constructor
  · intro p hp
    rw [hsame p hp]
    exact h.closed p hp
  · intro p hp q hq
    rw [hsame p hp]
    exact h.gap p hp q hq

/-- An element that is its own successor is alone. -/
theorem Wheel.eq_of_next_self (h : Wheel F next) (hp : p ∈ F) (hself : next p = p) (hq : q ∈ F) :
    q = p := by
  have hgap := h.gap p hp q hq
  rw [hself] at hgap
  unfold Between at hgap
  rcases lt_trichotomy p q with hlt | heq | hgt
  · exact absurd (.inr ⟨le_refl p, .inl hlt⟩) hgap
  · exact heq.symm
  · exact absurd (.inr ⟨le_refl p, .inr hgt⟩) hgap

/-- Link `b` in behind `p`. -/
theorem Wheel.insert (h : Wheel F next) (hp : p ∈ F) (hb : b ∉ F) (hbetween : Between p b (next p)) :
    Wheel (insert b F) (update (update next b (next p)) p b) := by
  have hne : p ≠ b := fun heq => hb (heq ▸ hp)
  have hclosed := h.closed p hp
  -- the two new links
  have hnextb : update (update next b (next p)) p b b = next p := by
    rw [update_of_ne hne.symm, update_self]
  have hnextp : update (update next b (next p)) p b p = b :=
    update_self ..
  have hother : ∀ q, q ≠ p → q ≠ b →
      update (update next b (next p)) p b q = next q := by
    intro q hqp hqb
    rw [update_of_ne hqp, update_of_ne hqb]
  constructor
  · intro q hq
    by_cases hqp : q = p
    · rw [hqp, hnextp]
      exact Finset.mem_insert_self _ _
    · by_cases hqb : q = b
      · rw [hqb, hnextb]
        exact Finset.mem_insert_of_mem hclosed
      · rw [hother q hqp hqb]
        exact Finset.mem_insert_of_mem (h.closed q ((Finset.mem_insert.mp hq).resolve_left hqb))
  · intro q hq r hr
    have hgap := h.gap p hp
    by_cases hqp : q = p
    · rw [hqp, hnextp]
      rcases Finset.mem_insert.mp hr with rfl | hr
      · unfold Between
        grind
      · have hr' := hgap r hr
        unfold Between at *
        grind
    · by_cases hqb : q = b
      · rw [hqb, hnextb]
        rcases Finset.mem_insert.mp hr with rfl | hr
        · unfold Between at *
          grind
        · have hr' := hgap r hr
          unfold Between at *
          grind
      · rw [hother q hqp hqb]
        have hqF : q ∈ F := (Finset.mem_insert.mp hq).resolve_left hqb
        rcases Finset.mem_insert.mp hr with rfl | hr
        · have h1 := hgap q hqF
          have h2 := h.gap q hqF p hp
          have h3 := h.gap q hqF (next p) hclosed
          unfold Between at *
          grind
        · exact h.gap q hqF r hr

/-- Take out the successor of `p`. -/
theorem Wheel.erase (h : Wheel F next) (hp : p ∈ F) (hne : next p ≠ p) :
    Wheel (F.erase (next p)) (update next p (next (next p))) := by
  have hclosed := h.closed p hp
  have hclosed' := h.closed _ hclosed
  -- an element whose successor is taken out is `p`
  have hpred : ∀ q ∈ F, next q = next p → q = p := by
    intro q hq heq
    have h1 := h.gap p hp q hq
    have h2 := h.gap q hq p hp
    rw [heq] at h2
    unfold Between at *
    grind
  constructor
  · intro q hq
    obtain ⟨hqn, hqF⟩ := Finset.mem_erase.mp hq
    rw [Finset.mem_erase]
    by_cases hqp : q = p
    · rw [hqp, update_self]
      refine ⟨fun hself => ?_, hclosed'⟩
      exact hne (h.eq_of_next_self hclosed hself hp).symm
    · rw [update_of_ne hqp]
      exact ⟨fun heq => hqp (hpred q hqF heq), h.closed q hqF⟩
  · intro q hq r hr
    obtain ⟨hqn, hqF⟩ := Finset.mem_erase.mp hq
    obtain ⟨hrn, hrF⟩ := Finset.mem_erase.mp hr
    by_cases hqp : q = p
    · rw [hqp, update_self]
      have h1 := h.gap p hp r hrF
      have h2 := h.gap _ hclosed r hrF
      have h3 := h.gap _ hclosed p hp
      unfold Between at *
      grind
    · rw [update_of_ne hqp]
      exact h.gap q hqF r hrF

/-- The elements that a search from `p` comes to before `t`. -/
def ahead (F : Finset α) (p t : α) : Finset α := F.filter fun q => Between p q t

/-- A search that has not yet gone past `t` has one element less ahead. -/
theorem Wheel.ahead_lt (h : Wheel F next) (hp : p ∈ F) (hnt : next p ≠ t)
    (hpast : ¬Between p t (next p)) : (ahead F (next p) t).card < (ahead F p t).card := by
  have hon : Between p (next p) t := by
    unfold Between at *
    grind
  apply Finset.card_lt_card
  rw [Finset.ssubset_iff_of_subset]
  · refine ⟨next p, Finset.mem_filter.mpr ⟨h.closed p hp, hon⟩, ?_⟩
    intro hmem
    have hself := (Finset.mem_filter.mp hmem).2
    unfold Between at hself
    grind
  · intro q hq
    obtain ⟨hqF, hbetween⟩ := Finset.mem_filter.mp hq
    refine Finset.mem_filter.mpr ⟨hqF, ?_⟩
    unfold Between at *
    grind

theorem ahead_card_le : (ahead F p t).card ≤ F.card := Finset.card_filter_le ..

/-- The wheel as a list: in increasing order, with one wrap at the end. -/
theorem Wheel.sorted (h : Wheel F next) {i : Nat} (hi : F.sort[i]? = some p) :
    F.sort[(i + 1) % F.sort.length]? = some (next p) := by
  obtain ⟨hlt, rfl⟩ := List.getElem?_eq_some_iff.mp hi
  have hmono : ∀ {a b : Nat} (ha : a < F.sort.length) (hb : b < F.sort.length), a < b →
      F.sort[a] < F.sort[b] := by
    intro a b ha hb hab
    exact List.pairwise_iff_getElem.mp (Finset.sortedLT_sort F).pairwise a b ha hb hab
  have hmem : ∀ {a : Nat} (ha : a < F.sort.length), F.sort[a] ∈ F :=
    fun ha => (Finset.mem_sort _).mp (List.getElem_mem ha)
  have hgap := h.gap _ (hmem hlt)
  obtain ⟨j, hj, hnext⟩ := List.getElem_of_mem
    ((Finset.mem_sort (· ≤ ·)).mpr (h.closed _ (hmem hlt)))
  -- the successor does not lie below an element that it could have skipped
  have hbelow : j < i → F.sort[j] < F.sort[i] := hmono hj hlt
  have hidx : (i + 1) % F.sort.length = j := by
    rcases Nat.lt_or_ge (i + 1) F.sort.length with hmore | hlast
    · rw [Nat.mod_eq_of_lt hmore]
      have hup := hmono hlt hmore (Nat.lt_succ_self i)
      have hbetween := hgap _ (hmem hmore)
      rw [← hnext] at hbetween
      unfold Between at hbetween
      rcases Nat.lt_trichotomy (i + 1) j with hless | heq | hgreater
      · have := hmono hmore hj hless
        grind
      · exact heq
      · have : j < i ∨ j = i := by omega
        grind
    · -- the largest element points to the smallest
      have hpos : 0 < F.sort.length := by omega
      rw [show i + 1 = F.sort.length by omega, Nat.mod_self]
      by_contra hne
      have hfirst := hmono hpos hj (by omega)
      have hbetween := hgap _ (hmem hpos)
      rw [← hnext] at hbetween
      unfold Between at hbetween
      have : j < i ∨ j = i := by omega
      grind
  rw [hidx, List.getElem?_eq_some_iff]
  exact ⟨hj, hnext⟩

end Lib
end Xv6
