import Mathlib.Computability.Language

/-!
# The matcher of `grep` (`grep.c`)

Patterns and texts are strings, so they are lists of bytes without NUL.  `matchhere` searches at
the beginning of the text, `matchstar` tries zero, one, two, … instances of a character in front
of the rest of the pattern, and `grepMatch` tries every place.

The meaning of a pattern is a language (`Item.lang`, `patternLang`): a sequence of characters and
starred characters, with a `$` at the end read as a condition on what follows (`reading`).
`match_iff` says that the matcher decides it.
-/

namespace Xv6
namespace Grep

open Computability

def caret : UInt8 := 94
def dot : UInt8 := 46
def star : UInt8 := 42
def dollar : UInt8 := 36

/-! ## The matcher -/

/-- Search for `c*re` at the beginning of the text, with `here` for the search for `re`. -/
def matchstar (here : List UInt8 → Bool) (c : UInt8) : List UInt8 → Bool
  | [] => here []
  | t :: text =>
    if here (t :: text) then
      true
    else if t = c ∨ c = dot then
      matchstar here c text
    else
      false

/-- The test of one character against the text. -/
def matchOne (here : List UInt8 → Bool) (c : UInt8) : List UInt8 → Bool
  | [] => false
  | t :: text => if c = dot ∨ c = t then here text else false

/-- Search for `re` at the beginning of the text. -/
def matchhere : List UInt8 → List UInt8 → Bool
  | [], _ => true
  | [c], text => if c = dollar then text.isEmpty else matchOne (matchhere []) c text
  | c :: s :: re, text =>
    if s = star then
      matchstar (matchhere re) c text
    else
      matchOne (matchhere (s :: re)) c text

/-- The loop of `match` over the places of the text; the empty string is looked at, too. -/
def matchFrom (re : List UInt8) : List UInt8 → Bool
  | [] => matchhere re []
  | t :: text => if matchhere re (t :: text) then true else matchFrom re text

/-- `match` -/
def grepMatch (re text : List UInt8) : Bool :=
  match re with
  | [] => matchFrom [] text
  | c :: re => if c = caret then matchhere re text else matchFrom (c :: re) text

/-! ## What a pattern means -/

/-- A piece of a pattern: a character, or a character followed by `*`. -/
inductive Item where
  | one (c : UInt8)
  | starred (c : UInt8)

/-- Character `t` of the text is an instance of `c`. -/
def Instance (c t : UInt8) : Prop := c = dot ∨ c = t

/-- The texts of one character that are instances of `c`. -/
def instances (c : UInt8) : Language UInt8 := {w | ∃ t, Instance c t ∧ w = [t]}

/-- The texts that an item stands for. -/
def Item.lang : Item → Language UInt8
  | .one c => instances c
  | .starred c => (instances c)∗

/-- The texts that a sequence of items stands for. -/
def patternLang (items : List Item) : Language UInt8 := (items.map Item.lang).prod

/-- The items of a pattern, and whether it ends with an unstarred `$`. -/
def reading : List UInt8 → List Item × Bool
  | [] => ([], false)
  | [c] => if c = dollar then ([], true) else ([.one c], false)
  | c :: s :: re =>
    if s = star then
      (.starred c :: (reading re).1, (reading re).2)
    else
      (.one c :: (reading (s :: re)).1, (reading (s :: re)).2)

/-- A text begins with a word of the pattern; nothing follows if the pattern ends with `$`. -/
def Begins (re text : List UInt8) : Prop :=
  ∃ w rest, text = w ++ rest ∧ w ∈ patternLang (reading re).1 ∧ ((reading re).2 = true → rest = [])

/-! ## The matcher decides it -/

section decides

variable {re text w : List UInt8} {c s : UInt8}

/-- A word of the star is a sequence of instances. -/
theorem mem_kstar_instances : w ∈ (instances c)∗ ↔ ∀ t ∈ w, Instance c t := by
  constructor
  · intro h
    obtain ⟨ws, rfl, hws⟩ := Language.mem_kstar.mp h
    intro t ht
    obtain ⟨v, hv, htv⟩ := List.mem_flatten.mp ht
    obtain ⟨t', ht', rfl⟩ := hws v hv
    rwa [List.mem_singleton.mp htv]
  · intro h
    apply Language.mem_kstar.mpr
    refine ⟨w.map fun t => [t], ?_, ?_⟩
    · induction w with
      | nil => rfl
      | cons t w ih =>
        rw [List.map_cons, List.flatten_cons, ← ih fun t ht => h t (List.mem_cons_of_mem _ ht)]
        rfl
    · intro v hv
      obtain ⟨t, ht, rfl⟩ := List.mem_map.mp hv
      exact ⟨t, h t ht, rfl⟩

/-- `matchstar` finds a split into instances and a rest that goes on. -/
theorem matchstar_iff {here : List UInt8 → Bool} : matchstar here c text = true ↔
    ∃ v rest, text = v ++ rest ∧ (∀ t ∈ v, Instance c t) ∧ here rest = true := by
  induction text with
  | nil =>
    constructor
    · intro h
      exact ⟨[], [], rfl, nofun, h⟩
    · rintro ⟨v, rest, heq, _, hhere⟩
      obtain ⟨rfl, rfl⟩ := List.append_eq_nil_iff.mp heq.symm
      exact hhere
  | cons t text ih =>
    rw [matchstar]
    constructor
    · intro h
      split_ifs at h with hhere hinst
      · exact ⟨[], t :: text, rfl, nofun, hhere⟩
      · obtain ⟨v, rest, rfl, hv, hrest⟩ := ih.mp h
        refine ⟨t :: v, rest, rfl, ?_, hrest⟩
        intro t' ht'
        cases ht' with
        | head => exact hinst.symm.imp_right Eq.symm
        | tail _ ht' => exact hv t' ht'
    · rintro ⟨v, rest, heq, hv, hrest⟩
      cases v with
      | nil =>
        rw [List.nil_append] at heq
        rw [heq, if_pos hrest]
      | cons t' v =>
        rw [List.cons_append] at heq
        obtain ⟨rfl, rfl⟩ := List.cons.inj heq
        have hinst : t = c ∨ c = dot := (hv t List.mem_cons_self).symm.imp_left Eq.symm
        have hgo : matchstar here c (v ++ rest) = true :=
          ih.mpr ⟨v, rest, rfl, fun t ht => hv t (List.mem_cons_of_mem _ ht), hrest⟩
        rw [if_pos hinst, hgo, ite_self]

theorem matchOne_iff {here : List UInt8 → Bool} : matchOne here c text = true ↔
    ∃ t rest, text = t :: rest ∧ Instance c t ∧ here rest = true := by
  cases text with
  | nil => exact iff_of_false nofun nofun
  | cons t text =>
    rw [matchOne]
    constructor
    · intro h
      split_ifs at h with hinst
      exact ⟨t, text, rfl, hinst, h⟩
    · rintro ⟨t', rest, heq, hinst, hrest⟩
      obtain ⟨rfl, rfl⟩ := List.cons.inj heq
      rw [if_pos (show c = dot ∨ c = t from hinst), hrest]

/-- A character in front of a pattern. -/
theorem begins_one (hread : reading (c :: re) = (.one c :: (reading re).1, (reading re).2)) :
    Begins (c :: re) text ↔ ∃ t rest, text = t :: rest ∧ Instance c t ∧ Begins re rest := by
  unfold Begins
  rw [hread]
  constructor
  · rintro ⟨w, rest, rfl, hw, hend⟩
    obtain ⟨_, ⟨t, ht, rfl⟩, v, hv, rfl⟩ := Language.mem_mul.mp hw
    exact ⟨t, v ++ rest, rfl, ht, v, rest, rfl, hv, hend⟩
  · rintro ⟨t, _, rfl, ht, v, rest, rfl, hv, hend⟩
    exact ⟨t :: v, rest, rfl, Language.mem_mul.mpr ⟨[t], ⟨t, ht, rfl⟩, v, hv, rfl⟩, hend⟩

theorem begins_starred : Begins (c :: star :: re) text ↔
    ∃ v rest, text = v ++ rest ∧ (∀ t ∈ v, Instance c t) ∧ Begins re rest := by
  have hread : reading (c :: star :: re) = (.starred c :: (reading re).1, (reading re).2) :=
    if_pos rfl
  unfold Begins
  rw [hread]
  constructor
  · rintro ⟨w, rest, rfl, hw, hend⟩
    obtain ⟨u, hu, v, hv, rfl⟩ := Language.mem_mul.mp hw
    exact ⟨u, v ++ rest, List.append_assoc u v rest, mem_kstar_instances.mp hu, v, rest, rfl, hv,
      hend⟩
  · rintro ⟨u, _, rfl, hu, v, rest, rfl, hv, hend⟩
    exact ⟨u ++ v, rest, (List.append_assoc u v rest).symm,
      Language.mem_mul.mpr ⟨u, mem_kstar_instances.mpr hu, v, hv, rfl⟩, hend⟩

theorem begins_nil : Begins [] text :=
  ⟨[], text, rfl, rfl, nofun⟩

theorem begins_dollar : Begins [dollar] text ↔ text = [] := by
  constructor
  · rintro ⟨w, rest, rfl, hw, hend⟩
    have hnil : w = [] := hw
    rw [hnil, hend rfl]
    rfl
  · rintro rfl
    exact ⟨[], [], rfl, rfl, fun _ => rfl⟩

/-- `matchhere` decides whether the text begins with a word of the pattern. -/
theorem matchhere_iff (re text : List UInt8) : matchhere re text = true ↔ Begins re text := by
  -- the cases are those of the reading; the two with a rest go on with it
  induction re using reading.induct generalizing text with
  | case1 =>
    rw [matchhere]
    exact iff_of_true rfl begins_nil
  | case2 =>
    rw [matchhere, if_pos rfl, begins_dollar, List.isEmpty_iff]
  | case3 c hc =>
    have hread : reading [c] = (.one c :: (reading []).1, (reading []).2) := if_neg hc
    rw [matchhere, if_neg hc, matchOne_iff, begins_one hread]
    simp only [matchhere, begins_nil]
  | case4 c re ih =>
    rw [matchhere, if_pos rfl, matchstar_iff, begins_starred]
    simp only [ih]
  | case5 c s re hs ih =>
    have hread : reading (c :: s :: re) =
        (.one c :: (reading (s :: re)).1, (reading (s :: re)).2) := if_neg hs
    rw [matchhere, if_neg hs, matchOne_iff, begins_one hread]
    simp only [ih]

/-- The loop finds a place to begin. -/
theorem matchFrom_iff : matchFrom re text = true ↔ ∃ before rest, text = before ++ rest ∧
    Begins re rest := by
  induction text with
  | nil =>
    rw [matchFrom, matchhere_iff]
    constructor
    · intro h
      exact ⟨[], [], rfl, h⟩
    · rintro ⟨before, rest, heq, h⟩
      obtain ⟨rfl, rfl⟩ := List.append_eq_nil_iff.mp heq.symm
      exact h
  | cons t text ih =>
    rw [matchFrom]
    constructor
    · intro h
      split_ifs at h with hhere
      · exact ⟨[], t :: text, rfl, (matchhere_iff re (t :: text)).mp hhere⟩
      · obtain ⟨before, rest, rfl, hrest⟩ := ih.mp h
        exact ⟨t :: before, rest, rfl, hrest⟩
    · rintro ⟨before, rest, heq, h⟩
      cases before with
      | nil =>
        rw [List.nil_append] at heq
        rw [heq, if_pos ((matchhere_iff re rest).mpr h)]
      | cons t' before =>
        rw [List.cons_append] at heq
        obtain ⟨rfl, rfl⟩ := List.cons.inj heq
        rw [ih.mpr ⟨before, rest, rfl, h⟩, ite_self]

/-- For every pattern and text: `match` returns 1 exactly if a part of the text is a word of the
pattern, at the beginning if the pattern starts with `^`, and at the end if it ends with an
unstarred `$`. -/
theorem match_iff (re text : List UInt8) : grepMatch re text = true ↔ if re.head? = some caret then
      ∃ w after, text = w ++ after ∧ w ∈ patternLang (reading re.tail).1 ∧
        ((reading re.tail).2 = true → after = [])
    else
      ∃ before w after, text = before ++ (w ++ after) ∧ w ∈ patternLang (reading re).1 ∧
        ((reading re).2 = true → after = []) := by
  have hfrom : ∀ re, matchFrom re text = true ↔ ∃ before w after, text = before ++ (w ++ after) ∧
      w ∈ patternLang (reading re).1 ∧ ((reading re).2 = true → after = []) := by
    intro re
    rw [matchFrom_iff]
    constructor
    · rintro ⟨before, _, rfl, w, after, rfl, h⟩
      exact ⟨before, w, after, rfl, h⟩
    · rintro ⟨before, w, after, rfl, h⟩
      exact ⟨before, w ++ after, rfl, w, after, rfl, h⟩
  cases re with
  | nil =>
    rw [if_neg nofun]
    exact hfrom []
  | cons c re =>
    by_cases hc : c = caret
    · subst hc
      rw [grepMatch, if_pos rfl, List.head?_cons, if_pos rfl]
      exact matchhere_iff re text
    · have hhead : (c :: re).head? ≠ some caret := fun h => hc (Option.some.inj h)
      rw [grepMatch, if_neg hc, if_neg hhead]
      exact hfrom (c :: re)

-- "ab*$" has a word at the end of "cabb"; in "*^" both characters are literals
example : grepMatch [97, 98, star, dollar] [99, 97, 98, 98] = true := by decide
example : grepMatch [star, caret] [99, star, caret] = true := by decide

end decides

end Grep
end Xv6
