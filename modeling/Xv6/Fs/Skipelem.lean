import Mathlib.Data.List.TakeWhile
import Xv6.Fs.Path
import Xv6.Lib.Patch

/-!
# Splitting a path (`fs.c`)

`components` says what the elements of a path are: its longest parts without a slash, except the
empty ones.  `skipelem` takes the first of them off the path.

`skipelemAt` is the same function on memory, as the source has it: three loops that move a pointer,
and a copy into the buffer for the name.  It also gives the addresses that were read.
`skipelemAt_spec` says that on a string it does what `skipelem` does on the list of its bytes, and
`elements_spec` what the calls of `namex` give one after the other.
-/

namespace Xv6
namespace Fs

open Lib Function

/-! ## The elements of a path -/

/-- The parts between slashes that are not empty. -/
def components (path : List UInt8) : List (List UInt8) := (path.splitOn slash).filter (· ≠ [])

section lists

variable {path rest elem w : List UInt8}

theorem components_append_slash (w path : List UInt8) :
    components (w ++ slash :: path) = components w ++ components path := by
  unfold components List.splitOn
  rw [List.splitOnP_append_cons (p := fun c => c == slash) w path (beq_self_eq_true slash),
    List.filter_append]

theorem components_slash (path : List UInt8) : components (slash :: path) = components path :=
  components_append_slash [] path

theorem components_word (hne : w ≠ []) (h : slash ∉ w) : components w = [w] := by
  unfold components List.splitOn
  rw [List.splitOnP_eq_singleton]
  · simp [hne]
  · intro c hc
    rw [beq_eq_false_iff_ne]
    rintro rfl
    exact h hc

theorem components_dropWhile (path : List UInt8) :
    components (path.dropWhile (· = slash)) = components path := by
  induction path with
  | nil => rfl
  | cons c path ih =>
    by_cases hc : c = slash
    · rw [List.dropWhile_cons_of_pos (by simpa using hc), ih, hc, components_slash]
    · rw [List.dropWhile_cons_of_neg (by simpa using hc)]

theorem head?_dropWhile_slash (path : List UInt8) :
    (path.dropWhile (· = slash)).head? ≠ some slash := by
  intro h
  have hfalse := List.head?_dropWhile_not (fun c : UInt8 => decide (c = slash)) path
  rw [h] at hfalse
  simp at hfalse

/-- A path that does not begin with a slash begins with its first element. -/
theorem components_element (hne : path ≠ []) (hhead : path.head? ≠ some slash) :
    components path = path.takeWhile (· ≠ slash) ::
      components ((path.dropWhile (· ≠ slash)).dropWhile (· = slash)) := by
  have hword : path.takeWhile (· ≠ slash) ≠ [] := by
    cases path with
    | nil => exact absurd rfl hne
    | cons c path =>
      have hc : c ≠ slash := fun h => hhead (by rw [h]; rfl)
      rw [List.takeWhile_cons_of_pos (by simpa using hc)]
      exact List.cons_ne_nil _ _
  have hfree : slash ∉ path.takeWhile (· ≠ slash) := by
    intro h
    simpa using List.mem_takeWhile_imp h
  have hsplit := List.takeWhile_append_dropWhile (p := fun c : UInt8 => decide (c ≠ slash)) (l := path)
  rw [components_dropWhile]
  conv_lhs => rw [← hsplit]
  -- what follows the element is nothing or a slash
  cases hrest : path.dropWhile (· ≠ slash) with
  | nil => rw [List.append_nil, components_word hword hfree]; rfl
  | cons c cs =>
    have hc := List.head?_dropWhile_not (fun c : UInt8 => decide (c ≠ slash)) path
    rw [hrest] at hc
    have hc : c = slash := by simpa using hc
    rw [hc, components_append_slash, components_word hword hfree, components_slash]
    rfl

theorem components_eq_nil_iff (hhead : path.head? ≠ some slash) :
    components path = [] ↔ path = [] := by
  constructor
  · intro h
    by_contra hne
    rw [components_element hne hhead] at h
    cases h
  · rintro rfl
    rfl

theorem skipelem_eq_none_iff : skipelem path = none ↔ components path = [] := by
  unfold skipelem
  rw [← components_dropWhile, components_eq_nil_iff (head?_dropWhile_slash path)]
  dsimp only
  split_ifs with h
  · exact iff_of_true rfl h
  · exact iff_of_false nofun h

/-- What `skipelem` takes off is the first element, cut to the length of a name. -/
theorem skipelem_some (h : skipelem path = some (elem, rest)) :
    ∃ c, components path = c :: components rest ∧ elem = c.take DIRSIZ ∧ rest.head? ≠ some slash := by
  unfold skipelem at h
  dsimp only at h
  split_ifs at h with hne
  cases h
  refine ⟨_, ?_, rfl, head?_dropWhile_slash _⟩
  rw [← components_dropWhile, components_element hne (head?_dropWhile_slash path)]

end lists

/-! ## The code -/

/-- A loop that moves a pointer over the bytes that pass a test, with the addresses read. -/
def skipWhile (mem : Nat → UInt8) (test : UInt8 → Bool) : Nat → Nat → Option (Nat × List Nat)
  | 0, _ => none
  | fuel + 1, p =>
    if test (mem p) then
      (skipWhile mem test fuel (p + 1)).map fun r => (r.1, p :: r.2)
    else
      some (p, [p])

/-- The number of bytes that are copied for an element of `len` bytes. -/
def copied (len : Nat) : Nat := if len ≥ DIRSIZ then DIRSIZ else len

/-- The buffer `name`, once an element of `len` bytes at `s` was copied to it. -/
def setName (mem : Nat → UInt8) (s len : Nat) (name : Nat → UInt8) : Nat → UInt8 :=
  if len ≥ DIRSIZ then
    patch name 0 (firsts (fun j => mem (s + j)) DIRSIZ)
  else
    update (patch name 0 (firsts (fun j => mem (s + j)) len)) len 0

/-- `skipelem`: the pointer behind the element and the buffer, or `none` for 0; with the addresses
read. -/
def skipelemAt (mem : Nat → UInt8) (fuel path : Nat) (name : Nat → UInt8) :
    Option (Option (Nat × (Nat → UInt8)) × List Nat) := do
  let (s, r1) ← skipWhile mem (fun c => c = slash) fuel path
  if mem s = 0 then
    some (none, r1 ++ [s])
  else do
    let (path, r2) ← skipWhile mem (fun c => c ≠ slash ∧ c ≠ 0) fuel s
    let len := path - s
    let r3 := (List.range (copied len)).map fun j => s + j
    let (path, r4) ← skipWhile mem (fun c => c = slash) fuel path
    some (some (path, setName mem s len name), r1 ++ [s] ++ r2 ++ r3 ++ r4)

/-- The calls of `skipelem` that `namex` makes until it gives 0: the buffers and the pointers, and
the addresses read. -/
def elements (mem : Nat → UInt8) (fuel : Nat) : Nat → Nat → (Nat → UInt8) →
    Option (List ((Nat → UInt8) × Nat) × List Nat)
  | 0, _, _ => none
  | k + 1, path, name => do
    let (r, reads) ← skipelemAt mem fuel path name
    match r with
    | none => some ([], reads)
    | some (path, name) => do
      let (calls, reads') ← elements mem fuel k path name
      some ((name, path) :: calls, reads ++ reads')

/-- The string at an address. -/
def CString (mem : Nat → UInt8) : Nat → List UInt8 → Prop
  | p, [] => mem p = 0
  | p, c :: cs => mem p = c ∧ c ≠ 0 ∧ CString mem (p + 1) cs

/-- The buffer holds an element, cut to the length of a name, with a NUL behind it exactly if it is
shorter. -/
structure HoldsName (name : Nat → UInt8) (c : List UInt8) : Prop where
  bytes : firsts name (min c.length DIRSIZ) = c.take DIRSIZ
  nul : c.length < DIRSIZ ↔ ∃ j, j < DIRSIZ ∧ j ≤ c.length ∧ name j = 0

section code

variable {mem : Nat → UInt8} {p fuel k : Nat} {cs c : List UInt8} {name : Nat → UInt8}
  {test : UInt8 → Bool}

theorem CString.ne_zero (h : CString mem p cs) : ∀ c ∈ cs, c ≠ 0 := by
  induction cs generalizing p with
  | nil => exact nofun
  | cons b cs ih =>
    intro c hc
    rcases List.mem_cons.mp hc with rfl | hc
    · exact h.2.1
    · exact ih h.2.2 c hc

theorem CString.getElem (h : CString mem p cs) {j : Nat} (hj : j < cs.length) :
    mem (p + j) = cs[j] := by
  induction cs generalizing p j with
  | nil => cases hj
  | cons b cs ih =>
    cases j with
    | zero => exact h.1
    | succ j =>
      have hrest := ih h.2.2 (j := j) (Nat.lt_of_succ_lt_succ hj)
      rw [Nat.add_right_comm] at hrest
      exact hrest

/-- The first byte is NUL exactly if the string is empty. -/
theorem CString.head (h : CString mem p cs) :
    (mem p = 0 ↔ cs = []) ∧ (mem p = slash ↔ cs.head? = some slash) := by
  cases cs with
  | nil =>
    have h0 : mem p = 0 := h
    rw [h0]
    decide
  | cons b cs => simp [h.1, h.2.1]

theorem skipWhile_eq (test : UInt8 → Bool) (fuel : Nat) (h0 : test 0 = false) (h : CString mem p cs)
    (hfuel : cs.length < fuel) :
    ∃ reads, skipWhile mem test fuel p = some (p + (cs.takeWhile test).length, reads) ∧
      CString mem (p + (cs.takeWhile test).length) (cs.dropWhile test) ∧
      ∀ a ∈ reads, p ≤ a ∧ a ≤ p + cs.length := by
  induction cs generalizing p fuel with
  | nil =>
    have hnul : mem p = 0 := h
    obtain ⟨fuel, rfl⟩ : ∃ n, fuel = n + 1 := ⟨fuel - 1, by simp only [List.length_nil] at hfuel; omega⟩
    refine ⟨[p], ?_, h, by simp⟩
    rw [skipWhile, hnul, h0]
    rfl
  | cons b cs ih =>
    obtain ⟨hb, hb0, hrest⟩ := h
    obtain ⟨fuel, rfl⟩ : ∃ n, fuel = n + 1 := ⟨fuel - 1, by omega⟩
    rw [List.length_cons] at hfuel ⊢
    rw [skipWhile, hb]
    cases htest : test b with
    | false =>
      refine ⟨[p], ?_, ?_, by simp⟩
      · rw [List.takeWhile_cons_of_neg (by simp [htest])]
        rfl
      · rw [List.takeWhile_cons_of_neg (by simp [htest]),
          List.dropWhile_cons_of_neg (by simp [htest])]
        exact ⟨hb, hb0, hrest⟩
    | true =>
      obtain ⟨reads, hrun, hstring, hin⟩ := ih fuel hrest (by omega)
      rw [List.takeWhile_cons_of_pos htest, List.dropWhile_cons_of_pos htest, List.length_cons,
        ← Nat.add_assoc, Nat.add_right_comm]
      refine ⟨p :: reads, ?_, hstring, ?_⟩
      · rw [if_pos rfl, hrun]
        rfl
      · intro a ha
        rcases List.mem_cons.mp ha with rfl | ha
        · omega
        · have := hin a ha
          omega

/-- An element at the front of a string is copied. -/
theorem holdsName_setName {elem : List UInt8}
    (hbyte : ∀ j (hj : j < elem.length), mem (p + j) = elem[j]) (hnul : ∀ b ∈ elem, b ≠ 0)
    (name : Nat → UInt8) : HoldsName (setName mem p elem.length name) elem := by
  have hcopy : ∀ n j, j < n → patch name 0 (firsts (fun j => mem (p + j)) n) j = mem (p + j) := by
    intro n j hj
    rw [patch_inside (Nat.zero_le _) (by rw [length_firsts]; omega)]
    exact getElem_firsts
  have hname : ∀ j, j < min elem.length DIRSIZ → setName mem p elem.length name j = mem (p + j) := by
    intro j hj
    unfold setName
    split_ifs with hlong
    · exact hcopy _ _ (by omega)
    · rw [update_of_ne (by omega)]
      exact hcopy _ _ (by omega)
  constructor
  · apply List.ext_getElem
    · rw [length_firsts, List.length_take, Nat.min_comm]
    · intro j hj hj'
      rw [length_firsts] at hj
      rw [getElem_firsts, List.getElem_take, hname j hj]
      exact hbyte j (by omega)
  · constructor
    · intro hshort
      refine ⟨elem.length, hshort, Nat.le_refl _, ?_⟩
      unfold setName
      rw [if_neg (Nat.not_le.mpr hshort), update_self]
    · rintro ⟨j, hj, hle, hzero⟩
      by_contra hlong
      have hjc : j < elem.length := by omega
      rw [hname j (by omega), hbyte j hjc] at hzero
      exact hnul _ (List.getElem_mem hjc) hzero

/-- In a string, only slashes end an element. -/
theorem CString.while_eq (h : CString mem p cs) :
    cs.takeWhile (fun c => c ≠ slash ∧ c ≠ 0) = cs.takeWhile (· ≠ slash) ∧
      cs.dropWhile (fun c => c ≠ slash ∧ c ≠ 0) = cs.dropWhile (· ≠ slash) := by
  induction cs generalizing p with
  | nil => exact ⟨rfl, rfl⟩
  | cons b cs ih =>
    by_cases hb : b = slash
    · simp [hb]
    · simpa [hb, h.2.1] using ih h.2.2

/-- On a string, the code does what `skipelem` does on its bytes, and reads nothing behind the
NUL. -/
theorem skipelemAt_spec (h : CString mem p cs) (hfuel : cs.length < fuel) (name : Nat → UInt8) :
    ∃ r reads, skipelemAt mem fuel p name = some (r, reads) ∧
      (∀ a ∈ reads, p ≤ a ∧ a ≤ p + cs.length) ∧
      ((r = none ∧ components cs = []) ∨
        ∃ p' name' c rest, r = some (p', name') ∧ components cs = c :: components rest ∧
          HoldsName name' c ∧ CString mem p' rest ∧ rest.head? ≠ some slash ∧ p ≤ p' ∧
          p' + rest.length = p + cs.length) := by
  obtain ⟨r1, hrun1, hs, hin1⟩ := skipWhile_eq (fun c => c = slash) fuel (by decide) h hfuel
  have hlen1 := congrArg List.length
    (List.takeWhile_append_dropWhile (p := fun c : UInt8 => decide (c = slash)) (l := cs))
  have hhead := head?_dropWhile_slash cs
  have hcs := components_dropWhile cs
  rw [List.length_append] at hlen1
  generalize cs.dropWhile (· = slash) = path at hs hlen1 hhead hcs
  generalize (cs.takeWhile fun c => decide (c = slash)).length = n at hrun1 hs hlen1
  unfold skipelemAt
  rw [hrun1]
  dsimp only [Option.bind_eq_bind, Option.bind_some]
  by_cases hend : mem (p + n) = 0
  · rw [if_pos hend]
    refine ⟨none, _, rfl, ?_, .inl ⟨rfl, ?_⟩⟩
    · intro a ha
      rcases List.mem_append.mp ha with ha | ha
      · exact hin1 a ha
      · rw [List.mem_singleton.mp ha]
        omega
    · rw [← hcs, hs.head.1.mp hend]
      rfl
  · rw [if_neg hend]
    have hne : path ≠ [] := fun hnil => hend (hs.head.1.mpr hnil)
    obtain ⟨r2, hrun2, hs2, hin2⟩ := skipWhile_eq (fun c => c ≠ slash ∧ c ≠ 0) fuel
      (by decide) hs (by omega)
    rw [hs.while_eq.1] at hrun2 hs2
    rw [hs.while_eq.2] at hs2
    have hlen2 := congrArg List.length
      (List.takeWhile_append_dropWhile (p := fun c : UInt8 => decide (c ≠ slash)) (l := path))
    rw [List.length_append] at hlen2
    obtain ⟨r3, hrun3, hs3, hin3⟩ := skipWhile_eq (fun c => c = slash) fuel
      (by decide) hs2 (by omega)
    have hlen3 := congrArg List.length (List.takeWhile_append_dropWhile
      (p := fun c : UInt8 => decide (c = slash)) (l := path.dropWhile (· ≠ slash)))
    rw [List.length_append] at hlen3
    have hparts := components_element hne hhead
    rw [hrun2]
    dsimp only [Option.bind_some]
    rw [hrun3, Nat.add_sub_cancel_left]
    refine ⟨_, _, rfl, ?_, .inr ⟨_, _, _, _, rfl, hcs.symm.trans hparts, ?_, hs3,
      head?_dropWhile_slash _, by omega, by omega⟩⟩
    · intro a ha
      simp only [List.append_assoc, List.mem_append, List.mem_singleton, List.mem_map,
        List.mem_range] at ha
      rcases ha with ha | rfl | ha | ⟨j, hj, rfl⟩ | ha
      · exact hin1 a ha
      · omega
      · have := hin2 a ha
        omega
      · have hle : j < (path.takeWhile fun c => decide (c ≠ slash)).length := by
          unfold copied at hj
          split_ifs at hj
          · omega
          · exact hj
        omega
      · have := hin3 a ha
        omega
    · apply holdsName_setName
      · intro j hj
        rw [hs.getElem (by omega)]
        exact ((List.takeWhile_prefix _).getElem hj).symm
      · intro b hb
        exact hs.ne_zero b ((List.takeWhile_prefix _).subset hb)

/-- The calls of `namex` give the elements one after the other.  The rest of the path begins with
no slash, and is empty exactly behind the last element. -/
theorem elements_spec (h : CString mem p cs) (hfuel : cs.length < fuel)
    (hk : (components cs).length < k) (name : Nat → UInt8) :
    ∃ calls reads, elements mem fuel k p name = some (calls, reads) ∧
      (∀ a ∈ reads, p ≤ a ∧ a ≤ p + cs.length) ∧
      List.Forall₂ (fun call c => HoldsName call.1 c) calls (components cs) ∧
      ∀ j (hj : j < calls.length), mem calls[j].2 ≠ slash ∧
        (mem calls[j].2 = 0 ↔ j + 1 = calls.length) := by
  induction k generalizing p cs name with
  | zero => omega
  | succ k ih =>
    obtain ⟨r, reads, hrun, hin, hcase⟩ := skipelemAt_spec h hfuel name
    rw [elements, hrun]
    rcases hcase with ⟨rfl, hnone⟩ | ⟨p', name', c, rest, rfl, hcs, hname, hs, hhead, hle, hend⟩
    · refine ⟨[], reads, rfl, hin, ?_, nofun⟩
      rw [hnone]
      exact .nil
    · rw [hcs, List.length_cons] at hk
      obtain ⟨calls, reads', hrest, hin', hnames, hpaths⟩ :=
        ih hs (by omega) (Nat.lt_of_succ_lt_succ hk) name'
      refine ⟨(name', p') :: calls, reads ++ reads', ?_, ?_, ?_, ?_⟩
      · dsimp only [Option.bind_eq_bind, Option.bind_some]
        rw [hrest]
        rfl
      · intro a ha
        rcases List.mem_append.mp ha with ha | ha
        · exact hin a ha
        · have := hin' a ha
          omega
      · rw [hcs]
        exact .cons hname hnames
      · intro j hj
        cases j with
        | zero =>
          refine ⟨fun heq => hhead (hs.head.2.mp heq), ?_⟩
          show mem p' = 0 ↔ 0 + 1 = calls.length + 1
          rw [hs.head.1, ← components_eq_nil_iff hhead, ← List.length_eq_zero_iff,
            ← hnames.length_eq]
          omega
        | succ j =>
          have hrest := hpaths j (Nat.lt_of_succ_lt_succ hj)
          rw [List.getElem_cons_succ, List.length_cons]
          refine ⟨hrest.1, hrest.2.trans ?_⟩
          omega

end code

end Fs
end Xv6
