import Xv6.Vm.Loader

/-!
# The stack that `exec` builds

The strings of the arguments are copied below `KERNBASE - 1`, each rounded down to a word, and
under them goes the frame of `main`.  The page below the stack page is not mapped, so a copy
that leaves the stack page is refused.

* `copies argv sp` are the strings with the addresses they are copied to.
* `StackImage d s argv esp` says what user code finds at `esp`.
* `Fits argv` says that strings and frame fit into the stack page.
* `execImage_pushed` is the result: every image has such a stack.  Its `esp` is a multiple of
  four if there are arguments; without any, the odd address `KERNBASE - 1` is never rounded.
-/

namespace Xv6
namespace Vm

open Lib Lib.Exec

/-- The strings in the order they are pushed from `sp` on, with their addresses. -/
def copies : List (List UInt8) → Nat → List (Nat × List UInt8)
  | [], _ => []
  | arg :: argv, sp => (pushed sp arg, arg) :: copies argv (pushed sp arg)

/-- The first address of the stack page. -/
def stackPage : Nat := KERNBASE - PGSIZE

/-- The strings and the frame of `main` fit into the stack page. -/
def Fits (argv : List (List UInt8)) : Prop :=
  stackPage + 4 * (argv.length + 4) ≤ argv.foldl pushed (KERNBASE - 1)

/-- User code finds these bytes at `a`. -/
def PageDir.Holds (d : PageDir) (s : Kmem) (a : Nat) (bs : List UInt8) : Prop :=
  ∀ i b, bs[i]? = some b → d.byte s (a + i) = b

/-- The word that user code finds at `a`. -/
def PageDir.word (d : PageDir) (s : Kmem) (a : Nat) : Nat :=
  field (firsts (fun i => d.byte s (a + i)) 4) 0 4

/-- The address of argument `i`, as `main` finds it. -/
def PageDir.argAt (d : PageDir) (s : Kmem) (esp i : Nat) : Nat := d.word s (esp + 12 + 4 * i)

/-- The stack as `main` expects it: a return address, `argc`, `argv`, then the vector with its
null pointer, and the strings it points to. -/
structure StackImage (d : PageDir) (s : Kmem) (argv : List (List UInt8)) (esp : Nat) : Prop where
  mapped : Accessible d (stackPage / PGSIZE)
  inside : stackPage ≤ esp
  ret : d.word s esp = 0xffffffff
  argc : d.word s (esp + 4) = argv.length
  vector : d.word s (esp + 8) = esp + 12
  strings : ∀ i arg, argv[i]? = some arg → d.Holds s (d.argAt s esp i) (arg ++ [0])
  null : d.word s (esp + 12 + 4 * argv.length) = 0
  /-- The strings lie above the words, inside the stack page. -/
  above : ∀ i arg, argv[i]? = some arg → esp + 12 + 4 * (argv.length + 1) ≤ d.argAt s esp i ∧
    d.argAt s esp i + (arg.length + 1) ≤ KERNBASE
  /-- No two of them overlap. -/
  disjoint : ∀ i j arg arg', i ≠ j → argv[i]? = some arg → argv[j]? = some arg' →
    d.argAt s esp i + (arg.length + 1) ≤ d.argAt s esp j ∨
      d.argAt s esp j + (arg'.length + 1) ≤ d.argAt s esp i

variable {M : Machine} {d : PageDir} {s s' : Kmem} {va x : Nat} {buf : List UInt8}

/-! ### Copies to the stack page -/

/-- A copy that succeeds finds every page it comes to, also where the address wraps around. -/
theorem copyoutLoop_accessible : ∀ {fuel va : Nat} {buf : List UInt8} {s : Kmem}, va < 2 ^ 32 →
    copyoutLoop d fuel va buf s = .ok (true, s') →
    ∀ i, i < buf.length → Accessible d ((va + i) % 2 ^ 32 / PGSIZE) := by
  intro fuel
  induction fuel with
  | zero =>
    intro va buf s hva h i hi
    cases buf with
    | nil => exact absurd hi (Nat.not_lt_zero _)
    | cons b bs => cases h
  | succ fuel ih =>
    intro va buf s hva h i hi
    cases buf with
    | nil => exact absurd hi (Nat.not_lt_zero _)
    | cons b bs =>
      have hu : va / PGSIZE < 2 ^ 20 := by
        unfold PGSIZE
        omega
      have hdown : PGROUNDDOWN va = va / PGSIZE * PGSIZE := by
        unfold PGROUNDDOWN PGSIZE
        omega
      rw [copyoutLoop] at h
      dsimp only at h
      obtain ⟨q, t, huva, hrest⟩ := bind_eq_ok.mp h
      rw [hdown, uva2ka_page hu] at huva
      by_cases htable : (d.pde (va / PGSIZE / 1024)).isSome = true
      · rw [if_pos htable] at huva
        by_cases hacc : Accessible d (va / PGSIZE) ∧ ¬Null d (va / PGSIZE)
        · rw [if_pos hacc] at huva
          cases huva
          dsimp only at hrest
          by_cases hram : PHYSTOP / PGSIZE ≤ (d.ent (va / PGSIZE)).ppn
          · rw [if_pos hram] at hrest
            cases hrest
          · rw [if_neg hram] at hrest
            obtain ⟨_, t', -, hloop⟩ := bind_eq_ok.mp hrest
            generalize hn : min (PGSIZE - (va - PGROUNDDOWN va)) (b :: bs).length = n at hloop
            have hnext : (PGROUNDDOWN va + PGSIZE) % 2 ^ 32 < 2 ^ 32 := Nat.mod_lt _ (by decide)
            rcases Nat.lt_or_ge i n with hin | hout
            · -- a byte of this turn
              have hsame : (va + i) % 2 ^ 32 / PGSIZE = va / PGSIZE := by
                rw [hdown] at hn
                unfold PGSIZE at *
                omega
              rw [hsame]
              exact hacc.1
            · have hlater := ih hnext hloop (i - n) (by rw [List.length_drop]; omega)
              have haddr : ((PGROUNDDOWN va + PGSIZE) % 2 ^ 32 + (i - n)) % 2 ^ 32 =
                  (va + i) % 2 ^ 32 := by
                rw [hdown] at hn ⊢
                unfold PGSIZE at *
                omega
              rw [haddr] at hlater
              exact hlater
        · rw [if_neg hacc] at huva
          cases huva
          cases hrest
      · rw [if_neg htable] at huva
        cases huva

/-- Bytes that end just below `sp` and miss the page below the stack page are in the stack page. -/
theorem inside_stackPage {sp len r : Nat} (hva : va < 2 ^ 32) (hlo : stackPage ≤ sp)
    (hhi : sp < KERNBASE) (hpos : 0 < len) (hr : r < 4) (hend : (va + len + r) % 2 ^ 32 = sp)
    (hmiss : ∀ i, i < len → (va + i) % 2 ^ 32 / PGSIZE ≠ 0x7fffe) :
    stackPage ≤ va ∧ va + len + r = sp := by
  unfold stackPage KERNBASE PGSIZE at *
  by_cases hshort : len + r ≤ sp - (0x80000000 - 4096)
  · omega
  · exfalso
    -- the last byte, or the one just below the stack page
    by_cases hnear : sp - (0x80000000 - 4096) < r
    · exact hmiss (len - 1) (by omega) (by omega)
    · exact hmiss (len + r - (sp - (0x80000000 - 4096)) - 1) (by omega) (by omega)

theorem div_stackPage (hlo : stackPage ≤ x) (hhi : x < KERNBASE) :
    x / PGSIZE = stackPage / PGSIZE := by
  unfold stackPage KERNBASE PGSIZE at *
  omega

/-- A copy inside the stack page sets its bytes and leaves the others of the page. -/
theorem copyout_page (hlo : stackPage ≤ va) (hhi : va + buf.length ≤ KERNBASE)
    (hp : (d.ent (stackPage / PGSIZE)).present = true) (h : copyout d va buf s = .ok (true, s'))
    (hx : stackPage ≤ x) (hxk : x < KERNBASE) :
    d.byte s' x = if va ≤ x then buf[x - va]?.getD (d.byte s x) else d.byte s x := by
  have hpx : (d.ent (x / PGSIZE)).present = true := by
    rw [div_stackPage hx hxk]
    exact hp
  have hphys : ∀ i, i < buf.length → (phys d (va + i) = phys d x ↔ va + i = x) := by
    intro i hi
    unfold phys
    constructor
    · intro heq
      have hoff : (va + i) % PGSIZE = x % PGSIZE := congrArg Prod.snd heq
      unfold stackPage KERNBASE PGSIZE at *
      omega
    · intro heq
      rw [heq]
  have hcopies := copyout_copies (d := d) (s := s) hhi
  rw [h] at hcopies
  cases hcopies with
  | all hall hfree hbytes hother =>
    rw [byte_of_present hpx, byte_of_present hpx]
    by_cases hin : va ≤ x ∧ x < va + buf.length
    · have hidx : va + (x - va) = x := by omega
      obtain ⟨i, b, hb, hi, hmem⟩ := hbytes (phys d x).1 (phys d x).2
        ⟨x - va, by omega, (hphys _ (by omega)).mpr hidx⟩
      have hlen : i < buf.length := (List.getElem?_eq_some_iff.mp hb).1
      have hxi := (hphys i hlen).mp hi
      rw [if_pos hin.1, show x - va = i by omega, hb, Option.getD_some]
      exact hmem
    · have hsame : s'.mem (phys d x).1 (phys d x).2 = s.mem (phys d x).1 (phys d x).2 := by
        apply hother
        intro i hi heq
        have hxi := (hphys i hi).mp heq
        omega
      split
      · rw [List.getElem?_eq_none (by omega), Option.getD_none]
        exact hsame
      · exact hsame

theorem PageDir.Holds.of_copyout (hlo : stackPage ≤ va) (hhi : va + buf.length ≤ KERNBASE)
    (hp : (d.ent (stackPage / PGSIZE)).present = true) (h : copyout d va buf s = .ok (true, s')) :
    d.Holds s' va buf := by
  intro i b hb
  have hi : i < buf.length := (List.getElem?_eq_some_iff.mp hb).1
  rw [copyout_page hlo hhi hp h (by omega) (by omega), if_pos (Nat.le_add_right va i),
    Nat.add_sub_cancel_left, hb, Option.getD_some]

/-- Bytes that are left alone still hold what they held. -/
theorem PageDir.Holds.congr {a : Nat} {bs : List UInt8} (h : d.Holds s a bs)
    (hsame : ∀ x, a ≤ x → x < a + bs.length → d.byte s' x = d.byte s x) : d.Holds s' a bs := by
  intro i b hb
  have hi : i < bs.length := (List.getElem?_eq_some_iff.mp hb).1
  rw [hsame _ (Nat.le_add_right a i) (by omega)]
  exact h i b hb

/-! ### Words -/

theorem field_wordBytes {w : Nat} (hw : w < 2 ^ 32) : field (wordBytes w) 0 4 = w := by
  simp only [field, wordBytes, List.getD_cons_zero, List.getD_cons_succ, UInt8.toNat_ofNat']
  omega

theorem PageDir.Holds.word {a w : Nat} (hw : w < 2 ^ 32) (h : d.Holds s a (wordBytes w)) :
    d.word s a = w := by
  have hbytes : firsts (fun i => d.byte s (a + i)) 4 = wordBytes w := by
    apply List.ext_getElem
    · rw [length_firsts]
      rfl
    · intro i hi hi'
      rw [getElem_firsts]
      exact h i _ (List.getElem?_eq_getElem hi')
  rw [PageDir.word, hbytes, field_wordBytes hw]

/-- The words of a frame, one after the other. -/
theorem PageDir.Holds.words {ws : List Nat} {i w : Nat} (hw : w < 2 ^ 32) (hi : ws[i]? = some w) :
    ∀ {a : Nat}, d.Holds s a (ws.flatMap wordBytes) → d.word s (a + 4 * i) = w := by
  induction ws generalizing i with
  | nil => cases hi
  | cons v ws ih =>
    intro a h
    rw [List.flatMap_cons] at h
    have hlen : (wordBytes v).length = 4 := rfl
    cases i with
    | zero =>
      cases hi
      apply PageDir.Holds.word hw
      intro j b hb
      apply h j b
      rw [List.getElem?_append_left (List.getElem?_eq_some_iff.mp hb).1]
      exact hb
    | succ i =>
      rw [List.getElem?_cons_succ] at hi
      rw [show a + 4 * (i + 1) = a + 4 + 4 * i by omega]
      apply ih hi
      intro j b hb
      rw [show a + 4 + j = a + (4 + j) by omega]
      apply h (4 + j) b
      rw [List.getElem?_append_right (by rw [hlen]; omega), hlen, Nat.add_sub_cancel_left]
      exact hb

/-! ### The arguments -/

section pushRest

variable {argv : List (List UInt8)} {arg : List UInt8} {sp esp : Nat} {ustack : List Nat}

/-- What pushing the arguments `argv` from `sp` on leaves in memory, those of `ustack` being
there already. -/
structure Pushed (d : PageDir) (argv : List (List UInt8)) (sp : Nat) (ustack : List Nat)
    (esp : Nat) (s s' : Kmem) : Prop where
  mapped : Accessible d (stackPage / PGSIZE)
  low : stackPage ≤ esp
  room : esp + 4 * (ustack.length + argv.length + 4) = argv.foldl pushed sp
  down : argv.foldl pushed sp ≤ sp
  kept : ∀ x, sp ≤ x → x < KERNBASE → d.byte s' x = d.byte s x
  frame : d.Holds s' esp
    (frame (argv.foldl pushed sp) (ustack ++ (copies argv sp).map Prod.fst))
  strings : ∀ p ∈ copies argv sp, argv.foldl pushed sp ≤ p.1 ∧ p.1 + (p.2.length + 1) ≤ sp ∧
    d.Holds s' p.1 (p.2 ++ [0])
  ordered : (copies argv sp).Pairwise fun p q => q.1 + (q.2.length + 1) ≤ p.1
  aligned : argv ≠ [] → argv.foldl pushed sp % 4 = 0

/-- A successful copy that ends just below `sp` stays in the stack page. -/
theorem copyout_inside {r : Nat} (hbelow : ¬Accessible d 0x7fffe) (hlo : stackPage ≤ sp)
    (hhi : sp < KERNBASE) (hva : va < 2 ^ 32) (hpos : 0 < buf.length) (hr : r < 4)
    (hend : (va + buf.length + r) % 2 ^ 32 = sp) (h : copyout d va buf s = .ok (true, s')) :
    stackPage ≤ va ∧ va + buf.length + r = sp ∧ Accessible d (stackPage / PGSIZE) := by
  have hacc := copyoutLoop_accessible hva h
  obtain ⟨hstart, hstop⟩ := inside_stackPage hva hlo hhi hpos hr hend fun i hi hpage => by
    rw [← hpage] at hbelow
    exact hbelow (hacc i hi)
  refine ⟨hstart, hstop, ?_⟩
  have hfirst := hacc 0 hpos
  rw [Nat.add_zero, Nat.mod_eq_of_lt hva, div_stackPage hstart (by omega)] at hfirst
  exact hfirst

theorem pushed_lt : pushed sp arg < 2 ^ 32 := by
  unfold pushed toUint
  omega

/-- Rounding leaves fewer than four bytes unused. -/
theorem pushed_end (hsp : sp < KERNBASE) :
    ∃ r, r < 4 ∧ (pushed sp arg + (arg.length + 1) + r) % 2 ^ 32 = sp := by
  unfold pushed toUint
  unfold KERNBASE at hsp
  exact ⟨(((sp : Int) - (arg.length + 1)) % 2 ^ 32).toNat % 4, by omega, by omega⟩

/-- The frame of `main` goes below the last string. -/
theorem Pushed.nil (hp : (d.ent (stackPage / PGSIZE)).present = true)
    (hbelow : ¬Accessible d 0x7fffe) (hlo : stackPage ≤ sp) (hhi : sp < KERNBASE)
    (h : pushRest d [] sp ustack s = .ok (some esp, s')) : Pushed d [] sp ustack esp s s' := by
  rw [pushRest_nil] at h
  obtain ⟨b, t, hcopy, hret⟩ := bind_eq_ok.mp h
  cases b with
  | false => cases hret
  | true =>
    cases hret
    generalize hesp : toUint ((sp : Int) - (3 + (ustack.length : Int) + 1) * 4) = esp at hcopy ⊢
    have hlen := frame_length sp ustack
    obtain ⟨hstart, hstop, hmapped⟩ := copyout_inside (r := 0) hbelow hlo hhi
      (by unfold toUint at hesp; omega) (by omega) (by decide)
      (by rw [hlen, ← hesp]; unfold toUint; unfold KERNBASE at hhi; omega) hcopy
    have hfit : esp + (Vm.frame sp ustack).length ≤ KERNBASE := by omega
    constructor
    · exact hmapped
    · exact hstart
    · show esp + 4 * (ustack.length + 0 + 4) = sp
      omega
    · exact Nat.le_refl _
    · intro x hx hxk
      rw [copyout_page hstart hfit hp hcopy (by omega) hxk, if_pos (by omega),
        List.getElem?_eq_none (by omega), Option.getD_none]
    · show d.Holds s' esp (Vm.frame sp (ustack ++ []))
      rw [List.append_nil]
      exact PageDir.Holds.of_copyout hstart hfit hp hcopy
    · intro p hmem
      exact absurd hmem List.not_mem_nil
    · exact List.Pairwise.nil
    · exact fun hne => absurd rfl hne

/-- Every string goes below the one before it, and stays as it is. -/
theorem Pushed.of_pushRest (hp : (d.ent (stackPage / PGSIZE)).present = true)
    (hbelow : ¬Accessible d 0x7fffe) :
    ∀ {argv : List (List UInt8)} {sp : Nat} {ustack : List Nat} {s : Kmem}, stackPage ≤ sp →
      sp < KERNBASE → pushRest d argv sp ustack s = .ok (some esp, s') →
      Pushed d argv sp ustack esp s s' := by
  -- by induction on the arguments left; what is at `sp` and above is settled
  intro argv
  induction argv with
  | nil =>
    intro sp ustack s hlo hhi h
    exact Pushed.nil hp hbelow hlo hhi h
  | cons arg argv ih =>
    intro sp ustack s hlo hhi h
    rcases Nat.lt_or_ge ustack.length MAXARG with hmax | hmax
    swap
    · rw [pushRest_full hmax] at h
      cases h
    rw [pushRest_cons hmax] at h
    obtain ⟨b, t, hcopy, hrest⟩ := bind_eq_ok.mp h
    cases b with
    | false => cases hrest
    | true =>
      have hlen : (arg ++ [(0 : UInt8)]).length = arg.length + 1 := List.length_append
      obtain ⟨r, hr, hend⟩ := @pushed_end arg sp hhi
      rw [← hlen] at hend
      obtain ⟨hstart, hstop, hmapped⟩ := copyout_inside hbelow hlo hhi pushed_lt (by omega) hr
        hend hcopy
      have hfit : pushed sp arg + (arg ++ [(0 : UInt8)]).length ≤ KERNBASE := by omega
      have hdown : pushed sp arg + (arg.length + 1) ≤ sp := by omega
      have hrec := ih hstart (by omega) hrest
      have hroom := hrec.room
      rw [List.length_append, List.length_singleton] at hroom
      constructor
      · exact hmapped
      · exact hrec.low
      · rw [List.length_cons, List.foldl_cons]
        omega
      · exact hrec.down.trans (by omega)
      · intro x hx hxk
        rw [hrec.kept x (by omega) hxk, copyout_page hstart hfit hp hcopy (by omega) hxk,
          if_pos (by omega), List.getElem?_eq_none (by omega), Option.getD_none]
      · have hframe := hrec.frame
        rw [List.append_assoc] at hframe
        exact hframe
      · intro p hmem
        rw [copies, List.mem_cons] at hmem
        rcases hmem with rfl | hmem
        · refine ⟨hrec.down, hdown, ?_⟩
          apply (PageDir.Holds.of_copyout hstart hfit hp hcopy).congr
          intro x hx hxk
          exact hrec.kept x hx (by omega)
        · obtain ⟨hlow, hhigh, hholds⟩ := hrec.strings p hmem
          exact ⟨hlow, by omega, hholds⟩
      · rw [copies, List.pairwise_cons]
        exact ⟨fun q hq => (hrec.strings q hq).2.1, hrec.ordered⟩
      · intro _
        rw [List.foldl_cons]
        cases argv with
        | nil =>
          show pushed sp arg % 4 = 0
          unfold pushed
          omega
        | cons arg' argv' => exact hrec.aligned (List.cons_ne_nil _ _)

theorem copies_length (argv : List (List UInt8)) (sp : Nat) :
    (copies argv sp).length = argv.length := by
  induction argv generalizing sp with
  | nil => rfl
  | cons arg argv ih => rw [copies, List.length_cons, List.length_cons, ih]

/-- Every argument has its copy. -/
theorem copies_of_arg (sp : Nat) {i : Nat} (h : argv[i]? = some arg) :
    ∃ a, (copies argv sp)[i]? = some (a, arg) := by
  induction argv generalizing sp i with
  | nil => cases h
  | cons first argv ih =>
    cases i with
    | zero =>
      cases h
      exact ⟨_, rfl⟩
    | succ i => exact ih _ h

/-- The stack pointer is rounded where there is an argument. -/
theorem Pushed.aligned_iff (h : Pushed d argv (KERNBASE - 1) [] esp s s') :
    esp % 4 = 0 ↔ argv ≠ [] := by
  have hroom := h.room
  rw [List.length_nil] at hroom
  constructor
  · rintro halign rfl
    rw [List.length_nil, List.foldl_nil, KERNBASE] at hroom
    omega
  · intro hne
    have haligned := h.aligned hne
    omega

theorem Pushed.fits (h : Pushed d argv (KERNBASE - 1) [] esp s s') : Fits argv := by
  have hroom := h.room
  have hlow := h.low
  rw [List.length_nil] at hroom
  unfold Fits
  omega

/-- What user code finds does not depend on the rest of the memory. -/
theorem Pushed.after {t : Kmem} (h : Pushed d argv sp ustack esp s s') (hsp : sp < KERNBASE)
    (hsame : ∀ x, x < KERNBASE → d.byte t x = d.byte s' x) : Pushed d argv sp ustack esp s t where
  mapped := h.mapped
  low := h.low
  room := h.room
  down := h.down
  kept x hx hxk := (hsame x hxk).trans (h.kept x hx hxk)
  frame := h.frame.congr fun x _ hx => by
    have hroom := h.room
    have hdown := h.down
    rw [frame_length, List.length_append, List.length_map, copies_length] at hx
    exact hsame x (by omega)
  strings p hp := by
    obtain ⟨hlow, hhigh, hholds⟩ := h.strings p hp
    refine ⟨hlow, hhigh, hholds.congr fun x _ hx => hsame x ?_⟩
    rw [List.length_append, List.length_singleton] at hx
    omega
  ordered := h.ordered
  aligned := h.aligned

/-- The words of the frame. -/
theorem Pushed.word {i w : Nat} (h : Pushed d argv (KERNBASE - 1) [] esp s s') (hw : w < 2 ^ 32)
    (hi : ([0xffffffff, argv.length, esp + 12] ++ (copies argv (KERNBASE - 1)).map Prod.fst ++
      [0])[i]? = some w) : d.word s' (esp + 4 * i) = w := by
  have hroom := h.room
  have hlt : argv.foldl pushed (KERNBASE - 1) < 2 ^ 32 := h.down.trans_lt (by decide)
  rw [List.length_nil] at hroom
  apply PageDir.Holds.words hw hi
  have hframe := h.frame
  have hlen : ((copies argv (KERNBASE - 1)).map Prod.fst).length = argv.length := by
    rw [List.length_map, copies_length]
  have hvector : toUint (((argv.foldl pushed (KERNBASE - 1) : Nat) : Int) -
      (argv.length + 1) * 4) = esp + 12 := by
    rw [toUint_of_nonneg (by omega) (by omega)]
    omega
  rw [List.nil_append, Vm.frame, hlen, hvector] at hframe
  exact hframe

/-- Where `main` finds the argument. -/
theorem Pushed.argAt (h : Pushed d argv (KERNBASE - 1) [] esp s s') {i a : Nat}
    (hi : (copies argv (KERNBASE - 1))[i]? = some (a, arg)) : d.argAt s' esp i = a := by
  have hbound := h.strings (a, arg) (List.mem_of_getElem? hi)
  have hlt : i < (copies argv (KERNBASE - 1)).length := (List.getElem?_eq_some_iff.mp hi).1
  have hget : ((copies argv (KERNBASE - 1)).map Prod.fst)[i]? = some a := by
    rw [List.getElem?_map, hi]
    rfl
  dsimp only at hbound
  rw [PageDir.argAt, show esp + 12 + 4 * i = esp + 4 * (i + 3) by omega]
  apply h.word
  · unfold KERNBASE at hbound
    omega
  · rw [List.getElem?_append_left, List.getElem?_append_right]
    · exact hget
    · exact Nat.le_add_left _ _
    · rw [List.length_append, List.length_map]
      show i + 3 < 3 + _
      omega

theorem Pushed.stackImage (h : Pushed d argv (KERNBASE - 1) [] esp s s') :
    StackImage d s' argv esp := by
  have hroom := h.room
  have hlt : argv.foldl pushed (KERNBASE - 1) < 2 ^ 32 := h.down.trans_lt (by decide)
  rw [List.length_nil] at hroom
  constructor
  · exact h.mapped
  · exact h.low
  · exact h.word (i := 0) (by decide) rfl
  · exact h.word (i := 1) (by omega) rfl
  · exact h.word (i := 2) (by omega) rfl
  · intro i arg hi
    obtain ⟨a, hcopy⟩ := copies_of_arg (KERNBASE - 1) hi
    rw [h.argAt hcopy]
    exact (h.strings _ (List.mem_of_getElem? hcopy)).2.2
  · rw [show esp + 12 + 4 * argv.length = esp + 4 * (argv.length + 3) by omega]
    apply h.word (by decide)
    rw [List.getElem?_append_right]
    · rw [List.length_append, List.length_map, copies_length]
      show [0][argv.length + 3 - (3 + argv.length)]? = some 0
      rw [show argv.length + 3 - (3 + argv.length) = 0 by omega]
      rfl
    · rw [List.length_append, List.length_map, copies_length]
      show 3 + argv.length ≤ argv.length + 3
      omega
  · intro i arg hi
    obtain ⟨a, hcopy⟩ := copies_of_arg (KERNBASE - 1) hi
    obtain ⟨hlow, hhigh, -⟩ := h.strings _ (List.mem_of_getElem? hcopy)
    rw [h.argAt hcopy]
    dsimp only at hlow hhigh
    exact ⟨by omega, by omega⟩
  · intro i j arg arg' hne hi hj
    obtain ⟨a, hcopy⟩ := copies_of_arg (KERNBASE - 1) hi
    obtain ⟨a', hcopy'⟩ := copies_of_arg (KERNBASE - 1) hj
    rw [h.argAt hcopy, h.argAt hcopy']
    obtain ⟨hlt, hget⟩ := List.getElem?_eq_some_iff.mp hcopy
    obtain ⟨hlt', hget'⟩ := List.getElem?_eq_some_iff.mp hcopy'
    have hordered := List.pairwise_iff_getElem.mp h.ordered
    rcases Nat.lt_or_gt_of_ne hne with hij | hji
    · right
      have hbelow := hordered i j hlt hlt' hij
      rw [hget, hget'] at hbelow
      exact hbelow
    · left
      have hbelow := hordered j i hlt' hlt hji
      rw [hget, hget'] at hbelow
      exact hbelow

end pushRest

/-! ### The image -/

section image

variable {argv : List (List UInt8)} {entry : Nat} {readi : Nat → Nat → List UInt8} {im : Image}

/-- With the page below the stack not mapped, the stack part of `exec` builds the stack. -/
theorem execStack_pushed (habs : (d.ent 0x7fffe).present = false)
    (h : execStack M d entry argv s = .ok (some im, s')) :
    ∃ t, Pushed im.pgdir argv (KERNBASE - 1) [] im.sp t s' := by
  obtain ⟨r, t, halloc, hr, hpush⟩ := execStack_some h
  obtain ⟨-, -, hnew, -, hcover, hout⟩ := (allocuvm_ok (by decide) halloc).2.2 hr
  have hp : (im.pgdir.ent (stackPage / PGSIZE)).present = true := by
    apply hcover
    · decide
    · exact Nat.lt_of_lt_of_le (by decide) hnew
  have hbelow : ¬Accessible im.pgdir 0x7fffe := by
    rintro ⟨hpresent, -⟩
    rw [hout 0x7fffe (by decide) (.inl (by decide)), habs] at hpresent
    cases hpresent
  rw [pushStack_eq_pushRest] at hpush
  exact ⟨t, Pushed.of_pushRest hp hbelow (by decide) (by decide) hpush⟩

theorem execImage_pushed (hpool : Pool M s nothing)
    (h : execImage M readi argv s = .ok (some im, s')) :
    ∃ t, Pushed im.pgdir argv (KERNBASE - 1) [] im.sp t s' := by
  obtain ⟨_, d, t, d1, sz, t1, -, he, hpool1, hsegs, hpool2, hstack⟩ := execImage_some hpool h
  have hfilled := ((filled_zero he).segments hpool1 hsegs).1
  exact execStack_pushed (hfilled.high_absent hpool2 (by decide) (by decide)) hstack

end image

end Vm
end Xv6
