import Xv6.Bcache.Model
import Xv6.Lib.Tally
import Mathlib.Algebra.BigOperators.Group.Finset.Piecewise

/-!
# The structure of the buffer cache

`Did` says what each step does.  `Sound` is what all steps keep: the list holds every
buffer once, no two buffers are for the same block, and the count of a buffer is the number
of times that processes got it and have not let it go.
-/

namespace Xv6
namespace Bcache

open Lib Function

/-! ## Steps -/

/-- What a request to the disk leaves alone. -/
structure Buf.Same (x y : Buf) : Prop where
  dev : x.dev = y.dev
  blockno : x.blockno = y.blockno
  refcnt : x.refcnt = y.refcnt
  lock : x.lock = y.lock

/-- A request changes the data and the flags only. -/
theorem iderw_same {disksize : Nat} {x y : Buf} {disk disk' : Nat → Block}
    (h : iderw disksize x disk = .ok (y, disk')) : y.Same x := by
  unfold iderw at h
  split_ifs at h
  · cases h
    exact ⟨rfl, rfl, rfl, rfl⟩
  · cases h
    exact ⟨rfl, rfl, rfl, rfl⟩

/-- What a step of the cache did. -/
inductive Did (cfg : Config) (s : State) : Label → State → Prop
  /-- `bget` found the block. -/
  | hit {p dev blockno b : Nat} (hio : s.io p = .run) (hb : s.cache.cached dev blockno = some b) :
      Did cfg s (.bread p dev blockno)
        ((s.setBuf b { s.buf b with refcnt := (s.buf b).refcnt + 1 }).setIo p (.waiting b))
  /-- `bget` took an unused buffer. -/
  | miss {p dev blockno b : Nat} (hio : s.io p = .run) (hno : s.cache.cached dev blockno = none)
      (hb : s.cache.unused = some b) :
      Did cfg s (.bread p dev blockno)
        ((s.setBuf b { s.buf b with
          dev := dev, blockno := blockno, valid := false, dirty := false, refcnt := 1 }).setIo p
            (.waiting b))
  | lock {p b : Nat} (hio : s.io p = .waiting b) (hfree : (s.buf b).lock = none) :
      Did cfg s (.lock p)
        (((s.setBuf b { s.buf b with lock := some p }).setHeld p (b :: s.held p)).setIo p (.got b))
  /-- `bread` returned what is in the buffer. -/
  | warm {p b : Nat} (hio : s.io p = .got b) (hvalid : (s.buf b).valid = true) :
      Did cfg s (.fill p) (s.setIo p .run)
  /-- `bread` read the block from the disk. -/
  | cold {p b : Nat} {x : Buf} {disk : Nat → Block} (hio : s.io p = .got b)
      (hvalid : (s.buf b).valid = false)
      (hx : iderw cfg.disksize (s.buf b) s.disk = .ok (x, disk)) :
      Did cfg s (.fill p) ({ s.setBuf b x with disk := disk }.setIo p .run)
  | modify {p b : Nat} {data : Block} (hio : s.io p = .run) :
      Did cfg s (.modify p b data) (s.setBuf b { s.buf b with data := data })
  | bwrite {p b : Nat} {x : Buf} {disk : Nat → Block} (hio : s.io p = .run)
      (hx : iderw cfg.disksize { s.buf b with dirty := true } s.disk = .ok (x, disk)) :
      Did cfg s (.bwrite p b) { s.setBuf b x with disk := disk }
  | logWrite {p b : Nat} (hio : s.io p = .run) :
      Did cfg s (.logWrite p b) (s.setBuf b { s.buf b with dirty := true })
  | brelse {p b : Nat} (hio : s.io p = .run) :
      Did cfg s (.brelse p b)
        (((s.setBuf b { s.buf b with lock := none }).setHeld p ((s.held p).erase b)).setIo p
          (.releasing b))
  | unref {p b : Nat} (hio : s.io p = .releasing b) :
      Did cfg s (.unref p) ({ s with cache := unref s.cache b }.setIo p .run)

section

variable {cfg : Config} {s s' : State} {l : Label}

theorem callIderw_ok {b : Nat} (h : callIderw cfg s b = .ok s') :
    ∃ x disk, iderw cfg.disksize (s.buf b) s.disk = .ok (x, disk) ∧
      s' = { s.setBuf b x with disk := disk } := by
  unfold callIderw at h
  split at h
  · cases h
  · next x disk hx =>
      cases h
      exact ⟨x, disk, hx, rfl⟩

theorem client_did (hio : s.io l.proc = .run) (h : client cfg s l = .ok s') : Did cfg s l s' := by
  cases l with
  | bread p dev blockno =>
    simp only [client, bget] at h
    cases hc : s.cache.cached dev blockno with
    | some b =>
      rw [hc] at h
      cases h
      exact .hit hio hc
    | none =>
      cases hu : s.cache.unused with
      | some b =>
        rw [hc, hu] at h
        cases h
        exact .miss hio hc hu
      | none =>
        rw [hc, hu] at h
        cases h
  | modify p b data =>
    cases h
    exact .modify hio
  | bwrite p b =>
    simp only [client] at h
    split_ifs at h
    obtain ⟨x, disk, hx, rfl⟩ := callIderw_ok h
    have hbuf : (s.setBuf b { s.buf b with dirty := true }).buf b =
        { s.buf b with dirty := true } := update_self ..
    rw [hbuf] at hx
    have hdid := Did.bwrite (p := p) hio hx
    simpa only [State.setBuf, Cache.setBuf, update_idem] using hdid
  | logWrite p b =>
    cases h
    exact .logWrite hio
  | brelse p b =>
    simp only [client] at h
    split_ifs at h
    cases h
    exact .brelse hio
  | lock p => cases h
  | fill p => cases h
  | unref p => cases h

theorem inside_did {x : Io} (hio : s.io l.proc = x) (h : inside cfg s l x = .ok s') :
    Did cfg s l s' := by
  cases x with
  | run => cases h
  | waiting b =>
    cases l with
    | lock p =>
      simp only [inside] at h
      split_ifs at h with hfree
      cases h
      exact .lock hio hfree
    | _ => cases h
  | got b =>
    cases l with
    | fill p =>
      simp only [inside] at h
      split_ifs at h with hvalid
      · split at h
        · cases h
        · next s1 hs1 =>
            obtain ⟨x, disk, hx, rfl⟩ := callIderw_ok hs1
            cases h
            exact .cold hio hvalid hx
      · cases h
        exact .warm hio (Bool.of_not_eq_false hvalid)
    | _ => cases h
  | releasing b =>
    cases l with
    | unref p =>
      cases h
      exact .unref hio
    | _ => cases h

theorem step_did (h : step cfg l s = .ok s') : l.proc < cfg.procs ∧ Did cfg s l s' := by
  unfold step at h
  split_ifs at h with hp
  refine ⟨hp, ?_⟩
  split at h
  · next hio => exact client_did hio h
  · exact inside_did rfl h

end

/-! ## The invariant -/

/-- How often a process has got the buffer in a call that has not returned. -/
def Io.claims : Io → Nat → Nat
  | .waiting b, b' | .releasing b, b' => if b = b' then 1 else 0
  | _, _ => 0

namespace State

/-- How often process `p` has got buffer `b` from `bget` and has not let it go. -/
def gets (s : State) (p b : Nat) : Nat := (s.held p).count b + (s.io p).claims b

end State

/-- What all steps keep. -/
structure Sound (cfg : Config) (s : State) : Prop where
  order : ∃ xs, Links.Circular s.cache.links head xs ∧ ∀ b, b ∈ xs ↔ b < NBUF
  unique : ∀ b < NBUF, ∀ b' < NBUF, (s.buf b).dev ≠ 0 → (s.buf b).dev = (s.buf b').dev →
    (s.buf b).blockno = (s.buf b').blockno → b = b'
  refs : ∀ b, (s.buf b).refcnt = ∑ p ∈ Finset.range cfg.procs, s.gets p b
  bound : ∀ p b, s.gets p b ≠ 0 → b < NBUF
  locks : ∀ p b, b ∈ s.held p ↔ (s.buf b).lock = some p
  once : ∀ p, (s.held p).Nodup
  got : ∀ p b, s.io p = .got b → b ∈ s.held p
  member : ∀ p b, s.gets p b ≠ 0 → p < cfg.procs

/-- A list of all buffers is no longer than the loops of `bget` can go. -/
theorem length_lt_of_order {xs : List Nat} (hnodup : xs.Nodup) (hxs : ∀ b, b ∈ xs ↔ b < NBUF) :
    xs.length < NBUF + 1 := by
  have hsub : xs ⊆ List.range NBUF := fun b hb => List.mem_range.mpr ((hxs b).mp hb)
  have hle := (hnodup.subperm hsub).length_le
  rw [List.length_range] at hle
  omega

@[simp] theorem State.buf_setBuf_self (s : State) (b : Nat) (x : Buf) : (s.setBuf b x).buf b = x :=
  update_self ..

theorem State.buf_setBuf_of_ne (s : State) {b b' : Nat} (x : Buf) (h : b' ≠ b) :
    (s.setBuf b x).buf b' = s.buf b' :=
  update_of_ne h ..

/-- What the new buffer has in common with the old one is as before in all buffers. -/
theorem State.proj_buf_setBuf {α : Type} (f : Buf → α) {s : State} {b : Nat} {x : Buf}
    (hx : f x = f (s.buf b)) (b' : Nat) : f ((s.setBuf b x).buf b') = f (s.buf b') := by
  by_cases hb : b' = b
  · rw [hb, State.buf_setBuf_self, hx]
  · rw [State.buf_setBuf_of_ne s x hb]

/-- `brelse` counts down, wherever it puts the buffer. -/
theorem buf_unref (c : Cache) (b : Nat) :
    (unref c b).buf = (c.setBuf b { c.buf b with refcnt := (c.buf b).refcnt - 1 }).buf := by
  rw [unref]
  split <;> rfl

namespace Sound

variable {cfg : Config} {s s' : State} {p b dev blockno : Nat}

theorem cached_lt (h : Sound cfg s) (hb : s.cache.cached dev blockno = some b) : b < NBUF := by
  obtain ⟨xs, hxs, hall⟩ := h.order
  rw [Cache.cached, Links.scan_eq_find,
    hxs.walk_next (length_lt_of_order (List.nodup_cons.mp hxs.nodup).2 hall)] at hb
  exact (hall b).mp (List.mem_of_find?_eq_some hb)

/-- If it finds none, then no buffer is for the block. -/
theorem cached_none (h : Sound cfg s) (hno : s.cache.cached dev blockno = none) (hb : b < NBUF) :
    ¬((s.buf b).dev = dev ∧ (s.buf b).blockno = blockno) := by
  obtain ⟨xs, hxs, hall⟩ := h.order
  rw [Cache.cached, Links.scan_eq_find,
    hxs.walk_next (length_lt_of_order (List.nodup_cons.mp hxs.nodup).2 hall),
    List.find?_eq_none] at hno
  have htest := hno b ((hall b).mpr hb)
  simp only [Bool.and_eq_true, beq_iff_eq] at htest
  exact htest

/-- The buffer that the second loop finds is unused. -/
theorem unused_some (h : Sound cfg s) (hb : s.cache.unused = some b) :
    b < NBUF ∧ (s.buf b).refcnt = 0 ∧ (s.buf b).dirty = false := by
  obtain ⟨xs, hxs, hall⟩ := h.order
  rw [Cache.unused, Links.scan_eq_find,
    hxs.walk_prev (length_lt_of_order (List.nodup_cons.mp hxs.nodup).2 hall)] at hb
  have hmem := List.mem_of_find?_eq_some hb
  have htest := List.find?_some hb
  simp only [Bool.and_eq_true, beq_iff_eq, Bool.not_eq_true'] at htest
  rw [List.mem_reverse] at hmem
  exact ⟨(hall b).mp hmem, htest⟩

theorem gets_le (h : Sound cfg s) (hp : p < cfg.procs) (b : Nat) :
    s.gets p b ≤ (s.buf b).refcnt := by
  rw [h.refs b]
  exact Finset.single_le_sum (f := fun q => s.gets q b) (fun _ _ => Nat.zero_le _)
    (Finset.mem_range.mpr hp)

/-- One process acts: the counts of the buffers change by as much as what it has, and what
it has is in order afterwards. -/
theorem move (h : Sound cfg s) (hp : p < cfg.procs)
    (horder : ∃ xs, Links.Circular s'.cache.links head xs ∧ ∀ b, b ∈ xs ↔ b < NBUF)
    (hunique : ∀ b < NBUF, ∀ b' < NBUF, (s'.buf b).dev ≠ 0 → (s'.buf b).dev = (s'.buf b').dev →
      (s'.buf b).blockno = (s'.buf b').blockno → b = b')
    (hheld : ∀ q, q ≠ p → s'.held q = s.held q) (hio : ∀ q, q ≠ p → s'.io q = s.io q)
    (hcount : ∀ b, (s'.buf b).refcnt + s.gets p b = (s.buf b).refcnt + s'.gets p b)
    (hbound : ∀ b, s'.gets p b ≠ 0 → b < NBUF)
    (hlocks : ∀ q b, b ∈ s'.held q ↔ (s'.buf b).lock = some q) (honce : (s'.held p).Nodup)
    (hgot : ∀ b, s'.io p = .got b → b ∈ s'.held p) : Sound cfg s' := by
  have hgets : ∀ q, q ≠ p → ∀ b, s'.gets q b = s.gets q b := by
    intro q hq b
    rw [State.gets, hheld q hq, hio q hq, State.gets]
  refine ⟨horder, hunique, fun b => ?_, fun q b => ?_, hlocks, fun q => ?_, fun q b => ?_,
    fun q b => ?_⟩
  · have hsum := sum_of_agree (fun q => s.gets q b) (fun q => s'.gets q b)
      (Finset.mem_range.mpr hp) fun q hq => hgets q hq b
    have href := h.refs b
    have hb := hcount b
    omega
  · by_cases hq : q = p
    · exact hq ▸ hbound b
    · rw [hgets q hq]
      exact h.bound q b
  · by_cases hq : q = p
    · exact hq ▸ honce
    · rw [hheld q hq]
      exact h.once q
  · by_cases hq : q = p
    · exact hq ▸ hgot b
    · rw [hheld q hq, hio q hq]
      exact h.got q b
  · by_cases hq : q = p
    · exact fun _ => hq ▸ hp
    · rw [hgets q hq]
      exact h.member q b

/-- Buffers keep their blocks if the new buffer is for the same block as the old one. -/
theorem unique_setBuf (h : Sound cfg s) {x : Buf} (hdev : x.dev = (s.buf b).dev)
    (hblockno : x.blockno = (s.buf b).blockno) :
    ∀ b1 < NBUF, ∀ b2 < NBUF, ((s.setBuf b x).buf b1).dev ≠ 0 →
      ((s.setBuf b x).buf b1).dev = ((s.setBuf b x).buf b2).dev →
      ((s.setBuf b x).buf b1).blockno = ((s.setBuf b x).buf b2).blockno → b1 = b2 := by
  have hd := State.proj_buf_setBuf Buf.dev hdev
  have hn := State.proj_buf_setBuf Buf.blockno hblockno
  intro b1 h1 b2 h2
  rw [hd b1, hd b2, hn b1, hn b2]
  exact h.unique b1 h1 b2 h2

/-- Nobody gets or loses a lock if the new buffer is locked as the old one. -/
theorem locks_setBuf (h : Sound cfg s) {x : Buf} (hlock : x.lock = (s.buf b).lock) :
    ∀ q b', b' ∈ s.held q ↔ ((s.setBuf b x).buf b').lock = some q := by
  intro q b'
  rw [State.proj_buf_setBuf Buf.lock hlock b']
  exact h.locks q b'

/-- What the holder of the lock does to a buffer does not matter. -/
theorem touch (h : Sound cfg s) {x : Buf} (hx : x.Same (s.buf b)) (disk : Nat → Block) :
    Sound cfg { s.setBuf b x with disk := disk } where
  order := h.order
  unique := h.unique_setBuf hx.dev hx.blockno
  refs b' := (State.proj_buf_setBuf Buf.refcnt hx.refcnt b').trans (h.refs b')
  bound := h.bound
  locks := h.locks_setBuf hx.lock
  once := h.once
  got := h.got
  member := h.member

/-- `bread` returns. -/
theorem setRun (h : Sound cfg s) (hp : p < cfg.procs) (hio : s.io p = .got b) :
    Sound cfg (s.setIo p .run) := by
  have hgets : ∀ b', (s.setIo p .run).gets p b' = s.gets p b' := by
    intro b'
    simp [State.gets, State.setIo, hio, Io.claims]
  refine h.move hp h.order h.unique (fun _ _ => rfl) (fun q hq => update_of_ne hq ..)
    (fun b' => ?_) (fun b' => ?_) h.locks (h.once p) fun b' hb' => ?_
  · rw [hgets]
    rfl
  · rw [hgets]
    exact h.bound p b'
  · simp [State.setIo] at hb'

/-- `bget` adds a reference to a buffer and waits for its lock. -/
theorem get (h : Sound cfg s) (hp : p < cfg.procs) (hio : s.io p = .run) (hb : b < NBUF) {x : Buf}
    (hrefcnt : x.refcnt = (s.buf b).refcnt + 1) (hlock : x.lock = (s.buf b).lock)
    (hunique : ∀ b1 < NBUF, ∀ b2 < NBUF, ((s.setBuf b x).buf b1).dev ≠ 0 →
      ((s.setBuf b x).buf b1).dev = ((s.setBuf b x).buf b2).dev →
      ((s.setBuf b x).buf b1).blockno = ((s.setBuf b x).buf b2).blockno → b1 = b2) :
    Sound cfg ((s.setBuf b x).setIo p (.waiting b)) := by
  have hgets : ∀ b', ((s.setBuf b x).setIo p (.waiting b)).gets p b' =
      s.gets p b' + if b = b' then 1 else 0 := by
    intro b'
    simp [State.gets, State.setIo, State.setBuf, hio, Io.claims]
  refine h.move hp h.order hunique (fun _ _ => rfl) (fun q hq => update_of_ne hq ..)
    (fun b' => ?_) (fun b' hb' => ?_) (h.locks_setBuf hlock) (h.once p) fun b' hb' => ?_
  · rw [hgets]
    show ((s.setBuf b x).buf b').refcnt + _ = _
    by_cases hbb : b = b'
    · subst hbb
      rw [State.buf_setBuf_self, hrefcnt, if_pos rfl]
      omega
    · rw [State.buf_setBuf_of_ne s x (Ne.symm hbb), if_neg hbb]
      omega
  · rw [hgets] at hb'
    by_cases hbb : b = b'
    · exact hbb ▸ hb
    · rw [if_neg hbb] at hb'
      exact h.bound p b' hb'
  · simp [State.setIo] at hb'

/-- `bget` gives a buffer to a block that no buffer is for. -/
theorem unique_of_miss (h : Sound cfg s) (hno : s.cache.cached dev blockno = none) {x : Buf}
    (hdev : x.dev = dev) (hblockno : x.blockno = blockno) :
    ∀ b1 < NBUF, ∀ b2 < NBUF, ((s.setBuf b x).buf b1).dev ≠ 0 →
      ((s.setBuf b x).buf b1).dev = ((s.setBuf b x).buf b2).dev →
      ((s.setBuf b x).buf b1).blockno = ((s.setBuf b x).buf b2).blockno → b1 = b2 := by
  intro b1 h1 b2 h2 hne hd hn
  by_cases hb1 : b1 = b
  · by_cases hb2 : b2 = b
    · rw [hb1, hb2]
    · rw [hb1, State.buf_setBuf_self, State.buf_setBuf_of_ne s x hb2] at hd hn
      exact absurd ⟨hd.symm.trans hdev, hn.symm.trans hblockno⟩ (h.cached_none hno h2)
  · by_cases hb2 : b2 = b
    · rw [hb2, State.buf_setBuf_self, State.buf_setBuf_of_ne s x hb1] at hd hn
      exact absurd ⟨hd.trans hdev, hn.trans hblockno⟩ (h.cached_none hno h1)
    · rw [State.buf_setBuf_of_ne s x hb1, State.buf_setBuf_of_ne s x hb2] at hd hn
      rw [State.buf_setBuf_of_ne s x hb1] at hne
      exact h.unique b1 h1 b2 h2 hne hd hn

/-- `acquiresleep` gets the lock. -/
theorem lock (h : Sound cfg s) (hp : p < cfg.procs) (hio : s.io p = .waiting b)
    (hfree : (s.buf b).lock = none) :
    Sound cfg (((s.setBuf b { s.buf b with lock := some p }).setHeld p (b :: s.held p)).setIo p
      (.got b)) := by
  have hnot : ∀ q, b ∉ s.held q := by
    intro q hq
    rw [h.locks q b, hfree] at hq
    cases hq
  have hgets : ∀ b', (((s.setBuf b { s.buf b with lock := some p }).setHeld p
      (b :: s.held p)).setIo p (.got b)).gets p b' = s.gets p b' := by
    intro b'
    simp [State.gets, State.setIo, State.setHeld, hio, Io.claims, List.count_cons]
  refine h.move hp h.order (h.unique_setBuf rfl rfl) (fun q hq => update_of_ne hq ..)
    (fun q hq => update_of_ne hq ..) (fun b' => ?_) (fun b' => ?_) (fun q b' => ?_) ?_
    fun b' hb' => ?_
  · rw [hgets]
    have hrefcnt := State.proj_buf_setBuf Buf.refcnt
      (x := { s.buf b with lock := some p }) (b := b) rfl b'
    exact congrArg (· + _) hrefcnt
  · rw [hgets]
    exact h.bound p b'
  · show b' ∈ update s.held p (b :: s.held p) q ↔
      ((s.setBuf b { s.buf b with lock := some p }).buf b').lock = some q
    by_cases hb : b' = b
    · subst hb
      rw [State.buf_setBuf_self]
      by_cases hq : q = p
      · subst hq
        simp
      · rw [update_of_ne hq]
        simp [hnot q, Ne.symm hq]
    · rw [State.buf_setBuf_of_ne s _ hb]
      by_cases hq : q = p
      · subst hq
        simp [hb, h.locks q b']
      · rw [update_of_ne hq]
        exact h.locks q b'
  · simpa [State.setIo, State.setHeld] using ⟨hnot p, h.once p⟩
  · simp only [State.setIo, update_self, Io.got.injEq] at hb'
    simp [State.setIo, State.setHeld, hb']

/-- `releasesleep` lets it go. -/
theorem release (h : Sound cfg s) (hp : p < cfg.procs) (hio : s.io p = .run) (hmem : b ∈ s.held p) :
    Sound cfg (((s.setBuf b { s.buf b with lock := none }).setHeld p ((s.held p).erase b)).setIo p
      (.releasing b)) := by
  have hlock : (s.buf b).lock = some p := (h.locks p b).mp hmem
  have hgets : ∀ b', (((s.setBuf b { s.buf b with lock := none }).setHeld p
      ((s.held p).erase b)).setIo p (.releasing b)).gets p b' = s.gets p b' := by
    intro b'
    have hpos : 0 < (s.held p).count b := List.count_pos_iff.mpr hmem
    simp only [State.gets, State.setIo, State.setHeld, update_self, hio, Io.claims,
      List.count_erase, beq_iff_eq]
    split_ifs with hb
    · subst hb
      omega
    · omega
  refine h.move hp h.order (h.unique_setBuf rfl rfl) (fun q hq => update_of_ne hq ..)
    (fun q hq => update_of_ne hq ..) (fun b' => ?_) (fun b' => ?_) (fun q b' => ?_) ?_
    fun b' hb' => ?_
  · rw [hgets]
    have hrefcnt := State.proj_buf_setBuf Buf.refcnt
      (x := { s.buf b with lock := none }) (b := b) rfl b'
    exact congrArg (· + _) hrefcnt
  · rw [hgets]
    exact h.bound p b'
  · show b' ∈ update s.held p ((s.held p).erase b) q ↔
      ((s.setBuf b { s.buf b with lock := none }).buf b').lock = some q
    by_cases hb : b' = b
    · subst hb
      rw [State.buf_setBuf_self]
      by_cases hq : q = p
      · subst hq
        simp [(h.once q).mem_erase_iff]
      · rw [update_of_ne hq, h.locks q b', hlock]
        simp [Ne.symm hq]
    · rw [State.buf_setBuf_of_ne s _ hb]
      by_cases hq : q = p
      · subst hq
        simp [(h.once q).mem_erase_iff, hb, h.locks q b']
      · rw [update_of_ne hq]
        exact h.locks q b'
  · simpa [State.setIo, State.setHeld] using (h.once p).erase b
  · simp [State.setIo] at hb'

/-- Taking a buffer out and putting it at the front keeps all buffers in the list. -/
theorem order_front (h : Sound cfg s) (hb : b < NBUF) :
    ∃ xs, Links.Circular ((s.cache.links.unlink b).pushFront head b) head xs ∧
      ∀ b', b' ∈ xs ↔ b' < NBUF := by
  obtain ⟨xs, hxs, hall⟩ := h.order
  obtain ⟨ys, zs, rfl⟩ := List.append_of_mem ((hall b).mpr hb)
  have hnodup := (List.nodup_cons.mp hxs.nodup).2
  have hnot : b ∉ head :: (ys ++ zs) := by
    rw [List.nodup_middle, List.nodup_cons] at hnodup
    rw [List.mem_cons, not_or]
    exact ⟨Nat.ne_of_lt hb, hnodup.1⟩
  refine ⟨b :: (ys ++ zs), hxs.unlink.pushFront hnot, fun b' => ?_⟩
  rw [← hall b']
  simp only [List.mem_cons, List.mem_append]
  tauto

/-- The critical section of `brelse`. -/
theorem unref (h : Sound cfg s) (hp : p < cfg.procs) (hio : s.io p = .releasing b) :
    Sound cfg ({ s with cache := Bcache.unref s.cache b }.setIo p .run) := by
  have hgets : ∀ b', s.gets p b' =
      (({ s with cache := Bcache.unref s.cache b } : State).setIo p .run).gets p b' +
        if b = b' then 1 else 0 := by
    intro b'
    simp [State.gets, State.setIo, hio, Io.claims]
  have hb : b < NBUF := h.bound p b (by rw [hgets, if_pos rfl]; omega)
  have hpos : 1 ≤ (s.buf b).refcnt := by
    have hle := h.gets_le hp b
    rw [hgets, if_pos rfl] at hle
    omega
  have hbuf : ∀ b', (({ s with cache := Bcache.unref s.cache b } : State).setIo p .run).buf b' =
      (s.setBuf b { s.buf b with refcnt := (s.buf b).refcnt - 1 }).buf b' := fun b' =>
    congrFun (buf_unref s.cache b) b'
  refine h.move hp ?_ ?_ (fun _ _ => rfl) (fun q hq => update_of_ne hq ..)
    (fun b' => ?_) (fun b' hb' => h.bound p b' ?_) (fun q b' => ?_) (h.once p) fun b' hb' => ?_
  · show ∃ xs, Links.Circular (Bcache.unref s.cache b).links head xs ∧ _
    rw [Bcache.unref]
    split
    · exact h.order_front hb
    · exact h.order
  · simp only [hbuf]
    exact h.unique_setBuf rfl rfl
  · rw [hbuf, hgets]
    by_cases hbb : b = b'
    · subst hbb
      rw [State.buf_setBuf_self, if_pos rfl]
      show (s.buf b).refcnt - 1 + _ = _
      omega
    · rw [State.buf_setBuf_of_ne s _ (Ne.symm hbb), if_neg hbb]
      omega
  · rw [hgets]
    omega
  · rw [hbuf]
    exact h.locks_setBuf (b := b) (x := { s.buf b with refcnt := (s.buf b).refcnt - 1 }) rfl q b'
  · simp [State.setIo] at hb'

end Sound

/-! ## Runs -/

section

variable {cfg : Config} {s s' : State} {l : Label}

theorem sound_step (h : Sound cfg s) (hstep : OwnSteps cfg s l s') : Sound cfg s' := by
  obtain ⟨hp, hdid⟩ := step_did hstep.1
  cases hdid with
  | hit hio hb => exact h.get hp hio (h.cached_lt hb) rfl rfl (h.unique_setBuf rfl rfl)
  | miss hio hno hb =>
    obtain ⟨hlt, hzero, _⟩ := h.unused_some hb
    exact h.get hp hio hlt (by rw [hzero]) rfl (h.unique_of_miss hno rfl rfl)
  | lock hio hfree => exact h.lock hp hio hfree
  | warm hio => exact h.setRun hp hio
  | @cold p b x disk hio _ hx =>
    have htouch := h.touch (iderw_same hx) disk
    exact htouch.setRun hp hio
  | @modify p b data _ =>
    exact h.touch (x := { s.buf b with data := data }) ⟨rfl, rfl, rfl, rfl⟩ s.disk
  | bwrite _ hx =>
    obtain ⟨hdev, hblockno, hrefcnt, hlock⟩ := iderw_same hx
    exact h.touch ⟨hdev, hblockno, hrefcnt, hlock⟩ _
  | @logWrite p b _ =>
    exact h.touch (x := { s.buf b with dirty := true }) ⟨rfl, rfl, rfl, rfl⟩ s.disk
  | brelse hio => exact h.release hp hio (of_decide_eq_true hstep.2)
  | unref hio => exact h.unref hp hio

/-- `binit` puts all buffers into the list. -/
theorem circular_binit (l : Links Nat) :
    Links.Circular (binit l) head (List.range NBUF).reverse := by
  have key : ∀ n, n ≤ NBUF → Links.Circular
      ((List.range n).foldl (fun l b => l.pushFront head b)
        ⟨update l.next head head, update l.prev head head⟩)
      head (List.range n).reverse := by
    intro n
    induction n with
    | zero =>
      intro _
      apply Links.Circular.empty
      · exact update_self head head l.next
      · exact update_self head head l.prev
    | succ n ih =>
      intro hn
      have hnot : n ∉ head :: (List.range n).reverse := by
        rw [List.mem_cons, List.mem_reverse, List.mem_range, head]
        omega
      rw [List.range_succ, List.foldl_append, List.reverse_append]
      exact (ih (by omega)).pushFront hnot
  exact key NBUF le_rfl

theorem sound_start (cfg : Config) (l : Links Nat) (disk : Nat → Block) :
    Sound cfg (start l disk) where
  order := ⟨_, circular_binit l, fun b => by rw [List.mem_reverse, List.mem_range]⟩
  unique _ _ _ _ hdev := absurd rfl hdev
  refs _ := (Finset.sum_eq_zero fun _ _ => rfl).symm
  bound _ _ hgets := absurd rfl hgets
  locks _ _ := by simp [start, State.buf]
  once _ := List.nodup_nil
  got _ _ hio := by cases hio
  member _ _ hgets := absurd rfl hgets

theorem sound_of_run {l0 : Links Nat} {disk : Nat → Block} {ls : List Label}
    (h : Run (OwnSteps cfg) (start l0 disk) ls s) : Sound cfg s :=
  h.invariant (sound_start cfg l0 disk) fun _ _ _ hs hstep => sound_step hs hstep

/-- A buffer stays with its block, unless `bget` chooses it. -/
theorem Did.label (h : Did cfg s l s') (b : Nat) :
    ((s'.buf b).dev = (s.buf b).dev ∧ (s'.buf b).blockno = (s.buf b).blockno) ∨
      s.cache.unused = some b := by
  have hset : ∀ {b1 : Nat} {x : Buf}, x.dev = (s.buf b1).dev → x.blockno = (s.buf b1).blockno →
      ((s.setBuf b1 x).buf b).dev = (s.buf b).dev ∧
        ((s.setBuf b1 x).buf b).blockno = (s.buf b).blockno := fun hd hn =>
    ⟨State.proj_buf_setBuf Buf.dev hd b, State.proj_buf_setBuf Buf.blockno hn b⟩
  cases h with
  | @hit p dev blockno b1 =>
    exact .inl (hset (x := { s.buf b1 with refcnt := (s.buf b1).refcnt + 1 }) rfl rfl)
  | @miss p dev blockno b1 _ _ hb1 =>
    by_cases hb : b = b1
    · exact .inr (hb ▸ hb1)
    · have hbuf := State.buf_setBuf_of_ne s { s.buf b1 with
        dev := dev, blockno := blockno, valid := false, dirty := false, refcnt := 1 } hb
      exact .inl ⟨congrArg Buf.dev hbuf, congrArg Buf.blockno hbuf⟩
  | @lock p b1 => exact .inl (hset (x := { s.buf b1 with lock := some p }) rfl rfl)
  | warm => exact .inl ⟨rfl, rfl⟩
  | cold _ _ hx => exact .inl (hset (iderw_same hx).dev (iderw_same hx).blockno)
  | @modify p b1 data => exact .inl (hset (x := { s.buf b1 with data := data }) rfl rfl)
  | bwrite _ hx => exact .inl (hset (iderw_same hx).dev (iderw_same hx).blockno)
  | @logWrite p b1 => exact .inl (hset (x := { s.buf b1 with dirty := true }) rfl rfl)
  | @brelse p b1 => exact .inl (hset (x := { s.buf b1 with lock := none }) rfl rfl)
  | @unref p b1 =>
    have hbuf : State.buf ({ s with cache := Bcache.unref s.cache b1 }.setIo p .run) b =
        (s.setBuf b1 { s.buf b1 with refcnt := (s.buf b1).refcnt - 1 }).buf b :=
      congrFun (buf_unref s.cache b1) b
    rw [hbuf]
    exact .inl (hset (x := { s.buf b1 with refcnt := (s.buf b1).refcnt - 1 }) rfl rfl)

/-- If no process got the buffer twice, then the count is a number of processes. -/
theorem Sound.refcnt_eq_card (h : Sound cfg s) {b : Nat} (hone : ∀ p < cfg.procs, s.gets p b ≤ 1) :
    (s.buf b).refcnt = {p ∈ Finset.range cfg.procs | s.gets p b ≠ 0}.card := by
  rw [h.refs b, Finset.card_filter]
  refine Finset.sum_congr rfl fun p hp => ?_
  have hle := hone p (Finset.mem_range.mp hp)
  split_ifs with hz
  · omega
  · omega

end

/-- The buffer cache keeps its structure if processes release what they got.  A process counts as
often as it got the buffer: nothing keeps a process from asking for a block it has, and it then
waits for itself. -/
theorem bcache_structure {cfg : Config} {l0 : Links Nat} {disk : Nat → Block} {ls : List Label}
    {s : State} (h : Run (OwnSteps cfg) (start l0 disk) ls s) :
    (∃ xs : List Nat, xs.Nodup ∧ (∀ b, b ∈ xs ↔ b < NBUF) ∧
      Links.walk s.cache.links.next head (NBUF + 1) (s.cache.links.next head) = xs ∧
      Links.walk s.cache.links.prev head (NBUF + 1) (s.cache.links.prev head) = xs.reverse ∧
      ∀ b ∈ head :: xs, s.cache.links.prev (s.cache.links.next b) = b ∧
        s.cache.links.next (s.cache.links.prev b) = b) ∧
    (∀ dev blockno, dev ≠ 0 → ∀ b < NBUF, ∀ b' < NBUF,
      (s.buf b).dev = dev ∧ (s.buf b).blockno = blockno →
      (s.buf b').dev = dev ∧ (s.buf b').blockno = blockno → b = b') ∧
    (∀ b < NBUF, (s.buf b).refcnt = ∑ p ∈ Finset.range cfg.procs, s.gets p b ∧
      ((∀ p < cfg.procs, s.gets p b ≤ 1) →
        (s.buf b).refcnt = {p ∈ Finset.range cfg.procs | s.gets p b ≠ 0}.card)) ∧
    (∀ l s', Steps cfg s l s' → ∀ b < NBUF,
      (s'.buf b).dev ≠ (s.buf b).dev ∨ (s'.buf b).blockno ≠ (s.buf b).blockno →
      (s.buf b).refcnt = 0 ∧ (s.buf b).dirty = false) := by
  have hs := sound_of_run h
  refine ⟨?_, ?_, fun b _ => ⟨hs.refs b, hs.refcnt_eq_card⟩, ?_⟩
  · obtain ⟨xs, hxs, hall⟩ := hs.order
    have hnodup := (List.nodup_cons.mp hxs.nodup).2
    have hlen := length_lt_of_order hnodup hall
    exact ⟨xs, hnodup, hall, hxs.walk_next hlen, hxs.walk_prev hlen, fun b hb => hxs.inverse hb⟩
  · intro dev blockno hdev b hb b' hb' hl hl'
    exact hs.unique b hb b' hb' (hl.1 ▸ hdev) (hl.1.trans hl'.1.symm) (hl.2.trans hl'.2.symm)
  · intro l s' hstep b _ hlabel
    rcases (step_did hstep).2.label b with ⟨hd, hn⟩ | hb
    · exact absurd hlabel (not_or.mpr ⟨not_not.mpr hd, not_not.mpr hn⟩)
    · exact (hs.unused_some hb).2

/-- Process 1 waits for the buffer of process 0, which releases it. -/
def takeOver : List Label :=
  [.bread 0 1 2, .lock 0, .fill 0, .bread 1 1 2, .bread 0 1 3, .lock 0, .fill 0, .brelse 0 0,
    .unref 0, .lock 1]

/-- Each of the two processes has a buffer then. -/
theorem bcache_structure_takeOver : ∃ s, Run (OwnSteps ⟨2, 1000⟩)
    (start ⟨id, id⟩ fun _ => Block.zero) takeOver s ∧ (s.buf 0).blockno = 2 ∧
      (s.buf 0).refcnt = {p ∈ Finset.range 2 | s.gets p 0 ≠ 0}.card ∧ (s.buf 0).refcnt = 1 := by
  have heval : Run.passesAll (step ⟨2, 1000⟩) (fun s l _ => s.owns l) takeOver
      (start ⟨id, id⟩ fun _ => Block.zero) (fun s => (s.buf 0).blockno = 2 ∧ (s.buf 0).refcnt = 1 ∧
        s.gets 0 0 = 0 ∧ s.gets 1 0 = 1) = true := by decide +kernel
  obtain ⟨s, h, hs⟩ := Run.exists_of_passesAll heval
  obtain ⟨hblock, hone, h0, h1⟩ := of_decide_eq_true hs
  refine ⟨s, h, hblock, ((bcache_structure h).2.2.1 0 (by decide)).2 ?_, hone⟩
  intro p hp
  have hp : p = 0 ∨ p = 1 := by
    dsimp only at hp
    omega
  rcases hp with rfl | rfl
  · rw [h0]
    exact Nat.zero_le 1
  · rw [h1]

/-- A process that asks for a block it already has. -/
def askTwice : List Label := [.bread 0 1 2, .lock 0, .fill 0, .bread 0 1 2]

/-- One process has the buffer, and the count is two. -/
theorem refcnt_ne_card : ∃ s, Run (OwnSteps ⟨1, 1000⟩) (start ⟨id, id⟩ fun _ => Block.zero)
    askTwice s ∧ (s.buf 0).refcnt = 2 ∧ {p ∈ Finset.range 1 | s.gets p 0 ≠ 0}.card = 1 := by
  have heval : Run.passesAll (step ⟨1, 1000⟩) (fun s l _ => s.owns l) askTwice
      (start ⟨id, id⟩ fun _ => Block.zero) (fun s => (s.buf 0).refcnt = 2 ∧ s.gets 0 0 = 2) = true := by
    decide +kernel
  obtain ⟨s, h, hs⟩ := Run.exists_of_passesAll heval
  obtain ⟨href, hgets⟩ := of_decide_eq_true hs
  refine ⟨s, h, href, ?_⟩
  rw [Finset.card_filter, Finset.sum_range_one, if_pos (by rw [hgets]; decide)]

end Bcache
end Xv6
