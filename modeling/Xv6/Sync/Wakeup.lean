import Xv6.Sync.Exclusive

/-!
# No wakeup is lost

Two things are proved of the machine of `Xv6.Sync.Model`, for every client.

* `Did`: what a step can do.  A step moves one process inside the calls of this module,
  or scans the table for a channel, or executes one statement of the client.
* `Attended`: a process that is asleep on a channel, or has decided to be, has to wait, or
  somebody has yet to call `wakeup` on that channel.  A step that obeys the discipline
  `Careful` keeps it (`Attended.step`).

The discipline is that of the source: `sleep` is called only where the process has to
wait, and code that ends the wait of others calls `wakeup` afterwards, with `lk` held.
-/

namespace Xv6
namespace Sync

open Lib Function

variable {S L C A E : Type}

namespace Ctl

/-- The process is asleep on `chan`, or has called `sleep` and is not asleep yet. -/
def Sleeps (chan : C) : Ctl L C → Prop
  | .sleepLock c _ | .sleepUnlock c _ | .sleepSched c _ | .asleep c _ => c = chan
  | _ => False

/-- The process is in the critical section, or in `wakeup` called from there. -/
def busy : Ctl L C → Bool
  | .inside _ | .wakeupLock _ _ | .wakeupScan _ _ | .wakeupUnlock _ => true
  | _ => false

/-- The process has called `wakeup(chan)` and has not scanned the table yet. -/
def Wakes (chan : C) : Ctl L C → Prop
  | .wakeupLock c _ | .wakeupScan c _ => c = chan
  | _ => False

/-- The process has yet to wake those who sleep on `chan`: it is in `wakeup(chan)`, or
`owes` says so of the place where it goes on. -/
def Owes (owes : L → C → Prop) (chan : C) (x : Ctl L C) : Prop :=
  x.Wakes chan ∨ owes x.loc chan

end Ctl

/-- The place where the client goes on. -/
def Next.loc : Next L C → L
  | .stay l | .sleep _ l | .wakeup _ l | .release l => l

/-- The process stays in the critical section. -/
def Next.keeps : Next L C → Bool
  | .stay _ | .wakeup _ _ => true
  | _ => false

/-- The statement calls `wakeup(chan)`. -/
def Next.Wakes (chan : C) : Next L C → Prop
  | .wakeup c _ => c = chan
  | _ => False

/-- What the process owes after the statement. -/
def Next.Owes (owes : L → C → Prop) (chan : C) (n : Next L C) : Prop :=
  n.Wakes chan ∨ owes n.loc chan

/-- The place where the client goes on. -/
def Outer.loc : Outer L → L
  | .stay l | .acquire l => l

variable {cl : Client S L C A E} {s s' : Sys S L C} [DecidableEq C]

/-! ## What a step can do -/

/-- What a step can do to the processes and to the memory of the client.

* `moves`: process `p` goes on inside `acquire`, `sleep`, `wakeup` or the scheduler, or is
  killed; nobody else moves.
* `idles`: only a scheduler moves.
* `scans`: process `p`, in `wakeup`, wakes all who sleep on the channel.
* `calls`, `inside`: process `p` executes a statement of the client. -/
inductive Did (cl : Client S L C A E) (s : Sys S L C) : Label A → Sys S L C → Prop
  | moves {l : Label A} {s' : Sys S L C} {p : Nat} {x : Ctl L C}
      (hctl : s'.ctl = update s.ctl p x) (hshared : s'.shared = s.shared)
      (hloc : x.loc = (s.ctl p).loc) (hsleep : ∀ c, x.Sleeps c → (s.ctl p).Sleeps c)
      (hwakes : ∀ c, (s.ctl p).Wakes c → x.Wakes c)
      (hbusy : (s.ctl p).busy = true → x.busy = true)
      (hasleep : ∀ c l', s.ctl p = .asleep c l' → l = .kill p ∨ x = .asleep c l') : Did cl s l s'
  | idles {l : Label A} {s' : Sys S L C} (hctl : s'.ctl = s.ctl)
      (hshared : s'.shared = s.shared) : Did cl s l s'
  | scans {s' : Sys S L C} {p : Nat} {c : C} {l : L} {x : Ctl L C}
      (hp : s.ctl p = .wakeupScan c l)
      (hctl : s'.ctl = update (fun q => (s.ctl q).wake c) p x)
      (hshared : s'.shared = s.shared) (hloc : x.loc = l) (hsleep : ∀ c', ¬ x.Sleeps c')
      (hbusy : x.busy = true) : Did cl s (.run p) s'
  | calls {s' : Sys S L C} {p : Nat} {a : A} {l : L} {s1 : S} {o : Outer L} {x : Ctl L C}
      (hp : s.ctl p = .out l) (hrun : cl.outside p a l s.shared = some (.ok (s1, o)))
      (hctl : s'.ctl = update s.ctl p x) (hshared : s'.shared = s1)
      (hloc : x.loc = o.loc) (hsleep : ∀ c, ¬ x.Sleeps c) : Did cl s (.call p a) s'
  | inside {s' : Sys S L C} {p : Nat} {l : L} {s1 : S} {n : Next L C} {x : Ctl L C}
      (hp : s.ctl p = .inside l)
      (hrun : cl.inside p (s.killed p) l s.shared = .ok (s1, n))
      (hctl : s'.ctl = update s.ctl p x) (hshared : s'.shared = s1)
      (hloc : x.loc = n.loc) (hsleep : ∀ c, x.Sleeps c → ∃ l', n = .sleep c l')
      (hwakes : ∀ c, n.Wakes c → x.Wakes c) (hbusy : n.keeps = true → x.busy = true) :
      Did cl s (.run p) s'

variable {l : Label A} {p q : Nat}

/-- Process `p` goes on to `x` within one of the calls of this module. -/
theorem Did.of_goto {x y : Ctl L C} (hp : s.ctl p = y)
    (hctl : s'.ctl = update s.ctl p x) (hshared : s'.shared = s.shared)
    (hloc : x.loc = y.loc) (hsleep : ∀ c, x.Sleeps c → y.Sleeps c)
    (hwakes : ∀ c, y.Wakes c → x.Wakes c) (hbusy : y.busy = true → x.busy = true)
    (hasleep : ∀ c l', y ≠ .asleep c l') : Did cl s l s' := by
  subst hp
  exact .moves hctl hshared hloc hsleep hwakes hbusy fun c l' h => absurd h (hasleep c l')

theorem did_runProc (hrun : runProc cl p s = .ok s') : Did cl s (.run p) s' := by
  unfold runProc at hrun
  cases hctl : s.ctl p with
  | out l | asleep c l | runnable l =>
    simp only [hctl] at hrun
    cases hrun
  | acquire l =>
    simp only [hctl, acquireLk] at hrun
    split_ifs at hrun
    all_goals
      cases hrun
      exact .of_goto hctl rfl rfl rfl (fun _ => id) (fun _ => False.elim) nofun nofun
  | inside l =>
    simp only [hctl] at hrun
    split at hrun
    · cases hrun
    · next s1 n hin =>
        cases hrun
        cases n with
        | stay l' =>
          exact .inside hctl hin rfl rfl rfl (fun _ => False.elim) (fun _ => id) id
        | release l' =>
          refine .inside (x := .out l') hctl hin ?_ ?_ rfl (fun _ => False.elim) (fun _ => id)
            nofun
          all_goals
            simp only [proceed, releaseLk]
            split_ifs <;> rfl
        | sleep c l' =>
          refine .inside hctl hin rfl rfl ?_ ?_ ?_ nofun
          all_goals
            split_ifs
          · rfl
          · rfl
          · exact fun c' (hc : c = c') => ⟨l', by rw [hc]⟩
          · exact fun c' (hc : c = c') => ⟨l', by rw [hc]⟩
          · exact fun _ => id
          · exact fun _ => id
        | wakeup c l' =>
          refine .inside hctl hin rfl rfl ?_ ?_ ?_ ?_
          all_goals
            split_ifs
          · rfl
          · rfl
          · exact fun _ => False.elim
          · exact fun _ => False.elim
          · exact fun _ => id
          · exact fun _ => id
          · exact id
          · exact id
  | sleepLock c l | wakeupLock c l =>
    simp only [hctl, acquireTable] at hrun
    split_ifs at hrun
    cases hrun
    exact .of_goto hctl rfl rfl rfl (fun _ => id) (fun _ => id) id nofun
  | sleepUnlock c l | sleepSched c l | sleepReturn l | wakeupUnlock l =>
    simp only [hctl] at hrun
    cases hrun
    exact .of_goto hctl rfl rfl rfl (fun _ => id) (fun _ => id) id nofun
  | wakeupScan c l =>
    simp only [hctl] at hrun
    cases hrun
    refine .scans hctl rfl rfl ?_ ?_ ?_
    all_goals
      split_ifs
    · rfl
    · rfl
    · exact fun _ => id
    · exact fun _ => id
    · rfl
    · rfl

theorem did_step (hstep : step cl l s = .ok s') : Did cl s l s' := by
  cases l with
  | run p => exact did_runProc hstep
  | call p a =>
    simp only [step] at hstep
    split at hstep
    · next l hctl =>
        split at hstep
        · cases hstep
        · cases hstep
        · next s1 l' hout =>
            cases hstep
            exact .calls hctl hout rfl rfl rfl fun _ => id
        · next s1 l' hout =>
            cases hstep
            exact .calls hctl hout rfl rfl rfl fun _ => id
    · cases hstep
  | dispatch p =>
    simp only [step] at hstep
    split at hstep
    · next l hsched hctl =>
        cases hstep
        refine .of_goto hctl rfl rfl ?_ ?_ (fun _ => False.elim) (fun h => Bool.noConfusion h)
          (by rintro _ _ ⟨⟩)
        all_goals
          split_ifs
        · rfl
        · rfl
        · exact fun _ => id
        · exact fun _ => id
    · cases hstep
  | lockTable | unlockTable =>
    simp only [step] at hstep
    split_ifs at hstep
    cases hstep
    exact .idles rfl rfl
  | kill p =>
    simp only [step] at hstep
    split_ifs at hstep
    cases hstep
    refine .moves rfl rfl ?_ ?_ ?_ ?_ fun _ _ _ => .inl rfl
    · cases s.ctl p <;> rfl
    · cases s.ctl p <;> first | exact fun _ => id | exact fun _ => False.elim
    · cases s.ctl p <;> exact fun _ => id
    · cases s.ctl p <;> exact id

/-- The places of the client at which the processes are. -/
def Sys.place (s : Sys S L C) (q : Nat) : L := (s.ctl q).loc

/-- What the client sees of a step: nothing, or one statement of one process. -/
inductive Seen (cl : Client S L C A E) (s : Sys S L C) (l : Label A) (s' : Sys S L C) : Prop
  | same (hshared : s'.shared = s.shared) (hplace : s'.place = s.place)
  | call {p : Nat} {a : A} {l0 : L} {s1 : S} {o : Outer L} (hl : l = .call p a)
      (hp : s.ctl p = .out l0) (hrun : cl.outside p a l0 s.shared = some (.ok (s1, o)))
      (hshared : s'.shared = s1) (hplace : s'.place = update s.place p o.loc)
  | inside {p : Nat} {l0 : L} {s1 : S} {n : Next L C} (hl : l = .run p)
      (hp : s.ctl p = .inside l0) (hrun : cl.inside p (s.killed p) l0 s.shared = .ok (s1, n))
      (hshared : s'.shared = s1) (hplace : s'.place = update s.place p n.loc)

omit [DecidableEq C] in
theorem Sys.place_update {x : Ctl L C} (h : s'.ctl = update s.ctl p x) :
    s'.place = update s.place p x.loc := by
  funext q
  unfold Sys.place
  rw [h]
  by_cases hq : q = p
  · subst hq
    simp
  · simp [hq]

theorem seen_step (hstep : step cl l s = .ok s') : Seen cl s l s' := by
  cases did_step hstep with
  | @moves _ _ p x hctl hshared hloc _ _ _ _ =>
    refine .same hshared ?_
    rw [Sys.place_update hctl, hloc]
    exact update_eq_self p s.place
  | idles hctl hshared =>
    refine .same hshared ?_
    unfold Sys.place
    rw [hctl]
  | @scans _ p c l x hp hctl hshared hloc _ _ =>
    refine .same hshared ?_
    funext q
    unfold Sys.place
    rw [hctl]
    by_cases hq : q = p
    · subst hq
      rw [update_self, hloc, hp]
      rfl
    · rw [update_of_ne hq, Ctl.wake_loc]
  | @calls _ p a l s1 o x hp hrun hctl hshared hloc _ =>
    exact .call rfl hp hrun hshared (by rw [Sys.place_update hctl, hloc])
  | @inside _ p l s1 n x hp hrun hctl hshared hloc _ _ _ =>
    exact .inside rfl hp hrun hshared (by rw [Sys.place_update hctl, hloc])

/-- Only a statement of the client panics. -/
theorem panic_step {e : E} (h : step cl l s = .error (.panic e)) :
    (∃ p l0, l = .run p ∧ s.ctl p = .inside l0 ∧ cl.inside p (s.killed p) l0 s.shared = .error e) ∨
      ∃ p a l0, l = .call p a ∧ s.ctl p = .out l0 ∧
        cl.outside p a l0 s.shared = some (.error e) := by
  cases l with
  | run p =>
    simp only [step, runProc] at h
    cases hctl : s.ctl p with
    | inside l0 =>
      simp only [hctl] at h
      split at h
      · next e' hin =>
          cases h
          exact .inl ⟨p, l0, rfl, hctl, hin⟩
      · cases h
    | acquire l0 | sleepLock c l0 | wakeupLock c l0 =>
      simp only [hctl, acquireLk, acquireTable] at h
      split_ifs at h <;> cases h
    | _ =>
      simp only [hctl] at h
      cases h
  | call p a =>
    simp only [step] at h
    split at h
    · next l0 hctl =>
        split at h
        · cases h
        · next e' hout =>
            cases h
            exact .inr ⟨p, a, l0, rfl, hctl, hout⟩
        · cases h
        · cases h
    · cases h
  | dispatch p =>
    simp only [step] at h
    split at h <;> cases h
  | lockTable | unlockTable | kill p =>
    simp only [step] at h
    split_ifs at h
    cases h

/-! ## Nobody sleeps who need not -/

/-- Somebody sleeps on the channel, or has called `sleep` with it. -/
def Sys.Awaited (s : Sys S L C) (c : C) : Prop := ∃ q, (s.ctl q).Sleeps c

/-- A process that is asleep on a channel, or has decided to be, has to wait by `W`, or
somebody has yet to wake it. -/
def Attended (W : C → S → Prop) (owes : L → C → Prop) (s : Sys S L C) : Prop :=
  ∀ q c, (s.ctl q).Sleeps c → W c s.shared ∨ ∃ p, (s.ctl p).Owes owes c

/-- The discipline a step has to obey.  A statement that ends the wait for a channel on
which somebody sleeps leaves the process owing a wakeup on it, such a debt is kept until it
is paid, and `sleep` is called only where the process has to wait. -/
def Careful (cl : Client S L C A E) (W : C → S → Prop) (owes : L → C → Prop)
    (s : Sys S L C) : Label A → Prop
  | .run p => ∀ l s1 n, s.ctl p = .inside l → cl.inside p (s.killed p) l s.shared = .ok (s1, n) →
      (∀ c, s.Awaited c → W c s.shared ∨ owes l c → W c s1 ∨ n.Owes owes c) ∧
        ∀ c l', n = .sleep c l' → W c s1
  | .call p a => ∀ l s1 o, s.ctl p = .out l → cl.outside p a l s.shared = some (.ok (s1, o)) →
      ∀ c, s.Awaited c → W c s.shared ∨ owes l c → W c s1 ∨ owes o.loc c
  | _ => True

omit [DecidableEq C] in
/-- A process in the critical section holds the lock. -/
theorem Exclusive.holder (h : Exclusive cl s) (hp : (s.ctl p).holdsLk = true) :
    if cl.table then s.ptable = some (.proc p) else s.lk = some p := by
  by_cases ht : cl.table = true
  · -- With `lk` the lock of the table, the places that hold it are those of `holdsBoth`.
    have hboth : (s.ctl p).holdsBoth = true := by
      have honly := h.only ht p
      revert hp honly
      cases s.ctl p <;> simp [Ctl.holdsLk, Ctl.holdsBoth, Ctl.tableOnly]
    rw [if_pos ht]
    exact (h.both ht p).mpr hboth
  · rw [if_neg ht]
    exact (h.lk (by simpa using ht) p).mpr hp

omit [DecidableEq C] in
/-- At most one process is in the critical section of `lk`. -/
theorem Exclusive.unique (h : Exclusive cl s) (hp : (s.ctl p).holdsLk = true)
    (hq : (s.ctl q).holdsLk = true) : p = q := by
  have h1 := h.holder hp
  have h2 := h.holder hq
  split_ifs at h1 h2
  all_goals
    rw [h1] at h2
    simpa using h2

omit [DecidableEq C] in
/-- While a process scans the table, everybody else who is in `sleep` is asleep. -/
theorem Exclusive.asleep_of_scan (h : Exclusive cl s) {c c' : C} {l : L}
    (hp : s.ctl p = .wakeupScan c l) (hne : q ≠ p) (hq : (s.ctl q).Sleeps c') :
    ∃ l', s.ctl q = .asleep c' l' := by
  have hlk : (s.ctl p).holdsLk = true := by rw [hp]; rfl
  cases hctl : s.ctl q with
  | asleep c'' l' =>
    rw [hctl] at hq
    exact ⟨l', by rw [show c'' = c' from hq]⟩
  | sleepLock c'' l' => exact absurd (h.unique (by rw [hctl]; rfl) hlk) hne
  | sleepUnlock c'' l' => exact absurd (h.unique (by rw [hctl]; rfl) hlk) hne
  | sleepSched c'' l' =>
    -- Both would hold the lock of the process table.
    have hown : s.ptable = some (.proc q) ∧ s.ptable = some (.proc p) := by
      by_cases ht : cl.table = true
      · exact ⟨(h.both ht q).mpr (by rw [hctl]; rfl), (h.both ht p).mpr (by rw [hp]; rfl)⟩
      · have hf : cl.table = false := by simpa using ht
        exact ⟨(h.table hf q).mpr (by rw [hctl]; rfl), (h.table hf p).mpr (by rw [hp]; rfl)⟩
    have : q = p := by simpa [hown.1] using hown.2
    exact absurd this hne
  | _ =>
    rw [hctl] at hq
    exact hq.elim

variable {W : C → S → Prop} {owes : L → C → Prop}

omit [DecidableEq C] in
/-- Why a sleeper is asleep, as seen by process `p`: it has to wait or `p` owes the
wakeup, or somebody else does. -/
theorem Attended.debt (h : Attended W owes s)
    {c : C} {x : Ctl L C} (hp : s.ctl p = x) (hx : ¬ x.Wakes c)
    (hq : (s.ctl q).Sleeps c) :
    (W c s.shared ∨ owes x.loc c) ∨ ∃ r, r ≠ p ∧ (s.ctl r).Owes owes c := by
  rcases h q c hq with hw | ⟨r, hr⟩
  · exact .inl (.inl hw)
  · by_cases hrp : r = p
    · subst hrp
      rw [hp] at hr
      exact .inl (.inr (hr.resolve_left hx))
    · exact .inr ⟨r, hrp, hr⟩

/-- A step that obeys the discipline keeps every sleeper attended. -/
theorem Attended.step (h : Attended W owes s) (hex : Exclusive cl s) (hcare : Careful cl W owes s l)
    (hstep : step cl l s = .ok s') : Attended W owes s' := by
  intro q c hq
  cases did_step hstep with
  | @moves _ _ p x hctl hshared hloc hsleep hwakes _ _ =>
    have hold : (s.ctl q).Sleeps c := by
      rw [hctl] at hq
      by_cases hqp : q = p
      · subst hqp
        exact hsleep c (by simpa using hq)
      · simpa [hqp] using hq
    rcases h q c hold with hw | ⟨r, hr⟩
    · exact .inl (by rwa [hshared])
    · refine .inr ⟨r, ?_⟩
      rw [hctl]
      by_cases hrp : r = p
      · subst hrp
        rw [update_self]
        exact hr.imp (hwakes c) fun ho => by rwa [hloc]
      · simpa [hrp] using hr
  | idles hctl hshared =>
    rw [hctl] at hq
    rw [hctl, hshared]
    exact h q c hq
  | @scans _ p c0 l x hp hctl hshared hloc hsleep _ =>
    rw [hctl] at hq
    have hqp : q ≠ p := by
      rintro rfl
      exact hsleep c (by simpa using hq)
    have hold : (s.ctl q).Sleeps c ∧ c0 ≠ c := by
      have hwake : ((s.ctl q).wake c0).Sleeps c := by simpa [hqp] using hq
      cases hctlq : s.ctl q with
      | asleep c' l' =>
        rw [hctlq, Ctl.wake] at hwake
        split_ifs at hwake with hc
        · exact hwake.elim
        · obtain rfl : c' = c := hwake
          exact ⟨rfl, fun h0 => hc h0.symm⟩
      | _ =>
        rw [hctlq] at hwake
        obtain ⟨l', hl'⟩ := hex.asleep_of_scan hp hqp (by rw [hctlq]; exact hwake)
        rw [hctlq] at hl'
        cases hl'
    rcases h q c hold.1 with hw | ⟨r, hr⟩
    · exact .inl (by rwa [hshared])
    · refine .inr ⟨r, ?_⟩
      rw [hctl]
      by_cases hrp : r = p
      · -- The scan pays the debt on `c0` only.
        subst hrp
        rw [hp] at hr
        rw [update_self]
        exact .inr (by rw [hloc]; exact hr.resolve_left hold.2)
      · rw [update_of_ne hrp]
        refine hr.imp (fun hw => ?_) fun ho => ?_
        · cases hctlr : s.ctl r with
          | asleep c' l' =>
            rw [hctlr] at hw
            exact hw.elim
          | _ =>
            rw [hctlr] at hw
            exact hw
        · rwa [Ctl.wake_loc]
  | @calls _ p a l s1 o x hp hrun hctl hshared hloc hsleep =>
    rw [hctl] at hq
    have hqp : q ≠ p := by
      rintro rfl
      exact hsleep c (by simpa using hq)
    rw [hctl, hshared]
    rcases h.debt hp id (by simpa [hqp] using hq) with hdebt | ⟨r, hrp, hr⟩
    · refine (hcare l s1 o hp hrun c ⟨q, by simpa [hqp] using hq⟩ hdebt).imp id fun ho => ⟨p, ?_⟩
      rw [update_self]
      exact .inr (by rwa [hloc])
    · exact .inr ⟨r, by simpa [hrp] using hr⟩
  | @inside _ p l s1 n x hp hrun hctl hshared hloc hsleep hwakes _ =>
    obtain ⟨hkeep, hwait⟩ := hcare l s1 n hp hrun
    rw [hctl] at hq
    rw [hctl, hshared]
    by_cases hqp : q = p
    · subst hqp
      obtain ⟨l', hn⟩ := hsleep c (by simpa using hq)
      exact .inl (hwait c l' hn)
    · rcases h.debt hp id (by simpa [hqp] using hq) with hdebt | ⟨r, hrp, hr⟩
      · refine (hkeep c ⟨q, by simpa [hqp] using hq⟩ hdebt).imp id fun ho => ⟨p, ?_⟩
        rw [update_self]
        exact ho.imp (hwakes c) fun ho => by rwa [hloc]
      · exact .inr ⟨r, by simpa [hrp] using hr⟩

/-! ## Runs -/

/-- The steps that obey the discipline. -/
def CarefulSteps (cl : Client S L C A E) (W : C → S → Prop) (owes : L → C → Prop)
    (s : Sys S L C) (l : Label A) (s' : Sys S L C) : Prop :=
  Steps cl s l s' ∧ Careful cl W owes s l

omit [DecidableEq C] in
theorem Initial.attended (h : Initial s) :
    Attended W owes s := by
  intro q c hq
  obtain ⟨l, hl⟩ := h.out q
  rw [hl] at hq
  exact hq.elim

theorem attended_of_run {s0 : Sys S L C}
    {ls : List (Label A)} (h0 : Initial s0) (h : Run (CarefulSteps cl W owes) s0 ls s) :
    Exclusive cl s ∧ Attended W owes s := by
  apply h.invariant (I := fun s => Exclusive cl s ∧ Attended W owes s)
  · exact ⟨h0.exclusive, h0.attended⟩
  · rintro s l s' ⟨hex, hatt⟩ ⟨hstep, hcare⟩
    exact ⟨hex.step hstep, hatt.step hex hcare hstep⟩

/-- `while (!cond) sleep(chan, lk)`: who sleeps on `chan` waits for `cond`. -/
def Awaits (cond : S → Prop) (chan c : C) (s : S) : Prop := c = chan → ¬ cond s

/-- At the places `pending`, the process has yet to call `wakeup(chan)`. -/
def Announces (pending : L → Prop) (chan : C) (l : L) (c : C) : Prop := c = chan ∧ pending l

/-- Let every process test `cond` with `lk` held before it sleeps on `chan`, and let
whoever makes `cond` true call `wakeup(chan)`, with `lk` held, at some later point.  Then
`cond` is false while somebody is SLEEPING on `chan` and nobody is about to wake it.  And
a process stops SLEEPING only by a scan of `wakeup` for its channel, or by `kill`. -/
theorem no_lost_wakeup (cond : S → Prop) (chan : C) (pending : L → Prop) {s0 : Sys S L C}
    {ls : List (Label A)} (h0 : Initial s0)
    (h : Run (CarefulSteps cl (Awaits cond chan) (Announces pending chan)) s0 ls s) :
    ¬ (cond s.shared ∧ (∀ p, ¬ (s.ctl p).Owes (Announces pending chan) chan) ∧
        ∃ q l, s.ctl q = .asleep chan l) ∧
      ∀ l s', Steps cl s l s' → ∀ q c l', s.ctl q = .asleep c l' →
        s'.ctl q = .asleep c l' ∨ l = .kill q ∨
          ∃ p l'', l = .run p ∧ s.ctl p = .wakeupScan c l'' := by
  constructor
  · rintro ⟨hcond, hnone, q, l, hq⟩
    rcases (attended_of_run h0 h).2 q chan (by rw [hq]; rfl) with hw | ⟨p, hp⟩
    · exact hw rfl hcond
    · exact hnone p hp
  · intro l s' hstep q c l' hq
    cases did_step hstep with
    | @moves _ _ p x hctl _ _ _ _ _ hasleep =>
      by_cases hqp : q = p
      · subst hqp
        rcases hasleep c l' hq with hkill | hx
        · exact .inr (.inl hkill)
        · exact .inl (by rw [hctl, hx, update_self])
      · exact .inl (by rw [hctl, update_of_ne hqp, hq])
    | idles hctl _ => exact .inl (by rw [hctl, hq])
    | @scans _ p c0 l0 x hp hctl _ _ _ _ =>
      by_cases hc : c = c0
      · subst hc
        exact .inr (.inr ⟨p, l0, rfl, hp⟩)
      · have hqp : q ≠ p := by
          rintro rfl
          rw [hq] at hp
          cases hp
        refine .inl ?_
        rw [hctl, update_of_ne hqp, hq, Ctl.wake, if_neg hc]
    | @calls _ p _ _ _ _ _ hp _ hctl _ _ _ =>
      have hqp : q ≠ p := by
        rintro rfl
        rw [hq] at hp
        cases hp
      exact .inl (by rw [hctl, update_of_ne hqp, hq])
    | @inside _ p _ _ _ _ hp _ hctl _ _ _ _ _ =>
      have hqp : q ≠ p := by
        rintro rfl
        rw [hq] at hp
        cases hp
      exact .inl (by rw [hctl, update_of_ne hqp, hq])

end Sync
end Xv6
