import Mathlib.Tactic.Common

/-!
# Runs of a transition system

A transition system is given by the relation `R s l s'`: in state `s`, the step with
label `l` leads to `s'`.  A run is a finite sequence of such steps.  `Run.invariant` is
the one induction the safety proofs need: what holds at the start and survives every
step holds in every state a run reaches.
-/

namespace Xv6
namespace Lib

variable {σ ι : Type}

/-- `Run R s0 ls s`: the steps `ls`, in this order, lead from `s0` to `s`. -/
inductive Run (R : σ → ι → σ → Prop) (s0 : σ) : List ι → σ → Prop
  | nil : Run R s0 [] s0
  | snoc {ls : List ι} {l : ι} {s s' : σ} :
      Run R s0 ls s → R s l s' → Run R s0 (ls ++ [l]) s'

namespace Run

variable {R R' : σ → ι → σ → Prop} {s0 s s' : σ} {ls ls' : List ι}

/-- What holds at the start and is kept by every step holds at the end. -/
theorem invariant {I : σ → Prop} (hinit : I s0)
    (hstep : ∀ s l s', I s → R s l s' → I s') (h : Run R s0 ls s) : I s := by
  induction h with
  | nil => exact hinit
  | snoc _ hs ih => exact hstep _ _ _ ih hs

/-- A run of one system is a run of any system that allows the same steps. -/
theorem mono (hR : ∀ s l s', R s l s' → R' s l s') (h : Run R s0 ls s) : Run R' s0 ls s := by
  induction h with
  | nil => exact nil
  | snoc _ hs ih => exact ih.snoc (hR _ _ _ hs)

/-- As `mono`, for the labels of the run. -/
theorem mono_of_mem (hR : ∀ s, ∀ l ∈ ls, ∀ s', R s l s' → R' s l s') (h : Run R s0 ls s) :
    Run R' s0 ls s := by
  induction h with
  | nil => exact nil
  | snoc _ hs ih =>
    refine (ih fun s l hl => hR s l (List.mem_append_left _ hl)).snoc (hR _ _ ?_ _ hs)
    exact List.mem_append_right _ (List.mem_singleton_self _)

/-- As `mono`, for steps that the new system allows only in states with an invariant. -/
theorem mono_of_invariant {I : σ → Prop} (hinit : I s0) (hstep : ∀ s l s', I s → R s l s' → I s')
    (hR : ∀ s l s', I s → R s l s' → R' s l s') (h : Run R s0 ls s) : Run R' s0 ls s := by
  induction h with
  | nil => exact nil
  | snoc h hs ih => exact ih.snoc (hR _ _ _ (h.invariant hinit hstep) hs)

/-- What every step says of its label holds of every label of a run. -/
theorem forall_label {P : ι → Prop} (hP : ∀ s l s', R s l s' → P l) (h : Run R s0 ls s) :
    ∀ l ∈ ls, P l := by
  induction h with
  | nil => nofun
  | snoc _ hs ih =>
    intro l hl
    rcases List.mem_append.mp hl with hl | hl
    · exact ih l hl
    · cases List.mem_singleton.mp hl
      exact hP _ _ _ hs

/-- A run of one step. -/
theorem single {l : ι} (h : R s0 l s) : Run R s0 [l] s := nil.snoc h

/-- One run after another. -/
theorem append (h : Run R s0 ls s) (h' : Run R s ls' s') : Run R s0 (ls ++ ls') s' := by
  induction h' with
  | nil => simpa using h
  | snoc _ hs ih =>
    rw [← List.append_assoc]
    exact ih.snoc hs

/-- The last step of a run. -/
theorem of_snoc {l : ι} (h : Run R s0 (ls ++ [l]) s') : ∃ s, Run R s0 ls s ∧ R s l s' := by
  generalize hls : ls ++ [l] = ls' at h
  cases h with
  | nil => simp at hls
  | @snoc ls1 l1 s _ h hs =>
    obtain ⟨rfl, hl⟩ := List.append_inj' hls rfl
    cases hl
    exact ⟨s, h, hs⟩

/-- A run without steps goes nowhere. -/
theorem eq_of_nil (h : Run R s0 [] s) : s = s0 := by
  generalize hls : ([] : List ι) = ls' at h
  cases h with
  | nil => rfl
  | snoc _ _ => simp at hls

/-- The step of a run of one step. -/
theorem of_single {l : ι} (h : Run R s0 [l] s) : R s0 l s := by
  have h : Run R s0 ([] ++ [l]) s := h
  obtain ⟨s1, h1, hs⟩ := h.of_snoc
  rwa [h1.eq_of_nil] at hs

/-- Executing the steps one after the other gives a run. -/
theorem of_foldlM {next : σ → ι → Option σ} (hR : ∀ s l s', next s l = some s' → R s l s')
    (h : ls.foldlM next s0 = some s) : Run R s0 ls s := by
  induction ls generalizing s0 with
  | nil =>
    cases h
    exact nil
  | cons l ls ih =>
    rw [List.foldlM_cons] at h
    obtain ⟨s1, hl, hrest⟩ := Option.bind_eq_some_iff.mp h
    exact (single (hR _ _ _ hl)).append (ih hrest)

theorem exists_of_any {next : σ → ι → Option σ} {P : σ → Bool}
    (hR : ∀ s l s', next s l = some s' → R s l s') (h : (ls.foldlM next s0).any P = true) :
    ∃ s, Run R s0 ls s ∧ P s = true := by
  obtain ⟨s, hs, hP⟩ := (Option.any_eq_true _ _).mp h
  exact ⟨s, of_foldlM hR hs, hP⟩

theorem ok_of_toOption {ε : Type} {x : Except ε σ} (h : x.toOption = some s) : x = .ok s := by
  cases x with
  | error e => cases h
  | ok s' =>
    cases h
    rfl

theorem of_toOption {ε : Type} {step : ι → σ → Except ε σ}
    (h : ls.foldlM (fun s l => (step l s).toOption) s0 = some s) :
    Run (fun s l s' => step l s = .ok s') s0 ls s :=
  of_foldlM (fun _ _ _ => ok_of_toOption) h

/-- Can all steps be executed, each passing the test `T`, and does the last state pass the test
`P`? -/
def passesAll {ε : Type} (step : ι → σ → Except ε σ) (T : σ → ι → σ → Bool) (ls : List ι) (s0 : σ)
    (P : σ → Bool) : Bool :=
  (ls.foldlM (fun s l => (step l s).toOption.filter (T s l)) s0).any P

theorem exists_of_passesAll {ε : Type} {step : ι → σ → Except ε σ} {T : σ → ι → σ → Bool}
    {P : σ → Bool} (h : passesAll step T ls s0 P = true) :
    ∃ s, Run (fun s l s' => step l s = .ok s' ∧ T s l s' = true) s0 ls s ∧ P s = true := by
  refine exists_of_any ?_ h
  intro s l s' hs
  obtain ⟨hstep, hT⟩ := Option.filter_eq_some_iff.mp hs
  exact ⟨ok_of_toOption hstep, hT⟩

/-- As `passesAll`, without a test of the steps. -/
def passes {ε : Type} (step : ι → σ → Except ε σ) (ls : List ι) (s0 : σ) (P : σ → Bool) : Bool :=
  passesAll step (fun _ _ _ => true) ls s0 P

theorem exists_of_passes {ε : Type} {step : ι → σ → Except ε σ} {P : σ → Bool}
    (h : passes step ls s0 P = true) :
    ∃ s, Run (fun s l s' => step l s = .ok s') s0 ls s ∧ P s = true := by
  obtain ⟨s, hrun, hP⟩ := exists_of_passesAll h
  exact ⟨s, hrun.mono fun _ _ _ hs => hs.1, hP⟩

end Run

end Lib
end Xv6
