import Mathlib.Data.List.Basic

/-! Runs of a labelled transition system. A run keeps its labels, oldest first,
so that a property of the whole history is a property of the label list. The
rules below turn a fact about one step into a fact about every run. -/
namespace Lobbylink.Lib.Runs

structure System (State Label : Type) where
  init : State → Prop
  step : State → Label → State → Prop

variable {State Label : Type} {sys : System State Label}

inductive Run (sys : System State Label) : List Label → State → Prop where
  | init {s : State} : sys.init s → Run sys [] s
  | step {ls : List Label} {s t : State} {l : Label} :
      Run sys ls s → sys.step s l t → Run sys (ls ++ [l]) t

/-- Steps from one state to another, without the condition on where they start. -/
inductive Steps (sys : System State Label) (s : State) : List Label → State → Prop where
  | refl : Steps sys s [] s
  | snoc {ls : List Label} {t u : State} {l : Label} :
      Steps sys s ls t → sys.step t l u → Steps sys s (ls ++ [l]) u

/-- The same system with only those steps whose source and label meet `ok`. -/
def System.restrict (sys : System State Label) (ok : State → Label → Prop) :
    System State Label where
  init := sys.init
  step := fun s l t => ok s l ∧ sys.step s l t

theorem Run.history (inv : List Label → State → Prop)
    (hinit : ∀ s, sys.init s → inv [] s)
    (hstep : ∀ ls s l t, Run sys ls s → inv ls s → sys.step s l t → inv (ls ++ [l]) t)
    {ls : List Label} {s : State} (run : Run sys ls s) : inv ls s := by
  induction run with
  | init h => exact hinit _ h
  | step run h ih => exact hstep _ _ _ _ run ih h

theorem Run.invariant (inv : State → Prop) (hinit : ∀ s, sys.init s → inv s)
    (hstep : ∀ s l t, inv s → sys.step s l t → inv t)
    {ls : List Label} {s : State} (run : Run sys ls s) : inv s :=
  run.history (fun _ s => inv s) hinit fun _ s l t _ h hs => hstep s l t h hs

theorem Run.unrestrict {ok : State → Label → Prop} {ls : List Label} {s : State}
    (run : Run (sys.restrict ok) ls s) : Run sys ls s := by
  induction run with
  | init h => exact .init h
  | step _ h ih => exact ih.step h.2

theorem Run.restrict {ok : State → Label → Prop} {ls : List Label} {s : State}
    (run : Run sys ls s) (h : ∀ l ∈ ls, ∀ s, ok s l) : Run (sys.restrict ok) ls s := by
  induction run with
  | init hs => exact .init hs
  | @step ls s t l _ hs ih =>
    have hl : ok s l := h l (by simp) s
    exact (ih fun m hm => h m (by simp [hm])).step ⟨hl, hs⟩

/-- The state after some labels, if each of them can be taken. -/
def follow (next : State → Label → Option State) : List Label → State → Option State
  | [], s => some s
  | l :: ls, s => (next s l).bind (follow next ls)

theorem Run.follow {next : State → Label → Option State}
    (hnext : ∀ s l t, next s l = some t → sys.step s l t) {ls ms : List Label} {s t : State}
    (run : Run sys ls s) (h : Runs.follow next ms s = some t) : Run sys (ls ++ ms) t := by
  induction ms generalizing ls s with
  | nil =>
    cases h
    simpa using run
  | cons l rest ih =>
    obtain ⟨u, hu, hrest⟩ := Option.bind_eq_some_iff.1 h
    simpa using ih (run.step (hnext _ _ _ hu)) hrest

theorem Steps.invariant (inv : State → Prop)
    (hstep : ∀ s l t, inv s → sys.step s l t → inv t)
    {s t : State} {ls : List Label} (steps : Steps sys s ls t) (h : inv s) : inv t := by
  induction steps with
  | refl => exact h
  | snoc _ hs ih => exact hstep _ _ _ ih hs

theorem Run.steps {ls : List Label} {s : State} (run : Run sys ls s) :
    ∃ first, sys.init first ∧ Steps sys first ls s := by
  induction run with
  | @init s h => exact ⟨s, h, .refl⟩
  | step _ hs ih =>
    obtain ⟨first, hfirst, steps⟩ := ih
    exact ⟨first, hfirst, steps.snoc hs⟩

theorem Run.append {ls ms : List Label} {s t : State} (run : Run sys ls s)
    (steps : Steps sys s ms t) : Run sys (ls ++ ms) t := by
  induction steps with
  | refl => simpa using run
  | snoc _ hs ih => simpa using ih.step hs

theorem Steps.restrict {ok : State → Label → Prop} {ls : List Label} {s t : State}
    (steps : Steps sys s ls t) (h : ∀ l ∈ ls, ∀ s, ok s l) :
    Steps (sys.restrict ok) s ls t := by
  induction steps with
  | refl => exact .refl
  | @snoc ls u v l _ hs ih =>
    have hl : ok u l := h l (by simp) u
    exact (ih fun m hm => h m (by simp [hm])).snoc ⟨hl, hs⟩

/-- A flag that a step sets exactly when it reaches `cond` is set in the states
from the first one on that meets `cond`. -/
theorem Run.latched (flag cond : State → Prop)
    (hinit : ∀ s, sys.init s → ¬flag s ∧ ¬cond s)
    (hstep : ∀ ls s l t, Run sys ls s → sys.step s l t → (flag t ↔ flag s ∨ cond t))
    {ls : List Label} {s : State} (run : Run sys ls s) :
    flag s ↔ ∃ before after t, ls = before ++ after ∧ Run sys before t ∧
      Steps sys t after s ∧ cond t := by
  constructor
  · intro h
    induction run with
    | init hs => exact absurd h (hinit _ hs).1
    | @step ls s t l run hs ih =>
      rcases (hstep ls s l t run hs).1 h with h | h
      · obtain ⟨before, after, u, rfl, hu, hsteps, hcond⟩ := ih h
        exact ⟨before, after ++ [l], u, by simp, hu, hsteps.snoc hs, hcond⟩
      · exact ⟨ls ++ [l], [], t, by simp, run.step hs, .refl, h⟩
  · rintro ⟨before, after, t, -, ht, hsteps, hcond⟩
    have hflag : flag t := by
      cases ht with
      | init hs => exact absurd hcond (hinit _ hs).2
      | step run hs => exact (hstep _ _ _ _ run hs).2 (.inr hcond)
    have hinv := hsteps.invariant (fun s => (∃ ls, Run sys ls s) ∧ flag s) ?_ ⟨⟨_, ht⟩, hflag⟩
    · exact hinv.2
    · rintro s l t ⟨⟨ls, run⟩, h⟩ hs
      exact ⟨⟨_, run.step hs⟩, (hstep ls s l t run hs).2 (.inl h)⟩

/-- Every step of a run leaves a state that an earlier part of the run reached. -/
theorem Run.split {ls : List Label} {s : State} (run : Run sys ls s) {l : Label}
    {before after : List Label} (h : ls = before ++ l :: after) :
    ∃ t u, Run sys before t ∧ sys.step t l u ∧ Steps sys u after s := by
  induction run generalizing after with
  | init _ => simp at h
  | @step ms t u m run hs ih =>
    rcases List.eq_nil_or_concat after with rfl | ⟨rest, last, rfl⟩
    · obtain ⟨rfl, hm⟩ := List.append_inj' h rfl
      obtain rfl : m = l := by simpa using hm
      exact ⟨t, u, run, hs, .refl⟩
    · have h' : ms ++ [m] = (before ++ l :: rest) ++ [last] := by simpa using h
      obtain ⟨hms, hm⟩ := List.append_inj' h' rfl
      obtain rfl : m = last := by simpa using hm
      obtain ⟨v, w, hv, hl, hsteps⟩ := ih hms
      refine ⟨v, w, hv, hl, ?_⟩
      rw [List.concat_eq_append]
      exact hsteps.snoc hs

variable {State' Input Output : Type}

def answers (next : State → Input → State × Output) : State → List Input → List Output
  | _, [] => []
  | s, i :: rest => (next s i).2 :: answers next (next s i).1 rest

/-- Where each step of one machine is a step of the other with the same answer, all
answers are the same. -/
theorem answers_eq {next : State → Input → State × Output}
    {next' : State' → Input → State' × Output} (sim : State → State' → Prop)
    (hstep : ∀ s s' i, sim s s' →
      sim (next s i).1 (next' s' i).1 ∧ (next' s' i).2 = (next s i).2)
    {s : State} {s' : State'} (h : sim s s') (inputs : List Input) :
    answers next' s' inputs = answers next s inputs := by
  induction inputs generalizing s s' with
  | nil => rfl
  | cons i rest ih =>
    obtain ⟨hnext, hanswer⟩ := hstep s s' i h
    rw [answers, answers, hanswer, ih hnext]

end Lobbylink.Lib.Runs
