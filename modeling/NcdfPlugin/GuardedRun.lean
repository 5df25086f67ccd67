import Mathlib.Data.List.Basic

/-!
# Guarded runs of a deterministic step function

A run is a list of events folded through a total step function. `Along`
states a property of every step of a run, at the state the step starts
from. Invariants are proved for one step and carried through whole runs;
the exactness rule turns a one-step equivalence into one about runs.
-/

namespace NcdfPlugin.GuardedRun

variable {σ ε : Type*}

/-- State reached after the events have been executed in order. -/
def run (step : σ → ε → σ) (start : σ) (events : List ε) : σ := events.foldl step start

/-- Property of every executed step, read at the state before that step. -/
def Along (step : σ → ε → σ) (P : σ → ε → Prop) : σ → List ε → Prop
  | _,[] => True
  | s,e::events => P s e ∧ Along step P (step s e) events

variable {step : σ → ε → σ} {P G : σ → ε → Prop} {Inv Good : σ → Prop}

@[simp] theorem run_nil (s : σ) : run step s []=s := rfl

@[simp] theorem run_cons (s : σ) (e : ε) (events : List ε) :
    run step s (e::events)=run step (step s e) events := rfl

/-- A run over two lists of events is the run over the second one from where the first one
ends. -/
theorem run_append (s : σ) (first second : List ε) :
    run step s (first++second)=run step (run step s first) second :=
  List.foldl_append

@[simp] theorem along_nil (s : σ) : Along step P s [] := trivial

@[simp] theorem along_cons (s : σ) (e : ε) (events : List ε) :
    Along step P s (e::events) ↔ P s e ∧ Along step P (step s e) events := Iff.rfl

/-- A property holds along a run exactly when it holds along both of its parts. -/
theorem along_append (s : σ) (first second : List ε) :
    Along step P s (first++second) ↔ Along step P s first ∧ Along step P (run step s first) second := by
  induction first generalizing s with
  | nil => simp
  | cons e first ih => simp [ih,and_assoc]

/-- An invariant of every step with an admissible event is an invariant of
every run of such events. -/
theorem run_invariant_ok {Ok : ε → Prop} (hstep : ∀ s e, Inv s → Ok e → Inv (step s e)) {s : σ}
    (hs : Inv s) {events : List ε} (hok : ∀ e∈events,Ok e) : Inv (run step s events) := by
  induction events generalizing s with
  | nil => exact hs
  | cons e events ih =>
    obtain ⟨hhead,htail⟩ := List.forall_mem_cons.mp hok
    exact ih (hstep s e hs hhead) htail

/-- An invariant of every step is an invariant of every run. -/
theorem run_invariant_all (hstep : ∀ s e, Inv s → Inv (step s e)) {s : σ}
    (hs : Inv s) (events : List ε) : Inv (run step s events) :=
  run_invariant_ok (fun s e h (_ : True) => hstep s e h) hs fun _ _ => trivial

/-- A guarded invariant that yields the property at each guarded step
yields it along every guarded run. -/
theorem along_of_invariant (hstep : ∀ s e, Inv s → G s e → Inv (step s e))
    (hP : ∀ s e, Inv s → G s e → P s e) {s : σ} {events : List ε}
    (hs : Inv s) (hg : Along step G s events) : Along step P s events := by
  induction events generalizing s with
  | nil => trivial
  | cons e events ih => exact ⟨hP s e hs hg.1,ih (hstep s e hs hg.1) hg.2⟩

/-- Exactness rule. When, on states satisfying an unconditional invariant,
a step keeps a good state good exactly under the guard, a run visits good
states only exactly when every one of its steps meets the guard. -/
theorem along_good_iff (hstep : ∀ s e, Inv s → Inv (step s e))
    (hexact : ∀ s e, Inv s → Good s → (Good (step s e) ↔ G s e))
    {s : σ} {events : List ε} (hs : Inv s) (hgood : Good s) :
    Along step (fun s e => Good (step s e)) s events ↔ Along step G s events := by
  induction events generalizing s with
  | nil => exact Iff.rfl
  | cons e events ih =>
    rw [along_cons,along_cons]
    constructor
    · rintro ⟨hhead,htail⟩
      exact ⟨(hexact s e hs hgood).mp hhead,(ih (hstep s e hs) hhead).mp htail⟩
    · rintro ⟨hhead,htail⟩
      have hnext := (hexact s e hs hgood).mpr hhead
      exact ⟨hnext,(ih (hstep s e hs) hnext).mpr htail⟩

section Effects

variable {ι : Type*} {emit : σ → ε → List ι} {Ok : ε → Prop} {Allowed : ι → Prop}

/-- What the steps of a run emit, in order. -/
def emitted (step : σ → ε → σ) (emit : σ → ε → List ι) : σ → List ε → List ι
  | _,[] => []
  | s,e::events => emit s e++emitted step emit (step s e) events

/-- When every state of the invariant emits allowed effects only, so does
every run. -/
theorem emitted_allowed (hstep : ∀ s e, Inv s → Ok e → Inv (step s e))
    (hemit : ∀ s e, Inv s → Ok e → ∀ x∈emit s e,Allowed x) {s : σ} (hs : Inv s)
    {events : List ε} (hok : ∀ e∈events,Ok e) : ∀ x∈emitted step emit s events,Allowed x := by
  induction events generalizing s with
  | nil =>
    intro x hx
    cases hx
  | cons e events ih =>
    obtain ⟨hhead,htail⟩ := List.forall_mem_cons.mp hok
    intro x hx
    rcases List.mem_append.mp hx with hfirst | hlater
    · exact hemit s e hs hhead x hfirst
    · exact ih (hstep s e hs hhead) htail x hlater

end Effects

section Simulation

variable {τ ε' ι : Type*} {step' : τ → ε' → τ} {view : σ → τ} {events' : σ → ε → List ε'}
  {emit : σ → ε → List ι} {emit' : τ → ε' → List ι}

/-- What a run emits is emitted by its first part and then by its second one. -/
theorem emitted_append (s : σ) (first second : List ε) :
    emitted step emit s (first++second)=
      emitted step emit s first++emitted step emit (run step s first) second := by
  induction first generalizing s with
  | nil => rfl
  | cons e first ih => rw [List.cons_append,emitted,ih,emitted,run_cons,List.append_assoc]

/-- When each step is a run of another machine on the view of the state, so is
every run. -/
theorem run_simulates (hstep : ∀ s e,view (step s e)=run step' (view s) (events' s e)) (s : σ)
    (events : List ε) : view (run step s events)=run step' (view s) (emitted step events' s events) := by
  induction events generalizing s with
  | nil => rfl
  | cons e events ih => rw [run_cons,ih,hstep,emitted,run_append]

/-- When each step also emits what the other machine emits, so does every run. -/
theorem emitted_simulates (hstep : ∀ s e,view (step s e)=run step' (view s) (events' s e))
    (hemit : ∀ s e,emit s e=emitted step' emit' (view s) (events' s e)) (s : σ) (events : List ε) :
    emitted step emit s events=emitted step' emit' (view s) (emitted step events' s events) := by
  induction events generalizing s with
  | nil => rfl
  | cons e events ih => rw [emitted,ih,hstep,hemit,emitted,emitted_append]

end Simulation

section Carrying

variable {β ι : Type*} {held : σ → β} {sets : ε → Option β} {emit : σ → ε → List ι} {out : σ → ε → ι}

/-- A value that steps set or keep is at the end the one set last. -/
theorem run_carries (hstep : ∀ s e,held (step s e)=(sets e).getD (held s)) (s : σ) (events : List ε) :
    held (run step s events)=((events.filterMap sets).getLast?).getD (held s) := by
  induction events generalizing s with
  | nil => rfl
  | cons e events ih =>
    rw [run_cons,ih,hstep]
    cases hset : sets e with
    | none => rw [List.filterMap_cons_none hset,Option.getD_none]
    | some b =>
      rw [List.filterMap_cons_some hset,List.getLast?_cons,Option.getD_some,Option.getD_some]

/-- When every step emits one thing, the run emits one for each event, made in the
state that the events before it have led to. -/
theorem emitted_getElem? (hone : ∀ s e,emit s e=[out s e]) (s : σ) (events : List ε) (i : ℕ) :
    (emitted step emit s events)[i]? = (events[i]?).map (out (run step s (events.take i))) := by
  induction events generalizing s i with
  | nil => rfl
  | cons e events ih =>
    rw [emitted,hone,List.singleton_append]
    cases i with
    | zero => rfl
    | succ i => exact ih (step s e) i

/-- Where every step emits one effect a run emits as many as it has steps. -/
theorem emitted_length (hone : ∀ s e,emit s e=[out s e]) (s : σ) (events : List ε) :
    (emitted step emit s events).length=events.length := by
  induction events generalizing s with
  | nil => rfl
  | cons e events ih => rw [emitted,hone,List.singleton_append,List.length_cons,List.length_cons,ih]

end Carrying

end NcdfPlugin.GuardedRun
