import Mathlib.Tactic

/-!
# Runs of an event-driven system

A system is a step function on states: an event either takes a state to the
next one or is not possible there.  A run feeds it a list of events.

## Main definitions

* `run step s es` — the state after the events `es`, if all of them are
  possible.
* `Throughout step C s es` — every event meets `C` in the state it comes in.
* `Sometime step B s es` — some event meets `B` in the state it comes in.
* `Always step Q s es` — every state of the run satisfies `Q`.
* `lastOf f es` — what the events write last, each of them writing `f e`.

## Main results

* `run_invariant`, `run_invariant_throughout` — **the invariant rules**: what
  every step preserves, or every step that meets a condition, a run preserves.
* `run_total` — the rule that also says that the run is possible.
* `run_mono` — what a step function does, a wider one does as well.
* `run_invariant_sometime` — the rule for an invariant that also says whether
  something has happened so far.
* `always_of_throughout`, `throughout_of_always` — the rules for `Always`.
* `exists_last` — events of a kind have a last one.
* `run_lastOf` — **a cell holds what was last written.**
-/

namespace KernelStudy

variable {σ ε : Type*}

/-- The state after a list of events; `none` if one of them is not possible
where it comes. -/
def run (step : σ → ε → Option σ) : σ → List ε → Option σ
  | s, [] => some s
  | s, e :: es =>
      match step s e with
      | none => none
      | some s' => run step s' es

/-- Every event meets `C` in the state it comes in. -/
def Throughout (step : σ → ε → Option σ) (C : σ → ε → Prop) : σ → List ε → Prop
  | _, [] => True
  | s, e :: es => C s e ∧ ∀ s', step s e = some s' → Throughout step C s' es

/-- Some event meets `B` in the state it comes in. -/
def Sometime (step : σ → ε → Option σ) (B : σ → ε → Prop) : σ → List ε → Prop
  | _, [] => False
  | s, e :: es => B s e ∨ ∃ s', step s e = some s' ∧ Sometime step B s' es

/-- Every state of the run satisfies `Q`, the first and the last included. -/
def Always (step : σ → ε → Option σ) (Q : σ → Prop) : σ → List ε → Prop
  | s, [] => Q s
  | s, e :: es => Q s ∧ ∀ s', step s e = some s' → Always step Q s' es

variable {step : σ → ε → Option σ}

@[simp] theorem run_nil (s : σ) : run step s [] = some s := rfl

/-- A run of one more event peels apart. -/
theorem run_cons_eq_some {s t : σ} {e : ε} {es : List ε} :
    run step s (e :: es) = some t ↔ ∃ s', step s e = some s' ∧ run step s' es = some t := by
  rw [run]
  cases step s e <;> simp

theorem run_append {s t : σ} : ∀ {es fs : List ε},
    run step s (es ++ fs) = some t ↔
      ∃ s', run step s es = some s' ∧ run step s' fs = some t := by
  intro es
  induction es generalizing s with
  | nil => intro fs; simp
  | cons e es ih =>
    intro fs
    rw [List.cons_append, run_cons_eq_some]
    constructor
    · rintro ⟨s₁, hs₁, hrest⟩
      obtain ⟨s₂, hs₂, ht⟩ := ih.mp hrest
      exact ⟨s₂, run_cons_eq_some.mpr ⟨s₁, hs₁, hs₂⟩, ht⟩
    · rintro ⟨s₂, hs₂, ht⟩
      obtain ⟨s₁, hs₁, hrest⟩ := run_cons_eq_some.mp hs₂
      exact ⟨s₁, hs₁, ih.mpr ⟨s₂, hrest, ht⟩⟩

/-- What one step function does, a wider one does as well. -/
theorem run_mono {step' : σ → ε → Option σ}
    (hstep : ∀ s e s', step s e = some s' → step' s e = some s') :
    ∀ (es : List ε) (s t : σ), run step s es = some t → run step' s es = some t := by
  intro es
  induction es with
  | nil => intro s t hr; exact hr
  | cons e es ih =>
    intro s t hr
    obtain ⟨s', hs', hr'⟩ := run_cons_eq_some.mp hr
    exact run_cons_eq_some.mpr ⟨s', hstep s e s' hs', ih s' t hr'⟩

/-- **The invariant rule under a condition on the steps.** -/
theorem run_invariant_throughout {I : σ → Prop} {C : σ → ε → Prop}
    (hstep : ∀ s e s', I s → C s e → step s e = some s' → I s') :
    ∀ (es : List ε) (s t : σ), I s → Throughout step C s es → run step s es = some t → I t := by
  intro es
  induction es with
  | nil =>
    intro s t hI _ hr
    rw [run_nil, Option.some.injEq] at hr
    exact hr ▸ hI
  | cons e es ih =>
    intro s t hI hC hr
    obtain ⟨s', hs', hr'⟩ := run_cons_eq_some.mp hr
    exact ih s' t (hstep s e s' hI hC.1 hs') (hC.2 s' hs') hr'

/-- A condition on the events alone holds throughout if each of them meets it. -/
theorem throughout_of_forall {P : ε → Prop} : ∀ (es : List ε) (s : σ), (∀ e ∈ es, P e) →
    Throughout step (fun _ e => P e) s es := by
  intro es
  induction es with
  | nil => intro s _; trivial
  | cons e es ih =>
    intro s h
    refine ⟨h e List.mem_cons_self, fun s' _ => ih s' ?_⟩
    intro e' he'
    exact h e' (List.mem_cons_of_mem _ he')

/-- **The invariant rule.** -/
theorem run_invariant {I : σ → Prop} (hstep : ∀ s e s', I s → step s e = some s' → I s')
    (es : List ε) (s t : σ) (hI : I s) (hr : run step s es = some t) : I t :=
  run_invariant_throughout (C := fun _ _ => True) (fun s e s' h _ hs => hstep s e s' h hs)
    es s t hI (throughout_of_forall es s fun _ _ => trivial) hr

/-- **The invariant rule with progress**: if every step is possible and keeps the
invariant, so is and does every run. -/
theorem run_total {I : σ → Prop} {P : ε → Prop}
    (hstep : ∀ s e, I s → P e → ∃ s', step s e = some s' ∧ I s') :
    ∀ (es : List ε) (s : σ), I s → (∀ e ∈ es, P e) → ∃ t, run step s es = some t ∧ I t := by
  intro es
  induction es with
  | nil => intro s hI _; exact ⟨s, rfl, hI⟩
  | cons e es ih =>
    intro s hI hP
    obtain ⟨s', hs', hI'⟩ := hstep s e hI (hP e List.mem_cons_self)
    obtain ⟨t, ht, hIt⟩ := ih s' hI' fun e' he' => hP e' (List.mem_cons_of_mem _ he')
    exact ⟨t, run_cons_eq_some.mpr ⟨s', hs', ht⟩, hIt⟩

/-- **The invariant rule with a history.**  `J b s` is the invariant of a state
before which something has happened exactly when `b`. -/
theorem run_invariant_sometime {J : Prop → σ → Prop} {B : σ → ε → Prop}
    (hstep : ∀ b s e s', J b s → step s e = some s' → J (b ∨ B s e) s') :
    ∀ (es : List ε) (b : Prop) (s t : σ), J b s → run step s es = some t →
      J (b ∨ Sometime step B s es) t := by
  intro es
  induction es with
  | nil =>
    intro b s t hJ hr
    rw [run_nil, Option.some.injEq] at hr
    subst hr
    simpa [Sometime] using hJ
  | cons e es ih =>
    intro b s t hJ hr
    obtain ⟨s', hs', hr'⟩ := run_cons_eq_some.mp hr
    have htail := ih (b ∨ B s e) s' t (hstep b s e s' hJ hs') hr'
    have hsome : (∃ s'', step s e = some s'' ∧ Sometime step B s'' es) ↔ Sometime step B s' es := by
      constructor
      · rintro ⟨s'', hs'', h⟩
        rw [hs', Option.some.injEq] at hs''
        exact hs'' ▸ h
      · intro h
        exact ⟨s', hs', h⟩
    simpa only [Sometime, hsome, or_assoc] using htail

/-- A run whose steps all meet the condition of an invariant stays in it. -/
theorem always_of_throughout {I Q : σ → Prop} {C : σ → ε → Prop} (hIQ : ∀ s, I s → Q s)
    (hstep : ∀ s e s', I s → C s e → step s e = some s' → I s') :
    ∀ (es : List ε) (s : σ), I s → Throughout step C s es → Always step Q s es := by
  intro es
  induction es with
  | nil => intro s hI _; exact hIQ s hI
  | cons e es ih =>
    intro s hI hC
    exact ⟨hIQ s hI, fun s' hs' => ih s' (hstep s e s' hI hC.1 hs') (hC.2 s' hs')⟩

/-- If the first step that fails the condition always leaves `Q`, a possible run
that stays in `Q` has no such step. -/
theorem throughout_of_always {I Q : σ → Prop} {C : σ → ε → Prop}
    (hstep : ∀ s e s', I s → C s e → step s e = some s' → I s')
    (hbad : ∀ s e s', I s → ¬ C s e → step s e = some s' → ¬ Q s') :
    ∀ (es : List ε) (s t : σ), I s → run step s es = some t → Always step Q s es →
      Throughout step C s es := by
  intro es
  induction es with
  | nil => intro s t _ _ _; trivial
  | cons e es ih =>
    intro s t hI hr hQ
    obtain ⟨s', hs', hr'⟩ := run_cons_eq_some.mp hr
    have hQ' := hQ.2 s' hs'
    have hhead : Q s' := by cases es with
      | nil => exact hQ'
      | cons _ _ => exact hQ'.1
    have hC : C s e := by
      by_contra hC
      exact hbad s e s' hI hC hs' hhead
    refine ⟨hC, fun s'' hs'' => ?_⟩
    rw [hs', Option.some.injEq] at hs''
    subst hs''
    exact ih s' t (hstep s e s' hI hC hs') hr' hQ'

/-- Events of a kind have a last one, if there are any. -/
theorem exists_last {α : Type*} (f : ε → Option α) (es : List ε) : (∀ e ∈ es, f e = none) ∨
    ∃ before e after a, es = before ++ e :: after ∧ f e = some a ∧ ∀ e ∈ after, f e = none := by
  cases hfind : es.reverse.findSome? f with
  | none =>
    left
    intro e he
    exact List.findSome?_eq_none_iff.mp hfind e (List.mem_reverse.mpr he)
  | some a =>
    right
    obtain ⟨after, e, before, hrev, ha, hafter⟩ := List.findSome?_eq_some_iff.mp hfind
    refine ⟨before.reverse, e, after.reverse, a, ?_, ha, fun e' he' => ?_⟩
    · rw [← List.reverse_reverse es, hrev]
      simp
    · exact hafter e' (List.mem_reverse.mp he')

/-- What the events write last. -/
def lastOf {α : Type*} (f : ε → Option α) (es : List ε) : Option α := (es.filterMap f).getLast?

theorem lastOf_cons {α : Type*} (f : ε → Option α) (e : ε) (es : List ε) :
    lastOf f (e :: es) = (lastOf f es).or (f e) := by
  unfold lastOf
  rw [List.filterMap_cons]
  cases f e with
  | none => rw [Option.or_none]
  | some a =>
    rw [List.getLast?_cons]
    cases (es.filterMap f).getLast? <;> rfl

/-- **A cell holds what was last written**, if each step writes what its event says. -/
theorem run_lastOf {α : Type*} {f : ε → Option α} (cell : σ → α) {I : σ → Prop}
    (hstep : ∀ s e s', I s → step s e = some s' → I s' ∧ cell s' = (f e).getD (cell s)) :
    ∀ (es : List ε) (s t : σ), I s → run step s es = some t →
      cell t = (lastOf f es).getD (cell s) := by
  intro es
  induction es with
  | nil =>
    intro s t _ hr
    cases hr
    rfl
  | cons e es ih =>
    intro s t hI hr
    obtain ⟨s', hs', hr'⟩ := run_cons_eq_some.mp hr
    obtain ⟨hI', hcell⟩ := hstep s e s' hI hs'
    rw [ih s' t hI' hr', hcell, lastOf_cons]
    cases lastOf f es <;> rfl

end KernelStudy
