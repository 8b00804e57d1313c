import KernelStudy.HomeHack.Path
import KernelStudy.Lib.Run

/-!
# Tasks that share memory

Threads share one address space, but each has its own `hp_buf`.  A hooked system
call is a bracket: `replace_path_if_necessary` first and, if it returned an
address, `restore_path` at the end.  Between the two any number of brackets of
other tasks may begin and end.

A backup taken inside another bracket holds that bracket's rewrite, so the
memory is healed only if the bracket that saved the original bytes is the last
one to put its bytes back.  The brackets are kept in the order they began;
`oldest s x` is the first of them whose window covers `x`, and it is the one
whose backup is the original byte.

## Main definitions

* `Shared`, `Event`, `step` — the tasks, their brackets, and one step.
* `EndsInOrder` — the condition on a step: no bracket ends as the oldest one over
  a byte while another one is open over it, and no rewrite is reported as none.

## Main results

* `healed_step` — a step that meets the condition keeps the originals at hand.
* `shared_memory_restored` — **the memory is what it was whenever no bracket is
  open.**
-/

namespace KernelStudy
namespace HomeHack

variable {τ : Type*} {p : ProtMap}

/-! ### The system -/

/-- Tasks sharing one user memory. -/
structure Shared (τ : Type*) where
  /-- The shared memory. -/
  mem : Mem
  /-- The tasks, each with its own node and backup. -/
  task : τ → TaskStruct
  /-- The brackets that have begun and not ended, with their paths, oldest first. -/
  opened : List (τ × Addr)

/-- A task begins or ends a bracket. -/
inductive Event (τ : Type*) where
  /-- `replace_path_if_necessary(f)`, with what lies on the stack. -/
  | start (t : τ) (f : Addr) (tmp : ℕ → UInt8)
  /-- `restore_path` for the path the task began with. -/
  | finish (t : τ)

/-- One step.  A task runs one system call at a time, and ends a bracket only if
it was given an address. -/
def step [DecidableEq τ] (p : ProtMap) (s : Shared τ) : Event τ → Option (Shared τ)
  | .start t f tmp =>
      if t ∈ s.opened.map Prod.fst then none
      else
        let r := replacePathIfNecessary p tmp s.mem (s.task t) f
        some { mem := r.2.1
               task := Function.update s.task t r.2.2
               opened := if r.1 = 0#32 then s.opened else s.opened ++ [(t, f)] }
  | .finish t =>
      match s.opened.find? fun b => b.1 = t with
      | none => none
      | some b =>
          some { mem := restorePath p s.mem (s.task t) b.2
                 task := s.task
                 opened := s.opened.filter fun c => c.1 ≠ t }

/-- The first of the open brackets whose window covers `x`. -/
def oldest (s : Shared τ) (x : Addr) : Option (τ × Addr) :=
  s.opened.find? fun b => Window b.2 x

/-- The condition on a step. -/
def EndsInOrder (p : ProtMap) (s : Shared τ) : Event τ → Prop
  | .start _ f _ => ¬ (f = 8#32 ∧ HomePath p s.mem f)
  | .finish t => ∀ b x, b.1 = t → Writable p x → oldest s x = some b →
      ∀ c ∈ s.opened, Window c.2 x → c = b

/-! ### The invariant -/

/-- The original memory `m₀` is at hand: a byte no bracket covers is the original
one, and of those that cover it the oldest has saved the original. -/
structure Healed (p : ProtMap) (m₀ : Mem) (s : Shared τ) : Prop where
  /-- A task has one bracket at most. -/
  nodup : (s.opened.map Prod.fst).Nodup
  /-- Nothing ever reaches a byte that cannot be written. -/
  readOnly : ∀ x, ¬ Writable p x → s.mem x = m₀ x
  /-- An uncovered byte is the original. -/
  uncovered : ∀ x, Writable p x → oldest s x = none → s.mem x = m₀ x
  /-- The oldest bracket over a byte has saved the original. -/
  covered : ∀ x b (h : Window b.2 x), Writable p x → oldest s x = some b →
    (s.task b.1).hpBuf h.index = m₀ x

/-- The first hit of a search survives a filter that keeps it. -/
theorem find?_filter_of_pos {α : Type*} {q r : α → Bool} {b : α} : ∀ {l : List α},
    l.find? q = some b → r b = true → (l.filter r).find? q = some b := by
  intro l
  induction l with
  | nil => intro h _; simp at h
  | cons a l ih =>
    intro h hr
    by_cases hq : q a = true
    · rw [List.find?_cons_of_pos hq, Option.some.injEq] at h
      subst h
      rw [List.filter_cons_of_pos hr, List.find?_cons_of_pos hq]
    · rw [List.find?_cons_of_neg hq] at h
      by_cases hra : r a = true
      · rw [List.filter_cons_of_pos hra, List.find?_cons_of_neg hq]
        exact ih h hr
      · rw [List.filter_cons_of_neg hra]
        exact ih h hr

theorem window_of_oldest {s : Shared τ} {x : Addr} {b : τ × Addr} (h : oldest s x = some b) :
    Window b.2 x := by
  simpa using List.find?_some h

theorem mem_of_oldest {s : Shared τ} {x : Addr} {b : τ × Addr} (h : oldest s x = some b) :
    b ∈ s.opened := List.mem_of_find?_eq_some h

variable [DecidableEq τ]

/-- Beginning a bracket. -/
theorem healed_start {m₀ : Mem} {s : Shared τ} {t : τ} {f : Addr} {tmp : ℕ → UInt8}
    {s' : Shared τ} (h : Healed p m₀ s) (hc : EndsInOrder p s (.start t f tmp))
    (hs : step p s (.start t f tmp) = some s') : Healed p m₀ s' := by
  simp only [step] at hs
  split at hs
  · cases hs
  · next hfresh =>
    rw [Option.some.injEq] at hs
    subst hs
    by_cases hp : HomePath p s.mem f
    · have hne : f - 8#32 ≠ 0#32 := fun h0 => hc ⟨by bv_omega, hp⟩
      simp only [replacePathIfNecessary_of_homePath hp, if_neg hne]
      refine ⟨?_, ?_, ?_, ?_⟩
      · rw [List.map_append, List.nodup_append]
        refine ⟨h.nodup, by simp, ?_⟩
        intro a ha b hb
        rw [List.map_cons, List.map_nil, List.mem_singleton] at hb
        subst hb
        exact fun hab => hfresh (hab ▸ ha)
      · intro x hw
        dsimp only
        rw [rewritten_of_not_window fun hx => hw hx.1]
        exact h.readOnly x hw
      · intro x hw hold
        simp only [oldest, List.find?_append, Option.or_eq_none_iff, List.find?_singleton] at hold
        have hx : ¬ Window f x := by simpa using hold.2
        dsimp only
        rw [rewritten_of_not_window fun hx' => hx hx'.2]
        exact h.uncovered x hw hold.1
      · intro x b hb hw hold
        simp only [oldest, List.find?_append] at hold
        cases hx : oldest s x with
        | some c =>
          -- an older bracket over the byte stays the oldest, and keeps its backup
          rw [show s.opened.find? _ = some c from hx, Option.some_or, Option.some.injEq] at hold
          subst hold
          have hct : c.1 ≠ t := by
            rintro rfl
            exact hfresh (List.mem_map_of_mem (mem_of_oldest hx))
          simp only [Function.update_of_ne hct]
          exact h.covered x c hb hw hx
        | none =>
          -- the new bracket is the first one here: it has just saved the byte
          rw [show s.opened.find? _ = none from hx, Option.none_or] at hold
          have hbf : b = (t, f) := by simpa using List.mem_of_find?_eq_some hold
          subst hbf
          simp only [Function.update_self]
          refine (backup_index hb).trans ?_
          rw [getUser_of_readable hw.readable]
          exact h.uncovered x hw hx
    · simp only [replacePathIfNecessary_of_not_homePath hp, if_true, Function.update_eq_self]
      exact ⟨h.nodup, h.readOnly, h.uncovered, h.covered⟩

/-- Ending a bracket. -/
theorem healed_finish {m₀ : Mem} {s : Shared τ} {t : τ} {s' : Shared τ} (h : Healed p m₀ s)
    (hc : EndsInOrder p s (.finish t)) (hs : step p s (.finish t) = some s') :
    Healed p m₀ s' := by
  simp only [step] at hs
  split at hs
  · cases hs
  · next b hb =>
    rw [Option.some.injEq] at hs
    subst hs
    have hbt : b.1 = t := by simpa using List.find?_some hb
    have hbmem : b ∈ s.opened := List.mem_of_find?_eq_some hb
    have huniq : ∀ c ∈ s.opened, c.1 = t → c = b := by
      intro c hcm hct
      exact List.inj_on_of_nodup_map h.nodup hcm hbmem (hct.trans hbt.symm)
    have hkeep : ∀ x c, oldest s x = some c → c ≠ b →
        (s.opened.filter fun c => c.1 ≠ t).find? (fun b => Window b.2 x) = some c := by
      intro x c hx hcb
      refine find?_filter_of_pos hx ?_
      simpa using fun hct => hcb (huniq c (mem_of_oldest hx) hct)
    refine ⟨?_, ?_, ?_, ?_⟩
    · exact h.nodup.sublist ((List.filter_sublist).map _)
    · intro x hw
      dsimp only
      rw [restorePath_of_not_window fun hx => hw hx.1]
      exact h.readOnly x hw
    · intro x hw hold
      cases hx : oldest s x with
      | none =>
        have hnx : ¬ Window b.2 x := by
          have := List.find?_eq_none.mp hx b hbmem
          simpa using this
        dsimp only
        rw [restorePath_of_not_window fun hx' => hnx hx'.2]
        exact h.uncovered x hw hx
      | some c =>
        by_cases hcb : c = b
        · subst hcb
          subst hbt
          dsimp only
          rw [restorePath_of_window hw (window_of_oldest hx)]
          exact h.covered x c _ hw hx
        · have := hkeep x c hx hcb
          rw [oldest, this] at hold
          cases hold
    · intro x c hcx hw hold
      cases hx : oldest s x with
      | none =>
        -- a bracket open now was open before
        have hcm := List.mem_of_find?_eq_some hold
        exact absurd (decide_eq_true hcx) (List.find?_eq_none.mp hx c (List.mem_of_mem_filter hcm))
      | some d =>
        by_cases hdb : d = b
        · -- the ending bracket was the oldest here, so it was the only one
          subst hdb
          have hcm := List.mem_of_find?_eq_some hold
          have hcd := hc d x hbt hw hx c (List.mem_of_mem_filter hcm) hcx
          subst hcd
          simp [hbt] at hcm
        · have := hkeep x d hx hdb
          rw [oldest, this, Option.some.injEq] at hold
          subst hold
          exact h.covered x d hcx hw hx

/-- **A step that meets the condition keeps the original memory at hand.** -/
theorem healed_step {m₀ : Mem} (s : Shared τ) (e : Event τ) (s' : Shared τ) (h : Healed p m₀ s)
    (hc : EndsInOrder p s e) (hs : step p s e = some s') : Healed p m₀ s' := by
  cases e with
  | start t f tmp => exact healed_start h hc hs
  | finish t => exact healed_finish h hc hs

/-- **In a run whose steps meet the condition, the memory is what it was at the
start whenever no bracket is open.** -/
theorem shared_memory_restored (p : ProtMap) (s s' : Shared τ) (es : List (Event τ))
    (hstart : s.opened = []) (hc : Throughout (step p) (EndsInOrder p) s es)
    (hr : run (step p) s es = some s') (hend : s'.opened = []) : s'.mem = s.mem := by
  have hinit : Healed p s.mem s := by
    refine ⟨by simp [hstart], fun _ _ => rfl, fun _ _ _ => rfl, ?_⟩
    intro x b _ _ hold
    simp [oldest, hstart] at hold
  have hfinal := run_invariant_throughout healed_step es s s' hinit hc hr
  funext x
  by_cases hw : Writable p x
  · exact hfinal.uncovered x hw (by simp [oldest, hend])
  · exact hfinal.readOnly x hw

/-- Two tasks of node 1 in front of the same home path. -/
def twoTasks : Shared Bool :=
  ⟨textAt 0x1010#32 (bytes "/home/a"), fun _ => ⟨1, 1, 1, fun _ => 0, 0⟩, []⟩

/-- Both tasks have begun. -/
def bothBegin : List (Event Bool) :=
  [.start true 0x1010#32 fun _ => 0, .start false 0x1010#32 fun _ => 0]

/-- If the call that began second ends first, the memory is restored. -/
theorem nested_brackets_restored :
    ∃ s', run (step fun _ => .writable) twoTasks (bothBegin ++ [.finish false, .finish true]) =
      some s' ∧ s'.opened = [] ∧ s'.mem = twoTasks.mem := by
  have hopened : (run (step fun _ => .writable) twoTasks
      (bothBegin ++ [.finish false, .finish true])).map Shared.opened = some [] := by decide
  obtain ⟨s', hr, hend⟩ := Option.map_eq_some_iff.mp hopened
  refine ⟨s', hr, hend, shared_memory_restored _ twoTasks s' _ rfl ?_ hr hend⟩
  have hopened₂ : (run (step fun _ => .writable) twoTasks bothBegin).map Shared.opened =
      some [(true, 0x1010#32), (false, 0x1010#32)] := by decide
  have hopened₃ : (run (step fun _ => .writable) twoTasks
      (bothBegin ++ [.finish false])).map Shared.opened = some [(true, 0x1010#32)] := by decide
  refine ⟨fun h => absurd h.1 (by decide), fun s₁ h₁ => ⟨fun h => absurd h.1 (by decide), ?_⟩⟩
  intro s₂ h₂
  have hr₂ : run (step fun _ => .writable) twoTasks bothBegin = some s₂ :=
    run_cons_eq_some.mpr ⟨s₁, h₁, run_cons_eq_some.mpr ⟨s₂, h₂, rfl⟩⟩
  rw [hr₂, Option.map_some, Option.some.injEq] at hopened₂
  refine ⟨?_, fun s₃ h₃ => ⟨?_, fun _ _ => trivial⟩⟩
  · -- the first task's bracket is the older one over every byte of the window
    intro b x hb _ hold c hc hcx
    rw [oldest, hopened₂] at hold
    rw [hopened₂] at hc
    have hx : Window 0x1010#32 x := by
      rcases List.mem_cons.mp hc with rfl | hc
      · exact hcx
      · rw [List.mem_singleton] at hc
        subst hc
        exact hcx
    rw [List.find?_cons_of_pos (by simpa using hx), Option.some.injEq] at hold
    rw [← hold] at hb
    cases hb
  · -- and the only one left at the end
    intro b x _ _ hold c hc _
    have hr₃ := run_append.mpr ⟨s₂, hr₂, run_cons_eq_some.mpr ⟨s₃, h₃, run_nil s₃⟩⟩
    rw [hr₃, Option.map_some, Option.some.injEq] at hopened₃
    have hmem := mem_of_oldest hold
    rw [hopened₃, List.mem_singleton] at hc hmem
    rw [hc, hmem]

/-- If the call that began first ends first, the second one puts the rewrite of
the first back. -/
theorem shared_memory_corrupted :
    ¬ ∀ (p : ProtMap) (s s' : Shared Bool) (es : List (Event Bool)),
      s.opened = [] → run (step p) s es = some s' → s'.opened = [] → s'.mem = s.mem := by
  intro h
  have hend : (run (step fun _ => .writable) twoTasks
      (bothBegin ++ [.finish true, .finish false])).map (fun s' => (s'.opened, s'.mem 0x1009#32)) =
      some ([], 0x6a) := by decide
  obtain ⟨s', hr, hs'⟩ := Option.map_eq_some_iff.mp hend
  rw [Prod.mk.injEq] at hs'
  have hx := congrFun (h (fun _ => .writable) twoTasks s' _ rfl hr hs'.1) 0x1009#32
  rw [hs'.2] at hx
  revert hx
  decide

end HomeHack
end KernelStudy
