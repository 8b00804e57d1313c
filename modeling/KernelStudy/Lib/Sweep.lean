import Mathlib.Data.Finset.Max
import Mathlib.Tactic

/-!
# Sweeping a changing set upwards

A cursor moves up through a linear order and emits some of the elements it
passes.  The set it looks at may change between two looks.  What it can promise
is about the elements that are there all the time: it has emitted those below
the cursor, each of them once.

## Main definitions

* `leastGe s a` — the least element of a finite set from `a` on.
* `Swept P out pos` — the emitted list `out` is increasing, lies below `pos`,
  and misses no element of `P` there.

## Main results

* `leastGe_eq_some`, `leastGe_eq_none` — what a look finds.
* `Swept.mono`, `Swept.skip`, `Swept.emit` — how the cursor may move.
* `Swept.count_eq_one` — **an element of `P` below the cursor has been emitted
  exactly once.**
-/

namespace KernelStudy

variable {α : Type*} [LinearOrder α]

/-! ### The least element from a place on -/

/-- The least element of `s` that is at least `a`. -/
def leastGe (s : Finset α) (a : α) : Option α :=
  if h : (s.filter (a ≤ ·)).Nonempty then some ((s.filter (a ≤ ·)).min' h) else none

theorem leastGe_eq_some {s : Finset α} {a b : α} (h : leastGe s a = some b) :
    b ∈ s ∧ a ≤ b ∧ ∀ c ∈ s, a ≤ c → b ≤ c := by
  unfold leastGe at h
  split at h
  · next hne =>
    rw [Option.some.injEq] at h
    have hmem := Finset.min'_mem _ hne
    rw [h, Finset.mem_filter] at hmem
    refine ⟨hmem.1, hmem.2, ?_⟩
    intro c hc hac
    rw [← h]
    exact Finset.min'_le _ _ (Finset.mem_filter.mpr ⟨hc, hac⟩)
  · cases h

theorem leastGe_eq_none {s : Finset α} {a : α} (h : leastGe s a = none) : ∀ c ∈ s, c < a := by
  unfold leastGe at h
  split at h
  · cases h
  · next hne =>
    intro c hc
    by_contra hac
    exact hne ⟨c, Finset.mem_filter.mpr ⟨hc, not_lt.mp hac⟩⟩

/-! ### Sweeps -/

/-- The emitted list is increasing, lies below the cursor, and misses no element
of `P` below it. -/
structure Swept (P : Set α) (out : List α) (pos : α) : Prop where
  sorted : out.Pairwise (· < ·)
  below : ∀ a ∈ out, a < pos
  covers : ∀ a ∈ P, a < pos → a ∈ out

variable {P Q : Set α} {out : List α} {pos pos' : α}

/-- A sweep starts with nothing below it. -/
theorem swept_nil (h : ∀ a ∈ P, pos ≤ a) : Swept P [] pos where
  sorted := List.Pairwise.nil
  below := fun a ha => by cases ha
  covers := fun a ha hlt => absurd (h a ha) (not_le.mpr hlt)

/-- Elements may leave `P`. -/
theorem Swept.mono (h : Swept P out pos) (hsub : Q ⊆ P) : Swept Q out pos :=
  ⟨h.sorted, h.below, fun a ha hlt => h.covers a (hsub ha) hlt⟩

/-- The cursor may pass what is not in `P`. -/
theorem Swept.skip (h : Swept P out pos) (hle : pos ≤ pos')
    (hgap : ∀ a, pos ≤ a → a < pos' → a ∉ P) : Swept P out pos' where
  sorted := h.sorted
  below := fun a ha => lt_of_lt_of_le (h.below a ha) hle
  covers := by
    intro a ha hlt
    rcases lt_or_ge a pos with hlow | hhigh
    · exact h.covers a ha hlow
    · exact absurd ha (hgap a hhigh hlt)

/-- The cursor may emit what it stands on. -/
theorem Swept.emit (h : Swept P out pos) (hlt : pos < pos')
    (hgap : ∀ a, pos < a → a < pos' → a ∉ P) : Swept P (out ++ [pos]) pos' where
  sorted := by
    rw [List.pairwise_append]
    refine ⟨h.sorted, List.pairwise_singleton _ _, ?_⟩
    intro a ha b hb
    rw [List.mem_singleton.mp hb]
    exact h.below a ha
  below := by
    intro a ha
    rcases List.mem_append.mp ha with ha | ha
    · exact lt_trans (h.below a ha) hlt
    · rwa [List.mem_singleton.mp ha]
  covers := by
    intro a ha hlt'
    rw [List.mem_append, List.mem_singleton]
    rcases lt_trichotomy a pos with hlow | rfl | hhigh
    · exact Or.inl (h.covers a ha hlow)
    · exact Or.inr rfl
    · exact absurd ha (hgap a hhigh hlt')

/-- **An element of `P` below the cursor has been emitted exactly once.** -/
theorem Swept.count_eq_one (h : Swept P out pos) {a : α} (ha : a ∈ P) (hlt : a < pos) :
    out.count a = 1 :=
  List.count_eq_one_of_mem (h.sorted.imp ne_of_lt) (h.covers a ha hlt)

end KernelStudy
