import Mathlib.Tactic

/-!
# Walking around a ring

A circular list has no end marker: a loop over it follows the links until it is
back where it started.  The links live in a state that the body of the loop may
change, as long as it leaves the links alone.

## Main definitions

* `IsRing next a rest` — from `a` the links lead through `rest` back to `a`,
  without meeting an element twice.
* `ringLoop` — the `do … while` loop around a ring, with fuel.

## Main results

* `ringLoop_eq_foldl` — **the loop ends and has run its body on every element of
  the ring in order.**
* `foldl_update_apply` — what a pass that rewrites each element leaves where.
* `IsRing.join`, `IsRing.leave` — **an element joins the ring at its end, or leaves
  it.**
-/

namespace KernelStudy

variable {α σ : Type*}

/-- From `x` the links lead through `l` to `stop`, which they do not meet
before. -/
def Walk (next : α → α) (stop : α) : α → List α → Prop
  | x, [] => x = stop
  | x, y :: l => x = y ∧ x ≠ stop ∧ Walk next stop (next x) l

/-- The ring through `a`: its other elements are `rest`, in the order of the
links. -/
structure IsRing (next : α → α) (a : α) (rest : List α) : Prop where
  /-- No element occurs twice. -/
  nodup : (a :: rest).Nodup
  /-- The links lead around. -/
  walk : Walk next a (next a) rest

/-- `do body while ((x = next x) != stop)`, or `none` if the fuel runs out. -/
def ringLoop [DecidableEq α] (next : σ → α → α) (body : σ → α → σ) (stop : α) :
    ℕ → σ → α → Option σ
  | 0, _, _ => none
  | n + 1, s, x =>
      let s' := body s x
      let y := next s' x
      if y = stop then some s' else ringLoop next body stop n s' y

/-- The part of the loop that is still to come. -/
theorem ringLoop_of_walk [DecidableEq α] {next : σ → α → α} {body : σ → α → σ} {stop : α}
    (hbody : ∀ s x, next (body s x) = next s) :
    ∀ (l : List α) (n : ℕ) (s : σ) (x : α), l.length < n → Walk (next s) stop (next s x) l →
      ringLoop next body stop n s x = some ((x :: l).foldl body s) := by
  intro l
  induction l with
  | nil =>
    intro n s x hn hw
    obtain ⟨n, rfl⟩ : ∃ k, n = k + 1 := ⟨n - 1, by omega⟩
    have hback : next s x = stop := hw
    rw [ringLoop, hbody, if_pos hback]
    rfl
  | cons y l ih =>
    intro n s x hn hw
    obtain ⟨n, rfl⟩ : ∃ k, n = k + 1 := ⟨n - 1, by omega⟩
    obtain ⟨hxy, hne, hrest⟩ := hw
    rw [ringLoop, hbody, if_neg hne, hxy]
    rw [hxy] at hrest
    refine ih n (body s x) y ?_ ?_
    · simp only [List.length_cons] at hn
      omega
    · rw [hbody]
      exact hrest

/-- **The loop around a ring ends, and runs its body on every element once, in
the order of the links.** -/
theorem ringLoop_eq_foldl [DecidableEq α] {next : σ → α → α} {body : σ → α → σ} {a : α}
    {rest : List α} {n : ℕ} {s : σ} (hbody : ∀ s x, next (body s x) = next s)
    (hring : IsRing (next s) a rest) (hn : rest.length < n) :
    ringLoop next body a n s a = some ((a :: rest).foldl body s) :=
  ringLoop_of_walk hbody rest n s a hn hring.walk

/-- A pass over distinct elements that rewrites each one's entry rewrites these
entries and no others. -/
theorem foldl_update_apply [DecidableEq α] {β : Type*} (f : β → β) : ∀ (l : List α) (h : α → β)
    (a : α), l.Nodup →
      l.foldl (fun h x => Function.update h x (f (h x))) h a = if a ∈ l then f (h a) else h a := by
  intro l
  induction l with
  | nil => intro h a _; simp
  | cons x l ih =>
    intro h a hl
    obtain ⟨hx, hl⟩ := List.nodup_cons.mp hl
    rw [List.foldl_cons, ih _ a hl]
    by_cases hax : a = x
    · subst hax
      simp [hx]
    · simp [hax]

/-! ### Joining and leaving -/

/-- The links of a walk, as a chain. -/
theorem walk_iff_isChain {next : α → α} {stop : α} : ∀ (l : List α) (x : α),
    Walk next stop (next x) l ↔ stop ∉ l ∧ (x :: (l ++ [stop])).IsChain fun y z => next y = z := by
  intro l
  induction l with
  | nil => intro x; simp [Walk]
  | cons y l ih =>
    intro x
    rw [Walk, List.cons_append, List.isChain_cons_cons, List.mem_cons, not_or]
    constructor
    · rintro ⟨hxy, hne, hrest⟩
      rw [hxy] at hne hrest
      obtain ⟨hstop, hchain⟩ := (ih y).mp hrest
      exact ⟨⟨hne.symm, hstop⟩, hxy, hchain⟩
    · rintro ⟨⟨hne, hstop⟩, hxy, hchain⟩
      rw [hxy]
      exact ⟨rfl, Ne.symm hne, (ih y).mpr ⟨hstop, hchain⟩⟩

/-- A ring is a chain of distinct elements that comes back. -/
theorem isRing_iff_isChain {next : α → α} {a : α} {rest : List α} : IsRing next a rest ↔
    (a :: rest).Nodup ∧ (a :: (rest ++ [a])).IsChain fun x y => next x = y := by
  constructor
  · rintro ⟨hnodup, hwalk⟩
    exact ⟨hnodup, ((walk_iff_isChain rest a).mp hwalk).2⟩
  · rintro ⟨hnodup, hchain⟩
    exact ⟨hnodup, (walk_iff_isChain rest a).mpr ⟨(List.nodup_cons.mp hnodup).1, hchain⟩⟩

/-- Only the links of elements before the last one matter to a chain. -/
theorem isChain_congr_init {f g : α → α} {c : α} : ∀ l : List α, (∀ x ∈ l, f x = g x) →
    ((l ++ [c]).IsChain fun x y => f x = y) → (l ++ [c]).IsChain fun x y => g x = y := by
  intro l
  induction l with
  | nil => intro _ _; simp
  | cons x l ih =>
    intro heq h
    obtain ⟨hx, heq⟩ := List.forall_mem_cons.mp heq
    rw [List.cons_append, List.isChain_cons] at h ⊢
    refine ⟨fun y hy => ?_, ih heq h.2⟩
    rw [← hx]
    exact h.1 y hy

/-- Links of other elements do not matter to a ring. -/
theorem IsRing.congr {f g : α → α} {a : α} {rest : List α} (h : IsRing f a rest)
    (heq : ∀ x ∈ a :: rest, g x = f x) : IsRing g a rest := by
  rw [isRing_iff_isChain] at h ⊢
  refine ⟨h.1, ?_⟩
  exact isChain_congr_init (a :: rest) (fun x hx => (heq x hx).symm) h.2

/-- A ring can be entered at any element. -/
theorem IsRing.rotate {next : α → α} {a x : α} {pre post : List α}
    (h : IsRing next a (pre ++ x :: post)) : IsRing next x (post ++ a :: pre) := by
  rw [isRing_iff_isChain] at h ⊢
  obtain ⟨hnodup, hchain⟩ := h
  refine ⟨?_, ?_⟩
  · rw [← List.cons_append, List.nodup_append_comm] at hnodup
    exact hnodup
  · have hold : a :: (pre ++ x :: post ++ [a]) = (a :: pre) ++ x :: (post ++ [a]) := by simp
    have hnew : x :: (post ++ a :: pre ++ [x]) = (x :: post) ++ a :: (pre ++ [x]) := by simp
    rw [hold, List.isChain_split] at hchain
    rw [hnew, List.isChain_split]
    exact ⟨hchain.2, hchain.1⟩

section

variable [DecidableEq α] {next : α → α} {a p x : α} {rest pre post : List α}

/-- **An element joins the ring** behind its last element `p`. -/
theorem IsRing.join (h : IsRing next a rest) (hlast : a :: rest = pre ++ [p])
    (hx : x ∉ a :: rest) :
    IsRing (Function.update (Function.update next p x) x a) a (rest ++ [x]) := by
  rw [isRing_iff_isChain] at h ⊢
  obtain ⟨hnodup, hchain⟩ := h
  have hpx : p ≠ x := by
    rintro rfl
    exact hx (by simp [hlast])
  have hprep : p ∉ pre := by
    rw [hlast, List.nodup_append] at hnodup
    exact fun hp => hnodup.2.2 p hp p (by simp) rfl
  refine ⟨?_, ?_⟩
  · rw [← List.cons_append, List.nodup_append]
    refine ⟨hnodup, List.nodup_singleton x, ?_⟩
    rintro y hy z hz rfl
    rw [List.mem_singleton] at hz
    exact hx (hz ▸ hy)
  · have hsplit : a :: (rest ++ [x] ++ [a]) = pre ++ p :: x :: [a] := by
      rw [← List.cons_append, ← List.cons_append, hlast]
      simp
    rw [← List.cons_append, hlast, List.append_assoc] at hchain
    rw [hsplit, List.isChain_append_cons_cons, List.isChain_cons_cons]
    refine ⟨?_, ?_, ?_, List.isChain_singleton a⟩
    · -- the links before `p` are the old ones
      refine isChain_congr_init pre ?_ (List.isChain_split.mp hchain).1
      intro y hy
      have hyx : y ≠ x := by
        rintro rfl
        exact hx (by simp [hlast, hy])
      have hyp : y ≠ p := fun heq => hprep (heq ▸ hy)
      rw [Function.update_of_ne hyx, Function.update_of_ne hyp]
    · rw [Function.update_of_ne hpx, Function.update_self]
    · exact Function.update_self ..

/-- **An element leaves the ring**: the one before it is linked to the next. -/
theorem IsRing.leave {front : List α} (h : IsRing next a (pre ++ x :: post))
    (hlast : a :: pre = front ++ [p]) :
    IsRing (Function.update next p (next x)) a (pre ++ post) := by
  rw [isRing_iff_isChain] at h ⊢
  obtain ⟨hnodup, hchain⟩ := h
  rw [← List.cons_append, hlast] at hnodup
  have hold : a :: (pre ++ x :: post ++ [a]) = front ++ p :: x :: (post ++ [a]) := by
    rw [← List.cons_append, ← List.cons_append, hlast]
    simp
  have hnew : a :: (pre ++ post ++ [a]) = front ++ p :: (post ++ [a]) := by
    rw [← List.cons_append, ← List.cons_append, hlast]
    simp
  have hfront : p ∉ front := by
    intro hp
    have := hnodup
    rw [List.append_assoc, List.nodup_append] at this
    exact this.2.2 p hp p (by simp) rfl
  have hpost : p ∉ post := by
    intro hp
    rw [List.nodup_append] at hnodup
    exact hnodup.2.2 p (by simp) p (by simp [hp]) rfl
  refine ⟨?_, ?_⟩
  · rw [← List.cons_append, hlast]
    exact hnodup.sublist (List.Sublist.append_left (List.sublist_cons_self x post) _)
  · rw [hold, List.isChain_append_cons_cons] at hchain
    obtain ⟨hbefore, -, hafter⟩ := hchain
    rw [hnew, List.isChain_split]
    refine ⟨?_, ?_⟩
    · refine isChain_congr_init front ?_ hbefore
      intro y hy
      have hyp : y ≠ p := fun heq => hfront (heq ▸ hy)
      rw [Function.update_of_ne hyp]
    · rw [List.isChain_cons] at hafter ⊢
      refine ⟨?_, ?_⟩
      · intro y hy
        rw [Function.update_self]
        exact hafter.1 y hy
      · refine isChain_congr_init post ?_ hafter.2
        intro y hy
        have hyp : y ≠ p := fun heq => hpost (heq ▸ hy)
        rw [Function.update_of_ne hyp]

end

end KernelStudy
