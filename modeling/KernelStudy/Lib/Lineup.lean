import Mathlib.Tactic

/-!
# Passing along a queue that changes

A queue gets new members at its end and loses members anywhere.  Somebody passes
along it and calls the members up, one after the other; between two looks the
queue changes.  He goes on from the member he stands at, or, if he has lost it,
from the place whose number is that of the members called so far.  Either way he
never calls a member a second time; and as long as nobody leaves he calls every
one.

## Main definitions

* `Lineup` — the members at each moment, with the rank of their arrival.
* `Lineup.upTo t r` — how many members there are up to a rank.
* `Lineup.Listed`, `Lineup.Due` — the members called up, and one that may be
  called up next.
* `Lineup.Growing` — nobody leaves.

## Main results

* `Lineup.Listed.emit` — calling up the next member.
* `Lineup.due_of_place`, `Lineup.due_of_next` — **whom the two rules find.**
* `Lineup.Listed.length_le` — how many can be called up at all.
-/

namespace KernelStudy

/-- A queue: its members at each moment, in the order of their arrival. -/
structure Lineup (α : Type*) where
  /-- The members. -/
  members : ℕ → List α
  /-- When they arrived. -/
  rank : α → ℕ
  sorted : ∀ t, (members t).Pairwise fun x y => rank x < rank y
  /-- Who is older than a member was there before. -/
  older : ∀ {t t' x y}, t ≤ t' → y ∈ members t → x ∈ members t' → rank x ≤ rank y → x ∈ members t
  /-- Nobody leaves and comes back. -/
  stays : ∀ {t t₁ t' x}, t ≤ t₁ → t₁ ≤ t' → x ∈ members t → x ∈ members t' → x ∈ members t₁

namespace Lineup

variable {α : Type*} (G : Lineup α)

/-- How many members there are up to a rank. -/
def upTo (t r : ℕ) : ℕ := ((G.members t).filter fun x => G.rank x ≤ r).length

/-- Nobody leaves. -/
def Growing : Prop := ∀ t t', t ≤ t' → G.members t <+: G.members t'

/-- The members `l` have been called up so far. -/
structure Listed (now : ℕ) (l : List α) : Prop where
  sorted : l.Pairwise fun x y => G.rank x < G.rank y
  seen : ∀ y ∈ l, ∃ t ≤ now, y ∈ G.members t
  room : ∀ y ∈ l, G.upTo now (G.rank y) ≤ l.length
  whole : G.Growing → l <+: G.members now

/-- After `l`, the member `c` may be called up. -/
structure Due (now : ℕ) (l : List α) (c : α) : Prop where
  seen : ∃ t ≤ now, c ∈ G.members t
  younger : ∀ y ∈ l, G.rank y < G.rank c
  room : G.upTo now (G.rank c) ≤ l.length + 1
  whole : G.Growing → l ++ [c] <+: G.members now

variable {G} {t t' now now' k r : ℕ} {l : List α} {c x y : α}

/-! ### Counting -/

/-- Up to a member there are as many as its place says. -/
theorem upTo_of_getElem (h : (G.members t)[k]? = some x) : G.upTo t (G.rank x) = k + 1 := by
  obtain ⟨hk, hx⟩ := List.getElem?_eq_some_iff.mp h
  have hsorted := List.pairwise_iff_getElem.mp (G.sorted t)
  have hfront : ((G.members t).take (k + 1)).filter (fun y => G.rank y ≤ G.rank x) =
      (G.members t).take (k + 1) := by
    apply List.filter_eq_self.mpr
    intro y hy
    obtain ⟨i, hi, rfl⟩ := List.mem_iff_getElem.mp hy
    rw [List.length_take] at hi
    rw [List.getElem_take, ← hx, decide_eq_true_eq]
    rcases Nat.lt_or_ge i k with hik | hik
    · exact (hsorted i k (by omega) hk hik).le
    · exact le_of_eq (by congr 2; omega)
  have hback : ((G.members t).drop (k + 1)).filter (fun y => G.rank y ≤ G.rank x) = [] := by
    apply List.filter_eq_nil_iff.mpr
    intro y hy
    obtain ⟨i, hi, rfl⟩ := List.mem_iff_getElem.mp hy
    rw [List.length_drop] at hi
    rw [List.getElem_drop, ← hx, decide_eq_true_eq, not_le]
    exact hsorted k (k + 1 + i) hk (by omega) (by omega)
  rw [upTo, ← List.take_append_drop (k + 1) (G.members t), List.filter_append, hfront, hback,
    List.append_nil, List.length_take]
  omega

/-- Up to a rank that was there, members only leave. -/
theorem upTo_le {t₁ : ℕ} (h₁ : t ≤ t₁) (h₂ : t₁ ≤ t') (hy : y ∈ G.members t) :
    G.upTo t' (G.rank y) ≤ G.upTo t₁ (G.rank y) := by
  have hnodup : ((G.members t').filter fun x => G.rank x ≤ G.rank y).Nodup := by
    apply List.Nodup.filter
    exact (G.sorted t').imp fun hlt heq => absurd hlt (by rw [heq]; exact lt_irrefl _)
  apply List.Subperm.length_le
  apply List.subperm_of_subset hnodup
  intro x hx
  rw [List.mem_filter, decide_eq_true_eq] at hx ⊢
  have hold : x ∈ G.members t := G.older (h₁.trans h₂) hy hx.1 hx.2
  exact ⟨G.stays h₁ h₂ hold hx.1, hx.2⟩

theorem upTo_mono {r' : ℕ} (h : r ≤ r') : G.upTo t r ≤ G.upTo t r' := by
  apply List.Sublist.length_le
  apply List.monotone_filter_right
  intro x hx
  rw [decide_eq_true_eq] at hx ⊢
  omega

/-- A member whose place is beyond those up to a rank is younger. -/
theorem lt_rank_of_upTo_le (hr : G.upTo t r ≤ k) (h : (G.members t)[k]? = some x) :
    r < G.rank x := by
  by_contra hle
  have hmono : G.upTo t (G.rank x) ≤ G.upTo t r := upTo_mono (not_lt.mp hle)
  rw [upTo_of_getElem h] at hmono
  omega

/-! ### Calling up -/

theorem listed_nil (G : Lineup α) (now : ℕ) : G.Listed now [] where
  sorted := List.Pairwise.nil
  seen := fun _ hy => absurd hy List.not_mem_nil
  room := fun _ hy => absurd hy List.not_mem_nil
  whole := fun _ => List.nil_prefix

theorem Listed.later (h : G.Listed now l) (hnow : now ≤ now') : G.Listed now' l where
  sorted := h.sorted
  seen := by
    intro y hy
    obtain ⟨t, ht, hmem⟩ := h.seen y hy
    exact ⟨t, ht.trans hnow, hmem⟩
  room := by
    intro y hy
    obtain ⟨t, ht, hmem⟩ := h.seen y hy
    exact (upTo_le ht hnow hmem).trans (h.room y hy)
  whole := fun hgrow => (h.whole hgrow).trans (hgrow now now' hnow)

theorem Due.later (h : G.Due now l c) (hnow : now ≤ now') : G.Due now' l c := by
  obtain ⟨t, ht, hmem⟩ := h.seen
  exact ⟨⟨t, ht.trans hnow, hmem⟩, h.younger, (upTo_le ht hnow hmem).trans h.room,
    fun hgrow => (h.whole hgrow).trans (hgrow now now' hnow)⟩

/-- **Calling up the next member.** -/
theorem Listed.emit (h : G.Listed now l) (hc : G.Due now l c) : G.Listed now (l ++ [c]) where
  sorted := by
    rw [List.pairwise_append]
    refine ⟨h.sorted, List.pairwise_singleton _ _, ?_⟩
    intro y hy z hz
    rw [List.mem_singleton.mp hz]
    exact hc.younger y hy
  seen := by
    intro y hy
    rcases List.mem_append.mp hy with hy | hy
    · exact h.seen y hy
    · rw [List.mem_singleton.mp hy]
      exact hc.seen
  room := by
    intro y hy
    rw [List.length_append, List.length_singleton]
    rcases List.mem_append.mp hy with hy | hy
    · exact (h.room y hy).trans (Nat.le_succ _)
    · rw [List.mem_singleton.mp hy]
      exact hc.room
  whole := hc.whole

/-- A place behind a prefix makes it longer. -/
theorem concat_isPrefix {m : List α} (hl : l <+: m) (hc : m[l.length]? = some c) :
    l ++ [c] <+: m := by
  obtain ⟨m', rfl⟩ := hl
  rw [List.getElem?_append_right le_rfl, Nat.sub_self] at hc
  obtain ⟨m'', rfl⟩ : ∃ m'', m' = c :: m'' := by
    cases m' with
    | nil => cases hc
    | cons a m'' => exact ⟨m'', by rw [Option.some.inj hc]⟩
  exact ⟨m'', by simp⟩

/-- **By its place**: the member whose place is the number of those called. -/
theorem due_of_place (h : G.Listed now l) (hc : (G.members now)[l.length]? = some c) :
    G.Due now l c where
  seen := ⟨now, le_rfl, List.mem_of_getElem? hc⟩
  younger := fun y hy => lt_rank_of_upTo_le (h.room y hy) hc
  room := (upTo_of_getElem hc).le
  whole := fun hgrow => concat_isPrefix (h.whole hgrow) hc

/-- **By its neighbour**: the member behind the one called last. -/
theorem due_of_next (h : G.Listed now (l ++ [x])) (hx : (G.members now)[k]? = some x)
    (hc : (G.members now)[k + 1]? = some c) : G.Due now (l ++ [x]) c := by
  have hroom := h.room x (List.mem_append_right _ List.mem_cons_self)
  rw [upTo_of_getElem hx] at hroom
  have hxc : G.rank x < G.rank c := lt_rank_of_upTo_le (upTo_of_getElem hx).le hc
  refine ⟨⟨now, le_rfl, List.mem_of_getElem? hc⟩, ?_, ?_, ?_⟩
  · intro y hy
    rcases List.mem_append.mp hy with hy | hy
    · have hyx := (List.pairwise_append.mp h.sorted).2.2 y hy x List.mem_cons_self
      exact hyx.trans hxc
    · rw [List.mem_singleton.mp hy]
      exact hxc
  · rw [upTo_of_getElem hc]
    omega
  · -- if nobody leaves, the one called last stands at the last place called
    intro hgrow
    have hpre := h.whole hgrow
    have hlast : (G.members now)[l.length]? = some x := by
      obtain ⟨m, hm⟩ := hpre
      rw [← hm]
      simp
    have hk : l.length + 1 = k + 1 := by
      rw [← upTo_of_getElem hlast, upTo_of_getElem hx]
    refine concat_isPrefix hpre ?_
    rw [List.length_append, List.length_singleton, hk]
    exact hc

/-- The first in the queue may be called up first, even if he has left since. -/
theorem due_of_first (ht : t ≤ now) (hc : (G.members t)[0]? = some c) : G.Due now [] c where
  seen := ⟨t, ht, List.mem_of_getElem? hc⟩
  younger := fun _ hy => absurd hy List.not_mem_nil
  room := (upTo_le le_rfl ht (List.mem_of_getElem? hc)).trans (upTo_of_getElem hc).le
  whole := fun hgrow => (concat_isPrefix List.nil_prefix hc).trans (hgrow t now ht)

/-- **How many can be called up at all**: no more than there are ranks. -/
theorem Listed.length_le (h : G.Listed now l) {R : ℕ} (hR : ∀ t, ∀ x ∈ G.members t, G.rank x < R) :
    l.length ≤ R := by
  have hnodup : (l.map G.rank).Nodup := by
    rw [List.Nodup, List.pairwise_map]
    exact h.sorted.imp ne_of_lt
  have hsub : l.map G.rank ⊆ List.range R := by
    intro r hr
    obtain ⟨y, hy, rfl⟩ := List.mem_map.mp hr
    obtain ⟨t, -, hmem⟩ := h.seen y hy
    exact List.mem_range.mpr (hR t y hmem)
  have := (List.subperm_of_subset hnodup hsub).length_le
  simpa using this

end Lineup
end KernelStudy
