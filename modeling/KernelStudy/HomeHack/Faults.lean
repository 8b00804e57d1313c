import KernelStudy.HomeHack.Path

/-!
# Rewriting memory that cannot be written

Each of the sixteen accesses to the window in front of a path can fault on its
own, and `replace_path_if_necessary` looks at none of the results.  A path in a
read-only page, or at the start of a page, is handed out with a mix of old and
new bytes in front of it.

## Main definitions

* `FaultSafe` — a path is handed out only if it is the right one.

## Main results

* `rewritten_eq_self_iff` — the rewrites that change nothing.
* `faultSafe_iff` — **the inputs for which no wrong path is handed out.**
-/

namespace KernelStudy
namespace HomeHack

variable {p : ProtMap} {tmp : ℕ → UInt8} {m : Mem} {current : TaskStruct} {f : Addr}

/-- What is asked of the rewrite when user memory cannot be trusted. -/
structure FaultSafe (p : ProtMap) (tmp : ℕ → UInt8) (m : Mem) (current : TaskStruct)
    (f : Addr) : Prop where
  /-- An address that is handed out holds the node's directory followed by the
  path, readable up to its terminator. -/
  handedOut : (replacePathIfNecessary p tmp m current f).1 ≠ 0#32 →
    ∃ t, StringAt p m f t ∧
      StringAt p (replacePathIfNecessary p tmp m current f).2.1
        (replacePathIfNecessary p tmp m current f).1 (nodePath current.hpNode ++ t)
  /-- A null result leaves user memory alone. -/
  unchanged : (replacePathIfNecessary p tmp m current f).1 = 0#32 →
    (replacePathIfNecessary p tmp m current f).2.1 = m
  /-- If an access to the window faults, the result is null. -/
  refused : ¬ (∀ x, Window f x → Readable p x ∧ Writable p x) →
    (replacePathIfNecessary p tmp m current f).1 = 0#32

/-- A rewrite changes nothing exactly when the bytes it can write are those of
the node's directory already. -/
theorem rewritten_eq_self_iff {node : ℤ} (h0 : 0 ≤ node) (h5 : node ≤ 99999) :
    rewritten p tmp m node f = m ↔
      ∀ x (hx : Window f x), Writable p x → (nodePath node)[hx.index.val]? = some (m x) := by
  have hbyte : ∀ x (hx : Window f x), Writable p x →
      (nodePath node)[hx.index.val]? = some (rewritten p tmp m node f x) := by
    intro x hx hw
    have hi : hx.index.val < (dirBytes node).length := by
      rw [length_dirBytes]
      exact hx.index.isLt
    rw [rewritten_of_window hw hx, snprintf_nodeDir tmp hi, ← dirBytes_eq_nodePath h0 h5,
      List.getElem?_eq_getElem hi]
  constructor
  · intro heq x hx hw
    rw [hbyte x hx hw, heq]
  · intro h
    funext x
    by_cases hx : Writable p x ∧ Window f x
    · have heq := (hbyte x hx.2 hx.1).symm.trans (h x hx.2 hx.1)
      exact Option.some.inj heq
    · exact rewritten_of_not_window hx

/-- **No wrong path is handed out exactly when** there is nothing to rewrite, or
the whole window can be written and the path is a string, or the path lies at
address 8, where the result is null, and nothing is changed in front of it. -/
theorem faultSafe_iff (h0 : 0 ≤ current.hpNode) (h5 : current.hpNode ≤ 99999) :
    FaultSafe p tmp m current f ↔
      ¬ HomePath p m f ∨
      (f ≠ 8#32 ∧ (∀ x, Window f x → Writable p x) ∧ ∃ t, StringAt p m f t) ∨
      (f = 8#32 ∧ ∀ x (hx : Window f x), Writable p x →
        (nodePath current.hpNode)[hx.index.val]? = some (m x)) := by
  by_cases hp : HomePath p m f
  · have heq : replacePathIfNecessary p tmp m current f = _ :=
      replacePathIfNecessary_of_homePath hp
    constructor
    · intro hsafe
      obtain ⟨hout, hsame, href⟩ := hsafe
      rw [heq] at hout hsame href
      dsimp only at hout hsame href
      rw [sub_eight_eq_zero_iff] at hsame href
      rw [ne_eq, sub_eight_eq_zero_iff] at hout
      by_cases hf : f = 8#32
      · exact Or.inr (Or.inr ⟨hf, (rewritten_eq_self_iff h0 h5).mp (hsame hf)⟩)
      · obtain ⟨t, ht, -⟩ := hout hf
        have hwin := not_not.mp fun h => hf (href h)
        exact Or.inr (Or.inl ⟨hf, fun x hx => (hwin x hx).2, t, ht⟩)
    · intro hcond
      rcases hcond with hnot | ⟨hf, hwin, t, ht⟩ | ⟨hf, hsame⟩
      · exact absurd hp hnot
      · refine ⟨?_, ?_, ?_⟩ <;> rw [heq] <;> dsimp only
        · rw [← dirBytes_eq_nodePath h0 h5]
          exact fun _ => ⟨t, ht, (stringAt_rewritten hwin _).mpr ⟨t, ht, rfl⟩⟩
        · exact fun h => absurd (sub_eight_eq_zero_iff.mp h) hf
        · exact fun h => absurd (fun x hx => ⟨(hwin x hx).readable, hwin x hx⟩) h
      · refine ⟨?_, ?_, ?_⟩ <;> rw [heq] <;> dsimp only
        · exact fun h => absurd (sub_eight_eq_zero_iff.mpr hf) h
        · exact fun _ => (rewritten_eq_self_iff h0 h5).mpr hsame
        · exact fun _ => sub_eight_eq_zero_iff.mpr hf
  · -- the function returns null before it touches the window
    have heq : replacePathIfNecessary p tmp m current f = _ :=
      replacePathIfNecessary_of_not_homePath hp
    refine iff_of_true ⟨?_, ?_, ?_⟩ (Or.inl hp) <;> rw [heq] <;> dsimp only
    · exact fun h => absurd rfl h
    · exact fun _ => rfl
    · exact fun _ => rfl

/-- A path in writable memory is handed out right. -/
theorem writable_path_faultSafe :
    FaultSafe (fun _ => .writable) (fun _ => 0) (textAt 0x1010#32 (bytes "/home/a"))
      ⟨1, 1, 1, fun _ => 0, 0⟩ 0x1010#32 :=
  (faultSafe_iff (by decide) (by decide)).mpr
    (Or.inr (Or.inl ⟨by decide, fun _ hx => writable_of_window (by decide) (by decide) hx,
      bytes "/home/a", by decide⟩))

/-- A string literal, in a read-only page, is handed out with the bytes in front
of it as they are. -/
theorem read_only_path_handed_out :
    ¬ ∀ (p : ProtMap) (tmp : ℕ → UInt8) (m : Mem) (current : TaskStruct) (f : Addr),
      0 ≤ current.hpNode → current.hpNode ≤ 99999 → FaultSafe p tmp m current f := by
  intro h
  have hsafe := h (fun _ => .readOnly) (fun _ => 0) (textAt 0x1010#32 (bytes "/home/a"))
    ⟨1, 1, 1, fun _ => 0, 0⟩ 0x1010#32 (by decide) (by decide)
  have hp : HomePath (fun _ => .readOnly) (textAt 0x1010#32 (bytes "/home/a")) 0x1010#32 := by
    decide
  obtain ⟨hout, -, -⟩ := hsafe
  rw [replacePathIfNecessary_of_homePath hp] at hout
  obtain ⟨t, -, hs⟩ := hout (by decide)
  -- the first byte of the result is still the zero that was there
  have hfirst := hs.2.1
  revert hfirst
  decide

end HomeHack
end KernelStudy
