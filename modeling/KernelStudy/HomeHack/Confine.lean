import KernelStudy.HomeHack.Nodes
import KernelStudy.Lib.PathNorm

/-!
# Leaving the directory of a node

The rewrite looks at the first six bytes of a path and puts eight bytes in front
of it; the components behind `/home/` are taken as they come.  With enough `..`
among them a path leaves the directory of its node, and it may enter that of
another.

## Main definitions

* `posix` — paths as Linux spells them.
* `nodeTree node` — the directory of a node, as components.
* `StaysInTree node path` — the path comes back to what it has climbed out of.
* `Confined` — two tasks name files of their own nodes only.

## Main results

* `nodeTree_prefix_iff` — the rewritten paths that stay in the node's directory.
* `confined_iff` — **the home paths that keep two nodes apart.**
-/

namespace KernelStudy
namespace HomeHack

/-- Slashes and dots. -/
def posix : PathSyntax UInt8 := ⟨47, bytes ".", bytes ".."⟩

/-- The directory of a node, as components: `j`, then five digits. -/
def nodeTree (node : ℤ) : List (List UInt8) := [bytes "j", fixedDigits 5 node.toNat]

theorem nodeTree_inj {n k : ℤ} (hn : 0 ≤ n ∧ n ≤ 99999) (hk : 0 ≤ k ∧ k ≤ 99999)
    (h : nodeTree n = nodeTree k) : n = k := by
  have hdigits : fixedDigits 5 n.toNat = fixedDigits 5 k.toNat := by
    simpa [nodeTree] using h
  have := fixedDigits_inj 5 (by omega) (by omega) hdigits
  omega

/-- The directory of a node is in normal form. -/
theorem norm_nodePath (node : ℤ) : posix.norm (nodePath node) = nodeTree node := by
  have hsep : (47 : UInt8) ∉ fixedDigits 5 node.toNat := by
    intro hmem
    have := (mem_fixedDigits _ _ hmem).1
    revert this
    decide
  have hsplit : (nodePath node).splitOn 47 = [[], bytes "j", fixedDigits 5 node.toNat] := by
    have htail : (bytes "j" ++ 47 :: fixedDigits 5 node.toNat).splitOn 47 =
        [bytes "j", fixedDigits 5 node.toNat] := by
      rw [List.splitOn_append_cons_self_of_not_mem (by decide), List.splitOn_eq_singleton hsep]
    rw [← htail]
    exact List.splitOn_append_cons_self [] _
  -- five digits are neither nothing nor dots
  have hlen : ∀ c : List UInt8, c.length < 5 → fixedDigits 5 node.toNat ≠ c := by
    intro c hc heq
    have := congrArg List.length heq
    rw [length_fixedDigits] at this
    omega
  have hdigits : ∀ dir : List (List UInt8),
      posix.push dir (fixedDigits 5 node.toNat) = dir ++ [fixedDigits 5 node.toNat] := by
    intro dir
    rw [PathSyntax.push, if_neg, if_neg (hlen _ (by decide))]
    rintro (h | h)
    · exact hlen _ (by decide) h
    · exact hlen _ (by decide) h
  change posix.walk [] ((nodePath node).splitOn 47) = _
  rw [hsplit]
  change posix.push (posix.push (posix.push [] []) (bytes "j")) _ = _
  rw [hdigits]
  rfl

/-- The part of the node's directory that the path climbs out of is what it
enters again.  A path that does not climb above its own root is one of these. -/
def StaysInTree (node : ℤ) (path : List UInt8) : Prop :=
  (nodeTree node).drop (2 - posix.climbs path) <+: posix.remains path

instance (node : ℤ) (path : List UInt8) : Decidable (StaysInTree node path) :=
  inferInstanceAs (Decidable (_ <+: _))

/-- **The rewritten paths that stay in the directory of their node.** -/
theorem nodeTree_prefix_iff {path : List UInt8} (hhome : homedirPrefix <+: path) (node : ℤ) :
    nodeTree node <+: posix.norm (nodePath node ++ path) ↔ StaysInTree node path := by
  have hslash : [posix.sep] <+: path := by
    have : [posix.sep] <+: homedirPrefix := by decide
    exact this.trans hhome
  have h := posix.prefix_norm_append_iff (nodePath node) hslash
  rw [norm_nodePath] at h
  exact h

/-- Two tasks are handed paths in the directories of their own nodes, so that
they name different files, and neither names a file of the other's node. -/
def Confined {u v : List UInt8} (c₁ : Placement u) (c₂ : Placement v) (k₁ k₂ : TaskStruct) :
    Prop :=
  ∃ r s, c₁.Result k₁ r ∧ c₂.Result k₂ s ∧
    (nodeTree k₁.hpNode <+: posix.norm r ∧ nodeTree k₂.hpNode <+: posix.norm s) ∧
    posix.norm r ≠ posix.norm s ∧
    ¬ nodeTree k₂.hpNode <+: posix.norm r ∧ ¬ nodeTree k₁.hpNode <+: posix.norm s

/-- A path is in the directory of one node at most. -/
theorem node_unique {n k : ℤ} (hn : 0 ≤ n ∧ n ≤ 99999) (hk : 0 ≤ k ∧ k ≤ 99999)
    {l : List (List UInt8)} (h₁ : nodeTree n <+: l) (h₂ : nodeTree k <+: l) : n = k := by
  have hle : (nodeTree n).length ≤ (nodeTree k).length := le_rfl
  apply nodeTree_inj hn hk
  exact (List.prefix_of_prefix_length_le h₁ h₂ hle).eq_of_length rfl

/-- **Home paths keep two nodes apart exactly when** both stay in the directory
of their node. -/
theorem confined_iff {u v : List UInt8} (hu : homedirPrefix <+: u) (hv : homedirPrefix <+: v)
    (c₁ : Placement u) (c₂ : Placement v) {k₁ k₂ : TaskStruct}
    (h₁ : 0 ≤ k₁.hpNode ∧ k₁.hpNode ≤ 99999) (h₂ : 0 ≤ k₂.hpNode ∧ k₂.hpNode ≤ 99999)
    (hne : k₁.hpNode ≠ k₂.hpNode) :
    Confined c₁ c₂ k₁ k₂ ↔ StaysInTree k₁.hpNode u ∧ StaysInTree k₂.hpNode v := by
  rw [← nodeTree_prefix_iff hu, ← nodeTree_prefix_iff hv,
    ← dirBytes_eq_nodePath h₁.1 h₁.2, ← dirBytes_eq_nodePath h₂.1 h₂.2]
  constructor
  · rintro ⟨r, s, hr, hs, hpre, -⟩
    rw [c₁.result_iff hu] at hr
    rw [c₂.result_iff hv] at hs
    rw [← hr, ← hs]
    exact hpre
  · rintro ⟨hr, hs⟩
    refine ⟨_, _, (c₁.result_iff hu _ _).mpr rfl, (c₂.result_iff hv _ _).mpr rfl, ⟨hr, hs⟩,
      ?_, ?_, ?_⟩
    · intro heq
      rw [heq] at hr
      exact hne (node_unique h₁ h₂ hr hs)
    · exact fun h => hne (node_unique h₁ h₂ hr h)
    · exact fun h => hne (node_unique h₁ h₂ h hs)

/-- A task in a node. -/
def taskIn (node : ℤ) : TaskStruct := ⟨1, 1, node, fun _ => 0, 0⟩

/-- Going up and down below `/home/` is harmless. -/
theorem tame_paths_confined :
    Confined (placementOf (bytes "/home/a/../b") (by decide))
      (placementOf (bytes "/home//./a") (by decide)) (taskIn 1) (taskIn 2) :=
  (confined_iff (by decide) (by decide) _ _ (by decide) (by decide) (by decide)).mpr
    ⟨by decide, by decide⟩

/-- A task of node 1 names a file of node 2. -/
theorem dotdot_reaches_other_node :
    ¬ ∀ (u v : List UInt8) (c₁ : Placement u) (c₂ : Placement v) (k₁ k₂ : TaskStruct),
      homedirPrefix <+: u → homedirPrefix <+: v →
      0 ≤ k₁.hpNode ∧ k₁.hpNode ≤ 99999 → 0 ≤ k₂.hpNode ∧ k₂.hpNode ≤ 99999 →
      k₁.hpNode ≠ k₂.hpNode → Confined c₁ c₂ k₁ k₂ := by
  intro h
  obtain ⟨r, s, hr, hs, -, hne, -⟩ := h (bytes "/home/../../00002/home/a") (bytes "/home/a")
    (placementOf _ (by decide)) (placementOf _ (by decide)) (taskIn 1) (taskIn 2)
    (by decide) (by decide) (by decide) (by decide) (by decide)
  rw [Placement.result_iff (by decide)] at hr hs
  subst hr hs
  revert hne
  decide

end HomeHack
end KernelStudy
