import KernelStudy.Chardev.Sessions

/-!
# Removing the character device module

`fops` has no owner, so the only references to the module are those that
`device_open` takes and `device_release` drops.  `try_module_get` takes none once
the module is going, and `device_open` succeeds all the same.

## Main definitions

* `Safe` — the reference count counts the open handles, and no handle outlives
  the code.
* `OpensBeforeGoing` — the condition on the calls.

## Main results

* `counted_step` — what a step keeps if no open reaches a module that is going.
* `not_safe_of_open` — an open that does reach it breaks the count at once.
* `removal_safe_iff` — **a history is safe throughout if and only if no open
  reaches the module while it is going.**
-/

namespace KernelStudy
namespace Chardev

/-- The reference count is the number of open handles, and the code is freed
under none of them. -/
def Safe (w : World) : Prop :=
  w.dev.thisModule.refcnt = w.handles.length ∧ (w.unloaded = true → w.handles = [])

/-- The event is not an open of a module that is going. -/
def OpensBeforeGoing (w : World) (e : Event) : Prop :=
  w.dev.thisModule.going = true → ∀ h, e ≠ .openFile h

/-- The invariant of the histories without such an open: a module that is going
has no handle left. -/
structure Counted (w : World) : Prop where
  exclusive : Exclusive w
  count : w.dev.thisModule.refcnt = w.handles.length
  going : w.dev.thisModule.going = true → w.handles = []
  unloaded : w.unloaded = true → w.dev.thisModule.going = true

theorem counted_init : Counted init where
  exclusive := exclusive_init
  count := rfl
  going := fun _ => rfl
  unloaded := fun h => h

theorem Counted.safe {w : World} (hI : Counted w) : Safe w :=
  ⟨hI.count, fun h => hI.going (hI.unloaded h)⟩

/-- **A step that is no open of a module that is going keeps the count.** -/
theorem counted_step (w : World) (e : Event) (w' : World) (hI : Counted w)
    (hC : OpensBeforeGoing w e) (hs : step w e = some w') : Counted w' := by
  have hE := exclusive_step w e w' hI.exclusive hs
  cases step_cases hs with
  | refused h hbusy => exact ⟨hE, hI.count, hI.going, hI.unloaded⟩
  | opened h hfree =>
    -- the module is not going, so the new handle comes with a reference
    have hgoing : w.dev.thisModule.going = false := by
      by_contra hg
      exact hC (by simpa using hg) h rfl
    have hmod : (deviceOpen w.dev).2.thisModule =
        { w.dev.thisModule with refcnt := w.dev.thisModule.refcnt + 1 } := by
      simp [deviceOpen, hfree, tryModuleGet, hgoing]
    refine ⟨hE, ?_, ?_, ?_⟩
    · simp [hmod, hI.count]
    · intro hg
      rw [hmod, hgoing] at hg
      cases hg
    · intro hu
      have := hI.unloaded hu
      rw [hgoing] at this
      cases this
  | read h p m buffer length ret m' d hh hw hret =>
    obtain ⟨hframe, -⟩ := deviceRead_frame hret
    have hmod : d.thisModule = w.dev.thisModule := by rw [hframe]
    refine ⟨hE, ?_, ?_, ?_⟩
    · simp only [hmod, hI.count]
    · simpa only [hmod] using hI.going
    · simpa only [hmod] using hI.unloaded
  | wrote h => exact ⟨hE, hI.count, hI.going, hI.unloaded⟩
  | released h hh =>
    have hlen := List.length_erase_of_mem hh
    have hpos := List.length_pos_of_mem hh
    refine ⟨hE, ?_, ?_, hI.unloaded⟩
    · simp only [deviceRelease, modulePut, hI.count, hlen]
      omega
    · -- a module that is going had no handle to release
      intro hg
      have := hI.going hg
      rw [this] at hh
      cases hh
  | marked hzero =>
    -- step 1 of the removal wants the count to be zero, and the count is right
    have hnil : w.handles = [] := by
      have := hI.count
      exact List.eq_nil_of_length_eq_zero (by omega)
    exact ⟨hE, hI.count, fun _ => hnil, fun _ => rfl⟩
  | cleaned hgoing => exact ⟨hE, hI.count, hI.going, fun _ => hgoing⟩

/-- **An open of a module that is going gives out a handle without a reference.** -/
theorem not_safe_of_open (w : World) (e : Event) (w' : World) (hI : Counted w)
    (hC : ¬ OpensBeforeGoing w e) (hs : step w e = some w') : ¬ Safe w' := by
  obtain ⟨hgoing, h, rfl⟩ : w.dev.thisModule.going = true ∧ ∃ h, e = .openFile h := by
    simpa [OpensBeforeGoing] using hC
  have hnil := hI.going hgoing
  have hfree : w.dev.deviceOpen = 0 := by
    rw [hI.exclusive.count, hnil]
    rfl
  cases step_cases hs with
  | refused _ hbusy => exact absurd hfree hbusy
  | opened _ _ =>
    rintro ⟨hcount, -⟩
    have hzero := hI.count
    simp [deviceOpen, hfree, tryModuleGet, hgoing, hnil] at hcount hzero
    omega

/-- **A history is safe throughout if and only if no open reaches the module
while it is going.** -/
theorem removal_safe_iff {es : List Event} {w : World} (hr : run step init es = some w) :
    Always step Safe init es ↔ Throughout step OpensBeforeGoing init es := by
  constructor
  · exact throughout_of_always counted_step not_safe_of_open es init w counted_init hr
  · exact always_of_throughout (fun _ => Counted.safe) counted_step es init counted_init

/-- An orderly removal is safe throughout. -/
theorem orderly_removal_safe : ∃ w,
    run step init [.openFile 0, .releaseFile 0, .markGoing, .cleanup] = some w ∧
      Always step Safe init [.openFile 0, .releaseFile 0, .markGoing, .cleanup] := by
  have hrun : (run step init [.openFile 0, .releaseFile 0, .markGoing, .cleanup]).isSome := by
    decide
  obtain ⟨w, hr⟩ := Option.isSome_iff_exists.mp hrun
  refine ⟨w, hr, (removal_safe_iff hr).mpr ⟨?_, fun _ _ => ⟨?_, fun _ _ => ⟨?_, fun _ _ =>
    ⟨?_, fun _ _ => trivial⟩⟩⟩⟩⟩
  · intro hgoing
    cases hgoing
  · intro _ h
    simp
  · intro _ h
    simp
  · intro _ h
    simp

/-- An open between the two steps of the removal leaves a handle to freed code. -/
theorem removed_under_open_handle : ¬ ∀ es w, run step init es = some w → Safe w := by
  intro hall
  have hrun : (run step init [.markGoing, .openFile 0, .cleanup]).map
      (fun w => (w.unloaded, w.handles)) = some (true, [0]) := by decide
  obtain ⟨w, hr, hw⟩ := Option.map_eq_some_iff.mp hrun
  obtain ⟨hunloaded, hhandles⟩ := Prod.mk.inj hw
  have hnil := (hall _ w hr).2 hunloaded
  rw [hhandles] at hnil
  cases hnil

end Chardev
end KernelStudy
