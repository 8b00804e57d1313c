import KernelStudy.Lib.Loans
import KernelStudy.Proc.Dir

/-!
# The executable of a process

The address space of a process holds a reference to the file that it executes, and
`/proc/<pid>/exe` leads there.  The reference is taken by `exec` and passed on by
`fork`; it is dropped by the next `exec`, at the end, or as soon as nothing of the file
is mapped any more.  Meanwhile readers come and take references of their own.

## Main definitions

* `Mm`, `ExeSt` — the address spaces, and what has been taken and given back.
* `addedExeFileVma`, `removedExeFileVma`, `setMmExeFile`, `getMmExeFile`, `dupMmExeFile`,
  `procExeLink` — the code.
* `ExeEvent`, `exeStep` — what happens, in any order.

## Main results

* `exe_file_references` — **an address space holds one reference to its file, and
  nobody else holds one**, but for the readers.
-/

namespace KernelStudy
namespace Proc

open Dir (enoent)

/-! ### The code -/

/-- An address space. -/
structure Mm where
  /-- `exe_file`. -/
  exeFile : Option ℕ
  /-- `num_exe_file_vmas`. -/
  numExeFileVmas : ℕ

/-- What references are taken to. -/
inductive ExeRef (ι : Type*) where
  | file (f : ℕ)
  /-- The path of a file. -/
  | path (f : ℕ)
  | task (t : TaskPtr)
  | mm (i : ι)
  deriving DecidableEq

/-- The address spaces, and what has been taken and given back. -/
structure ExeSt (ι : Type*) where
  mms : ι → Mm
  loans : List (Loan (ExeRef ι))

variable {ι : Type*} [DecidableEq ι]

/-- A reference is taken. -/
def ExeSt.take (st : ExeSt ι) (x : ExeRef ι) : ExeSt ι := { st with loans := st.loans ++ [.take x] }

/-- A reference is given back. -/
def ExeSt.give (st : ExeSt ι) (x : ExeRef ι) : ExeSt ι := { st with loans := st.loans ++ [.give x] }

/-- An address space changes. -/
def ExeSt.store (st : ExeSt ι) (i : ι) (m : Mm) : ExeSt ι :=
  { st with mms := Function.update st.mms i m }

/-- `added_exe_file_vma`. -/
def addedExeFileVma (mm : ι) (st : ExeSt ι) : ExeSt ι :=
  st.store mm { st.mms mm with numExeFileVmas := u32 ((st.mms mm).numExeFileVmas + 1) }

/-- `removed_exe_file_vma`. -/
def removedExeFileVma (mm : ι) (st : ExeSt ι) : ExeSt ι :=
  let num := u32 ((st.mms mm).numExeFileVmas - 1)
  match (st.mms mm).exeFile with
  | none => st.store mm ⟨none, num⟩
  -- the last mapping takes the reference with it
  | some f =>
      if num = 0 then (st.give (.file f)).store mm ⟨none, num⟩ else st.store mm ⟨some f, num⟩

/-- `get_file`, if there is a file. -/
def getFile (f : Option ℕ) (st : ExeSt ι) : ExeSt ι := f.elim st fun f => st.take (.file f)

/-- `fput`, if there is a file. -/
def fput (f : Option ℕ) (st : ExeSt ι) : ExeSt ι := f.elim st fun f => st.give (.file f)

/-- `set_mm_exe_file`. -/
def setMmExeFile (mm : ι) (newExeFile : Option ℕ) (st : ExeSt ι) : ExeSt ι :=
  (fput (st.mms mm).exeFile (getFile newExeFile st)).store mm ⟨newExeFile, 0⟩

/-- `get_mm_exe_file`. -/
def getMmExeFile (mm : ι) (st : ExeSt ι) : Option ℕ × ExeSt ι :=
  ((st.mms mm).exeFile, getFile (st.mms mm).exeFile st)

/-- `dup_mm_exe_file`. -/
def dupMmExeFile (oldmm newmm : ι) (st : ExeSt ι) : ExeSt ι :=
  let r := getMmExeFile oldmm st
  r.2.store newmm { r.2.mms newmm with exeFile := r.1 }

/-- `proc_exe_link`, if it finds that task and that `mm`: its result, and the path. -/
def procExeLink (task : Option TaskPtr) (mm : Option ι) (st : ExeSt ι) :
    ℤ × Option ℕ × ExeSt ι :=
  match task with
  | none => (enoent, none, st)
  | some t =>
      let st := st.take (.task t)
      match mm with
      | none => (enoent, none, st.give (.task t))
      | some i =>
          -- from here on the `mm` keeps the file, and the task may go
          let st := (st.take (.mm i)).give (.task t)
          let r := getMmExeFile i st
          let st := r.2.give (.mm i)
          match r.1 with
          | none => (enoent, none, st)
          | some f => (0, some f, fput (some f) (st.take (.path f)))

/-! ### What happens -/

/-- What happens to the address spaces. -/
inductive ExeEvent (ι : Type*) where
  | added (mm : ι)
  | removed (mm : ι)
  /-- By `exec`, and with no file at the end. -/
  | set (mm : ι) (file : Option ℕ)
  /-- `fork` copies an address space to one that is not in use. -/
  | dup (oldmm newmm : ι)
  /-- A reader follows the link. -/
  | link (task : Option TaskPtr) (mm : Option ι)
  /-- A reader is done with a path. -/
  | pathPut (file : ℕ)

/-- The address spaces, with the paths that readers have. -/
structure ExeWorld (ι : Type*) extends ExeSt ι where
  readers : Multiset ℕ

/-- One event; `none` if it cannot happen. -/
def exeStep (w : ExeWorld ι) : ExeEvent ι → Option (ExeWorld ι)
  | .added mm => some { w with toExeSt := addedExeFileVma mm w.toExeSt }
  | .removed mm => some { w with toExeSt := removedExeFileVma mm w.toExeSt }
  | .set mm file => some { w with toExeSt := setMmExeFile mm file w.toExeSt }
  | .dup oldmm newmm =>
      if (w.mms newmm).exeFile = none ∧ oldmm ≠ newmm then
        -- the copy has the pointer already, and owns nothing
        some { w with toExeSt := dupMmExeFile oldmm newmm (w.toExeSt.store newmm (w.mms oldmm)) }
      else none
  | .link task mm =>
      let r := procExeLink task mm w.toExeSt
      some ⟨r.2.2, r.2.1.elim w.readers fun f => f ::ₘ w.readers⟩
  | .pathPut file =>
      if file ∈ w.readers then
        some ⟨w.toExeSt.give (.path file), w.readers.erase file⟩
      else none

/-! ### What is held -/

/-- The reference to a file, if there is one. -/
def fileRef (f : Option ℕ) : Multiset (ExeRef ι) := f.elim 0 fun f => {.file f}

omit [DecidableEq ι] in
@[simp] theorem fileRef_none : (fileRef none : Multiset (ExeRef ι)) = 0 := rfl

section

variable [Fintype ι]

/-- The references of the other address spaces. -/
def others (i : ι) (mms : ι → Mm) : Multiset (ExeRef ι) :=
  ∑ j ∈ Finset.univ.erase i, fileRef (mms j).exeFile

/-- The references of all address spaces. -/
def files (mms : ι → Mm) : Multiset (ExeRef ι) := ∑ i, fileRef (mms i).exeFile

theorem files_eq (i : ι) (mms : ι → Mm) : files mms = fileRef (mms i).exeFile + others i mms :=
  (Finset.add_sum_erase _ _ (Finset.mem_univ i)).symm

theorem files_update (i : ι) (mms : ι → Mm) (m : Mm) :
    files (Function.update mms i m) = fileRef m.exeFile + others i mms := by
  rw [files_eq i, Function.update_self]
  congr 1
  refine Finset.sum_congr rfl fun j hj => ?_
  rw [Function.update_of_ne (Finset.ne_of_mem_erase hj)]

/-- The address spaces and the readers hold one reference each. -/
def Balanced (w : ExeWorld ι) : Prop :=
  Owing w.loans (files w.mms + w.readers.map ExeRef.path)

end

variable {st : ExeSt ι} {held : Multiset (ExeRef ι)}

theorem getFile_owing (h : Owing st.loans held) (f : Option ℕ) :
    Owing (getFile f st).loans (fileRef f + held) := by
  cases f with
  | none =>
    rw [fileRef_none, zero_add]
    exact h
  | some f => exact h.take _

theorem fput_owing {f : Option ℕ} (h : Owing st.loans (fileRef f + held)) :
    Owing (fput f st).loans held := by
  cases f with
  | none =>
    rw [fileRef_none, zero_add] at h
    exact h
  | some f => exact h.give

omit [DecidableEq ι] in
@[simp] theorem getFile_mms (f : Option ℕ) (st : ExeSt ι) : (getFile f st).mms = st.mms := by
  cases f <;> rfl

omit [DecidableEq ι] in
@[simp] theorem fput_mms (f : Option ℕ) (st : ExeSt ι) : (fput f st).mms = st.mms := by
  cases f <;> rfl

@[simp] theorem store_loans (st : ExeSt ι) (i : ι) (m : Mm) : (st.store i m).loans = st.loans := rfl

@[simp] theorem store_mms (st : ExeSt ι) (i : ι) (m : Mm) :
    (st.store i m).mms = Function.update st.mms i m := rfl

@[simp] theorem getFile_store_loans (f : Option ℕ) (st : ExeSt ι) (i : ι) (m : Mm) :
    (getFile f (st.store i m)).loans = (getFile f st).loans := by
  cases f <;> rfl

/-- A link is followed: only the path stays with the reader. -/
theorem procExeLink_owing (h : Owing st.loans held) (task : Option TaskPtr) (mm : Option ι) :
    (procExeLink task mm st).2.2.mms = st.mms ∧ Owing (procExeLink task mm st).2.2.loans
      ((procExeLink task mm st).2.1.elim held fun f => .path f ::ₘ held) := by
  cases task with
  | none => exact ⟨rfl, h⟩
  | some t =>
    cases mm with
    | none => exact ⟨rfl, (h.take (.task t)).give⟩
    | some i =>
      have hboth : Owing ((st.take (.task t)).take (.mm i)).loans (.task t ::ₘ .mm i ::ₘ held) := by
        rw [Multiset.cons_swap]
        exact (h.take (.task t)).take (.mm i)
      have hmm : Owing (((st.take (.task t)).take (.mm i)).give (.task t)).loans (.mm i ::ₘ held) :=
        hboth.give
      have hfile := getFile_owing hmm (st.mms i).exeFile
      unfold procExeLink getMmExeFile
      dsimp only
      rw [show (((st.take (.task t)).take (.mm i)).give (.task t)).mms = st.mms from rfl]
      generalize (st.mms i).exeFile = file at hfile ⊢
      cases file with
      | none =>
        rw [fileRef_none, zero_add] at hfile
        exact ⟨rfl, hfile.give⟩
      | some f =>
        refine ⟨rfl, ?_⟩
        rw [fileRef, Option.elim_some, Multiset.singleton_add, Multiset.cons_swap] at hfile
        have hpath := (Owing.give hfile).take (.path f)
        rw [Multiset.cons_swap] at hpath
        exact hpath.give

variable [Fintype ι]

/-- **Every event keeps the balance.** -/
theorem exeStep_balanced (w : ExeWorld ι) (e : ExeEvent ι) (w' : ExeWorld ι) (hI : Balanced w)
    (h : exeStep w e = some w') : Balanced w' := by
  unfold Balanced at *
  cases e with
  | added mm =>
    cases h
    rw [files_eq mm] at hI
    simp only [addedExeFileVma, store_loans, store_mms, files_update]
    exact hI
  | removed mm =>
    cases h
    rw [files_eq mm] at hI
    unfold removedExeFileVma
    dsimp only
    cases hfile : (w.mms mm).exeFile with
    | none =>
      rw [hfile] at hI
      simp only [store_loans, store_mms, files_update]
      exact hI
    | some f =>
      rw [hfile, add_assoc] at hI
      dsimp only
      split
      · -- the last one is gone, and with it the file
        simp only [store_loans, store_mms, files_update, ExeSt.give, fileRef_none, zero_add]
        exact fput_owing (f := some f) hI
      · simp only [store_loans, store_mms, files_update, add_assoc]
        exact hI
  | set mm file =>
    cases h
    rw [files_eq mm, add_assoc] at hI
    have hboth := getFile_owing hI file
    rw [add_left_comm] at hboth
    simp only [setMmExeFile, store_loans, store_mms, fput_mms, getFile_mms, files_update, add_assoc]
    exact fput_owing hboth
  | dup oldmm newmm =>
    simp only [exeStep] at h
    split at h
    · next hfree =>
      cases h
      have hold := getFile_owing hI (w.mms oldmm).exeFile
      rw [files_eq newmm, hfree.1, fileRef_none, zero_add] at hold
      simp only [dupMmExeFile, getMmExeFile, store_loans, store_mms, getFile_mms,
        getFile_store_loans, Function.update_of_ne hfree.2, files_update, add_assoc,
        Function.update_idem]
      exact hold
    · cases h
  | link task mm =>
    cases h
    obtain ⟨hmms, howing⟩ := procExeLink_owing hI task mm
    dsimp only
    rw [hmms]
    generalize (procExeLink task mm w.toExeSt).2.1 = path at howing ⊢
    cases path with
    | none => exact howing
    | some f =>
      rw [Option.elim_some, Multiset.map_cons, Multiset.add_cons]
      exact howing
  | pathPut file =>
    simp only [exeStep] at h
    split at h
    · next hmem =>
      cases h
      rw [← Multiset.cons_erase hmem, Multiset.map_cons, Multiset.add_cons] at hI
      exact hI.give
    · cases h

/-! ### Histories -/

/-- No address space is in use yet. -/
def noMms : ExeWorld ι := ⟨⟨fun _ => ⟨none, 0⟩, []⟩, 0⟩

theorem noMms_balanced : Balanced (noMms : ExeWorld ι) := by
  have hfiles : files (noMms : ExeWorld ι).mms = 0 := Finset.sum_eq_zero fun _ _ => rfl
  rw [Balanced, hfiles]
  exact owing_nil

omit [Fintype ι] in
theorem count_fileRef (f : ℕ) (file : Option ℕ) :
    (fileRef file : Multiset (ExeRef ι)).count (.file f) = if file = some f then 1 else 0 := by
  cases file with
  | none => rfl
  | some g =>
    by_cases h : g = f
    · subst h
      simp [fileRef]
    · simp [fileRef, h, Ne.symm h]

theorem count_files (mms : ι → Mm) (f : ℕ) : (files mms).count (.file f) =
    (Finset.univ.filter fun i => (mms i).exeFile = some f).card := by
  simp only [files, Multiset.count_sum', count_fileRef, Finset.card_filter]

omit [DecidableEq ι] in
/-- Address spaces hold files only. -/
theorem exists_file_of_mem_files {mms : ι → Mm} {x : ExeRef ι} (h : x ∈ files mms) :
    ∃ f, x = .file f := by
  obtain ⟨i, -, hi⟩ := Multiset.mem_sum.mp h
  cases hfile : (mms i).exeFile with
  | none =>
    rw [hfile] at hi
    exact absurd hi (Multiset.notMem_zero x)
  | some f =>
    rw [hfile] at hi
    exact ⟨f, Multiset.mem_singleton.mp hi⟩

/-- **An address space holds one reference to its file, and a reader one to each path
that he was given**: in every history each reference that is given back is held at that
moment, and these are the ones that are left. -/
theorem exe_file_references (events : List (ExeEvent ι)) {w : ExeWorld ι}
    (hrun : run exeStep noMms events = some w) :
    ∃ held, Owing w.loans held ∧
      (∀ f, held.count (.file f) =
        (Finset.univ.filter fun i => (w.mms i).exeFile = some f).card) ∧
      (∀ f, held.count (.path f) = w.readers.count f) ∧
      ∀ x ∈ held, ∃ f, x = .file f ∨ x = .path f := by
  have hI := run_invariant exeStep_balanced events noMms w noMms_balanced hrun
  refine ⟨_, hI, fun f => ?_, fun f => ?_, fun x hx => ?_⟩
  · have hnone : (w.readers.map (ExeRef.path : ℕ → ExeRef ι)).count (.file f) = 0 := by
      rw [Multiset.count_eq_zero]
      intro h
      obtain ⟨g, -, hg⟩ := Multiset.mem_map.mp h
      cases hg
    rw [Multiset.count_add, hnone, count_files, add_zero]
  · have hnone : (files w.mms).count (.path f) = 0 := by
      rw [Multiset.count_eq_zero]
      intro h
      obtain ⟨g, hg⟩ := exists_file_of_mem_files h
      cases hg
    rw [Multiset.count_add, hnone, zero_add, Multiset.count_map_eq_count' _ _ _]
    intro g g' h
    cases h
    rfl
  · rcases Multiset.mem_add.mp hx with h | h
    · obtain ⟨f, hf⟩ := exists_file_of_mem_files h
      exact ⟨f, Or.inl hf⟩
    · obtain ⟨f, -, hf⟩ := Multiset.mem_map.mp h
      exact ⟨f, Or.inr hf.symm⟩

/-- A process is forked and loses its executable, while a reader has its path. -/
theorem exe_file_of_two : ∃ w : ExeWorld (Fin 2),
    run exeStep noMms [.set 0 (some 7), .added 0, .dup 0 1, .link (some 3) (some 1),
      .removed 1] = some w ∧
    ∃ held, Owing w.loans held ∧ held.count (.file 7) = 1 ∧ held.count (.path 7) = 1 := by
  have hview : (run exeStep (noMms : ExeWorld (Fin 2)) [.set 0 (some 7), .added 0, .dup 0 1,
      .link (some 3) (some 1), .removed 1]).map
        (fun w => ((w.mms 0).exeFile, (w.mms 1).exeFile, w.readers)) =
      some (some 7, none, {7}) := by decide
  obtain ⟨w, hrun, heq⟩ := Option.map_eq_some_iff.mp hview
  simp only [Prod.mk.injEq] at heq
  obtain ⟨held, howing, hfile, hpath, -⟩ := exe_file_references _ hrun
  refine ⟨w, hrun, held, howing, ?_, ?_⟩
  · rw [hfile, Finset.card_eq_one]
    refine ⟨0, ?_⟩
    ext i
    fin_cases i
    · simp [heq.1]
    · simp [heq.2.1]
  · rw [hpath, heq.2.2]
    rfl

end Proc
end KernelStudy
