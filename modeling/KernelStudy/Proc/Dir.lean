import KernelStudy.Lib.Loans
import KernelStudy.Proc.Names
import KernelStudy.Task

/-!
# The directories of a process

The directories below `/proc/<pid>` are read like `/proc` itself: each call goes
on at `f_pos` and hands entries to `filldir` until one is refused or there are no
more.  They all start with `.` and `..`.

The processes change while a directory is read.  A clock numbers the moments at
which the code looks at its surroundings, as in the scan of `/proc`.

## Main definitions

* `Dir.St`, `Dir.Act` — a directory that is read, and what is done.
* `Dir.accepted` — the entries that `filldir` has taken.
* `Dir.Owes` — the references that are held, if none was dropped that is not.
* `Dir.Frame`, `Dir.Offers` — nothing is listed, or one entry is offered.
* `Dir.fillLoop` — the loop that offers one entry after the other.
* `Dir.dotsLeft` — which of `.` and `..` are still to be listed.

## Main results

* `Dir.fillLoop_spec` — **what the loop has listed when it is left.**
* `Dir.fillLoop_dots` — **the first two entries are listed once.**
-/

namespace KernelStudy
namespace Proc
namespace Dir

/-- What references are taken to: a `task_struct`, a `files_struct` or a path. -/
inductive Thing where
  | task (p : TaskPtr)
  | files (p : ℕ)
  | path (p : ℕ)
  deriving DecidableEq

/-- What is done while a directory is read or searched. -/
inductive Act where
  /-- A reference is taken. -/
  | get (x : Thing)
  /-- A reference is dropped. -/
  | put (x : Thing)
  /-- `filldir` is called for an entry, with this result.  An entry that is made
  for a task comes with the task. -/
  | fill (name : List UInt8) (task : Option TaskPtr) (ret : ℤ)
  deriving DecidableEq

/-- A directory that is read. -/
structure St where
  /-- The next moment. -/
  clock : ℕ
  /-- `filp->f_pos`. -/
  fPos : ℤ
  /-- `filp->f_version`. -/
  fVersion : ℕ
  /-- What has been done. -/
  trace : List Act

/-- Conversion to `int`. -/
def s32 (x : ℤ) : ℤ := (x + 2 ^ 31) % 2 ^ 32 - 2 ^ 31

/-- `-ENOENT`. -/
def enoent : ℤ := -2

/-- `-ESRCH`. -/
def esrch : ℤ := -3

/-- `-EIO`. -/
def eio : ℤ := -5

/-- `-ENOMEM`. -/
def enomem : ℤ := -12

/-- `-EACCES`. -/
def eacces : ℤ := -13

/-- `-EFAULT`. -/
def efault : ℤ := -14

/-- An open directory before the first call. -/
def start : St := ⟨0, 0, 0, []⟩

/-- An entry: its name, and the task it is made for. -/
abbrev Entry := List UInt8 × Option TaskPtr

/-- Time passes. -/
def St.tick (st : St) : St := { st with clock := st.clock + 1 }

/-- Something is done. -/
def St.log (st : St) (a : Act) : St := { st with trace := st.trace ++ [a] }

/-- The entries that `filldir` has taken. -/
def accepted (trace : List Act) : List Entry :=
  trace.filterMap fun
    | .fill name task ret => if ret < 0 then none else some (name, task)
    | _ => none

/-- The entries that `filldir` was called for. -/
def offered (trace : List Act) : List Entry :=
  trace.filterMap fun
    | .fill name task _ => some (name, task)
    | _ => none

/-- The references that are taken and dropped. -/
def loans (trace : List Act) : List (Loan Thing) :=
  trace.filterMap fun
    | .get x => some (.take x)
    | .put x => some (.give x)
    | .fill _ _ _ => none

/-- The references `held` are held, and none was dropped that was not. -/
def Owes (st : St) (held : Multiset Thing) : Prop := Owing (loans st.trace) held

/-! ### The code that the directories share -/

/-- A call of `filldir`, whose results `filldir` gives for each moment. -/
def fill (filldir : ℕ → ℤ) (e : Entry) (st : St) : ℤ × St :=
  (filldir st.clock, st.tick.log (.fill e.1 e.2 (filldir st.clock)))

/-- The loop that offers entries by a function and moves `f_pos` on with each of
them; whether it ran to its end. -/
def fillLoop {α : Type} (f : α → St → ℤ × St) : List α → St → Bool × St
  | [], st => (true, st)
  | a :: as, st =>
      let r := f a st
      if r.1 < 0 then (false, r.2) else fillLoop f as { r.2 with fPos := r.2.fPos + 1 }

/-- The first two entries of a directory. -/
def dots : List Entry := [(bytes ".", none), (bytes "..", none)]

/-- Those that the `switch` over `f_pos` still lists. -/
def dotsLeft (fPos : ℤ) : List Entry := dots.drop (u32 fPos)

theorem s32_of_lt {n : ℕ} (h : n < 2 ^ 31) : s32 n = n := by
  unfold s32
  omega

theorem dotsLeft_of_lt {n : ℕ} (hn : n < 2 ^ 32) : dotsLeft n = dots.drop n := by
  rw [dotsLeft, u32_of_lt hn]

/-! ### Traces -/

@[simp] theorem accepted_append (t t' : List Act) :
    accepted (t ++ t') = accepted t ++ accepted t' :=
  List.filterMap_append

@[simp] theorem offered_append (t t' : List Act) : offered (t ++ t') = offered t ++ offered t' :=
  List.filterMap_append

@[simp] theorem offered_fill (name : List UInt8) (task : Option TaskPtr) (ret : ℤ) (t : List Act) :
    offered (.fill name task ret :: t) = (name, task) :: offered t := rfl

@[simp] theorem offered_get (x : Thing) (t : List Act) :
    offered (.get x :: t) = offered t := rfl

@[simp] theorem offered_put (x : Thing) (t : List Act) :
    offered (.put x :: t) = offered t := rfl

@[simp] theorem offered_nil : offered [] = [] := rfl

@[simp] theorem accepted_nil : accepted [] = [] := rfl

@[simp] theorem accepted_get (x : Thing) (t : List Act) :
    accepted (.get x :: t) = accepted t := rfl

@[simp] theorem accepted_put (x : Thing) (t : List Act) :
    accepted (.put x :: t) = accepted t := rfl

theorem accepted_fill_of_neg {ret : ℤ} (h : ret < 0) (name : List UInt8) (task : Option TaskPtr)
    (t : List Act) : accepted (.fill name task ret :: t) = accepted t := by
  simp [accepted, h]

theorem accepted_fill_of_not_neg {ret : ℤ} (h : ¬ ret < 0) (name : List UInt8)
    (task : Option TaskPtr) (t : List Act) :
    accepted (.fill name task ret :: t) = (name, task) :: accepted t := by
  simp [accepted, h]

@[simp] theorem loans_append (t t' : List Act) : loans (t ++ t') = loans t ++ loans t' :=
  List.filterMap_append

@[simp] theorem loans_fill (name : List UInt8) (task : Option TaskPtr) (ret : ℤ) (t : List Act) :
    loans (.fill name task ret :: t) = loans t := rfl

@[simp] theorem loans_nil : loans [] = [] := rfl

@[simp] theorem tick_clock (st : St) : st.tick.clock = st.clock + 1 := rfl

@[simp] theorem tick_fPos (st : St) : st.tick.fPos = st.fPos := rfl

@[simp] theorem tick_fVersion (st : St) : st.tick.fVersion = st.fVersion := rfl

@[simp] theorem tick_trace (st : St) : st.tick.trace = st.trace := rfl

@[simp] theorem log_clock (st : St) (a : Act) : (st.log a).clock = st.clock := rfl

@[simp] theorem log_fPos (st : St) (a : Act) : (st.log a).fPos = st.fPos := rfl

@[simp] theorem log_fVersion (st : St) (a : Act) : (st.log a).fVersion = st.fVersion := rfl

@[simp] theorem log_trace (st : St) (a : Act) : (st.log a).trace = st.trace ++ [a] := rfl

/-! ### References -/

/-- What is held besides `held`, on account of something that was found. -/
def holding : Option Thing → Multiset Thing → Multiset Thing
  | none, held => held
  | some x, held => x ::ₘ held

theorem owes_start : Owes start 0 := owing_nil

theorem Owes.tick {st : St} {held : Multiset Thing} (h : Owes st held) : Owes st.tick held := h

theorem Owes.seek {st : St} {held : Multiset Thing} (h : Owes st held) (n : ℤ) :
    Owes { st with fPos := n } held := h

theorem Owes.get {st : St} {held : Multiset Thing} (h : Owes st held) (x : Thing) :
    Owes (st.log (.get x)) (x ::ₘ held) := by
  rw [Owes, log_trace, loans_append]
  exact h.take x

theorem Owes.put {st : St} {held : Multiset Thing} {x : Thing} (h : Owes st (x ::ₘ held)) :
    Owes (st.log (.put x)) held := by
  rw [Owes, log_trace, loans_append]
  exact h.give

/-! ### What is listed -/

/-- Time passes and references come and go, but nothing is listed. -/
structure Frame (st st' : St) : Prop where
  clock : st.clock ≤ st'.clock
  fPos : st'.fPos = st.fPos
  fVersion : st'.fVersion = st.fVersion
  accepted_eq : accepted st'.trace = accepted st.trace
  offered_eq : offered st'.trace = offered st.trace

theorem Frame.refl (st : St) : Frame st st := ⟨le_rfl, rfl, rfl, rfl, rfl⟩

theorem Frame.trans {st₁ st₂ st₃ : St} (h : Frame st₁ st₂) (h' : Frame st₂ st₃) :
    Frame st₁ st₃ where
  clock := h.clock.trans h'.clock
  fPos := h'.fPos.trans h.fPos
  fVersion := h'.fVersion.trans h.fVersion
  accepted_eq := h'.accepted_eq.trans h.accepted_eq
  offered_eq := h'.offered_eq.trans h.offered_eq

variable {st st' : St}

theorem Frame.tick (h : Frame st st') : Frame st st'.tick :=
  ⟨h.clock.trans (Nat.le_succ _), h.fPos, h.fVersion, h.accepted_eq, h.offered_eq⟩

theorem Frame.get (h : Frame st st') (x : Thing) : Frame st (st'.log (.get x)) :=
  ⟨h.clock, h.fPos, h.fVersion, by simpa using h.accepted_eq, by simpa using h.offered_eq⟩

theorem Frame.put (h : Frame st st') (x : Thing) : Frame st (st'.log (.put x)) :=
  ⟨h.clock, h.fPos, h.fVersion, by simpa using h.accepted_eq, by simpa using h.offered_eq⟩

/-- One entry is offered, with the result of `r`, and no reference is kept. -/
structure Offers (e : Entry) (st : St) (r : ℤ × St) : Prop where
  clock : st.clock < r.2.clock
  fPos : r.2.fPos = st.fPos
  fVersion : r.2.fVersion = st.fVersion
  accepted_eq : accepted r.2.trace = accepted st.trace ++ if r.1 < 0 then [] else [e]
  offered_eq : offered r.2.trace = offered st.trace ++ [e]
  owes : ∀ held, Owes st held → Owes r.2 held

theorem fill_offers (filldir : ℕ → ℤ) (e : Entry) (st : St) : Offers e st (fill filldir e st) where
  clock := Nat.lt_succ_self _
  fPos := rfl
  fVersion := rfl
  accepted_eq := by
    by_cases hret : filldir st.clock < 0
    · simp [fill, hret, accepted_fill_of_neg hret]
    · simp [fill, hret, accepted_fill_of_not_neg hret]
  offered_eq := by simp [fill]
  owes := by
    intro held h
    rw [Owes, fill, log_trace, loans_append, loans_fill, loans_nil, List.append_nil]
    exact h

/-- What is done before an entry is offered. -/
theorem Offers.after {e : Entry} {r : ℤ × St} (h : Offers e st' r) (hframe : Frame st st')
    (howes : ∀ held, Owes st held → Owes st' held) : Offers e st r where
  clock := hframe.clock.trans_lt h.clock
  fPos := h.fPos.trans hframe.fPos
  fVersion := h.fVersion.trans hframe.fVersion
  accepted_eq := by rw [h.accepted_eq, hframe.accepted_eq]
  offered_eq := by rw [h.offered_eq, hframe.offered_eq]
  owes := fun held hheld => h.owes held (howes held hheld)

/-! ### The loop over entries -/

/-- What the loop over the entries `es` has done when it is left: it has listed
the first `k` of them, `f_pos` has moved on by as many, and it ran to its end
exactly if these are all. -/
structure Filled (es : List Entry) (st : St) (ok : Bool) (st' : St) (k : ℕ) : Prop where
  le : k ≤ es.length
  accepted_eq : accepted st'.trace = accepted st.trace ++ es.take k
  fPos : st'.fPos = st.fPos + k
  fVersion : st'.fVersion = st.fVersion
  clock : st.clock ≤ st'.clock
  owes : ∀ held, Owes st held → Owes st' held
  ok_iff : ok = true ↔ k = es.length

variable {α : Type} {f : α → St → ℤ × St} {entry : α → Entry}

/-- **What the loop has listed when it is left**, if its function offers the entries. -/
theorem fillLoop_spec (hf : ∀ a st, Offers (entry a) st (f a st)) : ∀ (as : List α) (st : St),
    ∃ k, Filled (as.map entry) st (fillLoop f as st).1 (fillLoop f as st).2 k := by
  intro as
  induction as with
  | nil =>
    intro st
    exact ⟨0, le_rfl, (List.append_nil _).symm, (add_zero _).symm, rfl, le_rfl, fun _ h => h,
      iff_of_true rfl rfl⟩
  | cons a as ih =>
    intro st
    have hoffers := hf a st
    have hacc := hoffers.accepted_eq
    rw [fillLoop]
    dsimp only
    by_cases hret : (f a st).1 < 0
    · rw [if_pos hret] at hacc ⊢
      refine ⟨0, Nat.zero_le _, hacc, ?_, hoffers.fVersion, hoffers.clock.le, hoffers.owes, ?_⟩
      · rw [hoffers.fPos]
        exact (add_zero _).symm
      · exact iff_of_false Bool.false_ne_true (by simp)
    · rw [if_neg hret] at hacc ⊢
      obtain ⟨k, hk⟩ := ih { (f a st).2 with fPos := (f a st).2.fPos + 1 }
      refine ⟨k + 1, Nat.succ_le_succ hk.le, ?_, ?_, hk.fVersion.trans hoffers.fVersion, ?_, ?_, ?_⟩
      · rw [hk.accepted_eq, hacc, List.append_assoc]
        rfl
      · rw [hk.fPos, hoffers.fPos]
        push_cast
        ring
      · exact hoffers.clock.le.trans hk.clock
      · exact fun held hheld => hk.owes held ((hoffers.owes held hheld).seek _)
      · rw [hk.ok_iff, List.map_cons, List.length_cons]
        omega

/-- The loop over the first two entries. -/
theorem fillLoop_fill (filldir : ℕ → ℤ) (es : List Entry) (st : St) :
    ∃ k, Filled es st (fillLoop (fill filldir) es st).1 (fillLoop (fill filldir) es st).2 k := by
  have hspec := @fillLoop_spec Entry (fill filldir) id (fill_offers filldir) es st
  rwa [List.map_id] at hspec

/-- **The first two entries are listed once**: the loop goes on where it was left,
and runs to its end exactly if both are listed. -/
theorem fillLoop_dots {filldir : ℕ → ℤ} {st st₁ : St} {ok : Bool} {d : ℕ} (hd : d ≤ 2)
    (hacc : accepted st.trace = dots.take d) (hpos : st.fPos = d)
    (hdots : fillLoop (fill filldir) (dotsLeft st.fPos) st = (ok, st₁)) :
    ∃ d' ≤ 2, accepted st₁.trace = dots.take d' ∧ st₁.fPos = d' ∧
      st₁.fVersion = st.fVersion ∧ st.clock ≤ st₁.clock ∧ (ok = true ↔ d' = 2) := by
  obtain ⟨k, hk⟩ := fillLoop_fill filldir (dotsLeft st.fPos) st
  have hleft : dotsLeft st.fPos = dots.drop d := by
    rw [hpos]
    exact dotsLeft_of_lt (by omega)
  have hlen : (dots.drop d).length = 2 - d := by
    rw [List.length_drop]
    rfl
  rw [hdots, hleft] at hk
  have hle := hk.le
  have hok := hk.ok_iff
  rw [hlen] at hle hok
  refine ⟨d + k, by omega, ?_, ?_, hk.fVersion, hk.clock, ?_⟩
  · rw [hk.accepted_eq, hacc, List.take_add]
  · rw [hk.fPos, hpos]
    push_cast
    rfl
  · rw [hok]
    omega

theorem Owes.fillLoop {held : Multiset Thing} (h : Owes st held)
    (hf : ∀ a st, Offers (entry a) st (f a st)) (as : List α) : Owes (fillLoop f as st).2 held := by
  obtain ⟨k, hk⟩ := fillLoop_spec hf as st
  exact hk.owes held h

theorem Owes.fillDots {held : Multiset Thing} (h : Owes st held) (filldir : ℕ → ℤ) (x : ℤ) :
    Owes (Dir.fillLoop (fill filldir) (dotsLeft x) st).2 held :=
  (fillLoop_fill filldir (dotsLeft x) st).elim fun _ hk => hk.owes held h

/-- The loop offers something if there is anything. -/
theorem offered_fillLoop (hf : ∀ a st, Offers (entry a) st (f a st)) : ∀ (as : List α) (st : St),
    (offered st.trace).length + min as.length 1 ≤ (offered (fillLoop f as st).2.trace).length := by
  intro as
  induction as with
  | nil => intro st; exact le_rfl
  | cons a as ih =>
    intro st
    have hmin : min (a :: as).length 1 = 1 := by simp
    have hone : (offered st.trace).length + 1 = (offered (f a st).2.trace).length := by
      rw [(hf a st).offered_eq, List.length_append, List.length_singleton]
    rw [hmin, hone, fillLoop]
    dsimp only
    split
    · exact le_rfl
    · exact Nat.le_of_add_right_le (ih { (f a st).2 with fPos := (f a st).2.fPos + 1 })

theorem offered_fillDots (filldir : ℕ → ℤ) (x : ℤ) (st : St) :
    (offered st.trace).length + min (dotsLeft x).length 1 ≤
      (offered (fillLoop (fill filldir) (dotsLeft x) st).2.trace).length :=
  @offered_fillLoop Entry (fill filldir) id (fill_offers filldir) (dotsLeft x) st

end Dir
end Proc
end KernelStudy
