import KernelStudy.Lib.Run

/-!
# Things taken and given back

A program takes references to things and gives them back.  A history is in order
if nothing is ever given back that is not held at that moment; it then leads from
what is held before to what is held after.

## Main definitions

* `Loan` — something is taken or given back.
* `loanStep` — what it does to what is held.
* `Owing loans held` — after a history that is in order, this is held.

## Main results

* `owing_append_of_run` — a history in order may go on in order.
* `Owing.take`, `Owing.give` — one more step.
-/

namespace KernelStudy

/-- Something is taken or given back. -/
inductive Loan (κ : Type*) where
  | take (x : κ)
  | give (x : κ)
  deriving DecidableEq

variable {κ : Type*} [DecidableEq κ]

/-- What a loan does to what is held; only what is held can be given back. -/
def loanStep (held : Multiset κ) : Loan κ → Option (Multiset κ)
  | .take x => some (x ::ₘ held)
  | .give x => if x ∈ held then some (held.erase x) else none

/-- After the history `loans`, which is in order, `held` is held. -/
def Owing (loans : List (Loan κ)) (held : Multiset κ) : Prop :=
  run loanStep 0 loans = some held

variable {loans loans' : List (Loan κ)} {held held' : Multiset κ} {x : κ}

theorem owing_nil : Owing ([] : List (Loan κ)) 0 := rfl

theorem owing_append_of_run (h : Owing loans held) (h' : run loanStep held loans' = some held') :
    Owing (loans ++ loans') held' :=
  run_append.mpr ⟨held, h, h'⟩

/-- Something is taken. -/
theorem Owing.take (h : Owing loans held) (x : κ) : Owing (loans ++ [.take x]) (x ::ₘ held) :=
  owing_append_of_run h rfl

/-- Something that is held is given back. -/
theorem Owing.give (h : Owing loans (x ::ₘ held)) : Owing (loans ++ [.give x]) held := by
  apply owing_append_of_run h
  simp [run, loanStep]

end KernelStudy
