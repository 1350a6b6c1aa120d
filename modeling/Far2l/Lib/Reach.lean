/-
Lib.Reach — runs of a system that takes one operation after the other.

`ok` restricts the operations of a run: it may look at the state an operation
starts from. Nothing here is about a particular system.
-/

namespace Far2l

section

variable {State Op : Type} (step : State → Op → State) (ok : State → Op → Prop)

/-- The states reached from `start` by operations that all meet `ok`. -/
inductive Reach (start : State) : State → Prop where
  | start : Reach start start
  | step {s : State} (op : Op) (h : Reach start s) (hok : ok s op) : Reach start (step s op)

namespace Reach

variable {step ok} {start s : State}

/-- What holds at the start and is kept by every operation that meets `ok` holds in every state
reached. -/
theorem invariant {I : State → Prop} (h : Reach step ok start s) (hstart : I start)
    (hstep : ∀ s op, I s → ok s op → I (step s op)) : I s := by
  induction h with
  | start => exact hstart
  | step op _ hok ih => exact hstep _ op ih hok

/-- Any list of operations is a run. -/
theorem foldl : ∀ (ops : List Op) {s : State}, Reach step (fun _ _ => True) start s →
    Reach step (fun _ _ => True) start (ops.foldl step s)
  | [], _, h => h
  | op :: ops, _, h => foldl ops (.step op h trivial)

end Reach

end

end Far2l
