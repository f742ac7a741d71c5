import Mathlib.Data.List.Basic

/-!
# First in, first out

What a queue is for, as a relation: `FifoRun q acts q'` says that a queue that holds `q` holds `q'`
after the acts, where an item is put behind all others and only the first one is taken.

* `FifoRun.put`, `FifoRun.take`: the acts, one at a time;
* `puts`, `takes`: the items that have been put and that have been taken, in their order.
-/

namespace Lib

variable {α : Type}

/-- What is done to a queue. -/
inductive FifoAct (α : Type) where
  | put (a : α)
  | take (a : α)
deriving DecidableEq, Repr

/-- A queue with `q` holds `q'` after the acts. -/
inductive FifoRun (q : List α) : List (FifoAct α) → List α → Prop where
  | start : FifoRun q [] q
  | put {acts : List (FifoAct α)} {q' : List α} (h : FifoRun q acts q') (a : α) :
      FifoRun q (acts ++ [.put a]) (q' ++ [a])
  | take {acts : List (FifoAct α)} {a : α} {q' : List α} (h : FifoRun q acts (a :: q')) :
      FifoRun q (acts ++ [.take a]) q'

/-- The items put into a queue. -/
def puts (acts : List (FifoAct α)) : List α :=
  acts.filterMap fun
    | .put a => some a
    | .take _ => none

/-- The items taken out of a queue. -/
def takes (acts : List (FifoAct α)) : List α :=
  acts.filterMap fun
    | .put _ => none
    | .take a => some a

@[simp] theorem puts_nil : puts ([] : List (FifoAct α)) = [] := rfl
@[simp] theorem takes_nil : takes ([] : List (FifoAct α)) = [] := rfl

@[simp] theorem puts_append (l l' : List (FifoAct α)) : puts (l ++ l') = puts l ++ puts l' := by
  simp [puts]

@[simp] theorem takes_append (l l' : List (FifoAct α)) : takes (l ++ l') = takes l ++ takes l' := by
  simp [takes]

@[simp] theorem puts_put (a : α) : puts [.put a] = [a] := rfl
@[simp] theorem puts_take (a : α) : puts [.take a] = [] := rfl
@[simp] theorem takes_put (a : α) : takes [.put a] = [] := rfl
@[simp] theorem takes_take (a : α) : takes [.take a] = [a] := rfl

end Lib
