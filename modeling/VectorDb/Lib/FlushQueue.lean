import Mathlib

/-!
# A bounded queue that is emptied as a whole

* `FlushQueue` : what was let out, and what waits, oldest first;
* `put`, `flush` : a full queue is flushed before the next element goes in;
* `all_put`, `all_flush` : nothing is lost and the order stays.
-/

namespace VectorDb

structure FlushQueue (α : Type) where
  out : List α
  waiting : List α

namespace FlushQueue
variable {α : Type} {cap : Nat} (q : FlushQueue α) (a : α)

def empty : FlushQueue α := ⟨[], []⟩

/-- What was put, in order. -/
def all : List α := q.out ++ q.waiting

def flush : FlushQueue α := ⟨q.out ++ q.waiting, []⟩

def add : FlushQueue α := ⟨q.out, q.waiting ++ [a]⟩

def put (cap : Nat) : FlushQueue α := if q.waiting.length = cap then q.flush.add a else q.add a

@[simp] theorem all_flush : q.flush.all = q.all := List.append_nil _

@[simp] theorem all_add : (q.add a).all = q.all ++ [a] := (List.append_assoc _ _ _).symm

@[simp] theorem all_put : (q.put a cap).all = q.all ++ [a] := by
  unfold put
  split
  · rw [all_add, all_flush]
  · exact all_add q a

end FlushQueue
end VectorDb
