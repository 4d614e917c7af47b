import Mathlib.Data.List.Basic

/-! A bounded queue that keeps what has been taken from it until it is cleared, so that
reading can start over. -/
structure ReplayQueue (α : Type) where
  capacity : Nat
  written : List α
  taken : Nat

namespace ReplayQueue

variable {α : Type} {q q' : ReplayQueue α} {items : List α} {count : Nat}

def empty (capacity : Nat) : ReplayQueue α := ⟨capacity, [], 0⟩

/-- What has been written and not taken, oldest first. -/
def unread (q : ReplayQueue α) : List α := q.written.drop q.taken

def remaining (q : ReplayQueue α) : Nat := q.capacity - q.written.length

def put (q : ReplayQueue α) (items : List α) : Option (ReplayQueue α) :=
  if q.remaining < items.length then none else some { q with written := q.written ++ items }

def take (q : ReplayQueue α) (count : Nat) : Option (ReplayQueue α × List α) :=
  if q.unread.length < count then none
  else some ({ q with taken := q.taken + count }, q.unread.take count)

def rewind (q : ReplayQueue α) : ReplayQueue α := { q with taken := 0 }
def clear (q : ReplayQueue α) : ReplayQueue α := { q with written := [], taken := 0 }

theorem put_eq_none : q.put items = none ↔ q.remaining < items.length := by
  simp [put]

theorem take_eq_none : q.take count = none ↔ q.unread.length < count := by
  simp [take]

theorem put_written (done : q.put items = some q') :
    q'.written = q.written ++ items ∧ q'.capacity = q.capacity := by
  unfold put at done
  split at done
  · contradiction
  · cases done
    exact ⟨rfl,rfl⟩

theorem take_written {out : List α} (done : q.take count = some (q', out)) :
    q'.written = q.written ∧ q'.capacity = q.capacity := by
  unfold take at done
  split at done
  · contradiction
  · cases done
    exact ⟨rfl,rfl⟩

/-- Taking as many items as were put at the reading position gives those items back. -/
theorem take_put_back {before rest : List α} (written : q.written = before ++ items ++ rest)
    (position : q.taken = before.length) :
    q.take items.length = some ({ q with taken := q.taken + items.length }, items) := by
  have unread : q.unread = items ++ rest := by
    simp [ReplayQueue.unread,written,position,List.append_assoc]
  simp [take,unread]

end ReplayQueue
