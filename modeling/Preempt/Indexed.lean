/-!
Vectors read and changed at an index that is in range by its type. `get_put` is all that there is
to know about a change.
-/

namespace Vector

variable {α : Type} {n : Nat}

/-- The vector with entry `i` replaced. -/
def put (xs : Vector α n) (i : Fin n) (a : α) : Vector α n := xs.set i.val a i.isLt

theorem get_put (xs : Vector α n) (i j : Fin n) (a : α) :
    (xs.put i a).get j = if i = j then a else xs.get j := by
  have entry (ys : Vector α n) : ys.get j = ys[j.val] := rfl
  rw [entry, entry]
  simp only [put, Vector.getElem_set, Fin.ext_iff]

@[simp] theorem get_put_self (xs : Vector α n) (i : Fin n) (a : α) : (xs.put i a).get i = a := by
  simp [get_put]

theorem get_put_of_ne (xs : Vector α n) {i j : Fin n} (apart : i ≠ j) (a : α) :
    (xs.put i a).get j = xs.get j := by
  simp [get_put, apart]

@[simp] theorem put_get (xs : Vector α n) (i : Fin n) : xs.put i (xs.get i) = xs := by
  have entry : xs.get i = xs[i.val] := rfl
  rw [entry]
  simp [put]

@[simp] theorem put_put (xs : Vector α n) (i : Fin n) (a b : α) :
    (xs.put i a).put i b = xs.put i b := by
  simp [put]

end Vector
