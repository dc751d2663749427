/-!
# Sharing work among workers

Work is split evenly, and the first workers take one unit more where it does not
come out even.
-/

namespace TieredCache

/-- The part of `total` units that a worker out of `workers` takes. -/
def share (total workers worker : Nat) : Nat :=
  total / workers + if worker < total % workers then 1 else 0

theorem share_le_div_add_one (total workers worker : Nat) :
    share total workers worker ≤ total / workers + 1 := by
  simp only [share]
  split <;> omega

theorem div_le_share (total workers worker : Nat) :
    total / workers ≤ share total workers worker := by
  simp only [share]
  omega

end TieredCache
