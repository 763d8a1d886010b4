/-!
# Counts

Lines, columns, offsets and steps are counted in 64-bit words.  A count that a word cannot hold is
an error.
-/

namespace TemplateLowering

inductive CountError
  | overflow
deriving DecidableEq, Inhabited, Repr

def CountError.message : CountError → String
  | .overflow => "attempt to add with overflow"

def addCounts (a b : Nat) : Except CountError Nat :=
  if a + b < UInt64.size then .ok (a + b) else .error .overflow

theorem addCounts_eq_ok_iff {a b c : Nat} :
    addCounts a b = .ok c ↔ a + b < UInt64.size ∧ a + b = c := by
  unfold addCounts
  split
  next h => simp [h]
  next h => simp [h]

end TemplateLowering
