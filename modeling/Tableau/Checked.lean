/-!
Sums of machine integers that break off instead of wrapping.  Limits, play
numbers, strokes and turn numbers are unsigned 32-bit words, base scores are
signed 64-bit words; a sum that its word cannot hold ends the computation.
-/

namespace Tableau

/-- The one way in which a computation can break off without an answer. -/
inductive Overflow where
  | addition
deriving DecidableEq, Repr

def Overflow.message : Overflow → String
  | .addition => "attempt to add with overflow"

/-- A computation that either answers or breaks off at a sum. -/
abbrev Checked (α : Type) := Except Overflow α

/-- The sum of two counts, if a 32-bit word holds it. -/
def addCounts (left right : UInt32) : Checked UInt32 :=
  if left.toNat + right.toNat < UInt32.size then .ok (left + right)
  else .error .addition

def addScores (left right : Int64) : Checked Int64 :=
  if Int64.minValue.toInt ≤ left.toInt + right.toInt ∧
      left.toInt + right.toInt ≤ Int64.maxValue.toInt then
    .ok (left + right)
  else .error .addition

/-- A sum of counts answers exactly when it is the true sum. -/
theorem addCounts_eq_ok_iff {left right sum : UInt32} :
    addCounts left right = .ok sum ↔
      sum.toNat = left.toNat + right.toNat := by
  unfold addCounts
  split
  · rename_i hfits
    have hsum : (left + right).toNat = left.toNat + right.toNat := by
      rw [UInt32.toNat_add, Nat.mod_eq_of_lt hfits]
    constructor
    · intro heq
      rw [← Except.ok.inj heq, hsum]
    · intro heq
      rw [UInt32.toNat_inj.mp (heq.trans hsum.symm)]
  · rename_i hlarge
    constructor
    · intro heq
      cases heq
    · intro heq
      have hbound := UInt32.toNat_lt_size sum
      omega

theorem addCounts_eq_error_iff {left right : UInt32} {cause : Overflow} :
    addCounts left right = .error cause ↔
      UInt32.size ≤ left.toNat + right.toNat := by
  cases cause
  unfold addCounts
  split <;> simp <;> omega

theorem bind_eq_ok_iff {ε α β : Type} {first : Except ε α}
    {rest : α → Except ε β} {answer : β} : (first >>= rest) = .ok answer ↔
      ∃ value, first = .ok value ∧ rest value = .ok answer := by
  cases first <;> simp [bind, Except.bind]

theorem pure_eq_ok_iff {ε α : Type} {value answer : α} :
    (pure value : Except ε α) = .ok answer ↔ value = answer := by
  simp [pure, Except.pure]

example : addCounts 4294967295 0 = .ok 4294967295 := rfl

example : addCounts 4294967295 1 = .error .addition := rfl

example : addScores (-9223372036854775808) (-1) = .error .addition := rfl

end Tableau
