set_option autoImplicit false

namespace LetLang

inductive Precedence where
  | lowest
  | equality
  | comparison
  | sum
  | product
  | unary
  | call
deriving DecidableEq, Repr

namespace Precedence

/-- The place of a precedence in the order, the weakest being 0. -/
def rank : Precedence → Nat
  | lowest => 0
  | equality => 1
  | comparison => 2
  | sum => 3
  | product => 4
  | unary => 5
  | call => 6

instance : LT Precedence := ⟨fun left right => left.rank < right.rank⟩

instance : LE Precedence := ⟨fun left right => left.rank ≤ right.rank⟩

instance (left right : Precedence) : Decidable (left < right) :=
  inferInstanceAs (Decidable (left.rank < right.rank))

instance (left right : Precedence) : Decidable (left ≤ right) :=
  inferInstanceAs (Decidable (left.rank ≤ right.rank))

instance : Ord Precedence := ⟨fun left right => compare left.rank right.rank⟩

theorem le_iff (left right : Precedence) : left ≤ right ↔ left.rank ≤ right.rank := Iff.rfl

theorem not_lt_iff (left right : Precedence) : ¬ left < right ↔ right ≤ left := Nat.not_lt

theorem not_lt_lowest (precedence : Precedence) : ¬ precedence < lowest := Nat.not_lt_zero _

end Precedence

end LetLang
