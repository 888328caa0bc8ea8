set_option autoImplicit false

namespace LetLang.Decimal

def digitValue (c : Char) : Nat :=
  c.toNat - '0'.toNat

/-- The value of a run of digits, most significant digit first. -/
def value (digits : List Char) : Nat :=
  digits.foldl (fun high digit => 10 * high + digitValue digit) 0

/-- Whether a text is a non-empty run of digits. -/
def isNumeral (text : List Char) : Bool :=
  !text.isEmpty && text.all Char.isDigit

/-- Reads a numeral whose value is below `2 ^ 64`. -/
def read? (text : String) : Option UInt64 :=
  if isNumeral text.toList then
    if fits : value text.toList < UInt64.size then
      some (UInt64.ofNatLT (value text.toList) fits)
    else
      none
  else
    none

@[simp] theorem value_nil : value [] = 0 := rfl

theorem value_append_singleton (digits : List Char) (last : Char) :
    value (digits ++ [last]) = 10 * value digits + digitValue last := by
  simp [value]

/-- A numeral is read exactly when its value fits, and then as that value. -/
theorem read?_eq_some_iff (text : String) (number : UInt64) :
    read? text = some number ↔
      isNumeral text.toList = true ∧ value text.toList = number.toNat := by
  unfold read?
  split
  · rename_i numeral
    split
    · rename_i fits
      simp only [numeral, true_and, Option.some.injEq]
      constructor
      · rintro rfl
        simp
      · intro same
        apply UInt64.toNat_inj.mp
        simp [same]
    · rename_i large
      have bound := number.toNat_lt_size
      simp only [numeral, true_and, reduceCtorEq, false_iff]
      omega
  · rename_i other
    simp [other]

theorem read?_isSome_iff (text : String) :
    (read? text).isSome = true ↔
      isNumeral text.toList = true ∧ value text.toList < UInt64.size := by
  unfold read?
  split
  · rename_i numeral
    split
    · rename_i fits
      simp [numeral, fits]
    · rename_i large
      simp [large]
  · rename_i other
    simp [other]

end LetLang.Decimal
