import LetLang.Parse.Window

set_option autoImplicit false

namespace LetLang

/-- The outcome of reading a value from a window. -/
inductive Outcome (α : Type) where
  | done (value : α) (rest : Window)
  | failed (diagnostic : Diagnostic) (rest : Window)
  | unfinished
deriving DecidableEq, Repr

namespace Outcome

variable {α β : Type}

@[inline] def bind (outcome : Outcome α) (continuation : α → Window → Outcome β) : Outcome β :=
  match outcome with
  | .done value rest => continuation value rest
  | .failed diagnostic rest => .failed diagnostic rest
  | .unfinished => .unfinished

@[inline] def map (f : α → β) (outcome : Outcome α) : Outcome β :=
  outcome.bind fun value rest => .done (f value) rest

@[simp] theorem bind_done (value : α) (rest : Window) (continuation : α → Window → Outcome β) :
    (done value rest).bind continuation = continuation value rest := rfl

@[simp] theorem bind_failed (diagnostic : Diagnostic) (rest : Window)
    (continuation : α → Window → Outcome β) :
    (failed diagnostic rest).bind continuation = failed diagnostic rest := rfl

@[simp] theorem bind_unfinished (continuation : α → Window → Outcome β) :
    (unfinished : Outcome α).bind continuation = unfinished := rfl

@[simp] theorem map_done (f : α → β) (value : α) (rest : Window) :
    (done value rest).map f = done (f value) rest := rfl

@[simp] theorem map_failed (f : α → β) (diagnostic : Diagnostic) (rest : Window) :
    (failed diagnostic rest).map f = failed diagnostic rest := rfl

@[simp] theorem map_unfinished (f : α → β) : (unfinished : Outcome α).map f = unfinished := rfl

theorem bind_eq_done_iff (outcome : Outcome α) (continuation : α → Window → Outcome β)
    (value : β) (rest : Window) :
    outcome.bind continuation = done value rest ↔
      ∃ first middle, outcome = done first middle ∧ continuation first middle = done value rest := by
  constructor
  · intro success
    cases outcome with
    | done first middle => exact ⟨first, middle, rfl, success⟩
    | failed diagnostic middle => cases success
    | unfinished => cases success
  · rintro ⟨first, middle, rfl, success⟩
    exact success

theorem bind_eq_failed_iff (outcome : Outcome α) (continuation : α → Window → Outcome β)
    (diagnostic : Diagnostic) (rest : Window) :
    outcome.bind continuation = failed diagnostic rest ↔
      outcome = failed diagnostic rest ∨
        ∃ first middle, outcome = done first middle ∧
          continuation first middle = failed diagnostic rest := by
  constructor
  · intro failure
    cases outcome with
    | done first middle => exact .inr ⟨first, middle, rfl, failure⟩
    | failed diagnostic' middle =>
        cases failure
        exact .inl rfl
    | unfinished => cases failure
  · rintro (rfl | ⟨first, middle, rfl, failure⟩)
    · rfl
    · exact failure

theorem map_eq_done_iff (f : α → β) (outcome : Outcome α) (value : β) (rest : Window) :
    outcome.map f = done value rest ↔ ∃ first, outcome = done first rest ∧ f first = value := by
  constructor
  · intro success
    obtain ⟨first, middle, rfl, same⟩ := (bind_eq_done_iff _ _ _ _).mp success
    cases same
    exact ⟨first, rfl, rfl⟩
  · rintro ⟨first, rfl, rfl⟩
    rfl

theorem map_eq_failed_iff (f : α → β) (outcome : Outcome α) (diagnostic : Diagnostic)
    (rest : Window) :
    outcome.map f = failed diagnostic rest ↔ outcome = failed diagnostic rest := by
  cases outcome <;> simp

end Outcome

end LetLang
