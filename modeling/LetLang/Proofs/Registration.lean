import LetLang.Parse.Tables
import LetLang.Proofs.Grouping

set_option autoImplicit false

namespace LetLang

namespace Tables

/-- The operators are the kinds that have a precedence. -/
def SameKeys (tables : Tables) : Prop :=
  ∀ kind, tables.operator kind = true ↔ (tables.precedence? kind).isSome = true

theorem grammar_standard : standard.grammar = .standard := by
  have forms : standard.form? = Grammar.standard.form? := by
    funext kind
    cases kind <;> rfl
  have operands : standard.operand? = Grammar.standard.operand? := by
    funext kind
    cases kind <;> rfl
  have precedences : standard.precedence? = Grammar.standard.operator? := by
    funext kind
    cases kind <;> rfl
  rw [grammar, forms, operands, precedences]

theorem SameKeys.addOperator {tables : Tables} (same : tables.SameKeys) (kind : Kind)
    (precedence : Precedence) : (tables.addOperator kind precedence).SameKeys := by
  intro other
  by_cases new : other = kind
  · subst new
    simp [Tables.addOperator]
  · simpa [Tables.addOperator, new, Grammar.set_of_ne _ _ _ _ new] using same other

theorem SameKeys.register {tables : Tables} (same : tables.SameKeys) (request : Parser.Request) :
    (tables.register request).SameKeys := by
  cases request with
  | addOperator kind precedence => exact same.addOperator kind precedence
  | _ => exact same

theorem SameKeys.foldl {tables : Tables} (same : tables.SameKeys) (entries : List Parser.Request) :
    (entries.foldl Tables.register tables).SameKeys := by
  induction entries generalizing tables with
  | nil => exact same
  | cons entry entries ih => exact ih (same.register entry)

theorem sameKeys_standard : standard.SameKeys := by
  apply SameKeys.foldl
  intro kind
  simp [empty]

open Parse

mutual

def exprWithin (tables : Tables) : Nat → ExprReader
  | 0, _, _ => .unfinished
  | steps + 1, floor, window =>
      (operandWith tables.grammar (tables.exprWithin steps) window).bind
        (tables.extendWithin steps floor)

/-- Continues an expression as far as the floor allows, and not with a token that is no operator. -/
def extendWithin (tables : Tables) : Nat → Precedence → Expr → Window → Outcome Expr
  | 0, _, _, _ => .unfinished
  | steps + 1, floor, left, window =>
      if continues tables.grammar floor window then
        if tables.operator window.next.kind then
          (binaryWith tables.grammar (tables.exprWithin steps) left window.advance).bind
            (tables.extendWithin steps floor)
        else
          .done left window
      else
        .done left window

end

theorem SameKeys.operator_of_continues {tables : Tables} (same : tables.SameKeys)
    {floor : Precedence} {window : Window}
    (goes : continues tables.grammar floor window = true) :
    tables.operator window.next.kind = true :=
  (same _).mpr (operator?_isSome_of_continues goes)

/-- With the same keys in both tables, reading is that of the grammar. -/
theorem SameKeys.within_eq {tables : Tables} (same : tables.SameKeys) (steps : Nat) :
    tables.exprWithin steps = Parse.exprWithin tables.grammar steps ∧
      tables.extendWithin steps = Parse.extendWithin tables.grammar steps := by
  induction steps with
  | zero => exact ⟨rfl, rfl⟩
  | succ steps ih =>
      constructor
      · funext floor window
        rw [exprWithin, Parse.exprWithin, ih.1, ih.2]
      · funext floor left window
        rw [extendWithin, Parse.extendWithin, ih.1, ih.2]
        split
        · rename_i goes
          rw [if_pos (same.operator_of_continues goes)]
        · rfl

end Tables

end LetLang
