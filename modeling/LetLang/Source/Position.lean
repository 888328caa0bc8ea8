set_option autoImplicit false

namespace LetLang

structure Position where
  offset : UInt32
  source : String
deriving DecidableEq, Repr

/-- The bytes of a source from `start` up to, but not including, `stop`. -/
structure Span where
  start : Position
  stop : Position
deriving DecidableEq, Repr

/-- The name of a source that was typed in rather than read from a file. -/
def shellName : String := "shell"

def Position.nowhere : Position := ⟨0, "<null>"⟩

def Span.nowhere : Span := ⟨.nowhere, .nowhere⟩

/-- The place at a byte count, which is reduced to 32 bits. -/
def Position.at (source : String) (bytes : Nat) : Position :=
  ⟨UInt32.ofNat bytes, source⟩

@[simp] theorem Position.at_source (source : String) (bytes : Nat) :
    (Position.at source bytes).source = source := rfl

@[simp] theorem Position.at_offset (source : String) (bytes : Nat) :
    (Position.at source bytes).offset.toNat = bytes % UInt32.size := by
  simp [Position.at]

end LetLang
