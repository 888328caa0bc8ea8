set_option autoImplicit false

namespace LetLang.Text

/-- The number of bytes that a text takes when written in UTF-8. -/
def size (text : List Char) : Nat :=
  text.foldl (fun bytes c => bytes + c.utf8Size) 0

theorem foldl_utf8Size (bytes : Nat) (text : List Char) :
    text.foldl (fun bytes c => bytes + c.utf8Size) bytes = bytes + size text := by
  induction text generalizing bytes with
  | nil => simp [size]
  | cons first rest ih =>
      rw [size, List.foldl_cons, List.foldl_cons, ih, ih]
      omega

@[simp] theorem size_nil : size [] = 0 := rfl

@[simp] theorem size_cons (first : Char) (rest : List Char) :
    size (first :: rest) = first.utf8Size + size rest := by
  rw [size, List.foldl_cons, foldl_utf8Size, Nat.zero_add]

@[simp] theorem size_append (front back : List Char) :
    size (front ++ back) = size front + size back := by
  rw [size, List.foldl_append, foldl_utf8Size, ← size]

theorem size_pos (text : List Char) (some_char : text ≠ []) : 0 < size text := by
  cases text with
  | nil => contradiction
  | cons first rest =>
      have := first.utf8Size_pos
      simp only [size_cons]
      omega

theorem length_le_size (text : List Char) : text.length ≤ size text := by
  induction text with
  | nil => simp
  | cons first rest ih =>
      have := first.utf8Size_pos
      simp only [List.length_cons, size_cons]
      omega

theorem size_eq_utf8ByteSize (text : List Char) :
    size text = (String.ofList text).utf8ByteSize := by
  induction text with
  | nil => simp
  | cons first rest ih =>
      have split : String.ofList (first :: rest) = String.singleton first ++ String.ofList rest := by
        apply String.toList_injective
        simp
      rw [size_cons, ih, split, String.utf8ByteSize_append, String.utf8ByteSize_singleton]

@[simp] theorem size_toList (text : String) : size text.toList = text.utf8ByteSize := by
  rw [size_eq_utf8ByteSize, String.ofList_toList]

end LetLang.Text
