set_option autoImplicit false

namespace LetLang

variable {α : Type}

/-- The pieces of a list that is cut behind each mark. -/
def cutAfter (isMark : α → Bool) (items : List α) : List (List α) :=
  let body := items.takeWhile fun item => !isMark item
  match _ending : items.dropWhile fun item => !isMark item with
  | [] => if body.isEmpty then [] else [body]
  | mark :: rest => (body ++ [mark]) :: cutAfter isMark rest
termination_by items.length
decreasing_by
  have shorter := (List.dropWhile_sublist (fun item => !isMark item) (l := items)).length_le
  rw [_ending, List.length_cons] at shorter
  omega

/-- The pieces in a row are the list. -/
theorem flatten_cutAfter (isMark : α → Bool) (items : List α) :
    (cutAfter isMark items).flatten = items := by
  have whole := List.takeWhile_append_dropWhile (p := fun item => !isMark item) (l := items)
  rw [cutAfter]
  split
  · rename_i ending
    rw [ending, List.append_nil] at whole
    split
    · rename_i empty
      rw [← whole]
      simpa using empty
    · simp [whole]
  · rename_i mark rest ending
    rw [List.flatten_cons, flatten_cutAfter isMark rest]
    rw [ending] at whole
    simpa using whole
termination_by items.length
decreasing_by
  rename_i ending _
  have shorter := (List.dropWhile_sublist (fun item => !isMark item) (l := items)).length_le
  rw [ending, List.length_cons] at shorter
  omega

end LetLang
