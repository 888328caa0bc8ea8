import LetLang.Proofs.Lines
import Mathlib.Data.Set.Function

/-!
Offsets against lines and columns. The line at an offset is described on the bytes of the text
alone, so that offsets inside a character and past the end are no cases of their own. The
description leaves one line for each place, and the number and the column of a line leave one
place.
-/

set_option autoImplicit false

namespace LetLang

def Text.bytes (text : String) : List UInt8 :=
  text.toByteArray.data.toList

namespace Line

def feed : UInt8 := 10

/-- A place in some bytes whose first line has the number `first`, as a line and a column. The line
begins where the bytes do or behind a line feed, has no line feed between there and the place, and
ends with the next line feed or where the bytes do. -/
structure Locates (line : Line) (first : Nat) (bytes : List UInt8) (place : Nat) : Prop where
  number_eq : line.number = first + (bytes.take place).count feed
  column_le : line.column ≤ place
  opens : place - line.column = 0 ∨
    ∃ before, place - line.column = before + 1 ∧ bytes[before]? = some feed
  unfed : feed ∉ (bytes.take place).drop (place - line.column)
  stands : Text.bytes line.text <+: bytes.drop (place - line.column)
  closes : (∃ body, Text.bytes line.text = body ++ [feed] ∧ feed ∉ body) ∨
    (Text.bytes line.text = bytes.drop (place - line.column) ∧ feed ∉ Text.bytes line.text)

/-- The place of an offset, which is the end of the text for every offset past it. -/
def place (text : String) (offset : UInt32) : Nat :=
  min offset.toNat text.utf8ByteSize

end Line

namespace Text

theorem bytes_ofList (text : List Char) :
    bytes (String.ofList text) = text.flatMap String.utf8EncodeChar := by
  simp [bytes, List.utf8Encode]

theorem bytes_append (front back : List Char) :
    bytes (String.ofList (front ++ back)) =
      bytes (String.ofList front) ++ bytes (String.ofList back) := by
  rw [bytes_ofList, bytes_ofList, bytes_ofList, List.flatMap_append]

@[simp] theorem length_bytes (text : String) : (bytes text).length = text.utf8ByteSize := rfl

theorem size_eq_length_bytes (text : List Char) :
    size text = (bytes (String.ofList text)).length := by
  rw [length_bytes, size_eq_utf8ByteSize]

theorem bytes_injective {first second : String} (same : bytes first = bytes second) :
    first = second := by
  apply String.toByteArray_inj.mp
  apply ByteArray.ext
  exact Array.toList_inj.mp same

theorem bytes_eq_nil_iff {text : String} : bytes text = [] ↔ text = "" := by
  constructor
  · exact fun empty => bytes_injective empty
  · rintro rfl
    rfl

theorem bytes_append_feed (body : List Char) :
    bytes (String.ofList (body ++ ['\n'])) = bytes (String.ofList body) ++ [Line.feed] := by
  rw [bytes_append]
  rfl

/-- In UTF-8 only a line feed has the byte of one: all bytes of a longer character are above. -/
theorem feed_mem_utf8EncodeChar {c : Char} (member : Line.feed ∈ String.utf8EncodeChar c) :
    c = '\n' := by
  have above : ∀ a b : UInt8, Line.feed < b → Line.feed ≠ a ||| b := by
    intro a b greater same
    have le : b ≤ a ||| b := UInt8.right_le_or
    rw [← same] at le
    exact absurd greater (UInt8.not_lt.mpr le)
  rcases c.utf8Size_eq with one | two | three | four
  · rw [String.utf8EncodeChar_eq_singleton one, List.mem_singleton] at member
    have bound := UInt32.le_iff_toNat_le.mp (Char.utf8Size_eq_one_iff.mp one)
    have same : 10 = c.val.toNat % 256 := congrArg UInt8.toNat member
    rw [Nat.mod_eq_of_lt (Nat.lt_of_le_of_lt bound (by decide))] at same
    exact Char.ext (UInt32.toNat_inj.mp same.symm)
  · rw [String.utf8EncodeChar_eq_cons_cons two] at member
    simp [above _ 0xc0 (by decide), above _ 0x80 (by decide)] at member
  · rw [String.utf8EncodeChar_eq_cons_cons_cons three] at member
    simp [above _ 0xe0 (by decide), above _ 0x80 (by decide)] at member
  · rw [String.utf8EncodeChar_eq_cons_cons_cons_cons four] at member
    simp [above _ 0xf0 (by decide), above _ 0x80 (by decide)] at member

theorem feed_not_mem_bytes {text : List Char} (inside : ∀ c ∈ text, Line.continues c = true) :
    Line.feed ∉ bytes (String.ofList text) := by
  intro member
  rw [bytes_ofList] at member
  obtain ⟨c, within, encodes⟩ := List.mem_flatMap.mp member
  exact (Line.continues_iff c).mp (inside c within) (feed_mem_utf8EncodeChar encodes)

end Text

namespace Line

theorem mem_drop_take {bytes : List UInt8} {byte : UInt8} {index start stop : Nat}
    (found : bytes[index]? = some byte) (lower : start ≤ index) (upper : index < stop) :
    byte ∈ (bytes.take stop).drop start := by
  apply List.mem_of_getElem? (i := index - start)
  rw [List.getElem?_drop, Nat.add_sub_cancel' lower, List.getElem?_take_of_lt upper, found]

namespace Locates

/-- A place in front of all line feeds is in the first line. -/
theorem of_unfed (first : Nat) {place : Nat} {body rest : List UInt8} {text : String}
    (unfed : feed ∉ body) (within : place ≤ body.length) (stands : Text.bytes text <+: body ++ rest)
    (closes : (∃ body, Text.bytes text = body ++ [feed] ∧ feed ∉ body) ∨
      (Text.bytes text = body ++ rest ∧ feed ∉ Text.bytes text)) :
    (⟨first, text, place⟩ : Line).Locates first (body ++ rest) place := by
  have none_before : feed ∉ (body ++ rest).take place := by
    rw [List.take_append_of_le_length within]
    exact fun member => unfed (List.mem_of_mem_take member)
  refine ⟨?_, Nat.le_refl _, .inl (Nat.sub_self _), ?_, ?_, ?_⟩
  · rw [List.count_eq_zero.mpr none_before, Nat.add_zero]
  · rwa [Nat.sub_self, List.drop_zero]
  · rwa [Nat.sub_self, List.drop_zero]
  · rwa [Nat.sub_self, List.drop_zero]

/-- A further line in front moves the place behind it and raises the number by one. -/
theorem behind_feed {line : Line} {first place : Nat} {body rest : List UInt8} (unfed : feed ∉ body)
    (located : line.Locates (first + 1) rest place) :
    line.Locates first (body ++ [feed] ++ rest) ((body ++ [feed]).length + place) := by
  have column_le := located.column_le
  have start_eq : (body ++ [feed]).length + place - line.column =
      (body ++ [feed]).length + (place - line.column) := by omega
  refine ⟨?_, by omega, ?_, ?_, ?_, ?_⟩
  · rw [List.take_length_add_append, List.count_append, List.count_append,
      List.count_eq_zero.mpr unfed, List.count_singleton_self, located.number_eq]
    omega
  · right
    rw [start_eq]
    rcases located.opens with zero | ⟨before, before_eq, found⟩
    · refine ⟨body.length, by simp [zero], ?_⟩
      simp
    · refine ⟨(body ++ [feed]).length + before, by omega, ?_⟩
      rw [List.getElem?_append_right (Nat.le_add_right _ _), Nat.add_sub_cancel_left, found]
  · rw [start_eq, List.take_length_add_append, List.drop_length_add_append]
    exact located.unfed
  · rw [start_eq, List.drop_length_add_append]
    exact located.stands
  · rw [start_eq, List.drop_length_add_append]
    exact located.closes

end Locates

/-- The line that is found at an offset has its place. -/
theorem find_locates (first : Nat) (text : List Char) (offset : Nat) :
    (find first text offset).Locates first (Text.bytes (String.ofList text))
      (min offset (Text.size text)) := by
  induction text using feed_induction generalizing first offset with
  | unfed text inside =>
      have unfed := Text.feed_not_mem_bytes inside
      have within : min offset (Text.size text) ≤ (Text.bytes (String.ofList text)).length := by
        rw [← Text.size_eq_length_bytes]
        exact Nat.min_le_right _ _
      have whole := List.append_nil (Text.bytes (String.ofList text))
      rw [find_of_unfed inside, ← whole]
      apply Locates.of_unfed first unfed within
      · exact List.prefix_append _ _
      · exact .inr ⟨whole.symm, unfed⟩
  | fed body rest inside ih =>
      have unfed := Text.feed_not_mem_bytes inside
      have line_eq := Text.bytes_append_feed body
      have length_eq := Text.size_eq_length_bytes (body ++ ['\n'])
      rw [line_eq] at length_eq
      have whole : body ++ '\n' :: rest = body ++ ['\n'] ++ rest := by simp
      -- An offset inside the line feed's own line is found here, any other one in the rest.
      rw [find_of_feed inside, whole, Text.bytes_append,
        Text.size_append (body ++ ['\n']) rest, line_eq]
      split
      · rename_i before
        rw [Nat.min_eq_left (by omega), List.append_assoc]
        rw [length_eq, List.length_append, List.length_singleton] at before
        apply Locates.of_unfed first unfed (by omega)
        · rw [line_eq, ← List.append_assoc]
          exact List.prefix_append _ _
        · exact .inl ⟨_, line_eq, unfed⟩
      · rename_i behind
        have place_eq : min offset (Text.size (body ++ ['\n']) + Text.size rest) =
            (Text.bytes (String.ofList body) ++ [feed]).length +
              min (offset - Text.size (body ++ ['\n'])) (Text.size rest) := by omega
        rw [place_eq]
        exact (ih _ _).behind_feed unfed

theorem at_locates (text : String) (offset : UInt32) :
    (Line.at text offset).Locates 1 (Text.bytes text) (place text offset) := by
  have located := find_locates 1 text.toList offset.toNat
  rwa [String.ofList_toList, Text.size_toList] at located

namespace Locates

variable {line line' : Line} {first place place' : Nat} {bytes : List UInt8}

theorem not_lt (located : line.Locates first bytes place)
    (located' : line'.Locates first bytes place') (number_eq : line.number = line'.number)
    (column_eq : line.column = line'.column) : ¬ place < place' := by
  intro less
  have column_le := located.column_le
  -- The later line begins behind a line feed, which the number of the earlier one does not count.
  rcases located'.opens with zero | ⟨before, before_eq, found⟩
  · omega
  · have outside : place ≤ before := by
      by_contra inside
      exact located.unfed (mem_drop_take found (by omega) (by omega))
    have more : 0 < ((bytes.take place').drop place).count feed :=
      List.count_pos_iff.mpr (mem_drop_take found outside (by omega))
    have counts : (bytes.take place').count feed =
        (bytes.take place).count feed + ((bytes.take place').drop place).count feed := by
      rw [← List.count_append]
      conv_lhs => rw [← List.take_append_drop place (bytes.take place'), List.take_take,
        Nat.min_eq_left (Nat.le_of_lt less)]
    rw [located.number_eq, located'.number_eq] at number_eq
    omega

theorem place_eq (located : line.Locates first bytes place)
    (located' : line'.Locates first bytes place') (number_eq : line.number = line'.number)
    (column_eq : line.column = line'.column) : place = place' := by
  have not_below := located.not_lt located' number_eq column_eq
  have not_above := located'.not_lt located number_eq.symm column_eq.symm
  omega

/-- The line of a place begins behind the last line feed in front of it. -/
theorem column_ge (located : line.Locates first bytes place)
    (located' : line'.Locates first bytes place) : line'.column ≤ line.column := by
  by_contra less
  have column_le := located.column_le
  have column_le' := located'.column_le
  rcases located.opens with zero | ⟨before, before_eq, found⟩
  · omega
  · exact located'.unfed (mem_drop_take found (by omega) (by omega))

/-- A line that is the beginning of another one has its end. -/
theorem bytes_eq_of_prefix (located : line.Locates first bytes place)
    (located' : line'.Locates first bytes place) (column_eq : line.column = line'.column)
    (begins : Text.bytes line.text <+: Text.bytes line'.text) :
    Text.bytes line.text = Text.bytes line'.text := by
  rcases located.closes with ⟨body, ends, _⟩ | ⟨to_end, _⟩
  · have fed : feed ∈ Text.bytes line.text := by simp [ends]
    rcases located'.closes with ⟨body', ends', unfed⟩ | ⟨_, unfed⟩
    · rw [ends'] at begins ⊢
      refine (List.prefix_concat_iff.mp begins).resolve_right ?_
      exact fun within => unfed (within.subset fed)
    · exact (unfed (begins.subset fed)).elim
  · have within := located'.stands
    rw [← column_eq, ← to_end] at within
    exact begins.eq_of_length_le within.length_le

theorem text_eq (located : line.Locates first bytes place)
    (located' : line'.Locates first bytes place) (column_eq : line.column = line'.column) :
    line.text = line'.text := by
  apply Text.bytes_injective
  have stands' := located'.stands
  rw [← column_eq] at stands'
  rcases List.prefix_or_prefix_of_prefix located.stands stands' with shorter | longer
  · exact located.bytes_eq_of_prefix located' column_eq shorter
  · exact (located'.bytes_eq_of_prefix located column_eq.symm longer).symm

/-- There is one line for each place. -/
theorem unique (located : line.Locates first bytes place)
    (located' : line'.Locates first bytes place) : line = line' := by
  have column_eq := Nat.le_antisymm (located'.column_ge located) (located.column_ge located')
  have text_eq := located.text_eq located' column_eq
  have number_eq := located.number_eq.trans located'.number_eq.symm
  cases line
  cases line'
  cases column_eq
  cases text_eq
  cases number_eq
  rfl

theorem bytes_eq_nil_iff (located : line.Locates first bytes place)
    (within : place ≤ bytes.length) :
    Text.bytes line.text = [] ↔
      bytes = [] ∨ (bytes.getLast? = some feed ∧ place = bytes.length) := by
  constructor
  · intro empty
    rcases located.closes with ⟨body, ends, _⟩ | ⟨to_end, _⟩
    · simp [empty] at ends
    · rw [empty] at to_end
      have reaches := List.drop_eq_nil_iff.mp to_end.symm
      rcases located.opens with zero | ⟨before, before_eq, found⟩
      · left
        apply List.length_eq_zero_iff.mp
        omega
      · right
        have last : bytes.length - 1 = before := by omega
        exact ⟨by rw [List.getLast?_eq_getElem?, last, found], by omega⟩
  · rintro (rfl | ⟨fed, at_end⟩)
    · simpa using located.stands
    · have column_eq : line.column = 0 := by
        by_contra later
        have column_le := located.column_le
        rw [List.getLast?_eq_getElem?] at fed
        exact located.unfed (mem_drop_take fed (by omega) (by omega))
      have stands := located.stands
      rw [column_eq, Nat.sub_zero, at_end, List.drop_length] at stands
      exact List.prefix_nil.mp stands

end Locates

/-- The line at an offset is the one that its place has in the bytes of the text. It is empty only
in an empty text and at the end of one that ends with a line feed. The number and the column are
those of one place only, so no two offsets inside a text share them. -/
theorem at_eq_iff_locates (text : String) :
    (∀ offset line,
        Line.at text offset = line ↔ line.Locates 1 (Text.bytes text) (place text offset)) ∧
      (∀ offset, (Line.at text offset).text = "" ↔
        text = "" ∨
          ((Text.bytes text).getLast? = some feed ∧ place text offset = text.utf8ByteSize)) ∧
      (∀ offset offset',
        ((Line.at text offset).number = (Line.at text offset').number ∧
            (Line.at text offset).column = (Line.at text offset').column) ↔
          place text offset = place text offset') ∧
      Set.InjOn (fun offset => ((Line.at text offset).number, (Line.at text offset).column))
        {offset | offset.toNat < text.utf8ByteSize} := by
  have located := at_locates text
  refine ⟨?_, ?_, ?_, ?_⟩
  · intro offset line
    constructor
    · rintro rfl
      exact located offset
    · exact (located offset).unique
  · intro offset
    have within : place text offset ≤ (Text.bytes text).length := Nat.min_le_right _ _
    rw [← Text.bytes_eq_nil_iff, ← Text.bytes_eq_nil_iff, (located offset).bytes_eq_nil_iff within,
      Text.length_bytes]
  · intro offset offset'
    constructor
    · rintro ⟨number_eq, column_eq⟩
      exact (located offset).place_eq (located offset') number_eq column_eq
    · intro same
      have other := located offset'
      rw [← same] at other
      rw [(located offset).unique other]
      exact ⟨rfl, rfl⟩
  · intro offset inside offset' inside' same
    have ⟨number_eq, column_eq⟩ := Prod.mk.inj same
    have places := (located offset).place_eq (located offset') number_eq column_eq
    rw [place, place, Nat.min_eq_left (Nat.le_of_lt inside),
      Nat.min_eq_left (Nat.le_of_lt inside')] at places
    exact UInt32.toNat_inj.mp places

end Line

end LetLang
