import LetLang.Proofs.Segmentation
import Mathlib.Algebra.Group.Nat.Defs
import Mathlib.Data.List.Forall2

set_option autoImplicit false

namespace LetLang

/-- The bytes of a text from `start` up to, but not including, `stop`, counted without a limit. -/
structure Extent where
  start : Nat
  stop : Nat
deriving DecidableEq, Repr

namespace Extent

def bytes (text : String) (extent : Extent) : ByteArray :=
  text.toByteArray.extract extent.start extent.stop

/-- Extents that are not empty and lie one behind the other between two bounds. -/
def Ordered : Nat → List Extent → Nat → Prop
  | lower, [], upper => lower ≤ upper
  | lower, extent :: later, upper =>
      lower ≤ extent.start ∧ extent.start < extent.stop ∧ Ordered extent.stop later upper

/-- What is left between two bounds before, between and behind extents. -/
def between : Nat → List Extent → Nat → List Extent
  | lower, [], upper => [⟨lower, upper⟩]
  | lower, extent :: later, upper => ⟨lower, extent.start⟩ :: between extent.stop later upper

def IsGap (text gap : String) (extent : Extent) : Prop :=
  extent.bytes text = gap.toByteArray ∧ ∀ c ∈ gap.toList, Segmentation.GapChar c

theorem bytes_of_append {text : String} {front middle back : List Char}
    (whole : text.toList = front ++ (middle ++ back)) :
    bytes text ⟨Text.size front, Text.size front + Text.size middle⟩ =
        (String.ofList middle).toByteArray ∧
      String.Pos.Raw.IsValid text ⟨Text.size front⟩ ∧
      String.Pos.Raw.IsValid text ⟨Text.size front + Text.size middle⟩ := by
  have text_eq : text = String.ofList front ++ (String.ofList middle ++ String.ofList back) := by
    rw [← String.ofList_append, ← String.ofList_append, ← whole, String.ofList_toList]
  have front_size : Text.size front = (String.ofList front).toByteArray.size :=
    Text.size_eq_utf8ByteSize front
  have middle_size : Text.size middle = (String.ofList middle).toByteArray.size :=
    Text.size_eq_utf8ByteSize middle
  refine ⟨?_, ?_, ?_⟩
  · rw [bytes, text_eq, String.toByteArray_append, String.toByteArray_append]
    have behind := ByteArray.extract_append_size_add' (a := (String.ofList front).toByteArray)
      (b := (String.ofList middle).toByteArray ++ (String.ofList back).toByteArray)
      (i := 0) (j := Text.size middle) front_size
    rw [Nat.add_zero] at behind
    rw [behind]
    exact ByteArray.extract_append_eq_left middle_size
  · apply String.Pos.Raw.isValid_iff_exists_append.mpr
    refine ⟨String.ofList front, String.ofList middle ++ String.ofList back, text_eq, ?_⟩
    rw [String.rawEndPos, front_size]
    rfl
  · apply String.Pos.Raw.isValid_iff_exists_append.mpr
    refine ⟨String.ofList front ++ String.ofList middle, String.ofList back, ?_, ?_⟩
    · rw [text_eq, String.append_assoc]
    · rw [String.rawEndPos, String.utf8ByteSize_append, front_size, middle_size]
      rfl

theorem Ordered.lower_le {lower upper : Nat} {extents : List Extent}
    (ordered : Ordered lower extents upper) : lower ≤ upper := by
  induction extents generalizing lower with
  | nil => exact ordered
  | cons extent later ih =>
      obtain ⟨above, some_byte, rest⟩ := ordered
      have behind := ih rest
      omega

end Extent

/-- A token whose literal is made up of the bytes of a text in an extent between two characters.
Its span has the offsets of that extent modulo `2 ^ 32`. -/
structure Token.StandsAt (source text : String) (token : Token) (extent : Extent) : Prop where
  bytes : extent.bytes text = token.literal.toByteArray
  start_valid : String.Pos.Raw.IsValid text ⟨extent.start⟩
  stop_valid : String.Pos.Raw.IsValid text ⟨extent.stop⟩
  start_offset : token.span.start.offset.toNat = extent.start % 2 ^ 32
  stop_offset : token.span.stop.offset.toNat = extent.stop % 2 ^ 32
  start_source : token.span.start.source = source
  stop_source : token.span.stop.source = source

theorem Token.StandsAt.of_span {source text : String} {token : Token} {extent : Extent}
    (span_eq : token.span = ⟨.at source extent.start, .at source extent.stop⟩)
    (bytes : extent.bytes text = token.literal.toByteArray)
    (start_valid : String.Pos.Raw.IsValid text ⟨extent.start⟩)
    (stop_valid : String.Pos.Raw.IsValid text ⟨extent.stop⟩) :
    token.StandsAt source text extent where
  bytes := bytes
  start_valid := start_valid
  stop_valid := stop_valid
  start_offset := by rw [span_eq]; exact Position.at_offset _ _
  stop_offset := by rw [span_eq]; exact Position.at_offset _ _
  start_source := by rw [span_eq]; rfl
  stop_source := by rw [span_eq]; rfl

/-- Tokens on ordered extents below `2 ^ 32` start inside the bounds, each behind the one before. -/
theorem Extent.Ordered.starts {source text : String} {tokens : List Token} {extents : List Extent}
    {lower upper : Nat} (ordered : Ordered lower extents upper)
    (stand : List.Forall₂ (Token.StandsAt source text) tokens extents) (short : upper < 2 ^ 32) :
    (∀ token ∈ tokens, lower ≤ token.start.offset.toNat ∧ token.start.offset.toNat < upper) ∧
      tokens.Pairwise fun first second => first.start.offset.toNat < second.start.offset.toNat := by
  induction stand generalizing lower with
  | nil => simp
  | @cons token extent tokens extents stands _ ih =>
      obtain ⟨above, some_byte, later⟩ := ordered
      obtain ⟨bounds, increasing⟩ := ih later
      have below := later.lower_le
      have exact_start : token.start.offset.toNat = extent.start := by
        rw [Token.start, stands.start_offset]
        exact Nat.mod_eq_of_lt (by omega)
      constructor
      · intro other member
        rcases List.mem_cons.mp member with rfl | deeper
        · omega
        · have inside := bounds other deeper
          omega
      · refine List.pairwise_cons.mpr ⟨?_, increasing⟩
        intro other member
        have inside := bounds other member
        omega

/-- Gaps and literals in turn, a gap first. -/
def weave : List String → List String → String
  | [], _ => ""
  | gap :: gaps, [] => gap ++ weave gaps []
  | gap :: gaps, literal :: literals => gap ++ (literal ++ weave gaps literals)

namespace Cursor

/-- A cursor inside a text: as many bytes are read as stand in front of the text ahead. -/
def Within (text : String) (cursor : Cursor) : Prop :=
  ∃ front, text.toList = front ++ cursor.rest ∧ cursor.offset = Text.size front

theorem Within.size_eq {text : String} {cursor : Cursor} (within : cursor.Within text) :
    text.utf8ByteSize = cursor.offset + Text.size cursor.rest := by
  obtain ⟨front, whole, offset_eq⟩ := within
  rw [← Text.size_toList, whole, Text.size_append, offset_eq]

/-- The extent of a stretch of the text ahead, behind another one that is passed over. -/
theorem Within.bytes {text : String} {cursor : Cursor} (within : cursor.Within text)
    (passed middle back : List Char) (start stop : Nat)
    (ahead : cursor.rest = passed ++ (middle ++ back))
    (start_eq : start = cursor.offset + Text.size passed)
    (stop_eq : stop = start + Text.size middle) :
    Extent.bytes text ⟨start, stop⟩ = (String.ofList middle).toByteArray ∧
      String.Pos.Raw.IsValid text ⟨start⟩ ∧ String.Pos.Raw.IsValid text ⟨stop⟩ := by
  obtain ⟨front, whole, offset_eq⟩ := within
  rw [ahead, ← List.append_assoc] at whole
  have found := Extent.bytes_of_append whole
  rw [Text.size_append, ← offset_eq, ← start_eq, ← stop_eq] at found
  exact found

/-- Drawing a token moves the cursor from the gap in front of the token to the end of it. -/
theorem places_of_next? {cursor after : Cursor} {token : Token}
    (step : cursor.next? = some (token, after)) :
    token.span =
        ⟨.at cursor.source (cursor.offset + Text.size (cursor.rest.takeWhile Text.isGap)),
          .at cursor.source after.offset⟩ ∧
      after.source = cursor.source ∧
      after.offset = cursor.offset + Text.size (cursor.rest.takeWhile Text.isGap) +
        Text.size token.literal.toList ∧
      token.literal.toList ≠ [] := by
  obtain ⟨first, rest, _, rfl, rfl⟩ := (cursor.next?_eq_some_iff token after).mp step
  have some_char := Lexeme.read_text_ne_nil first rest
  simp [token, behind, skipGap, some_char]

theorem Within.next? {text : String} {cursor after : Cursor} {token : Token}
    (within : cursor.Within text) (step : cursor.next? = some (token, after)) :
    after.Within text := by
  obtain ⟨front, whole, offset_eq⟩ := within
  obtain ⟨_, _, after_eq, _⟩ := places_of_next? step
  refine ⟨front ++ (cursor.rest.takeWhile Text.isGap ++ token.literal.toList), ?_, ?_⟩
  · rw [List.append_assoc, List.append_assoc, ← rest_of_next? step, whole]
  · rw [after_eq, offset_eq, Text.size_append, Text.size_append]
    omega

theorem Within.ended {text : String} {cursor : Cursor} (within : cursor.Within text)
    (step : cursor.next? = none) :
    Extent.IsGap text (String.ofList cursor.rest) ⟨cursor.offset, text.utf8ByteSize⟩ ∧
      cursor.finish.offset = text.utf8ByteSize := by
  have gap : ∀ c ∈ cursor.rest, Text.isGap c = true :=
    List.dropWhile_eq_nil_iff.mp (cursor.next?_eq_none_iff.mp step)
  have found := within.bytes [] cursor.rest [] cursor.offset text.utf8ByteSize (by simp) (by simp)
    within.size_eq
  refine ⟨⟨found.1, ?_⟩, ?_⟩
  · intro c member
    rw [String.toList_ofList] at member
    exact (Segmentation.isGap_iff c).mp (gap c member)
  · rw [finish_of_none step, skipGap, List.takeWhile_eq_self_iff.mpr gap, within.size_eq]

/-- The token that is drawn stands where the gap in front of it ends. -/
theorem Within.drawn {text : String} {cursor after : Cursor} {token : Token}
    (within : cursor.Within text) (step : cursor.next? = some (token, after)) :
    ∃ start, start < after.offset ∧
      Extent.IsGap text (String.ofList (cursor.rest.takeWhile Text.isGap))
        ⟨cursor.offset, start⟩ ∧
      token.StandsAt cursor.source text ⟨start, after.offset⟩ ∧ cursor.offset ≤ start := by
  have ahead := rest_of_next? step
  obtain ⟨span_eq, _, after_eq, some_char⟩ := places_of_next? step
  have some_byte := Text.size_pos _ some_char
  let start := cursor.offset + Text.size (cursor.rest.takeWhile Text.isGap)
  have gap := within.bytes [] _ _ cursor.offset start ahead (by simp) rfl
  have literal := within.bytes _ _ _ start after.offset ahead rfl after_eq
  refine ⟨start, by omega, ⟨gap.1, ?_⟩, ?_, by omega⟩
  · intro c member
    rw [String.toList_ofList] at member
    exact (Segmentation.isGap_iff c).mp (List.mem_takeWhile_imp member)
  · rw [String.ofList_toList] at literal
    exact .of_span span_eq literal.1 literal.2.1 literal.2.2

/-- The tokens ahead of a cursor tile the text ahead. -/
theorem tiles {text : String} (cursor : Cursor) (within : cursor.Within text) :
    ∃ extents gaps, Extent.Ordered cursor.offset extents text.utf8ByteSize ∧
      List.Forall₂ (Token.StandsAt cursor.source text) cursor.tokens extents ∧
      List.Forall₂ (Extent.IsGap text) gaps
        (Extent.between cursor.offset extents text.utf8ByteSize) ∧
      weave gaps (cursor.tokens.map Token.literal) = String.ofList cursor.rest ∧
      cursor.finish.source = cursor.source ∧ cursor.finish.offset = text.utf8ByteSize := by
  induction cursor using Cursor.induction with
  | ended cursor step =>
      obtain ⟨gap, finish_eq⟩ := within.ended step
      refine ⟨[], [String.ofList cursor.rest], ?_, ?_, .cons gap .nil, ?_, ?_, finish_eq⟩
      · have size_eq := within.size_eq
        show cursor.offset ≤ text.utf8ByteSize
        omega
      · rw [tokens_of_none step]
        exact .nil
      · rw [tokens_of_none step]
        simp [weave]
      · rw [finish_of_none step]
        rfl
  | drawn cursor token after step ih =>
      obtain ⟨extents, gaps, ordered, stand, areGaps, woven, source_eq, finish_eq⟩ :=
        ih (within.next? step)
      obtain ⟨start, some_byte, gap, stands, above⟩ := within.drawn step
      have same_source := (places_of_next? step).2.1
      rw [same_source] at stand source_eq
      rw [tokens_of_some step, finish_of_some step]
      refine ⟨⟨start, after.offset⟩ :: extents,
        String.ofList (cursor.rest.takeWhile Text.isGap) :: gaps, ⟨above, some_byte, ordered⟩,
        .cons stands stand, .cons gap areGaps, ?_, source_eq, finish_eq⟩
      have ahead := congrArg String.ofList (rest_of_next? step)
      rw [String.ofList_append, String.ofList_append, String.ofList_toList] at ahead
      rw [List.map_cons, weave, woven, ahead]

theorem within_ofText (source text : String) : (ofText source text).Within text :=
  ⟨[], rfl, rfl⟩

theorem endToken_standsAt {source text : String} {cursor : Cursor}
    (source_eq : cursor.source = source) (offset_eq : cursor.offset = text.utf8ByteSize) :
    cursor.endToken.StandsAt source text ⟨text.utf8ByteSize, text.utf8ByteSize⟩ := by
  refine .of_span ?_ ?_ String.Pos.Raw.isValid_rawEndPos String.Pos.Raw.isValid_rawEndPos
  · rw [endToken, source_eq, offset_eq]
  · rw [Extent.bytes, ByteArray.extract_same]
    rfl

/-- In a text of less than `2 ^ 32` bytes each token starts behind the one before, and the end
token behind all of them. -/
theorem allTokens_starts (source text : String) (short : text.utf8ByteSize < 2 ^ 32) :
    (ofText source text).allTokens.Pairwise fun first second =>
      first.start.offset.toNat < second.start.offset.toNat := by
  obtain ⟨extents, _, ordered, stand, _, _, source_eq, offset_eq⟩ :=
    (ofText source text).tiles (within_ofText source text)
  obtain ⟨bounds, increasing⟩ := ordered.starts stand short
  have stop_start := (endToken_standsAt source_eq offset_eq).start_offset
  refine List.pairwise_append.mpr ⟨increasing, List.pairwise_singleton _ _, ?_⟩
  intro token member stop is_stop
  rw [List.mem_singleton.mp is_stop, Token.start, Token.start, stop_start, Nat.mod_eq_of_lt short]
  exact (bounds token member).2

end Cursor

/-- The spans of a text's tokens tile it: they have true offsets in order, each on the bytes of its
literal, with nothing but gaps between them and the end token behind all bytes. -/
theorem tokenize_tiles (source text : String) :
    ∃ tokens stop extents gaps, tokenize source text = tokens ++ [stop] ∧
      Extent.Ordered 0 extents text.utf8ByteSize ∧
      List.Forall₂ (Token.StandsAt source text) tokens extents ∧
      List.Forall₂ (Extent.IsGap text) gaps (Extent.between 0 extents text.utf8ByteSize) ∧
      stop.kind = .eof ∧ stop.literal = "" ∧
      stop.StandsAt source text ⟨text.utf8ByteSize, text.utf8ByteSize⟩ ∧
      weave gaps (tokens.map Token.literal) = text := by
  obtain ⟨extents, gaps, ordered, stand, areGaps, woven, source_eq, offset_eq⟩ :=
    (Cursor.ofText source text).tiles (Cursor.within_ofText source text)
  refine ⟨_, _, extents, gaps, rfl, ordered, stand, areGaps, rfl, rfl,
    Cursor.endToken_standsAt source_eq offset_eq, ?_⟩
  rw [woven]
  exact String.ofList_toList

end LetLang
