import Quantities.Json.Reader
import Quantities.Json.Writer

/-!
# Strings that are written and read

Every character of a string is written as one piece, and the pieces join to the characters again.
-/

namespace Quantities

namespace JsonReader

def consPiece (piece : Piece) (read : List Piece × List Char) : List Piece × List Char :=
  (piece :: read.1, read.2)

theorem readPieces_escape {letter c : Char} (h : escaped? letter = some c) (text : List Char) :
    readPieces ('\\' :: letter :: text) = (readPieces text).map (consPiece (.char c)) := by
  have hletter : letter ≠ 'u' := by
    rintro rfl
    cases h
  rw [readPieces, h]
  · cases readPieces text <;> rfl
  · simp [hletter]

theorem readPieces_unit {a b c d : Char} {unit : Nat} (h : hexUnit? a b c d = some unit)
    (text : List Char) :
    readPieces ('\\' :: 'u' :: a :: b :: c :: d :: text) =
      (readPieces text).map (consPiece (.unit unit)) := by
  rw [readPieces, h]
  cases readPieces text <;> rfl

theorem readPieces_printable {c : Char} (hquote : c ≠ '"') (hbackslash : c ≠ '\\')
    (hprintable : ¬c.toNat < 0x20) (text : List Char) :
    readPieces (c :: text) = (readPieces text).map (consPiece (.char c)) := by
  rw [readPieces]
  · simp only [hprintable, hbackslash]
    cases readPieces text <;> rfl
  · simp [hquote]
  · simp [hbackslash]
  · simp [hbackslash]

/-- The piece that a written character is read as: a control character without a letter of its own is
escaped by its number. -/
def pieceOf (c : Char) : Piece :=
  if c.toNat < 0x20 ∧ c ∉ ['\x08', '\x0c', '\n', '\r', '\t'] then .unit c.toNat else .char c

theorem hexUnit?_control : ∀ n < 0x20,
    hexUnit? '0' '0' (Nat.digitChar (n / 16)) (Nat.digitChar (n % 16)) = some n := by
  decide

theorem readPieces_writeChar (c : Char) (text : List Char) :
    readPieces (JsonWriter.writeChar c ++ text) = (readPieces text).map (consPiece (pieceOf c)) := by
  unfold JsonWriter.writeChar
  split
  case h_8 hquote hbackslash hb hf hn hr ht =>
    split
    · next hcontrol =>
      have hpiece : pieceOf c = .unit c.toNat := by simp_all [pieceOf]
      rw [hpiece]
      exact readPieces_unit (hexUnit?_control c.toNat hcontrol) text
    · next hprintable =>
      have hpiece : pieceOf c = .char c := by simp [pieceOf, hprintable]
      rw [hpiece]
      exact readPieces_printable hquote hbackslash hprintable text
  all_goals exact readPieces_escape rfl text

theorem readPieces_flatMap (chars text : List Char) :
    readPieces (chars.flatMap JsonWriter.writeChar ++ '"' :: text) =
      some (chars.map pieceOf, text) := by
  induction chars with
  | nil => rfl
  | cons c chars ih =>
      rw [List.flatMap_cons, List.append_assoc, readPieces_writeChar, ih]
      rfl

theorem not_surrogate (c : Char) : c.toNat < 0xd800 ∨ 0xe000 ≤ c.toNat := by
  rcases c.valid with hlow | ⟨hhigh, -⟩
  · exact .inl hlow
  · exact .inr hhigh

/-- No character is half of a surrogate pair. -/
theorem joinPieces_unit (c : Char) (pieces : List Piece) :
    joinPieces (.unit c.toNat :: pieces) = (joinPieces pieces).map (c :: ·) := by
  have hvalid := not_surrogate c
  rw [joinPieces.eq_def]
  split
  · next heq => cases heq
  · next heq => cases heq
  · next high low rest heq =>
    cases heq
    rw [if_neg (by omega), if_neg (by omega), Char.ofNat_toNat]
  · next number rest hlast heq =>
    cases heq
    rw [if_neg (by omega), Char.ofNat_toNat]

theorem joinPieces_cons_pieceOf (c : Char) (pieces : List Piece) :
    joinPieces (pieceOf c :: pieces) = (joinPieces pieces).map (c :: ·) := by
  unfold pieceOf
  split
  · exact joinPieces_unit c pieces
  · rw [joinPieces]

theorem joinPieces_map_pieceOf (chars : List Char) :
    joinPieces (chars.map pieceOf) = some chars := by
  induction chars with
  | nil => rfl
  | cons c chars ih =>
      rw [List.map_cons, joinPieces_cons_pieceOf, ih]
      rfl

/-- A written string is read back, and so is the one that denotes no text. -/
theorem readText_writeText (text : Option String) :
    ∃ body, JsonWriter.writeText text = '"' :: body ∧
      ∀ rest, readText (body ++ rest) = some (text, rest) := by
  cases text with
  | none => exact ⟨_, rfl, fun rest => rfl⟩
  | some text =>
      refine ⟨text.toList.flatMap JsonWriter.writeChar ++ ['"'], rfl, fun rest => ?_⟩
      rw [readText, List.append_assoc, List.singleton_append, readPieces_flatMap]
      simp only [Option.map_some, joinPieces_map_pieceOf, String.ofList_toList]

end JsonReader

end Quantities
