import Mathlib
import Quantities.Proofs.Json.RoundTrip

/-!
# The grammar of JSON texts

Which texts spell a JSON value, after RFC 8259: with any blanks, any spelling of a number and any escapes in
a string, as long as no surrogate stands alone.  The reader takes every such text off the front of what it
is given, and finds the value that the text spells.
-/

namespace Quantities

namespace JsonReader

open JsonWriter

variable {text rest chars blank : List Char} {c : Char} {fuel : Nat} {tree : JsonTree}

/-! ## Strings -/

/-- The letter that stands for a character after a backslash. -/
inductive IsEscape : Char → Char → Prop where
  | quote : IsEscape '"' '"'
  | backslash : IsEscape '\\' '\\'
  | slash : IsEscape '/' '/'
  | backspace : IsEscape 'b' '\x08'
  | formFeed : IsEscape 'f' '\x0c'
  | lineFeed : IsEscape 'n' '\n'
  | carriageReturn : IsEscape 'r' '\r'
  | tab : IsEscape 't' '\t'

inductive IsHexDigit : Nat → Char → Prop where
  | lower {n : Nat} (h : n < 16) : IsHexDigit n (Nat.digitChar n)
  | upper {n : Nat} (h : n < 16) : IsHexDigit n (Nat.digitChar n).toUpper

/-- Four hexadecimal digits, the highest first. -/
inductive SpellsUnit : List Char → Nat → Prop where
  | digits {a b c d : Nat} {a' b' c' d' : Char} (ha : IsHexDigit a a') (hb : IsHexDigit b b')
      (hc : IsHexDigit c c') (hd : IsHexDigit d d') :
      SpellsUnit [a', b', c', d'] (((a * 16 + b) * 16 + c) * 16 + d)

/-- A character of a string: the character itself, an escape with one letter, its number in four hexadecimal
digits, or the numbers of its two surrogates. -/
inductive SpellsChar : List Char → Char → Prop where
  | plain {c : Char} (hquote : c ≠ '"') (hbackslash : c ≠ '\\') (hprintable : ¬c.toNat < 0x20) :
      SpellsChar [c] c
  | letter {letter c : Char} (h : IsEscape letter c) : SpellsChar ['\\', letter] c
  | number {digits : List Char} {c : Char} (h : SpellsUnit digits c.toNat) :
      SpellsChar ('\\' :: 'u' :: digits) c
  | surrogates {high low : List Char} {c : Char} (hlarge : 0x10000 ≤ c.toNat)
      (hhigh : SpellsUnit high (0xd800 + (c.toNat - 0x10000) / 0x400))
      (hlow : SpellsUnit low (0xdc00 + (c.toNat - 0x10000) % 0x400)) :
      SpellsChar ('\\' :: 'u' :: (high ++ '\\' :: 'u' :: low)) c

inductive SpellsText : List Char → List Char → Prop where
  | nil : SpellsText [] []
  | cons {text rest : List Char} {c : Char} {chars : List Char} (h : SpellsChar text c)
      (hs : SpellsText rest chars) : SpellsText (text ++ rest) (c :: chars)

/-- Printable characters spell themselves. -/
theorem spellsText_self (h : ∀ c ∈ chars, c ≠ '"' ∧ c ≠ '\\' ∧ ¬c.toNat < 0x20) :
    SpellsText chars chars := by
  induction chars with
  | nil => exact .nil
  | cons c chars ih =>
      obtain ⟨hquote, hbackslash, hprintable⟩ := h c List.mem_cons_self
      exact .cons (.plain hquote hbackslash hprintable) (ih fun d hd => h d (List.mem_cons_of_mem c hd))

theorem toNat_lt (c : Char) : c.toNat < 0x110000 := by
  rcases c.valid with hlow | ⟨-, hhigh⟩
  · exact Nat.lt_trans hlow (by norm_num)
  · exact hhigh

theorem joinPieces_surrogates (hlarge : 0x10000 ≤ c.toNat) (pieces : List Piece) :
    joinPieces (.unit (0xd800 + (c.toNat - 0x10000) / 0x400) ::
      .unit (0xdc00 + (c.toNat - 0x10000) % 0x400) :: pieces) = (joinPieces pieces).map (c :: ·) := by
  have hlt := toNat_lt c
  have hnumber : 0x10000 + (0xd800 + (c.toNat - 0x10000) / 0x400 - 0xd800) * 0x400 +
      (0xdc00 + (c.toNat - 0x10000) % 0x400 - 0xdc00) = c.toNat := by omega
  rw [joinPieces, if_pos (by omega), if_pos (by omega), hnumber, Char.ofNat_toNat]

theorem IsEscape.escaped?_eq {letter : Char} (h : IsEscape letter c) : escaped? letter = some c := by
  cases h <;> rfl

theorem hexDigit?_digitChar : ∀ n < 16,
    hexDigit? (Nat.digitChar n) = some n ∧ hexDigit? (Nat.digitChar n).toUpper = some n := by
  decide

theorem IsHexDigit.hexDigit?_eq {n : Nat} (h : IsHexDigit n c) : hexDigit? c = some n := by
  cases h with
  | lower h => exact (hexDigit?_digitChar n h).1
  | upper h => exact (hexDigit?_digitChar n h).2

theorem SpellsUnit.readPieces_eq {digits : List Char} {unit : Nat} (h : SpellsUnit digits unit)
    (rest : List Char) :
    readPieces ('\\' :: 'u' :: (digits ++ rest)) = (readPieces rest).map (consPiece (.unit unit)) := by
  cases h with
  | digits ha hb hc hd =>
      refine readPieces_unit ?_ rest
      simp [hexUnit?, ha.hexDigit?_eq, hb.hexDigit?_eq, hc.hexDigit?_eq, hd.hexDigit?_eq]

/-- The pieces of a spelled character are read together and join to the character. -/
theorem SpellsChar.exists_pieces (h : SpellsChar text c) : ∃ pieces,
    (∀ rest, readPieces (text ++ rest) =
      (readPieces rest).map fun read => (pieces ++ read.1, read.2)) ∧
    ∀ more, joinPieces (pieces ++ more) = (joinPieces more).map (c :: ·) := by
  cases h with
  | plain hquote hbackslash hprintable =>
      exact ⟨[.char c], fun rest => readPieces_printable hquote hbackslash hprintable rest,
        fun more => by rw [List.singleton_append, joinPieces]⟩
  | letter h =>
      exact ⟨[.char c], fun rest => readPieces_escape h.escaped?_eq rest,
        fun more => by rw [List.singleton_append, joinPieces]⟩
  | number h => exact ⟨[.unit c.toNat], fun rest => h.readPieces_eq rest, joinPieces_unit c⟩
  | surrogates hlarge hhigh hlow =>
      refine ⟨[.unit _, .unit _], fun rest => ?_, joinPieces_surrogates hlarge⟩
      simp only [List.cons_append, List.append_assoc]
      rw [hhigh.readPieces_eq, hlow.readPieces_eq, Option.map_map]
      rfl

theorem SpellsText.exists_pieces (h : SpellsText text chars) : ∃ pieces,
    (∀ rest, readPieces (text ++ '"' :: rest) = some (pieces, rest)) ∧
    joinPieces pieces = some chars := by
  induction h with
  | nil => exact ⟨[], fun rest => rfl, rfl⟩
  | cons h hs ih =>
      obtain ⟨pieces, hread, hjoin⟩ := h.exists_pieces
      obtain ⟨more, hmore, hjoined⟩ := ih
      refine ⟨pieces ++ more, fun rest => ?_, ?_⟩
      · rw [List.append_assoc, hread, hmore]
        rfl
      · rw [hjoin, hjoined]
        rfl

theorem SpellsText.readText_eq {s : String} (h : SpellsText text s.toList) (rest : List Char) :
    readText (text ++ '"' :: rest) = some (some s, rest) := by
  obtain ⟨pieces, hread, hjoin⟩ := h.exists_pieces
  simp [readText, hread, hjoin]

/-! ## Values -/

def AreBlank (text : List Char) : Prop :=
  ∀ c ∈ text, c = ' ' ∨ c = '\n' ∨ c = '\t' ∨ c = '\r'

mutual

/-- The text of a value. -/
inductive IsValue : List Char → JsonTree → Prop where
  | nullLiteral : IsValue ['n', 'u', 'l', 'l'] .null
  | trueLiteral : IsValue ['t', 'r', 'u', 'e'] (.bool true)
  | falseLiteral : IsValue ['f', 'a', 'l', 's', 'e'] (.bool false)
  | integer {text : List Char} (negative : Bool) (h : IsWhole text) :
      IsValue (writeSigned negative text) (.integer negative (Nat.ofDigitChars 10 text 0))
  | real {text : List Char} {d : Decimal} (negative : Bool) (h : Spells text d) (hnormal : d.IsNormal) :
      IsValue (writeSigned negative text) (.real negative d)
  | string {text : List Char} {s : String} (h : SpellsText text s.toList) :
      IsValue ('"' :: (text ++ ['"'])) (.string (some s))
  | noItems {blank : List Char} (h : AreBlank blank) : IsValue ('[' :: (blank ++ [']'])) (.array [])
  | items {text : List Char} {items : List JsonTree} (h : AreElements text items) :
      IsValue ('[' :: (text ++ [']'])) (.array items)
  | noMembers {blank : List Char} (h : AreBlank blank) :
      IsValue ('\x7b' :: (blank ++ ['\x7d'])) (.object [])
  | members {text : List Char} {members : List (Option String × JsonTree)} (h : AreMembers text members) :
      IsValue ('\x7b' :: (text ++ ['\x7d'])) (.object members)

/-- A value with blanks around it. -/
inductive IsElement : List Char → JsonTree → Prop where
  | padded {before text after : List Char} {tree : JsonTree} (hbefore : AreBlank before)
      (h : IsValue text tree) (hafter : AreBlank after) : IsElement (before ++ (text ++ after)) tree

inductive AreElements : List Char → List JsonTree → Prop where
  | last {text : List Char} {item : JsonTree} (h : IsElement text item) : AreElements text [item]
  | next {text rest : List Char} {item : JsonTree} {items : List JsonTree} (h : IsElement text item)
      (hs : AreElements rest items) : AreElements (text ++ ',' :: rest) (item :: items)

inductive IsMember : List Char → Option String × JsonTree → Prop where
  | pair {before text after rest : List Char} {key : String} {value : JsonTree}
      (hbefore : AreBlank before) (hkey : SpellsText text key.toList) (hafter : AreBlank after)
      (h : IsElement rest value) :
      IsMember (before ++ '"' :: (text ++ '"' :: (after ++ ':' :: rest))) (some key, value)

inductive AreMembers : List Char → List (Option String × JsonTree) → Prop where
  | last {text : List Char} {member : Option String × JsonTree} (h : IsMember text member) :
      AreMembers text [member]
  | next {text rest : List Char} {member : Option String × JsonTree}
      {members : List (Option String × JsonTree)} (h : IsMember text member)
      (hs : AreMembers rest members) : AreMembers (text ++ ',' :: rest) (member :: members)

end

/-! ## Blanks -/

theorem AreBlank.isSpace (h : AreBlank blank) : ∀ c ∈ blank, isSpace c = true := by
  intro c hc
  rcases h c hc with rfl | rfl | rfl | rfl <;> rfl

theorem AreBlank.skipSpace_append (h : AreBlank blank) (rest : List Char) :
    skipSpace (blank ++ rest) = skipSpace rest :=
  List.dropWhile_append_of_pos h.isSpace

theorem AreBlank.readValue_append (h : AreBlank blank) (fuel : Nat) (rest : List Char) :
    readValue fuel (blank ++ rest) = readValue fuel rest := by
  rw [← readValue_skipSpace, h.skipSpace_append, readValue_skipSpace]

theorem AreBlank.endsNumber (h : AreBlank blank) (hrest : EndsNumber rest) :
    EndsNumber (blank ++ rest) := by
  cases blank with
  | nil => exact hrest
  | cons c blank =>
      rintro c' ⟨⟩
      rcases h c List.mem_cons_self with rfl | rfl | rfl | rfl <;> decide

/-! ## Reading -/

/-- A value starts with a character that is neither blank nor a closing bracket. -/
theorem IsValue.exists_cons (h : IsValue text tree) :
    ∃ c body, text = c :: body ∧ JsonReader.isSpace c = false ∧ c ≠ ']' := by
  cases h with
  | integer negative h => exact h.isMagnitude.exists_cons negative
  | real negative h hnormal => exact (h.isMagnitude hnormal).exists_cons negative
  | _ => exact ⟨_, _, rfl, rfl, by decide⟩

theorem IsElement.head?_skipSpace_ne (h : IsElement text tree) (rest : List Char) :
    (skipSpace (text ++ rest)).head? ≠ some ']' := by
  cases h with
  | padded hbefore h hafter =>
      obtain ⟨c, body, rfl, hspace, hc⟩ := h.exists_cons
      rw [List.append_assoc, hbefore.skipSpace_append, List.append_assoc, List.cons_append,
        skipSpace_cons hspace]
      simpa using hc

theorem AreElements.head?_skipSpace_ne {items : List JsonTree} (h : AreElements text items)
    (rest : List Char) : (skipSpace (text ++ rest)).head? ≠ some ']' := by
  cases h with
  | last h => exact h.head?_skipSpace_ne rest
  | next h hs =>
      rw [List.append_assoc]
      exact h.head?_skipSpace_ne _

theorem IsMember.skipSpace_eq {member : Option String × JsonTree} (h : IsMember text member) :
    ∃ body, ∀ rest, skipSpace (text ++ rest) = '"' :: (body ++ rest) := by
  cases h with
  | @pair before text after rest key value hbefore hkey hafter h =>
      refine ⟨text ++ '"' :: (after ++ ':' :: rest), fun rest' => ?_⟩
      rw [List.append_assoc, hbefore.skipSpace_append, List.cons_append, skipSpace_cons rfl]

theorem AreMembers.head?_skipSpace_ne {members : List (Option String × JsonTree)}
    (h : AreMembers text members) (rest : List Char) :
    (skipSpace (text ++ rest)).head? ≠ some '\x7d' := by
  cases h with
  | last h =>
      obtain ⟨body, hbody⟩ := h.skipSpace_eq
      simp [hbody]
  | next h hs =>
      obtain ⟨body, hbody⟩ := h.skipSpace_eq
      rw [List.append_assoc, hbody]
      simp

-- Along the grammar.  The bracket, comma or colon next to a part pays for the two units of fuel that the
-- call for the part and the call for the rest take.
mutual

theorem IsValue.readValue_eq : ∀ {text : List Char} {tree : JsonTree}, IsValue text tree →
    ∀ (fuel : Nat) (rest : List Char), 2 * text.length ≤ fuel + 1 → EndsNumber rest →
      readValue (fuel + 1) (text ++ rest) = some (tree, rest)
  | _, _, .nullLiteral, fuel, rest, _, _ => rfl
  | _, _, .trueLiteral, fuel, rest, _, _ => rfl
  | _, _, .falseLiteral, fuel, rest, _, _ => rfl
  | _, _, .integer negative h, fuel, rest, _, hrest => h.isMagnitude.readValue_eq negative hrest
  | _, _, .real negative h hnormal, fuel, rest, _, hrest =>
      (h.isMagnitude hnormal).readValue_eq negative hrest
  | _, _, .string h, fuel, rest, _, _ => by
      rw [List.cons_append, readValue, skipSpace_cons rfl]
      simp only [List.append_assoc, List.singleton_append, h.readText_eq]
      rfl
  | _, _, .noItems h, fuel, rest, _, _ => by
      rw [List.cons_append, readValue, skipSpace_cons rfl]
      simp only [List.append_assoc, h.skipSpace_append]
      rfl
  | _, _, .items h, fuel, rest, hfuel, _ => by
      simp only [List.length_cons, List.length_append, List.length_nil] at hfuel
      rw [List.cons_append, List.append_assoc]
      exact readValue_array (h.head?_skipSpace_ne _) (h.readItems_eq fuel rest (by omega))
  | _, _, .noMembers h, fuel, rest, _, _ => by
      rw [List.cons_append, readValue, skipSpace_cons rfl]
      simp only [List.append_assoc, h.skipSpace_append]
      rfl
  | _, _, .members h, fuel, rest, hfuel, _ => by
      simp only [List.length_cons, List.length_append, List.length_nil] at hfuel
      rw [List.cons_append, List.append_assoc]
      exact readValue_object (h.head?_skipSpace_ne _) (h.readMembers_eq fuel rest (by omega))

theorem IsElement.readValue_eq : ∀ {text : List Char} {tree : JsonTree}, IsElement text tree →
    ∀ (fuel : Nat) (rest : List Char), 2 * text.length ≤ fuel + 1 → EndsNumber rest →
      ∃ blank, AreBlank blank ∧ readValue (fuel + 1) (text ++ rest) = some (tree, blank ++ rest)
  | _, _, @IsElement.padded _ _ after _ hbefore h hafter, fuel, rest, hfuel, hrest => by
      simp only [List.length_append] at hfuel
      refine ⟨after, hafter, ?_⟩
      rw [List.append_assoc, hbefore.readValue_append, List.append_assoc]
      exact h.readValue_eq fuel (after ++ rest) (by omega) (hafter.endsNumber hrest)

theorem AreElements.readItems_eq : ∀ {text : List Char} {items : List JsonTree}, AreElements text items →
    ∀ (fuel : Nat) (rest : List Char), 2 * text.length + 2 ≤ fuel →
      readItems fuel (text ++ ']' :: rest) = some (items, rest)
  | _, _, .last h, fuel, rest, hfuel => by
      obtain ⟨fuel, rfl⟩ : ∃ n, fuel = n + 2 := ⟨fuel - 2, by omega⟩
      obtain ⟨blank, hblank, hread⟩ := h.readValue_eq fuel (']' :: rest) (by omega) (by rintro c ⟨⟩; decide)
      exact readItems_last hread (hblank.skipSpace_append _)
  | _, _, @AreElements.next _ others _ _ h hs, fuel, rest, hfuel => by
      simp only [List.length_append, List.length_cons] at hfuel
      obtain ⟨fuel, rfl⟩ : ∃ n, fuel = n + 2 := ⟨fuel - 2, by omega⟩
      rw [List.append_assoc, List.cons_append]
      obtain ⟨blank, hblank, hread⟩ :=
        h.readValue_eq fuel (',' :: (others ++ ']' :: rest)) (by omega) (by rintro c ⟨⟩; decide)
      exact readItems_next hread (hblank.skipSpace_append _) (hs.readItems_eq (fuel + 1) rest (by omega))

theorem IsMember.read_eq : ∀ {text : List Char} {member : Option String × JsonTree}, IsMember text member →
    ∀ (fuel : Nat) (rest : List Char), 2 * text.length ≤ fuel + 1 → EndsNumber rest →
      ∃ body afterKey valueText blank, AreBlank blank ∧ skipSpace (text ++ rest) = '"' :: body ∧
        readText body = some (member.1, afterKey) ∧ skipSpace afterKey = ':' :: valueText ∧
        readValue (fuel + 1) valueText = some (member.2, blank ++ rest)
  | _, _, @IsMember.pair _ keyText after valueText _ _ hbefore hkey hafter h, fuel, rest, hfuel, hrest => by
      simp only [List.length_append, List.length_cons] at hfuel
      obtain ⟨blank, hblank, hread⟩ := h.readValue_eq fuel rest (by omega) hrest
      refine ⟨keyText ++ '"' :: (after ++ ':' :: (valueText ++ rest)), _, valueText ++ rest, blank,
        hblank, ?_, hkey.readText_eq _, hafter.skipSpace_append _, hread⟩
      rw [List.append_assoc, hbefore.skipSpace_append, List.cons_append, skipSpace_cons rfl]
      simp only [List.append_assoc, List.cons_append]

theorem AreMembers.readMembers_eq : ∀ {text : List Char} {members : List (Option String × JsonTree)},
    AreMembers text members → ∀ (fuel : Nat) (rest : List Char), 2 * text.length + 2 ≤ fuel →
      readMembers fuel (text ++ '\x7d' :: rest) = some (members, rest)
  | _, _, .last h, fuel, rest, hfuel => by
      obtain ⟨fuel, rfl⟩ : ∃ n, fuel = n + 2 := ⟨fuel - 2, by omega⟩
      obtain ⟨body, afterKey, valueText, blank, hblank, htext, hkey, hcolon, hread⟩ :=
        h.read_eq fuel ('\x7d' :: rest) (by omega) (by rintro c ⟨⟩; decide)
      exact readMembers_last htext hkey hcolon hread (hblank.skipSpace_append _)
  | _, _, @AreMembers.next _ others _ _ h hs, fuel, rest, hfuel => by
      simp only [List.length_append, List.length_cons] at hfuel
      obtain ⟨fuel, rfl⟩ : ∃ n, fuel = n + 2 := ⟨fuel - 2, by omega⟩
      rw [List.append_assoc, List.cons_append]
      obtain ⟨body, afterKey, valueText, blank, hblank, htext, hkey, hcolon, hread⟩ :=
        h.read_eq fuel (',' :: (others ++ '\x7d' :: rest)) (by omega) (by rintro c ⟨⟩; decide)
      exact readMembers_next htext hkey hcolon hread (hblank.skipSpace_append _)
        (hs.readMembers_eq (fuel + 1) rest (by omega))

end

/-- A text that spells a value is read to its end, up to blanks. -/
theorem IsElement.read_eq (h : IsElement text tree) :
    ∃ blank, AreBlank blank ∧ read text = some (tree, blank) := by
  obtain ⟨blank, hblank, hread⟩ := h.readValue_eq (2 * text.length + 1) [] (by omega) (by simp [EndsNumber])
  simp only [List.append_nil] at hread
  exact ⟨blank, hblank, hread⟩

end JsonReader

end Quantities
