import Quantities.Proofs.Json.Number
import Quantities.Proofs.Json.Text

/-!
# Texts that are written and read

The text of a JSON value is read as that value, and what follows it is left over.  The fuel that a reader
needs is twice the number of characters it takes off the front of the text.
-/

namespace Quantities

namespace JsonTree

mutual

/-- Holds only decimals without trailing zeros. -/
def IsNormal : JsonTree → Prop
  | .null | .bool _ | .integer _ _ | .string _ => True
  | .real _ d => d.IsNormal
  | .array items => AreNormal items
  | .object members => HaveNormal members

def AreNormal : List JsonTree → Prop
  | [] => True
  | item :: items => item.IsNormal ∧ AreNormal items

def HaveNormal : List (Option String × JsonTree) → Prop
  | [] => True
  | (_, value) :: members => value.IsNormal ∧ HaveNormal members

end

end JsonTree

namespace JsonReader

open JsonWriter

variable {text rest : List Char} {fuel : Nat}

theorem skipSpace_cons {c : Char} (h : isSpace c = false) (text : List Char) :
    skipSpace (c :: text) = c :: text := by
  simp [skipSpace, h]

theorem skipSpace_skipSpace (text : List Char) : skipSpace (skipSpace text) = skipSpace text :=
  List.dropWhile_idempotent isSpace text

theorem isSpace_eq_false_of_isDigit {c : Char} (h : c.isDigit = true) : isSpace c = false := by
  by_contra hspace
  simp only [isSpace, Bool.not_eq_false, Bool.or_eq_true, decide_eq_true_eq] at hspace
  rcases hspace with ((rfl | rfl) | rfl) | rfl <;> simp at h

/-! ## Numbers -/

structure IsMagnitude (text : List Char) (number : Bool → JsonTree) : Prop where
  digit : ∃ c body, text = c :: body ∧ c.isDigit = true
  read_eq : ∀ negative rest, EndsNumber rest →
    readMagnitude negative (text ++ rest) = some (number negative, rest)

theorem IsDigits.exists_cons (h : IsDigits text) (rest : List Char) :
    ∃ c body, text ++ rest = c :: body ∧ c.isDigit = true := by
  obtain ⟨c, body, rfl⟩ := List.exists_cons_of_ne_nil h.1
  exact ⟨c, body ++ rest, rfl, h.2 c (by simp)⟩

theorem IsWhole.isMagnitude (h : IsWhole text) :
    IsMagnitude text (fun negative => .integer negative (Nat.ofDigitChars 10 text 0)) := by
  refine ⟨?_, fun negative rest hrest => ?_⟩
  · simpa using h.1.exists_cons []
  · have hfraction : ∀ places ∈ (none : Option (List Char)), IsDigits places := by simp
    have hread := SpellsExponent.absent.readMagnitude_eq h hfraction hrest negative
    simpa [fractionText, numberOf] using hread

theorem isMagnitude_integer (n : Nat) :
    IsMagnitude (Nat.toDigits 10 n) (fun negative => .integer negative n) := by
  simpa only [Nat.ofDigitChars_ten_toDigits] using (isWhole_toDigits n).isMagnitude

theorem Spells.isMagnitude {d : Decimal} (h : Spells text d) (hd : d.IsNormal) :
    IsMagnitude text (fun negative => .real negative d) := by
  refine ⟨?_, fun negative rest hrest => h.readMagnitude_eq hd negative hrest⟩
  obtain ⟨whole, fraction, tail, exponent, htext, -, hwhole, -⟩ := h
  rw [htext]
  exact hwhole.1.exists_cons _

theorem isMagnitude_real {d : Decimal} (hd : d.IsNormal) :
    IsMagnitude (style.layOut d) (fun negative => .real negative d) :=
  (spells_layOut hd).isMagnitude hd

theorem IsMagnitude.exists_cons {number : Bool → JsonTree} (h : IsMagnitude text number)
    (negative : Bool) :
    ∃ c body, writeSigned negative text = c :: body ∧ isSpace c = false ∧ c ≠ ']' := by
  cases negative with
  | true => exact ⟨'-', text, rfl, rfl, by decide⟩
  | false =>
      obtain ⟨c, body, htext, hc⟩ := h.digit
      exact ⟨c, body, htext, isSpace_eq_false_of_isDigit hc, fun heq => by simp [heq] at hc⟩

theorem readValue_number {c : Char} (hc : c.isDigit = true ∨ c = '-') (text : List Char) :
    readValue (fuel + 1) (c :: text) = readNumber (c :: text) := by
  have hspace : isSpace c = false := by
    rcases hc with hc | rfl
    · exact isSpace_eq_false_of_isDigit hc
    · rfl
  unfold readValue
  rw [skipSpace_cons hspace]
  split
  case h_7 => rfl
  all_goals
    next heq =>
    injection heq with heq _
    subst heq
    simp at hc

theorem IsMagnitude.readValue_eq {number : Bool → JsonTree} (h : IsMagnitude text number)
    (negative : Bool) (hrest : EndsNumber rest) :
    readValue (fuel + 1) (writeSigned negative text ++ rest) = some (number negative, rest) := by
  cases negative with
  | true =>
      rw [writeSigned, if_pos rfl, List.cons_append, readValue_number (.inr rfl)]
      exact h.read_eq true rest hrest
  | false =>
      obtain ⟨c, body, htext, hc⟩ := h.digit
      have hread := h.read_eq false rest hrest
      rw [writeSigned, if_neg (by simp)]
      rw [htext, List.cons_append] at hread ⊢
      rw [readValue_number (.inl hc), readNumber]
      · exact hread
      · intro rest' heq
        injection heq with heq _
        subst heq
        simp at hc

/-! ## Items and members -/

theorem endsNumber_writeItems (items : List JsonTree) (rest : List Char) :
    EndsNumber (writeItems items ++ rest) := by
  cases items with
  | nil =>
      rintro c ⟨⟩
      simp
  | cons item items =>
      rintro c ⟨⟩
      simp

theorem endsNumber_writeMembers (members : List (Option String × JsonTree)) (rest : List Char) :
    EndsNumber (writeMembers members ++ rest) := by
  cases members with
  | nil =>
      rintro c ⟨⟩
      simp
  | cons member members =>
      rintro c ⟨⟩
      simp

/-- A value starts with a character that is neither blank nor a closing bracket. -/
theorem exists_cons_write {tree : JsonTree} (h : tree.IsNormal) :
    ∃ c body, write tree = c :: body ∧ isSpace c = false ∧ c ≠ ']' := by
  cases tree with
  | null => exact ⟨_, _, rfl, rfl, by decide⟩
  | bool flag => cases flag <;> exact ⟨_, _, rfl, rfl, by decide⟩
  | integer negative n => exact (isMagnitude_integer n).exists_cons negative
  | real negative d => exact (isMagnitude_real h).exists_cons negative
  | string text => cases text <;> exact ⟨_, _, rfl, rfl, by decide⟩
  | array items => cases items <;> exact ⟨_, _, rfl, rfl, by decide⟩
  | object members => cases members <;> exact ⟨_, _, rfl, rfl, by decide⟩

theorem length_write_pos {tree : JsonTree} (h : tree.IsNormal) : 0 < (write tree).length := by
  obtain ⟨c, body, htext, -⟩ := exists_cons_write h
  simp [htext]

/-- Blanks in front of a value are passed over. -/
theorem readValue_skipSpace (fuel : Nat) (text : List Char) :
    readValue fuel (skipSpace text) = readValue fuel text := by
  cases fuel with
  | zero => rfl
  | succ fuel => rw [readValue, readValue, skipSpace_skipSpace]

theorem readItems_skipSpace (fuel : Nat) (text : List Char) :
    readItems fuel (skipSpace text) = readItems fuel text := by
  cases fuel with
  | zero => rfl
  | succ fuel => rw [readItems, readItems, readValue_skipSpace]

theorem readMembers_skipSpace (fuel : Nat) (text : List Char) :
    readMembers fuel (skipSpace text) = readMembers fuel text := by
  cases fuel with
  | zero => rfl
  | succ fuel => rw [readMembers, readMembers, skipSpace_skipSpace]

theorem readItems_last {item : JsonTree} {after : List Char}
    (h : readValue fuel text = some (item, after)) (hafter : skipSpace after = ']' :: rest) :
    readItems (fuel + 1) text = some ([item], rest) := by
  rw [readItems, h]
  simp only [Option.bind_eq_bind, Option.bind_some, hafter]
  rfl

theorem readItems_next {item : JsonTree} {items : List JsonTree} {after next : List Char}
    (h : readValue fuel text = some (item, after)) (hafter : skipSpace after = ',' :: next)
    (hs : readItems fuel next = some (items, rest)) :
    readItems (fuel + 1) text = some (item :: items, rest) := by
  rw [readItems, h]
  simp only [Option.bind_eq_bind, Option.bind_some, hafter, hs]
  rfl

section Member

variable {key : Option String} {value : JsonTree} {body afterKey valueText after : List Char}
  (htext : skipSpace text = '"' :: body) (hkey : readText body = some (key, afterKey))
  (hcolon : skipSpace afterKey = ':' :: valueText) (h : readValue fuel valueText = some (value, after))
include htext hkey hcolon h

theorem readMembers_last (hafter : skipSpace after = '\x7d' :: rest) :
    readMembers (fuel + 1) text = some ([(key, value)], rest) := by
  rw [readMembers, htext]
  simp only [hkey, Option.bind_eq_bind, Option.bind_some, hcolon, h, hafter]
  rfl

theorem readMembers_next {members : List (Option String × JsonTree)} {next : List Char}
    (hafter : skipSpace after = ',' :: next) (hs : readMembers fuel next = some (members, rest)) :
    readMembers (fuel + 1) text = some ((key, value) :: members, rest) := by
  rw [readMembers, htext]
  simp only [hkey, Option.bind_eq_bind, Option.bind_some, hcolon, h, hafter, hs]
  rfl

end Member

theorem readValue_array {items : List JsonTree} (hopen : (skipSpace text).head? ≠ some ']')
    (h : readItems fuel text = some (items, rest)) :
    readValue (fuel + 1) ('[' :: text) = some (.array items, rest) := by
  rw [← readItems_skipSpace] at h
  rw [readValue, skipSpace_cons rfl]
  simp only
  split
  · next heq =>
    rw [heq] at hopen
    exact absurd rfl hopen
  · rw [h]
    rfl

theorem readValue_object {members : List (Option String × JsonTree)}
    (hopen : (skipSpace text).head? ≠ some '\x7d') (h : readMembers fuel text = some (members, rest)) :
    readValue (fuel + 1) ('\x7b' :: text) = some (.object members, rest) := by
  rw [← readMembers_skipSpace] at h
  rw [readValue, skipSpace_cons rfl]
  simp only
  split
  · next heq =>
    rw [heq] at hopen
    exact absurd rfl hopen
  · rw [h]
    rfl

-- By recursion on the size of the tree.  The bracket, comma or colon next to a part pays for the two units
-- of fuel that the call for the part and the call for the rest take.
mutual

/-- The text of a value is read as the value, and what follows it is left. -/
theorem readValue_write (tree : JsonTree) (fuel : Nat) (rest : List Char) (h : tree.IsNormal)
    (hfuel : 2 * (write tree).length ≤ fuel + 1) (hrest : EndsNumber rest) :
    readValue (fuel + 1) (write tree ++ rest) = some (tree, rest) := by
  match tree with
  | .null => rfl
  | .bool true => rfl
  | .bool false => rfl
  | .integer negative n => exact (isMagnitude_integer n).readValue_eq negative hrest
  | .real negative d => exact (isMagnitude_real h).readValue_eq negative hrest
  | .string text =>
      obtain ⟨body, htext, hread⟩ := readText_writeText text
      rw [write, htext, List.cons_append, readValue, skipSpace_cons rfl]
      simp only [hread]
      rfl
  | .array [] => rfl
  | .array (item :: items) =>
      obtain ⟨hitem, hitems⟩ := h
      simp only [write, List.cons_append, List.append_assoc, List.length_cons] at hfuel ⊢
      have hread := readItems_write item items fuel rest hitem hitems (by omega)
      obtain ⟨c, body, htext, hspace, hc⟩ := exists_cons_write hitem
      rw [htext, List.cons_append] at hread ⊢
      exact readValue_array (by simpa [skipSpace_cons hspace] using hc) hread
  | .object [] => rfl
  | .object ((key, value) :: members) =>
      obtain ⟨hvalue, hmembers⟩ := h
      simp only [write, List.cons_append, List.append_assoc, List.length_cons] at hfuel ⊢
      have hread := readMembers_write key value members fuel rest hvalue hmembers (by omega)
      obtain ⟨body, htext, -⟩ := readText_writeText key
      rw [htext, List.cons_append] at hread ⊢
      have hquote : skipSpace ('"' :: (body ++ ':' :: (write value ++ (writeMembers members ++ rest)))) =
          '"' :: (body ++ ':' :: (write value ++ (writeMembers members ++ rest))) := rfl
      exact readValue_object (by simp [hquote]) hread
termination_by sizeOf tree

/-- The items of an array are read up to its closing bracket. -/
theorem readItems_write : ∀ (item : JsonTree) (items : List JsonTree) (fuel : Nat) (rest : List Char),
    item.IsNormal → JsonTree.AreNormal items → 2 * (write item ++ writeItems items).length ≤ fuel →
      readItems fuel (write item ++ (writeItems items ++ rest)) = some (item :: items, rest)
  | item, [], fuel, rest, h, _, hfuel => by
      have hpos := length_write_pos h
      simp only [List.length_append, writeItems, List.length_singleton] at hfuel
      obtain ⟨fuel, rfl⟩ : ∃ n, fuel = n + 2 := ⟨fuel - 2, by omega⟩
      have hread := readValue_write item fuel (']' :: rest) h (by omega)
        (endsNumber_writeItems [] rest)
      exact readItems_last hread rfl
  | item, next :: items, fuel, rest, h, hs, hfuel => by
      obtain ⟨hnext, hitems⟩ := hs
      have hpos := length_write_pos h
      have hends := endsNumber_writeItems (next :: items) rest
      simp only [writeItems, List.cons_append, List.append_assoc, List.length_cons,
        List.length_append] at hfuel hends ⊢
      obtain ⟨fuel, rfl⟩ : ∃ n, fuel = n + 2 := ⟨fuel - 2, by omega⟩
      have hread := readValue_write item fuel _ h (by omega) hends
      have hrest := readItems_write next items (fuel + 1) rest hnext hitems
        (by rw [List.length_append]; omega)
      exact readItems_next hread rfl hrest
termination_by item items => sizeOf item + sizeOf items + 1

/-- The members of an object are read up to its closing brace. -/
theorem readMembers_write : ∀ (key : Option String) (value : JsonTree)
    (members : List (Option String × JsonTree)) (fuel : Nat) (rest : List Char),
    value.IsNormal → JsonTree.HaveNormal members →
      2 * (writeText key ++ ':' :: (write value ++ writeMembers members)).length ≤ fuel →
        readMembers fuel (writeText key ++ ':' :: (write value ++ (writeMembers members ++ rest))) =
          some ((key, value) :: members, rest)
  | key, value, [], fuel, rest, h, _, hfuel => by
      obtain ⟨body, htext, hkey⟩ := readText_writeText key
      have hpos := length_write_pos h
      simp only [List.length_append, List.length_cons, writeMembers, List.length_nil] at hfuel
      obtain ⟨fuel, rfl⟩ : ∃ n, fuel = n + 2 := ⟨fuel - 2, by omega⟩
      have hread := readValue_write value fuel ('\x7d' :: rest) h (by omega)
        (endsNumber_writeMembers [] rest)
      rw [htext, List.cons_append]
      exact readMembers_last rfl (hkey _) rfl hread rfl
  | key, value, (nextKey, next) :: members, fuel, rest, h, hs, hfuel => by
      obtain ⟨hnext, hmembers⟩ := hs
      obtain ⟨body, htext, hkey⟩ := readText_writeText key
      have hpos := length_write_pos h
      have hends := endsNumber_writeMembers ((nextKey, next) :: members) rest
      simp only [writeMembers, List.cons_append, List.append_assoc, List.length_cons,
        List.length_append] at hfuel hends ⊢
      obtain ⟨fuel, rfl⟩ : ∃ n, fuel = n + 2 := ⟨fuel - 2, by omega⟩
      have hread := readValue_write value fuel _ h (by omega) hends
      have hrest := readMembers_write nextKey next members (fuel + 1) rest hnext hmembers
        (by simp only [List.length_append, List.length_cons]; omega)
      rw [htext, List.cons_append]
      exact readMembers_next rfl (hkey _) rfl hread rfl hrest
termination_by _ value members => sizeOf value + sizeOf members + 1

end

/-- A whole text is read back, with nothing after it. -/
theorem read_write {tree : JsonTree} (h : tree.IsNormal) : read (write tree) = some (tree, []) := by
  have hread := readValue_write tree (2 * (write tree).length + 1) [] h (by omega) (by simp [EndsNumber])
  simpa [read] using hread

end JsonReader

end Quantities
