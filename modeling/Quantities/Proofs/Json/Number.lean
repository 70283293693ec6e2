import Quantities.Json.Reader
import Quantities.Json.Writer
import Quantities.Proofs.Decimal.Normal

/-!
# Numbers that are written and read

A written number consists of a whole part, a fraction and an exponent, where one of the last two may be
missing.  The reader takes the same parts off the front of the text, and they determine the decimal.
-/

namespace Quantities

namespace JsonReader

/-! ## Digits -/

def IsDigits (text : List Char) : Prop :=
  text ≠ [] ∧ ∀ c ∈ text, c.isDigit = true

/-- Digits of a whole part: a zero in front stands alone. -/
def IsWhole (text : List Char) : Prop :=
  IsDigits text ∧ (text = ['0'] ∨ text.head? ≠ some '0')

def EndsDigits (rest : List Char) : Prop :=
  ∀ c ∈ rest.head?, c.isDigit = false

def EndsNumber (rest : List Char) : Prop :=
  ∀ c ∈ rest.head?, c.isDigit = false ∧ c ≠ '.' ∧ c ≠ 'e' ∧ c ≠ 'E'

variable {text whole places rest : List Char}

theorem EndsNumber.endsDigits (h : EndsNumber rest) : EndsDigits rest :=
  fun c hc => (h c hc).1

theorem isDigits_toDigits (n : Nat) : IsDigits (Nat.toDigits 10 n) :=
  ⟨Nat.toDigits_ne_nil, fun _ hc => Nat.isDigit_of_mem_toDigits (by omega) (by omega) hc⟩

theorem head?_toDigits_ne_zero {n : Nat} (hn : n ≠ 0) : (Nat.toDigits 10 n).head? ≠ some '0' := by
  induction n using Nat.strongRecOn with
  | ind n ih =>
      rw [Nat.toDigits_eq_if (by omega)]
      split
      · simpa using hn
      · next hlarge =>
        have hquotient := ih (n / 10) (by omega) (by omega)
        have hne : Nat.toDigits 10 (n / 10) ≠ [] := Nat.toDigits_ne_nil
        rwa [List.head?_append_of_ne_nil _ hne]

theorem isWhole_toDigits (n : Nat) : IsWhole (Nat.toDigits 10 n) := by
  refine ⟨isDigits_toDigits n, ?_⟩
  by_cases hn : n = 0
  · rw [hn, Nat.toDigits_zero]
    exact .inl rfl
  · exact .inr (head?_toDigits_ne_zero hn)

theorem readDigits_append (h : IsDigits text) (hrest : EndsDigits rest) :
    readDigits (text ++ rest) = some (text, rest) := by
  obtain ⟨hne, hdigits⟩ := h
  have htake : (text ++ rest).takeWhile Char.isDigit = text := by
    rw [List.takeWhile_append_of_pos hdigits]
    cases rest with
    | nil => simp
    | cons c rest => simp [hrest c rfl]
  have hdrop : (text ++ rest).dropWhile Char.isDigit = rest := by
    rw [List.dropWhile_append_of_pos hdigits]
    cases rest with
    | nil => simp
    | cons c rest => simp [hrest c rfl]
  unfold readDigits
  rw [htake, hdrop]
  split
  · exact absurd rfl hne
  · rfl

theorem readWhole_append (h : IsWhole whole) (hrest : EndsDigits rest) :
    readWhole (whole ++ rest) = some (whole, rest) := by
  obtain ⟨hdigits, rfl | hlead⟩ := h
  · rfl
  · obtain ⟨c, tail, rfl⟩ := List.exists_cons_of_ne_nil hdigits.1
    have hc : c ≠ '0' := by simpa using hlead
    unfold readWhole
    split
    · next heq =>
      injection heq with heq _
      exact absurd heq hc
    · exact readDigits_append hdigits hrest

/-! ## Parts -/

def fractionText : Option (List Char) → List Char
  | none => []
  | some places => '.' :: places

def exponentText : Option Int → List Char
  | none => []
  | some exponent =>
      'e' :: (if exponent < 0 then '-' else '+') :: Nat.toDigits 10 exponent.natAbs

/-- The text of an exponent in any spelling, or no text for none. -/
inductive SpellsExponent : List Char → Option Int → Prop where
  | absent : SpellsExponent [] none
  | plain {letter : Char} {digits : List Char} (hletter : letter = 'e' ∨ letter = 'E')
      (h : IsDigits digits) : SpellsExponent (letter :: digits) (some (Nat.ofDigitChars 10 digits 0))
  | plus {letter : Char} {digits : List Char} (hletter : letter = 'e' ∨ letter = 'E')
      (h : IsDigits digits) :
      SpellsExponent (letter :: '+' :: digits) (some (Nat.ofDigitChars 10 digits 0))
  | minus {letter : Char} {digits : List Char} (hletter : letter = 'e' ∨ letter = 'E')
      (h : IsDigits digits) :
      SpellsExponent (letter :: '-' :: digits) (some (-(Nat.ofDigitChars 10 digits 0 : Int)))

theorem spellsExponent_exponentText (exponent : Option Int) :
    SpellsExponent (exponentText exponent) exponent := by
  cases exponent with
  | none => exact .absent
  | some exponent =>
      have hdigits := isDigits_toDigits exponent.natAbs
      by_cases hneg : exponent < 0
      · have hspells := SpellsExponent.minus (.inl rfl) hdigits
        rw [Nat.ofDigitChars_ten_toDigits, show -(exponent.natAbs : Int) = exponent by omega] at hspells
        simpa only [exponentText, hneg, if_true] using hspells
      · have hspells := SpellsExponent.plus (.inl rfl) hdigits
        rw [Nat.ofDigitChars_ten_toDigits, show (exponent.natAbs : Int) = exponent by omega] at hspells
        simpa only [exponentText, hneg, if_false] using hspells

variable {tail : List Char} {exponent : Option Int}

theorem SpellsExponent.eq_nil_or (h : SpellsExponent tail exponent) :
    (tail = [] ∧ exponent = none) ∨
      ∃ letter rest, tail = letter :: rest ∧ (letter = 'e' ∨ letter = 'E') := by
  cases h with
  | absent => exact .inl ⟨rfl, rfl⟩
  | plain hletter | plus hletter | minus hletter => exact .inr ⟨_, _, rfl, hletter⟩

theorem SpellsExponent.endsDigits (h : SpellsExponent tail exponent) (hrest : EndsNumber rest) :
    EndsDigits (tail ++ rest) := by
  rcases h.eq_nil_or with ⟨rfl, -⟩ | ⟨letter, after, rfl, rfl | rfl⟩
  · exact hrest.endsDigits
  · rintro c ⟨⟩
    rfl
  · rintro c ⟨⟩
    rfl

theorem SpellsExponent.readFraction_eq {fraction : Option (List Char)} (h : SpellsExponent tail exponent)
    (hfraction : ∀ places ∈ fraction, IsDigits places) (hrest : EndsNumber rest) :
    readFraction (fractionText fraction ++ (tail ++ rest)) = some (fraction, tail ++ rest) := by
  cases fraction with
  | none =>
      unfold readFraction
      split
      · next heq =>
        rcases h.eq_nil_or with ⟨rfl, -⟩ | ⟨letter, after, rfl, rfl | rfl⟩
        · exact absurd rfl (hrest '.' (by rw [fractionText] at heq; simp_all)).2.1
        · cases heq
        · cases heq
      · rfl
  | some places =>
      have hread := readDigits_append (hfraction places rfl) (h.endsDigits hrest)
      simp only [fractionText, List.cons_append, readFraction, hread]
      rfl

/-- The digits of an exponent without a sign do not look like a sign. -/
theorem readSigned_digits (h : IsDigits text) (hrest : EndsDigits rest) :
    readSigned (text ++ rest) = some ((Nat.ofDigitChars 10 text 0 : Int), rest) := by
  obtain ⟨c, body, rfl⟩ := List.exists_cons_of_ne_nil h.1
  have hread := readDigits_append h hrest
  have hc : c.isDigit = true := h.2 c List.mem_cons_self
  rw [List.cons_append] at hread ⊢
  unfold readSigned
  split
  · next heq =>
    cases heq
    cases hc
  · next heq =>
    cases heq
    cases hc
  · rw [hread]
    rfl

/-- Either letter opens an exponent, and what follows is read as a signed number. -/
theorem readExponent_letter {letter : Char} (after : List Char) (hletter : letter = 'e' ∨ letter = 'E') :
    readExponent (letter :: after) = (readSigned after).map fun signed => (some signed.1, signed.2) := by
  rcases hletter with rfl | rfl
  · rfl
  · rfl

theorem SpellsExponent.readExponent_eq (h : SpellsExponent tail exponent) (hrest : EndsNumber rest) :
    readExponent (tail ++ rest) = some (exponent, rest) := by
  cases h with
  | absent =>
      unfold readExponent
      split
      · next heq => exact absurd rfl (hrest 'e' (by simp_all)).2.2.1
      · next heq => exact absurd rfl (hrest 'E' (by simp_all)).2.2.2
      · rfl
  | plain hletter h =>
      rw [List.cons_append, readExponent_letter _ hletter, readSigned_digits h hrest.endsDigits]
      rfl
  | plus hletter h =>
      rw [List.cons_append, readExponent_letter _ hletter, List.cons_append, readSigned,
        readDigits_append h hrest.endsDigits]
      rfl
  | minus hletter h =>
      rw [List.cons_append, readExponent_letter _ hletter, List.cons_append, readSigned,
        readDigits_append h hrest.endsDigits]
      rfl

/-- The parts of a number are read one after the other. -/
theorem SpellsExponent.readMagnitude_eq {fraction : Option (List Char)}
    (h : SpellsExponent tail exponent) (hwhole : IsWhole whole)
    (hfraction : ∀ places ∈ fraction, IsDigits places) (hrest : EndsNumber rest) (negative : Bool) :
    readMagnitude negative (whole ++ (fractionText fraction ++ (tail ++ rest))) =
      some (numberOf negative whole fraction exponent, rest) := by
  have hends : EndsDigits (fractionText fraction ++ (tail ++ rest)) := by
    cases fraction with
    | none => exact h.endsDigits hrest
    | some places =>
        rintro c ⟨⟩
        rfl
  simp [readMagnitude, readWhole_append hwhole hends, h.readFraction_eq hfraction hrest,
    h.readExponent_eq hrest]

/-! ## Layouts -/

/-- The text consists of parts that denote the number, at least one of them beside the whole part. -/
def Spells (text : List Char) (d : Decimal) : Prop :=
  ∃ whole fraction tail exponent,
    text = whole ++ (fractionText fraction ++ tail) ∧ SpellsExponent tail exponent ∧
    IsWhole whole ∧ (∀ places ∈ fraction, IsDigits places) ∧
    (fraction.isSome ∨ exponent.isSome) ∧
    Decimal.value ⟨Nat.ofDigitChars 10 (whole ++ fraction.getD []) 0,
      exponent.getD 0 - (fraction.getD []).length⟩ = d.value

variable {d : Decimal}

theorem Spells.readMagnitude_eq (h : Spells text d) (hd : d.IsNormal) (negative : Bool)
    (hrest : EndsNumber rest) :
    readMagnitude negative (text ++ rest) = some (.real negative d, rest) := by
  obtain ⟨whole, fraction, tail, exponent, rfl, htail, hwhole, hfraction, hsome, hvalue⟩ := h
  rw [List.append_assoc, List.append_assoc, htail.readMagnitude_eq hwhole hfraction hrest]
  have hreal : numberOf negative whole fraction exponent = .real negative d := by
    rw [← hd.normalized_eq_of_value_eq hvalue]
    cases fraction with
    | none =>
        cases exponent with
        | none => simp at hsome
        | some exponent => rfl
    | some places => rfl
  rw [hreal]

theorem isDigits_append_replicate (h : IsDigits text) (n : Nat) :
    IsDigits (text ++ List.replicate n '0') := by
  refine ⟨by simp [h.1], fun c hc => ?_⟩
  rcases List.mem_append.mp hc with hc | hc
  · exact h.2 c hc
  · rw [List.eq_of_mem_replicate hc]
    rfl

/-- A whole number, with zeros up to the decimal point and one behind it. -/
theorem spells_whole (hd : d.IsNormal) (hexp : 0 ≤ d.exponent) :
    Spells (Nat.toDigits 10 d.digits ++ List.replicate d.exponent.toNat '0' ++ ".0".toList) d := by
  refine ⟨Nat.toDigits 10 d.digits ++ List.replicate d.exponent.toNat '0', some ['0'], [], none, rfl,
    .absent, ⟨isDigits_append_replicate (isDigits_toDigits _) _, ?_⟩, ?_, .inl rfl, ?_⟩
  · -- Zero is the only normal decimal whose numeral starts with a zero, and it has no exponent.
    rcases hd with rfl | hd
    · exact .inl rfl
    · have hlead := head?_toDigits_ne_zero (n := d.digits) (by omega)
      have hne : Nat.toDigits 10 d.digits ≠ [] := Nat.toDigits_ne_nil
      rw [List.head?_append_of_ne_nil _ hne]
      exact .inr hlead
  · rintro places ⟨⟩
    exact ⟨by simp, by simp⟩
  · have hdigits : Nat.ofDigitChars 10
        (Nat.toDigits 10 d.digits ++ List.replicate d.exponent.toNat '0' ++ ['0']) 0 =
          10 * (10 ^ d.exponent.toNat * d.digits) := by
      rw [Nat.ofDigitChars_append, Nat.ofDigitChars_append, Nat.ofDigitChars_ten_toDigits,
        Nat.ofDigitChars_replicate_zero]
      simp [Nat.ofDigitChars_cons]
    have hten : ((10 ^ d.exponent.toNat : Nat) : ℚ) = 10 ^ d.exponent := cast_pow_toNat 10 hexp
    simp only [Option.getD_some, Option.getD_none, hdigits, Decimal.value, Nat.cast_mul, hten]
    norm_num
    ring

/-- A decimal point between the digits. -/
theorem spells_between {places : Nat} (hd : d.IsNormal) (hexp : d.exponent = -places)
    (hpos : 0 < places) (hlt : places < (Nat.toDigits 10 d.digits).length) :
    Spells ((Nat.toDigits 10 d.digits).take ((Nat.toDigits 10 d.digits).length - places) ++
      '.' :: (Nat.toDigits 10 d.digits).drop ((Nat.toDigits 10 d.digits).length - places)) d := by
  have hne : d.digits ≠ 0 := by
    intro hzero
    rcases hd with rfl | hd
    · simp only at hexp
      omega
    · omega
  obtain ⟨-, hdigits⟩ := isDigits_toDigits d.digits
  have hlead := head?_toDigits_ne_zero hne
  have hnumber : Nat.ofDigitChars 10 (Nat.toDigits 10 d.digits) 0 = d.digits :=
    Nat.ofDigitChars_ten_toDigits
  -- The digits are cut in two, so only what they share with any numeral is kept from here on.
  generalize Nat.toDigits 10 d.digits = digits at *
  refine ⟨digits.take (digits.length - places), some (digits.drop (digits.length - places)), [],
    none, by simp [fractionText], .absent, ⟨⟨?_, fun c hc => hdigits c (List.mem_of_mem_take hc)⟩, ?_⟩,
    ?_, .inl rfl, ?_⟩
  · intro hnil
    have hlength := congrArg List.length hnil
    simp only [List.length_take, List.length_nil] at hlength
    omega
  · refine .inr ?_
    rwa [List.head?_take, if_neg (by omega)]
  · rintro places' ⟨⟩
    refine ⟨fun hnil => ?_, fun c hc => hdigits c (List.mem_of_mem_drop hc)⟩
    have hlength := congrArg List.length hnil
    simp only [List.length_drop, List.length_nil] at hlength
    omega
  · simp only [Option.getD_some, Option.getD_none, List.take_append_drop, hnumber,
      List.length_drop, Decimal.value, hexp]
    congr 2
    omega

/-- A decimal point in front of the digits. -/
theorem spells_below {places : Nat} (hexp : d.exponent = -places)
    (hle : (Nat.toDigits 10 d.digits).length ≤ places) :
    Spells ('0' :: '.' :: List.replicate (places - (Nat.toDigits 10 d.digits).length) '0' ++
      Nat.toDigits 10 d.digits) d := by
  obtain ⟨hne, hdigits⟩ := isDigits_toDigits d.digits
  refine ⟨['0'], some (List.replicate (places - (Nat.toDigits 10 d.digits).length) '0' ++
    Nat.toDigits 10 d.digits), [], none, by simp [fractionText], .absent,
    ⟨⟨by simp, by simp⟩, .inl rfl⟩, ?_, .inl rfl, ?_⟩
  · rintro places' ⟨⟩
    refine ⟨by simp [hne], fun c hc => ?_⟩
    rcases List.mem_append.mp hc with hc | hc
    · rw [List.eq_of_mem_replicate hc]
      rfl
    · exact hdigits c hc
  · have hnumber : Nat.ofDigitChars 10 (['0'] ++ (List.replicate
        (places - (Nat.toDigits 10 d.digits).length) '0' ++ Nat.toDigits 10 d.digits)) 0 =
          d.digits := by
      rw [Nat.ofDigitChars_append, Nat.ofDigitChars_append, Nat.ofDigitChars_replicate_zero]
      simp [Nat.ofDigitChars_cons]
    simp only [Option.getD_some, Option.getD_none, hnumber, List.length_append,
      List.length_replicate, Decimal.value, hexp]
    congr 2
    omega

theorem spells_positional (hd : d.IsNormal) : Spells (d.positional ".0") d := by
  unfold Decimal.positional
  split
  · next hexp => exact spells_whole hd hexp
  · next hexp =>
    have hplaces : d.exponent = -((-d.exponent).toNat : Int) := by omega
    simp only
    split
    · next hlt => exact spells_between hd hplaces (by omega) hlt
    · next hle => exact spells_below hplaces (by omega)

theorem spells_scientific (d : Decimal) : Spells d.scientific d := by
  have horder : d.order = d.exponent + (Nat.toDigits 10 d.digits).length - 1 := rfl
  have hexponent : 'e' :: (if d.order < 0 then '-' else '+') :: Nat.toDigits 10 d.order.natAbs =
      exponentText (some d.order) := rfl
  obtain ⟨hwhole, hlead⟩ := isWhole_toDigits d.digits
  have hnumber : Nat.ofDigitChars 10 (Nat.toDigits 10 d.digits) 0 = d.digits :=
    Nat.ofDigitChars_ten_toDigits
  unfold Decimal.scientific
  simp only [hexponent]
  generalize Nat.toDigits 10 d.digits = digits at *
  split
  · next lead second rest =>
    obtain ⟨-, hdigits⟩ := hwhole
    refine ⟨[lead], some (second :: rest), exponentText (some d.order), some d.order, rfl,
      spellsExponent_exponentText _, ⟨⟨by simp, ?_⟩, ?_⟩, ?_, .inl rfl, ?_⟩
    · simpa using hdigits lead (by simp)
    · exact .inr (by simpa using hlead)
    · rintro places ⟨⟩
      exact ⟨by simp, fun c hc => hdigits c (List.mem_cons_of_mem _ hc)⟩
    · simp only [Option.getD_some, List.singleton_append, hnumber, Decimal.value, horder,
        List.length_cons]
      congr 2
      push_cast
      omega
  · next hshort =>
    have hlength : digits.length = 1 := by
      obtain ⟨lead, tail, rfl⟩ := List.exists_cons_of_ne_nil hwhole.1
      cases tail with
      | nil => rfl
      | cons second rest => exact absurd rfl (hshort lead second rest)
    refine ⟨digits, none, exponentText (some d.order), some d.order, rfl,
      spellsExponent_exponentText _, ⟨hwhole, hlead⟩, by simp, .inr rfl, ?_⟩
    simp only [Option.getD_some, Option.getD_none, List.append_nil, hnumber, Decimal.value, horder,
      hlength, List.length_nil]
    congr 2
    omega

theorem spells_layOut (hd : d.IsNormal) : Spells (JsonWriter.style.layOut d) d := by
  unfold NumberStyle.layOut
  split
  · exact spells_positional hd
  · exact spells_scientific d

end JsonReader

end Quantities
