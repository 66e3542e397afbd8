import Settings.Proofs.Numerals
import Settings.Scalar

/-! # What a scalar text stands for

A text is a floating-point number if it is the name of one or has a decimal form. No numeral is a
truth word, so that a text read as a scalar is an integer exactly when it is an integer numeral.
-/

namespace Settings

namespace Text

variable {p : Char → Bool} {cs front rest : List Char} {c : Char}

theorem forall_or_first (p : Char → Bool) (cs : List Char) : (∀ c ∈ cs, p c = true) ∨
    ∃ front c rest, cs = front ++ c :: rest ∧ (∀ c ∈ front, p c = true) ∧ p c = false := by
  cases h : cs.dropWhile p with
  | nil => exact .inl (List.dropWhile_eq_nil_iff.1 h)
  | cons c rest =>
    obtain ⟨⟨front, hcs, hfront⟩, hc⟩ := dropWhile_eq_iff.1 h
    exact .inr ⟨front, c, rest, hcs, hfront, hc c rfl⟩

theorem takeWhile_append_cons (hfront : ∀ c ∈ front, p c = true) (hc : p c = false) :
    (front ++ c :: rest).takeWhile p = front := by
  rw [List.takeWhile_append_of_pos hfront, List.takeWhile_cons_of_neg (by simp [hc]),
    List.append_nil]

theorem dropWhile_append_cons (hfront : ∀ c ∈ front, p c = true) (hc : p c = false) :
    (front ++ c :: rest).dropWhile p = c :: rest :=
  dropWhile_eq_iff.2 ⟨⟨front, rfl, hfront⟩, by simpa using hc⟩

end Text

namespace Decimal

open Text

variable {cs fraction body sign : List Char} {c : Char} {digits digits' : List Nat} {shift : Int}
  {negative : Bool} {x : Float}

/-- Digits with at most one point before, after or between them, and the power of ten that the
digits are to be multiplied by. -/
inductive Mantissa : List Char → List Nat → Int → Prop
  | whole {cs : List Char} {digits : List Nat} (group : DigitGroup cs digits) :
      Mantissa cs digits 0
  | pointed {cs : List Char} {digits : List Nat} (group : DigitGroup cs digits) :
      Mantissa (cs ++ ['.']) digits 0
  | fraction {cs : List Char} {digits : List Nat} (group : DigitGroup cs digits) :
      Mantissa ('.' :: cs) digits (-(digits.length : Int))
  | mixed {cs fraction : List Char} {digits digits' : List Nat} (group : DigitGroup cs digits)
      (group' : DigitGroup fraction digits') :
      Mantissa (cs ++ '.' :: fraction) (digits ++ digits') (-(digits'.length : Int))

theorem DigitGroup.not_mem (h : DigitGroup cs digits) (hvalue : decimalValue? c = none)
    (hline : c ≠ '_') : c ∉ cs := by
  intro hc
  rcases h.of_mem hc with hsome | heq
  · simp [hvalue] at hsome
  · exact hline heq

theorem DigitGroup.isEmpty (h : DigitGroup cs digits) : cs.isEmpty = false := by
  cases h <;> rfl

theorem DigitGroup.not_point (h : DigitGroup cs digits) : ∀ c ∈ cs, decide (c ≠ '.') = true :=
  fun _ hc => decide_eq_true (ne_of_mem_of_not_mem hc (h.not_mem (by decide +kernel) (by decide)))

theorem readMantissa?_of_not_point (h : ∀ c ∈ cs, decide (c ≠ '.') = true) :
    readMantissa? cs = (digitGroup? cs).map (·, 0) := by
  simp only [readMantissa?, List.takeWhile_eq_self_iff.2 h, List.dropWhile_eq_nil_iff.2 h]

theorem readMantissa?_of_point (h : ∀ c ∈ cs, decide (c ≠ '.') = true) :
    readMantissa? (cs ++ '.' :: fraction) =
      if cs.isEmpty then (digitGroup? fraction).map fun ds => (ds, -(ds.length : Int))
      else if fraction.isEmpty then (digitGroup? cs).map (·, 0)
      else do
        let ds ← digitGroup? cs
        let fs ← digitGroup? fraction
        return (ds ++ fs, -(fs.length : Int)) := by
  simp only [readMantissa?, takeWhile_append_cons h (by decide : decide ('.' ≠ '.') = false),
    dropWhile_append_cons h (by decide : decide ('.' ≠ '.') = false)]

theorem readMantissa?_eq_some_iff :
    readMantissa? cs = some (digits, shift) ↔ Mantissa cs digits shift := by
  constructor
  · intro h
    rcases forall_or_first (· ≠ '.') cs with hnone | ⟨whole, c, fraction, rfl, hwhole, hc⟩
    · rw [readMantissa?_of_not_point hnone, Option.map_eq_some_iff] at h
      obtain ⟨_, hdigits, heq⟩ := h
      cases heq
      exact .whole (digitGroup?_eq_some_iff.1 hdigits)
    · obtain rfl : c = '.' := by simpa using hc
      rw [readMantissa?_of_point hwhole] at h
      split at h
      · rename_i hempty
        rw [List.isEmpty_iff.1 hempty, List.nil_append]
        obtain ⟨_, hdigits, heq⟩ := Option.map_eq_some_iff.1 h
        cases heq
        exact .fraction (digitGroup?_eq_some_iff.1 hdigits)
      · split at h
        · rename_i hempty
          rw [List.isEmpty_iff.1 hempty]
          obtain ⟨_, hdigits, heq⟩ := Option.map_eq_some_iff.1 h
          cases heq
          exact .pointed (digitGroup?_eq_some_iff.1 hdigits)
        · obtain ⟨_, hdigits, h⟩ := Option.bind_eq_some_iff.1 h
          obtain ⟨_, hdigits', heq⟩ := Option.bind_eq_some_iff.1 h
          cases heq
          exact .mixed (digitGroup?_eq_some_iff.1 hdigits) (digitGroup?_eq_some_iff.1 hdigits')
  · intro h
    cases h with
    | whole hgroup =>
      rw [readMantissa?_of_not_point hgroup.not_point, digitGroup?_eq_some_iff.2 hgroup]
      rfl
    | pointed hgroup =>
      rw [readMantissa?_of_point hgroup.not_point, hgroup.isEmpty, digitGroup?_eq_some_iff.2 hgroup]
      rfl
    | fraction hgroup =>
      rw [← List.nil_append ('.' :: _), readMantissa?_of_point (by simp),
        digitGroup?_eq_some_iff.2 hgroup]
      rfl
    | mixed hgroup hgroup' =>
      rw [readMantissa?_of_point hgroup.not_point, hgroup.isEmpty, hgroup'.isEmpty,
        digitGroup?_eq_some_iff.2 hgroup, digitGroup?_eq_some_iff.2 hgroup']
      rfl

/-- A mantissa, perhaps with a mark and a power of ten behind it, and the nearest double. -/
inductive DecimalNumeral : List Char → Float → Prop
  | plain {cs : List Char} {digits : List Nat} {shift : Int} (mantissa : Mantissa cs digits shift) :
      DecimalNumeral cs (nearest digits shift)
  | scaled {cs sign body : List Char} {digits power : List Nat} {shift : Int} {mark : Char}
      {negative : Bool} (mantissa : Mantissa cs digits shift) (marked : isPowerMark mark = true)
      (signed : LeadingSign sign negative) (group : DigitGroup body power) :
      DecimalNumeral (cs ++ mark :: (sign ++ body))
        (nearest digits (shift + if negative then -(ofDigits power : Int) else ofDigits power))

theorem Mantissa.not_mem (h : Mantissa cs digits shift) (hvalue : decimalValue? c = none)
    (hline : c ≠ '_') (hpoint : c ≠ '.') : c ∉ cs := by
  cases h with
  | whole h => exact h.not_mem hvalue hline
  | pointed h => simp [h.not_mem hvalue hline, hpoint]
  | fraction h => simp [h.not_mem hvalue hline, hpoint]
  | mixed h h' => simp [h.not_mem hvalue hline, h'.not_mem hvalue hline, hpoint]

theorem Mantissa.not_power (h : Mantissa cs digits shift) : ∀ c ∈ cs, (!isPowerMark c) = true := by
  intro c hc
  have hsmall : 'e' ∉ cs := h.not_mem (by decide +kernel) (by decide) (by decide)
  have hcapital : 'E' ∉ cs := h.not_mem (by decide +kernel) (by decide) (by decide)
  simp [isPowerMark, ne_of_mem_of_not_mem hc hsmall, ne_of_mem_of_not_mem hc hcapital]

theorem readDecimal?_eq_some_iff : readDecimal? cs = some x ↔ DecimalNumeral cs x := by
  constructor
  · intro h
    rcases forall_or_first (!isPowerMark ·) cs with hnone | ⟨front, mark, rest, rfl, hnone, hmark⟩
    · simp only [readDecimal?, List.takeWhile_eq_self_iff.2 hnone,
        List.dropWhile_eq_nil_iff.2 hnone] at h
      obtain ⟨_, hmantissa, heq⟩ := Option.bind_eq_some_iff.1 h
      cases heq
      exact .plain (readMantissa?_eq_some_iff.1 hmantissa)
    · simp only [readDecimal?, takeWhile_append_cons hnone hmark,
        dropWhile_append_cons hnone hmark] at h
      obtain ⟨_, hmantissa, h⟩ := Option.bind_eq_some_iff.1 h
      obtain ⟨_, hpower, heq⟩ := Option.bind_eq_some_iff.1 h
      cases heq
      obtain ⟨sign, hsign, hrest⟩ := exists_sign rest
      have hscaled := DecimalNumeral.scaled (readMantissa?_eq_some_iff.1 hmantissa)
        (by simpa using hmark) hsign (digitGroup?_eq_some_iff.1 hpower)
      rwa [hrest] at hscaled
  · intro h
    cases h with
    | plain hmantissa =>
      have hnone := hmantissa.not_power
      simp only [readDecimal?, List.takeWhile_eq_self_iff.2 hnone,
        List.dropWhile_eq_nil_iff.2 hnone, readMantissa?_eq_some_iff.2 hmantissa]
      rfl
    | scaled hmantissa hmarked hsign hgroup =>
      have hnone := hmantissa.not_power
      simp only [readDecimal?, takeWhile_append_cons hnone (by simpa using hmarked),
        dropWhile_append_cons hnone (by simpa using hmarked),
        readMantissa?_eq_some_iff.2 hmantissa, hgroup.splitSign_append hsign,
        digitGroup?_eq_some_iff.2 hgroup]
      rfl

theorem toLower_of_isSome (h : (decimalValue? c).isSome = true) : c.toLower = c := by
  refine dif_neg fun hupper => ?_
  have hletters : ∀ n ∈ List.range' 65 26, decimalValue? (Char.ofNat n) = none := by
    decide +kernel
  rw [← Char.ofNat_toNat c, hletters c.toNat] at h
  · cases h
  · rw [List.mem_range'_1]
    exact ⟨hupper.1, Nat.lt_succ_of_le hupper.2⟩

theorem Mantissa.exists_cons (h : Mantissa cs digits shift) :
    ∃ c rest, cs = c :: rest ∧ ((decimalValue? c).isSome = true ∨ c = '.') := by
  have hgroup {cs rest : List Char} {digits : List Nat} (h : DigitGroup cs digits) :
      ∃ c more, cs ++ rest = c :: more ∧ ((decimalValue? c).isSome = true ∨ c = '.') := by
    obtain ⟨c, hc, hvalue⟩ := h.head
    obtain ⟨more, rfl⟩ := List.head?_eq_some_iff.1 hc
    exact ⟨c, more ++ rest, rfl, .inl hvalue⟩
  cases h with
  | whole h => exact List.append_nil cs ▸ hgroup h
  | pointed h => exact hgroup h
  | fraction h => exact ⟨'.', _, rfl, .inr rfl⟩
  | mixed h => exact hgroup h

theorem DecimalNumeral.exists_cons (h : DecimalNumeral cs x) :
    ∃ c rest, cs = c :: rest ∧ ((decimalValue? c).isSome = true ∨ c = '.') := by
  cases h with
  | plain h => exact h.exists_cons
  | scaled h =>
    obtain ⟨c, rest, rfl, hc⟩ := h.exists_cons
    exact ⟨c, _, rfl, hc⟩

theorem DecimalNumeral.not_mem_head? (h : DecimalNumeral cs x) (hvalue : decimalValue? c = none)
    (hpoint : c ≠ '.') : c ∉ (cs.map Char.toLower).head? := by
  obtain ⟨d, rest, rfl, hd⟩ := h.exists_cons
  have hlower : d.toLower = d := hd.elim toLower_of_isSome fun heq => by rw [heq]; rfl
  rw [List.map_cons, hlower, List.head?_cons]
  rintro ⟨⟩
  rcases hd with hd | hd
  · simp [hvalue] at hd
  · exact hpoint hd

theorem Mantissa.exists_digit (h : Mantissa cs digits shift) :
    ∃ c ∈ cs, (decimalValue? c).isSome = true := by
  cases h with
  | whole h | pointed h | fraction h | mixed h =>
    obtain ⟨c, hc, hvalue⟩ := h.head
    exact ⟨c, by simp [List.mem_of_head? hc], hvalue⟩

theorem DecimalNumeral.exists_digit (h : DecimalNumeral cs x) :
    ∃ c ∈ cs, (decimalValue? c).isSome = true := by
  cases h with
  | plain h => exact h.exists_digit
  | scaled h =>
    obtain ⟨c, hc, hvalue⟩ := h.exists_digit
    exact ⟨c, List.mem_append_left _ hc, hvalue⟩

inductive Magnitude (cs : List Char) : Float → Prop
  | infinite (word : cs.map Char.toLower = "inf".toList ∨
      cs.map Char.toLower = "infinity".toList) : Magnitude cs infinity
  | undefined (word : cs.map Char.toLower = "nan".toList) : Magnitude cs notANumber
  | decimal {x : Float} (numeral : DecimalNumeral cs x) : Magnitude cs x

theorem Magnitude.unsigned (h : Magnitude cs x) (hc : c = '-' ∨ c = '+') : c ∉ cs.head? := by
  intro hmem
  have hlower : c.toLower ∈ (cs.map Char.toLower).head? := by
    rw [List.head?_map]
    exact Option.mem_map_of_mem _ hmem
  have hsign : c.toLower = '-' ∨ c.toLower = '+' := hc.imp (congrArg _) (congrArg _)
  revert hlower
  generalize c.toLower = d at hsign
  cases h with
  | infinite hword =>
    rcases hword with hword | hword <;> rcases hsign with rfl | rfl <;> simp [hword]
  | undefined hword => rcases hsign with rfl | rfl <;> simp [hword]
  | decimal hnumeral =>
    rcases hsign with rfl | rfl
    · exact hnumeral.not_mem_head? (by decide +kernel) (by decide)
    · exact hnumeral.not_mem_head? (by decide +kernel) (by decide)

inductive FloatNumeral (cs : List Char) : Float → Prop
  | mk {sign body : List Char} {negative : Bool} {x : Float}
      (trims : Trims isNumeralBlank cs (sign ++ body)) (signed : LeadingSign sign negative)
      (magnitude : Magnitude body x) : FloatNumeral cs (if negative then -x else x)

theorem readFloat?_eq_some_iff : readFloat? cs = some x ↔ FloatNumeral cs x := by
  constructor
  · intro h
    obtain ⟨sign, hsign, htrims⟩ := exists_sign (trimBoth isNumeralBlank cs)
    simp only [readFloat?, Option.map_eq_some_iff] at h
    obtain ⟨y, hmagnitude, rfl⟩ := h
    refine .mk (trimBoth_eq_iff.1 htrims.symm) hsign ?_
    generalize (splitSign (trimBoth isNumeralBlank cs)).2 = body at hmagnitude
    split at hmagnitude
    · rename_i hword
      rw [← Option.some.inj hmagnitude]
      rw [Bool.or_eq_true, decide_eq_true_eq, decide_eq_true_eq] at hword
      exact .infinite hword
    · split at hmagnitude
      · rename_i hword
        rw [← Option.some.inj hmagnitude]
        exact .undefined hword
      · exact .decimal (readDecimal?_eq_some_iff.1 hmagnitude)
  · rintro ⟨htrims, hsign, hmagnitude⟩
    simp only [readFloat?, trimBoth_eq_iff.2 htrims, hsign.splitSign_append
      (hmagnitude.unsigned (.inl rfl)) (hmagnitude.unsigned (.inr rfl)),
      Option.map_eq_some_iff]
    refine ⟨_, ?_, rfl⟩
    cases hmagnitude with
    | infinite hword =>
      rw [if_pos]
      rw [Bool.or_eq_true, decide_eq_true_eq, decide_eq_true_eq]
      exact hword
    | undefined hword =>
      rw [if_neg, if_pos hword]
      rw [hword]
      decide
    | decimal hnumeral =>
      have hi := hnumeral.not_mem_head? (c := 'i') (by decide +kernel) (by decide)
      have hn := hnumeral.not_mem_head? (c := 'n') (by decide +kernel) (by decide)
      rw [if_neg, if_neg, readDecimal?_eq_some_iff.2 hnumeral]
      · intro hword
        exact hn (by rw [hword]; rfl)
      · rw [Bool.or_eq_true, decide_eq_true_eq, decide_eq_true_eq]
        rintro (hword | hword)
        · exact hi (by rw [hword]; rfl)
        · exact hi (by rw [hword]; rfl)

end Decimal

section Words

open Text Decimal

variable {raw : String} {b : Bool} {n : Int} {x : Float} {c : Char}

def truthWords (b : Bool) : List String := if b then trueWords else falseWords

theorem readBool?_eq_some_iff : readBool? raw = some b ↔
    ∃ word ∈ truthWords b, ∃ mid, Trims isBlank raw.toList mid ∧
      mid.map Char.toLower = word.toList := by
  have hword (word : String) : (∃ mid, Trims isBlank raw.toList mid ∧
      mid.map Char.toLower = word.toList) ↔
        String.ofList ((trimBoth isBlank raw.toList).map Char.toLower) = word := by
    simp only [← trimBoth_eq_iff, exists_eq_left']
    rw [← String.ofList_inj, String.ofList_toList]
  have hapart : ∀ word ∈ falseWords, word ∉ trueWords := by decide
  simp only [hword, exists_eq_right', readBool?, List.contains_iff_mem]
  cases b <;> grind [truthWords]

theorem toLower_of_isBlank (h : isBlank c = true) : c.toLower = c := by
  refine dif_neg fun hupper => ?_
  have hfirst : 65 ≤ c.toNat := hupper.1
  have hlast : c.toNat ≤ 90 := hupper.2
  simp only [isBlank, Bool.or_eq_true, Bool.and_eq_true, decide_eq_true_eq, beq_iff_eq] at h
  omega

/-- Letter case aside, whatever is no blank in a text is in the truth word that the text is. -/
theorem mem_of_readBool? (h : readBool? raw = some b) :
    ∃ word ∈ trueWords ++ falseWords, ∀ c ∈ raw.toList.map Char.toLower, isBlank c = false →
      c ∈ word.toList := by
  obtain ⟨word, hword, mid, htrims, heq⟩ := readBool?_eq_some_iff.1 h
  refine ⟨word, ?_, fun c hc hblank => ?_⟩
  · cases b with
    | false => exact List.mem_append_right _ hword
    | true => exact List.mem_append_left _ hword
  · obtain ⟨c, hmem, rfl⟩ := List.mem_map.1 hc
    rw [← heq]
    refine List.mem_map_of_mem (htrims.mem hmem ?_)
    by_contra hc
    rw [Bool.not_eq_false] at hc
    rw [toLower_of_isBlank hc, hc] at hblank
    cases hblank

theorem not_readBool?_of_digit (hc : c ∈ raw.toList) (hvalue : (decimalValue? c).isSome = true) :
    readBool? raw ≠ some b := by
  intro h
  obtain ⟨word, hword, hmem⟩ := mem_of_readBool? h
  have hletters : ((trueWords ++ falseWords).all fun word =>
      word.toList.all fun c => (decimalValue? c).isNone) = true := by
    decide +kernel
  have hlower := List.mem_map_of_mem (f := Char.toLower) hc
  rw [toLower_of_isSome hvalue] at hlower
  have hblank : isBlank c = false := isBlank_of_isDigitLike (by simp [isDigitLike, hvalue])
  have hnone := List.all_eq_true.1 (List.all_eq_true.1 hletters word hword) c
    (hmem c hlower hblank)
  rw [Option.isNone_iff_eq_none] at hnone
  simp [hnone] at hvalue

theorem Decimal.IntegerNumeral.not_readBool? (h : IntegerNumeral raw.toList n) :
    readBool? raw ≠ some b := by
  obtain ⟨htrims, -, hgroup, -⟩ := h
  obtain ⟨c, hc, hvalue⟩ := hgroup.head
  exact not_readBool?_of_digit (htrims.of_mem (List.mem_append_right _ (List.mem_of_head? hc)))
    hvalue

theorem Decimal.FloatNumeral.not_readBool? (h : FloatNumeral raw.toList x) :
    readBool? raw ≠ some b := by
  obtain @⟨sign, body, negative, x, htrims, -, hmagnitude⟩ := h
  have hbody : body ⊆ raw.toList := fun c hc => htrims.of_mem (List.mem_append_right _ hc)
  intro h
  obtain ⟨word, hword, hmem⟩ := mem_of_readBool? h
  have hlower (c : Char) (hc : c ∈ body.map Char.toLower) (hblank : isBlank c = false) :
      c ∈ word.toList :=
    hmem c (List.map_subset _ hbody hc) hblank
  cases hmagnitude with
  | infinite hname =>
    have hnot : ∀ word ∈ trueWords ++ falseWords, 'i' ∉ word.toList := by decide
    refine hnot word hword (hlower 'i' ?_ (by decide))
    rcases hname with hname | hname <;> simp [hname]
  | undefined hname =>
    have hnot : ∀ word ∈ trueWords ++ falseWords, 'a' ∈ word.toList → 'n' ∉ word.toList := by
      decide
    exact hnot word hword (hlower 'a' (by simp [hname]) (by decide))
      (hlower 'n' (by simp [hname]) (by decide))
  | decimal hnumeral =>
    obtain ⟨c, hc, hvalue⟩ := hnumeral.exists_digit
    exact not_readBool?_of_digit (hbody hc) hvalue h

theorem readScalar_eq_bool_iff : readScalar raw = .bool b ↔ readBool? raw = some b := by
  cases hbool : readBool? raw <;> grind [readScalar]

theorem readScalar_eq_int_iff : readScalar raw = .int n ↔ IntegerNumeral raw.toList n := by
  have hbool (h : readInteger raw.toList = .ok n) (b : Bool) : readBool? raw ≠ some b :=
    (readInteger_eq_ok_iff.1 h).not_readBool?
  rw [← readInteger_eq_ok_iff]
  grind [readScalar]

example : readScalar "  -1_000 " = .int (-1000) := rfl

theorem readScalar_eq_float_iff : readScalar raw = .float x ↔
    FloatNumeral raw.toList x ∧ ∀ n, ¬ IntegerNumeral raw.toList n := by
  have hbool (h : readFloat? raw.toList = some x) (b : Bool) : readBool? raw ≠ some b :=
    (readFloat?_eq_some_iff.1 h).not_readBool?
  simp only [← readFloat?_eq_some_iff, ← readInteger_eq_ok_iff]
  grind [readScalar]

theorem readScalar_eq_str_iff {s : String} : readScalar raw = .str s ↔ s = raw ∧
    (∀ b, readBool? raw ≠ some b) ∧ (∀ n, ¬ IntegerNumeral raw.toList n) ∧
      ∀ x, ¬ FloatNumeral raw.toList x := by
  simp only [← readFloat?_eq_some_iff, ← readInteger_eq_ok_iff]
  grind [readScalar]

end Words

end Settings
