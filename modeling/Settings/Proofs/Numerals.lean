import Mathlib.Data.List.TakeWhile
import Settings.Decimal.Numeral

/-! # Reading numerals

Between the blanks at its ends a text is read as a numeral by its form. The digits that a natural
number is written with are read as this number, as long as there are no more of them than a
numeral may have. Some characters look like digits and have no value: with one of them there is
no numeral at all.
-/

namespace Settings

namespace Text

variable {p : Char → Bool} {cs mid : List Char} {c : Char} {s t : String}

theorem dropWhile_eq_iff : cs.dropWhile p = mid ↔
    (∃ front, cs = front ++ mid ∧ ∀ c ∈ front, p c = true) ∧ ∀ c ∈ mid.head?, p c = false := by
  constructor
  · rintro rfl
    refine ⟨⟨cs.takeWhile p, List.takeWhile_append_dropWhile.symm,
      fun c => List.mem_takeWhile_imp⟩, fun c hc => ?_⟩
    have hnot := List.head?_dropWhile_not p cs
    rw [Option.mem_def.1 hc] at hnot
    exact hnot
  · rintro ⟨⟨front, rfl, hfront⟩, hhead⟩
    rw [List.dropWhile_append_of_pos hfront]
    cases mid with
    | nil => rfl
    | cons c mid => exact List.dropWhile_cons_of_neg (by simp [hhead c rfl])

/-- Between characters of a class stands a text with no such character at its ends. -/
structure Trims (p : Char → Bool) (cs mid : List Char) : Prop where
  between : ∃ front back, cs = front ++ mid ++ back ∧ (∀ c ∈ front, p c = true) ∧
    ∀ c ∈ back, p c = true
  head : ∀ c ∈ mid.head?, p c = false
  last : ∀ c ∈ mid.getLast?, p c = false

theorem Trims.mem (h : Trims p cs mid) (hc : c ∈ cs) (hp : p c = false) : c ∈ mid := by
  obtain ⟨⟨front, back, rfl, hfront, hback⟩, -, -⟩ := h
  simp only [List.mem_append] at hc
  rcases hc with (hc | hc) | hc
  · simp [hfront c hc] at hp
  · exact hc
  · simp [hback c hc] at hp

theorem Trims.of_mem (h : Trims p cs mid) (hc : c ∈ mid) : c ∈ cs := by
  obtain ⟨⟨front, back, rfl, -, -⟩, -, -⟩ := h
  exact List.mem_append_left _ (List.mem_append_right _ hc)

theorem Trims.of_forall (h : ∀ c ∈ cs, p c = false) : Trims p cs cs :=
  ⟨⟨[], [], by simp, by simp, by simp⟩, fun c hc => h c (List.mem_of_head? hc),
    fun c hc => h c (List.mem_of_getLast? hc)⟩

theorem trimBoth_eq_iff : trimBoth p cs = mid ↔ Trims p cs mid := by
  rw [trimBoth, List.reverse_eq_iff, dropWhile_eq_iff, List.head?_reverse]
  constructor
  · rintro ⟨⟨back, heq, hback⟩, hlast⟩
    rw [List.reverse_eq_iff, List.reverse_append, List.reverse_reverse, dropWhile_eq_iff] at heq
    obtain ⟨⟨front, rfl, hfront⟩, hhead⟩ := heq
    refine ⟨⟨front, back.reverse, (List.append_assoc ..).symm, hfront, by simpa using hback⟩,
      fun c hc => hhead c ?_, hlast⟩
    rw [List.head?_append, Option.mem_def.1 hc]
    rfl
  · rintro ⟨⟨front, back, rfl, hfront, hback⟩, hhead, hlast⟩
    refine ⟨?_, hlast⟩
    rw [List.append_assoc, List.dropWhile_append_of_pos hfront]
    cases mid with
    | nil => exact ⟨[], by simpa using hback, by simp⟩
    | cons c mid =>
      rw [List.cons_append, List.dropWhile_cons_of_neg (by simp [hhead c rfl])]
      exact ⟨back.reverse, by simp, by simpa using hback⟩

theorem strip_eq_iff : strip s = t ↔ Trims isBlank s.toList t.toList := by
  rw [strip, ← trimBoth_eq_iff, ← String.ofList_inj, String.ofList_toList]

end Text

namespace Decimal

open Text

variable {cs body sign : List Char} {c : Char} {digits : List Nat} {n d : Nat} {negative : Bool}

/-- Digits with their values, where single underscores may stand between two digits. -/
inductive DigitGroup : List Char → List Nat → Prop
  | single {c : Char} {d : Nat} (value : decimalValue? c = some d) : DigitGroup [c] [d]
  | cons {c : Char} {d : Nat} {cs : List Char} {digits : List Nat}
      (value : decimalValue? c = some d) (rest : DigitGroup cs digits) :
      DigitGroup (c :: cs) (d :: digits)
  | separated {c : Char} {d : Nat} {cs : List Char} {digits : List Nat}
      (value : decimalValue? c = some d) (rest : DigitGroup cs digits) :
      DigitGroup (c :: '_' :: cs) (d :: digits)

theorem DigitGroup.head (h : DigitGroup cs digits) :
    ∃ c ∈ cs.head?, (decimalValue? c).isSome = true := by
  cases h with
  | single hvalue => exact ⟨_, rfl, by rw [hvalue]; rfl⟩
  | cons hvalue => exact ⟨_, rfl, by rw [hvalue]; rfl⟩
  | separated hvalue => exact ⟨_, rfl, by rw [hvalue]; rfl⟩

theorem DigitGroup.not_mem_head? (h : DigitGroup cs digits) (hc : decimalValue? c = none) :
    c ∉ cs.head? := by
  obtain ⟨d, hd, hvalue⟩ := h.head
  intro hmem
  cases Option.mem_unique hd hmem
  rw [hc] at hvalue
  cases hvalue

theorem DigitGroup.of_mem (h : DigitGroup cs digits) (hc : c ∈ cs) :
    (decimalValue? c).isSome = true ∨ c = '_' := by
  induction h with
  | single hvalue =>
    rw [List.mem_singleton.1 hc, hvalue]
    exact .inl rfl
  | cons hvalue _ ih =>
    rcases List.mem_cons.1 hc with rfl | hc
    · exact .inl (by rw [hvalue]; rfl)
    · exact ih hc
  | separated hvalue _ ih =>
    rcases List.mem_cons.1 hc with rfl | hc
    · exact .inl (by rw [hvalue]; rfl)
    · exact (List.mem_cons.1 hc).elim .inr ih

theorem DigitGroup.of_map_eq (hne : digits ≠ []) (h : cs.map decimalValue? = digits.map some) :
    DigitGroup cs digits := by
  induction digits generalizing cs with
  | nil => exact absurd rfl hne
  | cons d digits ih =>
    obtain ⟨c, cs, rfl, hvalue, hrest⟩ := List.map_eq_cons_iff.1 h
    cases digits with
    | nil =>
      rw [List.map_eq_nil_iff.1 hrest]
      exact .single hvalue
    | cons d' digits => exact .cons hvalue (ih (List.cons_ne_nil _ _) hrest)

theorem DigitGroup.map_eq (h : DigitGroup cs digits) (hcs : '_' ∉ cs) :
    cs.map decimalValue? = digits.map some := by
  induction h with
  | single hvalue => rw [List.map_singleton, List.map_singleton, hvalue]
  | cons hvalue _ ih =>
    rw [List.map_cons, List.map_cons, hvalue, ih fun hmem => hcs (.tail _ hmem)]
  | separated => exact absurd (.tail _ (.head _)) hcs

theorem digitGroup?_eq_some_iff : digitGroup? cs = some digits ↔ DigitGroup cs digits := by
  constructor
  · intro h
    fun_induction digitGroup? cs generalizing digits with
    | case1 => cases h
    | case2 c =>
      obtain ⟨d, hvalue, rfl⟩ := Option.map_eq_some_iff.1 h
      exact .single hvalue
    | case3 c rest ih =>
      simp only [Option.bind_eq_bind, Option.bind_eq_some_iff, Option.pure_def,
        Option.some.injEq] at h
      obtain ⟨d, hvalue, digits, hrest, rfl⟩ := h
      exact .separated hvalue (ih hrest)
    | case4 c rest _ _ ih =>
      simp only [Option.bind_eq_bind, Option.bind_eq_some_iff, Option.pure_def,
        Option.some.injEq] at h
      obtain ⟨d, hvalue, digits, hrest, rfl⟩ := h
      exact .cons hvalue (ih hrest)
  · intro h
    induction h with
    | single hvalue => simp [digitGroup?, hvalue]
    | cons hvalue hrest ih =>
      rw [digitGroup?]
      · simp [hvalue, ih]
      · rintro rfl
        cases hrest
      · rintro rest rfl
        exact hrest.not_mem_head? (by decide +kernel) rfl
    | separated hvalue _ ih => simp [digitGroup?, hvalue, ih]

inductive LeadingSign : List Char → Bool → Prop
  | none : LeadingSign [] false
  | plus : LeadingSign ['+'] false
  | minus : LeadingSign ['-'] true

theorem exists_sign (cs : List Char) :
    ∃ sign, LeadingSign sign (splitSign cs).1 ∧ sign ++ (splitSign cs).2 = cs := by
  fun_cases splitSign cs with
  | case1 rest => exact ⟨_, .minus, rfl⟩
  | case2 rest => exact ⟨_, .plus, rfl⟩
  | case3 => exact ⟨_, .none, rfl⟩

theorem LeadingSign.splitSign_append (h : LeadingSign sign negative) (hminus : '-' ∉ body.head?)
    (hplus : '+' ∉ body.head?) : splitSign (sign ++ body) = (negative, body) := by
  cases h with
  | none =>
    rw [List.nil_append, splitSign]
    · rintro rest rfl
      exact hminus rfl
    · rintro rest rfl
      exact hplus rfl
  | plus => rfl
  | minus => rfl

theorem DigitGroup.splitSign_append (h : DigitGroup cs digits) (hsign : LeadingSign sign negative) :
    splitSign (sign ++ cs) = (negative, cs) :=
  hsign.splitSign_append (h.not_mem_head? (by decide +kernel)) (h.not_mem_head? (by decide +kernel))

/-- Between blanks stands an integer: a sign, if any, and digits, not more than there may be. -/
inductive IntegerNumeral (cs : List Char) : Int → Prop
  | mk {sign body : List Char} {negative : Bool} {digits : List Nat}
      (trims : Trims isNumeralBlank cs (sign ++ body)) (signed : LeadingSign sign negative)
      (group : DigitGroup body digits) (short : digits.length ≤ digitLimit) :
      IntegerNumeral cs (if negative then -(ofDigits digits : Int) else ofDigits digits)

theorem IntegerNumeral.unsigned (htrims : Trims isNumeralBlank cs body)
    (hgroup : DigitGroup body digits) (hshort : digits.length ≤ digitLimit) :
    IntegerNumeral cs (ofDigits digits) :=
  @IntegerNumeral.mk cs [] body false digits htrims .none hgroup hshort

theorem readInteger_eq_ok_iff {n : Int} : readInteger cs = .ok n ↔ IntegerNumeral cs n := by
  constructor
  · intro h
    obtain ⟨sign, hsign, htrims⟩ := exists_sign (trimBoth isNumeralBlank cs)
    simp only [readInteger] at h
    split at h
    · cases h
    · rename_i digits hdigits
      split at h
      · cases h
      · rename_i hshort
        cases h
        exact .mk (trimBoth_eq_iff.1 htrims.symm) hsign (digitGroup?_eq_some_iff.1 hdigits)
          (Nat.le_of_not_lt hshort)
  · rintro ⟨htrims, hsign, hgroup, hshort⟩
    simp only [readInteger, trimBoth_eq_iff.2 htrims, hgroup.splitSign_append hsign,
      digitGroup?_eq_some_iff.2 hgroup]
    rw [if_neg (Nat.not_lt_of_le hshort)]

theorem decimalValue?_digitChar (h : d < 10) : decimalValue? d.digitChar = some d := by
  revert d
  decide

theorem isNumeralBlank_digitChar (h : d < 10) : isNumeralBlank d.digitChar = false := by
  revert d
  decide

theorem toDigits_eq_map (n : Nat) :
    ∃ digits : List Nat, Nat.toDigits 10 n = digits.map Nat.digitChar ∧ digits ≠ [] ∧
      (∀ d ∈ digits, d < 10) ∧ ofDigits digits = n := by
  induction n using Nat.strongRecOn with
  | ind n ih =>
    rcases Nat.lt_or_ge n 10 with hlt | hge
    · refine ⟨[n], ?_, by simp, by simpa using hlt, by simp [ofDigits]⟩
      rw [Nat.toDigits_of_lt_base hlt]
      rfl
    · obtain ⟨digits, hdigits, -, hsmall, hvalue⟩ := ih (n / 10) (by omega)
      refine ⟨digits ++ [n % 10], ?_, by simp, ?_, ?_⟩
      · rw [Nat.toDigits_of_base_le (by omega) hge, hdigits, List.map_append, List.map_singleton]
      · simp only [List.mem_append, List.mem_singleton]
        rintro d (hd | rfl)
        · exact hsmall d hd
        · omega
      · simp only [ofDigits, List.foldl_append, List.foldl_cons, List.foldl_nil] at hvalue ⊢
        rw [hvalue]
        omega

theorem isDigitLike_of_mem_toDigits {c : Char} (h : c ∈ Nat.toDigits 10 n) :
    isDigitLike c = true := by
  obtain ⟨digits, hdigits, -, hsmall, -⟩ := toDigits_eq_map n
  rw [hdigits] at h
  obtain ⟨d, hd, rfl⟩ := List.mem_map.1 h
  simp [isDigitLike, decimalValue?_digitChar (hsmall d hd)]

theorem readInteger_toDigits (h : (Nat.toDigits 10 n).length ≤ digitLimit) :
    readInteger (Nat.toDigits 10 n) = .ok n := by
  obtain ⟨digits, hdigits, hne, hsmall, rfl⟩ := toDigits_eq_map n
  rw [hdigits, List.length_map] at h
  rw [hdigits, readInteger_eq_ok_iff]
  have htrims : Trims isNumeralBlank (digits.map Nat.digitChar) (digits.map Nat.digitChar) := by
    refine .of_forall fun c hc => ?_
    obtain ⟨d, hd, rfl⟩ := List.mem_map.1 hc
    exact isNumeralBlank_digitChar (hsmall d hd)
  have hgroup : DigitGroup (digits.map Nat.digitChar) digits := by
    refine .of_map_eq hne ?_
    rw [List.map_map]
    exact List.map_congr_left fun d hd => decimalValue?_digitChar (hsmall d hd)
  exact .unsigned htrims hgroup h

theorem isDigitLike_of_isBlank (h : isBlank c = true) : isDigitLike c = false := by
  have hcodes : ∀ n ∈ List.range 33 ++ List.range' 0x2000 11 ++
      [0x85, 0xA0, 0x1680, 0x2028, 0x2029, 0x202F, 0x205F, 0x3000],
      isDigitLike (Char.ofNat n) = false := by
    decide +kernel
  rw [← Char.ofNat_toNat c]
  refine hcodes c.toNat ?_
  simp only [isBlank, Bool.or_eq_true, Bool.and_eq_true, decide_eq_true_eq, beq_iff_eq] at h
  simp only [List.mem_append, List.mem_range, List.mem_range'_1, List.mem_cons, List.not_mem_nil]
  omega

theorem isBlank_of_isDigitLike (h : isDigitLike c = true) : isBlank c = false := by
  cases hblank : isBlank c with
  | false => rfl
  | true => simp [isDigitLike_of_isBlank hblank] at h

theorem isNumeralBlank_of_isDigitLike (h : isDigitLike c = true) : isNumeralBlank c = false := by
  rw [isNumeralBlank, isBlank_of_isDigitLike h, Bool.false_and]

/-- An integer is read from characters that look like digits if they are digits, of which
there are not too many. -/
theorem readInteger_of_isDigitLike (hne : cs ≠ []) (h : ∀ c ∈ cs, isDigitLike c = true) :
    (∃ n, readInteger cs = .ok n) ↔
      (∀ c ∈ cs, (decimalValue? c).isSome = true) ∧ cs.length ≤ digitLimit := by
  have htrims : Trims isNumeralBlank cs cs :=
    .of_forall fun c hc => isNumeralBlank_of_isDigitLike (h c hc)
  have hnot {c : Char} (hc : isDigitLike c = false) : c ∉ cs := fun hmem => by
    simp [h c hmem] at hc
  simp only [readInteger_eq_ok_iff]
  constructor
  · rintro ⟨_, @⟨sign, body, negative, digits, htrims', hsign, hgroup, hshort⟩⟩
    have hcs : cs = sign ++ body :=
      (trimBoth_eq_iff.2 htrims).symm.trans (trimBoth_eq_iff.2 htrims')
    have hbody : cs = body := by
      cases hsign with
      | none => exact hcs
      | plus => exact absurd (hcs ▸ .head _) (hnot (c := '+') (by decide +kernel))
      | minus => exact absurd (hcs ▸ .head _) (hnot (c := '-') (by decide +kernel))
    rw [← hbody] at hgroup
    have hmap := hgroup.map_eq (hnot (by decide +kernel))
    refine ⟨fun c hc => ?_, ?_⟩
    · obtain ⟨d, -, hd⟩ := List.mem_map.1 (hmap ▸ List.mem_map_of_mem hc)
      rw [← hd]
      rfl
    · rw [← List.length_map (f := decimalValue?), hmap, List.length_map]
      exact hshort
  · rintro ⟨hdigits, hshort⟩
    have hgroup : DigitGroup cs (cs.map (decimalValue? · |>.getD 0)) := by
      refine .of_map_eq (by simpa using hne) ?_
      rw [List.map_map]
      refine List.map_congr_left fun c hc => ?_
      obtain ⟨d, hd⟩ := Option.isSome_iff_exists.1 (hdigits c hc)
      simp [hd]
    exact ⟨_, .unsigned htrims hgroup (by rwa [List.length_map])⟩

end Decimal

end Settings
