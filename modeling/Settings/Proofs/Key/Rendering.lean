import Settings.Proofs.Numerals
import Settings.Proofs.Key.Scanning

/-! # Writing keys

Parts written one after the other, with literal delimiters doubled and single
ones between them, are read back as they were. So no two sequences of parts
share a text.
-/

namespace Settings

open Text

def Markers.separatedBy (d : Char) : Markers :=
  { Markers.standard with delimiter := [d], delimiter_ne := singleton_ne_nil d }

namespace KeyPart

def written (m : Markers) : KeyPart → List Char
  | element name none => (m.escape name).toList
  | element name (some index) =>
    (m.escape name).toList ++ (m.indexStart ++ (toString index).toList ++ m.indexEnd)
  | attr name => (m.attributeKey name).toList

def joined (m : Markers) (part : KeyPart) : List Char :=
  if part.isAttribute then part.written m else m.delimiter ++ part.written m

end KeyPart

def Markers.render (m : Markers) : List KeyPart → String
  | [] => ""
  | part :: parts => String.ofList (part.written m ++ parts.flatMap (·.joined m))

def IsDelimiter (d : Char) : Prop :=
  d.isDigit = false ∧ d ∉ ['[', '@', ']', '(', ')']

/-- A name that can be written before an index or, unless it ends like one, without. -/
structure NameFits (d : Char) (name : List Char) : Prop where
  ne_nil : name ≠ []
  head_ne : name.head? ≠ some d
  no_attribute : ¬ ['[', '@'] <:+: name

def EndsIndexed (name : List Char) : Prop :=
  ∃ front digits, front ≠ [] ∧ digits ≠ [] ∧ digits.all isDigitLike ∧
    name = front ++ '(' :: (digits ++ [')'])

/-- A part that a key can name when parts are separated by `d`. -/
def KeyPart.Expressible (d : Char) : KeyPart → Prop
  | element name none => NameFits d name.toList ∧ ¬ EndsIndexed name.toList
  | element name (some index) =>
    NameFits d name.toList ∧ (toString index).length ≤ Decimal.digitLimit
  | attr name => ']' ∉ name.toList

namespace Markers

variable {d : Char} {key : String} {pending name rest : List Char} {part : KeyPart}
  {parts pre : List KeyPart}

def doubled (d : Char) (name : List Char) : List Char :=
  name.flatMap fun c => if c = d then [d, d] else [c]

theorem toList_escape (d : Char) (name : String) :
    ((separatedBy d).escape name).toList = doubled d name.toList := by
  rw [escape, String.toList_ofList]
  exact replaceAll_char d [d, d] name.toList

theorem attributeStart_prefix_iff {c : Char} :
    (separatedBy d).attributeStart <+: c :: rest ↔ c = '[' ∧ rest.head? = some '@' := by
  cases rest <;> simp [separatedBy, standard, eq_comm]

theorem scan_plain_char {c : Char} (hstart : c = '[' → rest.head? ≠ some '@') (hc : c ≠ d) :
    (separatedBy d).scan key pending (c :: rest) =
      (separatedBy d).scan key (pending ++ [c]) rest := by
  refine scan_char ?_ ?_
  · rw [attributeStart_prefix_iff]
    exact fun h => hstart h.1 h.2
  · simp [separatedBy, Ne.symm hc]

theorem head?_doubled (d : Char) (name : List Char) : (doubled d name).head? = name.head? := by
  cases name with
  | nil => rfl
  | cons c name =>
    rw [doubled, List.flatMap_cons]
    split
    · rename_i hc
      rw [hc]
      rfl
    · rfl

/-- A name is scanned through with its delimiters halved, whatever comes next. -/
theorem scan_doubled (hd : IsDelimiter d) (hname : ¬ ['[', '@'] <:+: name)
    (hrest : rest.head? ≠ some '@') :
    (separatedBy d).scan key pending (doubled d name ++ rest) =
      (separatedBy d).scan key (pending ++ name) rest := by
  induction name generalizing pending with
  | nil => simp [doubled]
  | cons c name ih =>
    have hrestName : ¬ ['[', '@'] <:+: name :=
      fun h => hname (h.trans (List.suffix_cons c name).isInfix)
    rw [doubled, List.flatMap_cons, List.append_assoc, ← doubled]
    by_cases hc : c = d
    · subst hc
      have hstart : ¬ (separatedBy c).attributeStart <+: c :: c :: (doubled c name ++ rest) := by
        rw [attributeStart_prefix_iff]
        rintro ⟨rfl, -⟩
        exact hd.2 (by simp)
      rw [if_pos rfl]
      refine (scan_literal hstart).trans ((ih hrestName).trans ?_)
      rw [List.append_assoc]
      rfl
    · have hstart : c = '[' → (doubled d name ++ rest).head? ≠ some '@' := by
        rintro rfl
        rw [List.head?_append, head?_doubled]
        cases name with
        | nil => exact hrest
        | cons c' name =>
          rintro hc'
          obtain rfl := Option.some.inj hc'
          exact hname ⟨[], name, rfl⟩
      rw [if_neg hc, List.singleton_append, scan_plain_char hstart hc, ih hrestName,
        List.append_assoc]
      rfl

theorem scan_plain {cs : List Char} (h : ∀ c ∈ cs, c ≠ '[' ∧ c ≠ d) :
    (separatedBy d).scan key pending (cs ++ rest) =
      (separatedBy d).scan key (pending ++ cs) rest := by
  induction cs generalizing pending with
  | nil => simp
  | cons c cs ih =>
    obtain ⟨hc, hcd⟩ := h c List.mem_cons_self
    rw [List.cons_append, scan_plain_char (fun h => absurd h hc) hcd,
      ih fun c' hc' => h c' (.tail c hc'), List.append_assoc]
    rfl

/-- An index is what stands between the last opening mark and a closing mark at the end. -/
theorem indexed?_eq_some_iff {token front digits : List Char} :
    (separatedBy d).indexed? token = some (front, digits) ↔
      token = front ++ '(' :: (digits ++ [')']) ∧ front ≠ [] ∧ digits ≠ [] ∧
        digits.all isDigitLike := by
  constructor
  · intro h
    unfold indexed? at h
    split at h
    · cases h
    · rename_i hmarks
      split at h
      · cases h
      · rename_i name after hbreak
        dsimp only at h
        split at h
        · rename_i hindex
          simp only [Option.some.injEq, Prod.mk.injEq] at h
          obtain ⟨rfl, rfl⟩ := h
          simp only [separatedBy, standard] at hmarks hindex hbreak ⊢
          simp only [reduceCtorEq, decide_false, Bool.false_or, Bool.not_eq_true',
            Bool.not_eq_false, List.isSuffixOf_iff_suffix, Bool.and_eq_true,
            decide_eq_true_eq] at hmarks hindex
          have hne : after ≠ [] := by
            rintro rfl
            exact of_decide_eq_true hindex.1.2 rfl
          obtain ⟨init, last, rfl⟩ : ∃ init last, after = init ++ [last] :=
            ⟨_, _, (List.dropLast_append_getLast hne).symm⟩
          have htoken := eq_of_breakAtLast? hbreak
          obtain ⟨whole, hwhole⟩ := hmarks
          rw [htoken, ← List.append_assoc, ← List.append_assoc] at hwhole
          obtain rfl := List.singleton_inj.1 (List.append_inj' hwhole rfl).2
          simp only [List.length_append, List.length_singleton, Nat.add_sub_cancel,
            List.take_left'] at hindex ⊢
          exact ⟨htoken, hindex.1.1, of_decide_eq_true hindex.1.2, hindex.2⟩
        · cases h
  · rintro ⟨rfl, hfront, hdigits, hall⟩
    have hmem : '(' ∉ digits ++ [')'] := by
      rw [List.mem_append, List.mem_singleton]
      rintro (h | h)
      · exact absurd (List.all_eq_true.1 hall _ h) (by decide)
      · cases h
    have hbreak := breakAtLast?_of_not_mem front hmem
    have hsuffix : [')'].isSuffixOf (front ++ '(' :: (digits ++ [')'])) = true :=
      List.isSuffixOf_iff_suffix.2 ⟨front ++ '(' :: digits, by simp⟩
    simp only [indexed?, separatedBy, standard, hsuffix, hbreak]
    simpa [hfront, hdigits] using hall

theorem readElement_of_not_endsIndexed (h : ¬ EndsIndexed name) :
    (separatedBy d).readElement name = .ok (.element (String.ofList name) none) := by
  have hnone : (separatedBy d).indexed? name = none := by
    by_contra hsome
    obtain ⟨⟨front, digits⟩, hindexed⟩ := Option.ne_none_iff_exists'.1 hsome
    obtain ⟨htoken, hfront, hdigits, hall⟩ := indexed?_eq_some_iff.1 hindexed
    exact h ⟨front, digits, hfront, hdigits, hall, htoken⟩
  rw [readElement, hnone]

theorem readElement_of_index {index : Nat} (hne : name ≠ [])
    (h : (toString index).length ≤ Decimal.digitLimit) :
    (separatedBy d).readElement (name ++ '(' :: ((toString index).toList ++ [')'])) =
      .ok (.element (String.ofList name) (some index)) := by
  have htext : (toString index).toList = Nat.toDigits 10 index := by simp
  rw [← String.length_toList] at h
  rw [htext] at h ⊢
  have hindexed : (separatedBy d).indexed? (name ++ '(' :: (Nat.toDigits 10 index ++ [')'])) =
      some (name, Nat.toDigits 10 index) :=
    indexed?_eq_some_iff.2 ⟨rfl, hne, Nat.toDigits_ne_nil,
      List.all_eq_true.2 fun _ hc => Decimal.isDigitLike_of_mem_toDigits hc⟩
  have hread : readIndex (Nat.toDigits 10 index) = .ok index := by
    rw [readIndex, Decimal.readInteger_toDigits h]
    rfl
  rw [readElement, hindexed]
  simp only [hread]
  rfl

end Markers

def KeyPart.token : KeyPart → List Char
  | element name none => name.toList
  | element name (some index) => name.toList ++ '(' :: ((toString index).toList ++ [')'])
  | attr _ => []

namespace Markers

variable {d : Char} {key : String} {pending name rest : List Char} {part : KeyPart}
  {parts pre : List KeyPart}

theorem readElement_token (h : part.Expressible d) (hkind : part.isAttribute = false) :
    part.token ≠ [] ∧ (separatedBy d).readElement part.token = .ok part := by
  match part with
  | .element name none =>
    obtain ⟨hname, hindexed⟩ := h
    refine ⟨hname.ne_nil, ?_⟩
    rw [KeyPart.token, readElement_of_not_endsIndexed hindexed, String.ofList_toList]
  | .element name (some index) =>
    obtain ⟨hname, hindex⟩ := h
    refine ⟨by simp [KeyPart.token], ?_⟩
    rw [KeyPart.token, readElement_of_index hname.ne_nil hindex, String.ofList_toList]
  | .attr name => cases hkind

theorem flush_token (h : part.Expressible d) (hkind : part.isAttribute = false) :
    (separatedBy d).flush part.token = .ok [part] := by
  obtain ⟨hne, hread⟩ := readElement_token h hkind
  rw [flush_of_ne_nil _ hne, hread]
  rfl

theorem isDigit_of_mem_toString {index : Nat} {c : Char} (h : c ∈ (toString index).toList) :
    c.isDigit = true := by
  rw [Nat.toString_eq_ofList_toDigits, String.toList_ofList] at h
  exact Nat.isDigit_of_mem_toDigits (by decide) (by decide) h

/-- An element is scanned through, up to what comes after it. -/
theorem scan_written (hd : IsDelimiter d) (h : part.Expressible d)
    (hkind : part.isAttribute = false) (hrest : rest.head? ≠ some '@') :
    (separatedBy d).scan key [] (part.written (separatedBy d) ++ rest) =
      (separatedBy d).scan key part.token rest := by
  match part with
  | .element name none =>
    rw [KeyPart.written, toList_escape, scan_doubled hd h.1.no_attribute hrest]
    rfl
  | .element name (some index) =>
    have hmark : ((separatedBy d).indexStart ++ (toString index).toList ++
        (separatedBy d).indexEnd) = '(' :: ((toString index).toList ++ [')']) := rfl
    have hplain : ∀ c ∈ '(' :: ((toString index).toList ++ [')']), c ≠ '[' ∧ c ≠ d := by
      have hmarks := hd.2
      simp only [List.mem_cons, not_or] at hmarks
      simp only [List.mem_cons, List.mem_append, List.not_mem_nil, or_false]
      rintro c (rfl | hc | rfl)
      · exact ⟨by decide, Ne.symm hmarks.2.2.2.1⟩
      · have hdigit := isDigit_of_mem_toString hc
        constructor
        · rintro rfl
          simp at hdigit
        · rintro rfl
          simp [hd.1] at hdigit
      · exact ⟨by decide, Ne.symm hmarks.2.2.2.2.1⟩
    rw [KeyPart.written, hmark, toList_escape, List.append_assoc,
      scan_doubled hd h.1.no_attribute (by simp), scan_plain hplain]
    rfl
  | .attr name => cases hkind

theorem joined_attr (d : Char) (name : String) (rest : List Char) :
    (KeyPart.attr name).joined (separatedBy d) ++ rest =
      '[' :: '@' :: (name.toList ++ ']' :: rest) := by
  simp [KeyPart.joined, KeyPart.isAttribute, KeyPart.written, attributeKey, separatedBy, standard]

theorem scan_attr (hname : ']' ∉ name) (hflush : (separatedBy d).flush pending = .ok pre)
    (hrest : (separatedBy d).scan key [] rest = .ok parts) :
    (separatedBy d).scan key pending ('[' :: '@' :: (name ++ ']' :: rest)) =
      .ok (pre ++ .attr (String.ofList name) :: parts) := by
  have hstart : after? (separatedBy d).attributeStart ('[' :: '@' :: (name ++ ']' :: rest)) =
      some (name ++ ']' :: rest) := after?_append _ _
  have hend : breakAt? (separatedBy d).attributeEnd (name ++ ']' :: rest) = some (name, rest) :=
    breakAt?_of_not_mem hname rest
  rw [scan_attribute hstart, hflush]
  simp only [bind, Except.bind, hend, hrest]
  rfl

theorem head?_written_ne (h : part.Expressible d) (hkind : part.isAttribute = false)
    (rest : List Char) :
    (part.written (separatedBy d) ++ rest).head? ≠ some d := by
  have hname {name : String} (hfits : NameFits d name.toList) (rest : List Char) :
      (((separatedBy d).escape name).toList ++ rest).head? ≠ some d := by
    obtain ⟨c, cs, hcs⟩ := List.exists_cons_of_ne_nil hfits.ne_nil
    have hhead := hfits.head_ne
    rw [toList_escape, List.head?_append, head?_doubled, hcs]
    rwa [hcs] at hhead
  match part with
  | .element name none => exact hname h.1 rest
  | .element name (some index) =>
    rw [KeyPart.written, List.append_assoc]
    exact hname h.1 _
  | .attr name => cases hkind

theorem head?_joined_ne (hd : IsDelimiter d) (parts : List KeyPart) :
    (parts.flatMap (·.joined (separatedBy d))).head? ≠ some '@' := by
  have hat : d ≠ '@' := by
    rintro rfl
    exact hd.2 (by simp)
  cases parts with
  | nil => simp
  | cons part parts =>
    cases part with
    | element name index =>
      rw [List.flatMap_cons, KeyPart.joined, if_neg (by simp [KeyPart.isAttribute])]
      simpa [separatedBy] using hat
    | attr name =>
      rw [List.flatMap_cons, joined_attr]
      simp

theorem scan_joined (hd : IsDelimiter d) (h : ∀ part ∈ parts, part.Expressible d)
    (hflush : (separatedBy d).flush pending = .ok pre) :
    (separatedBy d).scan key pending (parts.flatMap (·.joined (separatedBy d))) =
      .ok (pre ++ parts) := by
  induction parts generalizing pending pre with
  | nil => rw [List.flatMap_nil, scan_nil, hflush, List.append_nil]
  | cons part parts ih =>
    have hpart := h part List.mem_cons_self
    have hparts : ∀ p ∈ parts, p.Expressible d := fun p hp => h p (.tail part hp)
    rw [List.flatMap_cons]
    cases hkind : part.isAttribute with
    | true =>
      obtain ⟨name, rfl⟩ : ∃ name, part = .attr name := by
        cases part with
        | element name index => cases hkind
        | attr name => exact ⟨name, rfl⟩
      rw [joined_attr, scan_attr hpart hflush (ih hparts rfl), String.ofList_toList]
      rfl
    | false =>
      have hstart : ¬ (separatedBy d).attributeStart <+: (separatedBy d).delimiter ++
          (part.written (separatedBy d) ++ parts.flatMap (·.joined (separatedBy d))) := by
        intro hprefix
        obtain ⟨rfl, -⟩ := attributeStart_prefix_iff.1 hprefix
        exact hd.2 (by simp)
      have hnext : ¬ (separatedBy d).delimiter <+:
          part.written (separatedBy d) ++ parts.flatMap (·.joined (separatedBy d)) := by
        rintro ⟨next, hnext⟩
        have hhead := head?_written_ne hpart hkind (parts.flatMap (·.joined (separatedBy d)))
        rw [← hnext] at hhead
        exact hhead rfl
      rw [KeyPart.joined, if_neg (by simp [hkind]), List.append_assoc, scan_delimiter hstart hnext,
        hflush, scan_written hd hpart hkind (head?_joined_ne hd parts),
        ih hparts (flush_token hpart hkind)]
      rfl

theorem parse_of_render (hd : IsDelimiter d) (h : ∀ part ∈ parts, part.Expressible d) :
    (separatedBy d).parse (some ((separatedBy d).render parts)) = .ok parts := by
  cases parts with
  | nil =>
    rw [render, parse, String.toList_empty, scan_nil]
    rfl
  | cons part parts =>
    rw [render, parse, String.toList_ofList]
    have hparts : ∀ p ∈ parts, p.Expressible d := fun p hp => h p (.tail part hp)
    cases hkind : part.isAttribute with
    | true =>
      have hwritten : part.written (separatedBy d) = part.joined (separatedBy d) := by
        rw [KeyPart.joined, if_pos hkind]
      have hnone : (separatedBy d).flush [] = .ok [] := rfl
      rw [hwritten, ← List.flatMap_cons]
      exact scan_joined hd h hnone
    | false =>
      have hpart := h part List.mem_cons_self
      rw [scan_written hd hpart hkind (head?_joined_ne hd parts),
        scan_joined hd hparts (flush_token hpart hkind)]
      rfl

/-- Parts that can be expressed are read as they were written, and different
sequences of them have different texts. -/
theorem parse_render (hd : IsDelimiter d) (h : ∀ part ∈ parts, part.Expressible d) :
    (separatedBy d).parse (some ((separatedBy d).render parts)) = .ok parts ∧
      ∀ others : List KeyPart, (∀ part ∈ others, part.Expressible d) →
        (separatedBy d).render others = (separatedBy d).render parts → others = parts := by
  refine ⟨parse_of_render hd h, fun others hothers heq => ?_⟩
  have hparse := parse_of_render hd hothers
  rw [heq, parse_of_render hd h] at hparse
  exact (Except.ok.inj hparse).symm

/-- Literal delimiters, lone brackets and an attribute between elements. -/
theorem parse_render_mixed :
    let parts := [.element "a." none, .attr "x.", .element "b(" (some 30), .element "c[" none]
    (separatedBy '.').render parts = "a..[@x.].b((30).c[" ∧
      (separatedBy '.').parse (some "a..[@x.].b((30).c[") = .ok parts := by
  intro parts
  have hfits (name : List Char) (hne : name ≠ []) (hhead : name.head? ≠ some '.')
      (hname : ¬ ['[', '@'] <:+: name) : NameFits '.' name := ⟨hne, hhead, hname⟩
  have hends (name : List Char) (h : name.getLast? ≠ some ')') : ¬ EndsIndexed name := by
    rintro ⟨front, digits, -, -, -, rfl⟩
    rw [← List.cons_append, ← List.append_assoc, List.getLast?_concat] at h
    exact h rfl
  have hexpressible : ∀ part ∈ parts, part.Expressible '.' := by
    simp only [parts, List.mem_cons, List.not_mem_nil, or_false]
    rintro part (rfl | rfl | rfl | rfl)
    · exact ⟨hfits _ (by decide) (by decide) (by decide), hends _ (by decide)⟩
    · exact (by decide : ']' ∉ "x.".toList)
    · exact ⟨hfits _ (by decide) (by decide) (by decide), by decide⟩
    · exact ⟨hfits _ (by decide) (by decide) (by decide), hends _ (by decide)⟩
  have htext : (separatedBy '.').render parts = "a..[@x.].b((30).c[" := by decide +kernel
  exact ⟨htext, htext ▸ (parse_render ⟨by decide, by decide⟩ hexpressible).1⟩

end Markers

end Settings
