import Settings.Proofs.Key.Scanning
import Settings.Proofs.Outcomes

/-! # Joining keys

A key that is read, a delimiter and another key are read as the parts of the
one followed by those of the other: no mark begins in the first key and ends
behind it.
-/

namespace Settings.Markers

open Text

variable {m : Markers} {d : Char} {key : String} {mark pending cs rest : List Char}
  {parts : List KeyPart}

theorem scan_sameOutcome (key key' : String) (pending cs : List Char) :
    SameOutcome (m.scan key pending cs) (m.scan key' pending cs) := by
  induction pending, cs using scan.induct m with
  | case1 pending => exact .of_eq (by rw [scan_nil, scan_nil])
  | case2 pending c rest inner hstart ih =>
    rw [scan_attribute hstart, scan_attribute hstart]
    refine .bind_same _ fun pre => ?_
    cases hend : breakAt? m.attributeEnd inner with
    | none => exact .throw rfl
    | some found => exact (ih found.1 found.2 hend).bind fun _ => .refl _
  | case3 pending c rest hstart next hnext literal hliteral ih =>
    rw [after?_eq_none_iff] at hstart
    rw [scan_of_delimiter hstart hnext, scan_of_delimiter hstart hnext, hliteral]
    exact ih
  | case4 pending c rest hstart next hnext hliteral ih =>
    rw [after?_eq_none_iff] at hstart
    rw [scan_of_delimiter hstart hnext, scan_of_delimiter hstart hnext, hliteral]
    exact .bind_same _ fun _ => ih.bind fun _ => .refl _
  | case5 pending c rest hstart hnext ih =>
    rw [after?_eq_none_iff] at hstart hnext
    rw [scan_char hstart hnext, scan_char hstart hnext]
    exact ih

theorem not_prefix_append (hmark : d ∉ mark) (h : ¬ mark <+: cs) (rest : List Char) :
    ¬ mark <+: cs ++ d :: rest := by
  intro hprefix
  rcases Nat.le_total mark.length cs.length with hle | hle
  · exact h (List.prefix_of_prefix_length_le hprefix (List.prefix_append _ _) hle)
  · obtain ⟨beyond, rfl⟩ := List.prefix_of_prefix_length_le (List.prefix_append _ _) hprefix hle
    rw [List.prefix_append_right_inj] at hprefix
    cases beyond with
    | nil => exact h (by simp)
    | cons c beyond =>
      obtain ⟨rfl, -⟩ := List.cons_prefix_cons.1 hprefix
      exact hmark (by simp)

theorem getLast?_ne_of_append {c : Char} (front : List Char)
    (h : (front ++ cs).getLast? ≠ some c) : cs.getLast? ≠ some c := by
  intro hlast
  rw [List.getLast?_append, hlast] at h
  exact h rfl

theorem scan_separator (hd : m.delimiter = [d]) (hstart : d ∉ m.attributeStart)
    (hfirst : rest.head? ≠ some d) (key : String) (pending : List Char) :
    m.scan key pending (d :: rest) = do
      let parts ← m.flush pending
      return parts ++ (← m.scan key [] rest) := by
  have hattr : ¬ m.attributeStart <+: m.delimiter ++ rest := by
    have hnil : ¬ m.attributeStart <+: [] := by simpa using m.attributeStart_ne
    rw [hd]
    exact not_prefix_append hstart hnil rest
  have hnext : ¬ m.delimiter <+: rest := by
    rw [hd]
    rintro ⟨literal, rfl⟩
    exact hfirst rfl
  have htext : d :: rest = m.delimiter ++ rest := by rw [hd, List.singleton_append]
  rw [htext, scan_delimiter hattr hnext]

theorem scan_append (hd : m.delimiter = [d]) (hstart : d ∉ m.attributeStart)
    (hlast : cs.getLast? ≠ some d) (hfirst : rest.head? ≠ some d)
    (h : m.scan key pending cs = .ok parts) (key' : String) :
    m.scan key' pending (cs ++ d :: rest) = do return parts ++ (← m.scan key' [] rest) := by
  induction pending, cs using scan.induct m generalizing parts with
  | case1 pending =>
    rw [scan_nil] at h
    rw [List.nil_append, scan_separator hd hstart hfirst, h]
    rfl
  | case2 pending c cs inner hattr ih =>
    rw [scan_attribute hattr] at h
    have htext := after?_eq_some_iff.1 hattr
    have hattr' : after? m.attributeStart (c :: cs ++ d :: rest) = some (inner ++ d :: rest) :=
      after?_eq_some_iff.2 (by rw [htext, List.append_assoc])
    obtain ⟨pre, hpre, h⟩ := bind_eq_ok.1 h
    cases hend : breakAt? m.attributeEnd inner with
    | none => simp [hend] at h
    | some found =>
      obtain ⟨name, after⟩ := found
      rw [hend] at h
      obtain ⟨ps, hps, h⟩ := bind_eq_ok.1 h
      cases h
      have hafter : after.getLast? ≠ some d := by
        rw [htext, eq_of_breakAt? hend, ← List.append_assoc] at hlast
        exact getLast?_ne_of_append _ hlast
      rw [scan_attribute hattr', hpre, breakAt?_append hend]
      simp only [ih name after hend hafter hps]
      cases m.scan key' [] rest with
      | error e => rfl
      | ok ps' => simp [bind, Except.bind, pure, Except.pure]
  | case3 pending c cs hattr next hnext literal hliteral ih =>
    rw [after?_eq_none_iff] at hattr
    rw [scan_of_delimiter hattr hnext, hliteral] at h
    rw [after?_eq_some_iff] at hnext hliteral
    subst hliteral
    rw [hnext] at hattr hlast ⊢
    have hattr' := not_prefix_append hstart hattr rest
    rw [List.append_assoc, List.append_assoc] at hattr' ⊢
    rw [scan_literal hattr']
    exact ih (getLast?_ne_of_append _ (getLast?_ne_of_append _ hlast)) h
  | case4 pending c cs hattr next hnext hliteral ih =>
    rw [after?_eq_none_iff] at hattr
    rw [scan_of_delimiter hattr hnext, hliteral] at h
    obtain ⟨pre, hpre, h⟩ := bind_eq_ok.1 h
    obtain ⟨ps, hps, h⟩ := bind_eq_ok.1 h
    cases h
    rw [after?_eq_some_iff, hd, List.singleton_append] at hnext
    rw [after?_eq_none_iff, hd] at hliteral
    rw [hnext] at hlast ⊢
    have hnext' : (next ++ d :: rest).head? ≠ some d := by
      cases next with
      | nil => exact absurd rfl hlast
      | cons c' next =>
        rintro hc
        obtain rfl := Option.some.inj hc
        exact hliteral ⟨next, rfl⟩
    rw [List.cons_append, scan_separator hd hstart hnext', hpre,
      ih (getLast?_ne_of_append [d] hlast) hps]
    cases m.scan key' [] rest with
    | error e => rfl
    | ok ps' => simp [bind, Except.bind, pure, Except.pure]
  | case5 pending c cs hattr hnext ih =>
    rw [after?_eq_none_iff] at hattr hnext
    rw [scan_char hattr hnext] at h
    have hattr' := not_prefix_append hstart hattr rest
    have hnext' : ¬ m.delimiter <+: c :: cs ++ d :: rest := by
      rw [hd] at hnext ⊢
      simpa using hnext
    rw [List.cons_append] at hattr' hnext' ⊢
    rw [scan_char hattr' hnext']
    exact ih (getLast?_ne_of_append [c] hlast) h

/-- The parts of a key that is read and another one joined to it. -/
theorem parse_join {first second : String} (hd : m.delimiter = [d]) (hstart : d ∉ m.attributeStart)
    (hlast : first.toList.getLast? ≠ some d) (hfirst : second.toList.head? ≠ some d)
    (h : m.parse (some first) = .ok parts) :
    SameOutcome (m.parse (some (first ++ String.singleton d ++ second)))
      (do return parts ++ (← m.parse (some second))) := by
  have htext : (first ++ String.singleton d ++ second).toList =
      first.toList ++ d :: second.toList := by simp
  simp only [parse] at h ⊢
  rw [htext, scan_append hd hstart hlast hfirst h]
  exact (scan_sameOutcome _ _ _ _).bind fun _ => .refl _

end Settings.Markers
