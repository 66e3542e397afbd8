import Mathlib.Logic.Relation
import Settings.Forest.Selection
import Settings.Proofs.Numerals
import Settings.Proofs.Key.Scanning
import Settings.Proofs.Outcomes

/-! # Keys that are refused

A scan goes from state to state. It is refused where an attribute section begins that is not
closed, and already where an element ends in an index that has no number: an index is
recognised by characters that look like digits, and not all of these are digits.
-/

namespace Settings

open Text Relation

structure ScanState where
  pending : List Char
  rest : List Char

namespace Markers

variable {m : Markers} {s t : ScanState} {key : String} {pending cs index name : List Char}

/-- One step of a scan. There is none at the end of a key, nor where an attribute section
begins that is not closed. -/
def next? (m : Markers) : ScanState → Option ScanState
  | ⟨_, []⟩ => none
  | ⟨pending, c :: rest⟩ =>
    match after? m.attributeStart (c :: rest), after? m.delimiter (c :: rest) with
    | some inner, _ => (breakAt? m.attributeEnd inner).map fun found => ⟨[], found.2⟩
    | none, some next =>
      match after? m.delimiter next with
      | some literal => some ⟨pending ++ m.delimiter, literal⟩
      | none => some ⟨[], next⟩
    | none, none => some ⟨pending ++ [c], rest⟩

def Leads (m : Markers) : ScanState → ScanState → Prop :=
  ReflTransGen fun s t => m.next? s = some t

def Unclosed (m : Markers) (s : ScanState) : Prop :=
  ∃ inner, s.rest = m.attributeStart ++ inner ∧ ¬ m.attributeEnd <:+: inner

/-- The element under way, if there is one, ends here: at the end of the key, at an attribute
section or at a delimiter that is not doubled. -/
def Completes (m : Markers) (s : ScanState) : Prop :=
  s.rest = [] ∨ m.attributeStart <+: s.rest ∨
    ∃ next, s.rest = m.delimiter ++ next ∧ ¬ m.delimiter <+: next

def IsNumber (index : List Char) : Prop :=
  (∀ c ∈ index, (decimalValue? c).isSome = true) ∧ index.length ≤ Decimal.digitLimit

/-- The element under way ends here, and in an index that is no number. -/
def Misnumbered (m : Markers) (s : ScanState) : Prop :=
  m.Completes s ∧ ∃ name index, m.indexed? s.pending = some (name, index) ∧ ¬ IsNumber index

theorem isDigitLike_of_indexed? (h : m.indexed? cs = some (name, index)) :
    index ≠ [] ∧ ∀ c ∈ index, isDigitLike c = true := by
  unfold indexed? at h
  split at h
  · cases h
  · split at h
    · cases h
    · dsimp only at h
      split at h
      · rename_i hindex
        simp only [Option.some.injEq, Prod.mk.injEq] at h
        obtain ⟨rfl, rfl⟩ := h
        simp only [Bool.and_eq_true, decide_eq_true_eq, List.all_eq_true] at hindex
        exact ⟨hindex.1.2, hindex.2⟩
      · cases h

theorem kind_of_readIndex {fault : Fault} (h : readIndex index = .error fault) :
    fault.kind = .badValue := by
  unfold readIndex at h
  split at h
  · cases h
  · cases h
    rfl
  · cases h
    rfl

theorem readIndex_eq_ok_iff (hne : index ≠ []) (h : ∀ c ∈ index, isDigitLike c = true) :
    (∃ n, readIndex index = .ok n) ↔ IsNumber index := by
  rw [IsNumber, ← Decimal.readInteger_of_isDigitLike hne h, readIndex]
  cases Decimal.readInteger index with
  | ok n => simp
  | error reason => cases reason <;> simp

theorem readElement_cases (m : Markers) (cs : List Char) :
    ((∃ part, m.readElement cs = .ok part) ∧
        ∀ name index, m.indexed? cs = some (name, index) → IsNumber index) ∨
      (∃ fault, m.readElement cs = .error fault ∧ fault.kind = .badValue) ∧
        ∃ name index, m.indexed? cs = some (name, index) ∧ ¬ IsNumber index := by
  cases hindexed : m.indexed? cs with
  | none =>
    refine .inl ⟨⟨.element (String.ofList cs) none, ?_⟩, nofun⟩
    rw [readElement, hindexed]
  | some found =>
    obtain ⟨name, index⟩ := found
    obtain ⟨hne, hlike⟩ := isDigitLike_of_indexed? hindexed
    have hnumber := readIndex_eq_ok_iff hne hlike
    simp only [readElement, hindexed]
    cases hread : readIndex index with
    | ok n =>
      refine .inl ⟨⟨_, rfl⟩, fun name' index' heq => ?_⟩
      cases heq
      exact hnumber.1 ⟨n, hread⟩
    | error fault =>
      refine .inr ⟨⟨fault, rfl, kind_of_readIndex hread⟩, name, index, rfl, fun hindex => ?_⟩
      obtain ⟨n, hn⟩ := hnumber.2 hindex
      cases hread.symm.trans hn

theorem indexed?_nil (m : Markers) : m.indexed? [] = none := by
  unfold indexed?
  split
  · rfl
  · rename_i hmarks
    simp only [Bool.or_eq_true, decide_eq_true_eq, Bool.not_eq_true', not_or, Bool.not_eq_false,
      List.isSuffixOf_iff_suffix, List.suffix_nil] at hmarks
    exact absurd hmarks.2 hmarks.1.2

theorem exists_leads_iff {P : ScanState → Prop} (hnext : m.next? s = some t) :
    (∃ u, m.Leads s u ∧ P u) ↔ P s ∨ ∃ u, m.Leads t u ∧ P u := by
  constructor
  · rintro ⟨u, hu, hP⟩
    rcases hu.cases_head with rfl | ⟨t', ht', hu⟩
    · exact .inl hP
    · cases hnext.symm.trans ht'
      exact .inr ⟨u, hu, hP⟩
  · rintro (hP | ⟨u, hu, hP⟩)
    · exact ⟨s, .refl, hP⟩
    · exact ⟨u, .head hnext hu, hP⟩

theorem exists_leads_iff_of_none {P : ScanState → Prop} (hnext : m.next? s = none) :
    (∃ u, m.Leads s u ∧ P u) ↔ P s := by
  constructor
  · rintro ⟨u, hu, hP⟩
    rcases hu.cases_head with rfl | ⟨t', ht', -⟩
    · exact hP
    · cases hnext.symm.trans ht'
  · exact fun hP => ⟨s, .refl, hP⟩

/-- How a scan ends that goes on from a state: with parts, at an attribute section that is not
closed, or at an index that is no number. -/
inductive Ends (m : Markers) (key : String) (s : ScanState) : Except Fault (List KeyPart) → Prop
  | parts {ps : List KeyPart} (unclosed : ¬ ∃ t, m.Leads s t ∧ m.Unclosed t)
    (misnumbered : ¬ ∃ t, m.Leads s t ∧ m.Misnumbered t) : Ends m key s (.ok ps)
  | unclosed (unclosed : ∃ t, m.Leads s t ∧ m.Unclosed t)
    (misnumbered : ¬ ∃ t, m.Leads s t ∧ m.Misnumbered t) :
    Ends m key s (.error (.unterminatedAttribute key))
  | misnumbered {fault : Fault} (misnumbered : ∃ t, m.Leads s t ∧ m.Misnumbered t)
    (kind : fault.kind = .badValue) : Ends m key s (.error fault)

namespace Ends

variable {result : Except Fault (List KeyPart)} {k : List KeyPart → Except Fault (List KeyPart)}

theorem map (h : m.Ends key s result) (f : List KeyPart → List KeyPart) :
    m.Ends key s (do return f (← result)) := by
  cases h with
  | parts hunclosed hmisnumbered => exact .parts hunclosed hmisnumbered
  | unclosed hunclosed hmisnumbered => exact .unclosed hunclosed hmisnumbered
  | misnumbered hmisnumbered hkind => exact .misnumbered hmisnumbered hkind

theorem of_next (h : m.Ends key t result) (hnext : m.next? s = some t) (hclosed : ¬ m.Unclosed s)
    (hnumber : ¬ m.Misnumbered s) : m.Ends key s result := by
  have hunclosed := exists_leads_iff (P := m.Unclosed) hnext
  have hmisnumbered := exists_leads_iff (P := m.Misnumbered) hnext
  rw [or_iff_right hclosed] at hunclosed
  rw [or_iff_right hnumber] at hmisnumbered
  cases h with
  | parts h h' => exact .parts (hunclosed.not.2 h) (hmisnumbered.not.2 h')
  | unclosed h h' => exact .unclosed (hunclosed.2 h) (hmisnumbered.not.2 h')
  | misnumbered h hkind => exact .misnumbered (hmisnumbered.2 h) hkind

theorem of_flush (hends : m.Completes s)
    (hk : ¬ m.Misnumbered s → ∀ ps, m.Ends key s (k ps)) :
    m.Ends key s (m.flush s.pending >>= k) := by
  cases hpending : s.pending with
  | nil =>
    refine hk ?_ []
    rintro ⟨-, name, index, hindexed, -⟩
    rw [hpending, indexed?_nil] at hindexed
    cases hindexed
  | cons c token =>
    rw [flush_of_ne_nil m (List.cons_ne_nil c token), ← hpending]
    rcases m.readElement_cases s.pending with ⟨⟨part, hpart⟩, hnumber⟩ |
      ⟨⟨fault, hfault, hkind⟩, hindex⟩
    · rw [hpart]
      refine hk ?_ [part]
      rintro ⟨-, name, index, hindexed, hnot⟩
      exact hnot (hnumber name index hindexed)
    · rw [hfault]
      exact .misnumbered ⟨s, .refl, hends, hindex⟩ hkind

end Ends

theorem not_unclosed (h : ¬ m.attributeStart <+: s.rest) : ¬ m.Unclosed s := by
  rintro ⟨inner, hrest, -⟩
  exact h ⟨inner, hrest.symm⟩

/-- A scan ends as the states tell that it leads to. -/
theorem ends_scan (m : Markers) (key : String) (pending cs : List Char) :
    m.Ends key ⟨pending, cs⟩ (m.scan key pending cs) := by
  induction pending, cs using scan.induct m with
  | case1 pending =>
    rw [scan_nil, ← bind_pure (m.flush pending)]
    refine Ends.of_flush (s := ⟨pending, []⟩) (.inl rfl) fun hnumber ps => ?_
    have hclosed : ¬ m.Unclosed ⟨pending, []⟩ :=
      not_unclosed (by simpa using m.attributeStart_ne)
    exact .parts ((exists_leads_iff_of_none rfl).not.2 hclosed)
      ((exists_leads_iff_of_none rfl).not.2 hnumber)
  | case2 pending c rest inner hstart ih =>
    have htext := after?_eq_some_iff.1 hstart
    rw [scan_attribute hstart]
    refine Ends.of_flush (s := ⟨pending, c :: rest⟩) (.inr (.inl ⟨inner, htext.symm⟩))
      fun hnumber parts => ?_
    cases hend : breakAt? m.attributeEnd inner with
    | none =>
      have hnone : m.next? ⟨pending, c :: rest⟩ = none := by simp [next?, hstart, hend]
      exact .unclosed ((exists_leads_iff_of_none hnone).2
          ⟨inner, htext, (breakAt?_eq_none_iff m.attributeEnd_ne).1 hend⟩)
        ((exists_leads_iff_of_none hnone).not.2 hnumber)
    | some found =>
      have hnext : m.next? ⟨pending, c :: rest⟩ = some ⟨[], found.2⟩ := by
        simp [next?, hstart, hend]
      refine ((ih found.1 found.2 hend).map _).of_next hnext ?_ hnumber
      rintro ⟨inner', hrest, hopen⟩
      obtain rfl := List.append_cancel_left (htext.symm.trans hrest)
      exact hopen ⟨found.1, found.2, (eq_of_breakAt? hend).symm⟩
  | case3 pending c rest hstart next hnext literal hliteral ih =>
    have hstep : m.next? ⟨pending, c :: rest⟩ = some ⟨pending ++ m.delimiter, literal⟩ := by
      simp [next?, hstart, hnext, hliteral]
    rw [after?_eq_none_iff] at hstart
    rw [scan_of_delimiter hstart hnext, hliteral]
    refine ih.of_next hstep (not_unclosed hstart) ?_
    rintro ⟨hends | hends | ⟨next', hrest, hsingle⟩, -⟩
    · cases hends
    · exact hstart hends
    · obtain rfl := List.append_cancel_left ((after?_eq_some_iff.1 hnext).symm.trans hrest)
      exact hsingle ⟨literal, (after?_eq_some_iff.1 hliteral).symm⟩
  | case4 pending c rest hstart next hnext hliteral ih =>
    have hstep : m.next? ⟨pending, c :: rest⟩ = some ⟨[], next⟩ := by
      simp [next?, hstart, hnext, hliteral]
    rw [after?_eq_none_iff] at hstart
    rw [scan_of_delimiter hstart hnext, hliteral]
    rw [after?_eq_none_iff] at hliteral
    exact Ends.of_flush (s := ⟨pending, c :: rest⟩)
      (.inr (.inr ⟨next, after?_eq_some_iff.1 hnext, hliteral⟩))
      fun hnumber parts => (ih.map _).of_next hstep (not_unclosed hstart) hnumber
  | case5 pending c rest hstart hnext ih =>
    have hstep : m.next? ⟨pending, c :: rest⟩ = some ⟨pending ++ [c], rest⟩ := by
      simp [next?, hstart, hnext]
    rw [after?_eq_none_iff] at hstart hnext
    rw [scan_char hstart hnext]
    refine ih.of_next hstep (not_unclosed hstart) ?_
    rintro ⟨hends | hends | ⟨next', hrest, -⟩, -⟩
    · cases hends
    · exact hstart hends
    · exact hnext ⟨next', hrest.symm⟩

def Visits (m : Markers) (key : Option String) (s : ScanState) : Prop :=
  m.Leads ⟨[], (key.getD "").toList⟩ s

theorem ends_parse (m : Markers) (key : Option String) :
    m.Ends (key.getD "") ⟨[], (key.getD "").toList⟩ (m.parse key) := by
  cases key with
  | none =>
    have hends := m.ends_scan "" [] []
    rwa [scan_nil] at hends
  | some text => exact m.ends_scan text [] text.toList

theorem parse_refusals {key : Option String} {fault : Fault} (h : m.parse key = .error fault) :
    fault = .unterminatedAttribute (key.getD "") ∨
      (∃ s, m.Visits key s ∧ m.Misnumbered s) ∧ fault.kind = .badValue := by
  have hends := m.ends_parse key
  rw [h] at hends
  cases hends with
  | unclosed => exact .inl rfl
  | misnumbered hmisnumbered hbad => exact .inr ⟨hmisnumbered, hbad⟩

end Markers

theorem Forest.select_eq_error_iff {f : Forest} {m : Markers} {root : NodeId}
    {key : Option String} {fault : Fault} :
    f.select m root key = .error fault ↔ m.parse key = .error fault :=
  map_eq_error

/-- A key is refused when its scan comes to an attribute section that is not closed, or to an
index that is no number, and otherwise selects nodes. It is refused as malformed for the
attribute section only, and not even for this if there is such an index. -/
theorem Forest.select_refusals (f : Forest) (m : Markers) (root : NodeId) (key : Option String) :
    let unclosed := ∃ s, m.Visits key s ∧ m.Unclosed s
    let misnumbered := ∃ s, m.Visits key s ∧ m.Misnumbered s
    ((∃ nodes, f.select m root key = .ok nodes) ↔ ¬ unclosed ∧ ¬ misnumbered) ∧
      ((∃ fault, f.select m root key = .error fault ∧ fault.kind.isConfiguration = true) ↔
        unclosed ∧ ¬ misnumbered) ∧
      ((∃ fault, f.select m root key = .error fault ∧ fault.kind.isConfiguration = false) ↔
        misnumbered) ∧
      ∀ fault, f.select m root key = .error fault →
        fault = .unterminatedAttribute (key.getD "") ∨ fault.kind = .badValue := by
  intro unclosed misnumbered
  have hends := m.ends_parse key
  simp only [select_eq_error_iff]
  unfold select
  generalize m.parse key = result at hends
  cases hends with
  | parts hunclosed hmisnumbered =>
    have hclosed : ¬ unclosed := hunclosed
    have hnumber : ¬ misnumbered := hmisnumbered
    simp [hclosed, hnumber, bind, Except.bind, pure, Except.pure]
  | unclosed hunclosed hmisnumbered =>
    have hopen : unclosed := hunclosed
    have hnumber : ¬ misnumbered := hmisnumbered
    simp [hopen, hnumber, bind, Except.bind, Fault.kind, FaultKind.isConfiguration]
  | misnumbered hmisnumbered hkind =>
    have hnumber : misnumbered := hmisnumbered
    simp [hnumber, hkind, bind, Except.bind, FaultKind.isConfiguration]

/-- An index that only looks like a number is refused, but not as a fault of the key. -/
theorem Forest.select_superscript :
    ∃ fault, Forest.empty.select .standard ⟨0⟩ (some "a(²)") = .error fault ∧
      fault.kind.isConfiguration = false :=
  ⟨.notInteger 10 "²", by decide +kernel, rfl⟩

end Settings
