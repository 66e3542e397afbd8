import Settings.Assembly
import Settings.Merge
import Settings.Proofs.Outcomes
import Settings.Proofs.Value.Keys

/-! # Merged sources

Laying one value over another is decided path by path: the upper value decides a
path that it defines or at which it has left the mappings, and all other paths keep
what they had. Over a list of sources the last one to decide a path wins.
-/

namespace Settings

namespace Value

variable {old new u v : Value} {entries : Mapping} {key : Value} {path : List Value}

def isMapping : Value → Bool
  | mapping _ => true
  | _ => false

theorem isMapping_iff : v.isMapping = true ↔ ∃ entries, v = mapping entries := by
  cases v <;> simp [isMapping]

/-- A value whose mappings, one inside the other, have proper keys. -/
inductive Keyed : Value → Prop
  | plain {v : Value} (h : v.isMapping = false) : Keyed v
  | mapping {entries : Mapping} (proper : entries.Proper) (values : ∀ e ∈ entries, Keyed e.2) :
      Keyed (.mapping entries)

theorem Keyed.proper (h : Keyed (.mapping entries)) : entries.Proper := by
  cases h with
  | plain h => cases h
  | mapping proper => exact proper

theorem Keyed.values (h : Keyed (.mapping entries)) : ∀ e ∈ entries, Keyed e.2 := by
  cases h with
  | plain h => cases h
  | mapping _ values => exact values

theorem Keyed.flat (proper : entries.Proper) (h : ∀ e ∈ entries, e.2.isMapping = false) :
    Keyed (.mapping entries) :=
  .mapping proper fun e he => .plain (h e he)

theorem Keyed.get? (h : Keyed (.mapping entries)) (hget : entries.get? key = some v) : Keyed v := by
  obtain ⟨e, he, -, rfl⟩ := Mapping.mem_of_get? hget
  exact h.values e he

theorem Keyed.insert (h : Keyed (.mapping entries)) (hkey : key.isKey = true) (hv : Keyed v) :
    Keyed (.mapping (Mapping.insert entries key v)) := by
  refine .mapping (h.proper.insert hkey) fun e he => ?_
  rcases Mapping.mem_insert he with hold | rfl
  · exact h.values e hold
  · exact hv

/-- What is at a path, reached through mappings. -/
def at? : Value → List Value → Option Value
  | v, [] => some v
  | mapping entries, key :: path => (Mapping.get? entries key).bind (·.at? path)
  | _, _ :: _ => none

@[simp] theorem at?_nil : v.at? [] = some v := by
  cases v <;> rfl

theorem at?_cons_of_not_mapping (h : v.isMapping = false) : v.at? (key :: path) = none := by
  cases v <;> first | rfl | cases h

theorem at?_cons_eq_some : v.at? (key :: path) = some u ↔
    ∃ entries below, v = .mapping entries ∧ Mapping.get? entries key = some below ∧
      below.at? path = some u := by
  cases hmapping : v.isMapping with
  | false =>
    rw [at?_cons_of_not_mapping hmapping]
    refine iff_of_false nofun ?_
    rintro ⟨entries, -, rfl, -⟩
    cases hmapping
  | true =>
    obtain ⟨entries, rfl⟩ := isMapping_iff.1 hmapping
    simp [at?, Option.bind_eq_some_iff]

/-- A value laid over another: mappings are merged, anything else is replaced. -/
def overlaid : Value → Value → Value
  | mapping old, mapping new => mapping (Mapping.merge old new)
  | _, new => new

theorem overlaid_of_not_mapping (h : old.isMapping = false ∨ new.isMapping = false) :
    old.overlaid new = new := by
  cases old <;> cases new <;> first | rfl | simp [isMapping] at h

/-- Whether a value laid over another decides what is at a path. -/
def decides : Value → List Value → Bool
  | _, [] => true
  | mapping entries, key :: path => (Mapping.get? entries key).elim false (·.decides path)
  | _, _ :: _ => true

theorem decides_of_not_mapping (h : v.isMapping = false) : v.decides path = true := by
  cases path <;> cases v <;> first | rfl | cases h

end Value

namespace Mapping

variable {base : Mapping} {entries : Mapping} {key value : Value}

@[simp] theorem merge_nil : base.merge [] = base := by
  rw [merge]

theorem merge_cons : base.merge ((key, value) :: entries) =
    (base.insert key ((base.get? key).elim value (·.overlaid value))).merge entries := by
  rw [merge.eq_def]
  dsimp only
  congr 2
  cases base.get? key with
  | none => rfl
  | some old => cases old <;> cases value <;> rfl

/-- Under each key the merged mapping has what either mapping has, the new one laid over. -/
theorem get?_merge (hbase : ∀ k ∈ base.keys, k.isKey = true) (hentries : entries.Proper)
    (hkey : key.isKey = true) :
    (base.merge entries).get? key =
      (entries.get? key).elim (base.get? key) fun new =>
        some ((base.get? key).elim new (·.overlaid new)) := by
  induction entries generalizing base with
  | nil => simp
  | cons e rest ih =>
    obtain ⟨k, v⟩ := e
    obtain ⟨hk, hrest⟩ := hentries.of_cons
    rw [merge_cons, ih (isKey_insert hbase hk) hrest, get?_insert hbase hk hkey, get?_cons]
    by_cases hsame : k.same key = true
    · rw [hentries.get?_rest hkey hsame, if_pos hsame, if_pos hsame, get?_congr hbase hk hkey hsame]
      rfl
    · rw [if_neg hsame, if_neg hsame]

end Mapping

namespace Value

variable {old new v : Value} {key : Value} {path : List Value}

theorem Keyed.overlaid (hold : Keyed old) (hnew : Keyed new) : Keyed (old.overlaid new) := by
  induction hnew generalizing old with
  | plain h =>
    rw [overlaid_of_not_mapping (.inr h)]
    exact .plain h
  | @mapping entries proper values ih =>
    cases hbase : old.isMapping with
    | false =>
      rw [overlaid_of_not_mapping (.inl hbase)]
      exact .mapping proper values
    | true =>
      obtain ⟨base, rfl⟩ := isMapping_iff.1 hbase
      change Keyed (.mapping (Mapping.merge base entries))
      have hkeys := proper.isKey
      clear proper hbase
      induction entries generalizing base with
      | nil => rwa [Mapping.merge_nil]
      | cons e rest ihrest =>
        obtain ⟨key, value⟩ := e
        simp only [Mapping.keys, List.map_cons, List.forall_mem_cons] at hkeys values ih
        rw [Mapping.merge_cons]
        refine ihrest values.2 ih.2 _ (hold.insert hkeys.1 ?_) hkeys.2
        cases hfound : Mapping.get? base key with
        | none => exact values.1
        | some found => exact ih.1 (hold.get? hfound)

theorem isMapping_overlaid : (old.overlaid new).isMapping = new.isMapping := by
  cases old <;> cases new <;> rfl

theorem at?_overlaid (hold : Keyed old) (hnew : Keyed new) (hpath : ∀ k ∈ path, k.isKey = true)
    (hv : v.isMapping = false) :
    (old.overlaid new).at? path = some v ↔
      new.at? path = some v ∨ new.decides path = false ∧ old.at? path = some v := by
  induction path generalizing old new with
  | nil =>
    simp only [at?_nil, decides, Bool.true_eq_false, false_and, or_false, Option.some.injEq]
    cases hmapping : new.isMapping with
    | false => rw [overlaid_of_not_mapping (.inr hmapping)]
    | true =>
      constructor
      · rintro rfl
        rw [isMapping_overlaid, hmapping] at hv
        cases hv
      · rintro rfl
        rw [hmapping] at hv
        cases hv
  | cons key path ih =>
    rw [List.forall_mem_cons] at hpath
    cases hmapping : new.isMapping with
    | false => simp [overlaid_of_not_mapping (.inr hmapping), decides_of_not_mapping hmapping]
    | true =>
      obtain ⟨entries, rfl⟩ := isMapping_iff.1 hmapping
      cases hbase : old.isMapping with
      | false => simp [overlaid_of_not_mapping (.inl hbase), at?_cons_of_not_mapping hbase]
      | true =>
        obtain ⟨base, rfl⟩ := isMapping_iff.1 hbase
        change ((Mapping.merge base entries).get? key).bind (·.at? path) = _ ↔ _
        rw [Mapping.get?_merge hold.proper.isKey hnew.proper hpath.1]
        simp only [at?, decides]
        cases hupper : Mapping.get? entries key with
        | none => simp
        | some upper =>
          cases hlower : Mapping.get? base key with
          | none => simp
          | some lower => exact ih (hold.get? hlower) (hnew.get? hupper) hpath.2

/-- A path is decided by something at it, or by something else than a mapping before it. -/
theorem decides_iff : v.decides path = true ↔
    (∃ u, v.at? path = some u) ∨
      ∃ before u, before <+: path ∧ before ≠ path ∧ v.at? before = some u ∧
        u.isMapping = false := by
  induction path generalizing v with
  | nil => simp [decides]
  | cons key path ih =>
    cases hmapping : v.isMapping with
    | false =>
      rw [decides_of_not_mapping hmapping]
      exact iff_of_true rfl (.inr ⟨[], v, List.nil_prefix, by simp, at?_nil, hmapping⟩)
    | true =>
      obtain ⟨entries, rfl⟩ := isMapping_iff.1 hmapping
      simp only [decides, at?]
      cases hfound : Mapping.get? entries key with
      | none =>
        simp only [Option.elim, Bool.false_eq_true, Option.bind_none, false_iff, not_or]
        refine ⟨by simp, ?_⟩
        rintro ⟨before, u, hprefix, -, hat, hu⟩
        cases before with
        | nil =>
          cases at?_nil.symm.trans hat
          cases hu
        | cons k before =>
          obtain ⟨rfl, -⟩ := List.cons_prefix_cons.1 hprefix
          simp [at?, hfound] at hat
      | some found =>
        simp only [Option.elim, Option.bind_some, ih]
        refine or_congr_right ⟨?_, ?_⟩
        · rintro ⟨before, u, hprefix, hne, hat, hu⟩
          exact ⟨key :: before, u, List.cons_prefix_cons.2 ⟨rfl, hprefix⟩, by simpa using hne,
            by simpa [at?, hfound] using hat, hu⟩
        · rintro ⟨before, u, hprefix, hne, hat, hu⟩
          cases before with
          | nil =>
            cases at?_nil.symm.trans hat
            cases hu
          | cons k before =>
            obtain ⟨rfl, hrest⟩ := List.cons_prefix_cons.1 hprefix
            exact ⟨before, u, hrest, by simpa using hne, by simpa [at?, hfound] using hat, hu⟩

end Value

end Settings
