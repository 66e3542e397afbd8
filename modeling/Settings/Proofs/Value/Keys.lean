import Settings.Proofs.Value.Numbers
import Settings.Snapshot

/-! # Equality of keys

Keys are equal exactly when they stand for the same thing: nothing, one point of
the number line, one text or a tuple of such things. So on keys equality is
symmetric and transitive, and an entry is found under every key equal to its own.
-/

namespace Settings.Value

open Settings.Decimal

inductive Token
  | nothing
  | nan
  | point (p : Point)
  | text (s : String)
  | tuple (parts : List Token)

mutual

/-- What a value stands for as a key. A NaN among doubles stands for nothing it
could be compared with, and so do values that are no keys. -/
def token : Value → Option Token
  | null => some .nothing
  | nan => some .nan
  | str s => some (.text s)
  | bool b => some (.point (.finite (if b then 1 else 0)))
  | int n => some (.point (.finite n))
  | float x => (pointOfFloat x).map .point
  | tuple items => (tokens items).map .tuple
  | list _ | mapping _ => none

def tokens : List Value → Option (List Token)
  | [] => some []
  | v :: vs =>
    match token v, tokens vs with
    | some t, some ts => some (t :: ts)
    | _, _ => none

end

mutual

theorem same_iff {v w : Value} (hv : v.isKey = true) (hw : w.isKey = true) :
    v.same w = true ↔ ∃ t, v.token = some t ∧ w.token = some t := by
  cases v with
  | tuple vs =>
    cases w with
    | tuple ws =>
      simp only [isKey] at hv hw
      simp [same, token, sameItems_iff hv hw]
    | _ => simp_all [same, number?, token, isKey]
  | str s => cases w <;> simp_all [same, number?, token, isKey, eq_comm (a := s)]
  | list => cases hv
  | mapping => cases hv
  | _ =>
    cases w <;> simp_all [same, number?, token, isKey, Number.same_iff, Number.point,
      pointOfFloat_notANumber]

theorem sameItems_iff {vs ws : List Value} (hvs : areKeys vs = true) (hws : areKeys ws = true) :
    sameItems vs ws = true ↔ ∃ ts, tokens vs = some ts ∧ tokens ws = some ts := by
  cases vs with
  | nil => cases ws <;> simp [sameItems, tokens]; split <;> simp
  | cons v vs =>
    cases ws with
    | nil => simp [sameItems, tokens]; split <;> simp
    | cons w ws =>
      simp only [areKeys, Bool.and_eq_true] at hvs hws
      simp only [sameItems, tokens, Bool.and_eq_true, same_iff hvs.1 hws.1,
        sameItems_iff hvs.2 hws.2]
      cases token v <;> cases tokens vs <;> cases token w <;> cases tokens ws <;> simp

end

variable {u v w : Value}

theorem same_comm (hv : v.isKey = true) (hw : w.isKey = true) : v.same w = w.same v := by
  rw [Bool.eq_iff_iff, same_iff hv hw, same_iff hw hv]
  simp only [and_comm]

theorem same_congr (hu : u.isKey = true) (hv : v.isKey = true) (hw : w.isKey = true)
    (h : u.same v = true) : u.same w = v.same w := by
  obtain ⟨t, htu, htv⟩ := (same_iff hu hv).1 h
  rw [Bool.eq_iff_iff, same_iff hu hw, same_iff hv hw, htu, htv]

end Settings.Value

namespace Settings.Mapping

/-- The keys of a mapping are keys, and no two of them are equal. -/
structure Proper (m : Mapping) : Prop where
  isKey : ∀ k ∈ m.keys, k.isKey = true
  distinct : m.keys.Pairwise fun k l => k.same l = false

variable {m rest : Mapping} {k key key' v value : Value}

@[simp] theorem get?_nil : Mapping.get? [] key = none := rfl

theorem get?_cons :
    Mapping.get? ((k, v) :: rest) key = if k.same key then some v else rest.get? key := by
  simp only [get?, List.find?_cons]
  split <;> simp_all

theorem mem_of_get? (h : m.get? key = some v) : ∃ e ∈ m, e.1.same key = true ∧ e.2 = v := by
  obtain ⟨e, hfound, rfl⟩ := Option.map_eq_some_iff.1 h
  exact ⟨e, List.mem_of_find?_eq_some hfound, by simpa using List.find?_some hfound, rfl⟩

theorem get?_congr (hm : ∀ k ∈ m.keys, k.isKey = true) (hkey : key.isKey = true)
    (hkey' : key'.isKey = true) (h : key.same key' = true) : m.get? key = m.get? key' := by
  induction m with
  | nil => rfl
  | cons e rest ih =>
    obtain ⟨k, v⟩ := e
    simp only [keys, List.map_cons, List.forall_mem_cons] at hm
    rw [get?_cons, get?_cons, ih hm.2, Value.same_comm hm.1 hkey, Value.same_comm hm.1 hkey',
      Value.same_congr hkey hkey' hm.1 h]

/-- A key that is written is found under every key equal to it. -/
theorem get?_insert (hm : ∀ k ∈ m.keys, k.isKey = true) (hkey : key.isKey = true)
    (hkey' : key'.isKey = true) :
    (m.insert key value).get? key' = if key.same key' then some value else m.get? key' := by
  induction m with
  | nil => simp [insert, get?_cons]
  | cons e rest ih =>
    obtain ⟨k, v⟩ := e
    simp only [keys, List.map_cons, List.forall_mem_cons] at hm
    unfold insert
    split
    · rename_i hsame
      rw [get?_cons, get?_cons, Value.same_congr hm.1 hkey hkey' hsame]
      split <;> rfl
    · rename_i hother
      rw [get?_cons, get?_cons, ih hm.2]
      by_cases hk : k.same key' = true
      · have hnot : ¬ key.same key' = true := by
          rwa [Value.same_comm hkey hkey', ← Value.same_congr hm.1 hkey' hkey hk]
        rw [if_pos hk, if_neg hnot, if_pos hk]
      · rw [if_neg hk, if_neg hk]

theorem keys_insert :
    (m.insert key value).keys = if m.contains key then m.keys else m.keys ++ [key] := by
  induction m with
  | nil => rfl
  | cons e rest ih =>
    obtain ⟨k, v⟩ := e
    unfold insert
    by_cases hk : k.same key = true
    · simp [keys, contains, hk]
    · rw [if_neg hk]
      have hcontains : contains ((k, v) :: rest) key = contains rest key := by
        simp [contains, hk]
      change k :: (insert rest key value).keys = _
      rw [ih, hcontains, apply_ite (k :: ·)]
      rfl

theorem mem_insert {e : Value × Value} (h : e ∈ m.insert key value) : e ∈ m ∨ e.2 = value := by
  induction m with
  | nil => simp_all [insert]
  | cons e' rest ih =>
    obtain ⟨k, v⟩ := e'
    unfold insert at h
    split at h
    · rcases List.mem_cons.1 h with rfl | hrest
      · exact .inr rfl
      · exact .inl (List.mem_cons_of_mem _ hrest)
    · rcases List.mem_cons.1 h with rfl | hrest
      · exact .inl List.mem_cons_self
      · exact (ih hrest).imp_left (List.mem_cons_of_mem _)

theorem isKey_insert (hm : ∀ k ∈ m.keys, k.isKey = true) (hkey : key.isKey = true) :
    ∀ k ∈ (m.insert key value).keys, k.isKey = true := by
  intro k hk
  rw [keys_insert] at hk
  split at hk
  · exact hm k hk
  · rcases List.mem_append.1 hk with hk | hk
    · exact hm k hk
    · rwa [List.mem_singleton.1 hk]

theorem Proper.insert (hm : m.Proper) (hkey : key.isKey = true) : (m.insert key value).Proper := by
  refine ⟨isKey_insert hm.isKey hkey, ?_⟩
  rw [keys_insert]
  split
  · exact hm.distinct
  · rename_i hnew
    refine List.pairwise_append.2 ⟨hm.distinct, List.pairwise_singleton .., fun k hk l hl => ?_⟩
    rw [List.mem_singleton.1 hl]
    obtain ⟨e, he, rfl⟩ := List.mem_map.1 hk
    simp only [contains, List.any_eq_true, not_exists, not_and, Bool.not_eq_true] at hnew
    exact hnew e he

theorem Proper.of_cons (h : Proper ((k, v) :: rest)) : k.isKey = true ∧ rest.Proper := by
  obtain ⟨hisKey, hdistinct⟩ := h
  simp only [keys, List.map_cons, List.forall_mem_cons, List.pairwise_cons] at hisKey hdistinct
  exact ⟨hisKey.1, hisKey.2, hdistinct.2⟩

theorem Proper.get?_rest (h : Proper ((k, v) :: rest)) (hkey : key.isKey = true)
    (hk : k.same key = true) : rest.get? key = none := by
  rw [Option.eq_none_iff_forall_ne_some]
  intro u hfound
  obtain ⟨e, he, hsame, -⟩ := mem_of_get? hfound
  have hmem : e.1 ∈ rest.keys := List.mem_map_of_mem he
  have hother : k.same e.1 = false := (List.pairwise_cons.1 h.distinct).1 e.1 hmem
  have heKey := h.of_cons.2.isKey e.1 hmem
  rw [Value.same_congr h.of_cons.1 hkey heKey hk, Value.same_comm hkey heKey, hsame] at hother
  cases hother

theorem contains_eq (m : Mapping) (key : Value) : m.contains key = (m.get? key).isSome := by
  rw [contains, get?, Option.isSome_map, Bool.eq_iff_iff, List.find?_isSome, List.any_eq_true]

theorem Proper.get?_of_mem (hm : m.Proper) (hmem : (k, v) ∈ m) (hkey : key.isKey = true)
    (hsame : k.same key = true) : m.get? key = some v := by
  induction m with
  | nil => cases hmem
  | cons e rest ih =>
    obtain ⟨first, u⟩ := e
    rw [get?_cons]
    rcases List.mem_cons.1 hmem with heq | hrest
    · cases heq
      exact if_pos hsame
    · have hk : k.isKey = true := hm.of_cons.2.isKey k (List.mem_map_of_mem hrest)
      have hother : first.same k = false :=
        (List.pairwise_cons.1 hm.distinct).1 k (List.mem_map_of_mem hrest)
      rw [Value.same_comm hm.of_cons.1 hk, Value.same_congr hk hkey hm.of_cons.1 hsame,
        Value.same_comm hkey hm.of_cons.1] at hother
      rw [if_neg (by simp [hother])]
      exact ih hm.of_cons.2 hrest

theorem get?_append (h : m.contains key = false) :
    Mapping.get? (m ++ rest) key = rest.get? key := by
  simp only [contains, List.any_eq_false] at h
  rw [get?, get?, List.find?_append, List.find?_eq_none.2 h, Option.none_or]

theorem insert_append (h : m.contains key = false) :
    Mapping.insert (m ++ rest) key value = m ++ rest.insert key value := by
  induction m with
  | nil => rfl
  | cons e m ih =>
    obtain ⟨hother, hrest⟩ := Bool.or_eq_false_iff.1 h
    rw [List.cons_append, insert, if_neg (by simp [hother]), ih hrest, List.cons_append]

theorem same_str (s t : String) : (Value.str s).same (.str t) = (s == t) := by rw [Value.same]

theorem insert_of_not_contains (h : m.contains key = false) (value : Value) :
    m.insert key value = m ++ [(key, value)] := by
  have hinsert : Mapping.insert (m ++ []) key value = m ++ Mapping.insert [] key value :=
    insert_append h
  rwa [List.append_nil] at hinsert

theorem Proper.insert_of_contains (hm : m.Proper) (hkey : key.isKey = true)
    (h : m.contains key = true) (value : Value) :
    Mapping.insert m key value = m.map fun e => if e.1.same key then (e.1, value) else e := by
  induction m with
  | nil => cases h
  | cons e rest ih =>
    obtain ⟨first, u⟩ := e
    unfold Mapping.insert
    by_cases hfirst : first.same key = true
    · have hrest : Mapping.contains rest key = false := by
        rw [contains_eq, hm.get?_rest hkey hfirst, Option.isSome_none]
      have hsame : rest.map (fun e => if e.1.same key then (e.1, value) else e) = rest := by
        rw [contains, List.any_eq_false] at hrest
        rw [List.map_congr_left fun e he => if_neg (hrest e he), List.map_id']
      rw [if_pos hfirst, List.map_cons, if_pos hfirst, hsame]
    · have hrest : Mapping.contains rest key = true := by simpa [contains, hfirst] using h
      rw [if_neg hfirst, List.map_cons, if_neg hfirst, ih hm.of_cons.2 hrest]

end Settings.Mapping
