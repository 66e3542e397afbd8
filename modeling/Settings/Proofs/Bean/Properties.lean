import Settings.Bean
import Settings.Proofs.Rosters

/-! # Setting properties

An instance takes properties one after the other. A property that is set again keeps its
place, so what is set in several rounds can be set in one, each property to what it holds
in the end.
-/

namespace Settings

namespace BeanClass

variable {cls : BeanClass} {properties properties' : List (String × BeanProperty)}
  {name name' : String} {p q : BeanProperty} {sets : Roster String BeanProperty}
  {names : List String}

def set (cls : BeanClass) (properties : List (String × BeanProperty)) (name : String)
    (p : BeanProperty) : List (String × BeanProperty) :=
  cls.arrange (Roster.put properties name p)

def fill (cls : BeanClass) (properties : List (String × BeanProperty))
    (sets : List (String × BeanProperty)) : List (String × BeanProperty) :=
  sets.foldl (fun properties e => cls.set properties e.1 e.2) properties

/-- An order in which properties are listed names each of them once. -/
def Orderly (cls : BeanClass) : Prop := ∀ names, cls.order = some names → names.Nodup

theorem set_of_no_order (h : cls.order = none) (properties : List (String × BeanProperty))
    (name : String) (p : BeanProperty) :
    cls.set properties name p = Roster.put properties name p := by
  rw [set, arrange, h]

theorem arrange_congr (horder : cls.order = some names)
    (h : ∀ k ∈ names, properties.filter (·.1 = k) = properties'.filter (·.1 = k)) :
    cls.arrange properties = cls.arrange properties' := by
  rw [arrange, arrange, horder]
  exact List.flatMap_congr h

theorem filter_set (horder : cls.order = some names) (hnodup : names.Nodup) {k : String}
    (hk : k ∈ names) (properties : List (String × BeanProperty)) (name : String)
    (p : BeanProperty) : (cls.set properties name p).filter (·.1 = k) =
      (Roster.put properties name p).filter (·.1 = k) := by
  rw [set, arrange, horder]
  dsimp only
  rw [filter_fibers hnodup, if_pos hk]

theorem set_set (h : cls.Orderly) (properties : List (String × BeanProperty)) (name : String)
    (p q : BeanProperty) :
    cls.set (cls.set properties name p) name q = cls.set properties name q := by
  cases horder : cls.order with
  | none => simp only [set_of_no_order horder, Roster.put_put]
  | some names =>
    refine arrange_congr horder fun k hk => ?_
    have hfilter := filter_set horder (h names horder) hk
    by_cases hname : k = name
    · subst hname
      simp only [Roster.filter_put, hfilter, if_true, Roster.put_put]
    · simp only [Roster.filter_put, hfilter, if_neg hname]

/-- Where the order is not fixed, a property that was set keeps its place. -/
def Placed (cls : BeanClass) (name : String) (properties : List (String × BeanProperty)) : Prop :=
  cls.order = none → name ∈ Roster.names properties

theorem set_comm (h : cls.Orderly) (hne : name' ≠ name) (hplaced : cls.Placed name properties)
    (p q : BeanProperty) : cls.set (cls.set properties name' q) name p =
      cls.set (cls.set properties name p) name' q := by
  cases horder : cls.order with
  | none =>
    simp only [set_of_no_order horder]
    exact Roster.put_comm hne (hplaced horder) p q
  | some names =>
    refine arrange_congr horder fun k hk => ?_
    have hfilter := filter_set horder (h names horder) hk
    by_cases hname : k = name
    · subst hname
      simp only [Roster.filter_put, hfilter, if_true, if_neg (Ne.symm hne)]
    · by_cases hname' : k = name'
      · subst hname'
        simp only [Roster.filter_put, hfilter, if_true, if_neg hne]
      · simp only [Roster.filter_put, hfilter, if_neg hname, if_neg hname']

theorem placed_fill (sets : List (String × BeanProperty)) :
    cls.Placed name (cls.fill (cls.set properties name p) sets) := by
  intro horder
  induction sets using List.reverseRecOn with
  | nil =>
    rw [fill, List.foldl_nil, set_of_no_order horder]
    exact Roster.mem_names_put.2 (.inl rfl)
  | append_singleton sets e ih =>
    rw [fill, List.foldl_concat, set_of_no_order horder]
    exact Roster.mem_names_put.2 (.inr ih)

theorem set_fill (h : cls.Orderly) (hname : name ∉ sets.names) :
    cls.set (cls.fill (cls.set properties name p) sets) name q =
      cls.fill (cls.set properties name q) sets := by
  induction sets using List.reverseRecOn with
  | nil => exact set_set h properties name p q
  | append_singleton sets e ih =>
    rw [Roster.names, List.map_append, List.mem_append, not_or] at hname
    have hne : e.1 ≠ name := fun heq => hname.2 (by simp [heq])
    have ih := ih hname.1
    rw [fill, List.foldl_concat, ← fill, set_comm h hne (placed_fill sets), ih]
    simp [fill]

theorem fill_put (h : cls.Orderly) (hnodup : sets.names.Nodup) (name : String)
    (p : BeanProperty) :
    cls.fill properties (sets.put name p) = cls.set (cls.fill properties sets) name p := by
  induction sets generalizing properties with
  | nil => rfl
  | cons first rest ih =>
    obtain ⟨hfirst, hrest⟩ := List.nodup_cons.1 hnodup
    rw [Roster.put]
    split
    · rename_i heq
      obtain rfl : first.1 = name := beq_iff_eq.1 heq
      exact (set_fill h hfirst).symm
    · exact ih hrest

/-- What is set in two rounds can be set in one. -/
theorem fill_putAll (h : cls.Orderly) (hnodup : sets.names.Nodup)
    (later : List (String × BeanProperty)) :
    cls.fill properties (sets.putAll later) = cls.fill (cls.fill properties sets) later := by
  induction later generalizing sets with
  | nil => rfl
  | cons e later ih =>
    have hput := ih (Roster.nodup_put hnodup e.1 e.2)
    rw [fill_put h hnodup] at hput
    exact hput

end BeanClass

end Settings
