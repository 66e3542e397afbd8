import Settings.Configuration.Keys
import Settings.Proofs.Forest.Walks
import Settings.Proofs.Key.Rendering
import Settings.Proofs.Occurrences

/-! # Listed keys

The keys of a configuration are those of the places at which a walk finds a value
or an attribute. Each of them is listed once, where the walk meets it first, and
selects what the walk visits at its place.
-/

namespace Settings

open Markers

def Place.key (place : Place) : String := standard.render place.parts

/-- The place seen from a node above, to which the names in front lead. -/
def Place.behind (front : List String) (place : Place) : Place :=
  { place with names := front ++ place.names }

def Forest.Visit.behind (front : List String) (v : Forest.Visit) : Forest.Visit :=
  { v with place := v.place.behind front }

def FitsKey (name : String) : Prop := (KeyPart.element name none).Expressible '.'

structure Forest.Expressible (f : Forest) (root : NodeId) : Prop where
  child : ∀ p, f.Above root p → ∀ c ∈ (f.node p).children,
    ∃ name, (f.node c).name = some name ∧ FitsKey name
  attr : ∀ p, f.Above root p → ∀ a ∈ (f.node p).attributes,
    ∃ name, (f.node a).name = some name ∧ ']' ∉ name.toList

/-- The names in a tree are ones that keys can express, and none of its attribute
names contains a delimiter. -/
structure Forest.Addressable (f : Forest) (root : NodeId) : Prop where
  child : ∀ p, f.Above root p → ∀ c ∈ (f.node p).children,
    ∃ name, (f.node c).name = some name ∧ FitsKey name
  attr : ∀ p, f.Above root p → ∀ a ∈ (f.node p).attributes,
    ∃ name, (f.node a).name = some name ∧ '.' ∉ name.toList ∧ ']' ∉ name.toList

/-- Whether a walk finds something to list: an attribute, or a value below its start. -/
def Forest.lists (f : Forest) (v : Forest.Visit) : Bool :=
  v.place.attr.isSome || (!v.place.names.isEmpty && !(f.node v.node).value.isNull)

def Forest.listed (f : Forest) (root : NodeId) : List Place :=
  ((f.visits root).filter f.lists).map Forest.Visit.place

variable {w : World} {c : ConfigurationId} {f : Forest} {i : NodeId} {front : List String}
  {name : String} {place : Place}

theorem FitsKey.of_last (hname : NameFits '.' name.toList)
    (hlast : name.toList.getLast? ≠ some ')') : FitsKey name := by
  refine ⟨hname, ?_⟩
  rintro ⟨front, digits, -, -, -, hends⟩
  refine hlast ?_
  rw [hends, ← List.cons_append, ← List.append_assoc, List.getLast?_concat]

theorem isDelimiter_dot : IsDelimiter '.' := ⟨by decide, by decide⟩

theorem toList_escape_standard (name : String) :
    (standard.escape name).toList = doubled '.' name.toList :=
  toList_escape '.' name

theorem escape_of_not_mem (h : '.' ∉ name.toList) : standard.escape name = name := by
  have hsame : doubled '.' name.toList = name.toList.flatMap fun c => [c] := by
    refine List.flatMap_congr fun c hc => if_neg ?_
    rintro rfl
    exact h hc
  rw [← String.toList_inj, toList_escape_standard, hsame, List.flatMap_singleton']

theorem render_concat {m : Markers} {parts : List KeyPart} (hne : parts ≠ []) (part : KeyPart) :
    m.render (parts ++ [part]) = m.render parts ++ String.ofList (part.joined m) := by
  obtain ⟨first, rest, rfl⟩ := List.exists_cons_of_ne_nil hne
  simp [render, String.append_assoc]

theorem key_attributeKey (front : List String) (name : String) :
    Place.key ⟨front, none⟩ ++ standard.attributeKey name = Place.key ⟨front, some name⟩ := by
  have hparts : (⟨front, some name⟩ : Place).parts =
      (⟨front, none⟩ : Place).parts ++ [.attr name] := by simp [Place.parts]
  have hjoined : String.ofList ((KeyPart.attr name).joined standard) =
      standard.attributeKey name := String.ofList_toList ..
  rw [Place.key, Place.key, hparts]
  cases front with
  | nil => simp [Place.parts, render, KeyPart.written]
  | cons first rest => rw [render_concat (by simp [Place.parts]), hjoined]

theorem key_attr (front : List String) (h : '.' ∉ name.toList) :
    Place.key ⟨front, none⟩ ++ standard.attributeKey (standard.escape name) =
      Place.key ⟨front, some name⟩ := by
  rw [escape_of_not_mem h, key_attributeKey]

theorem key_concat (front : List String) (name : String) :
    Place.key ⟨front ++ [name], none⟩ =
      if front = [] then standard.escape name
      else Place.key ⟨front, none⟩ ++ String.ofList standard.delimiter ++ standard.escape name := by
  have hparts : (⟨front ++ [name], none⟩ : Place).parts =
      (⟨front, none⟩ : Place).parts ++ [.element name none] := by simp [Place.parts]
  have hjoined : String.ofList ((KeyPart.element name none).joined standard) =
      String.ofList standard.delimiter ++ standard.escape name := by
    simp [KeyPart.joined, KeyPart.isAttribute, KeyPart.written]
  rw [Place.key, Place.key, hparts]
  cases front with
  | nil => simp [Place.parts, render, KeyPart.written]
  | cons first rest =>
    rw [render_concat (by simp [Place.parts]), hjoined, if_neg (by simp), String.append_assoc]

theorem escape_ne_empty (h : FitsKey name) : standard.escape name ≠ "" := by
  intro hempty
  have hhead := head?_doubled '.' name.toList
  rw [← toList_escape_standard, hempty] at hhead
  exact h.1.ne_nil (List.head?_eq_none_iff.1 hhead.symm)

theorem key_eq_empty_iff (hfront : ∀ name ∈ front, FitsKey name) :
    Place.key ⟨front, none⟩ = "" ↔ front = [] := by
  constructor
  · intro h
    rcases List.eq_nil_or_concat front with rfl | ⟨front, name, rfl⟩
    · rfl
    · rw [List.concat_eq_append, key_concat] at h
      have hname := escape_ne_empty (hfront name (by simp))
      split at h
      · exact absurd h hname
      · exact absurd (String.append_eq_empty_iff.1 h).2 hname
  · rintro rfl
    rfl

theorem below_key (hfront : ∀ name ∈ front, FitsKey name) (name : String) :
    standard.below (Place.key ⟨front, none⟩) (standard.escape name) =
      Place.key ⟨front ++ [name], none⟩ := by
  rw [below, key_concat]
  exact if_congr (key_eq_empty_iff hfront) rfl rfl

namespace Forest

namespace Expressible

theorem below (h : f.Expressible i) {j : NodeId} (hj : f.Above i j) : f.Expressible j where
  child p hp := h.child p (hj.trans hp)
  attr p hp := h.attr p (hj.trans hp)

theorem labelled (h : f.Expressible i) : f.Labelled i := by
  intro p hp b j hj
  cases b with
  | true =>
    obtain ⟨name, hname, -⟩ := h.attr p hp j hj
    rw [hname, label_eq hname]
  | false =>
    obtain ⟨name, hname, -⟩ := h.child p hp j hj
    rw [hname, label_eq hname]

theorem fits_label (h : f.Expressible i) {c : NodeId} (hc : c ∈ (f.node i).children) :
    FitsKey (f.label c) := by
  obtain ⟨name, hname, hfits⟩ := h.child i .here c hc
  rwa [label_eq hname]

theorem fits_of_leads (h : f.Expressible i) (hf : f.WellFormed) {j : NodeId} {names : List String}
    (hj : f.Leads i names j) : f.Above i j ∧ ∀ name ∈ names, FitsKey name := by
  induction hj with
  | here => exact ⟨.here, by simp⟩
  | @child p c i name names hc hname _ ih =>
    have hlabel := h.fits_label hc
    rw [label_eq hname] at hlabel
    obtain ⟨habove, hnames⟩ := ih (h.below (hf.above_child hc))
    exact ⟨(hf.above_child hc).trans habove, List.forall_mem_cons.2 ⟨hlabel, hnames⟩⟩

theorem parts (h : f.Expressible i) (hf : f.WellFormed) {j : NodeId} (hj : f.Occupies i place j) :
    ∀ part ∈ place.parts, part.Expressible '.' := by
  obtain ⟨names, attr⟩ := place
  cases attr with
  | none =>
    simp only [Place.parts, Option.toList_none, List.map_nil, List.append_nil,
      List.forall_mem_map]
    exact (h.fits_of_leads hf hj).2
  | some name =>
    obtain ⟨p, hp, ha, hname⟩ := hj
    obtain ⟨habove, hnames⟩ := h.fits_of_leads hf hp
    obtain ⟨name', hname', hend⟩ := h.attr p habove j ha
    obtain rfl := Option.some.inj (hname.symm.trans hname')
    simp only [Place.parts, Option.toList_some, List.map_singleton, List.forall_mem_append,
      List.forall_mem_map, List.forall_mem_singleton]
    exact ⟨hnames, hend⟩

end Expressible

namespace Addressable

theorem toExpressible (h : f.Addressable i) : f.Expressible i where
  child := h.child
  attr p hp a ha := by
    obtain ⟨name, hname, -, hend⟩ := h.attr p hp a ha
    exact ⟨name, hname, hend⟩

theorem below (h : f.Addressable i) {j : NodeId} (hj : f.Above i j) : f.Addressable j where
  child p hp := h.child p (hj.trans hp)
  attr p hp := h.attr p (hj.trans hp)

theorem labelled (h : f.Addressable i) : f.Labelled i := h.toExpressible.labelled

theorem fits_label (h : f.Addressable i) {c : NodeId} (hc : c ∈ (f.node i).children) :
    FitsKey (f.label c) :=
  h.toExpressible.fits_label hc

theorem not_mem_label (h : f.Addressable i) {a : NodeId} (ha : a ∈ (f.node i).attributes) :
    '.' ∉ (f.label a).toList := by
  obtain ⟨name, hname, hdot, -⟩ := h.attr i .here a ha
  rwa [label_eq hname]

theorem expressible (h : f.Addressable i) (hf : f.WellFormed) {j : NodeId}
    (hj : f.Occupies i place j) : ∀ part ∈ place.parts, part.Expressible '.' :=
  h.toExpressible.parts hf hj

end Addressable

end Forest

theorem parse_key (h : ∀ part ∈ place.parts, part.Expressible '.') :
    standard.parse (some place.key) = .ok place.parts :=
  parse_of_render isDelimiter_dot h

theorem key_inj {other : Place} (h : ∀ part ∈ place.parts, part.Expressible '.')
    (hother : ∀ part ∈ other.parts, part.Expressible '.') (heq : place.key = other.key) :
    place = other := by
  have hparse := parse_key h
  rw [heq, parse_key hother] at hparse
  exact (Place.eq_of_parts (Except.ok.inj hparse)).symm

namespace Forest

def keysOf (f : Forest) (front : List String) (vs : List Visit) : List String :=
  ((vs.map (.behind front)).filter f.lists).map (·.place.key)

theorem keysOf_append (f : Forest) (front : List String) (vs vs' : List Visit) :
    f.keysOf front (vs ++ vs') = f.keysOf front vs ++ f.keysOf front vs' := by
  simp only [keysOf, List.map_append, List.filter_append]

theorem keysOf_flatMap {α : Type} (f : Forest) (front : List String) (l : List α)
    (vs : α → List Visit) :
    f.keysOf front (l.flatMap vs) = l.flatMap fun a => f.keysOf front (vs a) := by
  simp only [keysOf, List.map_flatMap, List.filter_flatMap]

theorem keysOf_under (f : Forest) (front : List String) (name : String) (vs : List Visit) :
    f.keysOf front (vs.map (.under name)) = f.keysOf (front ++ [name]) vs := by
  have hunder : Visit.behind front ∘ Visit.under name = Visit.behind (front ++ [name]) := by
    funext v
    simp [Visit.behind, Visit.under, Place.behind, Place.under]
  rw [keysOf, List.map_map, hunder, keysOf]

theorem keysOf_self (hfront : ∀ name ∈ front, FitsKey name) (i : NodeId) :
    f.keysOf front [⟨⟨[], none⟩, i⟩] =
      if (f.node i).value.isNull || Place.key ⟨front, none⟩ = "" then []
      else [Place.key ⟨front, none⟩] := by
  have hempty := key_eq_empty_iff hfront
  by_cases hnull : (f.node i).value.isNull <;> cases front <;>
    simp_all [keysOf, lists, Visit.behind, Place.behind]

theorem keysOf_attributes (ha : f.Addressable i) (front : List String) :
    f.keysOf front ((f.node i).attributes.map fun a => ⟨⟨[], some (f.label a)⟩, a⟩) =
      (f.node i).attributes.map fun a =>
        Place.key ⟨front, none⟩ ++ standard.attributeKey (standard.escape (f.label a)) := by
  have hall (is : List NodeId) : f.keysOf front (is.map fun a => ⟨⟨[], some (f.label a)⟩, a⟩) =
      is.map fun a => Place.key ⟨front, some (f.label a)⟩ := by
    have hlists : ∀ v ∈ (is.map fun a => ⟨⟨[], some (f.label a)⟩, a⟩).map (Visit.behind front),
        f.lists v = true := by simp [lists, Visit.behind, Place.behind]
    rw [keysOf, List.filter_eq_self.2 hlists, List.map_map, List.map_map]
    simp [Function.comp_def, Visit.behind, Place.behind]
  rw [hall]
  exact List.map_congr_left fun a hmem => (key_attr front (ha.not_mem_label hmem)).symm

end Forest

theorem keysTo_eq (hf : w.forest.WellFormed) (ha : w.forest.Addressable i)
    (hfront : ∀ name ∈ front, FitsKey name) (depth : Nat) :
    w.keysTo standard depth i (Place.key ⟨front, none⟩) =
      w.forest.keysOf front (w.forest.visitsTo depth i) := by
  -- The names in front grow as the walk descends, and the key of its node with them.
  induction depth generalizing i front with
  | zero => rfl
  | succ depth ih =>
    rw [Forest.visitsTo, ← List.singleton_append, Forest.keysOf_append, Forest.keysOf_append,
      Forest.keysOf_flatMap, Forest.keysOf_self hfront, Forest.keysOf_attributes ha]
    refine congrArg (_ ++ ·) (List.flatMap_congr fun child hchild => ?_)
    change w.keysTo standard depth child (standard.below (Place.key ⟨front, none⟩)
      (standard.escape (w.forest.label child))) = _
    rw [below_key hfront, Forest.keysOf_under]
    refine ih (ha.below (hf.above_child hchild)) ?_
    simpa [or_imp, forall_and] using ⟨hfront, ha.fits_label hchild⟩

theorem keysOf_visits (f : Forest) (root : NodeId) :
    f.keysOf [] (f.visits root) = (f.listed root).map Place.key := by
  have hsame : Forest.Visit.behind [] = id := rfl
  rw [Forest.keysOf, hsame, List.map_id, Forest.listed, List.map_map]
  rfl

theorem Forest.lists_iff {v : Forest.Visit} : f.lists v = true ↔
    (v.place.attr = none → v.place.names ≠ [] ∧ (f.node v.node).value.isNull = false) := by
  cases hattr : v.place.attr <;> simp [Forest.lists, hattr]

/-- A place is listed when an attribute is there, or a node below the root with a value. -/
theorem mem_listed_iff (hf : f.WellFormed) (ha : f.Addressable i) :
    place ∈ f.listed i ↔ ∃ j, f.Occupies i place j ∧
      (place.attr = none → place.names ≠ [] ∧ (f.node j).value.isNull = false) := by
  simp only [Forest.listed, List.mem_map, List.mem_filter, Forest.lists_iff,
    hf.mem_visits_iff ha.labelled]
  constructor
  · rintro ⟨v, hv, rfl⟩
    exact ⟨v.node, hv⟩
  · rintro ⟨j, hj⟩
    exact ⟨⟨place, j⟩, hj, rfl⟩

theorem run_getKeys (hf : w.forest.WellFormed) (hm : w.markers c = standard)
    (ha : w.forest.Addressable (w.root c)) :
    w.getKeys c none = .ok ((w.forest.listed (w.root c)).eraseDups.map Place.key) := by
  have hinj : ∀ p ∈ w.forest.listed (w.root c), ∀ q ∈ w.forest.listed (w.root c),
      p.key = q.key → p = q := by
    intro p hp q hq
    obtain ⟨i, hi, -⟩ := (mem_listed_iff hf ha).1 hp
    obtain ⟨j, hj, -⟩ := (mem_listed_iff hf ha).1 hq
    exact key_inj (ha.expressible hf hi) (ha.expressible hf hj)
  have hkeys : w.keysTo standard (w.forest.size + 1) (w.root c) (Place.key ⟨[], none⟩) = _ :=
    keysTo_eq hf ha (by simp) (w.forest.size + 1)
  rw [← eraseDups_map hinj, ← keysOf_visits, Forest.visits, ← hkeys, World.getKeys, hm]
  rfl

/-- Every place at which there is a value or an attribute has one key, and the keys are
listed as a walk meets these places first. A key selects what is at its place, in
document order. -/
theorem World.getKeys_listed (hf : w.forest.WellFormed) (hroot : w.forest.Has (w.root c))
    (hm : w.markers c = standard) (ha : w.forest.Addressable (w.root c)) :
    ∃ places, w.getKeys c none = .ok (places.map Place.key) ∧
      (places.map Place.key).Nodup ∧
      FirstOccurrences (w.forest.listed (w.root c)) places ∧
      (∀ place, place ∈ places ↔ ∃ i, w.forest.Occupies (w.root c) place i ∧
        (place.attr = none → place.names ≠ [] ∧ (w.forest.node i).value.isNull = false)) ∧
      ∀ place ∈ places, ∃ nodes, w.fetchNodes c (some place.key) = .ok nodes ∧
        nodes = w.forest.nodesAt (w.root c) place ∧ nodes.Nodup ∧
        ∀ i, i ∈ nodes ↔ w.forest.Occupies (w.root c) place i := by
  have hmem (place : Place) :
      place ∈ (w.forest.listed (w.root c)).eraseDups ↔ place ∈ w.forest.listed (w.root c) :=
    List.mem_eraseDups
  have hexpressible : ∀ place ∈ (w.forest.listed (w.root c)).eraseDups,
      ∀ part ∈ place.parts, part.Expressible '.' := by
    intro place hplace
    obtain ⟨i, hi, -⟩ := (mem_listed_iff hf ha).1 ((hmem place).1 hplace)
    exact ha.expressible hf hi
  have hfirst := FirstOccurrences.eraseDups (w.forest.listed (w.root c))
  refine ⟨_, run_getKeys hf hm ha, ?_, hfirst,
    fun place => (hmem place).trans (mem_listed_iff hf ha), fun place hplace => ?_⟩
  · exact hfirst.nodup.map_on fun p hp q hq => key_inj (hexpressible p hp) (hexpressible q hq)
  · have hparse := parse_key (hexpressible place hplace)
    have hfollow := hf.follow_parts ha.labelled place
    refine ⟨_, Forest.select_eq_ok.2 ⟨_, hm ▸ hparse, hfollow⟩, rfl, ?_, fun i => ?_⟩
    · rw [← hfollow]
      exact ((Forest.Layer.singleton hroot).follow hf _).nodup
    · simp only [Forest.nodesAt, List.mem_map, List.mem_filter, decide_eq_true_eq]
      constructor
      · rintro ⟨v, ⟨hv, rfl⟩, rfl⟩
        exact (hf.mem_visits_iff ha.labelled).1 hv
      · intro hi
        exact ⟨⟨place, i⟩, ⟨(hf.mem_visits_iff ha.labelled).2 hi, rfl⟩, rfl⟩

/-- A name with the delimiter in it is borne by two nodes, the second of which bears a
value and an attribute. -/
theorem World.getKeys_listed_twins :
    let twin := ((Forest.empty.create none .null false).2.createLinked ⟨0⟩ "a.b" .null false).2
    let twins := ((twin.createLinked ⟨1⟩ "c(" (.int 1) false).2.createLinked ⟨0⟩ "a.b" (.int 2)
      false).2
    let forest := ((twins.createLinked ⟨3⟩ "x" (.str "v") true).2.createLinked ⟨0⟩ "y"
      .null true).2
    let w := { World.fresh [] with forest, configurations := #[.rootedAt ⟨0⟩ none] }
    let c : ConfigurationId := ⟨0⟩
    (forest.WellFormed ∧ forest.Has (w.root c) ∧ w.markers c = standard ∧
      forest.Addressable (w.root c)) ∧
    w.getKeys c none = .ok ["[@y]", "a..b.c(", "a..b", "a..b[@x]"] ∧
    ∃ place : Place, place.key = "a..b" ∧ w.fetchNodes c (some "a..b") = .ok [⟨1⟩, ⟨3⟩] ∧
      ∀ i, i ∈ ([⟨1⟩, ⟨3⟩] : List NodeId) ↔ forest.Occupies ⟨0⟩ place i := by
  intro twin twins forest w c
  have htwin : twin.WellFormed :=
    (Forest.WellFormed.empty.create none .null false).createLinked (by decide)
  have htwins : twins.WellFormed := (htwin.createLinked (by decide)).createLinked (by decide)
  have hf : forest.WellFormed := (htwins.createLinked (by decide)).createLinked (by decide)
  have hnames : ∀ p ∈ List.range forest.size,
      (∀ i ∈ (forest.node ⟨p⟩).children, (forest.node i).name = some "a.b" ∨
        (forest.node i).name = some "c(") ∧
      ∀ i ∈ (forest.node ⟨p⟩).attributes, (forest.node i).name = some "x" ∨
        (forest.node i).name = some "y" := by decide +kernel
  have hrange {p i : NodeId} {b : Bool} (hi : i ∈ (forest.node p).linked b) :
      p.index ∈ List.range forest.size := List.mem_range.2 (Forest.has_of_mem_linked hi)
  have ha : forest.Addressable (w.root c) := by
    refine ⟨fun p _ i hi => ?_, fun p _ i hi => ?_⟩
    · rcases (hnames p.index (hrange (b := false) hi)).1 i hi with hname | hname
      · exact ⟨_, hname, FitsKey.of_last ⟨by decide, by decide, by decide⟩ (by decide)⟩
      · exact ⟨_, hname, FitsKey.of_last ⟨by decide, by decide, by decide⟩ (by decide)⟩
    · rcases (hnames p.index (hrange (b := true) hi)).2 i hi with hname | hname
      · exact ⟨_, hname, by decide, by decide⟩
      · exact ⟨_, hname, by decide, by decide⟩
  obtain ⟨places, hkeys, -, -, -, hselect⟩ := World.getKeys_listed (w := w) (c := c) hf
    (by decide) rfl ha
  have hlisted : w.getKeys c none = .ok ["[@y]", "a..b.c(", "a..b", "a..b[@x]"] := by
    decide +kernel
  have hfetch : w.fetchNodes c (some "a..b") = .ok [⟨1⟩, ⟨3⟩] := by decide +kernel
  have hmem : "a..b" ∈ places.map Place.key := by
    rw [Except.ok.inj (hkeys.symm.trans hlisted)]
    decide
  obtain ⟨place, hplace, hkey⟩ := List.mem_map.1 hmem
  obtain ⟨nodes, hnodes, -, -, hiff⟩ := hselect place hplace
  rw [hkey, hfetch] at hnodes
  obtain rfl := Except.ok.inj hnodes
  exact ⟨⟨hf, by decide, rfl, ha⟩, hlisted, place, hkey, hfetch, hiff⟩

end Settings
