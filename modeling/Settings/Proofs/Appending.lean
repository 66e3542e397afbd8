import Settings.Proofs.Forest.Appending
import Settings.Proofs.Writing

/-! # What adding a property appends

Where a new node goes is decided anew for each value, on the tree as the values
before have left it. Nothing that was there changes by that, and without indices
the new nodes continue what the key selects.
-/

namespace Settings

open Settings.Action

variable {w : World} {c : ConfigurationId} {key : Option String} {path : List KeyPart}
  {last : KeyPart}

theorem run_addEach_eq (hparse : (w.markers c).parse key = .ok (path ++ [last]))
    (hkinds : ∀ part ∈ path, part.isAttribute = false) (values : List Value) :
    (c.addEach key values).run w =
      .ok () { w with forest := w.forest.insertAll (w.root c) path last values } := by
  induction values generalizing w with
  | nil => rfl
  | cons value values ih =>
    have hplace : w.forest.prepareAdd (w.markers c) (w.root c) key =
        .ok (w.forest.place (w.root c) path last) :=
      Forest.prepareAdd_eq_ok.2 ⟨path, last, hparse, hkinds, rfl⟩
    change ((Action.read fun w => w.forest.prepareAdd (w.markers c) (w.root c) key) >>= _ >>= _).run
      w = _
    rw [bind_assoc, run_read_bind, hplace]
    exact ih (w := { w with forest := _ }) hparse

/-- Without listeners, adding a property inserts a node for each value. -/
theorem run_addProperty (hsilent : (w.configuration c).listeners = [])
    (hparse : (w.markers c).parse key = .ok (path ++ [last]))
    (hkinds : ∀ part ∈ path, part.isAttribute = false) (value : Value) :
    (c.addProperty key value).run w =
      .ok () { w with forest := w.forest.insertAll (w.root c) path last value.spread } := by
  have hplace : w.forest.prepareAdd (w.markers c) (w.root c) key =
      .ok (w.forest.place (w.root c) path last) :=
    Forest.prepareAdd_eq_ok.2 ⟨path, last, hparse, hkinds, rfl⟩
  rw [ConfigurationId.addProperty, ConfigurationId.addPropertyWith, run_read_bind, hplace]
  dsimp only
  rw [EStateM.run_bind, run_announce_of_silent hsilent]
  dsimp only
  rw [EStateM.run_bind, run_addEach_eq hparse hkinds]
  exact run_announce_of_silent hsilent

/-- Adding a property under a key that is accepted leaves the nodes that are there as they are and
appends to their lists only: a node of the last part for each value, in order, and valueless
nodes of the path. Under a key without indices the nodes for the values follow those that the
key selected before, and each name that the path lacked is created once at most. -/
theorem World.appends_addProperty (hf : w.forest.WellFormed) (hroot : w.forest.Has (w.root c))
    (hsilent : (w.configuration c).listeners = [])
    (haccepted : ∃ place, w.forest.prepareAdd (w.markers c) (w.root c) key = .ok place)
    (value : Value) :
    ∃ path last g steps created old,
      (w.markers c).parse key = .ok (path ++ [last]) ∧ w.fetchNodes c key = .ok old ∧
      (c.addProperty key value).run w = .ok () { w with forest := g } ∧
      Forest.Appends path last value.spread w.forest g steps created ∧
      ((∀ part ∈ path ++ [last], part.index? = none) →
        World.fetchNodes { w with forest := g } c key = .ok (old ++ created) ∧
        steps.map (fun i => (g.node i).name) =
          if value.spread.isEmpty then [] else (w.forest.deepest (w.root c) path).2.map some) := by
  obtain ⟨place, hplace⟩ := haccepted
  obtain ⟨path, last, hparse, hkinds, -⟩ := Forest.prepareAdd_eq_ok.1 hplace
  obtain ⟨steps, created, happends, hplain⟩ :=
    Forest.exists_appends_insertAll hf hroot path last value.spread
  refine ⟨path, last, _, steps, created, _, hparse, Forest.select_eq_ok.2 ⟨_, hparse, rfl⟩,
    run_addProperty hsilent hparse hkinds value, happends, fun hindex => ?_⟩
  have hpath : ∀ part ∈ path, part.index? = none ∧ part.isAttribute = false := fun part hpart =>
    ⟨hindex part (List.mem_append_left _ hpart), hkinds part hpart⟩
  obtain ⟨hfollow, hsteps⟩ := hplain hpath (hindex last (by simp))
  exact ⟨Forest.select_eq_ok.2 ⟨_, hparse, hfollow⟩, hsteps⟩

/-- The path is only there below the first of two branches, so it is created below the last one:
once for both values. -/
theorem World.appends_addProperty_branches :
    let branch := ((Forest.empty.create none .null false).2.createLinked ⟨0⟩ "a" .null false).2
    let forest := ((branch.createLinked ⟨1⟩ "b" .null false).2.createLinked
      ⟨0⟩ "a" (.int 7) false).2
    let w := { World.fresh [] with forest, configurations := #[.rootedAt ⟨0⟩ none] }
    let value := Value.list [.int 1, .null]
    ∃ path last g steps created old,
      Markers.standard.parse (some "a.b.c") = .ok (path ++ [last]) ∧
      w.fetchNodes ⟨0⟩ (some "a.b.c") = .ok old ∧
      (ConfigurationId.addProperty ⟨0⟩ (some "a.b.c") value).run w =
        .ok () { w with forest := g } ∧
      Forest.Appends path last [.int 1, .null] forest g steps created ∧
      ((∀ part ∈ path ++ [last], part.index? = none) →
        World.fetchNodes { w with forest := g } ⟨0⟩ (some "a.b.c") = .ok (old ++ created) ∧
        steps.map (fun i => (g.node i).name) = (forest.deepest ⟨0⟩ path).2.map some) := by
  intro branch forest w value
  have hbranch : branch.WellFormed :=
    (Forest.WellFormed.empty.create none .null false).createLinked (by decide)
  have hforest : forest.WellFormed :=
    (hbranch.createLinked (by decide)).createLinked (by decide)
  exact appends_addProperty (w := w) (c := ⟨0⟩) hforest (by decide) rfl
    (exists_of_toBool (by decide +kernel)) value

end Settings
