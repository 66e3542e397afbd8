import Settings.Proofs.Bracketing

/-! # Clearings of keys

What lies under a key is looked up for a clearing only when the clearing has been
announced. A key that cannot be read is therefore refused too late: nothing is cleared,
but everyone has been told that it is about to be, and nobody hears of it again.
-/

namespace Settings

open Settings.Action

variable {c : ConfigurationId} {w : World} {change : Change} {fault : Fault}

theorem Listener.isPassive_of_record {l : Listener} (h : l.reaction = .record) :
    l.isPassive = true := by
  rw [isPassive, h]

theorem Listener.refuses_of_record {l : Listener} (h : l.reaction = .record) (event : Event) :
    l.refuses event = false := by
  rw [refuses, h]

namespace Change

def isClearing : Change → Bool
  | clearProperty _ | clearTree _ => true
  | _ => false

theorem accepts_iff_of_isClearing (hclears : change.isClearing = true) :
    change.Accepts c w ↔ ∃ nodes, w.fetchNodes c change.key = .ok nodes := by
  cases change with
  | clearProperty key => exact Iff.rfl
  | clearTree key => exact Iff.rfl
  | _ => cases hclears

theorem exists_prepare_of_isClearing (hclears : change.isClearing = true) (w : World) :
    ∃ carryOut, change.prepare c w = .ok carryOut ∧ ∀ u fault,
      u.fetchNodes c change.key = .error fault → carryOut.run u = .error fault u := by
  cases change with
  | clearProperty key =>
    refine ⟨_, rfl, fun u fault hunread => ?_⟩
    rw [run_read_bind, show u.fetchNodes c key = .error fault from hunread]
  | clearTree key =>
    refine ⟨_, rfl, fun u fault hunread => ?_⟩
    rw [run_read_bind, show u.fetchNodes c key = .error fault from hunread]
  | _ => cases hclears

end Change

section

variable (hclears : change.isClearing = true)
  (hrecord : ∀ l ∈ (w.configuration c).listeners, (w.listener l).reaction = .record)

include hclears hrecord

/-- A key that cannot be read is refused when its clearing has been announced. -/
theorem run_clearing_of_unread (hunread : w.fetchNodes c change.key = .error fault) :
    (change.perform c).run w = .error fault
      (w.notedBy (change.event c w true) (w.configuration c).listeners) := by
  have hne : ∀ key, change ≠ .addNodes key [] := by
    rintro key rfl
    cases hclears
  have hpassive : ∀ l ∈ (w.configuration c).listeners, (w.listener l).isPassive = true :=
    fun l hl => Listener.isPassive_of_record (hrecord l hl)
  have haccept (event : Event) : ∀ l ∈ (w.configuration c).listeners,
      (w.listener l).refuses event = false :=
    fun l hl => Listener.refuses_of_record (hrecord l hl) event
  obtain ⟨carryOut, hprepare, hrefused⟩ := Change.exists_prepare_of_isClearing hclears w
  rw [Change.run_perform_eq hne, EStateM.run_bind, Change.run_opening hpassive haccept, hprepare]
  dsimp only
  rw [Change.conclude, EStateM.run_bind, hrefused]
  exact (SameTree.notedBy c w _ _).fetchNodes.trans hunread

theorem run_clearing_of_read {nodes : List NodeId} (hread : w.fetchNodes c change.key = .ok nodes) :
    ∃ w', (change.perform c).run w = .ok () w' ∧ w'.notices = w.notices ++
      noticesOf (change.event c w true) w.forest (w.configuration c).listeners ++
      noticesOf (change.event c w false) w'.forest (w.configuration c).listeners := by
  obtain ⟨carryOut, final, -, hphases⟩ :=
    ((Change.accepts_iff_of_isClearing hclears).2 ⟨nodes, hread⟩).phases
  obtain ⟨w', hrun, rfl, hnotices⟩ := hphases.run_accepted
    (fun l hl => Listener.isPassive_of_record (hrecord l hl))
    (fun l hl => Listener.refuses_of_record (hrecord l hl) _)
    (fun l hl => Listener.refuses_of_record (hrecord l hl) _)
  exact ⟨w', hrun, hnotices⟩

end

/-- A clearing before listeners that only record is refused exactly when its key cannot be read.
This leaves the tree as it was, but not without a trace if anyone listens: everyone has heard of
the clearing beforehand. A clearing that goes through is announced once more. -/
theorem run_clearing (change : Change) (hclears : change.isClearing = true)
    (hrecord : ∀ l ∈ (w.configuration c).listeners, (w.listener l).reaction = .record) :
    let listeners := (w.configuration c).listeners
    let before := change.event c w true
    let after := change.event c w false
    (∀ fault, (∃ w', (change.perform c).run w = .error fault w') ↔
      w.fetchNodes c change.key = .error fault) ∧
    (∀ fault w', (change.perform c).run w = .error fault w' →
      w'.forest = w.forest ∧ w'.notices = w.notices ++ noticesOf before w.forest listeners ∧
        (w'.notices = w.notices ↔ listeners = [])) ∧
    ∀ w', (change.perform c).run w = .ok () w' →
      w'.notices = w.notices ++ noticesOf before w.forest listeners ++
        noticesOf after w'.forest listeners := by
  intro listeners before after
  cases hfetch : w.fetchNodes c change.key with
  | error reason =>
    have hrun := run_clearing_of_unread hclears hrecord hfetch
    refine ⟨fun fault => ?_, ?_, ?_⟩
    · rw [hrun]
      constructor
      · rintro ⟨w', heq⟩
        cases heq
        rfl
      · intro heq
        cases heq
        exact ⟨_, rfl⟩
    · intro fault w' hrefused
      cases hrun.symm.trans hrefused
      refine ⟨World.forest_notedBy, World.notices_notedBy, ?_⟩
      simp [noticesOf, listeners]
    · intro w' hdone
      cases hrun.symm.trans hdone
  | ok nodes =>
    obtain ⟨u, hrun, hnotices⟩ := run_clearing_of_read hclears hrecord hfetch
    refine ⟨fun fault => iff_of_false ?_ ?_, ?_, ?_⟩
    · rintro ⟨w', hrefused⟩
      cases hrun.symm.trans hrefused
    · intro heq
      cases heq
    · intro fault w' hrefused
      cases hrun.symm.trans hrefused
    · intro w' hdone
      cases hrun.symm.trans hdone
      exact hnotices

def World.recorded : World :=
  { World.fresh [] with
    forest := ((Forest.empty.create none .null false).2.createLinked ⟨0⟩ "a" (.int 1) false).2
    configurations := #[⟨⟨0⟩, none, false, none, [⟨0⟩]⟩]
    listeners := #[⟨"first", .record, false⟩] }

/-- A tree is cut down before the listener, and another one is not, as its key is left open. -/
theorem run_clearing_open :
    let c : ConfigurationId := ⟨0⟩
    let accepted := Change.clearTree (some "a")
    let refused := Change.clearTree (some "a[@b")
    (accepted.isClearing = true ∧ refused.isClearing = true ∧
      ∀ l ∈ (World.recorded.configuration c).listeners,
        (World.recorded.listener l).reaction = .record) ∧
    (∃ w', (accepted.perform c).run .recorded = .ok () w' ∧ w'.notices.length = 2) ∧
    ∃ w', (refused.perform c).run .recorded = .error (.unterminatedAttribute "a[@b") w' ∧
      w'.forest = World.recorded.forest ∧ w'.notices.length = 1 := by
  intro c accepted refused
  have hrecord : ∀ l ∈ (World.recorded.configuration c).listeners,
      (World.recorded.listener l).reaction = .record := by
    intro l hl
    obtain rfl := List.mem_singleton.1 hl
    rfl
  refine ⟨⟨rfl, rfl, hrecord⟩, ?_, ?_⟩
  · have hgoes : (accepted.perform c).succeeds .recorded = true := by decide +kernel
    obtain ⟨_, w', hrun⟩ := run_of_succeeds hgoes
    refine ⟨w', hrun, ?_⟩
    rw [(run_clearing accepted rfl hrecord).2.2 w' hrun]
    rfl
  · obtain ⟨hrefused, hleft, -⟩ := run_clearing refused rfl hrecord
    have hunread : World.recorded.fetchNodes c refused.key =
        .error (.unterminatedAttribute "a[@b") := by decide +kernel
    obtain ⟨w', hrun⟩ := (hrefused _).2 hunread
    obtain ⟨hforest, hnotices, -⟩ := hleft _ w' hrun
    refine ⟨w', hrun, hforest, ?_⟩
    rw [hnotices]
    rfl

/-- The listener has heard that a key is about to be cleared, which is then refused. -/
theorem run_clearProperty_announced :
    let c : ConfigurationId := ⟨0⟩
    ∃ fault w', (c.clearProperty (some "a[@b")).run .recorded = .error fault w' ∧
      w'.notices ≠ [] := by
  intro c
  have hfails : (c.clearProperty (some "a[@b")).succeeds .recorded = false := by decide +kernel
  obtain ⟨fault, w', hrun⟩ := run_of_not_succeeds hfails
  have hheard : ((c.clearProperty (some "a[@b")).after .recorded).notices.length = 1 := by
    decide +kernel
  rw [after, hrun] at hheard
  refine ⟨fault, w', hrun, ?_⟩
  rintro hnone
  rw [hnone] at hheard
  cases hheard

end Settings
