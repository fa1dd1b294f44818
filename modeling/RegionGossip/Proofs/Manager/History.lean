import RegionGossip.Proofs.Manager.Wiring

/-!
# What has happened determines the table

The history of a manager is the row of marks that its steps leave behind. The link that a neighbour
is reached by can be read off it: it is the one that was accepted last, unless this very link has left
or a stop has emptied the table since. So can the session that is going on, and which links have
left: those whose read loop has ended, or on which a message could not be sent.
-/

namespace RegionGossip

/-- The link to a neighbour that was accepted last, unless it has left since or the table was
emptied. The newest mark stands first. -/
def holder (peer : NodeId) : List Mark → Option Nat
  | [] => none
  | .accepted other serial :: older =>
    if peer == other then some serial else holder peer older
  | .left serial :: older => (holder peer older).filter (· != serial)
  | .drained :: _ => none
  | _ :: older => holder peer older

/-- The number of the session that was started last, unless it was stopped since. -/
def openSession : List Mark → Option Nat
  | [] => none
  | .started session :: _ => some session.number
  | .stopped :: _ => none
  | _ :: older => openSession older

/-- Marks that change neither the table nor the session do not count. -/
theorem holder_append {marks : List Mark} (hpassing : ∀ mark ∈ marks, mark.isPassing = true)
    (peer : NodeId) (older : List Mark) : holder peer (marks ++ older) = holder peer older := by
  induction marks with
  | nil => rfl
  | cons mark rest ih =>
    have hmark := hpassing mark List.mem_cons_self
    have hrest := ih fun mark hmark => hpassing mark (List.mem_cons_of_mem _ hmark)
    cases mark <;> first | exact hrest | exact absurd hmark (by simp [Mark.isPassing])

/-- Marks that change neither the table nor the session do not count. -/
theorem openSession_append {marks : List Mark} (hpassing : ∀ mark ∈ marks, mark.isPassing = true)
    (older : List Mark) : openSession (marks ++ older) = openSession older := by
  induction marks with
  | nil => rfl
  | cons mark rest ih =>
    have hmark := hpassing mark List.mem_cons_self
    have hrest := ih fun mark hmark => hpassing mark (List.mem_cons_of_mem _ hmark)
    cases mark <;> first | exact hrest | exact absurd hmark (by simp [Mark.isPassing])

namespace Manager

/-- The table and the session are what the history says. -/
structure Recorded (manager : Manager) (trace : List Mark) : Prop where
  table : ∀ peer, manager.table.get? peer = holder peer trace
  session : manager.session.map Session.number = openSession trace

namespace Recorded

variable {manager after : Manager} {trace : List Mark}

/-- An action changes the table as it is recorded. -/
theorem perform {pending : List Action} {action : Action} {chance : Chance} {outcome : Outcome}
    (hwired : Wired manager pending) (hrecorded : Recorded manager trace)
    (hperform : manager.perform chance action = some outcome) :
    Recorded outcome.manager (outcome.marks ++ trace) := by
  have hsession := (continues_perform hperform).session
  rcases table_perform hperform with ⟨htable, hpassing⟩ |
    ⟨entered, link, rfl, hlink, -, htable, hmarks⟩ | ⟨gone, link, -, hlink, hmanager, hmarks⟩ |
    ⟨session, -, htable, hmarks⟩
  · refine ⟨fun peer => ?_, ?_⟩
    · rw [htable, holder_append hpassing, hrecorded.table]
    · rw [hsession, openSession_append hpassing, hrecorded.session]
  · refine ⟨fun peer => ?_, ?_⟩
    · rw [htable, hmarks, SortedMap.get?_insert, hrecorded.table]
      simp only [Ident.compare_eq_iff_beq]
      rfl
    · rw [hsession, hrecorded.session, hmarks]
      rfl
  · refine ⟨fun peer => ?_, ?_⟩
    · rw [hmanager, hmarks, hwired.get?_release hlink, hrecorded.table]
      rfl
    · rw [hsession, hrecorded.session, hmarks]
      rfl
  · refine ⟨fun peer => ?_, ?_⟩
    · rw [htable, hmarks]
      rfl
    · rw [hsession, hrecorded.session, hmarks]
      rfl

/-- A change of neither the table nor the session needs no record. -/
theorem of_eq (hrecorded : Recorded manager trace) (htable : after.table = manager.table)
    (hsession : after.session = manager.session) : Recorded after trace :=
  ⟨fun peer => htable ▸ hrecorded.table peer, hsession ▸ hrecorded.session⟩

end Recorded

end Manager

/-! ## Departures -/

/-- The read loop of a link has ended, or a message could not be sent on it. -/
def Departed (trace : List Mark) (serial : Nat) : Prop :=
  (∃ exit, .exited serial exit ∈ trace) ∨ .failed serial ∈ trace

/-- A link is about to leave the table. -/
def Leaving (pending : List Action) (serial : Nat) : Prop :=
  (∃ exit, .leave serial exit ∈ pending) ∨ .drop serial ∈ pending

/-- A link leaves the table after its read loop has ended or a message could not be sent on it, and
only then. -/
structure Departures (pending : List Action) (trace : List Mark) : Prop where
  leaves : ∀ {serial}, Departed trace serial → .left serial ∈ trace ∨ Leaving pending serial
  departed : ∀ {serial}, .left serial ∈ trace ∨ Leaving pending serial → Departed trace serial

namespace Departures

/-- What is recorded of the departure of a link, and what follows, go together. -/
theorem marks_perform {manager : Manager} {chance : Chance} {action : Action}
    {outcome : Manager.Outcome} (hperform : manager.perform chance action = some outcome)
    (serial : Nat) :
    (Departed outcome.marks serial ↔ Leaving outcome.next serial) ∧
      (.left serial ∈ outcome.marks ↔ Leaving [action] serial) := by
  cases action with
  | enter entered =>
    obtain ⟨link, -, ⟨-, rfl⟩ | ⟨-, rfl⟩⟩ := Manager.perform_enter hperform <;>
      simp [Departed, Leaving]
  | close notify closed =>
    obtain ⟨link, -, ⟨-, rfl⟩ | ⟨-, rfl⟩⟩ := Manager.perform_close hperform <;>
      simp [Departed, Leaving]
  | shut notify closed =>
    obtain rfl := Option.some.inj hperform
    simp [Departed, Leaving]
  | terminate refused =>
    obtain rfl := Option.some.inj hperform
    simp [Departed, Leaving]
  | read read =>
    obtain ⟨link, after, -, -, -, ⟨exit, -, hnexts, hmarks⟩ | ⟨-, hnexts, hmarks⟩⟩ :=
      Manager.perform_read hperform <;> simp [Departed, Leaving, hnexts, hmarks]
  | leave gone exit =>
    obtain ⟨link, -, rfl⟩ := Manager.perform_leave hperform
    by_cases hexit : exit = .cancelled <;> simp [Departed, Leaving, hexit]
  | bury gone released =>
    obtain ⟨link, -, ⟨-, rfl⟩ | ⟨-, rfl⟩⟩ := Manager.perform_bury hperform <;>
      simp [Departed, Leaving]
  | retain peer =>
    obtain ⟨-, rfl⟩ | ⟨-, rfl⟩ := Manager.perform_retain hperform <;> simp [Departed, Leaving]
  | send payload sent =>
    obtain ⟨link, -, -, ⟨error, -, hnexts, hmarks⟩ | ⟨-, hnexts, hmarks⟩⟩ :=
      Manager.perform_send hperform <;> simp [Departed, Leaving, hnexts, hmarks]
  | drop gone =>
    obtain ⟨link, -, rfl⟩ := Manager.perform_drop hperform
    simp [Departed, Leaving]
  | drain session =>
    obtain rfl := Option.some.inj hperform
    simp [Departed, Leaving]
  | finish session serials =>
    obtain rfl := Option.some.inj hperform
    simp [Departed, Leaving]

/-- Departures are recorded in one part of the history or the other. -/
theorem departed_append {newer older : List Mark} {serial : Nat} :
    Departed (newer ++ older) serial ↔ Departed newer serial ∨ Departed older serial := by
  simp only [Departed, List.mem_append, exists_or]
  exact or_or_or_comm

/-- What is about to leave is pending in one part or the other. -/
theorem leaving_append {front back : List Action} {serial : Nat} :
    Leaving (front ++ back) serial ↔ Leaving front serial ∨ Leaving back serial := by
  simp only [Leaving, List.mem_append, exists_or]
  exact or_or_or_comm

/-- One pending action after the other. -/
theorem leaving_cons {action : Action} {back : List Action} {serial : Nat} :
    Leaving (action :: back) serial ↔ Leaving [action] serial ∨ Leaving back serial :=
  show Leaving ([action] ++ back) serial ↔ _ from leaving_append

/-- An action keeps departures in order. -/
theorem perform {manager : Manager} {front back : List Action} {trace : List Mark}
    {chance : Chance} {action : Action} {outcome : Manager.Outcome}
    (hdepartures : Departures (front ++ action :: back) trace)
    (hperform : manager.perform chance action = some outcome) :
    Departures (front ++ (outcome.next ++ back)) (outcome.marks ++ trace) := by
  refine ⟨fun {serial} hdeparted => ?_, fun {serial} hgone => ?_⟩
  · obtain ⟨hnext, hleft⟩ := marks_perform hperform serial
    rw [leaving_append, leaving_append, List.mem_append]
    rcases departed_append.1 hdeparted with hnew | hold
    · exact .inr (.inr (.inl (hnext.1 hnew)))
    · rcases hdepartures.leaves hold with hleftBefore | hleaving
      · exact .inl (.inr hleftBefore)
      · rw [leaving_append, leaving_cons] at hleaving
        rcases hleaving with hfront | haction | hback
        · exact .inr (.inl hfront)
        · exact .inl (.inl (hleft.2 haction))
        · exact .inr (.inr (.inr hback))
  · obtain ⟨hnext, hleft⟩ := marks_perform hperform serial
    have hbefore : .left serial ∈ trace ∨ Leaving (front ++ action :: back) serial →
        Departed (outcome.marks ++ trace) serial :=
      fun hgone => departed_append.2 (.inr (hdepartures.departed hgone))
    rw [leaving_append, leaving_cons] at hbefore
    rw [leaving_append, leaving_append, List.mem_append] at hgone
    rcases hgone with (hnew | hold) | hfront | hnew | hback
    · exact hbefore (.inr (.inr (.inl (hleft.1 hnew))))
    · exact hbefore (.inl hold)
    · exact hbefore (.inr (.inl hfront))
    · exact departed_append.2 (.inl (hnext.2 hnew))
    · exact hbefore (.inr (.inr (.inr hback)))

/-- What has nothing to do with departures keeps them in order. -/
theorem extend {pending more : List Action} {trace marks : List Mark}
    (hdepartures : Departures pending trace) (hmore : ∀ serial, ¬ Leaving more serial)
    (hmarks : ∀ serial, ¬ Departed marks serial ∧ Mark.left serial ∉ marks) :
    Departures (pending ++ more) (marks ++ trace) := by
  refine ⟨fun {serial} hdeparted => ?_, fun {serial} hgone => ?_⟩
  · rw [leaving_append, List.mem_append]
    rcases departed_append.1 hdeparted with hnew | hold
    · exact absurd hnew (hmarks serial).1
    · rcases hdepartures.leaves hold with hleft | hleaving
      · exact .inl (.inr hleft)
      · exact .inr (.inl hleaving)
  · refine departed_append.2 (.inr (hdepartures.departed ?_))
    rw [leaving_append, List.mem_append] at hgone
    rcases hgone with (hnew | hold) | hold | hnew
    · exact absurd hnew (hmarks serial).2
    · exact .inl hold
    · exact .inr hold
    · exact absurd hnew (hmore serial)

/-- New tasks that have nothing to do with departures keep them in order. -/
theorem add {pending more : List Action} {trace : List Mark} (hdepartures : Departures pending trace)
    (hmore : ∀ serial, ¬ Leaving more serial) : Departures (pending ++ more) trace := by
  have hextended : Departures (pending ++ more) ([] ++ trace) :=
    hdepartures.extend hmore (by simp [Departed])
  exact hextended

/-- A mark that has nothing to do with departures keeps them in order. -/
theorem note {pending : List Action} {trace : List Mark} {mark : Mark}
    (hdepartures : Departures pending trace)
    (hmark : ∀ serial, ¬ Departed [mark] serial ∧ Mark.left serial ∉ [mark]) :
    Departures pending (mark :: trace) := by
  have hextended : Departures (pending ++ []) ([mark] ++ trace) :=
    hdepartures.extend (by simp [Leaving]) hmark
  rwa [List.append_nil] at hextended

end Departures

end RegionGossip
