import RegionGossip.Manager.Task

/-!
# Whole runs of a manager

What arrives on a link in the course of a run, whether its connection breaks, the starts that fail
on the way, and the moments at which no task is in the middle of something.
-/

namespace RegionGossip

/-- The bytes that an event brings on the link of a serial. -/
def Event.arrived (serial : Nat) : Event → List UInt8
  | .arrive reached bytes _ => if reached = serial then bytes else []
  | _ => []

namespace BusyManager

/-- The bytes that arrive on the link of a serial in a run; what comes before the link is made is
not for it. -/
def received (serial : Nat) (busy : BusyManager) : List Event → List UInt8
  | [] => []
  | event :: later =>
    (if (busy.manager.link? serial).isSome then event.arrived serial else []) ++
      match busy.step event with
      | some next => next.received serial later
      | none => []

/-- An event in which the read loop of a link gets its turn and finds the connection broken. -/
def Breaks (busy : BusyManager) (serial : Nat) (fault : IoFault) (event : Event) : Prop :=
  ∃ index chance, event = .work index chance ∧ chance.reading = .breakdown fault ∧
    (busy.tasks[index]?.bind fun task => task.actions.head?) = some (.read serial)

/-- In the course of a run the read loop of a link finds the connection broken. -/
def Broke (busy : BusyManager) (serial : Nat) (events : List Event) (fault : IoFault) : Prop :=
  ∃ front event back before, events = front ++ event :: back ∧
    busy.run front = some before ∧ before.Breaks serial fault event

/-- What becomes of a manager by an event, where a start may fail and then changes nothing. -/
def attempt (busy : BusyManager) : Event → Option BusyManager
  | .start directory binds node =>
    match busy.manager.start directory binds node with
    | .ok _ => busy.step (.start directory binds node)
    | .error _ => some busy
  | event => busy.step event

/-- One event after the other, where starts may fail. -/
def attempts (busy : BusyManager) : List Event → Option BusyManager
  | [] => some busy
  | event :: later => (busy.attempt event).bind fun next => next.attempts later

/-- Nothing is half done: whatever is pending is the read loop of a link that was not told to end. -/
def Settled (busy : BusyManager) : Prop :=
  ∀ action ∈ busy.pending, ∃ serial link, action = .read serial ∧
    busy.manager.link? serial = some link ∧ link.cancelled = false

/-- Whether an action is the read loop of a link that was not told to end. -/
def isWaiting (busy : BusyManager) : Action → Bool
  | .read serial => (busy.manager.link? serial).any fun link => !link.cancelled
  | _ => false

/-- What is pending tells whether anything is half done. -/
theorem settled_iff (busy : BusyManager) :
    busy.pending.all busy.isWaiting = true ↔ busy.Settled := by
  rw [List.all_eq_true, Settled]
  refine forall_congr' fun action => imp_congr_right fun _ => ?_
  cases action with
  | read serial => simp [isWaiting, Option.any_eq_true]
  | _ => simp [isWaiting]

instance (busy : BusyManager) : Decidable busy.Settled :=
  decidable_of_iff _ busy.settled_iff

end BusyManager

end RegionGossip
