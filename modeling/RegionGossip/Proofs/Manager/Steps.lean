import RegionGossip.Proofs.Manager.Actions

/-!
# What an event can do

Every event is described by all that it changes about a manager and its tasks. A turn of a task
takes one action out of what is pending and puts what follows from it in the same place; the other
events leave what is pending as it is, or add the first actions of a new task.
-/

namespace RegionGossip

namespace Manager

/-- The manager after a start. -/
def opened (manager : Manager) (session : Session) : Manager :=
  { manager with session := some session, sessionCount := manager.sessionCount + 1 }

/-- The manager after the first step of a stop of a session. -/
def halted (manager : Manager) (session : Session) : Manager :=
  { manager with
    session := none
    links := manager.links.map fun link =>
      if link.session = session.number then { link with cancelled := true } else link }

/-- A start that succeeds opens a session with the next number. -/
theorem start_eq_ok {manager started : Manager} {directory : Directory}
    {binds : Address → Option IoFault} {node : NodeId} {session : Session} {address : Address}
    (hstart : manager.start directory binds node = .ok (started, session, address)) :
    manager.session = none ∧ session = ⟨manager.sessionCount, node⟩ ∧
      started = manager.opened session := by
  rw [start] at hstart
  cases hsession : manager.session with
  | some current => simp [isRunning, hsession] at hstart
  | none =>
    rw [isRunning, hsession, if_neg (by simp)] at hstart
    split at hstart
    · simp at hstart
    · split at hstart
      · simp at hstart
      · obtain ⟨rfl, rfl, -⟩ : _ ∧ _ ∧ _ := by simpa using hstart
        exact ⟨rfl, rfl, rfl⟩

/-- A stop cancels the links of its session. -/
theorem link?_halted (manager : Manager) (session : Session) (serial : Nat) :
    (manager.halted session).link? serial = (manager.link? serial).map fun link =>
      if link.session = session.number then { link with cancelled := true } else link := by
  refine link?_of_links_map (fun link => ?_) rfl serial
  split <;> rfl

/-- A stop changes links in nothing but that they are cancelled. -/
theorem sameLinks_halted (manager : Manager) (session : Session) :
    SameLinks manager (manager.halted session) := by
  show (manager.links.map _).map Link.identity = _
  rw [List.map_map]
  refine List.map_congr_left fun link _ => ?_
  by_cases hsession : link.session = session.number <;> simp [hsession, Link.identity]

end Manager

namespace BusyManager

variable {busy after : BusyManager}

/-- A start opens a session where none is going on. -/
theorem step_start {directory : Directory} {binds : Address → Option IoFault} {node : NodeId}
    (hstep : busy.step (.start directory binds node) = some after) :
    ∃ session : Session, busy.manager.session = none ∧
      session.number = busy.manager.sessionCount ∧
      after = { busy with
        manager := busy.manager.opened session
        sessions := busy.sessions ++ [session]
        trace := .started session :: busy.trace } := by
  simp only [step] at hstep
  split at hstep
  · rename_i started session address hstart
    obtain ⟨hnone, rfl, rfl⟩ := Manager.start_eq_ok hstart
    exact ⟨⟨busy.manager.sessionCount, node⟩, hnone, rfl, (Option.some.inj hstep).symm⟩
  · simp at hstep

/-- A new task adds its actions to what is pending. -/
theorem pending_append {session : Option Nat} {actions : List Action}
    (htasks : after.tasks = busy.tasks ++ [⟨session, actions⟩]) :
    after.pending = busy.pending ++ actions := by
  simp [pending, htasks]

/-- A greeting adds a link and a task that asks for its place in the table. -/
theorem step_greet {now number : Nat} {origin : Origin} {peer : NodeId} {nonce : Int64}
    (hstep : busy.step (.greet now number origin peer nonce) = some after) :
    ∃ session, busy.sessions[number]? = some session ∧ origin.fits session peer = true ∧
      after = { busy with
        manager := busy.manager.addLink (busy.manager.newLink now session peer nonce)
        tasks := busy.tasks ++
          [⟨some session.number, [.enter busy.manager.nextSerial]⟩] } ∧
      after.pending = busy.pending ++ [.enter busy.manager.nextSerial] := by
  simp only [step, Option.bind_eq_bind, Option.bind_eq_some_iff] at hstep
  obtain ⟨session, hsession, hfits⟩ := hstep
  split at hfits
  · rename_i hwelcome
    obtain rfl := Option.some.inj hfits
    exact ⟨session, hsession, hwelcome, rfl, pending_append rfl⟩
  · simp at hfits

/-- A broadcast adds a task that sends on every link in the table. -/
theorem step_broadcast {payload : Payload} {order : List Nat}
    (hstep : busy.step (.broadcast payload order) = some after) :
    after.manager = busy.manager ∧ after.sessions = busy.sessions ∧ after.trace = busy.trace ∧
      after.pending =
        busy.pending ++ (busy.manager.visits order).map (Action.send payload) := by
  obtain rfl := Option.some.inj hstep
  exact ⟨rfl, rfl, rfl, pending_append rfl⟩

/-- A change of settings takes valid ones and changes nothing else. -/
theorem step_reconfigure {settings : Settings}
    (hstep : busy.step (.reconfigure settings) = some after) :
    settings.isValid = true ∧
      after = { busy with manager := { busy.manager with settings := settings } } := by
  simp only [step] at hstep
  split at hstep
  · rename_i reconfigured hreconfigure
    rw [Manager.reconfigure, Settings.check] at hreconfigure
    split at hreconfigure
    · rename_i hvalid
      obtain rfl : { busy.manager with settings := settings } = reconfigured :=
        Except.ok.inj hreconfigure
      exact ⟨hvalid, (Option.some.inj hstep).symm⟩
    · exact nomatch (show Except.error _ = Except.ok reconfigured from hreconfigure)
  · simp at hstep

/-- A stop ends the session and adds a task that empties the table. -/
theorem step_stop (hstep : busy.step .stop = some after) :
    ∃ session, busy.manager.session = some session ∧
      after = { busy with
        manager := busy.manager.halted session
        tasks := busy.tasks ++ [⟨none, [.drain session.number]⟩]
        trace := .stopped :: busy.trace } ∧
      after.pending = busy.pending ++ [.drain session.number] := by
  simp only [step, Option.bind_eq_bind, Option.bind_eq_some_iff] at hstep
  obtain ⟨session, hsession, stopped, hstopped, hafter⟩ := hstep
  obtain rfl : busy.manager.halted session = stopped := by
    simpa [Manager.beginStop, hsession, Manager.halted] using hstopped
  obtain rfl := Option.some.inj hafter
  exact ⟨session, hsession, rfl, pending_append rfl⟩

/-- A task that is replaced by another one changes what is pending in one place. -/
theorem pending_set {tasks : List Task} {index : Nat} {task : Task}
    (htask : tasks[index]? = some task) :
    ∃ front back, tasks.flatMap Task.actions = front ++ (task.actions ++ back) ∧
      ∀ other : Task, (tasks.set index other).flatMap Task.actions =
        front ++ (other.actions ++ back) := by
  induction tasks generalizing index with
  | nil => simp at htask
  | cons head rest ih =>
    cases index with
    | zero =>
      obtain rfl : head = task := by simpa using htask
      exact ⟨[], rest.flatMap Task.actions, rfl, fun other => rfl⟩
    | succ index =>
      obtain ⟨front, back, hpending, hset⟩ := ih (by simpa using htask)
      refine ⟨head.actions ++ front, back, ?_, fun other => ?_⟩
      · rw [List.flatMap_cons, hpending, List.append_assoc]
      · rw [List.set_cons_succ, List.flatMap_cons, hset, List.append_assoc]

/-- A turn of a task takes one action out of what is pending and puts in what follows from it. -/
theorem step_work {index : Nat} {chance : Chance}
    (hstep : busy.step (.work index chance) = some after) :
    ∃ front action back outcome,
      (busy.tasks[index]?.bind fun task => task.actions.head?) = some action ∧
      busy.manager.perform chance action = some outcome ∧
      busy.pending = front ++ action :: back ∧
      after.pending = front ++ (outcome.next ++ back) ∧
      after.manager = outcome.manager ∧ after.sessions = busy.sessions ∧
      after.trace = outcome.marks ++ busy.trace := by
  simp only [step, work, Option.bind_eq_bind, Option.bind_eq_some_iff] at hstep
  obtain ⟨task, htask, hactions⟩ := hstep
  obtain ⟨front, back, hpending, hset⟩ := pending_set htask
  cases hrow : task.actions with
  | nil => simp [hrow] at hactions
  | cons action rest =>
    simp only [hrow] at hactions
    split at hactions
    · obtain ⟨outcome, hperform, hafter⟩ := Option.bind_eq_some_iff.1 hactions
      obtain rfl := Option.some.inj hafter
      refine ⟨front, action, rest ++ back, outcome, ?_, hperform, ?_, ?_, rfl, rfl, rfl⟩
      · rw [htask, Option.bind_some, hrow, List.head?_cons]
      · rw [pending, hpending, hrow, List.cons_append]
      · rw [pending, hset, List.append_assoc]
    · simp at hactions

end BusyManager

end RegionGossip
