import RegionGossip.Manager.Traffic

/-!
# The tasks of a manager

Several tasks work on one manager at the same time: one for each connection, from the exchange of
greetings to the end of its read loop, one for every broadcast and one for every stop. A task may be
interrupted wherever it waits, for a lock, for the network or for other tasks. What it does between
two such points is an action, which nothing interrupts, and a task is the row of actions that it has
yet to do. The order in which tasks get their turn is open.
-/

namespace RegionGossip

/-- What a read loop meets when it gets its turn. -/
inductive Reading
  /-- A frame, or the fault that no frame can follow. -/
  | frame
  /-- Its cancellation. It may still take a frame instead, if one is there. -/
  | cancellation
  /-- The connection breaks. -/
  | breakdown (fault : IoFault)
  deriving DecidableEq, Repr

/-- What an action meets in its surroundings. -/
structure Chance where
  /-- The time in microseconds. -/
  now : Nat := 0
  reading : Reading := .frame
  /-- Whether a message is lost, where the loss fraction leaves it open. -/
  coin : Bool := false
  /-- Whether the connection takes what is written to it. -/
  writes : Bool := true
  /-- The order in which the links of a table come that is emptied. -/
  order : List Nat := []
  deriving DecidableEq, Repr

/-- What a task does without being interrupted. Links are meant by their serials. -/
inductive Action
  /-- A new link asks for its place in the table. -/
  | enter (serial : Nat)
  /-- A link is cancelled, before its write half is given up. -/
  | close (notify : Bool) (serial : Nat)
  /-- The write half of a link is given up. -/
  | shut (notify : Bool) (serial : Nat)
  /-- A link that was turned down is marked as terminated. -/
  | terminate (serial : Nat)
  /-- The read loop of a link takes one frame. -/
  | read (serial : Nat)
  /-- A link whose read loop has ended leaves the table. -/
  | leave (serial : Nat) (exit : LinkExit)
  /-- A link whose read loop has ended is marked as terminated. -/
  | bury (serial : Nat) (released : Bool)
  /-- The last state of a neighbour is kept unless it has another link. -/
  | retain (peer : NodeId)
  /-- A payload is sent on a link. -/
  | send (payload : Payload) (serial : Nat)
  /-- A link on which sending failed leaves the table. -/
  | drop (serial : Nat)
  /-- The table is emptied by a stop of a session. -/
  | drain (session : Nat)
  /-- The links that a stop has closed are marked as terminated, once nothing else of the session
  goes on. -/
  | finish (session : Nat) (serials : List Nat)

/-- What has happened to a manager. -/
inductive Mark
  | started (session : Session)
  | stopped
  | accepted (peer : NodeId) (serial : Nat)
  | refused (peer : NodeId) (serial : Nat)
  /-- The read loop of a link has ended. -/
  | exited (serial : Nat) (exit : LinkExit)
  /-- A message could not be sent on a link. -/
  | failed (serial : Nat)
  /-- The table was told to let go of a link. -/
  | left (serial : Nat)
  /-- The table was emptied. -/
  | drained

/-- The read loop of a link gets its turn; it may find nothing to do. -/
def Link.readOnce (link : Link) (chance : Chance) : Option Link :=
  match link.readLoop, chance.reading with
  | .running, .frame => link.takeFrame chance.now
  | .running, .cancellation => if link.cancelled then some (link.endReading .cancelled) else none
  | .running, .breakdown fault => some (link.endReading (.failed (.io fault)))
  | _, _ => none

namespace Manager

/-- What follows from an action: the manager after it, what the task has to do next, and what is
to be recorded of it. -/
structure Outcome where
  manager : Manager
  next : List Action := []
  marks : List Mark := []

/-- One action, unless it has to wait. -/
def perform (manager : Manager) (chance : Chance) : Action → Option Outcome
  | .enter serial => do
    let link ← manager.link? serial
    match manager.enter chance.now link with
    | (.refused, after) =>
      some ⟨after, [.close true serial, .terminate serial], [.refused link.peer serial]⟩
    | (.accepted displaced, after) =>
      some ⟨after, (displaced.map (Action.close true)).toList ++ [.read serial],
        [.accepted link.peer serial]⟩
  | .close notify serial => do
    let link ← manager.link? serial
    if link.state = .terminated then some ⟨manager, [], []⟩
    else some ⟨manager.modifyLink serial Link.cancel, [.shut notify serial], []⟩
  | .shut notify serial =>
    some ⟨manager.modifyLink serial (Link.shut manager.settings notify), [], []⟩
  | .terminate serial => some ⟨manager.modifyLink serial Link.terminate, [], []⟩
  | .read serial => do
    let link ← manager.link? serial
    let after ← link.readOnce chance
    let read := manager.modifyLink serial fun link => (link.readOnce chance).getD link
    match after.readLoop with
    | .ended exit => some ⟨read, [.leave serial exit], [.exited serial exit]⟩
    | _ => some ⟨read, [.read serial], []⟩
  | .leave serial exit => do
    let link ← manager.link? serial
    let closing := if exit = .cancelled then [] else [Action.close false serial]
    some ⟨manager.release link, closing ++ [.bury serial (manager.holds link)], [.left serial]⟩
  | .bury serial released => do
    let link ← manager.link? serial
    let buried := manager.modifyLink serial Link.terminate
    if released then some ⟨buried.remember link.peer, [], []⟩
    else some ⟨buried, [.retain link.peer], []⟩
  | .retain peer =>
    if manager.table.contains peer then some ⟨manager, [], []⟩
    else some ⟨manager.remember peer, [], []⟩
  | .send payload serial => do
    let link ← manager.link? serial
    let sent := manager.modifyLink serial fun link =>
      (link.send manager.settings payload chance.coin chance.writes).2
    match (link.send manager.settings payload chance.coin chance.writes).1 with
    | .failed _ => some ⟨sent, [.drop serial], [.failed serial]⟩
    | _ => some ⟨sent, [], []⟩
  | .drop serial => do
    let link ← manager.link? serial
    some ⟨manager.release link, [.close false serial], [.left serial]⟩
  | .drain session =>
    let (serials, drained) := manager.drain chance.order
    some ⟨drained, serials.map (Action.close true) ++ [.finish session serials], [.drained]⟩
  | .finish _ serials => some ⟨manager.finishStop serials, [], []⟩

end Manager

/-- A task that is going on. -/
structure Task where
  /-- The session whose end waits for the task, if there is one. -/
  session : Option Nat
  /-- What the task has yet to do. -/
  actions : List Action

/-- A manager together with the tasks that work on it. -/
structure BusyManager where
  manager : Manager
  /-- Every session that was opened, in order. -/
  sessions : List Session
  tasks : List Task
  /-- What has happened, the newest first. -/
  trace : List Mark

/-- What may happen next to a manager with its tasks. -/
inductive Event
  /-- A start that succeeds. -/
  | start (directory : Directory) (binds : Address → Option IoFault) (node : NodeId)
  /-- The greetings on a connection are exchanged, in the session of a number. -/
  | greet (now : Nat) (session : Nat) (origin : Origin) (peer : NodeId) (nonce : Int64)
  /-- Bytes arrive on a link, and perhaps the end of its stream. -/
  | arrive (serial : Nat) (bytes : List UInt8) (ended : Bool)
  /-- A broadcast begins, and will come to the links that are in the table in some order. -/
  | broadcast (payload : Payload) (order : List Nat)
  | reconfigure (settings : Settings)
  /-- A stop begins. -/
  | stop
  /-- A task gets its turn. -/
  | work (index : Nat) (chance : Chance)

/-- Whether a connection may come about in a session: a dial is made to another node, and the
neighbour that answers is welcome. -/
def Origin.fits (session : Session) (peer : NodeId) (origin : Origin) : Bool :=
  origin.welcomes session peer &&
    match origin with
    | .accepted => true
    | .dialed wanted => !(wanted == session.node)

namespace BusyManager

/-- A manager that was never started, without any task. -/
def idle (settings : Settings) (timing : Timing) : BusyManager :=
  ⟨.idle settings timing, [], [], []⟩

/-- Everything that the tasks have yet to do. -/
def pending (busy : BusyManager) : List Action := busy.tasks.flatMap Task.actions

/-- Whether nothing is left to do for a session. -/
def isOver (busy : BusyManager) (session : Nat) : Bool :=
  busy.tasks.all fun task => task.session != some session || task.actions.isEmpty

/-- Whether an action need not wait for other tasks. -/
def mayBegin (busy : BusyManager) : Action → Bool
  | .finish session _ => busy.isOver session
  | _ => true

/-- The first action of a task is done, if it can be. -/
def work (busy : BusyManager) (index : Nat) (chance : Chance) : Option BusyManager := do
  let task ← busy.tasks[index]?
  match task.actions with
  | [] => none
  | action :: rest =>
    if busy.mayBegin action then
      let outcome ← busy.manager.perform chance action
      return { busy with
        manager := outcome.manager
        tasks := busy.tasks.set index { task with actions := outcome.next ++ rest }
        trace := outcome.marks ++ busy.trace }
    else none

/-- What becomes of a manager with its tasks by an event, if it can happen. -/
def step (busy : BusyManager) : Event → Option BusyManager
  | .start directory binds node =>
    match busy.manager.start directory binds node with
    | .ok (started, session, _) =>
      some { busy with
        manager := started
        sessions := busy.sessions ++ [session]
        trace := .started session :: busy.trace }
    | .error _ => none
  | .greet now number origin peer nonce => do
    let session ← busy.sessions[number]?
    if origin.fits session peer then
      let link := busy.manager.newLink now session peer nonce
      some { busy with
        manager := busy.manager.addLink link
        tasks := busy.tasks ++ [⟨some session.number, [.enter link.serial]⟩] }
    else none
  | .arrive serial bytes ended =>
    some { busy with manager := busy.manager.modifyLink serial fun link => link.arrive bytes ended }
  | .broadcast payload order =>
    some { busy with
      tasks := busy.tasks ++ [⟨none, (busy.manager.visits order).map (Action.send payload)⟩] }
  | .reconfigure settings =>
    match busy.manager.reconfigure settings with
    | .ok reconfigured => some { busy with manager := reconfigured }
    | .error _ => none
  | .stop => do
    let session ← busy.manager.session
    let stopped ← busy.manager.beginStop
    return { busy with
      manager := stopped
      tasks := busy.tasks ++ [⟨none, [.drain session.number]⟩]
      trace := .stopped :: busy.trace }
  | .work index chance => busy.work index chance

/-- One event after the other. -/
def run (busy : BusyManager) : List Event → Option BusyManager
  | [] => some busy
  | event :: later => (busy.step event).bind fun next => next.run later

end BusyManager

end RegionGossip
