import RegionGossip.Manager.Basic

/-!
# Starting and stopping

A start looks up the node's own address and listens there; whatever fails on the way leaves the
manager as it was. A stop takes several steps, between which the links may go on: the session is
taken and cancelled, the table is emptied, the links that were in it are closed one after the other,
and once every task of the session has ended they are marked as terminated. `stop` runs these steps
without a pause and lets the links come to their ends after the last of them is closed.
-/

namespace RegionGossip.Manager

/-- A session begins. `binds` is the fault of listening on an address, if there is one. -/
def start (directory : Directory) (binds : Address → Option IoFault) (node : NodeId)
    (manager : Manager) : Except MeshError (Manager × Session × Address) :=
  if manager.isRunning then .error (.illegalState (.managerStarted node.name))
  else
    match directory.address? node with
    | none => .error (.unknownNode node.name)
    | some address =>
      match binds address with
      | some fault => .error (.io fault)
      | none =>
        let session : Session := ⟨manager.sessionCount, node⟩
        .ok ({ manager with session := some session, sessionCount := manager.sessionCount + 1 },
          session, address)

/-- The neighbours that a start dials: all that are known, except the node itself. -/
def dialed (node : NodeId) (known : List NodeId) : List NodeId :=
  known.filter fun peer => !(peer == node)

/-- Whether the session of a number is still going on. -/
def isLive (manager : Manager) (number : Nat) : Bool :=
  match manager.session with
  | some current => current.number == number
  | none => false

/-- The end of the read loop of a link, and all that follows from it: the table lets go of the link,
its write half is given up, and its state is kept unless the neighbour has another link. -/
def exitLink (manager : Manager) (serial : Nat) (exit : LinkExit) : Manager :=
  match manager.link? serial with
  | none => manager
  | some link =>
    let released := manager.release link
    let closed := if exit = .cancelled then released else released.closeLink false serial
    let terminated := closed.modifyLink serial Link.terminate
    if manager.holds link || !terminated.table.contains link.peer then
      terminated.remember link.peer
    else terminated

/-- A link whose read loop has ended comes to its end. -/
def settleLink (manager : Manager) (serial : Nat) : Manager :=
  match manager.link? serial with
  | none => manager
  | some link =>
    match link.readLoop with
    | .ended exit => if link.state = .terminated then manager else manager.exitLink serial exit
    | _ => manager

/-- The read loop of a link takes everything that has arrived. -/
def readLink (manager : Manager) (now serial : Nat) : Manager :=
  (manager.modifyLink serial fun link => link.read now).settleLink serial

/-- The read loops of all links that were cancelled end. -/
def wakeCancelled (manager : Manager) (now : Nat) : Manager :=
  ((manager.links.filter Link.cancelled).map Link.serial).foldl
    (fun manager serial => manager.readLink now serial) manager

/-- The first step of a stop: the session is taken, and every link of it is cancelled. -/
def beginStop (manager : Manager) : Option Manager :=
  manager.session.map fun session =>
    { manager with
      session := none
      links := manager.links.map fun link =>
        if link.session = session.number then { link with cancelled := true } else link }

/-- The second step: the table is emptied. Gives the serials of the links that were in it, in the
order in which one comes to them. -/
def drain (manager : Manager) (order : List Nat) : List Nat × Manager :=
  (manager.visits order, { manager with table := ∅ })

/-- The third step: the links that were in the table are closed, each with a word to its
neighbour. -/
def closeAll (manager : Manager) (serials : List Nat) : Manager :=
  serials.foldl (closeLink · true ·) manager

/-- The last step for one link. -/
def finishLink (manager : Manager) (serial : Nat) : Manager :=
  match manager.link? serial with
  | none => manager
  | some link => (manager.modifyLink serial Link.terminate).remember link.peer

/-- The last step: the links that were in the table are marked as terminated. -/
def finishStop (manager : Manager) (serials : List Nat) : Manager :=
  serials.foldl finishLink manager

/-- All steps of a stop. There is nothing to stop where no session is going on. -/
def stop (manager : Manager) (now : Nat) (order : List Nat) : Manager :=
  match manager.beginStop with
  | none => manager
  | some cancelled =>
    let (serials, drained) := cancelled.drain order
    ((drained.closeAll serials).wakeCancelled now).finishStop serials

end RegionGossip.Manager
