import Mathlib.Data.List.Basic
import RegionGossip.Node
import RegionGossip.Proofs.CommandLine.Options
import RegionGossip.Proofs.Manager.Steps
import RegionGossip.Proofs.SortedMap.Lookup

/-!
# Where a node listens and what it dials

The own address of a node and those of its neighbours go into one directory, the own one first. A
later entry replaces an earlier one whose name differs at most in the case of letters, so a node
dials each neighbour at the address that was given for it last. The same holds of its own name: a
neighbour that is given under it is not dialed, but its address takes the place of the one that the
node was told to listen at.
-/

namespace RegionGossip

namespace CommandLine

variable {line : CommandLine} {listen : Address}

/-- The address of the last neighbour that is given under a name, in whatever case. -/
def lastGiven? (line : CommandLine) (node : NodeId) : Option Address :=
  (line.neighbors.reverse.find? fun neighbor => node == ⟨neighbor.1⟩).map Prod.snd

/-- Where a node listens that was told to listen at an address: a neighbour of its own name has the
last word. -/
def listensAt (line : CommandLine) (listen : Address) : Address :=
  (line.lastGiven? line.node).getD listen

/-- After some registrations a node is at the address that was registered for it last. -/
theorem address?_foldl_register (neighbors : List (String × Address)) (directory : Directory)
    (node : NodeId) :
    (neighbors.foldl (fun directory (name, address) => directory.register ⟨name⟩ address)
        directory).address? node =
      ((neighbors.reverse.find? fun neighbor => node == ⟨neighbor.1⟩).map Prod.snd).or
        (directory.address? node) := by
  induction neighbors generalizing directory with
  | nil => rfl
  | cons neighbor rest ih =>
    obtain ⟨name, address⟩ := neighbor
    have hregister : (directory.register ⟨name⟩ address).address? node =
        if (node == ⟨name⟩) = true then some address else directory.address? node := by
      simp only [← Ident.compare_eq_iff_beq]
      exact directory.addresses.get?_insert ⟨name⟩ node address
    rw [List.foldl_cons, ih, hregister, List.reverse_cons, List.find?_append]
    cases hlater : rest.reverse.find? fun neighbor => node == ⟨neighbor.1⟩ with
    | some found => rfl
    | none => by_cases hname : (node == ⟨name⟩) = true <;> simp [hname]

/-- Nodes are where they were given last, and the node itself is at least where it listens. -/
theorem exists_directory (hlisten : Address.parse line.listen = .ok listen) :
    ∃ directory, line.directory = .ok directory ∧ ∀ node,
      directory.address? node =
        (line.lastGiven? node).or (if (node == line.node) = true then some listen else none) := by
  refine ⟨_, bind_eq_ok_iff.2 ⟨listen, hlisten, rfl⟩, fun node => ?_⟩
  rw [address?_foldl_register, ← lastGiven?]
  congr 1
  simp only [← Ident.compare_eq_iff_beq]
  exact SortedMap.get?_insert ∅ line.node node listen

/-- Every neighbour that is known was given an address. -/
theorem isSome_lastGiven? {peer : NodeId} (hknown : peer ∈ line.known) :
    (line.lastGiven? peer).isSome = true := by
  obtain ⟨neighbor, hneighbor, rfl⟩ := List.mem_map.1 hknown
  rw [lastGiven?, Option.isSome_map, List.find?_isSome]
  exact ⟨neighbor, List.mem_reverse.2 hneighbor, BEq.rfl⟩

/-- A node of whose name no neighbour is listens where it was told to. -/
theorem listensAt_of_no_namesake
    (hothers : ∀ neighbor ∈ line.neighbors, (line.node == ⟨neighbor.1⟩) = false)
    (listen : Address) : line.listensAt listen = listen := by
  have hnone : line.lastGiven? line.node = none := by
    rw [lastGiven?, Option.map_eq_none_iff, List.find?_eq_none]
    intro neighbor hneighbor
    simpa using hothers neighbor (List.mem_reverse.1 hneighbor)
  rw [listensAt, hnone, Option.getD_none]

end CommandLine

/-- A manager that was never started listens where its node is, if that is possible. -/
theorem Manager.start_idle {settings : Settings} {timing : Timing} {directory : Directory}
    {binds : Address → Option IoFault} {node : NodeId} {address : Address}
    (hown : directory.address? node = some address) :
    (Manager.idle settings timing).start directory binds node = match binds address with
      | some fault => .error (.io fault)
      | none => .ok ((Manager.idle settings timing).opened ⟨0, node⟩, ⟨0, node⟩, address) := by
  rw [start, if_neg (by simp [isRunning, idle]), hown]
  rfl

namespace Node

variable {readFile : String → Option String} {binds : Address → Option IoFault}
  {line : CommandLine} {settings : Settings} {listen : Address} {node : Node}

/-- Once its settings are loaded and its address is read, it depends only on the address where a
node listens whether it comes up. -/
theorem exists_start_eq (hsettings : initialSettings readFile line = .ok settings)
    (hlisten : Address.parse line.listen = .ok listen) :
    ∃ node : Node, node.line = line ∧ node.address = line.listensAt listen ∧
      (∀ peer, (peer == line.node) = false →
        node.directory.address? peer = line.lastGiven? peer) ∧
      start readFile binds line = match binds (line.listensAt listen) with
        | some fault => .error (.manager (.io fault))
        | none => .ok node := by
  obtain ⟨directory, hdirectory, haddress⟩ := CommandLine.exists_directory hlisten
  have hown : directory.address? line.node = some (line.listensAt listen) := by
    rw [haddress, if_pos BEq.rfl, CommandLine.listensAt]
    cases line.lastGiven? line.node <;> rfl
  obtain ⟨runtime, hruntime⟩ : ∃ runtime,
      (Runtime.idle line.node (MaxKernel.ofSeed line.seedValue)).start = .ok runtime := ⟨_, rfl⟩
  refine ⟨⟨line, directory, line.listensAt listen, ⟨0, line.node⟩,
    (Manager.idle settings {}).opened ⟨0, line.node⟩, runtime⟩, rfl, rfl, fun peer hpeer => ?_, ?_⟩
  · rw [haddress, hpeer, if_neg Bool.false_ne_true, Option.or_none]
  · rw [start, hsettings, hdirectory]
    simp only [bind, Except.bind, Except.mapError, Manager.start_idle hown, hruntime]
    cases binds (line.listensAt listen) <;> rfl

/-- A node comes up exactly when its settings can be loaded, its address can be read, and nothing
keeps it from listening. -/
theorem exists_start_eq_ok_iff :
    (∃ node, start readFile binds line = .ok node) ↔
      ∃ settings listen, initialSettings readFile line = .ok settings ∧
        Address.parse line.listen = .ok listen ∧ binds (line.listensAt listen) = none := by
  constructor
  · rintro ⟨node, hstart⟩
    obtain ⟨settings, hsettings, hrest⟩ := bind_eq_ok_iff.1 hstart
    cases hlisten : Address.parse line.listen with
    | error fault =>
      rw [CommandLine.directory, hlisten] at hrest
      contradiction
    | ok listen =>
      obtain ⟨_, -, -, -, hstarts⟩ := exists_start_eq hsettings hlisten
      rw [hstarts] at hstart
      refine ⟨settings, listen, hsettings, rfl, ?_⟩
      cases hbinds : binds (line.listensAt listen) with
      | some fault => exact nomatch hbinds ▸ hstart
      | none => rfl
  · rintro ⟨settings, listen, hsettings, hlisten, hbinds⟩
    obtain ⟨node, -, -, -, hstarts⟩ := exists_start_eq hsettings hlisten
    exact ⟨node, by rw [hstarts, hbinds]⟩

/-- What a node dials: each entry of another name once, at the address that this name was given
last. -/
theorem dials_eq (hline : node.line = line)
    (hplaces : ∀ peer, (peer == line.node) = false →
      node.directory.address? peer = line.lastGiven? peer) :
    node.dials = (Manager.dialed line.node line.known).filterMap fun peer =>
      (line.lastGiven? peer).map (peer, ·) := by
  subst hline
  refine List.filterMap_congr fun peer hpeer => ?_
  rw [hplaces peer (by simpa [Manager.dialed] using (List.mem_filter.1 hpeer).2)]

/-- Every entry of another name is dialed. -/
theorem map_fst_dials (hdials : node.dials = (Manager.dialed line.node line.known).filterMap
      fun peer => (line.lastGiven? peer).map (peer, ·)) :
    node.dials.map Prod.fst = line.known.filter fun peer => !(peer == line.node) := by
  rw [hdials, List.map_filterMap, Manager.dialed]
  refine (List.filterMap_eq_map_iff_forall_eq_some.2 fun peer hpeer => ?_).trans (List.map_id _)
  obtain ⟨address, haddress⟩ :=
    Option.isSome_iff_exists.1 (CommandLine.isSome_lastGiven? (List.mem_filter.1 hpeer).1)
  rw [haddress]
  rfl

/-- An accepted command line says by its options, in their order, who the node is, where it is to
listen and who its neighbours are. The node comes up exactly when its settings can be loaded and it
can listen where the last neighbour of its own name is given, or at its listening address if there
is none; a node that has come up listens there. It dials every entry of another name at the address
that was given last for this name, in whatever case, and never itself. -/
theorem listens_and_dials_last_given {environment : Environment} {arguments : List String}
    (haccepted : CommandLine.parseIn environment arguments = .ok line) :
    (∃ entries, CommandLine.Gives arguments entries ∧
      (CommandLine.valuesOf .nodeId entries = [line.nodeId] ∨
        CommandLine.valuesOf .nodeId entries = [] ∧ environment.nodeId = some line.nodeId) ∧
      (CommandLine.valuesOf .listen entries = [line.listen] ∨
        CommandLine.valuesOf .listen entries = [] ∧
          line.listen = environment.listen.getD CommandLine.defaultListen) ∧
      (CommandLine.valuesOf .neighbor entries).map Address.parseNeighbor =
        line.neighbors.map .ok) ∧
    ∀ (readFile : String → Option String) (binds : Address → Option IoFault),
      ((∃ node, start readFile binds line = .ok node) ↔
        ∃ settings listen, initialSettings readFile line = .ok settings ∧
          Address.parse line.listen = .ok listen ∧ binds (line.listensAt listen) = none) ∧
      ∀ node, start readFile binds line = .ok node →
        (∃ listen, Address.parse line.listen = .ok listen ∧ node.address = line.listensAt listen ∧
          ((∀ neighbor ∈ line.neighbors, (line.node == ⟨neighbor.1⟩) = false) →
            node.address = listen)) ∧
        (node.dials.map Prod.fst = line.known.filter fun peer => !(peer == line.node)) ∧
        ∀ peer address, (peer, address) ∈ node.dials →
          (peer == line.node) = false ∧ line.lastGiven? peer = some address := by
  refine ⟨CommandLine.exists_gives_of_parseIn haccepted, fun readFile binds =>
    ⟨exists_start_eq_ok_iff, fun node hstart => ?_⟩⟩
  obtain ⟨settings, listen, hsettings, hlisten, hbinds⟩ := exists_start_eq_ok_iff.1 ⟨node, hstart⟩
  obtain ⟨node, hline, haddress, hplaces, hstarts⟩ := exists_start_eq hsettings hlisten
  obtain rfl := Except.ok.inj (hstart.symm.trans (hstarts.trans (by rw [hbinds])))
  have hdials := dials_eq hline hplaces
  refine ⟨⟨listen, hlisten, haddress, fun hothers => ?_⟩, map_fst_dials hdials,
    fun peer address hdial => ?_⟩
  · rw [haddress, CommandLine.listensAt_of_no_namesake hothers]
  · rw [hdials] at hdial
    obtain ⟨other, hother, hpair⟩ := List.mem_filterMap.1 hdial
    obtain ⟨found, hfound, hpair⟩ := Option.map_eq_some_iff.1 hpair
    obtain ⟨rfl, rfl⟩ := Prod.mk.inj hpair
    exact ⟨by simpa [Manager.dialed] using (List.mem_filter.1 hother).2, hfound⟩

/-- A neighbour that is given twice in different case is dialed where it was given last, and a node
that no neighbour is named after listens where it was told to. -/
theorem respelled_neighbor_dialed_last :
    ∃ line node,
      CommandLine.parseIn { listen := some "127.0.0.1:7601" }
        ["--node-id=N1", "--neighbor", "b=10.0.0.2:1", "--neighbor=B=10.0.0.3:2"] = .ok line ∧
      start (fun _ => none) (fun _ => none) line = .ok node ∧
      node.address = ⟨"127.0.0.1", 7601⟩ ∧
      node.dials.map Prod.fst = [⟨"b"⟩, ⟨"B"⟩] ∧
      ∀ peer address, (peer, address) ∈ node.dials → address = ⟨"10.0.0.3", 2⟩ := by
  let line : CommandLine :=
    { nodeId := "N1", listen := "127.0.0.1:7601"
      neighbors := [("b", ⟨"10.0.0.2", 1⟩), ("B", ⟨"10.0.0.3", 2⟩)]
      config := none, cycleInterval := 2000, seedValue := 0 }
  have haccepted : CommandLine.parseIn { listen := some "127.0.0.1:7601" }
      ["--node-id=N1", "--neighbor", "b=10.0.0.2:1", "--neighbor=B=10.0.0.3:2"] = .ok line := rfl
  have hparse : Address.parse line.listen = .ok ⟨"127.0.0.1", 7601⟩ := by decide
  obtain ⟨hstarts, hnodes⟩ :=
    (listens_and_dials_last_given haccepted).2 (fun _ => none) (fun _ => none)
  obtain ⟨node, hstart⟩ := hstarts.2 ⟨{}, _, rfl, hparse, rfl⟩
  obtain ⟨⟨listen, hlisten, -, hsame⟩, hpeers, hlast⟩ := hnodes node hstart
  obtain rfl := Except.ok.inj (hparse.symm.trans hlisten)
  refine ⟨line, node, haccepted, hstart, hsame (by decide), hpeers, fun peer address hdial => ?_⟩
  have hboth : node.dials.map Prod.fst = [⟨"b"⟩, ⟨"B"⟩] := hpeers
  have hpeer : peer ∈ [(⟨"b"⟩ : NodeId), ⟨"B"⟩] := hboth ▸ List.mem_map_of_mem hdial
  have hgiven := (hlast peer address hdial).2
  rcases List.mem_cons.1 hpeer with rfl | hpeer
  · exact (Option.some.inj hgiven).symm
  · obtain rfl := List.mem_singleton.1 hpeer
    exact (Option.some.inj hgiven).symm

/-- A neighbour of the node's own name takes the place of its listening address. A machine that
knows only its own address could have listened where it was told to, but not where the neighbour is,
and the node does not come up. -/
theorem namesake_replaces_listen :
    let ownOnly (address : Address) : Option IoFault :=
      if address.host = "127.0.0.1" then none else some .addressNotAvailable
    ∃ line node,
      CommandLine.parseIn {}
        ["--node-id", "N1", "--cycle-interval-ms", "60000", "--listen", "127.0.0.1:0",
          "--neighbor", "n1=192.0.2.1:5"] = .ok line ∧
      Address.parse line.listen = .ok ⟨"127.0.0.1", 0⟩ ∧
      start (fun _ => none) (fun _ => none) line = .ok node ∧
      node.address = ⟨"192.0.2.1", 5⟩ ∧ node.address ≠ ⟨"127.0.0.1", 0⟩ ∧
      ownOnly ⟨"127.0.0.1", 0⟩ = none ∧
      start (fun _ => none) ownOnly line = .error (.manager (.io .addressNotAvailable)) := by
  intro ownOnly
  let line : CommandLine :=
    { nodeId := "N1", listen := "127.0.0.1:0", neighbors := [("n1", ⟨"192.0.2.1", 5⟩)]
      config := none, cycleInterval := 60000, seedValue := 0 }
  have hlisten : Address.parse line.listen = .ok ⟨"127.0.0.1", 0⟩ := by decide
  have hreplaced : line.listensAt ⟨"127.0.0.1", 0⟩ = ⟨"192.0.2.1", 5⟩ := by decide
  obtain ⟨node, -, haddress, -, hstart⟩ :=
    @exists_start_eq (fun _ => none) (fun _ => none) line {} _ rfl hlisten
  obtain ⟨_, -, -, -, hfails⟩ := @exists_start_eq (fun _ => none) ownOnly line {} _ rfl hlisten
  rw [hreplaced] at haddress hfails
  refine ⟨line, node, rfl, hlisten, hstart, haddress, ?_, rfl, hfails⟩
  rw [haddress]
  decide

end Node

end RegionGossip
