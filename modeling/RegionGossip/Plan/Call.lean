import RegionGossip.Plan.Builder

/-!
# Sequences of changes to a plan

A planner makes a builder, either without entries or from what runs in a region, and then calls it
any number of times. A call that is refused leaves the builder as it was, and the planner may go on
after it.
-/

namespace RegionGossip.PlanBuilder

/-- How a planner comes to a builder. -/
inductive Origin
  | fresh (region : RegionId)
  | seeded (previous : Plan) (live : LiveState)

/-- The builder as it was made. -/
def Origin.builder : Origin → PlanBuilder
  | .fresh region => empty region
  | .seeded previous live => ofPlan previous live

/-- A call that changes a builder. -/
inductive Call
  | addService (node : NodeId) (service : ServiceId) (weight : Binary64)
  /-- Traffic to a container is stopped or allowed again. -/
  | setStopTraffic (node : NodeId) (container : ContainerId) (stopTraffic : Bool)
  /-- A container is to be stopped, or not any more. -/
  | setStop (node : NodeId) (container : ContainerId) (stop : Bool)
  | setWeight (node : NodeId) (container : ContainerId) (weight : Binary64)

/-- What a call answers. -/
def answer (builder : PlanBuilder) : Call → Except PlanError PlanBuilder
  | .addService node service weight => builder.addService node service weight
  | .setStopTraffic node container stopTraffic => builder.setStopTraffic node container stopTraffic
  | .setStop node container stop => builder.setStop node container stop
  | .setWeight node container weight => builder.setWeight node container weight

/-- The builder after a call; a refused call does not change it. -/
def perform (builder : PlanBuilder) (call : Call) : PlanBuilder :=
  match builder.answer call with
  | .ok changed => changed
  | .error _ => builder

/-- The builder after some calls, one after the other. -/
def drive (builder : PlanBuilder) (calls : List Call) : PlanBuilder := calls.foldl perform builder

end RegionGossip.PlanBuilder
