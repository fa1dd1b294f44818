import RegionGossip.Plan.Call

/-!
# Rounds of planning

A planner works in rounds. In each of them it makes a builder from the last plan and from what runs
in the region, calls it any number of times, and freezes it against the state it was made from. The
plan of one round is the last plan of the next one.
-/

namespace RegionGossip

namespace PlanBuilder

/-- The calls that succeed when some are made one after the other. -/
def accepted (builder : PlanBuilder) : List Call → List Call
  | [] => []
  | call :: later =>
    match builder.answer call with
    | .ok changed => call :: changed.accepted later
    | .error _ => builder.accepted later

/-- The weight that a call sets for a container on a node. -/
def Call.weight? (node : NodeId) (container : ContainerId) : Call → Option Binary64
  | .setWeight other target weight =>
    if node == other && container == target then some weight else none
  | _ => none

/-- Whether a call stops the traffic to a container on a node or allows it again. -/
def Call.stopTraffic? (node : NodeId) (container : ContainerId) : Call → Option Bool
  | .setStopTraffic other target stopTraffic =>
    if node == other && container == target then some stopTraffic else none
  | _ => none

/-- Whether a call asks for a container on a node to be stopped, or not to be any more. -/
def Call.stop? (node : NodeId) (container : ContainerId) : Call → Option Bool
  | .setStop other target stop =>
    if node == other && container == target then some stop else none
  | _ => none

end PlanBuilder

/-- What a planner does in one round. -/
structure PlanRound where
  /-- What runs in the region. -/
  live : LiveState
  calls : List PlanBuilder.Call
  overflow : OverflowPlan
  timestamp : Timestamp

namespace PlanRound

/-- The builder of a round as it is made. -/
def seeded (round : PlanRound) (last : Plan) : PlanBuilder := .ofPlan last round.live

/-- The plan of a round. -/
def freeze (round : PlanRound) (last : Plan) : Except PlanError Plan :=
  ((round.seeded last).drive round.calls).freeze round.live round.overflow round.timestamp

/-- The calls of a round that succeed. -/
def accepted (round : PlanRound) (last : Plan) : List PlanBuilder.Call :=
  (round.seeded last).accepted round.calls

end PlanRound

namespace Plan

/-- The plan after some rounds. -/
def after (last : Plan) : List PlanRound → Except PlanError Plan
  | [] => .ok last
  | round :: later => (round.freeze last).bind fun plan => plan.after later

/-- The calls that succeed in some rounds. -/
def accepted (last : Plan) : List PlanRound → List PlanBuilder.Call
  | [] => []
  | round :: later =>
    round.accepted last ++
      match round.freeze last with
      | .ok plan => plan.accepted later
      | .error _ => []

end Plan

end RegionGossip
