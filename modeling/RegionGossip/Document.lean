import RegionGossip.Plan.Document
import RegionGossip.Settings.Document

/-!
# Documents of every kind

Everything that is kept as JSON, by the name of its kind. Reading a document and writing it back
gives its canonical form: fields in their order, unknown ones left out, names spelled as they were
first met.
-/

namespace RegionGossip.Document

/-- The canonical form of a document, given how its kind is read and written. -/
def rewritten {α : Type} (reader : Json.Reader α) (write : α → Json) (document : Json) :
    Option String :=
  (Json.readDocument reader document).map fun content => (write content).render

/-- The canonical form of a name out of a list of names. -/
def rewrittenChoice {α : Type} [DecidableEq α] (choices : List (String × α)) :
    Json → Option String :=
  rewritten (Json.readChoice choices) fun content => Json.str (nameOf choices content)

/-- The canonical form of a node's name. -/
def rewrittenNode : Json → Option String :=
  rewritten (readIdent : Json.Reader NodeId) ofIdent

/-- The kinds of documents. -/
def kinds : List (String × (Json → Option String)) :=
  [("report", rewritten Report.ofDocument Report.document),
    ("summary", rewritten Summary.ofDocument Summary.document),
    ("live", rewritten LiveState.ofDocument LiveState.document),
    ("plan", rewritten Plan.ofDocument Plan.document),
    ("container_info", rewritten PlanEntry.ofDocument PlanEntry.document),
    ("container_state", rewritten ContainerState.ofDocument ContainerState.document),
    ("status", rewrittenChoice statuses),
    ("window", rewrittenChoice windows),
    ("node_attribute", rewrittenChoice nodeAttributes),
    ("link_attribute", rewrittenChoice linkAttributes),
    ("node_id", rewrittenNode),
    ("gossip", rewritten Wire.Verbose.readNormalValue Wire.Verbose.document),
    ("payload", rewritten Wire.Verbose.readPayload Wire.Verbose.payloadDocument),
    ("network_config", rewritten Settings.ofDocument Settings.document),
    ("address", rewritten Address.ofDocument Address.document)]

/-- The canonical form of a text that should be a document of a kind. -/
def canonical? (kind text : String) : Option String := do
  (← kinds.lookup kind) (← Json.parse? text)

end RegionGossip.Document
