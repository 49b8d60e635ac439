import AtsEndpoint.Agent
import AtsEndpoint.Cache

/-!
# Fills

A fill walks over a range that was widened down to the granule and asks the
agent for all permissions, one request at a time. Each answer becomes a region,
and the walk goes on at the end of that region. It ends once the answered
lengths cover what remained, at the end of the address space, at the first
request that is declined, and at an answer without length.

The walk does not look at the cache: its regions are put behind those already
there when it is over, and the notices posted meanwhile wait in the queue.
-/

namespace AtsEndpoint

/-- A fill in progress: the agent, and what the walk has brought so far. -/
structure Fill (α : Type u) where
  /-- The agent as it is now. -/
  agent : α
  /-- The regions answered, in order. -/
  regions : Array Region := #[]
  /-- The notices posted by the agent, in order. -/
  posted : Array Notice := #[]
  /-- The events of the walk. -/
  trace : Trace := #[]

namespace Fill

variable {α : Type u} [TranslationAgent α]

/-- Ask the agent, and take down what its reply brings besides the answer. -/
def ask (fill : Fill α) (request : TranslationRequest) : Except Fault Translation × Fill α :=
  match fill with
  | { agent, regions, posted, trace } =>
    let reply := TranslationAgent.translate agent request
    (reply.answer,
      { agent := reply.agent
        regions
        posted := posted ++ reply.posted
        trace := trace ++ reply.trace request })

/-- Take down an event. -/
def note (fill : Fill α) (event : Event) : Fill α :=
  { fill with trace := fill.trace.push event }

/-- Keep a region. -/
def keep (fill : Fill α) (region : Region) : Fill α :=
  { fill with
    regions := fill.regions.push region
    trace := fill.trace.push (.cached region) }

/-- Walk on from `address` while `remaining` bytes are wanted. Each turn
subtracts a length that is not zero and below the remainder. -/
def walk (fill : Fill α) (address : Address) (remaining : UInt64) : Fill α :=
  if remaining = 0 then fill
  else
    match fill.ask ⟨address, .all⟩ with
    | (.error fault, fill) => fill.note (.fillDeclined address fault)
    | (.ok answer, fill) =>
      if hlength : answer.length = 0 then fill.note (.fillUnusable address)
      else
        let region := Region.ofTranslation address answer hlength
        let fill := fill.keep region
        if remaining ≤ answer.length then fill
        else
          match addChecked? region.span.start answer.length with
          | none => fill
          | some next => walk fill next (remaining - answer.length)
termination_by remaining.toNat
decreasing_by exact toNat_sub_lt hlength ‹_›

/-- Fill a range: it is widened down to the granule, and all of it is wanted. -/
def run (granule : UInt64) (agent : α) (range : Span) : Fill α :=
  walk { agent } (alignDown range.start granule)
    (addSaturating range.length (granuleOffset range.start granule))

/-- The number of regions that the fill adds. -/
def added (fill : Fill α) : Nat := fill.regions.size

end Fill

end AtsEndpoint
