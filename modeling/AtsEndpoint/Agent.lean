import AtsEndpoint.Event

/-!
# Translation agents

A translation agent is the remote party that turns virtual addresses into
physical ones. It may keep a state between requests, grant or decline as it
likes, and post notices while it answers.
-/

namespace AtsEndpoint

/-- What comes back from a translation agent. -/
structure AgentReply (α : Type u) where
  /-- The granule granted, or why there is none. -/
  answer : Except Fault Translation
  /-- The agent after the request. -/
  agent : α
  /-- The notices posted while answering, in order. -/
  posted : List Notice := []
  /-- What the agent had to say, in order. -/
  remarks : List Remark := []

/-- A party that answers translation requests. -/
class TranslationAgent (α : Type u) where
  /-- Answer one request. -/
  translate : α → TranslationRequest → AgentReply α

/-- The events of one request: it goes out, notices arrive, the agent speaks. -/
def AgentReply.trace (reply : AgentReply α) (request : TranslationRequest) : Trace :=
  (Event.requested request ::
    reply.posted.map Event.posted ++ reply.remarks.map Event.remark).toArray

end AtsEndpoint
