import AtsEndpoint.Config
import AtsEndpoint.Region
import AtsEndpoint.Work

/-!
# Events

Whatever the endpoint does leaves events, in the order in which things happen.
Some of them are words for the log; the others mark the steps that an observer
of the bus would see, such as a translation request or a physical access.
-/

namespace AtsEndpoint

/-- A notice that the translations of a range are no longer good. -/
abbrev Notice := Span

/-- What a translation agent has to say for the log. -/
inductive Remark
  /-- A range was mapped. -/
  | mapped (range : Span) (target : Address) (grants : Permissions)
  /-- A range was unmapped, which took away this many mappings. -/
  | unmapped (range : Span) (removed : Nat)
  /-- The notice for a range found no endpoint. -/
  | undelivered (range : Span)
  /-- A request met no mapping. -/
  | noMapping (address : Address)
deriving DecidableEq, Repr

/-- A thing that happens at the endpoint. -/
inductive Event
  /-- A translation request goes out. -/
  | requested (request : TranslationRequest)
  /-- A physical read of this many bytes goes out. -/
  | readIssued (address : Address) (count : Nat)
  /-- A physical write goes out. -/
  | writeIssued (address : Address) (bytes : List UInt8)
  /-- A notice arrives in the queue. -/
  | posted (notice : Notice)
  /-- The scheduler takes a request from the head of the queue. -/
  | taken (request : Work.Request)
  /-- A translation agent speaks. -/
  | remark (said : Remark)
  /-- A fill keeps an answer as a region. -/
  | cached (region : Region)
  /-- A fill ends at an address that the agent grants nothing for. -/
  | fillDeclined (address : Address) (fault : Fault)
  /-- A fill ends at an answer without length. -/
  | fillUnusable (address : Address)
  /-- A range was dropped from the cache, together with this many regions. -/
  | invalidated (range : Span) (removed : Nat)
  /-- A notice was applied, which dropped this many regions. -/
  | noticeApplied (notice : Notice) (removed : Nat)
  /-- The cache of this many regions was emptied. -/
  | flushed (regions : Nat)
  /-- A configuration was found valid. -/
  | configAccepted (config : Config)
  /-- The endpoint came up. -/
  | started (config : Config)
  /-- A transaction on the configuration space was acknowledged. -/
  | configAccess (offset : Address)
  /-- A register transaction was refused. -/
  | rejected (offset : Address) (length : Nat) (problem : BusProblem)
  /-- A register was read from the bus. -/
  | registerRead (offset : Address) (word : UInt32)
  /-- A register was written from the bus. -/
  | registerWritten (offset : Address) (word : UInt32)
  /-- A CTRL write fired a trigger. -/
  | triggered (control : UInt32) (request : Work.Request)
  /-- A CTRL write was dropped because the endpoint is halted. -/
  | triggerDropped (control : UInt32)
  /-- A worker starts on a request. -/
  | workStarted (request : Work.Request)
  /-- A worker has ended; STATUS now holds these bits. -/
  | workDone (outcome : Work.Outcome) (status : UInt32)
  /-- A word read was not performed. -/
  | readDenied (address : Address) (reason : Work.Denial)
  /-- A word write was not performed. -/
  | writeDenied (address : Address) (reason : Work.Denial)
  /-- A checksum found no readable translation. -/
  | checksumStopped (address : Address)
  /-- A failed request halted the endpoint. -/
  | haltedOn (request : Work.Request) (fault : Fault)
  /-- A failed request was reported in STATUS. -/
  | requestFailed (request : Work.Request) (fault : Fault)
  /-- The endpoint was reset with this many regions in its cache. -/
  | wasReset (regions : Nat)
  /-- The host found STATUS set after running queued work this many times. -/
  | statusSeen (status : UInt32) (polls : Nat)
deriving DecidableEq, Repr

/-- Events in the order in which they happened. -/
abbrev Trace := Array Event

end AtsEndpoint
