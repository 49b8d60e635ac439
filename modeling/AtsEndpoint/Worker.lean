import AtsEndpoint.Cache.Fill
import AtsEndpoint.Digest.Md5
import AtsEndpoint.Memory
import AtsEndpoint.Notice

/-!
# Workers

A worker carries one request to its end. It waits only where it calls a remote
party, and just before such a call it lets the queued notices take effect: a
fill drains the queue once before its first request, and each physical access
drains it first. A physical address found before the wait is used after it as
it is.

Each worker ends by setting STATUS, unless a physical access fails; then the
fault is handed on and the registers are left alone.
-/

namespace AtsEndpoint

/-- The parts of the endpoint that a worker works on. -/
structure Datapath (α : Type u) (μ : Type v) where
  /-- The registers. -/
  registers : RegisterFile := {}
  /-- The cached translations. -/
  cache : Cache := {}
  /-- The notices that wait. -/
  notices : NoticeQueue := {}
  /-- The translation agent. -/
  agent : α
  /-- The physical memory. -/
  memory : μ

/-- A worker at work: the datapath as it is now, and the events so far. -/
structure Worker (α : Type u) (μ : Type v) extends Datapath α μ where
  /-- The unit in which a range is filled and walked. -/
  granule : Granule
  /-- The events of the work so far. -/
  trace : Trace := #[]

namespace Worker

variable {α : Type u} {μ : Type v}

/-- Take down an event. -/
def note (worker : Worker α μ) (event : Event) : Worker α μ :=
  { worker with trace := worker.trace.push event }

/-- Let the queued notices take effect. -/
def suspend (worker : Worker α μ) : Worker α μ :=
  let drained := worker.notices.drain worker.cache
  { worker with
    notices := drained.state.1
    cache := drained.state.2
    trace := worker.trace ++ drained.trace }

/-- Set STATUS for an operation that has ended well. -/
def complete (worker : Worker α μ) : Worker α μ :=
  { worker with registers := worker.registers.complete }

/-- Set STATUS for an operation that has failed. -/
def fail (worker : Worker α μ) : Worker α μ :=
  { worker with registers := worker.registers.fail }

section Fill

variable [TranslationAgent α]

/-- Fill a range, and count the regions it adds. -/
def fill (worker : Worker α μ) (range : Span) : Nat × Worker α μ :=
  let fill := Fill.run worker.granule.bytes worker.agent range
  (fill.added,
    { worker with
      agent := fill.agent
      cache := worker.cache.append fill.regions.toList
      notices := worker.notices.post fill.posted.toList
      trace := worker.trace ++ fill.trace })

/-- Fill a range unless its first address is cached already. -/
def ensure (worker : Worker α μ) (range : Span) : Nat × Worker α μ :=
  if worker.cache.contains range.start then (0, worker) else worker.suspend.fill range

/-- Find the physical address for a virtual one, after filling a granule if
the address is not cached. -/
def resolve (worker : Worker α μ) (address : Address) (wanted : Permissions) :
    Except Work.Denial Address × Worker α μ :=
  let worker := (worker.ensure ⟨address, worker.granule.bytes⟩).2
  (worker.cache.resolve address wanted, worker)

/-- Walk over a range in strides of one granule, filling where the cache has
nothing, and count the regions added. -/
def stride (worker : Worker α μ) (address : Address) (remaining : UInt64) (filled : Nat) :
    Nat × Worker α μ :=
  if remaining = 0 then (filled, worker)
  else
    let size := worker.granule.bytes
    let (added, next) := worker.ensure ⟨address, size⟩
    if remaining ≤ size then (filled + added, next)
    else
      match addChecked? address size with
      | none => (filled + added, next)
      | some address => stride next address (remaining - size) (filled + added)
termination_by remaining.toNat
decreasing_by exact toNat_sub_lt worker.granule.bytes_ne_zero ‹_›

/-- Fill the cache for a range. This never fails. -/
def translate (worker : Worker α μ) (range : Span) : Work.Outcome × Worker α μ :=
  let (filled, worker) := worker.stride range.start range.length 0
  (.translated filled, worker.complete)

end Fill

section Access

variable [PhysicalMemory μ]

/-- Read physical memory. -/
def readMemory (worker : Worker α μ) (physical : Address) (count : Nat) :
    Except Fault (Payload count) × Worker α μ :=
  let reply := PhysicalMemory.read worker.memory physical count
  (reply.answer,
    { worker with
      memory := reply.memory
      notices := worker.notices.post reply.posted
      trace := worker.trace.push (.readIssued physical count) ++ reply.posted.map Event.posted })

/-- Write physical memory. -/
def writeMemory (worker : Worker α μ) (physical : Address) (bytes : List UInt8) :
    Except Fault Unit × Worker α μ :=
  let reply := PhysicalMemory.write worker.memory physical bytes
  (reply.answer,
    { worker with
      memory := reply.memory
      notices := worker.notices.post reply.posted
      trace := worker.trace.push (.writeIssued physical bytes) ++ reply.posted.map Event.posted })

end Access

section Work

variable [TranslationAgent α] [PhysicalMemory μ]

/-- Read the word at an address into VALUE. Without permission VALUE stays as
it is, and the operation still ends well. -/
def read (worker : Worker α μ) (address : Address) :
    Except Fault Work.Outcome × Worker α μ :=
  match worker.resolve address .read with
  | (.error reason, worker) =>
    (.ok (.denied reason), (worker.note (.readDenied address reason)).complete)
  | (.ok physical, worker) =>
    match worker.suspend.readMemory physical Register.width with
    | (.error fault, worker) => (.error fault, worker)
    | (.ok word, worker) =>
      let value := Word.ofBytes word.val.toList
      (.ok .applied, { worker with registers := worker.registers.set .value value }.complete)

/-- Write a word to an address. Without permission nothing is written, and the
operation still ends well. -/
def write (worker : Worker α μ) (address : Address) (word : UInt32) :
    Except Fault Work.Outcome × Worker α μ :=
  match worker.resolve address .write with
  | (.error reason, worker) =>
    (.ok (.denied reason), (worker.note (.writeDenied address reason)).complete)
  | (.ok physical, worker) =>
    match worker.suspend.writeMemory physical (Word.bytes word) with
    | (.error fault, worker) => (.error fault, worker)
    | (.ok (), worker) => (.ok .applied, worker.complete)

/-- The bytes a checksum has read when its walk ends, and how many it still
wanted. -/
structure Gathered where
  /-- The bytes read, in order. -/
  bytes : ByteArray
  /-- The number of bytes not reached. -/
  remaining : UInt64

/-- Read a range piece by piece, each piece from the first region that holds
the current address. The walk ends early where no readable region is had. -/
def gather (worker : Worker α μ) (address : Address) (remaining : UInt64) (bytes : ByteArray) :
    Except Fault Gathered × Worker α μ :=
  if remaining = 0 then (.ok ⟨bytes, 0⟩, worker)
  else
    let worker := (worker.ensure ⟨address, remaining⟩).2
    match (worker.cache.find? address).filter fun region => region.grants.intersects .read with
    | none => (.ok ⟨bytes, remaining⟩, worker.note (.checksumStopped address))
    | some region =>
      let physical := region.translate address
      let chunk := region.chunk physical remaining
      match worker.suspend.readMemory physical chunk.toNat with
      | (.error fault, worker) => (.error fault, worker)
      | (.ok piece, worker) =>
        gather worker (address + chunk) (remaining - chunk) (bytes ++ piece.val)
termination_by remaining.toNat
decreasing_by exact Region.toNat_sub_chunk_lt _ _ ‹_›

/-- Digest a range into the digest registers. A range that cannot be read to
its end makes the operation fail, and the digest registers stay as they are. -/
def checksum (worker : Worker α μ) (range : Span) : Except Fault Work.Outcome × Worker α μ :=
  match worker.gather range.start range.length ByteArray.empty with
  | (.error fault, worker) => (.error fault, worker)
  | (.ok gathered, worker) =>
    if gathered.remaining = 0 then
      let digest := Md5.digest gathered.bytes
      (.ok (.digested digest),
        { worker with registers := worker.registers.setDigest digest }.complete)
    else (.ok (.aborted (range.length - gathered.remaining)), worker.fail)

/-- Carry out the operation of a request. -/
def perform (worker : Worker α μ) :
    Work.Request → Except Fault Work.Outcome × Worker α μ
  | .translate range =>
    let (outcome, worker) := worker.translate range
    (.ok outcome, worker)
  | .read address => worker.read address
  | .write address word => worker.write address word
  | .checksum range => worker.checksum range

/-- Carry out a request, and mark its start and its end. -/
def execute (worker : Worker α μ) (request : Work.Request) :
    Except Fault Work.Outcome × Worker α μ :=
  match (worker.note (.workStarted request)).perform request with
  | (.error fault, worker) => (.error fault, worker)
  | (.ok outcome, worker) =>
    (.ok outcome, worker.note (.workDone outcome worker.registers.status))

end Work

end Worker

end AtsEndpoint
