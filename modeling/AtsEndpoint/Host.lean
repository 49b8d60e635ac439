import AtsEndpoint.Endpoint.Schedule

/-!
# The host

A host drives an endpoint through its registers alone: it programs the address
and the length, clears STATUS, writes a trigger bit to CTRL, and polls STATUS,
letting queued work run between polls. A run that ends well leaves nothing in
the queue, so the polling ends after at most one of them.
-/

namespace AtsEndpoint

/-- What STATUS says about the last operation. -/
structure Completion where
  /-- The operation has ended. -/
  done : Bool
  /-- The operation failed. -/
  failed : Bool
deriving DecidableEq, Repr

namespace Completion

/-- Read the bits of STATUS. -/
def ofStatus (status : UInt32) : Completion :=
  ⟨status &&& Status.done ≠ 0, status &&& Status.failed ≠ 0⟩

/-- The operation has ended, and it did not fail. -/
def isOk (completion : Completion) : Bool :=
  completion.done && !completion.failed

/-- A completion as text, field by field. -/
def text (completion : Completion) : String :=
  "CompletionStatus \x7b done: " ++ toString completion.done
    ++ ", err: " ++ toString completion.failed ++ " \x7d"

end Completion

namespace Host

variable {α : Type u} {μ : Type v}

/-- Program the address and the length of an operation. -/
def program (endpoint : Endpoint α μ) (address : Address) (length : UInt32) :
    Step (Endpoint α μ) Unit :=
  (endpoint.write32 Register.addrMsb.offset (address >>> 32).toUInt32).andThen fun _ endpoint =>
  (endpoint.write32 Register.addrLsb.offset address.toUInt32).andThen fun _ endpoint =>
  endpoint.write32 Register.length.offset length

variable [TranslationAgent α] [PhysicalMemory μ]

/-- Poll STATUS until it is set, after so many runs of queued work and behind
so many events. It is a fault when STATUS is clear and nothing is left to run. -/
def poll (endpoint : Endpoint α μ) (polls : Nat) (trace : Trace) :
    Step (Endpoint α μ) (Except Fault Completion) :=
  let seen := endpoint.read32 Register.status.offset
  let trace := trace ++ seen.trace
  if seen.result ≠ 0 then
    { result := .ok (.ofStatus seen.result)
      state := endpoint
      trace := trace.push (.statusSeen seen.result polls) }
  else if endpoint.pending = [] then
    { result := .error (.state .nothingPending), state := endpoint, trace }
  else
    match _ : endpoint.runPending with
    | { result := .error fault, state, trace := events } =>
      { result := .error fault, state, trace := trace ++ events }
    | { result := .ok _, state, trace := events } => poll state (polls + 1) (trace ++ events)
termination_by endpoint.pending.length
decreasing_by
  rename_i hpending count hrun
  have hempty : state.pending = [] := by
    have h := Endpoint.pending_runPending_of_ok (congrArg Step.result hrun)
    rwa [hrun] at h
  rw [hempty]
  exact List.length_pos_iff.mpr hpending

/-- Wait until STATUS is set. -/
def waitForDone (endpoint : Endpoint α μ) : Step (Endpoint α μ) (Except Fault Completion) :=
  poll endpoint 0 #[]

/-- Clear STATUS, write a trigger bit to CTRL, and wait. -/
def trigger (endpoint : Endpoint α μ) (control : UInt32) :
    Step (Endpoint α μ) (Except Fault Completion) :=
  (endpoint.write32 Register.status.offset 0).andThen fun _ endpoint =>
  (endpoint.write32 Register.ctrl.offset control).andThen fun _ endpoint =>
  waitForDone endpoint

/-- Fill the cache for a range. -/
def translate (endpoint : Endpoint α μ) (address : Address) (length : UInt32) :
    Step (Endpoint α μ) (Except Fault Completion) :=
  (program endpoint address length).andThen fun _ endpoint => trigger endpoint Control.translate

/-- Read the word at an address. The word is what VALUE holds afterwards. -/
def readWord (endpoint : Endpoint α μ) (address : Address) :
    Step (Endpoint α μ) (Except Fault (Completion × UInt32)) :=
  (program endpoint address 4).andThen fun _ endpoint =>
  (trigger endpoint Control.read).andThen fun result endpoint =>
  match result with
  | .error fault => { result := .error fault, state := endpoint }
  | .ok completion =>
    (endpoint.read32 Register.value.offset).map fun word => .ok (completion, word)

/-- Write a word to an address. -/
def writeWord (endpoint : Endpoint α μ) (address : Address) (word : UInt32) :
    Step (Endpoint α μ) (Except Fault Completion) :=
  (program endpoint address 4).andThen fun _ endpoint =>
  (endpoint.write32 Register.value.offset word).andThen fun _ endpoint =>
  trigger endpoint Control.write

/-- Read the digest registers in order. -/
def readDigest (endpoint : Endpoint α μ) : Step (Endpoint α μ) Digest :=
  (endpoint.read32 (Register.digestOffset 0)).andThen fun first endpoint =>
  (endpoint.read32 (Register.digestOffset 1)).andThen fun second endpoint =>
  (endpoint.read32 (Register.digestOffset 2)).andThen fun third endpoint =>
  (endpoint.read32 (Register.digestOffset 3)).map fun fourth =>
  .ofWords #v[first, second, third, fourth]

/-- The digest of a range, or nothing when the endpoint reports a failure. -/
def checksum (endpoint : Endpoint α μ) (address : Address) (length : UInt32) :
    Step (Endpoint α μ) (Except Fault (Option Digest)) :=
  (program endpoint address length).andThen fun _ endpoint =>
  (trigger endpoint Control.checksum).andThen fun result endpoint =>
  match result with
  | .error fault => { result := .error fault, state := endpoint }
  | .ok completion =>
    if completion.failed then { result := .ok none, state := endpoint }
    else (readDigest endpoint).map fun digest => .ok (some digest)

end Host

end AtsEndpoint
