import AtsEndpoint.Agent
import AtsEndpoint.Memory.Host

/-!
# Scripted parties

For trying out an endpoint, both remote parties can follow a script. A scripted
agent answers from a list of rules, some of them good for so many uses only. A
scripted memory is a host memory whose accesses can be made to fail. Both can
post notices at chosen moments, and both keep a record of what they were asked.
-/

namespace AtsEndpoint.Bench

/-- The fault that a script asks for. -/
def injected (kind : Fault.Kind) (address : Address) : Fault :=
  .ofKind kind address "injected"

/-- How a scripted agent answers requests for certain addresses. -/
structure Rule where
  /-- The first address that the rule is for. -/
  first : Address
  /-- The last address that the rule is for. -/
  last : Address
  /-- How often the rule may still be used, if that is limited. -/
  uses : Option Nat
  /-- The physical start to answer, if it is fixed. -/
  target : Option Address
  /-- What is added to the address when the physical start is not fixed. -/
  shift : UInt64
  /-- The length to answer. -/
  length : UInt64
  /-- The permissions to answer. -/
  grants : Permissions
  /-- Grant no more than was asked for. -/
  masked : Bool
  /-- The notices to post first. -/
  posts : List Notice
  /-- Then post a notice for the requested address, of the answered length. -/
  postsOwn : Bool
  /-- The kind of fault to answer with instead. -/
  fails : Option Fault.Kind

namespace Rule

/-- The rule is for this address and has not been used up. -/
def applies (rule : Rule) (address : Address) : Bool :=
  rule.first ≤ address ∧ address ≤ rule.last ∧ rule.uses ≠ some 0

/-- The rule after one more use. -/
def used (rule : Rule) : Rule :=
  { rule with uses := rule.uses.map (· - 1) }

/-- The notices that the rule posts on a request. -/
def notices (rule : Rule) (address : Address) : List Notice :=
  rule.posts ++ if rule.postsOwn then [⟨address, rule.length⟩] else []

/-- The answer of the rule. -/
def answer (rule : Rule) (request : TranslationRequest) : Except Fault Translation :=
  match rule.fails with
  | some kind => .error (injected kind request.address)
  | none =>
    .ok
      { target := rule.target.getD (request.address + rule.shift)
        length := rule.length
        grants := if rule.masked then request.wanted &&& rule.grants else rule.grants }

/-- The first rule that applies to an address, and the rules after its use. -/
def useFirst? (address : Address) : List Rule → Option (Rule × List Rule)
  | [] => none
  | rule :: rest =>
    if rule.applies address then some (rule, rule.used :: rest)
    else (useFirst? address rest).map fun (found, rest) => (found, rule :: rest)

end Rule

/-- An agent that answers from rules. -/
structure ScriptedAgent where
  /-- The rules, the first one that applies deciding. -/
  rules : List Rule
  /-- The requests so far. -/
  recorded : Array TranslationRequest := #[]

/-- A request that no rule applies to is declined. -/
instance : TranslationAgent ScriptedAgent where
  translate
    | { rules, recorded }, request =>
      let recorded := recorded.push request
      match Rule.useFirst? request.address rules with
      | some (rule, rules) =>
        { answer := rule.answer request
          agent := { rules, recorded }
          posted := rule.notices request.address }
      | none => { answer := .error (.declined request.address), agent := { rules, recorded } }

/-- What a scripted memory does on one of its accesses. -/
structure Disturbance where
  /-- The number of the access, counted from zero. -/
  access : Nat
  /-- The notices to post. -/
  posts : List Notice
  /-- The kind of fault to fail with. -/
  fails : Option Fault.Kind

/-- An access that a scripted memory was asked for. -/
structure AccessRecord where
  /-- The access is a write. -/
  isWrite : Bool
  /-- The first physical address. -/
  address : Address
  /-- The number of bytes. -/
  count : Nat
deriving DecidableEq, Repr

/-- The notices that disturbances post, and the fault of the first one that
fails; what stands behind that one does not happen. -/
def disturb (address : Address) : List Disturbance → List Notice × Option Fault
  | [] => ([], none)
  | disturbance :: rest =>
    match disturbance.fails with
    | some kind => (disturbance.posts, some (injected kind address))
    | none =>
      let (notices, fault) := disturb address rest
      (disturbance.posts ++ notices, fault)

/-- A host memory that is disturbed now and then. -/
structure ScriptedMemory where
  /-- The memory that serves what does not fail. -/
  host : HostMemory
  /-- The disturbances, in order. -/
  script : List Disturbance
  /-- The accesses so far. -/
  accesses : Array AccessRecord := #[]

namespace ScriptedMemory

/-- Record an access, and find out how it is disturbed. -/
def record (memory : ScriptedMemory) (isWrite : Bool) (address : Address) (count : Nat) :
    (List Notice × Option Fault) × ScriptedMemory :=
  let due := memory.script.filter fun disturbance => disturbance.access = memory.accesses.size
  (disturb address due,
    { memory with accesses := memory.accesses.push ⟨isWrite, address, count⟩ })

/-- An access that is made to fail does not reach the host memory. -/
instance : PhysicalMemory ScriptedMemory where
  read memory physical count :=
    match memory.record false physical count with
    | ((posted, some fault), memory) => { answer := .error fault, memory, posted }
    | ((posted, none), memory) =>
      let reply := PhysicalMemory.read memory.host physical count
      { answer := reply.answer, memory := { memory with host := reply.memory }, posted }
  write memory physical bytes :=
    match memory.record true physical bytes.length with
    | ((posted, some fault), memory) => { answer := .error fault, memory, posted }
    | ((posted, none), memory) =>
      let reply := PhysicalMemory.write memory.host physical bytes
      { answer := reply.answer, memory := { memory with host := reply.memory }, posted }

end ScriptedMemory

end AtsEndpoint.Bench
