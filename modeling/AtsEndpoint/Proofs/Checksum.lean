import AtsEndpoint.Proofs.Blocks
import AtsEndpoint.Proofs.Bytes

/-!
# Checksums under a storm of notices

A notice may drop the region that a checksum is reading, regions ahead of it,
or regions just filled. Each turn of the walk then hits, refills a long tail or
refills one block. When the agent serves fixed blocks, the piece taken is the
same in all of these cases: it is decided by the block of the current address.

`BlockMap.gather` is the walk over the blocks themselves, without a cache, a
queue or an agent. Every gathering worker computes it, so two endpoints that
differ in nothing but their notices end a checksum alike.
-/

namespace AtsEndpoint

/-- Memories in these states read as a host memory does, whatever notices they
post, and stay in such states. -/
structure HostMemory.Shows (host : HostMemory) {μ : Type v} [PhysicalMemory μ]
    (memories : μ → Prop) : Prop where
  answer : ∀ ⦃memory⦄, memories memory → ∀ physical count,
    (PhysicalMemory.read memory physical count).answer = host.peek physical count
  next : ∀ ⦃memory⦄, memories memory → ∀ physical count,
    memories (PhysicalMemory.read memory physical count).memory

/-- Read a range block by block. -/
def BlockMap.gather (blocks : BlockMap) (host : HostMemory) (address : Address)
    (remaining : UInt64) (bytes : ByteArray) : Except Fault Worker.Gathered :=
  if remaining = 0 then .ok ⟨bytes, 0⟩
  else
    match (blocks.find? address).filter fun block => block.grants.intersects .read with
    | none => .ok ⟨bytes, remaining⟩
    | some block =>
      let physical := block.translate address
      let chunk := block.chunk physical remaining
      match host.peek physical chunk.toNat with
      | .error fault => .error fault
      | .ok piece =>
        gather blocks host (address + chunk) (remaining - chunk) (bytes ++ piece.val)
termination_by remaining.toNat
decreasing_by exact Region.toNat_sub_chunk_lt _ _ ‹_›

namespace Worker

/-- How a checksum of this many bytes ends. -/
def Gathered.outcome (gathered : Gathered) (length : UInt64) : Work.Outcome :=
  if gathered.remaining = 0 then .digested (Md5.digest gathered.bytes)
  else .aborted (length - gathered.remaining)

/-- What the end of a checksum does to the registers. -/
def Gathered.settle (gathered : Gathered) (registers : RegisterFile) : RegisterFile :=
  if gathered.remaining = 0 then (registers.setDigest (Md5.digest gathered.bytes)).complete
  else registers.fail

variable {α : Type u} {μ : Type v} [TranslationAgent α] [PhysicalMemory μ]

theorem registers_gather (worker : Worker α μ) (address : Address) (remaining : UInt64)
    (bytes : ByteArray) :
    (worker.gather address remaining bytes).2.registers = worker.registers :=
  (steady_registers worker.registers).gather address remaining bytes rfl

/-- A checksum ends as what it gathered says. -/
theorem fst_checksum (worker : Worker α μ) (range : Span) :
    (worker.checksum range).1 =
      (worker.gather range.start range.length .empty).1.map (·.outcome range.length) := by
  unfold checksum
  split
  next fault after hgather => rw [hgather]; rfl
  next gathered after hgather =>
    rw [hgather]
    split <;> simp [Except.map, Gathered.outcome, *]

theorem registers_checksum (worker : Worker α μ) (range : Span) :
    (worker.checksum range).2.registers =
      match (worker.gather range.start range.length .empty).1 with
      | .error _ => worker.registers
      | .ok gathered => gathered.settle worker.registers := by
  have hsame := worker.registers_gather range.start range.length .empty
  unfold checksum
  split
  next fault after hgather =>
    rw [hgather] at hsame ⊢
    exact hsame
  next gathered after hgather =>
    rw [hgather] at hsame ⊢
    dsimp only at hsame ⊢
    unfold Gathered.settle
    split <;> simp only [complete, fail, hsame]

/-- The end of a checksum does not touch the memory. -/
theorem memory_checksum (worker : Worker α μ) (range : Span) :
    (worker.checksum range).2.memory =
      (worker.gather range.start range.length .empty).2.memory := by
  unfold checksum
  split
  next fault after hgather => rw [hgather]
  next gathered after hgather =>
    rw [hgather]
    split <;> rfl

variable {blocks : BlockMap} {agents : α → Prop} {host : HostMemory} {memories : μ → Prop}

/-- Gathering depends on the blocks and the bytes alone: not on what is cached,
not on the notices that wait, and not on those posted meanwhile. -/
theorem fst_gather (serves : blocks.Serves agents) (shows : host.Shows memories)
    (worker : Worker α μ) (address : Address) (remaining : UInt64) (bytes : ByteArray)
    (hcovers : blocks.CoversGranule worker.granule) (h : worker.Keeps agents blocks.IsBlock)
    (hmemory : memories worker.memory) :
    (worker.gather address remaining bytes).1 = blocks.gather host address remaining bytes := by
  fun_induction Worker.gather worker address remaining bytes with
  | case1 => rw [BlockMap.gather, if_pos rfl]
  | case2 worker address remaining bytes hremaining ensured hnone =>
      have hfound : ensured.cache.find? address = blocks.find? address :=
        h.find?_ensure serves hcovers ⟨address, remaining⟩ hremaining
      rw [BlockMap.gather, if_neg hremaining, ← hfound, hnone]
  | case3 worker address remaining bytes hremaining ensured region hsome physical chunk fault
      after hread =>
      have hfound : ensured.cache.find? address = blocks.find? address :=
        h.find?_ensure serves hcovers ⟨address, remaining⟩ hremaining
      have hensured : memories ensured.memory := by rwa [memory_ensure]
      have hpeek : (ensured.suspend.readMemory physical chunk.toNat).1 =
          host.peek physical chunk.toNat := shows.answer hensured physical chunk.toNat
      rw [hread] at hpeek
      rw [BlockMap.gather, if_neg hremaining, ← hfound, hsome]
      dsimp only
      rw [← hpeek]
  | case4 worker address remaining bytes hremaining ensured region hsome physical chunk piece
      after hread ih =>
      have hfound : ensured.cache.find? address = blocks.find? address :=
        h.find?_ensure serves hcovers ⟨address, remaining⟩ hremaining
      have hensured : memories ensured.memory := by rwa [memory_ensure]
      have hpeek : (ensured.suspend.readMemory physical chunk.toNat).1 =
          host.peek physical chunk.toNat := shows.answer hensured physical chunk.toNat
      have hshown : memories (ensured.suspend.readMemory physical chunk.toNat).2.memory :=
        shows.next hensured physical chunk.toNat
      have hfollows : (ensured.suspend.readMemory physical chunk.toNat).2.Keeps agents
          blocks.IsBlock :=
        (Datapath.Keeps.invariant serves.yields).readMemory _ _ _ (h.ensure serves.yields _)
      have hgranule : (ensured.suspend.readMemory physical chunk.toNat).2.granule =
          worker.granule := granule_ensure _ _
      rw [hread] at hpeek hshown hfollows hgranule
      rw [BlockMap.gather, if_neg hremaining, ← hfound, hsome]
      dsimp only
      rw [← hpeek]
      exact ih (hgranule ▸ hcovers) hfollows hshown

end Worker

/-! ## A quiet run to compare with -/

/-- The blocks are an agent of their own, which never posts a notice. -/
instance : TranslationAgent BlockMap where
  translate blocks request :=
    match blocks.find? request.address with
    | some block => { answer := .ok block.answer, agent := blocks }
    | none => { answer := .error (.declined request.address), agent := blocks }

theorem BlockMap.serves_self (blocks : BlockMap) : blocks.Serves (· = blocks) := by
  constructor
  · rintro _ rfl address
    simp only [TranslationAgent.translate]
    split <;> simp only [*, Except.toOption, Option.map]
  · rintro _ rfl address
    simp only [TranslationAgent.translate]
    split <;> rfl

/-- A host memory reads as any other that differs in its counters only. -/
theorem HostMemory.shows_plain (host : HostMemory) :
    host.Shows fun memory : HostMemory => memory.plain = host.plain where
  answer memory hmemory physical count := by
    rw [answer_read, ← peek_plain, hmemory, peek_plain]
  next memory hmemory physical count := by
    rw [plain_read, hmemory]

namespace Endpoint

variable {α : Type u} {μ : Type v}

/-- The endpoint with the same registers and cache, over parties that post no
notice, and with no notice waiting. -/
def quiet (endpoint : Endpoint α μ) (blocks : BlockMap) (host : HostMemory) :
    Endpoint BlockMap HostMemory :=
  { registers := endpoint.registers
    cache := endpoint.cache
    agent := blocks
    memory := host
    config := endpoint.config
    config_valid := endpoint.config_valid
    pending := endpoint.pending
    halted := endpoint.halted
    completed := endpoint.completed }

variable [TranslationAgent α] [PhysicalMemory μ]
variable {blocks : BlockMap} {agents : α → Prop} {host : HostMemory} {memories : μ → Prop}

/-- A checksum under an agent that serves blocks ends as the blocks say. -/
theorem execute_checksum (serves : blocks.Serves agents) (shows : host.Shows memories)
    (endpoint : Endpoint α μ) (range : Span) (hcovers : blocks.CoversGranule endpoint.granule)
    (hagent : agents endpoint.agent) (hcache : blocks.Holds endpoint.cache)
    (hmemory : memories endpoint.memory) :
    (endpoint.execute (.checksum range)).result =
        (blocks.gather host range.start range.length .empty).map (·.outcome range.length) ∧
      (endpoint.execute (.checksum range)).state.registers =
        match blocks.gather host range.start range.length .empty with
        | .error _ => endpoint.registers
        | .ok gathered => gathered.settle endpoint.registers := by
  have hgather := Worker.fst_gather serves shows
    (endpoint.worker.note (.workStarted (.checksum range)))
    range.start range.length .empty hcovers ⟨hagent, hcache⟩ hmemory
  rw [← hgather]
  constructor
  · exact (Worker.fst_execute _ _).trans (Worker.fst_checksum _ _)
  · exact (congrArg Datapath.registers (Worker.toDatapath_execute _ _)).trans
      (Worker.registers_checksum _ _)

/-- No notice, wherever it comes from, changes how a checksum ends: neither its
result nor the registers. Notices may wait beforehand, or be posted by the
agent while it answers or by the memory while it reads. -/
theorem checksum_eq_quiet (serves : blocks.Serves agents) (shows : host.Shows memories)
    (endpoint : Endpoint α μ) (range : Span) (hcovers : blocks.CoversGranule endpoint.granule)
    (hagent : agents endpoint.agent) (hcache : blocks.Holds endpoint.cache)
    (hmemory : memories endpoint.memory) :
    let run := endpoint.execute (.checksum range)
    let quietRun := (endpoint.quiet blocks host).execute (.checksum range)
    run.result = quietRun.result ∧ run.state.registers = quietRun.state.registers := by
  obtain ⟨hresult, hregisters⟩ :=
    execute_checksum serves shows endpoint range hcovers hagent hcache hmemory
  obtain ⟨hquiet, hquietRegisters⟩ :=
    execute_checksum blocks.serves_self host.shows_plain (endpoint.quiet blocks host) range hcovers
      rfl hcache rfl
  exact ⟨hresult.trans hquiet.symm, hregisters.trans hquietRegisters.symm⟩

end Endpoint

/-! ## Parties that revoke what they have just given -/

/-- A party that posts the same notices at every call. -/
structure Revoking (π : Type u) where
  /-- The party that answers. -/
  party : π
  /-- The notices posted at every call. -/
  notices : List Notice

/-- A revoking agent also takes back the granule that it grants. -/
instance {α : Type u} [TranslationAgent α] : TranslationAgent (Revoking α) where
  translate agent request :=
    let reply := TranslationAgent.translate agent.party request
    { reply with
      agent := { agent with party := reply.agent }
      posted := reply.posted ++ ⟨request.address, 1⟩ :: agent.notices }

instance {μ : Type v} [PhysicalMemory μ] : PhysicalMemory (Revoking μ) where
  read memory physical count :=
    let reply := PhysicalMemory.read memory.party physical count
    { reply with
      memory := { memory with party := reply.memory }
      posted := reply.posted ++ memory.notices }
  write memory physical bytes :=
    let reply := PhysicalMemory.write memory.party physical bytes
    { reply with
      memory := { memory with party := reply.memory }
      posted := reply.posted ++ memory.notices }

theorem BlockMap.Serves.revoking {blocks : BlockMap} {α : Type u} [TranslationAgent α]
    {agents : α → Prop} (h : blocks.Serves agents) :
    blocks.Serves fun agent : Revoking α => agents agent.party :=
  ⟨fun _ hagent => h.answer hagent, fun _ hagent => h.next hagent⟩

theorem HostMemory.Shows.revoking {host : HostMemory} {μ : Type v} [PhysicalMemory μ]
    {memories : μ → Prop} (h : host.Shows memories) :
    host.Shows fun memory : Revoking μ => memories memory.party :=
  ⟨fun _ hmemory => h.answer hmemory, fun _ hmemory => h.next hmemory⟩

/-- Every granule is its own image, with every permission. -/
def BlockMap.identity (granule : Granule) : BlockMap where
  find? address := some
    { span := .around address granule.bytes
      target := alignDown address granule.bytes
      grants := .all
      length_ne_zero := granule.bytes_ne_zero }
  mem := by
    rintro address _ ⟨⟩
    exact Span.IsAligned.mem_around address granule.isPowerOfTwo
  natural := by
    rintro address _ ⟨⟩
    exact ⟨Span.isAligned_around address granule.isPowerOfTwo,
      dvd_toNat_alignDown address granule.isPowerOfTwo⟩
  constant := by
    rintro address other _ ⟨⟩ hmem
    have haligned := Span.isAligned_around address granule.isPowerOfTwo
    have hstart : alignDown other granule.bytes = alignDown address granule.bytes :=
      haligned.alignDown_eq hmem
    simp only [Span.around, hstart]

theorem BlockMap.coversGranule_identity (granule : Granule) :
    (BlockMap.identity granule).CoversGranule granule := by
  rintro address _ ⟨⟩
  exact UInt64.le_refl _

/-- Three pages digested while every page is revoked as soon as it is granted,
and again by each read. -/
theorem Endpoint.checksum_eq_quiet_of_revoking :
    let page : Granule := ⟨4096, Config.isValid_default⟩
    let host := HostMemory.zeroed 0x1000 0x3000
    let endpoint : Endpoint (Revoking BlockMap) (Revoking HostMemory) :=
      { notices := { waiting := [⟨0, 0x8000⟩] }
        agent := ⟨.identity page, [⟨0x2000, 0x1000⟩]⟩
        memory := ⟨host, [⟨0, 0x8000⟩]⟩
        config := {}
        config_valid := Config.isValid_default }
    let run := endpoint.execute (.checksum ⟨0x1010, 0x2010⟩)
    let quietRun := (endpoint.quiet (.identity page) host).execute (.checksum ⟨0x1010, 0x2010⟩)
    run.result = quietRun.result ∧ run.state.registers = quietRun.state.registers := by
  intro page host endpoint
  exact Endpoint.checksum_eq_quiet (BlockMap.serves_self _).revoking host.shows_plain.revoking
    endpoint _ (BlockMap.coversGranule_identity page) rfl (by rintro _ ⟨⟩) rfl

end AtsEndpoint
