import AtsEndpoint.Endpoint.Software
import AtsEndpoint.Proofs.Answers
import AtsEndpoint.Proofs.Bytes
import AtsEndpoint.Proofs.Checksum

/-!
# Work without a cache

The reference for what a request does has no cache, no fills and no notices. It
looks up every single byte in the mapping table at the moment it is touched. A
word access is decided by the mapping of its first byte, and a checksum takes
its range one byte at a time.

While the cache holds nothing but blocks of the table, a worker does the same:
it reports the same end of the request, and leaves the same registers and the
same bytes in memory.
-/

namespace AtsEndpoint

/-! ## The reference -/

/-- The report of a result. -/
def report : Except Fault Work.Outcome → Report
  | .ok outcome => outcome.report
  | .error fault => .error fault.kind

/-- The physical address for a virtual one, if its mapping grants one of the
permissions, or why there is none. -/
def Iommu.resolve (iommu : Iommu) (address : Address) (wanted : Permissions) :
    Except Work.Denial Address :=
  match iommu.find? address with
  | none => .error .notFound
  | some mapping =>
    if mapping.grants.intersects wanted then .ok (mapping.image address)
    else .error .permissionDenied

/-- Digest as many bytes as are left behind those taken already, each of them
looked up by itself. -/
def Iommu.digest (iommu : Iommu) (host : HostMemory) (address : Address) (bytes : ByteArray) :
    Nat → Report
  | 0 => .ok (.digested (Md5.digest bytes))
  | count + 1 =>
    match iommu.resolve address .read with
    | .error _ => .ok (.aborted bytes.size.toUInt64)
    | .ok physical =>
      host.feed physical 1 fun byte => digest iommu host (address + 1) (bytes ++ byte) count

/-- The registers, and the bytes in memory. -/
structure Plain where
  /-- The registers. -/
  registers : RegisterFile
  /-- The memory; what it counts does not matter. -/
  memory : HostMemory

namespace Plain

/-- Set STATUS for an operation that has ended well. -/
def complete (plain : Plain) : Plain :=
  { plain with registers := plain.registers.complete }

/-- Read the word at a physical address. -/
def fetch (plain : Plain) (physical : Address) : Report × Plain :=
  match plain.memory.peek physical Register.width with
  | .error fault => (.error fault.kind, plain)
  | .ok word =>
    let value := Word.ofBytes word.val.toList
    (.ok .applied, { plain with registers := plain.registers.set .value value }.complete)

/-- Write a word to a physical address. -/
def store (plain : Plain) (physical : Address) (word : UInt32) : Report × Plain :=
  match plain.memory.poke physical (Word.bytes word) with
  | .error fault => (.error fault.kind, plain)
  | .ok memory => (.ok .applied, { plain with memory }.complete)

/-- Read a word. -/
def read (plain : Plain) (iommu : Iommu) (address : Address) : Report × Plain :=
  match iommu.resolve address .read with
  | .error reason => (.ok (.denied reason), plain.complete)
  | .ok physical => plain.fetch physical

/-- Write a word. -/
def write (plain : Plain) (iommu : Iommu) (address : Address) (word : UInt32) : Report × Plain :=
  match iommu.resolve address .write with
  | .error reason => (.ok (.denied reason), plain.complete)
  | .ok physical => plain.store physical word

/-- Set the registers at the end of a checksum. -/
def settle (plain : Plain) : Report → Plain
  | .ok (.digested digest) =>
    { plain with registers := plain.registers.setDigest digest }.complete
  | .ok _ => { plain with registers := plain.registers.fail }
  | .error _ => plain

/-- Digest a range. -/
def checksum (plain : Plain) (iommu : Iommu) (range : Span) : Report × Plain :=
  let report := iommu.digest plain.memory range.start .empty range.length.toNat
  (report, plain.settle report)

/-- Carry out a request. Filling ahead does nothing here but end well. -/
def execute (plain : Plain) (iommu : Iommu) : Work.Request → Report × Plain
  | .translate _ => (.ok (.translated 0), plain.complete)
  | .read address => plain.read iommu address
  | .write address word => plain.write iommu address word
  | .checksum range => plain.checksum iommu range

end Plain

/-- What the reference sees of a datapath. -/
def Datapath.plain (datapath : Datapath α HostMemory) : Plain :=
  ⟨datapath.registers, datapath.memory.plain⟩

/-- An endpoint without cache, agent and notices. -/
structure Uncached extends Plain where
  /-- The requests that wait, the oldest first. -/
  pending : List Work.Request
  /-- The endpoint has stopped and waits for a reset. -/
  halted : Bool
  /-- The number of requests completed. -/
  completed : Nat

namespace Uncached

/-- What running queued requests gives. -/
structure Run where
  /-- The number of requests that ran, or the kind of fault that halted. -/
  result : Except Fault.Kind Nat
  /-- How each request ended, in order. -/
  reports : List Report
  /-- The endpoint afterwards. -/
  machine : Uncached

/-- Act on the end of a request. -/
def conclude (machine : Uncached) (policy : FailurePolicy) :
    Report → Except Fault.Kind Unit × Uncached
  | .ok _ => (.ok (), { machine with completed := machine.completed + 1 })
  | .error kind =>
    match policy with
    | .failFast => (.error kind, { machine with halted := true })
    | .report =>
      (.ok (), { machine with
        registers := machine.registers.fail
        completed := machine.completed + 1 })

/-- Take a request from the head of the queue, leaving the rest, and run it. -/
def advance (machine : Uncached) (iommu : Iommu) (policy : FailurePolicy)
    (request : Work.Request) (rest : List Work.Request) :
    Report × Except Fault.Kind Unit × Uncached :=
  let run := machine.toPlain.execute iommu request
  (run.1, conclude { machine with toPlain := run.2, pending := rest } policy run.1)

/-- Run the requests of a queue in order. -/
def runQueue (machine : Uncached) (iommu : Iommu) (policy : FailurePolicy) (ran : Nat) :
    List Work.Request → Run
  | [] => ⟨.ok ran, [], { machine with pending := [] }⟩
  | request :: rest =>
    match machine.advance iommu policy request rest with
    | (report, .ok (), machine) =>
      let run := runQueue machine iommu policy (ran + 1) rest
      { run with reports := report :: run.reports }
    | (report, .error kind, machine) => ⟨.error kind, [report], machine⟩

/-- Run every queued request. A halted endpoint runs nothing. -/
def runPending (machine : Uncached) (iommu : Iommu) (policy : FailurePolicy) : Run :=
  if machine.halted then ⟨.error .halted, [], machine⟩
  else machine.runQueue iommu policy 0 machine.pending

end Uncached

/-- What the reference sees of an endpoint. -/
def Endpoint.uncached (endpoint : SoftwareEndpoint) : Uncached :=
  { toPlain := endpoint.plain
    pending := endpoint.pending
    halted := endpoint.halted
    completed := endpoint.completed }

/-- What the reference sees of a run. -/
def Step.uncached (step : Step SoftwareEndpoint (Except Fault Nat)) : Uncached.Run :=
  ⟨step.result.mapError Fault.kind, reports step.trace, step.state.uncached⟩

/-! ## Word accesses -/

/-- Asking for all permissions hides none of those that have a name. -/
theorem Permissions.intersects_all_and {wanted : Permissions} (h : wanted &&& .all = wanted)
    (grants : Permissions) : (.all &&& grants : Permissions).intersects wanted =
      grants.intersects wanted := by
  have hbits : all.bits &&& wanted.bits = wanted.bits := by
    rw [UInt64.and_comm]
    exact congrArg Permissions.bits h
  have hboth : all.bits &&& grants.bits &&& wanted.bits = grants.bits &&& wanted.bits := by
    rw [UInt64.and_comm all.bits, UInt64.and_assoc, hbits]
  simp only [intersects, bits_and, hboth]

namespace Iommu.IsTable

variable {iommu : Iommu}

/-- The table decides an access as the block of the address does. -/
theorem resolve_eq (table : iommu.IsTable) (address : Address) {wanted : Permissions}
    (hwanted : wanted &&& .all = wanted) : iommu.resolve address wanted =
      match table.blocks.find? address with
      | none => .error .notFound
      | some block =>
        if block.grants.intersects wanted then .ok (block.translate address)
        else .error .permissionDenied := by
  rw [Iommu.resolve, table.find?_blocks]
  cases hmapping : iommu.find? address with
  | none => rfl
  | some mapping =>
      have hmem : address ∈ mapping.range := by simpa using List.find?_some hmapping
      have hpaged := table.paged mapping (List.mem_of_find?_eq_some hmapping)
      have hcut : iommu.Cuts mapping (Region.ofTranslation address
          (iommu.answer mapping ⟨address, .all⟩) (table.answerLength_ne_zero mapping address)) :=
        ⟨address, hmem, _, rfl⟩
      have hinside := Span.IsAligned.mem_around address
        (table.isPowerOfTwo_answerLength mapping address)
      simp only [Option.map_some]
      rw [hcut.grants_eq, Permissions.intersects_all_and hwanted,
        hcut.translate_eq table.toIsPaged hpaged hinside]

/-- Where no readable block is had, the table denies the read. -/
theorem resolve_of_filter_none (table : iommu.IsTable) {address : Address}
    (h : (table.blocks.find? address).filter (fun block => block.grants.intersects .read) = none) :
    ∃ reason, iommu.resolve address .read = .error reason := by
  rw [table.resolve_eq address rfl]
  cases hfound : table.blocks.find? address with
  | none => exact ⟨_, rfl⟩
  | some block =>
      rw [hfound, Option.filter_eq_none_iff] at h
      exact ⟨_, if_neg (h block rfl)⟩

/-- In a readable block the table grants every read. -/
theorem resolve_of_filter_some (table : iommu.IsTable) {address other : Address} {block : Region}
    (h : (table.blocks.find? address).filter (fun block => block.grants.intersects .read) =
      some block) (hmem : other ∈ block.span) :
    iommu.resolve other .read = .ok (block.translate other) := by
  obtain ⟨hfound, hreadable⟩ := Option.filter_eq_some_iff.mp h
  rw [table.resolve_eq other rfl, table.blocks.constant hfound hmem]
  exact if_pos hreadable

end Iommu.IsTable

namespace Worker

variable {iommu : Iommu} {worker : Worker Iommu HostMemory}

/-- What the cache says of an address after a fill is what the table says. -/
theorem fst_resolve (table : iommu.IsTable)
    (h : worker.Keeps iommu.Later table.blocks.IsBlock)
    (hcovers : table.blocks.CoversGranule worker.granule) (address : Address)
    (wanted : Permissions) (hwanted : wanted &&& .all = wanted) :
    (worker.resolve address wanted).1 = iommu.resolve address wanted := by
  have hfound : (worker.ensure ⟨address, worker.granule.bytes⟩).2.cache.find? address =
      table.blocks.find? address :=
    h.find?_ensure table.serves hcovers ⟨address, worker.granule.bytes⟩ worker.granule.bytes_ne_zero
  rw [table.resolve_eq address hwanted, ← hfound]
  rfl

end Worker

/-! ## Checksums -/

namespace Iommu

variable {iommu : Iommu} {host : HostMemory}

/-- Inside a readable block, digesting byte by byte gets as far as one read of
the whole piece does. -/
theorem digest_piece (host : HostMemory) {block : Region} (hnatural : block.IsNatural)
    (hreadable : ∀ address ∈ block.span,
      iommu.resolve address .read = .ok (block.translate address))
    {address : Address} (bytes : ByteArray) (count rest : Nat) (hcount : count ≠ 0)
    (hstart : block.span.start ≤ address)
    (hstop : address.toNat + count ≤ block.span.start.toNat + block.span.length.toNat) :
    iommu.digest host address bytes (count + rest) =
      host.feed (block.translate address) count fun piece =>
        iommu.digest host (address + count.toUInt64) (bytes ++ piece) rest := by
  induction count generalizing address bytes with
  | zero => exact absurd rfl hcount
  | succ count ih =>
      have hmem : address ∈ block.span := Span.mem_iff_toNat.mpr
        ⟨UInt64.le_iff_toNat_le.mp hstart, by omega⟩
      have hfirst : iommu.digest host address bytes (count + 1 + rest) =
          host.feed (block.translate address) 1 fun byte =>
            iommu.digest host (address + 1) (bytes ++ byte) (count + rest) := by
        rw [Nat.add_right_comm, digest, hreadable address hmem]
      rw [hfirst]
      rcases Nat.eq_zero_or_pos count with rfl | hpos
      · rw [Nat.zero_add]
        rfl
      · -- More bytes follow, so neither side of the block ends here.
        obtain ⟨hmemNext, htranslate⟩ := hnatural.translate_succ hmem (by omega)
        have hnext : (block.translate address).toNat + 1 < 2 ^ 64 := by
          have hphysical := hnatural.toNat_translate hmem
          have hphysicalEnd := hnatural.target_stop_le
          have hstartNat := UInt64.le_iff_toNat_le.mp hstart
          omega
        have hstopNext : (address + 1).toNat + count ≤
            block.span.start.toNat + block.span.length.toNat := by
          have hle : (address + 1).toNat ≤ address.toNat + 1 := by
            rw [UInt64.toNat_add]
            exact Nat.mod_le _ _
          omega
        have hfar : address + (count + 1).toUInt64 = address + 1 + count.toUInt64 := by
          have hsum : (count + 1).toUInt64 = count.toUInt64 + 1 := UInt64.ofNat_add count 1
          rw [hsum]
          grind
        rw [HostMemory.feed_succ hnext count, hfar, ← htranslate]
        refine congrArg (host.feed _ 1) (funext fun byte => ?_)
        rw [ih (bytes ++ byte) (Nat.ne_of_gt hpos) hmemNext.1 hstopNext]
        simp only [ByteArray.append_assoc]

/-- The piece that is taken from a block is digested byte by byte. -/
theorem IsTable.digest_chunk (table : iommu.IsTable) {address : Address} {block : Region}
    (hblock : (table.blocks.find? address).filter (fun block => block.grants.intersects .read) =
      some block) (bytes : ByteArray) {remaining : UInt64} (hremaining : remaining ≠ 0) :
    let chunk := block.chunk (block.translate address) remaining
    iommu.digest host address bytes remaining.toNat =
      host.feed (block.translate address) chunk.toNat fun piece =>
        iommu.digest host (address + chunk) (bytes ++ piece) (remaining - chunk).toNat := by
  intro chunk
  have hfound := (Option.filter_eq_some_iff.mp hblock).1
  have hnatural := table.blocks.natural hfound
  have hmem := table.blocks.mem hfound
  have hle : chunk ≤ remaining := block.chunk_le _ remaining
  have hne : chunk.toNat ≠ 0 := fun hzero =>
    block.chunk_ne_zero _ hremaining (UInt64.toNat_inj.mp hzero)
  have hpiece := digest_piece host hnatural
    (fun _ => table.resolve_of_filter_some hblock) bytes chunk.toNat
    (remaining - chunk).toNat hne hmem.1 (hnatural.chunk_stop_le hmem remaining)
  have hsum : chunk.toNat + (remaining - chunk).toNat = remaining.toNat := by
    rw [UInt64.toNat_sub_of_le _ _ hle]
    exact Nat.add_sub_cancel' (UInt64.le_iff_toNat_le.mp hle)
  have hsame : chunk.toNat.toUInt64 = chunk := UInt64.ofNat_toNat
  rw [hsum, hsame] at hpiece
  exact hpiece

/-- Digesting block by block reports what digesting byte by byte does. -/
theorem IsTable.report_gather (table : iommu.IsTable) (host : HostMemory) (address : Address)
    (remaining : UInt64) (bytes : ByteArray) (length : UInt64)
    (hlength : bytes.size + remaining.toNat = length.toNat) :
    report ((table.blocks.gather host address remaining bytes).map (·.outcome length)) =
      iommu.digest host address bytes remaining.toNat := by
  fun_induction BlockMap.gather table.blocks host address remaining bytes with
  | case1 address bytes => rfl
  | case2 address remaining bytes hremaining hnone =>
      obtain ⟨count, hcount⟩ := Nat.exists_eq_succ_of_ne_zero
        (fun hzero => hremaining (UInt64.toNat_inj.mp hzero))
      obtain ⟨reason, hdenied⟩ := table.resolve_of_filter_none hnone
      have hconsumed : length - remaining = bytes.size.toUInt64 := by
        have hle : remaining ≤ length := UInt64.le_iff_toNat_le.mpr (by omega)
        apply UInt64.toNat_inj.mp
        rw [UInt64.toNat_sub_of_le _ _ hle, ← hlength, Nat.add_sub_cancel]
        exact (UInt64.toNat_ofNat_of_lt' (by have := length.toNat_lt_size; omega)).symm
      rw [hcount, digest, hdenied]
      simp only [Except.map, Worker.Gathered.outcome, if_neg hremaining, hconsumed]
      rfl
  | case3 address remaining bytes hremaining block hblock physical chunk fault hpeek =>
      rw [table.digest_chunk hblock bytes hremaining]
      exact (HostMemory.feed_of_peek_error hpeek).symm
  | case4 address remaining bytes hremaining block hblock physical chunk piece hpeek ih =>
      have hle : chunk ≤ remaining := block.chunk_le physical remaining
      have hsub : (remaining - chunk).toNat = remaining.toNat - chunk.toNat :=
        UInt64.toNat_sub_of_le _ _ hle
      have hle := UInt64.le_iff_toNat_le.mp hle
      have hsize : (bytes ++ piece.val).size = bytes.size + chunk.toNat := by
        rw [ByteArray.size_append, piece.property]
      rw [table.digest_chunk hblock bytes hremaining]
      refine Eq.trans ?_ (Eq.symm (host.feed_of_peek hpeek))
      exact ih (by omega)

end Iommu

end AtsEndpoint
