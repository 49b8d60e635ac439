import AtsEndpoint.Proofs.Buffer

/-!
# Operations on a mounted buffer

An endpoint mounts a buffer when it is idle, has the buffer mapped and nothing
else, and finds certain contents in the memory behind it. Its cache may hold any
of the pages.

Each operation of the host on such an endpoint then ends well. It gives what the
contents say, replaces in them the bytes that it writes, and leaves the endpoint
mounting the buffer again. So operations follow one another without a fault.
-/

namespace AtsEndpoint

/-- A request that does not write leaves the bytes in memory as they are. -/
theorem Worker.memory_perform {α : Type u} [TranslationAgent α] (worker : Worker α HostMemory)
    {request : Work.Request} (hkeeps : ∀ address word, request ≠ .write address word) :
    (worker.perform request).2.plain.memory = worker.plain.memory := by
  cases request with
  | translate range =>
      have hstrode := (steady_plain worker.plain).stride range.start range.length 0 rfl
      have hmemory := congrArg Plain.memory hstrode
      exact hmemory
  | read address =>
      have hreport := congrArg (Plain.memory ∘ Prod.snd) (worker.report_read address)
      refine hreport.trans ?_
      dsimp only [Function.comp_apply]
      cases (worker.resolve address .read).1 with
      | error reason => rfl
      | ok physical =>
          dsimp only [Plain.fetch]
          split <;> rfl
  | write address word => exact absurd rfl (hkeeps address word)
  | checksum range =>
      have hplain := congrArg Plain.memory (worker.plain_checksum range)
      refine hplain.trans ?_
      split <;> rfl

namespace Endpoint

/-- The endpoint is idle and has the buffer mapped, and the memory holds these
contents behind it, filled up with zeros. -/
structure Mounts (endpoint : SoftwareEndpoint) (buffer : Buffer) (contents : ByteArray) :
    Prop where
  idle : endpoint.IsIdle
  granule : endpoint.granule = buffer.page
  keeps : endpoint.Keeps buffer.iommu.Later buffer.pages.IsBlock
  fits : contents.size ≤ buffer.size
  memory : endpoint.memory.plain = buffer.memory contents

variable {endpoint : SoftwareEndpoint} {buffer : Buffer} {contents : ByteArray}

namespace Mounts

theorem programmed (h : endpoint.Mounts buffer contents) (writes : List (Address × UInt32)) :
    (endpoint.programmed writes).Mounts buffer contents :=
  ⟨h.idle.programmed writes, h.granule, ⟨h.keeps.agent, h.keeps.cache⟩, h.fits, h.memory⟩

/-- A request that ended well leaves the endpoint mounting the buffer, with the
contents that the request leaves in memory. -/
theorem finished (h : endpoint.Mounts buffer contents) {request : Work.Request}
    {after : ByteArray} (hsize : after.size = contents.size)
    (hmemory : (endpoint.execute request).state.plain.memory =
      buffer.memory after) :
    (endpoint.finished request).Mounts buffer after := by
  have hexecuted : (endpoint.execute request).state.Keeps buffer.iommu.Later
      buffer.pages.IsBlock :=
    execute_invariant endpoint
      (P := fun datapath => datapath.Keeps buffer.iommu.Later buffer.pages.IsBlock)
      (Datapath.Keeps.invariant buffer.serves_pages.yields) h.keeps request
  have hlags : (endpoint.execute request).state.countCompleted.Lags buffer.iommu.Later
      buffer.pages.IsBlock := hexecuted.lags
  have hdrained := keeps_drain hlags
  exact ⟨h.idle.finished request, h.granule, ⟨hdrained.agent, hdrained.cache⟩, hsize ▸ h.fits,
    hmemory⟩

theorem finished_of_keeps (h : endpoint.Mounts buffer contents) {request : Work.Request}
    (hkeeps : ∀ address word, request ≠ .write address word) :
    (endpoint.finished request).Mounts buffer contents := by
  refine h.finished rfl ?_
  have hplain : (endpoint.execute request).state.plain = _ :=
    congrArg Datapath.plain (endpoint.worker.toDatapath_execute request)
  rw [hplain, Worker.memory_perform _ hkeeps]
  exact h.memory

/-! ## Requests -/

/-- Filling ahead ends well. -/
theorem execute_translate (endpoint : SoftwareEndpoint) (range : Span) :
    ∃ filled, (endpoint.execute (.translate range)).result = .ok (.translated filled) :=
  ⟨_, endpoint.worker.fst_execute (.translate range)⟩

/-- What is resolved is decided by the pages alone. -/
theorem find?_resolve {worker : Worker Iommu HostMemory} (hgranule : worker.granule = buffer.page)
    (hkeeps : worker.Keeps buffer.iommu.Later buffer.pages.IsBlock) (address : Address) :
    (worker.ensure ⟨address, worker.granule.bytes⟩).2.cache.find? address =
      buffer.pages.find? address :=
  have hcovers : buffer.pages.CoversGranule worker.granule :=
    hgranule ▸ buffer.coversGranule_pages
  hkeeps.find?_ensure buffer.serves_pages hcovers ⟨address, worker.granule.bytes⟩
    worker.granule.bytes_ne_zero

/-- Every position of the buffer leads to its place in memory. -/
theorem fst_resolve {worker : Worker Iommu HostMemory} (hgranule : worker.granule = buffer.page)
    (hkeeps : worker.Keeps buffer.iommu.Later buffer.pages.IsBlock) {position : Nat}
    (hposition : position < buffer.size) {wanted : Permissions} (hwanted : wanted &&& .all = wanted)
    (hgrants : buffer.mapping.grants.intersects wanted) :
    (worker.resolve (buffer.address position) wanted).1 = .ok (buffer.physical position) := by
  have hpage : (buffer.pageAt (buffer.address position)).grants.intersects wanted :=
    (buffer.intersects_pageAt hwanted _).trans hgrants
  rw [Worker.resolve, Cache.resolve, find?_resolve hgranule hkeeps, Buffer.find?_address hposition]
  dsimp only
  rw [if_pos hpage, Buffer.translate_address hposition]

/-- Outside the buffer nothing is found. -/
theorem fst_resolve_outside {worker : Worker Iommu HostMemory}
    (hgranule : worker.granule = buffer.page)
    (hkeeps : worker.Keeps buffer.iommu.Later buffer.pages.IsBlock) {address : Address}
    (houtside : address ∉ buffer.mapping.range) (wanted : Permissions) :
    (worker.resolve address wanted).1 = .error .notFound := by
  rw [Worker.resolve, Cache.resolve, find?_resolve hgranule hkeeps, buffer.find?_pages,
    if_neg houtside]

/-- An access inside the buffer is made at its place in memory. -/
theorem execute_access (h : endpoint.Mounts buffer contents) (access : WordAccess)
    {position : Nat} (hposition : position < buffer.size)
    (hgrants : buffer.mapping.grants.intersects access.wanted) :
    (report (endpoint.execute (access.request (buffer.address position))).result,
        (endpoint.execute (access.request (buffer.address position))).state.plain) =
      endpoint.plain.access (buffer.physical position) access := by
  have hreport := report_access endpoint access (buffer.address position)
  rwa [fst_resolve (by exact h.granule) ⟨h.keeps.agent, h.keeps.cache⟩ hposition
    access.wanted_and_all hgrants] at hreport

/-- An access outside the buffer is denied. -/
theorem execute_outside (h : endpoint.Mounts buffer contents) (access : WordAccess)
    {address : Address} (houtside : address ∉ buffer.mapping.range) :
    (report (endpoint.execute (access.request address)).result,
        (endpoint.execute (access.request address)).state.plain) =
      (.ok (.denied .notFound), endpoint.plain.complete) := by
  have hreport := report_access endpoint access address
  rwa [fst_resolve_outside (by exact h.granule) ⟨h.keeps.agent, h.keeps.cache⟩ houtside] at hreport

/-- Reading a word of the contents ends well, with this word in VALUE. -/
theorem execute_read (h : endpoint.Mounts buffer contents)
    (hreadable : buffer.mapping.grants.intersects .read) {position : Nat}
    (hroom : position + 4 ≤ buffer.size) :
    (endpoint.execute (.read (buffer.address position))).result = .ok .applied ∧
      (endpoint.execute (.read (buffer.address position))).state.registers.value =
        Word.ofBytes ((buffer.memory contents).slice position 4).val.toList := by
  have hposition : position < buffer.size := by omega
  have haccess := h.execute_access .read hposition hreadable
  have hpeek : endpoint.plain.memory.peek (buffer.physical position) Register.width = _ :=
    (congrArg (HostMemory.peek · _ _) h.memory).trans
      (Buffer.peek_physical contents hposition hroom)
  rw [Plain.access, Plain.fetch, hpeek] at haccess
  exact ⟨eq_ok_of_report (congrArg Prod.fst haccess) (by simp),
    congrArg (RegisterFile.value ∘ Plain.registers ∘ Prod.snd) haccess⟩

/-- Writing a word into the contents ends well and replaces its bytes. -/
theorem execute_write (h : endpoint.Mounts buffer contents)
    (hwritable : buffer.mapping.grants.intersects .write) (word : UInt32) {position : Nat}
    (hroom : position + 4 ≤ contents.size) :
    (endpoint.execute (.write (buffer.address position) word)).result = .ok .applied ∧
      (endpoint.execute (.write (buffer.address position) word)).state.plain.memory =
        buffer.memory (spliceBytes contents position (Word.bytes word)) := by
  have hposition : position < buffer.size := by
    have hfits := h.fits
    omega
  have haccess := h.execute_access (.write word) hposition hwritable
  have hpoke : endpoint.plain.memory.poke (buffer.physical position) (Word.bytes word) = _ :=
    (congrArg (HostMemory.poke · _ _) h.memory).trans
      (Buffer.poke_physical h.fits hposition hroom)
  rw [Plain.access, Plain.store, hpoke] at haccess
  exact ⟨eq_ok_of_report (congrArg Prod.fst haccess) (by simp),
    congrArg (Plain.memory ∘ Prod.snd) haccess⟩

/-- Digesting the contents ends well, with their digest. -/
theorem execute_checksum (h : endpoint.Mounts buffer contents)
    (hreadable : buffer.mapping.grants.intersects .read) {length : UInt64}
    (hlength : length.toNat = contents.size) :
    (endpoint.execute (.checksum ⟨buffer.address 0, length⟩)).result =
      .ok (.digested (Md5.digest contents)) := by
  have hcovers : buffer.pages.CoversGranule endpoint.granule :=
    h.granule ▸ buffer.coversGranule_pages
  have hroom : 0 + length.toNat ≤ buffer.size := by
    rw [Nat.zero_add, hlength]
    exact h.fits
  have hgather := Buffer.gather_pages contents hreadable 0 length .empty hroom
  have hbytes : ((buffer.memory contents).slice 0 length.toNat).val = contents := by
    rw [hlength]
    exact HostMemory.slice_ofBytes _ _ _
  rw [hbytes, ByteArray.empty_append] at hgather
  obtain ⟨hresult, _⟩ := Endpoint.execute_checksum buffer.serves_pages
    (buffer.memory contents).shows_plain endpoint ⟨buffer.address 0, length⟩ hcovers h.keeps.agent
    h.keeps.cache h.memory
  rw [hresult, hgather]
  rfl

end Mounts

end Endpoint

/-- What STATUS says of an operation that ended well. -/
theorem Completion.ofStatus_done : Completion.ofStatus Status.done = ⟨true, false⟩ := by
  decide

namespace Host

open Endpoint

/-- An operation gives a value, counts one request, and leaves the buffer
mounted with these contents. -/
structure Completes (endpoint : SoftwareEndpoint) (step : Step SoftwareEndpoint (Except Fault ρ))
    (value : ρ) (buffer : Buffer) (after : ByteArray) : Prop where
  result : step.result = .ok value
  completed : step.state.completed = endpoint.completed + 1
  mounts : step.state.Mounts buffer after

variable {endpoint : SoftwareEndpoint} {buffer : Buffer} {contents : ByteArray}

/-- Filling the cache ahead does not touch the buffer. -/
theorem completes_translate (h : endpoint.Mounts buffer contents) (address : Address)
    (length : UInt32) :
    Completes endpoint (translate endpoint address length) ⟨true, false⟩ buffer contents := by
  let ready := endpoint.programmed (Operation.translate address length).writes
  have hready : ready.Mounts buffer contents := h.programmed _
  obtain ⟨filled, hok⟩ := Mounts.execute_translate ready ⟨address, length.toUInt64⟩
  obtain ⟨hresult, hstate⟩ := translate_of_ok h.idle address length hok
  refine ⟨hresult.trans (congrArg Except.ok Completion.ofStatus_done),
    congrArg Endpoint.completed hstate, ?_⟩
  rw [hstate]
  exact hready.finished_of_keeps (by rintro _ _ ⟨⟩)

/-- Reading a word of the contents gives this word. -/
theorem completes_readWord (h : endpoint.Mounts buffer contents)
    (hreadable : buffer.mapping.grants.intersects .read) {position : Nat}
    (hroom : position + 4 ≤ buffer.size) :
    Completes endpoint (readWord endpoint (buffer.address position))
      (⟨true, false⟩, Word.ofBytes ((buffer.memory contents).slice position 4).val.toList) buffer
      contents := by
  let ready := endpoint.programmed (Operation.readWord (buffer.address position)).writes
  have hready : ready.Mounts buffer contents := h.programmed _
  obtain ⟨hok, hvalue⟩ := hready.execute_read hreadable hroom
  obtain ⟨hresult, hstate⟩ := readWord_of_ok h.idle (buffer.address position) hok
  refine ⟨?_, congrArg Endpoint.completed hstate, ?_⟩
  · rw [hresult, registers_finished, hvalue]
    exact congrArg (fun completion => Except.ok (completion, _)) Completion.ofStatus_done
  · rw [hstate]
    exact hready.finished_of_keeps (by rintro _ _ ⟨⟩)

/-- A word that was put into the contents is read back. -/
theorem completes_readWord_of_splice {word : UInt32} {position : Nat}
    (h : endpoint.Mounts buffer (spliceBytes contents position (Word.bytes word)))
    (hreadable : buffer.mapping.grants.intersects .read) (hroom : position + 4 ≤ contents.size) :
    Completes endpoint (readWord endpoint (buffer.address position)) (⟨true, false⟩, word) buffer
      (spliceBytes contents position (Word.bytes word)) := by
  have hfits := h.fits
  rw [size_spliceBytes] at hfits
  have hread := completes_readWord h hreadable (Nat.le_trans hroom hfits)
  have hword : Word.ofBytes ((buffer.memory (spliceBytes contents position
      (Word.bytes word))).slice position 4).val.toList = word :=
    (congrArg Word.ofBytes (HostMemory.slice_spliceBytes hroom)).trans (Word.ofBytes_bytes word)
  rwa [hword] at hread

/-- Writing a word into the contents replaces its bytes. -/
theorem completes_writeWord (h : endpoint.Mounts buffer contents)
    (hwritable : buffer.mapping.grants.intersects .write) (word : UInt32) {position : Nat}
    (hroom : position + 4 ≤ contents.size) :
    Completes endpoint (writeWord endpoint (buffer.address position) word) ⟨true, false⟩ buffer
      (spliceBytes contents position (Word.bytes word)) := by
  let ready := endpoint.programmed (Operation.writeWord (buffer.address position) word).writes
  have hready : ready.Mounts buffer contents := h.programmed _
  obtain ⟨hok, hmemory⟩ := hready.execute_write hwritable word hroom
  obtain ⟨hresult, hstate⟩ := writeWord_of_ok h.idle (buffer.address position) word hok
  refine ⟨hresult.trans (congrArg Except.ok Completion.ofStatus_done),
    congrArg Endpoint.completed hstate, ?_⟩
  rw [hstate]
  exact hready.finished (size_spliceBytes _ _ _) hmemory

/-- Outside the buffer nothing is written, but VALUE keeps the word. -/
theorem completes_writeWord_outside (h : endpoint.Mounts buffer contents) {address : Address}
    (houtside : address ∉ buffer.mapping.range) (word : UInt32) :
    Completes endpoint (writeWord endpoint address word) ⟨true, false⟩ buffer contents ∧
      (writeWord endpoint address word).state.registers.value = word := by
  let ready := endpoint.programmed (Operation.writeWord address word).writes
  have hready : ready.Mounts buffer contents := h.programmed _
  have hdenied := hready.execute_outside (.write word) houtside
  have hok := eq_ok_of_report (congrArg Prod.fst hdenied) (by simp)
  have hplain := congrArg Prod.snd hdenied
  obtain ⟨hresult, hstate⟩ := writeWord_of_ok h.idle address word hok
  refine ⟨⟨hresult.trans (congrArg Except.ok Completion.ofStatus_done),
    congrArg Endpoint.completed hstate, ?_⟩, ?_⟩
  · rw [hstate]
    exact hready.finished rfl ((congrArg Plain.memory hplain).trans hready.memory)
  · have hvalue : ready.registers.value = word :=
      endpoint.registers.value_writeWord address word
    rw [hstate, registers_finished]
    exact (congrArg (RegisterFile.value ∘ Plain.registers) hplain).trans hvalue

/-- Outside the buffer nothing is read, and VALUE is given as it was. -/
theorem completes_readWord_outside (h : endpoint.Mounts buffer contents) {address : Address}
    (houtside : address ∉ buffer.mapping.range) :
    Completes endpoint (readWord endpoint address) (⟨true, false⟩, endpoint.registers.value)
      buffer contents := by
  let ready := endpoint.programmed (Operation.readWord address).writes
  have hready : ready.Mounts buffer contents := h.programmed _
  have hdenied := hready.execute_outside .read houtside
  have hok := eq_ok_of_report (congrArg Prod.fst hdenied) (by simp)
  have hplain := congrArg Prod.snd hdenied
  obtain ⟨hresult, hstate⟩ := readWord_of_ok h.idle address hok
  have hvalue : ready.registers.value = endpoint.registers.value :=
    endpoint.registers.value_readWord address
  have hgiven : (ready.finished (.read address)).registers.value = endpoint.registers.value :=
    (congrArg (RegisterFile.value ∘ Plain.registers) hplain).trans hvalue
  refine ⟨?_, congrArg Endpoint.completed hstate, ?_⟩
  · rw [hresult, hgiven]
    exact congrArg (fun completion => Except.ok (completion, _)) Completion.ofStatus_done
  · rw [hstate]
    exact hready.finished_of_keeps (by rintro _ _ ⟨⟩)

/-- Digesting the contents gives their digest. -/
theorem completes_checksum (h : endpoint.Mounts buffer contents)
    (hreadable : buffer.mapping.grants.intersects .read) {length : UInt32}
    (hlength : length.toNat = contents.size) :
    Completes endpoint (checksum endpoint (buffer.address 0) length) (some (Md5.digest contents))
      buffer contents := by
  let ready := endpoint.programmed (Operation.checksum (buffer.address 0) length).writes
  have hready : ready.Mounts buffer contents := h.programmed _
  have hok := hready.execute_checksum hreadable ((UInt32.toNat_toUInt64 length).trans hlength)
  obtain ⟨hresult, hstate⟩ := checksum_of_ok h.idle (buffer.address 0) length hok
  refine ⟨hresult, congrArg Endpoint.completed hstate, ?_⟩
  rw [hstate]
  exact hready.finished_of_keeps (by rintro _ _ ⟨⟩)

end Host

end AtsEndpoint
