import AtsEndpoint.Bench.Script
import AtsEndpoint.Proofs.Accesses
import AtsEndpoint.Proofs.Growing

/-!
# What is written can be read back

A word that has been written to an address is read back from it, if no notice
arrives in between and nobody writes to its bytes. The agent may have answered
differently since, but the address keeps its region, and so its place in memory.
-/

namespace AtsEndpoint

/-! ## The bytes of a word -/

section Store

variable {contents : Nat → Option UInt8} {start position : Nat} {bytes : List UInt8}

theorem storeBytes_outside (h : position < start ∨ start + bytes.length ≤ position) :
    storeBytes contents start bytes position = contents position := by
  rw [storeBytes, if_neg]
  omega

theorem storeBytes_inside {i : Nat} (h : i < bytes.length) :
    storeBytes contents start bytes (start + i) = bytes[i]? := by
  rw [storeBytes, if_pos (by omega), Nat.add_sub_cancel_left]

end Store

namespace HostMemory

/-- The memory has these bytes from a physical address on. -/
def Contains (memory : HostMemory) (physical : Address) (bytes : List UInt8) : Prop :=
  ∀ i < bytes.length, memory.byte? (physical.toNat + i) = bytes[i]?

variable {memory : HostMemory} {physical : Address} {bytes : List UInt8}

theorem Contains.byteAt (h : memory.Contains physical bytes) {i : Nat} (hi : i < bytes.length) :
    memory.base.toNat ≤ physical.toNat + i ∧
      physical.toNat + i < memory.base.toNat + memory.size ∧
      memory.byteAt (physical.toNat + i - memory.base.toNat) = bytes[i] := by
  have hbyte := h i hi
  rw [byte?, List.getElem?_eq_getElem hi] at hbyte
  split at hbyte
  next hheld => exact ⟨hheld.1, hheld.2, Option.some.inj hbyte⟩
  next => cases hbyte

theorem Contains.covers (h : memory.Contains physical bytes) (hne : bytes ≠ []) :
    memory.Covers physical bytes.length := by
  have hpos := List.length_pos_of_ne_nil hne
  have hfirst := h.byteAt hpos
  have hlast := h.byteAt (Nat.sub_lt hpos Nat.one_pos)
  exact ⟨UInt64.le_iff_toNat_le.mpr (by omega), by omega⟩

/-- Bytes that the memory has are read. -/
theorem Contains.read (h : memory.Contains physical bytes) (hne : bytes ≠ []) :
    ∃ payload : Payload bytes.length,
      (PhysicalMemory.read memory physical bytes.length).answer = .ok payload ∧
        payload.val.toList = bytes := by
  have hcovers := h.covers hne
  have hbase := UInt64.le_iff_toNat_le.mp hcovers.1
  refine ⟨memory.slice (physical.toNat - memory.base.toNat) bytes.length, ?_, ?_⟩
  · rw [answer_read, peek_of_covers hcovers]
  · rw [toList_eq_toList_data, data_slice]
    apply List.ext_getElem
    · simp
    · intro i _ hi
      obtain ⟨hlow, -, hbyte⟩ := h.byteAt hi
      have hposition : physical.toNat - memory.base.toNat + i =
          physical.toNat + i - memory.base.toNat := by omega
      simp [hposition, hbyte]

theorem covers_of_answer_write (h : (PhysicalMemory.write memory physical bytes).answer = .ok ()) :
    memory.Covers physical bytes.length := by
  by_contra hcovers
  obtain ⟨fault, hlocate, -⟩ := locate_of_not_covers hcovers
  rw [answer_write, poke_of_locate_error hlocate] at h
  cases h

/-- Of the writes in a trace, those that the memory has room for leave so many
bytes from a physical address on alone. -/
def Spares (memory : HostMemory) (physical : Address) (count : Nat) (trace : Trace) : Prop :=
  ∀ target bytes, .write target bytes ∈ calls trace → memory.Covers target bytes.length →
    target.toNat + bytes.length ≤ physical.toNat ∨ physical.toNat + count ≤ target.toNat

end HostMemory

/-! ## Requests that leave the bytes alone -/

namespace Endpoint

variable {α : Type u} [TranslationAgent α]

/-- Work moves no bound of the memory. -/
theorem covers_execute (endpoint : Endpoint α HostMemory) (request : Work.Request)
    (physical : Address) (count : Nat) :
    (endpoint.execute request).state.memory.Covers physical count ↔
      endpoint.memory.Covers physical count := by
  have hinvariant : Worker.Invariant fun worker : Worker α HostMemory =>
      (worker.memory.Covers physical count ↔ endpoint.memory.Covers physical count) :=
    { mark := fun _ _ _ h => h
      registers := fun _ _ h => h
      fill := fun _ _ h => h
      readMemory := fun _ other length h => (HostMemory.covers_read other length).trans h
      writeMemory := fun _ other bytes h => (HostMemory.covers_write other bytes).trans h }
  have hperformed := hinvariant.perform (endpoint.worker.note (.workStarted request)) request
    Iff.rfl
  rw [← endpoint.worker.toDatapath_execute request] at hperformed
  exact hperformed

/-- Nothing but a write changes the contents of the memory. -/
theorem byte?_execute_of_ne_write (endpoint : Endpoint α HostMemory) {request : Work.Request}
    (hother : ∀ address word, request ≠ .write address word) :
    (endpoint.execute request).state.memory.byte? = endpoint.memory.byte? := by
  have hends := endpoint.ends_execute request
  cases hresult : (endpoint.execute request).result with
  | error fault =>
    rw [hresult] at hends
    exact hends.memory .ofHost
  | ok outcome =>
    rw [hresult] at hends
    exact hends.memory_frame (fun address word hwrite => absurd hwrite (hother address word)) .ofHost

/-- A byte that a write does not reach stays as it is. -/
theorem byte?_execute_write (endpoint : Endpoint α HostMemory) (address : Address) (word : UInt32)
    {position : Nat}
    (houtside : ∀ target bytes,
      .write target bytes ∈ calls (endpoint.execute (.write address word)).trace →
        endpoint.memory.Covers target bytes.length →
          position < target.toNat ∨ target.toNat + bytes.length ≤ position) :
    (endpoint.execute (.write address word)).state.memory.byte? position =
      endpoint.memory.byte? position := by
  let looked := endpoint.lookUp (.write word) address
  have hfinishes : looked.Finishes
      ((looked.cache.resolve address .write).toOption.map (WordAccess.write word).call)
      (endpoint.worker.execute (.write address word)).2 :=
    endpoint.worker.finishes_execute (.write word) address
  have hmemory : looked.memory = endpoint.memory := Worker.memory_ensure _ _
  have hafter := hfinishes.memory
  have hissued := hfinishes.calls
  rw [hmemory] at hafter
  change (endpoint.worker.execute (.write address word)).2.memory.byte? position = _
  rw [hafter]
  cases hresolve : (looked.cache.resolve address .write).toOption with
  | none => rfl
  | some physical =>
    rw [hresolve] at hissued
    have hmem : .write physical (Word.bytes word) ∈
        calls (endpoint.execute (.write address word)).trace := by
      have hlast : .write physical (Word.bytes word) ∈
          calls looked.trace ++ [(WordAccess.write word).call physical] :=
        List.mem_append_right _ (List.mem_singleton.mpr rfl)
      exact hissued ▸ hlast
    change Contents.ofHost.byte? ((MemoryCall.write physical (Word.bytes word)).serve
      endpoint.memory).memory position = _
    rw [Contents.byte?_serve]
    cases hanswer : (PhysicalMemory.write endpoint.memory physical (Word.bytes word)).answer with
    | error fault =>
      simp only [MemoryCall.serve, hanswer]
      rfl
    | ok done =>
      simp only [MemoryCall.serve, hanswer]
      have hcovers := HostMemory.covers_of_answer_write hanswer
      exact storeBytes_outside (houtside physical _ hmem hcovers)

/-- Bytes that are left alone are still there. -/
theorem contains_execute {endpoint : Endpoint α HostMemory} {request : Work.Request}
    {physical : Address} {bytes : List UInt8} (h : endpoint.memory.Contains physical bytes)
    (hspared : endpoint.memory.Spares physical bytes.length (endpoint.execute request).trace) :
    (endpoint.execute request).state.memory.Contains physical bytes := by
  intro i hi
  rw [← h i hi]
  cases request with
  | write address word =>
    apply byte?_execute_write
    intro target written hwrite hcovers
    have hapart := hspared target written hwrite hcovers
    omega
  | translate range => rw [byte?_execute_of_ne_write _ (by simp)]
  | read address => rw [byte?_execute_of_ne_write _ (by simp)]
  | checksum range => rw [byte?_execute_of_ne_write _ (by simp)]

/-! ## From a write to a read -/

variable {agents : α → Prop}

/-- The address leads through this region to the bytes of the word, and no notice
can take the region away. -/
structure Stores (endpoint : Endpoint α HostMemory) (agents : α → Prop) (address : Address)
    (region : Region) (word : UInt32) : Prop where
  agent : agents endpoint.agent
  waiting : endpoint.notices.waiting = []
  found : endpoint.cache.find? address = some region
  stored : endpoint.memory.Contains (region.translate address) (Word.bytes word)

variable {endpoint : Endpoint α HostMemory} {address : Address} {region : Region} {word : UInt32}

theorem Stores.execute (silent : Silent agents) (h : endpoint.Stores agents address region word)
    {request : Work.Request} (hspared : endpoint.memory.Spares (region.translate address) 4
      (endpoint.execute request).trace) :
    (endpoint.execute request).state.Stores agents address region word := by
  have hgrows : endpoint.Grows agents endpoint.cache := ⟨h.agent, h.waiting, .refl _⟩
  have hafter := hgrows.execute silent request
  constructor
  · exact hafter.agent
  · exact hafter.waiting
  · exact hafter.cache.find? h.found
  · exact contains_execute h.stored hspared

/-- A word is read as long as it is stored, without a request to the agent. -/
theorem Stores.read (h : endpoint.Stores agents address region word)
    (hreadable : region.grants.intersects .read) :
    let run := endpoint.execute (.read address)
    run.result = .ok .applied ∧ run.state.registers.value = word ∧ requests run.trace = [] := by
  intro run
  let worker := endpoint.worker.note (.workStarted (.read address))
  have hcached : worker.cache.contains address := Option.isSome_of_eq_some h.found
  have hlooked : worker.lookUp address = worker := by
    rw [Worker.lookUp, Worker.ensure, if_pos hcached]
  have hresolved : (worker.lookUp address).cache.resolve address WordAccess.read.wanted =
      .ok (region.translate address) := by
    rw [hlooked, Cache.resolve, show worker.cache.find? address = _ from h.found]
    exact if_pos hreadable
  obtain ⟨payload, hanswer, hbytes⟩ := h.stored.read (List.cons_ne_nil _ _)
  have hserved : ((WordAccess.read.call (region.translate address)).serve
      (worker.lookUp address).memory).answer = .ok payload.val := by
    rw [hlooked]
    exact congrArg (Except.map Subtype.val) hanswer
  have hperformed := Worker.perform_resolved hresolved
  rw [hserved] at hperformed
  have hfinishes := endpoint.worker.finishes_execute .read address
  refine ⟨?_, ?_, ?_⟩
  · exact (endpoint.worker.fst_execute (.read address)).trans (congrArg Prod.fst hperformed)
  · have hregisters := congrArg Datapath.registers
      (endpoint.worker.toDatapath_execute (.read address))
    have hsettled : run.state.registers = WordAccess.read.settle _ (.ok payload.val) :=
      hregisters.trans (congrArg (·.2.registers) hperformed)
    rw [hsettled]
    change Word.ofBytes payload.val.toList = word
    rw [hbytes, Word.ofBytes_bytes]
  · have hsilent := congrArg (fun looked : Worker α HostMemory => requests looked.trace) hlooked
    exact hfinishes.requests.trans hsilent

/-- Without notices a word access leaves the cache as its lookup has left it. -/
theorem cache_execute_access (silent : Silent agents) (hagent : agents endpoint.agent)
    (hwaiting : endpoint.notices.waiting = []) (access : WordAccess) (address : Address) :
    (endpoint.execute (access.request address)).state.cache =
      (endpoint.lookUp access address).cache := by
  let worker := endpoint.worker.note (.workStarted (access.request address))
  have hworker : worker.Grows agents endpoint.cache := ⟨hagent, hwaiting, .refl _⟩
  have hlooked := hworker.ensure silent ⟨address, worker.granule.bytes⟩
  refine (endpoint.worker.finishes_execute access address).cache.trans ?_
  rw [Worker.late, Worker.lookUp, hlooked.waiting, ite_self]
  rfl

/-- A write that is performed stores its word. -/
theorem stores_write (silent : Silent agents) (hagent : agents endpoint.agent)
    (hwaiting : endpoint.notices.waiting = [])
    (happlied : (endpoint.execute (.write address word)).result = .ok .applied)
    (hfound : (endpoint.execute (.write address word)).state.cache.find? address = some region) :
    (endpoint.execute (.write address word)).state.Stores agents address region word := by
  let looked := endpoint.lookUp (.write word) address
  have hgrows : endpoint.Grows agents endpoint.cache := ⟨hagent, hwaiting, .refl _⟩
  have hafter := hgrows.execute silent (.write address word)
  have hcache : (endpoint.execute (.write address word)).state.cache = looked.cache :=
    cache_execute_access silent hagent hwaiting (.write word) address
  have heffects := endpoint.ends_execute (.write address word)
  rw [happlied] at heffects
  obtain ⟨physical, hphysical, -, hstored⟩ := heffects.memory address word rfl rfl
  have htranslated : physical = region.translate address := by
    rw [← endpoint.worker.fst_resolve_note (.workStarted (.write address word))] at hphysical
    change looked.cache.resolve address .write = _ at hphysical
    rw [Cache.resolve, ← hcache, hfound] at hphysical
    dsimp only at hphysical
    split at hphysical
    · exact (Except.ok.inj hphysical).symm
    · cases hphysical
  refine ⟨hafter.agent, hafter.waiting, hfound, ?_⟩
  intro i hi
  rw [← htranslated]
  change Contents.ofHost.byte? _ _ = _
  rw [hstored .ofHost]
  exact storeBytes_inside hi

/-! ## A run of requests -/

/-- Carry out requests one after another, past the queue. -/
def executeAll {μ : Type v} [PhysicalMemory μ] (endpoint : Endpoint α μ)
    (work : List Work.Request) : Step (Endpoint α μ) Unit :=
  endpoint.run (work.map .execute)

theorem executeAll_append (endpoint : Endpoint α HostMemory) (earlier later : List Work.Request) :
    (endpoint.executeAll (earlier ++ later)).state =
      ((endpoint.executeAll earlier).state.executeAll later).state := by
  induction earlier generalizing endpoint with
  | nil => rfl
  | cons request rest ih => exact ih (endpoint.execute request).state

/-- Requests only add to the cache, whatever they are. -/
theorem grows_executeAll (silent : Silent agents) {old : Cache}
    {endpoint : Endpoint α HostMemory} (h : endpoint.Grows agents old)
    (work : List Work.Request) : (endpoint.executeAll work).state.Grows agents old := by
  induction work generalizing endpoint with
  | nil => exact h
  | cons request rest ih => exact ih (h.execute silent request)

/-- A stored word stays stored while requests spare its bytes. -/
theorem Stores.executeAll (silent : Silent agents)
    {endpoint : Endpoint α HostMemory} (h : endpoint.Stores agents address region word)
    {work : List Work.Request} (hspared : endpoint.memory.Spares (region.translate address) 4
      (endpoint.executeAll work).trace) :
    (endpoint.executeAll work).state.Stores agents address region word := by
  induction work generalizing endpoint with
  | nil => exact h
  | cons request rest ih =>
    have hcalls : calls (endpoint.executeAll (request :: rest)).trace =
        calls (endpoint.execute request).trace ++
          calls ((endpoint.execute request).state.executeAll rest).trace := observe_append _ _
    have hnext : (endpoint.execute request).state.Stores agents address region word := by
      apply h.execute silent
      intro target bytes hwrite
      apply hspared target bytes
      rw [hcalls]
      exact List.mem_append_left _ hwrite
    apply ih hnext
    intro target bytes hwrite hcovers
    rw [covers_execute] at hcovers
    apply hspared target bytes _ hcovers
    rw [hcalls]
    exact List.mem_append_right _ hwrite

/-- Under an agent that posts nothing, a word that is written to an address whose
region can be read is read back after any requests that spare its bytes, without
a request to the agent. Every address that is cached keeps its region meanwhile. -/
theorem word_round_trip (silent : Silent agents) {endpoint : Endpoint α HostMemory}
    (hagent : agents endpoint.agent) (hwaiting : endpoint.notices.waiting = [])
    {address : Address} {word : UInt32} {region : Region}
    (happlied : (endpoint.execute (.write address word)).result = .ok .applied)
    (hfound : (endpoint.execute (.write address word)).state.cache.find? address = some region)
    (hreadable : region.grants.intersects .read) {work : List Work.Request}
    (hspared : endpoint.memory.Spares (region.translate address) 4
      ((endpoint.execute (.write address word)).state.executeAll work).trace) :
    let run := endpoint.executeAll (.write address word :: work)
    let read := run.state.execute (.read address)
    read.result = .ok .applied ∧ read.state.registers.value = word ∧
      requests read.trace = [] ∧
      ∀ earlier later other old,
        (endpoint.executeAll earlier).state.cache.find? other = some old →
          (endpoint.executeAll (earlier ++ later)).state.cache.find? other = some old := by
  intro run read
  have hwritten := stores_write silent hagent hwaiting happlied hfound
  have hstored : run.state.Stores agents address region word := by
    apply hwritten.executeAll silent
    intro target bytes hwrite hcovers
    rw [covers_execute] at hcovers
    exact hspared target bytes hwrite hcovers
  obtain ⟨hresult, hvalue, hrequests⟩ := hstored.read hreadable
  refine ⟨hresult, hvalue, hrequests, ?_⟩
  intro earlier later other old hold
  have hstart : endpoint.Grows agents endpoint.cache := ⟨hagent, hwaiting, .refl _⟩
  have hearlier := grows_executeAll silent hstart earlier
  have hlater := grows_executeAll silent ⟨hearlier.agent, hearlier.waiting, .refl _⟩ later
  rw [executeAll_append]
  exact hlater.cache.find? hold

end Endpoint

/-! ## An agent that changes its answers -/

namespace Bench

/-- The rule that is used comes from the list, and it is all that changes there. -/
theorem Rule.of_useFirst? {address : Address} {rules after : List Rule} {found : Rule}
    (h : Rule.useFirst? address rules = some (found, after)) :
    found ∈ rules ∧ ∀ rule ∈ after, rule ∈ rules ∨ rule = found.used := by
  induction rules generalizing after with
  | nil => cases h
  | cons first rest ih =>
    rw [Rule.useFirst?] at h
    split at h
    next =>
      cases h
      exact ⟨List.mem_cons_self, fun rule hrule => (List.mem_cons.mp hrule).symm.imp
        (List.mem_cons_of_mem _) id⟩
    next =>
      obtain ⟨⟨other, behind⟩, hbehind, hsame⟩ := Option.map_eq_some_iff.mp h
      cases hsame
      obtain ⟨hfound, hrest⟩ := ih hbehind
      refine ⟨List.mem_cons_of_mem _ hfound, ?_⟩
      intro rule hrule
      rcases List.mem_cons.mp hrule with rfl | hrule
      · exact .inl List.mem_cons_self
      · exact (hrest rule hrule).imp (List.mem_cons_of_mem _) id

/-- A scripted agent is silent when none of its rules has a notice to post. -/
theorem ScriptedAgent.silent :
    Silent fun agent : ScriptedAgent => ∀ rule ∈ agent.rules, ∀ address, rule.notices address = []
    where
  posted := by
    intro agent hrules address
    simp only [TranslationAgent.translate]
    split
    next hused => exact hrules _ (Rule.of_useFirst? hused).1 address
    next => rfl
  next := by
    intro agent hrules address
    simp only [TranslationAgent.translate]
    split
    next found after hused =>
      obtain ⟨hfound, hafter⟩ := Rule.of_useFirst? hused
      intro rule hrule
      rcases hafter rule hrule with hrule | rfl
      · exact hrules rule hrule
      · exact hrules found hfound
    next => exact hrules

end Bench

/-- Pages are granted where they are, until a request for the page at `0x7000` is
answered with sixteen pages elsewhere, for no access. -/
def waveringAgent : Bench.ScriptedAgent :=
  let rule (first last : Address) (target : Option Address) (length : UInt64)
      (grants : Permissions) : Bench.Rule :=
    { first
      last
      uses := none
      target
      shift := 0
      length
      grants
      masked := false
      posts := []
      postsOwn := false
      fails := none }
  { rules := [rule 0x8000 0x9fff none 0x1000 .all, rule 0x7000 0x7fff (some 0x10000) 0x10000 .none] }

/-- A word is read back at `0x8100` after its page has been answered otherwise, the
words around it have been written, and accesses have failed. -/
theorem Endpoint.word_round_trip_wavering :
    let endpoint : Endpoint Bench.ScriptedAgent HostMemory :=
      { agent := waveringAgent
        memory := .zeroed 0x8000 0x4000
        config := {}
        config_valid := Config.isValid_default }
    let region : Region := ⟨⟨0x8000, 0x1000⟩, 0x8000, .all, by decide⟩
    let work : List Work.Request :=
      [.translate ⟨0x7000, 0x1000⟩, .write 0x80fc 1, .write 0x8104 2, .write 0x7800 3,
        .checksum ⟨0x8100, 0x20⟩, .read 0x6000]
    let written := endpoint.execute (.write 0x8100 7)
    let run := endpoint.executeAll (.write 0x8100 7 :: work)
    let read := run.state.execute (.read 0x8100)
    written.result = .ok .applied ∧ written.state.cache.find? 0x8100 = some region ∧
      run.state.cache.regions.length = 3 ∧ read.result = .ok .applied ∧
      read.state.registers.value = 7 ∧ requests read.trace = [] := by
  intro endpoint region work written
  have hsilent : ∀ rule ∈ endpoint.agent.rules, ∀ address, rule.notices address = [] := by
    intro rule hrule address
    rcases List.mem_pair.mp hrule with rfl | rfl <;> rfl
  have happlied : written.result = .ok .applied := eq_ok_of_toOption (by decide +kernel)
  have hfound : written.state.cache.find? 0x8100 = some region := by decide +kernel
  have hregions : (endpoint.executeAll (.write 0x8100 7 :: work)).state.cache.regions.length = 3 := by
    decide +kernel
  have hcalls : calls (written.state.executeAll work).trace =
      [.write 0x80fc [1, 0, 0, 0], .write 0x8104 [2, 0, 0, 0], .read 0x8100 0x20] := by
    decide +kernel
  have hspared : endpoint.memory.Spares (region.translate 0x8100) 4
      (written.state.executeAll work).trace := by
    intro target bytes hwrite _
    rw [hcalls] at hwrite
    simp only [List.mem_cons, List.not_mem_nil, MemoryCall.write.injEq, reduceCtorEq,
      or_false] at hwrite
    rcases hwrite with ⟨rfl, rfl⟩ | ⟨rfl, rfl⟩ <;> decide
  have hread :=
    word_round_trip Bench.ScriptedAgent.silent hsilent rfl happlied hfound (by decide) hspared
  exact ⟨happlied, hfound, hregions, hread.1, hread.2.1, hread.2.2.1⟩

end AtsEndpoint
