import AtsEndpoint.Proofs.Transparency

/-!
# The bytes of a word

A word access asks for the translation of its first byte and moves four bytes.
The first byte is always one that the table grants. The other three are granted
too when the mapping holds all of the word. A word that sticks out of its
mapping takes the bytes that lie behind the image of the mapping, whether or
not the table has them there.
-/

namespace AtsEndpoint

/-- The first position behind the mapping, or behind the last address of all. -/
def Mapping.ending (mapping : Mapping) : Nat :=
  min (mapping.range.start.toNat + mapping.range.length.toNat) (2 ^ 64)

/-- The next mapping goes on, on both sides, where this one ends. After the last
address comes the first. -/
structure Mapping.Continues (mapping next : Mapping) : Prop where
  start : next.range.start.toNat = mapping.ending % 2 ^ 64
  target : next.target.toNat =
    mapping.target.toNat + (mapping.ending - mapping.range.start.toNat)

namespace Iommu

/-- The table sends the address to the physical byte, and grants one of the
permissions there. -/
def Permits (iommu : Iommu) (wanted : Permissions) (address : Address) (byte : Nat) : Prop :=
  ∃ mapping ∈ iommu.mappings, mapping.grants.intersects wanted ∧ address ∈ mapping.range ∧
    (mapping.image address).toNat = byte

/-- The table sends the four addresses of a word to the four physical bytes. -/
def PermitsWord (iommu : Iommu) (wanted : Permissions) (address physical : Address) : Prop :=
  ∀ i < 4, iommu.Permits wanted (address + i.toUInt64) (physical.toNat + i)

end Iommu

theorem toNat_add_toUInt64 (address : Address) (i : Nat) :
    (address + i.toUInt64).toNat = (address.toNat + i) % 2 ^ 64 := by
  rw [UInt64.toNat_add]
  exact Nat.add_mod_mod _ _ _

namespace Mapping

variable {mapping next : Mapping} {address : Address}

theorem mem_range_iff : address ∈ mapping.range ↔
    mapping.range.start ≤ address ∧ address.toNat < mapping.ending := by
  have hlt := address.toNat_lt
  rw [Span.mem_iff_toNat, UInt64.le_iff_toNat_le, ending]
  omega

/-- Inside a bounded mapping the image goes forward with the address. -/
theorem IsBounded.toNat_image_add (h : mapping.IsBounded)
    (hstart : mapping.range.start ≤ address) {i : Nat} (hi : address.toNat + i < mapping.ending) :
    address + i.toUInt64 ∈ mapping.range ∧
      (mapping.image (address + i.toUInt64)).toNat = (mapping.image address).toNat + i := by
  have hle := UInt64.le_iff_toNat_le.mp hstart
  have hsum : (address + i.toUInt64).toNat = address.toNat + i := by
    rw [toNat_add_toUInt64]
    exact Nat.mod_eq_of_lt (Nat.lt_of_lt_of_le hi (Nat.min_le_right _ _))
  have hfirst : address ∈ mapping.range := mem_range_iff.mpr ⟨hstart, by omega⟩
  have hmem : address + i.toUInt64 ∈ mapping.range :=
    mem_range_iff.mpr ⟨UInt64.le_iff_toNat_le.mpr (by omega), by omega⟩
  refine ⟨hmem, ?_⟩
  rw [h.toNat_image hmem, h.toNat_image hfirst, hsum]
  omega

end Mapping

namespace Iommu

variable {iommu : Iommu} {mapping : Mapping} {wanted : Permissions} {address : Address}

/-- The bytes of a word that lie inside the mapping are granted, so it depends
on the others alone whether the word is. -/
theorem permitsWord_iff (hmapping : mapping ∈ iommu.mappings) (hbounded : mapping.IsBounded)
    (hgrants : mapping.grants.intersects wanted) (hstart : mapping.range.start ≤ address) :
    iommu.PermitsWord wanted address (mapping.image address) ↔
      ∀ i < 4, mapping.ending ≤ address.toNat + i →
        iommu.Permits wanted (address + i.toUInt64) ((mapping.image address).toNat + i) := by
  constructor
  · intro h i hi _
    exact h i hi
  · intro h i hi
    by_cases hinside : address.toNat + i < mapping.ending
    · obtain ⟨hmem, himage⟩ := hbounded.toNat_image_add hstart hinside
      exact ⟨mapping, hmapping, hgrants, hmem, himage⟩
    · exact h i hi (Nat.not_lt.mp hinside)

namespace IsTable

variable (table : iommu.IsTable) (hmapping : mapping ∈ iommu.mappings)
  (hmem : address ∈ mapping.range)
include table hmapping hmem

/-- The mapping of the byte behind a mapping starts with this byte. -/
theorem continues_of_permits (hbounded : ∀ mapping ∈ iommu.mappings, mapping.IsBounded) {i : Nat}
    (hi : address.toNat + i = mapping.ending)
    (h : iommu.Permits wanted (address + i.toUInt64) ((mapping.image address).toNat + i)) :
    ∃ next ∈ iommu.mappings, next.grants.intersects wanted ∧ mapping.Continues next := by
  obtain ⟨next, hnext, hgrants, hbehind, himage⟩ := h
  obtain ⟨hstart, hlt⟩ := Mapping.mem_range_iff.mp hmem
  have hstart := UInt64.le_iff_toNat_le.mp hstart
  have hsum := toNat_add_toUInt64 address i
  rw [hi] at hsum
  have hfirst : next.range.start.toNat = mapping.ending % 2 ^ 64 := by
    have hle := UInt64.le_iff_toNat_le.mp hbehind.1
    rw [hsum] at hle
    refine Nat.le_antisymm hle (Nat.not_lt.mp fun hbefore => ?_)
    -- The last address of the mapping would be held by both mappings.
    have hending : mapping.ending < 2 ^ 64 := by
      have hbound : mapping.ending ≤ 2 ^ 64 := Nat.min_le_right _ _
      omega
    have hmod : mapping.ending % 2 ^ 64 = mapping.ending := Nat.mod_eq_of_lt hending
    rw [hmod] at hbefore hsum
    have hlast : (address + (i - 1).toUInt64).toNat = mapping.ending - 1 := by
      rw [toNat_add_toUInt64]
      have hprevious : address.toNat + (i - 1) = mapping.ending - 1 := by omega
      rw [hprevious]
      exact Nat.mod_eq_of_lt (by omega)
    have hhere : address + (i - 1).toUInt64 ∈ mapping.range :=
      Mapping.mem_range_iff.mpr ⟨UInt64.le_iff_toNat_le.mpr (by omega), by omega⟩
    have hthere : address + (i - 1).toUInt64 ∈ next.range := by
      have hend := (Span.mem_iff_toNat.mp hbehind).2
      exact Span.mem_iff_toNat.mpr ⟨by omega, by omega⟩
    obtain rfl := table.eq_of_mem hnext hmapping hthere hhere
    have hbehind := (Mapping.mem_range_iff.mp hbehind).2
    omega
  refine ⟨next, hnext, hgrants, hfirst, ?_⟩
  rw [(hbounded next hnext).toNat_image hbehind, (hbounded mapping hmapping).toNat_image hmem,
    hsum, hfirst, Nat.sub_self] at himage
  omega

/-- Where the next mapping goes on, it holds what a word takes behind the
mapping. -/
theorem permits_of_continues (hfour : 4 ≤ iommu.pageSize)
    (hbounded : ∀ mapping ∈ iommu.mappings, mapping.IsBounded) {next : Mapping}
    (hnext : next ∈ iommu.mappings) (hgrants : next.grants.intersects wanted)
    (hcontinues : mapping.Continues next) {i : Nat} (hi : i < 4)
    (hbehind : mapping.ending ≤ address.toNat + i) :
    iommu.Permits wanted (address + i.toUInt64) ((mapping.image address).toNat + i) := by
  obtain ⟨hstart, hlt⟩ := Mapping.mem_range_iff.mp hmem
  have hstart := UInt64.le_iff_toNat_le.mp hstart
  have hfour := UInt64.le_iff_toNat_le.mp hfour
  change 4 ≤ _ at hfour
  have hpaged := table.paged next hnext
  have hlength : iommu.pageSize.toNat ≤ next.range.length.toNat :=
    Nat.le_of_dvd (Nat.pos_of_ne_zero fun hzero =>
      hpaged.length_ne_zero (UInt64.toNat_inj.mp hzero)) hpaged.dvd_length
  have haligned : Span.IsAligned ⟨next.range.start, iommu.pageSize⟩ :=
    ⟨table.page, hpaged.dvd_start⟩
  have hroom : next.range.start.toNat + iommu.pageSize.toNat ≤ 2 ^ 64 := haligned.stop_le
  have hsum : (address + i.toUInt64).toNat =
      next.range.start.toNat + (address.toNat + i - mapping.ending) := by
    rw [toNat_add_toUInt64, hcontinues.start]
    have hstartNext := hcontinues.start
    have hsplit : address.toNat + i = mapping.ending + (address.toNat + i - mapping.ending) := by
      omega
    rw [hsplit, Nat.add_mod, Nat.mod_eq_of_lt (by omega)]
    omega
  have hinside : address + i.toUInt64 ∈ next.range :=
    Span.mem_iff_toNat.mpr ⟨by omega, by omega⟩
  refine ⟨next, hnext, hgrants, hinside, ?_⟩
  rw [(hbounded next hnext).toNat_image hinside, (hbounded mapping hmapping).toNat_image hmem,
    hsum, hcontinues.target]
  omega

/-- On pages of at least four bytes, a word is granted when it ends inside its
mapping or the next mapping goes on there. -/
theorem permitsWord_iff_continues (hfour : 4 ≤ iommu.pageSize)
    (hbounded : ∀ mapping ∈ iommu.mappings, mapping.IsBounded)
    (hgrants : mapping.grants.intersects wanted) :
    iommu.PermitsWord wanted address (mapping.image address) ↔
      address.toNat + 4 ≤ mapping.ending ∨
        ∃ next ∈ iommu.mappings, next.grants.intersects wanted ∧ mapping.Continues next := by
  obtain ⟨hstart, hlt⟩ := Mapping.mem_range_iff.mp hmem
  constructor
  · intro h
    rcases Nat.lt_or_ge mapping.ending (address.toNat + 4) with hsticks | hinside
    · have hi : address.toNat + (mapping.ending - address.toNat) = mapping.ending := by omega
      exact .inr (table.continues_of_permits hmapping hmem hbounded hi (h _ (by omega)))
    · exact .inl hinside
  · rw [permitsWord_iff hmapping (hbounded mapping hmapping) hgrants hstart]
    rintro (hinside | ⟨next, hnext, hnextGrants, hcontinues⟩) i hi hbehind
    · omega
    · exact table.permits_of_continues hmapping hmem hfour hbounded hnext hnextGrants hcontinues hi
        hbehind

end IsTable

end Iommu

/-! ## Word accesses -/

/-- What a word access does with its word. -/
inductive WordAccess
  /-- Read it. -/
  | read
  /-- Write it. -/
  | write (word : UInt32)
deriving DecidableEq

namespace WordAccess

/-- The request for the access at an address. -/
def request (access : WordAccess) (address : Address) : Work.Request :=
  match access with
  | .read => .read address
  | .write word => .write address word

/-- The permission that the access asks for. -/
def wanted : WordAccess → Permissions
  | .read => .read
  | .write _ => .write

/-- Both permissions are among those that have a name. -/
theorem wanted_and_all (access : WordAccess) : access.wanted &&& .all = access.wanted := by
  cases access with
  | read => rfl
  | write word => exact (rfl : Permissions.write &&& .all = .write)

end WordAccess

/-- Access the word at a physical address. -/
def Plain.access (plain : Plain) (physical : Address) : WordAccess → Report × Plain
  | .read => plain.fetch physical
  | .write word => plain.store physical word

/-- The report of a result tells it, up to the number of regions filled. -/
theorem eq_ok_of_report {result : Except Fault Work.Outcome} {outcome : Work.Outcome}
    (h : report result = .ok outcome) (hfilled : ∀ filled, outcome ≠ .translated filled) :
    result = .ok outcome := by
  cases result with
  | error fault => cases h
  | ok other =>
      cases other with
      | translated filled =>
          cases h
          exact absurd rfl (hfilled 0)
      | _ =>
          cases h
          rfl

namespace Worker

section Accesses

variable {α : Type u} {μ : Type v} [PhysicalMemory μ]

theorem accesses_readMemory (worker : Worker α μ) (physical : Address) (count : Nat) :
    accesses (worker.readMemory physical count).2.trace =
      accesses worker.trace ++ [(physical, count)] := by
  refine (observe_append_posted (fun _ => rfl) _ _).trans ?_
  rw [observe_push]
  rfl

theorem accesses_writeMemory (worker : Worker α μ) (physical : Address) (bytes : List UInt8) :
    accesses (worker.writeMemory physical bytes).2.trace =
      accesses worker.trace ++ [(physical, bytes.length)] := by
  refine (observe_append_posted (fun _ => rfl) _ _).trans ?_
  rw [observe_push]
  rfl

variable [TranslationAgent α]

/-- The only access of a word read is the word at the address that is resolved. -/
theorem accesses_read (worker : Worker α μ) (address : Address) :
    accesses (worker.read address).2.trace = accesses worker.trace ++
      match (worker.resolve address .read).1 with
      | .error _ => []
      | .ok physical => [(physical, 4)] := by
  have hresolved : accesses (worker.resolve address .read).2.trace = accesses worker.trace :=
    worker.observe_ensure overlooks_access? _
  have hissued (resolved : Worker α μ) (physical : Address) :
      accesses (resolved.suspend.readMemory physical Register.width).2.trace =
        accesses resolved.trace ++ [(physical, 4)] :=
    (resolved.suspend.accesses_readMemory physical Register.width).trans
      (congrArg (· ++ _) (resolved.observe_suspend overlooks_access?))
  obtain ⟨reason, resolved, hresolve, hended⟩ |
    ⟨physical, resolved, fault, after, hresolve, hread, hended⟩ |
    ⟨physical, resolved, word, after, hresolve, hread, hended⟩ := worker.read_cases address
  · rw [hresolve] at hresolved
    rw [hended, hresolve, ← hresolved]
    exact observe_push _ _
  · have hissued := hissued resolved physical
    rw [hresolve] at hresolved
    rw [hread] at hissued
    rw [hended, hresolve, ← hresolved]
    exact hissued
  · have hissued := hissued resolved physical
    rw [hresolve] at hresolved
    rw [hread] at hissued
    rw [hended, hresolve, ← hresolved]
    exact hissued

theorem accesses_write (worker : Worker α μ) (address : Address) (word : UInt32) :
    accesses (worker.write address word).2.trace = accesses worker.trace ++
      match (worker.resolve address .write).1 with
      | .error _ => []
      | .ok physical => [(physical, 4)] := by
  have hresolved : accesses (worker.resolve address .write).2.trace = accesses worker.trace :=
    worker.observe_ensure overlooks_access? _
  have hissued (resolved : Worker α μ) (physical : Address) :
      accesses (resolved.suspend.writeMemory physical (Word.bytes word)).2.trace =
        accesses resolved.trace ++ [(physical, 4)] :=
    (resolved.suspend.accesses_writeMemory physical (Word.bytes word)).trans
      (congrArg (· ++ _) (resolved.observe_suspend overlooks_access?))
  obtain ⟨reason, resolved, hresolve, hended⟩ |
    ⟨physical, resolved, fault, after, hresolve, hwrite, hended⟩ |
    ⟨physical, resolved, after, hresolve, hwrite, hended⟩ := worker.write_cases address word
  · rw [hresolve] at hresolved
    rw [hended, hresolve, ← hresolved]
    exact observe_push _ _
  · have hissued := hissued resolved physical
    rw [hresolve] at hresolved
    rw [hwrite] at hissued
    rw [hended, hresolve, ← hresolved]
    exact hissued
  · have hissued := hissued resolved physical
    rw [hresolve] at hresolved
    rw [hwrite] at hissued
    rw [hended, hresolve, ← hresolved]
    exact hissued

theorem accesses_execute (worker : Worker α μ) (request : Work.Request) :
    accesses (worker.execute request).2.trace =
      accesses ((worker.note (.workStarted request)).perform request).2.trace :=
  observe_execute (fun _ _ => rfl) worker request

end Accesses

variable {α : Type u} [TranslationAgent α] (worker : Worker α HostMemory) (access : WordAccess)
  (address : Address)

theorem accesses_perform :
    accesses (worker.perform (access.request address)).2.trace = accesses worker.trace ++
      match (worker.resolve address access.wanted).1 with
      | .error _ => []
      | .ok physical => [(physical, 4)] := by
  cases access with
  | read => exact worker.accesses_read address
  | write word => exact worker.accesses_write address word

/-- A word access does to the word at the address that is resolved what the
reference does to it. -/
theorem report_perform :
    (report (worker.perform (access.request address)).1,
        (worker.perform (access.request address)).2.plain) =
      match (worker.resolve address access.wanted).1 with
      | .error reason => (.ok (.denied reason), worker.plain.complete)
      | .ok physical => worker.plain.access physical access := by
  cases access with
  | read => exact worker.report_read address
  | write word => exact worker.report_write address word

/-- An address that is resolved from a cache of regions cut from a table is one
that the table grants. -/
theorem resolve_of_keeps {iommu : Iommu} {worker : Worker Iommu HostMemory}
    (h : worker.Keeps iommu.Later iommu.IsCut) (hpaged : iommu.IsPaged) {wanted : Permissions}
    (hwanted : wanted &&& .all = wanted) {address physical : Address}
    (hresolve : (worker.resolve address wanted).1 = .ok physical) :
    ∃ mapping ∈ iommu.mappings, mapping.grants.intersects wanted ∧
      mapping.range.start ≤ address ∧ (2 ≤ iommu.pageSize → address ∈ mapping.range) ∧
      physical = mapping.image address := by
  have hkeeps := h.ensure iommu.yields ⟨address, worker.granule.bytes⟩
  simp only [resolve, Cache.resolve] at hresolve
  split at hresolve
  next => cases hresolve
  next region hfound =>
    split at hresolve
    next hgrants =>
      cases hresolve
      have hmem : address ∈ region.span := by simpa using List.find?_some hfound
      obtain ⟨mapping, hmapping, hcut⟩ := hkeeps.cache region (List.mem_of_find?_eq_some hfound)
      have hmapped := hpaged.paged mapping hmapping
      rw [hcut.grants_eq, Permissions.intersects_all_and hwanted] at hgrants
      exact ⟨mapping, hmapping, hgrants, hcut.start_le hpaged hmapped hmem,
        fun htwo => hcut.mem_range hpaged hmapped hmem (.inl htwo),
        hcut.translate_eq hpaged hmapped hmem⟩
    next => cases hresolve

end Worker

/-! ## Endpoints without unmapping -/

/-- The action does not unmap. -/
def SoftwareAction.IsGrowing : SoftwareAction → Prop
  | .unmap _ => False
  | _ => True

namespace Endpoint

variable {endpoint next : SoftwareEndpoint}

/-- Every cached region is cut from the table as it is. -/
def IsCurrent (endpoint : SoftwareEndpoint) : Prop :=
  endpoint.Keeps endpoint.agent.Later endpoint.agent.IsCut

/-- Work changes no more of the agent than its counter. -/
theorem IsCurrent.of_keeps (h : next.Keeps endpoint.agent.Later endpoint.agent.IsCut) :
    next.IsCurrent :=
  h.mono (.refl _) fun _ => h.agent.isCut

theorem isCurrent_after (h : endpoint.IsCurrent) (action : SoftwareAction)
    (hgrowing : action.IsGrowing) : (endpoint.after action).IsCurrent := by
  obtain ⟨range, target, grants, rfl⟩ | ⟨range, rfl⟩ | rfl | ⟨request, rfl⟩ | hframes :=
    endpoint.after_cases action
  · exact ⟨.refl _, fun region hregion =>
      Iommu.isCut_map (h.cache region hregion) range target grants⟩
  · exact hgrowing.elim
  · exact .of_keeps (keeps_runPending endpoint.agent.yields h)
  · exact .of_keeps (execute_invariant endpoint
      (P := fun datapath => datapath.Keeps endpoint.agent.Later endpoint.agent.IsCut)
      (Datapath.Keeps.invariant endpoint.agent.yields) h request)
  · exact .of_keeps (hframes.keeps h)

/-- As long as nothing is unmapped, no cached region is out of date. -/
theorem Reaches.isCurrent {start : SoftwareEndpoint}
    (h : Reaches (fun _ action => action.IsGrowing) start endpoint) (hstart : start.IsCurrent) :
    endpoint.IsCurrent :=
  h.invariant hstart fun _ action hcurrent => isCurrent_after hcurrent action

/-- A word access does to the word at the address that is resolved what the
reference does to it. -/
theorem report_access (endpoint : SoftwareEndpoint) (access : WordAccess) (address : Address) :
    (report (endpoint.execute (access.request address)).result,
        (endpoint.execute (access.request address)).state.plain) =
      match ((endpoint.worker.note (.workStarted (access.request address))).resolve address
        access.wanted).1 with
      | .error reason => (.ok (.denied reason), endpoint.plain.complete)
      | .ok physical => endpoint.plain.access physical access := by
  let request := access.request address
  let worker := endpoint.worker.note (.workStarted request)
  have hresult : (endpoint.execute request).result = (worker.perform request).1 :=
    endpoint.worker.fst_execute request
  have hplain : (endpoint.execute request).state.plain = (worker.perform request).2.plain :=
    congrArg Datapath.plain (endpoint.worker.toDatapath_execute request)
  rw [hresult, hplain]
  exact worker.report_perform access address

/-- A word access that is applied does to one word of memory what it is asked
to. The word begins at the image of the address under a mapping that grants the
access. -/
theorem IsCurrent.access (h : endpoint.IsCurrent) (hpaged : endpoint.agent.IsPaged)
    (access : WordAccess) (address : Address)
    (happlied : (endpoint.execute (access.request address)).result = .ok .applied) :
    ∃ mapping ∈ endpoint.agent.mappings, mapping.grants.intersects access.wanted ∧
      mapping.range.start ≤ address ∧
      (2 ≤ endpoint.agent.pageSize → address ∈ mapping.range) ∧
      (.ok .applied, (endpoint.execute (access.request address)).state.plain) =
        endpoint.plain.access (mapping.image address) access ∧
      accesses (endpoint.execute (access.request address)).trace =
        [(mapping.image address, 4)] := by
  let worker := endpoint.worker.note (.workStarted (access.request address))
  have hkeeps : worker.Keeps endpoint.agent.Later endpoint.agent.IsCut := ⟨h.agent, h.cache⟩
  have hdone : (worker.perform (access.request address)).1 = .ok .applied :=
    (endpoint.worker.fst_execute _).symm.trans happlied
  have hplain : (endpoint.execute (access.request address)).state.plain =
      (worker.perform (access.request address)).2.plain :=
    congrArg Datapath.plain (endpoint.worker.toDatapath_execute _)
  have hreport := worker.report_perform access address
  have haccesses := (endpoint.worker.accesses_execute _).trans
    (worker.accesses_perform access address)
  rw [hdone] at hreport
  cases hresolve : (worker.resolve address access.wanted).1 with
  | error reason =>
      rw [hresolve] at hreport
      cases congrArg Prod.fst hreport
  | ok physical =>
      rw [hresolve] at hreport haccesses
      obtain ⟨mapping, hmapping, hgrants, hstart, hmem, rfl⟩ :=
        Worker.resolve_of_keeps hkeeps hpaged access.wanted_and_all hresolve
      exact ⟨mapping, hmapping, hgrants, hstart, hmem, hplain ▸ hreport, haccesses⟩

/-- In every state that is reached without unmapping, a word access that is
applied touches one word of memory, which begins at the image of the address
under a mapping that grants the access. The table grants all of the word if and
only if it grants the bytes that stick out of this mapping; with pages of at
least four bytes, this is when none does or when the next mapping goes on. -/
theorem access_permitsWord_iff {pageSize granule : UInt64} {config : Config} {iommu : Iommu}
    {memory : HostMemory} {start : SoftwareEndpoint} (hbuilt : iommu.Built pageSize granule)
    (hpage : IsPowerOfTwo pageSize) (hgranule : IsPowerOfTwo granule)
    (hboot : (bootLinked config iommu memory).1 = .ok start)
    (hreaches : Reaches (fun _ action => action.IsGrowing) start endpoint)
    (hbounded : ∀ mapping ∈ endpoint.agent.mappings, mapping.IsBounded)
    (access : WordAccess) (address : Address)
    (happlied : (endpoint.execute (access.request address)).result = .ok .applied) :
    ∃ mapping ∈ endpoint.agent.mappings, mapping.grants.intersects access.wanted ∧
      mapping.range.start ≤ address ∧ (2 ≤ pageSize → address ∈ mapping.range) ∧
      (.ok .applied, (endpoint.execute (access.request address)).state.plain) =
        endpoint.plain.access (mapping.image address) access ∧
      accesses (endpoint.execute (access.request address)).trace =
        [(mapping.image address, 4)] ∧
      (endpoint.agent.PermitsWord access.wanted address (mapping.image address) ↔
        ∀ i < 4, mapping.ending ≤ address.toNat + i →
          endpoint.agent.Permits access.wanted (address + i.toUInt64)
            ((mapping.image address).toNat + i)) ∧
      (4 ≤ pageSize →
        (endpoint.agent.PermitsWord access.wanted address (mapping.image address) ↔
          address.toNat + 4 ≤ mapping.ending ∨ ∃ next ∈ endpoint.agent.mappings,
            next.grants.intersects access.wanted ∧ mapping.Continues next)) := by
  obtain ⟨_, _, hcache⟩ := boot_eq hboot
  have hcurrent := hreaches.isCurrent ⟨.refl _, by simp [hcache]⟩
  obtain ⟨hstart, hlinked⟩ := built_boot hbuilt hboot
  obtain ⟨hbuilt, _⟩ := hreaches.built hstart hlinked
  have hsize := hbuilt.pageSize_eq
  obtain ⟨mapping, hmapping, hgrants, hfirst, hmem, hplain, haccesses⟩ :=
    hcurrent.access (hbuilt.isPaged hpage hgranule) access address happlied
  rw [hsize] at hmem
  refine ⟨mapping, hmapping, hgrants, hfirst, hmem, hplain, haccesses,
    Iommu.permitsWord_iff hmapping (hbounded mapping hmapping) hgrants hfirst, ?_⟩
  intro hfour
  have htwo : 2 ≤ pageSize := UInt64.le_trans (by decide) hfour
  exact (hbuilt.isTable hpage htwo hgranule).permitsWord_iff_continues hmapping (hmem htwo)
    (hsize ▸ hfour) hbounded hgrants

/-- An endpoint with one page mapped. -/
def onePage : SoftwareEndpoint :=
  fresh.after (.map ⟨0x8000, 0x1000⟩ 0x9000 .all)

/-- The same with the next page mapped where this one ends on both sides. -/
def twoMappings : SoftwareEndpoint :=
  onePage.after (.map ⟨0x9000, 0x1000⟩ 0xa000 .all)

theorem reaches_onePage : Reaches (fun _ action => action.IsGrowing) fresh onePage :=
  .step .start (.map ⟨0x8000, 0x1000⟩ 0x9000 .all) trivial

/-- A word across two pages that go on is granted. -/
theorem permitsWord_twoMappings :
    (twoMappings.execute (WordAccess.request (.write 0x11223344) 0x8ffe)).result = .ok .applied ∧
      twoMappings.agent.PermitsWord .write 0x8ffe 0x9ffe := by
  have hreaches : Reaches (fun _ action => action.IsGrowing) fresh twoMappings :=
    .step reaches_onePage (.map ⟨0x9000, 0x1000⟩ 0xa000 .all) trivial
  have hmappings : twoMappings.agent.mappings =
      [⟨⟨0x8000, 0x1000⟩, 0x9000, .all⟩, ⟨⟨0x9000, 0x1000⟩, 0xa000, .all⟩] := by
    decide +kernel
  have hbounded : ∀ mapping ∈ twoMappings.agent.mappings, mapping.IsBounded := by
    rw [hmappings]
    unfold Mapping.IsBounded
    decide
  have happlied : (twoMappings.execute (WordAccess.request (.write 0x11223344) 0x8ffe)).result =
      .ok .applied :=
    eq_ok_of_toOption (by decide +kernel)
  obtain ⟨mapping, hmapping, _, _, hmem, _, _, _, hiff⟩ :=
    access_permitsWord_iff (.empty false 0) ⟨12, rfl⟩ ⟨12, rfl⟩ boot_fresh hreaches hbounded
      (.write 0x11223344) 0x8ffe happlied
  rw [hmappings] at hmapping
  have hfirst : mapping = ⟨⟨0x8000, 0x1000⟩, 0x9000, .all⟩ := by
    rcases List.mem_cons.mp hmapping with hfirst | hsecond
    · exact hfirst
    · rw [List.mem_singleton.mp hsecond] at hmem
      exact absurd (hmem (by decide)) (by decide)
  rw [hfirst, hmappings] at hiff
  refine ⟨happlied, (hiff (by decide)).mpr (.inr ⟨⟨⟨0x9000, 0x1000⟩, 0xa000, .all⟩, ?_, ?_⟩)⟩
  · decide
  · exact ⟨by decide, by decide, by decide⟩

/-- A word that sticks out of a page takes two bytes that no mapping sends to. -/
theorem not_permitsWord_onePage :
    (bootLinked {} {} (.zeroed 0x8000 0x4000)).1 = .ok fresh ∧
      Reaches (fun _ action => action.IsGrowing) fresh onePage ∧
      (∀ mapping ∈ onePage.agent.mappings, mapping.IsBounded) ∧
      (onePage.execute (WordAccess.request .read 0x8ffe)).result = .ok .applied ∧
      accesses (onePage.execute (WordAccess.request .read 0x8ffe)).trace = [(0x9ffe, 4)] ∧
      ¬ onePage.agent.PermitsWord .read 0x8ffe 0x9ffe := by
  have hmappings : onePage.agent.mappings = [⟨⟨0x8000, 0x1000⟩, 0x9000, .all⟩] := by
    decide +kernel
  refine ⟨boot_fresh, reaches_onePage, ?_, eq_ok_of_toOption (by decide +kernel),
    by decide +kernel, ?_⟩
  · rw [hmappings]
    unfold Mapping.IsBounded
    decide
  · intro hword
    obtain ⟨mapping, hmapping, _, hmem, _⟩ := hword 2 (by decide)
    rw [hmappings, List.mem_singleton] at hmapping
    rw [hmapping] at hmem
    exact absurd hmem (by decide)

end Endpoint

end AtsEndpoint
