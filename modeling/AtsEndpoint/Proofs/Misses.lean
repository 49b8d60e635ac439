import AtsEndpoint.Proofs.Accesses
import AtsEndpoint.Proofs.Striding
import AtsEndpoint.Proofs.Tilings

/-!
# What a word access asks for

A word access whose address is not cached fills as many bytes as a granule has,
from the address on. The fill widens this range down to the granule that holds
the address. So the range reaches into the next granule, unless the address is
the start of its own or there is no next one, and then this one is asked for as
well.

What follows the lookup neither asks nor fills. If memory is accessed, the
notices posted meanwhile take effect before that.
-/

namespace AtsEndpoint

/-- Every address lies in the granule around it. -/
def Tiling.uniform (granule : Granule) : Tiling (2 ^ 64) where
  block? address := some (.around address granule.bytes)
  mem := by
    rintro address _ ⟨⟩
    exact Span.IsAligned.mem_around address granule.isPowerOfTwo
  aligned := by
    rintro address _ ⟨⟩
    exact Span.isAligned_around address granule.isPowerOfTwo
  constant := by
    rintro address other _ ⟨⟩ hmem _
    exact congrArg some ((Span.isAligned_around address granule.isPowerOfTwo).around_eq hmem)

theorem BlockMap.grantedBy_identity (granule : Granule) :
    (Tiling.uniform granule).GrantedBy (· = BlockMap.identity granule) :=
  (BlockMap.serves_self (.identity granule)).grantedBy

/-- The granules that have an address in common with a range as long as a
granule, up to the end of the address space, given by their starts. -/
def Granule.touched (granule : Granule) (address : Address) : List Address :=
  let first := alignDown address granule.bytes
  if granule.bytes.toNat ∣ address.toNat ∨ 2 ^ 64 ≤ first.toNat + granule.bytes.toNat then [first]
  else [first, first + granule.bytes]

/-- What is wanted of a range as long as a granule, once it is widened. -/
theorem Granule.toNat_wanted (granule : Granule) (address : Address) :
    (addSaturating granule.bytes (granuleOffset address granule.bytes)).toNat =
      granule.bytes.toNat + address.toNat % granule.bytes.toNat := by
  have hstop := granule.stop_widened address
  have hsplit := Nat.div_add_mod address.toNat granule.bytes.toNat
  rw [toNat_alignDown granule.isPowerOfTwo] at hstop
  omega

namespace Fill.Walks

variable {granule : Granule} {start address : Address} {remaining : UInt64}
  {exchanges : List Exchange}

/-- A walk from the start of a granule is granted this granule, and it is over
then or goes on behind it. -/
theorem cases_uniform (h : Walks start remaining exchanges)
    (hanswers : ∀ exchange ∈ exchanges, (Tiling.uniform granule).Answers exchange)
    (hdvd : granule.bytes.toNat ∣ start.toNat) (hwanted : remaining ≠ 0) :
    ∃ exchange region later, exchanges = exchange :: later ∧
      exchange.request = ⟨start, .all⟩ ∧ exchange.region? = some region ∧
      region.span = ⟨start, granule.bytes⟩ ∧
      (later = [] ∧ (remaining ≤ granule.bytes ∨ 2 ^ 64 ≤ start.toNat + granule.bytes.toNat) ∨
        granule.bytes < remaining ∧ ∃ next, next.toNat = start.toNat + granule.bytes.toNat ∧
          Walks next (remaining - granule.bytes) later) := by
  have hspan {exchange : Exchange} {region : Region}
      (hanswer : (Tiling.uniform granule).Answers exchange)
      (hrequest : exchange.request = ⟨start, .all⟩) (hregion : exchange.region? = some region) :
      region.span = ⟨start, granule.bytes⟩ := by
    have hblock := Option.some.inj (hanswer.block?_eq_some hrequest hregion)
    rw [← hblock, Span.around, alignDown_eq_self granule.isPowerOfTwo hdvd]
  cases h with
  | idle => exact absurd rfl hwanted
  | refused hrequest _ hrefused =>
    have hnone := (hanswers _ List.mem_cons_self).block?_eq_none hrequest hrefused
    cases hnone
  | last hrequest _ hregion hlast =>
    have hspan := hspan (hanswers _ List.mem_cons_self) hrequest hregion
    rw [hspan] at hlast
    exact ⟨_, _, [], rfl, hrequest, hregion, hspan, .inl ⟨rfl, hlast⟩⟩
  | more hrequest _ hregion hmore hnext rest =>
    have hspan := hspan (hanswers _ List.mem_cons_self) hrequest hregion
    rw [hspan] at hmore hnext rest
    exact ⟨_, _, _, rfl, hrequest, hregion, hspan, .inr ⟨hmore, _, hnext, rest⟩⟩

/-- A fill of one granule asks for the granules that its range touches, and is
granted each of them. -/
theorem asks_touched
    (h : Walks (alignDown address granule.bytes)
      (addSaturating granule.bytes (granuleOffset address granule.bytes)) exchanges)
    (hanswers : ∀ exchange ∈ exchanges, (Tiling.uniform granule).Answers exchange) :
    exchanges.map Exchange.request = (granule.touched address).map (⟨·, .all⟩) ∧
      (exchanges.filterMap Exchange.region?).map Region.span =
        (granule.touched address).map (⟨·, granule.bytes⟩) := by
  have hdvd := dvd_toNat_alignDown address granule.isPowerOfTwo
  have htotal := granule.toNat_wanted address
  have hoffset := Nat.mod_lt address.toNat granule.toNat_bytes_pos
  have hwanted : addSaturating granule.bytes (granuleOffset address granule.bytes) ≠ 0 :=
    addSaturating_ne_zero granule.bytes_ne_zero _
  obtain ⟨first, region, later, rfl, hrequest, hregion, hspan, hlater⟩ :=
    h.cases_uniform hanswers hdvd hwanted
  rw [List.map_cons, hrequest, List.filterMap_cons_some hregion, List.map_cons, hspan,
    Granule.touched]
  simp only [UInt64.le_iff_toNat_le, UInt64.lt_iff_toNat_lt, htotal] at hlater
  split
  next hone =>
    rw [Nat.dvd_iff_mod_eq_zero] at hone
    -- Nothing is wanted behind a granule that begins at the address, and there
    -- is nothing behind the last one.
    obtain ⟨rfl, -⟩ | ⟨hmore, next, hnext, -⟩ := hlater
    · exact ⟨rfl, rfl⟩
    · have hlast := next.toNat_lt
      omega
  next hmore =>
    rw [Nat.dvd_iff_mod_eq_zero] at hmore
    obtain ⟨-, hover⟩ | ⟨hless, next, hnext, hrest⟩ := hlater
    · omega
    · have hleft := UInt64.toNat_sub_of_le _ _
        (UInt64.le_iff_toNat_le.mpr (htotal ▸ Nat.le_of_lt hless))
      rw [htotal, Nat.add_sub_cancel_left] at hleft
      have hbehind : next = alignDown address granule.bytes + granule.bytes := by
        rw [← UInt64.toNat_inj, hnext, UInt64.toNat_add]
        exact (Nat.mod_eq_of_lt (by omega)).symm
      have hwanted' : addSaturating granule.bytes (granuleOffset address granule.bytes) -
          granule.bytes ≠ 0 := by
        rw [Ne, ← UInt64.toNat_inj, hleft]
        exact fun hzero => hmore (.inl hzero)
      obtain ⟨second, region', rest, rfl, hrequest', hregion', hspan', hover⟩ :=
        hrest.cases_uniform (List.forall_mem_cons.mp hanswers).2
          (hnext ▸ Nat.dvd_add hdvd (Nat.dvd_refl _)) hwanted'
      simp only [UInt64.lt_iff_toNat_lt, hleft] at hover
      obtain ⟨rfl, -⟩ | ⟨hagain, -⟩ := hover
      · rw [List.map_singleton, hrequest', List.filterMap_cons_some hregion', hbehind]
        exact ⟨rfl, by rw [List.map_cons, hspan', hbehind]; rfl⟩
      · omega

end Fill.Walks

namespace Worker

variable {α : Type u} {μ : Type v}

/-- The worker has gone on without asking for or keeping anything. At most the
notices that waited were applied. -/
structure Follows (resolved after : Worker α μ) : Prop where
  agent : after.agent = resolved.agent
  requests : requests after.trace = requests resolved.trace
  cache : ∃ dropped, (dropped = [] ∨ dropped = resolved.notices.waiting) ∧
    after.cache = NoticeQueue.remains resolved.cache dropped

variable [TranslationAgent α] [PhysicalMemory μ]

/-- All that a word access asks for, it asks for in looking its address up. -/
theorem follows_perform (worker : Worker α μ) (access : WordAccess) (address : Address) :
    (worker.ensure ⟨address, worker.granule.bytes⟩).2.Follows
      (worker.perform (access.request address)).2 := by
  have hfinishes := worker.finishes_perform access address
  refine ⟨hfinishes.agent, hfinishes.requests, _, ?_, hfinishes.cache⟩
  unfold late
  split
  · exact .inr rfl
  · exact .inl rfl

end Worker

namespace Endpoint

variable {α : Type u} {μ : Type v} [TranslationAgent α] [PhysicalMemory μ]

/-- Under an agent that grants every address the granule around it, a word access
whose address is not cached asks for the granules that a range as long as a
granule touches from the address on, and these are added to the cache. This is
the granule of the address alone only if the address is its start or if there is
no granule behind it. -/
theorem execute_miss (endpoint : Endpoint α μ) {agents : α → Prop}
    (granted : (Tiling.uniform endpoint.granule).GrantedBy agents)
    (hagent : agents endpoint.agent) (access : WordAccess) {address : Address}
    (hmiss : endpoint.cache.contains address = false) :
    let run := endpoint.execute (access.request address)
    ∃ exchanges,
      Conversation endpoint.agent exchanges run.state.agent ∧
      requests run.trace = exchanges.map Exchange.request ∧
      exchanges.map Exchange.request = (endpoint.granule.touched address).map (⟨·, .all⟩) ∧
      (exchanges.filterMap Exchange.region?).map Region.span =
        (endpoint.granule.touched address).map (⟨·, endpoint.granule.bytes⟩) ∧
      ∃ dropped, (dropped = [] ∨ dropped = exchanges.flatMap Exchange.posted) ∧
        run.state.cache = NoticeQueue.remains
          ((NoticeQueue.remains endpoint.cache endpoint.notices.waiting).append
            (exchanges.filterMap Exchange.region?)) dropped := by
  intro run
  let worker := endpoint.worker.note (.workStarted (access.request address))
  let range : Span := ⟨address, endpoint.granule.bytes⟩
  obtain ⟨exchanges, hholds, hwalks, -⟩ := worker.suspend.exists_walks_fill range
  obtain ⟨hasked, hspans⟩ := hwalks.asks_touched
    (granted.answers_of_conversation hholds.conversation hagent hwalks.wanted_eq)
  have hmissed : ¬ worker.cache.contains address = true := by
    rw [Bool.not_eq_true]
    exact hmiss
  have hensure : worker.ensure range = worker.suspend.fill range := if_neg hmissed
  have hfollows : (worker.suspend.fill range).2.Follows
      (worker.perform (access.request address)).2 :=
    hensure ▸ worker.follows_perform access address
  have hrun : run.state.toDatapath = (worker.perform (access.request address)).2.toDatapath :=
    endpoint.worker.toDatapath_execute _
  have hsuspended : worker.suspend.cache =
      NoticeQueue.remains endpoint.cache endpoint.notices.waiting :=
    congrArg Prod.snd (NoticeQueue.state_drain _ _)
  have hwaiting : (worker.suspend.fill range).2.notices.waiting =
      exchanges.flatMap Exchange.posted := by
    rw [hholds.waiting, worker.waiting_suspend, List.nil_append]
  refine ⟨exchanges, ?_, ?_, hasked, hspans, ?_⟩
  · rw [congrArg Datapath.agent hrun, hfollows.agent]
    exact hholds.conversation
  · refine (Worker.observe_execute (fun _ _ => rfl) endpoint.worker _).trans
      (hfollows.requests.trans ?_)
    rw [hholds.requests, worker.requests_suspend]
    rfl
  · obtain ⟨dropped, hdropped, hcache⟩ := hfollows.cache
    rw [hwaiting] at hdropped
    refine ⟨dropped, hdropped, ?_⟩
    rw [congrArg Datapath.cache hrun, hcache, hholds.cache, hsuspended]

/-- A word at the start of a page asks for this page only. -/
theorem execute_miss_startOfPage :
    let page : Granule := ⟨4096, Config.isValid_default⟩
    let endpoint : Endpoint BlockMap HostMemory :=
      { agent := .identity page
        memory := .zeroed 0x8000 0x4000
        config := {}
        config_valid := Config.isValid_default }
    requests (endpoint.execute (WordAccess.request .read 0x9000)).trace = [⟨0x9000, .all⟩] := by
  intro page endpoint
  have htouched : endpoint.granule.touched 0x9000 = [0x9000] := by decide
  obtain ⟨exchanges, _, hrequests, hasked, _⟩ := execute_miss endpoint
    (BlockMap.grantedBy_identity page) rfl .read
    (rfl : endpoint.cache.contains 0x9000 = false)
  rw [hrequests, hasked, htouched]
  rfl

/-- A word inside a page asks for the next page as well, and caches both. -/
theorem execute_miss_insidePage :
    let page : Granule := ⟨4096, Config.isValid_default⟩
    let endpoint : Endpoint BlockMap HostMemory :=
      { agent := .identity page
        memory := .zeroed 0x8000 0x4000
        config := {}
        config_valid := Config.isValid_default }
    let run := endpoint.execute (WordAccess.request .read 0x8100)
    (Tiling.uniform endpoint.granule).GrantedBy (· = endpoint.agent) ∧
      endpoint.cache.contains 0x8100 = false ∧
      requests run.trace = [⟨0x8000, .all⟩, ⟨0x9000, .all⟩] ∧
      run.state.cache.regions.map Region.span = [⟨0x8000, 0x1000⟩, ⟨0x9000, 0x1000⟩] := by
  intro page endpoint run
  exact ⟨BlockMap.grantedBy_identity page, rfl, by decide +kernel, by decide +kernel⟩

end Endpoint

end AtsEndpoint
