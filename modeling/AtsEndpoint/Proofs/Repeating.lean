import AtsEndpoint.Proofs.Growing
import AtsEndpoint.Proofs.Tilings

/-!
# Repeating a translate-ahead

The strides of a translate-ahead begin one granule after another. An agent that
grants every address its block lets each stride cache the address that it begins
with, although the fill asks from the start of the granule on and the blocks may
be much smaller or larger than a granule. Without notices this address stays
cached, so the strides of a second translate-ahead over the range find all that
they look for.
-/

namespace AtsEndpoint

/-- Every address that a stride begins with is cached, when the strides go from
one address on until so much is walked over. -/
def Cache.HitsStrides (cache : Cache) (granule : Granule) (start : Address) (wanted : UInt64) :
    Prop :=
  ∀ i address, i * granule.bytes.toNat < wanted.toNat →
    address.toNat = start.toNat + i * granule.bytes.toNat → cache.contains address

namespace Cache.HitsStrides

variable {cache : Cache} {granule : Granule} {address next : Address} {remaining : UInt64}

theorem head (h : cache.HitsStrides granule address remaining) (hwanted : remaining ≠ 0) :
    cache.contains address := by
  apply h 0 address
  · rw [Nat.zero_mul]
    exact toNat_pos_of_ne_zero hwanted
  · rw [Nat.zero_mul, Nat.add_zero]

/-- One stride is all there is within a granule, and at the end of the address
space. -/
theorem of_last (hcached : cache.contains address)
    (hlast : remaining.toNat ≤ granule.bytes.toNat ∨
      2 ^ 64 ≤ address.toNat + granule.bytes.toNat) :
    cache.HitsStrides granule address remaining := by
  intro i other hinside hother
  have hbound := other.toNat_lt
  have hfirst : i = 0 := by
    refine Nat.eq_zero_of_not_pos fun hmore => ?_
    have hgrows := Nat.le_mul_of_pos_left granule.bytes.toNat hmore
    omega
  rw [hfirst, Nat.zero_mul, Nat.add_zero] at hother
  obtain rfl : other = address := UInt64.toNat_inj.mp hother
  exact hcached

/-- The strides behind the first one are those over the rest of the range. -/
theorem cons_iff (hnext : next.toNat = address.toNat + granule.bytes.toNat)
    (hmore : granule.bytes < remaining) :
    cache.HitsStrides granule address remaining ↔ cache.contains address ∧
      cache.HitsStrides granule next (remaining - granule.bytes) := by
  have hlt := UInt64.lt_iff_toNat_lt.mp hmore
  have hleft := UInt64.toNat_sub_of_le _ _ (UInt64.le_of_lt hmore)
  have hshift (i : Nat) : (i + 1) * granule.bytes.toNat =
      i * granule.bytes.toNat + granule.bytes.toNat := Nat.succ_mul _ _
  constructor
  · intro h
    have hwanted : remaining ≠ 0 := by
      rintro rfl
      exact Nat.not_lt_zero _ hlt
    refine ⟨h.head hwanted, ?_⟩
    intro i other hinside hother
    rw [hleft] at hinside
    apply h (i + 1) other
    · rw [hshift]
      omega
    · rw [hshift]
      rw [hother, hnext]
      omega
  · rintro ⟨hcached, hrest⟩ i other hinside hother
    cases i with
    | zero =>
      rw [Nat.zero_mul, Nat.add_zero] at hother
      obtain rfl : other = address := UInt64.toNat_inj.mp hother
      exact hcached
    | succ i =>
      rw [hshift] at hinside hother
      apply hrest i other
      · rw [hleft]
        omega
      · rw [hother, hnext]
        omega

end Cache.HitsStrides

namespace Worker

variable {α : Type u} {μ : Type v} [TranslationAgent α]

theorem ensure_of_contains {worker : Worker α μ} {range : Span}
    (hcached : worker.cache.contains range.start) : worker.ensure range = (0, worker) :=
  if_pos hcached

/-- Strides that begin with cached addresses do nothing. -/
theorem stride_of_hits (worker : Worker α μ) (address : Address) (remaining : UInt64) (filled : Nat)
    (h : worker.cache.HitsStrides worker.granule address remaining) :
    worker.stride address remaining filled = (filled, worker) := by
  fun_induction Worker.stride worker address remaining filled with
  | case1 => rfl
  | case2 worker address remaining filled hwanted size added next hensure hlast =>
    rw [ensure_of_contains (h.head hwanted)] at hensure
    cases hensure
    rfl
  | case3 worker address remaining filled hwanted size added next hensure hmore hend =>
    rw [ensure_of_contains (h.head hwanted)] at hensure
    cases hensure
    rfl
  | case4 worker address remaining filled hwanted size added next hensure hmore behind hbehind ih =>
    rw [ensure_of_contains (h.head hwanted)] at hensure
    cases hensure
    have hnext := toNat_of_addChecked?_eq_some hbehind
    exact ih ((Cache.HitsStrides.cons_iff hnext (UInt64.not_le.mp hmore)).mp h).2

section Granted

variable {agents : α → Prop} {tiling : Tiling (2 ^ 64)}
  (htotal : ∀ address, tiling.block? address ≠ none) (granted : tiling.GrantedBy agents)
  (silent : Silent agents)
include htotal granted

/-- A stride caches the address that it begins with. -/
theorem contains_stride_start {worker : Worker α μ} (hagent : agents worker.agent)
    (address : Address) :
    (worker.ensure ⟨address, worker.granule.bytes⟩).2.cache.contains address := by
  rw [contains_ensure_of_grantedBy granted hagent address.toNat_lt]
  exact .inr fun between _ _ => htotal between

include silent

/-- After the strides over a range each address that one of them begins with is
cached. -/
theorem hits_stride {old : Cache} {worker : Worker α μ} (h : worker.Grows agents old)
    (address : Address) (remaining : UInt64) (filled : Nat) :
    (worker.stride address remaining filled).2.cache.HitsStrides worker.granule address
      remaining := by
  fun_induction Worker.stride worker address remaining filled with
  | case1 worker address filled =>
    intro i other hinside
    exact absurd hinside (Nat.not_lt_zero _)
  | case2 worker address remaining filled hwanted size added next hensure hlast =>
    have hcached := contains_stride_start htotal granted h.agent address
    rw [hensure] at hcached
    exact .of_last hcached (.inl (UInt64.le_iff_toNat_le.mp hlast))
  | case3 worker address remaining filled hwanted size added next hensure hmore hend =>
    have hcached := contains_stride_start htotal granted h.agent address
    rw [hensure] at hcached
    exact .of_last hcached (.inr (addChecked?_eq_none_iff.mp hend))
  | case4 worker address remaining filled hwanted size added next hensure hmore behind hbehind ih =>
    have hcached := contains_stride_start htotal granted h.agent address
    have hgrown := h.ensure silent ⟨address, size⟩
    have hgranule := worker.granule_ensure ⟨address, size⟩
    rw [hensure] at hcached hgrown hgranule
    have hnext := toNat_of_addChecked?_eq_some hbehind
    have hkept : ((next.stride behind (remaining - size) (filled + added)).2).Grows agents
        next.cache := Datapath.Grows.stride silent ⟨hgrown.agent, hgrown.waiting, .refl _⟩ _ _ _
    refine (Cache.HitsStrides.cons_iff hnext (UInt64.not_le.mp hmore)).mpr ⟨?_, ?_⟩
    · exact hkept.cache.contains hcached
    · have hrest := ih hgrown
      rwa [show next.granule = worker.granule from hgranule] at hrest

end Granted

end Worker

namespace Endpoint

variable {α : Type u} {μ : Type v} [TranslationAgent α] [PhysicalMemory μ]

/-- A translate-ahead whose strides begin with cached addresses only sets STATUS. -/
theorem execute_translate_of_hits {endpoint : Endpoint α μ} {range : Span}
    (h : endpoint.cache.HitsStrides endpoint.granule range.start range.length) :
    let run := endpoint.execute (.translate range)
    requests run.trace = [] ∧ run.result = .ok (.translated 0) ∧
      run.state = { endpoint with registers := endpoint.registers.complete } := by
  let worker := endpoint.worker.note (.workStarted (.translate range))
  have hstride : worker.stride range.start range.length 0 = (0, worker) :=
    worker.stride_of_hits range.start range.length 0 h
  have hperform : worker.perform (.translate range) = (.ok (.translated 0), worker.complete) := by
    rw [Worker.perform, Worker.translate, hstride]
  rw [execute, Worker.execute, hperform]
  exact ⟨rfl, rfl, rfl⟩

/-- Under an agent that posts nothing and grants every address its block, a
translate-ahead that is repeated asks for nothing and adds nothing, and it leaves
the endpoint as it is. -/
theorem translate_again {agents : α → Prop} {tiling : Tiling (2 ^ 64)}
    (htotal : ∀ address, tiling.block? address ≠ none) (granted : tiling.GrantedBy agents)
    (silent : Silent agents) {endpoint : Endpoint α μ} (hagent : agents endpoint.agent)
    (hwaiting : endpoint.notices.waiting = []) (range : Span) :
    let first := endpoint.execute (.translate range)
    let second := first.state.execute (.translate range)
    requests second.trace = [] ∧ second.result = .ok (.translated 0) ∧
      second.state = first.state := by
  intro first second
  let worker := endpoint.worker.note (.workStarted (.translate range))
  let walked := (worker.stride range.start range.length 0).2
  have hfirst : first.state.toDatapath = walked.complete.toDatapath :=
    endpoint.worker.toDatapath_execute (.translate range)
  have hgrows : worker.Grows agents endpoint.cache := ⟨hagent, hwaiting, .refl _⟩
  have hhits : first.state.cache.HitsStrides first.state.granule range.start range.length := by
    rw [congrArg Datapath.cache hfirst]
    exact Worker.hits_stride htotal granted silent hgrows range.start range.length 0
  have hdone : first.state.registers.complete = first.state.registers := by
    rw [congrArg Datapath.registers hfirst]
    rfl
  obtain ⟨hrequests, hresult, hstate⟩ := execute_translate_of_hits hhits
  refine ⟨hrequests, hresult, hstate.trans ?_⟩
  rw [hdone]

end Endpoint

/-- A block map posts nothing. -/
theorem BlockMap.silent (blocks : BlockMap) : Silent (· = blocks) where
  posted := by
    rintro _ rfl address
    simp only [TranslationAgent.translate]
    split <;> rfl
  next := by
    rintro _ rfl address
    simp only [TranslationAgent.translate]
    split <;> rfl

/-- Three pages are filled ahead from the middle of a page on, in blocks of a
quarter of a page. -/
theorem Endpoint.translate_again_quarterPages :
    let block : Granule := ⟨0x400, ⟨10, rfl⟩⟩
    let endpoint : Endpoint BlockMap HostMemory :=
      { agent := .identity block
        memory := .zeroed 0 16
        config := {}
        config_valid := Config.isValid_default }
    let first := endpoint.execute (.translate ⟨0x1a34, 0x2100⟩)
    let second := first.state.execute (.translate ⟨0x1a34, 0x2100⟩)
    (∀ address, (BlockMap.identity block).tiling.block? address ≠ none) ∧
      (BlockMap.identity block).tiling.GrantedBy (· = endpoint.agent) ∧
      Silent (· = endpoint.agent) ∧ first.state.cache.size = 14 ∧
      requests second.trace = [] ∧ second.result = .ok (.translated 0) ∧
      second.state = first.state := by
  intro block endpoint first second
  have hsize : first.state.cache.size = 14 := by decide +kernel
  have htotal := BlockMap.block?_identity_ne_none block
  have hgranted := (BlockMap.serves_self (.identity block)).grantedBy
  have hsilent := BlockMap.silent (.identity block)
  exact ⟨htotal, hgranted, hsilent, hsize,
    translate_again htotal hgranted hsilent rfl rfl ⟨0x1a34, 0x2100⟩⟩

end AtsEndpoint
