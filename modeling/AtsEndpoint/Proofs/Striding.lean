import AtsEndpoint.Proofs.Checksum
import AtsEndpoint.Proofs.Growing

/-!
# What a translate-ahead leaves in the cache

A translate-ahead goes over its range in strides of one granule. The strides
begin at the first address of the range and not at the start of a granule. A
stride whose first address is cached is left out. Any other fills the granule
that it begins in, and the next one as well if it reaches into it.

Here the agent grants every address the granule around it. Then the granules in
which strides begin are all cached afterwards. The last stride may reach into
one granule more, and that one is brought in only if the stride is not left
out. Over granules that are not cached every second stride is left out, since
the one before it has filled its granule. So the number of such granules in a
row, up to the one where the last stride begins, decides.
-/

namespace AtsEndpoint

/-- The number of the granule that holds an address. -/
def Granule.index (granule : Granule) (address : Address) : Nat :=
  address.toNat / granule.bytes.toNat

/-- The region is a whole granule. -/
structure Region.IsGranule (region : Region) (granule : Granule) : Prop where
  length_eq : region.span.length = granule.bytes
  dvd_start : granule.bytes.toNat ∣ region.span.start.toNat

/-- Agents in these states post nothing, grant every address the granule around
it, and stay in such states. -/
structure GrantsGranules {α : Type u} [TranslationAgent α] (agents : α → Prop)
    (granule : Granule) : Prop where
  answer : ∀ ⦃agent⦄, agents agent → ∀ address, ∃ target grants,
    (TranslationAgent.translate agent ⟨address, .all⟩).answer = .ok ⟨target, granule.bytes, grants⟩
  posted : ∀ ⦃agent⦄, agents agent → ∀ address,
    (TranslationAgent.translate agent ⟨address, .all⟩).posted = []
  next : ∀ ⦃agent⦄, agents agent → ∀ address,
    agents (TranslationAgent.translate agent ⟨address, .all⟩).agent

namespace Cache

/-- The granule with this number is cached. -/
def holds (cache : Cache) (granule : Granule) (index : Nat) : Bool :=
  cache.contains (index * granule.bytes.toNat).toUInt64

/-- The number of granules in a row that are not cached, counted back from the
granule `first + count` and no further than to `first`. -/
def missing (cache : Cache) (granule : Granule) (first : Nat) : Nat → Nat
  | 0 => if cache.holds granule first then 0 else 1
  | count + 1 =>
    if cache.holds granule (first + count + 1) then 0 else cache.missing granule first count + 1

end Cache

namespace Granule

variable {granule : Granule} {address other : Address}

theorem toNat_bytes_pos (granule : Granule) : 0 < granule.bytes.toNat :=
  granule.isPowerOfTwo.toNat_pos

theorem mem_around_iff : address ∈ Span.around other granule.bytes ↔
    granule.index address = granule.index other := by
  have haligned := Span.isAligned_around other granule.isPowerOfTwo
  rw [haligned.mem_iff]
  simp only [Span.around, toNat_alignDown granule.isPowerOfTwo, index]
  exact Nat.mul_left_cancel_iff granule.toNat_bytes_pos

theorem index_eq_iff {number : Nat} : granule.index address = number ↔
    number * granule.bytes.toNat ≤ address.toNat ∧
      address.toNat < (number + 1) * granule.bytes.toNat := by
  have hpos := granule.toNat_bytes_pos
  rw [index, Nat.div_eq_iff hpos]
  have hsucc := Nat.succ_mul number granule.bytes.toNat
  change (number + 1) * _ = _ at hsucc
  omega

/-- One granule further on the number is one more. -/
theorem index_eq_succ (h : other.toNat = address.toNat + granule.bytes.toNat) :
    granule.index other = granule.index address + 1 := by
  rw [index, h, Nat.add_div_right _ granule.toNat_bytes_pos]
  rfl

/-- One granule further on lies the start of a granule just if one lies here. -/
theorem dvd_iff_of_eq_add (h : other.toNat = address.toNat + granule.bytes.toNat) :
    granule.bytes.toNat ∣ other.toNat ↔ granule.bytes.toNat ∣ address.toNat := by
  rw [h, Nat.dvd_add_left (Nat.dvd_refl _)]

theorem index_mul_of_dvd (h : granule.bytes.toNat ∣ address.toNat) :
    granule.index address * granule.bytes.toNat = address.toNat :=
  Nat.div_mul_cancel h

theorem index_alignDown (address : Address) :
    granule.index (alignDown address granule.bytes) = granule.index address := by
  rw [index, toNat_alignDown granule.isPowerOfTwo,
    Nat.mul_div_cancel_left _ granule.toNat_bytes_pos]
  rfl

/-- Behind the last granule of the address space there is none. -/
theorem index_le_of_top (hdvd : granule.bytes.toNat ∣ other.toNat)
    (htop : 2 ^ 64 ≤ other.toNat + granule.bytes.toNat) (address : Address) :
    granule.index address ≤ granule.index other := by
  rw [← index_mul_of_dvd hdvd, ← Nat.succ_mul, Nat.mul_comm] at htop
  exact Nat.le_of_lt_succ (Nat.div_lt_of_lt_mul (Nat.lt_of_lt_of_le address.toNat_lt htop))

/-- A range of one granule that is widened to where its first granule begins
still ends where it did. No word overflows, as the granule is a power of two. -/
theorem stop_widened (granule : Granule) (start : Address) :
    (alignDown start granule.bytes).toNat +
        (addSaturating granule.bytes (granuleOffset start granule.bytes)).toNat =
      start.toNat + granule.bytes.toNat := by
  have hpower := granule.isPowerOfTwo
  have hhalf := hpower.toNat_le
  have hmod := Nat.mod_lt start.toNat granule.toNat_bytes_pos
  have hsplit := Nat.div_add_mod start.toNat granule.bytes.toNat
  rw [toNat_addSaturating, toNat_granuleOffset hpower, toNat_alignDown hpower]
  omega

theorem exists_index_eq {i : Nat} (h : address.toNat + i * granule.bytes.toNat < 2 ^ 64) :
    ∃ other, granule.index other = granule.index address + i := by
  refine ⟨(address.toNat + i * granule.bytes.toNat).toUInt64, ?_⟩
  rw [index, index, UInt64.toNat_ofNat', Nat.mod_eq_of_lt h,
    Nat.add_mul_div_right _ _ granule.toNat_bytes_pos]

end Granule

/-- Of the granules from number `n` on, the first is the only one that begins
before an end inside it. -/
theorem begins_before_iff {size n i wanted : Nat} (hwanted : 0 < wanted) (hle : wanted ≤ size) :
    n ≤ i ∧ i * size < n * size + wanted ↔ i = n := by
  constructor
  · rintro ⟨hn, hi⟩
    have hlt : i * size < (n + 1) * size := by rw [Nat.succ_mul]; omega
    exact Nat.le_antisymm (Nat.le_of_lt_succ (Nat.lt_of_mul_lt_mul_right hlt)) hn
  · rintro rfl
    exact ⟨Nat.le_refl i, Nat.lt_add_of_pos_right hwanted⟩

/-- The granules that begin before an end behind the first one are the first
one and those that begin before that end from the next one on. -/
theorem begins_before_succ_iff {size n i wanted : Nat} (hlt : size < wanted) :
    n ≤ i ∧ i * size < n * size + wanted ↔
      i = n ∨ n + 1 ≤ i ∧ i * size < (n + 1) * size + (wanted - size) := by
  rw [Nat.succ_mul]
  constructor
  · rintro ⟨hn, hi⟩
    omega
  · rintro (rfl | ⟨hn, hi⟩)
    · omega
    · omega

/-- Over more than one granule, the last stride comes one later than it does
over what the first one leaves. -/
theorem lastStride_succ {size remaining : Nat} (hpos : 0 < size) (hlt : size < remaining) :
    (remaining - 1) / size = (remaining - size - 1) / size + 1 := by
  have hsplit : remaining - 1 = remaining - size - 1 + size := by omega
  rw [hsplit, Nat.add_div_right _ hpos]

/-- A fill of one granule from an address on concerns the granule that holds
the address, and the next one unless the address is the start of its granule. -/
theorem Granule.reaches_iff {granule : Granule} {start : Address} {i : Nat} :
    granule.index start ≤ i ∧ i * granule.bytes.toNat < start.toNat + granule.bytes.toNat ↔
      i = granule.index start ∨
        i = granule.index start + 1 ∧ ¬ granule.bytes.toNat ∣ start.toNat := by
  have hpos := granule.toNat_bytes_pos
  have hsplit := Nat.div_add_mod' start.toNat granule.bytes.toNat
  have hoffset := Nat.mod_lt start.toNat hpos
  change granule.index start * _ + _ = _ at hsplit
  by_cases hdvd : granule.bytes.toNat ∣ start.toNat
  · rw [Nat.mod_eq_zero_of_dvd hdvd, Nat.add_zero] at hsplit
    rw [← hsplit, begins_before_iff hpos (Nat.le_refl _), hsplit]
    simp [hdvd]
  · have hinside : 0 < start.toNat % granule.bytes.toNat :=
      Nat.pos_of_ne_zero (mt Nat.dvd_of_mod_eq_zero hdvd)
    have hend : start.toNat + granule.bytes.toNat = granule.index start * granule.bytes.toNat +
        (start.toNat % granule.bytes.toNat + granule.bytes.toNat) := by omega
    rw [hend, begins_before_succ_iff (Nat.lt_add_of_pos_left hinside), Nat.add_sub_cancel,
      begins_before_iff hinside (Nat.le_of_lt hoffset)]
    simp [hdvd]

section Last

variable {range : Span} (hlength : range.length ≠ 0)
  (hfits : range.start.toNat + range.length.toNat ≤ 2 ^ 64)
include hlength hfits

theorem Span.toNat_last : range.last.toNat = range.start.toNat + (range.length.toNat - 1) := by
  have hpos := toNat_pos_of_ne_zero hlength
  have hone : (1 : UInt64) ≤ range.length := UInt64.le_iff_toNat_le.mpr hpos
  rw [Span.last, toNat_addSaturating, UInt64.toNat_sub_of_le _ _ hone, UInt64.toNat_one]
  omega

theorem Span.last_mem : range.last ∈ range := by
  have hpos := toNat_pos_of_ne_zero hlength
  rw [Span.mem_iff_toNat, Span.toNat_last hlength hfits]
  omega

theorem Granule.index_le_index_last {address : Address} (h : address ∈ range)
    (granule : Granule) : granule.index address ≤ granule.index range.last := by
  have hlast := Span.toNat_last hlength hfits
  have hlt := (Span.mem_iff_toNat.mp h).2
  exact Nat.div_le_div_right (by omega)

/-- The last address of a range lies in the granule in which the last stride
begins, or in the next one. -/
theorem Granule.index_last_bounds (granule : Granule) :
    let last := granule.index range.start + (range.length.toNat - 1) / granule.bytes.toNat
    last ≤ granule.index range.last ∧ granule.index range.last ≤ last + 1 := by
  intro last
  have hindex : granule.index range.last = last +
      if granule.bytes.toNat ≤ range.start.toNat % granule.bytes.toNat +
        (range.length.toNat - 1) % granule.bytes.toNat then 1 else 0 := by
    rw [index, Span.toNat_last hlength hfits, Nat.add_div granule.toNat_bytes_pos]
    rfl
  rw [hindex]
  split <;> omega

/-- From the start of a granule on, the strides reach no further than to the end
of the granule in which the last one begins. -/
theorem Granule.index_last_of_dvd {granule : Granule}
    (hdvd : granule.bytes.toNat ∣ range.start.toNat) : granule.index range.last =
      granule.index range.start + (range.length.toNat - 1) / granule.bytes.toNat := by
  have hpos := granule.toNat_bytes_pos
  obtain ⟨first, hfirst⟩ := hdvd
  rw [index, index, Span.toNat_last hlength hfits, hfirst, Nat.mul_add_div hpos,
    Nat.mul_div_cancel_left _ hpos]

end Last

namespace Region.IsGranule

variable {region : Region} {granule : Granule} {address : Address}

theorem isAligned (h : region.IsGranule granule) : region.span.IsAligned := by
  obtain ⟨hlength, hdvd⟩ := h
  constructor
  · rw [hlength]
    exact granule.isPowerOfTwo
  · rwa [hlength]

theorem mem_iff (h : region.IsGranule granule) :
    address ∈ region.span ↔ granule.index address = granule.index region.span.start := by
  have hself : Span.around region.span.start granule.bytes = region.span :=
    h.length_eq ▸ h.isAligned.around_eq h.isAligned.start_mem
  rw [← Granule.mem_around_iff, hself]

end Region.IsGranule

/-! ## Granules in the cache -/

namespace Cache

variable {cache : Cache} {granule : Granule} {address other : Address}

/-- In a cache of whole granules all addresses of a granule are cached or none
is. -/
theorem contains_eq_of_index_eq (h : ∀ region ∈ cache.regions, region.IsGranule granule)
    (hindex : granule.index address = granule.index other) :
    cache.contains address = cache.contains other := by
  rw [Bool.eq_iff_iff, contains_iff, contains_iff]
  constructor
  · rintro ⟨region, hregion, hmem⟩
    refine ⟨region, hregion, ?_⟩
    rwa [(h region hregion).mem_iff, ← hindex, ← (h region hregion).mem_iff]
  · rintro ⟨region, hregion, hmem⟩
    refine ⟨region, hregion, ?_⟩
    rwa [(h region hregion).mem_iff, hindex, ← (h region hregion).mem_iff]

theorem holds_index (h : ∀ region ∈ cache.regions, region.IsGranule granule) (address : Address) :
    cache.holds granule (granule.index address) = cache.contains address := by
  refine contains_eq_of_index_eq h ?_
  have hle := Nat.div_mul_le_self address.toNat granule.bytes.toNat
  have hlt := address.toNat_lt
  have hstart : (granule.index address * granule.bytes.toNat).toUInt64.toNat =
      granule.index address * granule.bytes.toNat := by
    rw [Granule.index, UInt64.toNat_ofNat']
    exact Nat.mod_eq_of_lt (Nat.lt_of_le_of_lt hle hlt)
  rw [Granule.index_eq_iff, hstart, Nat.succ_mul]
  have hpos := granule.toNat_bytes_pos
  omega

/-- A stride that is not left out turns the next one into one that is. -/
theorem missing_succ_mod_two {cache after : Cache} {first : Nat} (count : Nat)
    (hnext : after.holds granule (first + 1) =
      (cache.holds granule (first + 1) || !cache.holds granule first))
    (hrest : ∀ i < count, after.holds granule (first + 1 + (i + 1)) =
      cache.holds granule (first + 1 + (i + 1))) :
    after.missing granule (first + 1) count % 2 = cache.missing granule first (count + 1) % 2 := by
  induction count with
  | zero =>
      simp only [missing, hnext, Nat.add_zero]
      cases cache.holds granule first <;> cases cache.holds granule (first + 1) <;> rfl
  | succ count ih =>
      have hlast := hrest count (Nat.lt_succ_self count)
      have hcounted := ih fun i hi => hrest i (Nat.lt_succ_of_lt hi)
      have hsame : first + (count + 1) + 1 = first + 1 + (count + 1) := by omega
      rw [missing, missing, hsame, Nat.add_assoc (first + 1), hlast]
      split
      · rfl
      · omega

end Cache

/-! ## Fills -/

namespace GrantsGranules

variable {α : Type u} [TranslationAgent α] {agents : α → Prop} {granule : Granule}

theorem yields (h : GrantsGranules agents granule) :
    Yields agents fun region => region.IsGranule granule where
  answer agent hagent address answer hlength hanswer := by
    obtain ⟨target, grants, hgranted⟩ := h.answer hagent address
    obtain rfl := Except.ok.inj (hanswer.symm.trans hgranted)
    exact ⟨rfl, dvd_toNat_alignDown address granule.isPowerOfTwo⟩
  next := h.next

theorem silent (h : GrantsGranules agents granule) : Silent agents :=
  ⟨h.posted, h.next⟩

/-- What a request in a walk brings. -/
theorem of_ask (h : GrantsGranules agents granule) {fill asked : Fill α} {start : Address}
    {reply : Except Fault Translation} (hagent : agents fill.agent)
    (hask : fill.ask ⟨start, .all⟩ = (reply, asked)) :
    (∃ target grants, reply = .ok ⟨target, granule.bytes, grants⟩) ∧ agents asked.agent ∧
      asked.regions = fill.regions := by
  obtain ⟨rfl, rfl⟩ := Prod.mk.inj hask
  exact ⟨h.answer hagent start, h.next hagent start, rfl⟩

/-- The region that is kept for an answer is the granule around the address. -/
theorem mem_keep_iff (h : GrantsGranules agents granule) {fill asked : Fill α} {start : Address}
    {answer : Translation} (hlength : answer.length ≠ 0) (hagent : agents fill.agent)
    (hask : fill.ask ⟨start, .all⟩ = (.ok answer, asked)) (address : Address) :
    (∃ region ∈ (asked.keep (.ofTranslation start answer hlength)).regions,
        address ∈ region.span) ↔
      (∃ region ∈ fill.regions, address ∈ region.span) ∨
        granule.index address = granule.index start := by
  obtain ⟨⟨target, grants, hreply⟩, -, hregions⟩ := h.of_ask hagent hask
  obtain rfl := Except.ok.inj hreply
  simp only [Fill.keep, hregions, Array.mem_push, or_and_right, exists_or, exists_eq_left]
  exact or_congr_right Granule.mem_around_iff

/-- A walk from the start of a granule brings the granules that begin before
the end of what is wanted. -/
theorem mem_walk_iff (h : GrantsGranules agents granule) (fill : Fill α)
    (hagent : agents fill.agent) {start : Address} (hstart : granule.bytes.toNat ∣ start.toNat)
    (remaining : UInt64) (address : Address) :
    (∃ region ∈ (fill.walk start remaining).regions, address ∈ region.span) ↔
      (∃ region ∈ fill.regions, address ∈ region.span) ∨
        granule.index start ≤ granule.index address ∧
          granule.index address * granule.bytes.toNat < start.toNat + remaining.toNat := by
  fun_induction Fill.walk fill start remaining with
  | case1 fill start =>
      refine (or_iff_left ?_).symm
      rintro ⟨hle, hlt⟩
      have hbegins := Nat.mul_le_mul_right granule.bytes.toNat hle
      rw [Granule.index_mul_of_dvd hstart] at hbegins
      exact absurd hlt (Nat.not_lt.mpr hbegins)
  | case2 fill start remaining hremaining fault asked hask =>
      obtain ⟨⟨target, grants, hreply⟩, -⟩ := h.of_ask hagent hask
      cases hreply
  | case3 fill start remaining hremaining answer asked hask hlength =>
      obtain ⟨⟨target, grants, hreply⟩, -⟩ := h.of_ask hagent hask
      obtain rfl := Except.ok.inj hreply
      exact absurd hlength granule.bytes_ne_zero
  | case4 fill start remaining hremaining answer asked hask hlength region kept hcovered =>
      obtain ⟨⟨target, grants, hreply⟩, -⟩ := h.of_ask hagent hask
      obtain rfl := Except.ok.inj hreply
      refine (h.mem_keep_iff hlength hagent hask address).trans (or_congr_right ?_)
      rw [← Granule.index_mul_of_dvd hstart]
      exact (begins_before_iff (toNat_pos_of_ne_zero hremaining)
        (UInt64.le_iff_toNat_le.mp hcovered)).symm
  | case5 fill start remaining hremaining answer asked hask hlength region kept hcovered hnext =>
      -- The granule is the last one of all, so no address lies behind it.
      obtain ⟨⟨target, grants, hreply⟩, -⟩ := h.of_ask hagent hask
      obtain rfl := Except.ok.inj hreply
      have htop : 2 ^ 64 ≤ start.toNat + granule.bytes.toNat := by
        rw [← alignDown_eq_self granule.isPowerOfTwo hstart]
        exact addChecked?_eq_none_iff.mp hnext
      refine (h.mem_keep_iff hlength hagent hask address).trans (or_congr_right ?_)
      rw [← Granule.index_mul_of_dvd hstart]
      constructor
      · intro heq
        rw [heq]
        exact ⟨Nat.le_refl _, Nat.lt_add_of_pos_right (toNat_pos_of_ne_zero hremaining)⟩
      · rintro ⟨hle, -⟩
        exact Nat.le_antisymm (Granule.index_le_of_top hstart htop address) hle
  | case6 fill start remaining hremaining answer asked hask hlength region kept hcovered next
      hnext ih =>
      obtain ⟨⟨target, grants, hreply⟩, hasked, -⟩ := h.of_ask hagent hask
      obtain rfl := Except.ok.inj hreply
      have hsum : next.toNat = start.toNat + granule.bytes.toNat := by
        rw [← alignDown_eq_self granule.isPowerOfTwo hstart]
        exact toNat_of_addChecked?_eq_some hnext
      have hdvd : granule.bytes.toNat ∣ next.toNat := (Granule.dvd_iff_of_eq_add hsum).mpr hstart
      have hlt := UInt64.lt_iff_toNat_lt.mp (UInt64.not_le.mp hcovered)
      have hleft := UInt64.toNat_sub_of_le _ _ (UInt64.le_of_lt (UInt64.not_le.mp hcovered))
      have hkept := h.mem_keep_iff hlength hagent hask address
      refine (ih hasked hdvd).trans ((or_congr_left hkept).trans (or_assoc.trans ?_))
      refine or_congr_right ?_
      rw [← Granule.index_mul_of_dvd hstart, begins_before_succ_iff hlt,
        ← Granule.index_mul_of_dvd hdvd, Granule.index_eq_succ hsum, hleft]

end GrantsGranules

theorem BlockMap.grantsGranules_identity (granule : Granule) :
    GrantsGranules (· = BlockMap.identity granule) granule := by
  constructor
  · rintro _ rfl address
    exact ⟨_, _, rfl⟩
  · rintro _ rfl address
    rfl
  · rintro _ rfl address
    rfl

/-! ## Strides -/

namespace Worker

variable {α : Type u} {μ : Type v} {agents : α → Prop}

/-- The agent is in one of these states, the cache holds whole granules, and no
notice waits. -/
structure Ready (worker : Worker α μ) (agents : α → Prop) : Prop where
  keeps : worker.Keeps agents fun region => region.IsGranule worker.granule
  waiting : worker.notices.waiting = []

variable [TranslationAgent α]

theorem Ready.ensure {worker : Worker α μ} (h : worker.Ready agents)
    (grants : GrantsGranules agents worker.granule) (range : Span) :
    (worker.ensure range).2.Ready agents := by
  refine ⟨?_, ?_⟩
  · rw [granule_ensure]
    exact h.keeps.ensure grants.yields range
  · have hgrows : worker.Grows agents worker.cache := ⟨h.keeps.agent, h.waiting, .refl _⟩
    exact (hgrows.ensure grants.silent range).waiting

theorem contains_fill (worker : Worker α μ) (grants : GrantsGranules agents worker.granule)
    (hagent : agents worker.agent) (start address : Address) :
    (worker.fill ⟨start, worker.granule.bytes⟩).2.cache.contains address ↔
      worker.cache.contains address ∨
        worker.granule.index address = worker.granule.index start ∨
        worker.granule.index address = worker.granule.index start + 1 ∧
          ¬ worker.granule.bytes.toNat ∣ start.toNat := by
  have hwalk := grants.mem_walk_iff { agent := worker.agent } hagent
    (dvd_toNat_alignDown start worker.granule.isPowerOfTwo)
    (addSaturating worker.granule.bytes (granuleOffset start worker.granule.bytes)) address
  rw [worker.granule.stop_widened, Granule.index_alignDown, Granule.reaches_iff] at hwalk
  rw [Cache.contains_iff, Cache.contains_iff]
  simp only [fill, Cache.regions_append, List.mem_append, or_and_right, exists_or,
    Array.mem_toList_iff]
  refine or_congr_right (hwalk.trans (or_iff_right ?_))
  rintro ⟨region, hnone, -⟩
  exact Array.not_mem_empty region hnone

/-- After a stride the granule that it begins in is cached. The next one is
brought in when the stride reaches into it, unless it is left out. -/
theorem Ready.contains_ensure {worker : Worker α μ} (h : worker.Ready agents)
    (grants : GrantsGranules agents worker.granule) (start address : Address) :
    (worker.ensure ⟨start, worker.granule.bytes⟩).2.cache.contains address ↔
      worker.cache.contains address ∨
        worker.granule.index address = worker.granule.index start ∨
        worker.granule.index address = worker.granule.index start + 1 ∧
          ¬ worker.granule.bytes.toNat ∣ start.toNat ∧ worker.cache.contains start = false := by
  by_cases hcached : worker.cache.contains start = true
  · have hsame (hindex : worker.granule.index address = worker.granule.index start) :
        worker.cache.contains address = true := by
      rw [Cache.contains_eq_of_index_eq h.keeps.cache hindex, hcached]
    rw [Worker.ensure, if_pos hcached]
    simpa [hcached] using hsame
  · have hmissed : worker.cache.contains start = false := Bool.eq_false_iff.mpr hcached
    rw [Worker.ensure, if_neg hcached, ← worker.cache_suspend h.waiting]
    refine (worker.suspend.contains_fill grants h.keeps.agent start address).trans ?_
    rw [worker.cache_suspend h.waiting]
    simp only [hmissed, and_true]
    exact Iff.rfl

/-- The stride at the start of a run of granules turns the run into the one that
the next stride finds. -/
theorem Ready.missing_ensure {worker : Worker α μ} (h : worker.Ready agents)
    (grants : GrantsGranules agents worker.granule) {start : Address} {count : Nat}
    (hfits : start.toNat + (count + 1) * worker.granule.bytes.toNat < 2 ^ 64)
    (hstart : ¬ worker.granule.bytes.toNat ∣ start.toNat) :
    (worker.ensure ⟨start, worker.granule.bytes⟩).2.cache.missing worker.granule
        (worker.granule.index start + 1) count % 2 =
      worker.cache.missing worker.granule (worker.granule.index start) (count + 1) % 2 := by
  have hensured := (h.ensure grants ⟨start, worker.granule.bytes⟩).keeps.cache
  rw [granule_ensure] at hensured
  have haddress (i : Nat) (hi : i ≤ count + 1) :
      ∃ address, worker.granule.index address = worker.granule.index start + i := by
    have hle := Nat.mul_le_mul_right worker.granule.bytes.toNat hi
    exact Granule.exists_index_eq (by omega)
  refine Cache.missing_succ_mod_two count ?_ ?_
  · obtain ⟨address, haddress⟩ := haddress 1 (Nat.le_add_left 1 count)
    rw [← haddress, Cache.holds_index hensured, Cache.holds_index h.keeps.cache,
      Cache.holds_index h.keeps.cache, Bool.eq_iff_iff, h.contains_ensure grants]
    simp [haddress, hstart]
  · intro i hi
    obtain ⟨address, haddress⟩ := haddress (1 + (i + 1)) (by omega)
    rw [Nat.add_assoc, ← haddress, Cache.holds_index hensured, Cache.holds_index h.keeps.cache,
      Bool.eq_iff_iff, h.contains_ensure grants, haddress]
    simp

/-- What the strides over a range that is not empty leave in the cache: what was
there, the granules in which strides begin, and the one behind them when the
last stride reaches into it and is not left out. -/
theorem Ready.contains_stride {worker : Worker α μ} (h : worker.Ready agents)
    (grants : GrantsGranules agents worker.granule) {start : Address} {remaining : UInt64}
    (filled : Nat) (hremaining : remaining ≠ 0) (hfits : start.toNat + remaining.toNat ≤ 2 ^ 64)
    (address : Address) :
    (worker.stride start remaining filled).2.cache.contains address ↔
      let first := worker.granule.index start
      let last := (remaining.toNat - 1) / worker.granule.bytes.toNat
      worker.cache.contains address ∨
        first ≤ worker.granule.index address ∧ worker.granule.index address ≤ first + last ∨
        worker.granule.index address = first + last + 1 ∧
          ¬ worker.granule.bytes.toNat ∣ start.toNat ∧
          worker.cache.missing worker.granule first last % 2 = 1 := by
  fun_induction Worker.stride worker start remaining filled with
  | case1 => exact absurd rfl hremaining
  | case2 worker start remaining filled _ size added next hensure hlast =>
      have hnone : (remaining.toNat - 1) / worker.granule.bytes.toNat = 0 := by
        have hle : remaining.toNat ≤ worker.granule.bytes.toNat := UInt64.le_iff_toNat_le.mp hlast
        have hpos := worker.granule.toNat_bytes_pos
        exact Nat.div_eq_of_lt (by omega)
      have hcontains := h.contains_ensure grants start address
      rw [hensure] at hcontains
      rw [hcontains, hnone]
      simp only [Nat.add_zero, Cache.missing, Cache.holds_index h.keeps.cache]
      refine or_congr_right (or_congr ?_ ?_)
      · omega
      · cases worker.cache.contains start <;> simp
  | case3 worker start remaining filled _ size added next hensure hlast hover =>
      have hover := addChecked?_eq_none_iff.mp hover
      have hlt := UInt64.lt_iff_toNat_lt.mp (UInt64.not_le.mp hlast)
      exact absurd hfits (by omega)
  | case4 worker start remaining filled _ size added next hensure hlast behind hnext ih =>
      have hready := h.ensure grants ⟨start, size⟩
      have hcontains := h.contains_ensure grants start address
      have hsame := worker.granule_ensure ⟨start, size⟩
      have hrun (count : Nat)
          (hfits : start.toNat + (count + 1) * worker.granule.bytes.toNat < 2 ^ 64) :=
        h.missing_ensure grants hfits
      rw [hensure] at hready hcontains hsame hrun
      dsimp only at hready hcontains hsame hrun
      have hbehind : behind.toNat = start.toNat + worker.granule.bytes.toNat :=
        toNat_of_addChecked?_eq_some hnext
      have hlt : worker.granule.bytes.toNat < remaining.toNat :=
        UInt64.lt_iff_toNat_lt.mp (UInt64.not_le.mp hlast)
      have hleft : (remaining - size).toNat = remaining.toNat - worker.granule.bytes.toNat :=
        UInt64.toNat_sub_of_le _ _ (UInt64.le_of_lt (UInt64.not_le.mp hlast))
      have hmore : remaining - size ≠ 0 := by
        rintro hzero
        rw [hzero] at hleft
        exact absurd hleft.symm (Nat.ne_of_gt (Nat.sub_pos_of_lt hlt))
      have hfitsBehind : behind.toNat + (remaining - size).toNat ≤ 2 ^ 64 := by
        rw [hbehind, hleft]
        omega
      -- From the second stride on, everything counts from one granule further.
      have hpast := ih hready (hsame ▸ grants) hmore hfitsBehind
      simp only [hsame, Granule.index_eq_succ hbehind, Granule.dvd_iff_of_eq_add hbehind] at hpast
      rw [hpast, hcontains, lastStride_succ worker.granule.toNat_bytes_pos hlt, ← hleft]
      have hreach : ((remaining - size).toNat - 1) / worker.granule.bytes.toNat *
          worker.granule.bytes.toNat ≤ (remaining - size).toNat - 1 := Nat.div_mul_le_self _ _
      generalize ((remaining - size).toNat - 1) / worker.granule.bytes.toNat = count at hreach ⊢
      have hinside : start.toNat + (count + 1) * worker.granule.bytes.toNat < 2 ^ 64 := by
        rw [Nat.succ_mul]
        omega
      have hodd : (¬ worker.granule.bytes.toNat ∣ start.toNat ∧
            next.cache.missing worker.granule (worker.granule.index start + 1) count % 2 = 1) ↔
          ¬ worker.granule.bytes.toNat ∣ start.toNat ∧
            worker.cache.missing worker.granule (worker.granule.index start) (count + 1) % 2 = 1 :=
        and_congr_right fun hstart => by rw [hrun count hinside hstart]
      rw [hodd]
      grind

end Worker

/-! ## Translate-ahead -/

namespace Endpoint

variable {α : Type u} {μ : Type v} [TranslationAgent α] [PhysicalMemory μ] {agents : α → Prop}

/-- What a translate-ahead leaves in the cache. -/
theorem contains_translate (endpoint : Endpoint α μ) {range : Span}
    (grants : GrantsGranules agents endpoint.granule) (hagent : agents endpoint.agent)
    (hcache : ∀ region ∈ endpoint.cache.regions, region.IsGranule endpoint.granule)
    (hwaiting : endpoint.notices.waiting = []) (hlength : range.length ≠ 0)
    (hfits : range.start.toNat + range.length.toNat ≤ 2 ^ 64) (address : Address) :
    (endpoint.execute (.translate range)).state.cache.contains address ↔
      let first := endpoint.granule.index range.start
      let last := (range.length.toNat - 1) / endpoint.granule.bytes.toNat
      endpoint.cache.contains address ∨
        first ≤ endpoint.granule.index address ∧ endpoint.granule.index address ≤ first + last ∨
        endpoint.granule.index address = first + last + 1 ∧
          ¬ endpoint.granule.bytes.toNat ∣ range.start.toNat ∧
          endpoint.cache.missing endpoint.granule first last % 2 = 1 := by
  have hready : (endpoint.worker.note (.workStarted (.translate range))).Ready agents :=
    ⟨⟨hagent, hcache⟩, hwaiting⟩
  have hcontains := hready.contains_stride grants 0 hlength hfits address
  have hended := endpoint.worker.toDatapath_execute (.translate range)
  have hsame : (endpoint.execute (.translate range)).state.cache =
      ((endpoint.worker.note (.workStarted (.translate range))).stride
        range.start range.length 0).2.cache := (congrArg Datapath.cache hended).trans rfl
  rw [hsame]
  exact hcontains

/-- A translate-ahead brings at least the granules in which its strides begin.
It brings its whole range just when nothing of the range lies behind these, or
the last address was cached before, or the last of an odd number of granules in
a row that were not cached is the one in which the last stride begins. -/
theorem translate_covers_iff (endpoint : Endpoint α μ) (range : Span)
    (grants : GrantsGranules agents endpoint.granule) (hagent : agents endpoint.agent)
    (hcache : ∀ region ∈ endpoint.cache.regions, region.IsGranule endpoint.granule)
    (hwaiting : endpoint.notices.waiting = [])
    (hfits : range.start.toNat + range.length.toNat ≤ 2 ^ 64) :
    let after := (endpoint.execute (.translate range)).state.cache
    let first := endpoint.granule.index range.start
    let last := (range.length.toNat - 1) / endpoint.granule.bytes.toNat
    (∀ address ∈ range, endpoint.granule.index address ≤ first + last → after.contains address) ∧
      ((∀ address ∈ range, after.contains address) ↔
        range.length = 0 ∨ endpoint.granule.index range.last = first + last ∨
          endpoint.cache.contains range.last ∨
          endpoint.cache.missing endpoint.granule first last % 2 = 1) := by
  intro after first last
  by_cases hlength : range.length = 0
  · have hnone (address : Address) : ¬ address ∈ range := by
      rw [Span.mem_iff_toNat, hlength]
      change ¬ (_ ∧ _ < _ + 0)
      omega
    simp [hnone, hlength]
  have hafter (address : Address) : after.contains address ↔ _ :=
    endpoint.contains_translate grants hagent hcache hwaiting hlength hfits address
  have hcovered (address : Address) (hmem : address ∈ range)
      (hindex : endpoint.granule.index address ≤ first + last) : after.contains address := by
    have hfirst : first ≤ endpoint.granule.index address :=
      Nat.div_le_div_right (Span.mem_iff_toNat.mp hmem).1
    exact (hafter address).mpr (.inr (.inl ⟨hfirst, hindex⟩))
  refine ⟨hcovered, ?_⟩
  obtain ⟨hlower, hupper⟩ : first + last ≤ endpoint.granule.index range.last ∧
      endpoint.granule.index range.last ≤ first + last + 1 :=
    endpoint.granule.index_last_bounds hlength hfits
  constructor
  · intro hall
    have hmem := Span.last_mem hlength hfits
    rcases (hafter range.last).mp (hall range.last hmem) with hcached | ⟨-, hstride⟩ | hspilled
    · exact .inr (.inr (.inl hcached))
    · exact .inr (.inl (Nat.le_antisymm hstride hlower))
    · exact .inr (.inr (.inr hspilled.2.2))
  · intro hcases address hmem
    by_cases hstride : endpoint.granule.index address ≤ first + last
    · exact hcovered address hmem hstride
    have hle := Granule.index_le_index_last hlength hfits hmem endpoint.granule
    have hbehind : endpoint.granule.index address = first + last + 1 :=
      Nat.le_antisymm (Nat.le_trans hle hupper) (Nat.not_le.mp hstride)
    have hsame : endpoint.granule.index address = endpoint.granule.index range.last :=
      Nat.le_antisymm hle (hbehind ▸ hupper)
    rcases hcases with hnone | hlast | hcached | hodd
    · exact absurd hnone hlength
    · exact absurd (hsame.trans hlast) (Nat.ne_of_gt (Nat.not_le.mp hstride))
    · refine (hafter address).mpr (.inl ?_)
      rwa [Cache.contains_eq_of_index_eq hcache hsame]
    · refine (hafter address).mpr (.inr (.inr ⟨hbehind, ?_, hodd⟩))
      intro hdvd
      exact hstride (Nat.le_of_eq (hsame.trans (Granule.index_last_of_dvd hlength hfits hdvd)))

/-- Granted its own granules, an endpoint covers a range over three pages that
are not cached, since the last of its three strides is not left out. -/
theorem translate_covers_threePages :
    let page : Granule := ⟨4096, Config.isValid_default⟩
    let endpoint : Endpoint BlockMap HostMemory :=
      { agent := .identity page
        memory := .zeroed 0 16
        config := {}
        config_valid := Config.isValid_default }
    ∀ address ∈ (⟨0x800, 0x3000⟩ : Span),
      (endpoint.execute (.translate ⟨0x800, 0x3000⟩)).state.cache.contains address := by
  intro page endpoint
  have hiff := (endpoint.translate_covers_iff ⟨0x800, 0x3000⟩
    (BlockMap.grantsGranules_identity page) rfl (by rintro _ ⟨⟩) rfl (by decide)).2
  exact hiff.mpr (.inr (.inr (.inr (by decide +kernel))))

/-- The tail of a range over two pages that are not cached is missed, since the
second of its two strides is left out. -/
theorem translate_misses_tail :
    let page : Granule := ⟨4096, Config.isValid_default⟩
    let endpoint : Endpoint BlockMap HostMemory :=
      { agent := .identity page
        memory := .zeroed 0 16
        config := {}
        config_valid := Config.isValid_default }
    let range : Span := ⟨0x800, 0x2000⟩
    GrantsGranules (· = BlockMap.identity page) endpoint.granule ∧
      endpoint.agent = BlockMap.identity page ∧
      (∀ region ∈ endpoint.cache.regions, region.IsGranule endpoint.granule) ∧
      endpoint.notices.waiting = [] ∧ range.start.toNat + range.length.toNat ≤ 2 ^ 64 ∧
      ¬ ∀ address ∈ range,
        (endpoint.execute (.translate range)).state.cache.contains address := by
  intro page endpoint range
  refine ⟨BlockMap.grantsGranules_identity page, rfl, by rintro _ ⟨⟩, rfl, by decide, ?_⟩
  intro hall
  have hmissed : (endpoint.execute (.translate range)).state.cache.contains 0x2000 = false := by
    decide +kernel
  have hcovered := hall 0x2000 (by decide)
  simp [hmissed] at hcovered

end Endpoint

end AtsEndpoint
