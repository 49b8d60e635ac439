import AtsEndpoint.Proofs.Words

/-!
# Checked runs

Words wrap silently, so a run of the endpoint gives an answer whatever the
lengths are that an agent grants. Here the run is made once more in such a way
that it has no answer when a difference would go below zero, or when a loop is
not over after so many turns. Sums of words either stop at the last word or are
tested for overflow; only the address behind a piece of a checksum is meant to
wrap.

A checked run always has an answer, the one of the run itself.
-/

namespace AtsEndpoint

/-- The number of bytes that a request asks to walk over. -/
def Work.Request.extent : Work.Request → Nat
  | .translate range | .checksum range => range.length.toNat
  | .read _ | .write _ _ => 0

/-! ## The pieces of a checksum -/

/-- Accesses that take so many bytes in pieces. Each of them has a byte at
least, and no more bytes than those before it have left. -/
def TakesInPieces : Nat → List (Address × Nat) → Prop
  | _, [] => True
  | length, (_, count) :: rest => 0 < count ∧ count ≤ length ∧ TakesInPieces (length - count) rest

section Pieces

variable {α : Type u} {μ : Type v} [TranslationAgent α] [PhysicalMemory μ]

namespace Worker

theorem remaining_gather_le (worker : Worker α μ) (address : Address) (remaining : UInt64)
    (bytes : ByteArray) {gathered : Gathered}
    (h : (worker.gather address remaining bytes).1 = .ok gathered) :
    gathered.remaining ≤ remaining := by
  fun_induction Worker.gather worker address remaining bytes with
  | case1 => cases h; exact UInt64.le_refl _
  | case2 => cases h; exact UInt64.le_refl _
  | case3 => cases h
  | case4 worker address remaining bytes _ ensured region _ physical chunk piece after _ ih =>
      exact UInt64.le_trans (ih h) (UInt64.sub_le (region.chunk_le physical remaining))

theorem accesses_gather (worker : Worker α μ) (address : Address) (remaining : UInt64)
    (bytes : ByteArray) :
    ∃ pieces, accesses (worker.gather address remaining bytes).2.trace =
        accesses worker.trace ++ pieces ∧ TakesInPieces remaining.toNat pieces := by
  have hissued (worker : Worker α μ) (range : Span) (physical : Address) (count : Nat) :
      accesses ((worker.ensure range).2.suspend.readMemory physical count).2.trace =
        accesses worker.trace ++ [(physical, count)] := by
    rw [accesses_readMemory, accesses, observe_suspend overlooks_access?,
      observe_ensure overlooks_access?]
  fun_induction Worker.gather worker address remaining bytes with
  | case1 worker => exact ⟨[], (List.append_nil _).symm, trivial⟩
  | case2 worker address remaining bytes _ ensured _ =>
      refine ⟨[], ?_, trivial⟩
      exact (observe_push _ _).trans
        (congrArg (· ++ []) (worker.observe_ensure overlooks_access? _))
  | case3 worker address remaining bytes hremaining ensured region _ physical chunk fault after
      hread =>
      have hafter := hissued worker ⟨address, remaining⟩ physical chunk.toNat
      rw [hread] at hafter
      refine ⟨[(physical, chunk.toNat)], hafter, ?_⟩
      exact ⟨region.toNat_chunk_pos physical hremaining,
        UInt64.le_iff_toNat_le.mp (region.chunk_le physical remaining), trivial⟩
  | case4 worker address remaining bytes hremaining ensured region _ physical chunk piece after
      hread ih =>
      have hafter := hissued worker ⟨address, remaining⟩ physical chunk.toNat
      rw [hread] at hafter
      obtain ⟨pieces, hpieces, htakes⟩ := ih
      refine ⟨(physical, chunk.toNat) :: pieces, ?_, ?_⟩
      · rw [hpieces, hafter, List.append_assoc, List.singleton_append]
      · rw [UInt64.toNat_sub_of_le _ _ (region.chunk_le physical remaining)] at htakes
        exact ⟨region.toNat_chunk_pos physical hremaining,
          UInt64.le_iff_toNat_le.mp (region.chunk_le physical remaining), htakes⟩

/-- The end of a checksum accesses nothing. -/
theorem trace_checksum (worker : Worker α μ) (range : Span) :
    (worker.checksum range).2.trace =
      (worker.gather range.start range.length .empty).2.trace := by
  unfold checksum
  split
  next fault after hgather => rw [hgather]
  next gathered after hgather =>
    rw [hgather]
    split <;> rfl

end Worker

theorem Endpoint.takesInPieces_checksum (endpoint : Endpoint α μ) (range : Span) :
    TakesInPieces range.length.toNat (accesses (endpoint.execute (.checksum range)).trace) := by
  have hexecute := endpoint.worker.accesses_execute (.checksum range)
  obtain ⟨pieces, hpieces, htakes⟩ :=
    (endpoint.worker.note (.workStarted (.checksum range))).accesses_gather
      range.start range.length .empty
  rw [Worker.perform, Worker.trace_checksum, hpieces] at hexecute
  exact hexecute.symm ▸ htakes

end Pieces

namespace Checked

/-! ## Differences -/

/-- The difference of two numbers, if it does not go below zero. -/
def sub {ν : Type u} [LE ν] [DecidableLE ν] [Sub ν] (a b : ν) : Option ν :=
  if b ≤ a then some (a - b) else none

theorem sub_eq {ν : Type u} [LE ν] [DecidableLE ν] [Sub ν] {a b : ν} (h : b ≤ a) :
    sub a b = some (a - b) :=
  if_pos h

/-- A word has no difference with a larger one, though it would wrap round. -/
example : sub (2 : UInt64) 3 = none ∧ (2 : UInt64) - 3 = 0xffffffffffffffff := by decide

theorem sub_one_eq {length : UInt64} (h : length ≠ 0) : sub length 1 = some (length - 1) :=
  sub_eq (UInt64.le_iff_toNat_le.mpr (toNat_pos_of_ne_zero h))

/-! ## Addresses and spans -/

/-- The start of the granule that holds an address. -/
def alignDown (address granule : UInt64) : Option UInt64 := do
  let mask ← sub granule 1
  return address &&& ~~~mask

/-- The position of an address inside its granule. -/
def granuleOffset (address granule : UInt64) : Option UInt64 := do
  let mask ← sub granule 1
  return address &&& mask

/-- An address lies in a span. -/
def isIn (address : Address) (span : Span) : Option Bool :=
  if span.start ≤ address then do
    let distance ← sub address span.start
    return distance < span.length
  else some false

/-- The last address of a span, cut off at the end of the address space. -/
def last (span : Span) : Option Address := do
  let reach ← sub span.length 1
  return addSaturating span.start reach

theorem alignDown_eq (address : Address) {granule : UInt64} (h : granule ≠ 0) :
    alignDown address granule = some (AtsEndpoint.alignDown address granule) := by
  rw [alignDown, sub_one_eq h]
  rfl

theorem granuleOffset_eq (address : Address) {granule : UInt64} (h : granule ≠ 0) :
    granuleOffset address granule = some (AtsEndpoint.granuleOffset address granule) := by
  rw [granuleOffset, sub_one_eq h]
  rfl

theorem isIn_eq (address : Address) (span : Span) :
    isIn address span = some (decide (address ∈ span)) := by
  unfold isIn
  by_cases hstart : span.start ≤ address
  · rw [if_pos hstart, sub_eq hstart]
    simp [Span.mem_iff, hstart]
  · rw [if_neg hstart]
    simp [Span.mem_iff, hstart]

theorem last_eq {span : Span} (h : span.length ≠ 0) : last span = some span.last := by
  rw [last, sub_one_eq h]
  rfl

/-! ## Regions -/

/-- The physical address for a virtual one. -/
def translate (region : Region) (address : Address) : Option Address := do
  let offset ← granuleOffset address region.span.length
  return region.target ||| offset

/-- The first or the last address of a region lies in a range. The last one is
looked for only when the first one does not. -/
def hasBoundaryIn (region : Region) (range : Span) : Option Bool := do
  if ← isIn region.span.start range then return true
  let last ← last region.span
  isIn last range

/-- A region reaches into the range from `first` to `last`. -/
def meets (region : Region) (first last : Address) : Option Bool :=
  if region.span.start ≤ last then do
    let regionLast ← Checked.last region.span
    return first ≤ regionLast
  else some false

/-- The bytes taken in one piece from a physical address on. -/
def chunk (region : Region) (physical : Address) (remaining : UInt64) : Option UInt64 := do
  let offset ← granuleOffset physical region.span.length
  let room ← sub region.span.length offset
  return if remaining ≤ room then remaining else room

theorem translate_eq (region : Region) (address : Address) :
    translate region address = some (region.translate address) := by
  rw [translate, granuleOffset_eq address region.length_ne_zero]
  rfl

theorem hasBoundaryIn_eq (region : Region) (range : Span) :
    hasBoundaryIn region range = some (region.hasBoundaryIn range) := by
  rw [hasBoundaryIn, isIn_eq, last_eq region.length_ne_zero]
  by_cases hstart : region.span.start ∈ range
  · simp [Region.hasBoundaryIn, hstart]
  · simp [Region.hasBoundaryIn, Region.last, hstart, isIn_eq]

theorem meets_eq (region : Region) {range : Span} (h : range.length ≠ 0) :
    meets region range.start range.last = some (region.meets range) := by
  rw [meets, last_eq region.length_ne_zero]
  by_cases hstart : region.span.start ≤ range.last
  · simp [Region.meets, Region.last, hstart, h]
  · simp [Region.meets, hstart]

theorem chunk_eq (region : Region) (physical : Address) (remaining : UInt64) :
    chunk region physical remaining = some (region.chunk physical remaining) := by
  have hoffset : AtsEndpoint.granuleOffset physical region.span.length < region.span.length :=
    granuleOffset_lt region.length_ne_zero
  rw [chunk, granuleOffset_eq physical region.length_ne_zero, Option.bind_eq_bind,
    Option.bind_some, sub_eq (UInt64.le_of_lt hoffset)]
  rfl

/-! ## The cache -/

/-- The first region that holds an address. -/
def find (cache : Cache) (address : Address) : Option (Option Region) :=
  cache.regions.findM? fun region => isIn address region.span

/-- Some region holds the address. -/
def contains (cache : Cache) (address : Address) : Option Bool := do
  let found ← find cache address
  return found.isSome

/-- The physical address for a virtual one, or why there is none. -/
def resolve (cache : Cache) (address : Address) (wanted : Permissions) :
    Option (Except Work.Denial Address) := do
  match ← find cache address with
  | none => return .error .notFound
  | some region =>
    if region.grants.intersects wanted then
      let physical ← translate region address
      return .ok physical
    else return .error .permissionDenied

/-- The regions that are not dropped. -/
def retain (drops : Region → Option Bool) : List Region → Option (List Region)
  | [] => some []
  | region :: rest => do
    let dropped ← drops region
    let kept ← retain drops rest
    return if dropped then kept else region :: kept

/-- Drop the regions that have a boundary in a range, and count them. -/
def invalidate (cache : Cache) (range : Span) : Option (Step Cache Nat) := do
  let kept ← retain (hasBoundaryIn · range) cache.regions
  let removed ← sub cache.regions.length kept.length
  return { result := removed, state := ⟨kept⟩, trace := #[.invalidated range removed] }

/-- Drop the regions that have an address in common with a range, and count
them. -/
def invalidateOverlapping (cache : Cache) (range : Span) : Option (Step Cache Nat) :=
  if range.length = 0 then some { result := 0, state := cache }
  else do
    let last ← last range
    let kept ← retain (meets · range.start last) cache.regions
    let removed ← sub cache.regions.length kept.length
    return { result := removed, state := ⟨kept⟩ }

theorem find_eq (cache : Cache) (address : Address) :
    find cache address = some (cache.find? address) := by
  have hisIn : (fun region : Region => isIn address region.span) =
      fun region => pure (decide (address ∈ region.span)) := by
    funext region
    exact isIn_eq address region.span
  rw [find, hisIn, List.findM?_pure]
  rfl

theorem contains_eq (cache : Cache) (address : Address) :
    contains cache address = some (cache.contains address) := by
  rw [contains, find_eq]
  rfl

theorem resolve_eq (cache : Cache) (address : Address) (wanted : Permissions) :
    resolve cache address wanted = some (cache.resolve address wanted) := by
  rw [resolve, find_eq, Cache.resolve]
  cases cache.find? address with
  | none => rfl
  | some region =>
      by_cases hgrants : region.grants.intersects wanted
      · simp [hgrants, translate_eq]
      · simp [hgrants]

theorem retain_eq {drops : Region → Option Bool} {test : Region → Bool}
    (h : ∀ region, drops region = some (test region)) (regions : List Region) :
    retain drops regions = some (regions.filter fun region => !test region) := by
  induction regions with
  | nil => rfl
  | cons region rest ih =>
      rw [retain, h, ih]
      cases htest : test region <;> simp [htest]

theorem invalidate_eq (cache : Cache) (range : Span) :
    invalidate cache range = some (cache.invalidate range) := by
  rw [invalidate, retain_eq (hasBoundaryIn_eq · range)]
  have hkept : (cache.without range).size ≤ cache.size := cache.size_without_le range
  exact congrArg (· >>= _) (sub_eq hkept)

theorem invalidateOverlapping_eq (cache : Cache) (range : Span) :
    invalidateOverlapping cache range = some (cache.invalidateOverlapping range) := by
  unfold invalidateOverlapping
  by_cases hlength : range.length = 0
  · have hkept : cache.withoutOverlap range = cache :=
      congrArg Cache.mk (List.filter_eq_self.mpr fun region _ => by simp [Region.meets, hlength])
    rw [if_pos hlength, Cache.invalidateOverlapping, hkept, Nat.sub_self]
  · rw [if_neg hlength, last_eq hlength, Option.bind_eq_bind, Option.bind_some,
      retain_eq (meets_eq · hlength)]
    have hkept : (cache.withoutOverlap range).size ≤ cache.size :=
      cache.size_withoutOverlap_le range
    exact congrArg (· >>= _) (sub_eq hkept)

/-! ## Notices -/

/-- Apply one notice to the cache at once, and count the regions it drops. -/
def handle (queue : NoticeQueue) (cache : Cache) (notice : Notice) :
    Option (Step (NoticeQueue × Cache) Nat) := do
  let dropped ← invalidate cache notice
  return {
    result := dropped.result
    state := ({ queue with applied := queue.applied + 1 }, dropped.state)
    trace := dropped.trace.push (.noticeApplied notice dropped.result) }

/-- Apply notices to the cache one after another. -/
def handleAll (queue : NoticeQueue) (cache : Cache) (trace : Trace) :
    List Notice → Option (Step (NoticeQueue × Cache) Unit)
  | [] => some { result := (), state := (queue, cache), trace }
  | notice :: rest => do
    let step ← handle queue cache notice
    handleAll step.state.1 step.state.2 (trace ++ step.trace) rest

/-- Apply every waiting notice in the order of arrival, and count them. -/
def drain (queue : NoticeQueue) (cache : Cache) : Option (Step (NoticeQueue × Cache) Nat) := do
  let handled ← handleAll { queue with waiting := [] } cache #[] queue.waiting
  return handled.map fun _ => queue.pending

theorem handle_eq (queue : NoticeQueue) (cache : Cache) (notice : Notice) :
    handle queue cache notice = some (queue.handle cache notice) := by
  rw [handle, invalidate_eq]
  rfl

theorem handleAll_eq (queue : NoticeQueue) (cache : Cache) (trace : Trace)
    (notices : List Notice) :
    handleAll queue cache trace notices = some (queue.handleAll cache trace notices) := by
  induction notices generalizing queue cache trace with
  | nil => rfl
  | cons notice rest ih =>
      rw [handleAll, handle_eq, Option.bind_eq_bind, Option.bind_some, ih]
      rfl

theorem drain_eq (queue : NoticeQueue) (cache : Cache) :
    drain queue cache = some (queue.drain cache) := by
  rw [drain, handleAll_eq]
  rfl

/-! ## Fills -/

section Fill

variable {α : Type u} [TranslationAgent α]

/-- Walk on for at most so many turns. -/
def walk : Nat → Fill α → Address → UInt64 → Option (Fill α)
  | 0, _, _, _ => none
  | turns + 1, fill, address, remaining =>
    if remaining = 0 then some fill
    else
      match fill.ask ⟨address, .all⟩ with
      | (.error fault, fill) => some (fill.note (.fillDeclined address fault))
      | (.ok answer, fill) =>
        if hlength : answer.length = 0 then some (fill.note (.fillUnusable address))
        else
          (alignDown address answer.length).bind fun base =>
          let fill := fill.keep ⟨⟨base, answer.length⟩, answer.target, answer.grants, hlength⟩
          if remaining ≤ answer.length then some fill
          else
            (sub remaining answer.length).bind fun left =>
            match addChecked? base answer.length with
            | none => some fill
            | some next => walk turns fill next left

/-- Fill a range, walking for at most so many turns. -/
def fillRange (turns : Nat) (granule : UInt64) (agent : α) (range : Span) : Option (Fill α) :=
  (granuleOffset range.start granule).bind fun offset =>
  (alignDown range.start granule).bind fun start =>
  walk turns { agent } start (addSaturating range.length offset)

/-- Each turn of a walk takes at least one byte off what remains. -/
theorem walk_eq {turns : Nat} (fill : Fill α) (address : Address) {remaining : UInt64}
    (h : remaining.toNat < turns) :
    walk turns fill address remaining = some (fill.walk address remaining) := by
  induction turns generalizing fill address remaining with
  | zero => exact absurd h (Nat.not_lt_zero _)
  | succ turns ih =>
      rw [walk, Fill.walk]
      by_cases hremaining : remaining = 0
      · rw [if_pos hremaining, if_pos hremaining]
      rw [if_neg hremaining, if_neg hremaining]
      obtain ⟨reply, asked⟩ := fill.ask ⟨address, .all⟩
      cases reply with
      | error fault => rfl
      | ok answer =>
          by_cases hlength : answer.length = 0
          · simp only [dif_pos hlength]
          simp only [dif_neg hlength, alignDown_eq address hlength, Option.bind_some]
          by_cases hcovered : remaining ≤ answer.length
          · rw [if_pos hcovered, if_pos hcovered]
            rfl
          rw [if_neg hcovered, if_neg hcovered,
            sub_eq (UInt64.le_of_lt (UInt64.not_le.mp hcovered)), Option.bind_some]
          have hleft := toNat_sub_lt hlength hcovered
          simp only [Region.ofTranslation]
          cases addChecked? (AtsEndpoint.alignDown address answer.length) answer.length with
          | none => rfl
          | some next => exact ih _ next (Nat.lt_of_lt_of_le hleft (Nat.le_of_lt_succ h))

theorem fillRange_eq {turns : Nat} {granule : UInt64} (hgranule : granule ≠ 0) (agent : α)
    {range : Span} (h : range.length.toNat + granule.toNat ≤ turns) :
    fillRange turns granule agent range = some (Fill.run granule agent range) := by
  have hoffset : AtsEndpoint.granuleOffset range.start granule < granule :=
    granuleOffset_lt hgranule
  have hoffset := UInt64.lt_iff_toNat_lt.mp hoffset
  rw [fillRange, granuleOffset_eq _ hgranule, Option.bind_some, alignDown_eq _ hgranule,
    Option.bind_some, Fill.run]
  refine walk_eq _ _ ?_
  rw [toNat_addSaturating]
  omega

end Fill

/-! ## Workers -/

section Worker

variable {α : Type u} {μ : Type v}

/-- Let the queued notices take effect. -/
def suspend (worker : Worker α μ) : Option (Worker α μ) :=
  (drain worker.notices worker.cache).map fun drained =>
    { worker with
      notices := drained.state.1
      cache := drained.state.2
      trace := worker.trace ++ drained.trace }

theorem suspend_eq (worker : Worker α μ) : suspend worker = some worker.suspend := by
  rw [suspend, drain_eq]
  rfl

section Fill

variable [TranslationAgent α]

/-- Fill a range, and count the regions it adds. -/
def fill (turns : Nat) (worker : Worker α μ) (range : Span) : Option (Nat × Worker α μ) :=
  (fillRange turns worker.granule.bytes worker.agent range).map fun fill =>
    (fill.added,
      { worker with
        agent := fill.agent
        cache := worker.cache.append fill.regions.toList
        notices := worker.notices.post fill.posted.toList
        trace := worker.trace ++ fill.trace })

/-- Fill a range unless its first address is cached already. -/
def ensure (turns : Nat) (worker : Worker α μ) (range : Span) : Option (Nat × Worker α μ) :=
  (contains worker.cache range.start).bind fun cached =>
  if cached then some (0, worker) else (suspend worker).bind fun worker => fill turns worker range

/-- Find the physical address for a virtual one, after filling a granule if
the address is not cached. -/
def resolveOrFill (turns : Nat) (worker : Worker α μ) (address : Address) (wanted : Permissions) :
    Option (Except Work.Denial Address × Worker α μ) :=
  (ensure turns worker ⟨address, worker.granule.bytes⟩).bind fun (_, worker) =>
  (resolve worker.cache address wanted).map fun resolved => (resolved, worker)

/-- Walk over a range in strides of one granule, for at most so many turns.
Each fill walks for at most `depth` turns. -/
def stride (depth : Nat) : Nat → Worker α μ → Address → UInt64 → Nat → Option (Nat × Worker α μ)
  | 0, _, _, _, _ => none
  | turns + 1, worker, address, remaining, filled =>
    if remaining = 0 then some (filled, worker)
    else
      let size := worker.granule.bytes
      (ensure depth worker ⟨address, size⟩).bind fun (added, next) =>
      if remaining < size then some (filled + added, next)
      else
        (sub remaining size).bind fun left =>
        match addChecked? address size with
        | none => some (filled + added, next)
        | some address => stride depth turns next address left (filled + added)

theorem ensure_eq {turns : Nat} (worker : Worker α μ) {range : Span}
    (h : range.length.toNat + worker.granule.bytes.toNat ≤ turns) :
    ensure turns worker range = some (worker.ensure range) := by
  rw [ensure, contains_eq, Option.bind_some, Worker.ensure]
  by_cases hcontains : worker.cache.contains range.start = true
  · rw [if_pos hcontains, if_pos hcontains]
  · rw [if_neg hcontains, if_neg hcontains, suspend_eq, Option.bind_some, fill,
      fillRange_eq worker.suspend.granule.bytes_ne_zero worker.suspend.agent h]
    rfl

theorem resolveOrFill_eq {turns : Nat} (worker : Worker α μ) (address : Address)
    (wanted : Permissions) (h : 2 * worker.granule.bytes.toNat ≤ turns) :
    resolveOrFill turns worker address wanted = some (worker.resolve address wanted) := by
  have hensure : ensure turns worker ⟨address, worker.granule.bytes⟩ =
      some (worker.ensure ⟨address, worker.granule.bytes⟩) :=
    ensure_eq worker (by rwa [← Nat.two_mul])
  rw [resolveOrFill, hensure, Option.bind_some]
  simp only [resolve_eq]
  rfl

/-- Each stride takes a granule off what remains. -/
theorem stride_eq {depth turns : Nat} (worker : Worker α μ) (address : Address)
    {remaining : UInt64} (filled : Nat) (hdepth : 2 * worker.granule.bytes.toNat ≤ depth)
    (h : remaining.toNat < turns) :
    stride depth turns worker address remaining filled =
      some (worker.stride address remaining filled) := by
  induction turns generalizing worker address remaining filled with
  | zero => exact absurd h (Nat.not_lt_zero _)
  | succ turns ih =>
      rw [stride, Worker.stride]
      by_cases hremaining : remaining = 0
      · rw [if_pos hremaining, if_pos hremaining]
      have hensure : ensure depth worker ⟨address, worker.granule.bytes⟩ =
          some (worker.ensure ⟨address, worker.granule.bytes⟩) :=
        ensure_eq worker (by rwa [← Nat.two_mul])
      have hgranule : (worker.ensure ⟨address, worker.granule.bytes⟩).2.granule = worker.granule :=
        worker.granule_ensure _
      rw [if_neg hremaining, if_neg hremaining]
      dsimp only
      rw [hensure, Option.bind_some]
      generalize worker.ensure ⟨address, worker.granule.bytes⟩ = ensured at hgranule
      obtain ⟨added, next⟩ := ensured
      dsimp only at hgranule ⊢
      have hdepth : 2 * next.granule.bytes.toNat ≤ depth := by rwa [hgranule]
      by_cases hlast : remaining < worker.granule.bytes
      · rw [if_pos hlast, if_pos (UInt64.le_of_lt hlast)]
      rw [if_neg hlast, sub_eq (UInt64.not_lt.mp hlast), Option.bind_some]
      by_cases hwhole : remaining ≤ worker.granule.bytes
      · -- The last stride is a whole granule: nothing is left for another one.
        have hleft : remaining - worker.granule.bytes = 0 := by
          rw [UInt64.le_antisymm hwhole (UInt64.not_lt.mp hlast), UInt64.sub_self]
        rw [if_pos hwhole, hleft]
        cases addChecked? address worker.granule.bytes with
        | none => rfl
        | some behind =>
            have hpositive : 0 < remaining.toNat := toNat_pos_of_ne_zero hremaining
            refine (ih next behind (filled + added) hdepth ?_).trans ?_
            · exact Nat.lt_of_lt_of_le hpositive (Nat.le_of_lt_succ h)
            · rw [Worker.stride, if_pos rfl]
      · have hleft := toNat_sub_lt worker.granule.bytes_ne_zero hwhole
        rw [if_neg hwhole]
        cases addChecked? address worker.granule.bytes with
        | none => rfl
        | some behind =>
            exact ih next behind _ hdepth (Nat.lt_of_lt_of_le hleft (Nat.le_of_lt_succ h))

end Fill

section Work

variable [TranslationAgent α] [PhysicalMemory μ]

/-- Read the word at an address into VALUE. -/
def read (turns : Nat) (worker : Worker α μ) (address : Address) :
    Option (Except Fault Work.Outcome × Worker α μ) :=
  (resolveOrFill turns worker address .read).bind fun
  | (.error reason, worker) =>
    some (.ok (.denied reason), (worker.note (.readDenied address reason)).complete)
  | (.ok physical, worker) =>
    (suspend worker).map fun worker =>
    match worker.readMemory physical Register.width with
    | (.error fault, worker) => (.error fault, worker)
    | (.ok word, worker) =>
      let value := Word.ofBytes word.val.toList
      (.ok .applied, { worker with registers := worker.registers.set .value value }.complete)

/-- Write a word to an address. -/
def write (turns : Nat) (worker : Worker α μ) (address : Address) (word : UInt32) :
    Option (Except Fault Work.Outcome × Worker α μ) :=
  (resolveOrFill turns worker address .write).bind fun
  | (.error reason, worker) =>
    some (.ok (.denied reason), (worker.note (.writeDenied address reason)).complete)
  | (.ok physical, worker) =>
    (suspend worker).map fun worker =>
    match worker.writeMemory physical (Word.bytes word) with
    | (.error fault, worker) => (.error fault, worker)
    | (.ok (), worker) => (.ok .applied, worker.complete)

/-- Read a range piece by piece, for at most so many turns. Each fill walks for
at most `depth` turns. -/
def gather (depth : Nat) : Nat → Worker α μ → Address → UInt64 → ByteArray →
    Option (Except Fault Worker.Gathered × Worker α μ)
  | 0, _, _, _, _ => none
  | turns + 1, worker, address, remaining, bytes =>
    if remaining = 0 then some (.ok ⟨bytes, 0⟩, worker)
    else
      (ensure depth worker ⟨address, remaining⟩).bind fun (_, worker) =>
      (find worker.cache address).bind fun found =>
      match found.filter fun region => region.grants.intersects .read with
      | none => some (.ok ⟨bytes, remaining⟩, worker.note (.checksumStopped address))
      | some region =>
        (translate region address).bind fun physical =>
        (chunk region physical remaining).bind fun size =>
        (suspend worker).bind fun worker =>
        match worker.readMemory physical size.toNat with
        | (.error fault, worker) => some (.error fault, worker)
        | (.ok piece, worker) =>
          (sub remaining size).bind fun left =>
          gather depth turns worker (address + size) left (bytes ++ piece.val)

/-- Digest a range into the digest registers. -/
def checksum (turns : Nat) (worker : Worker α μ) (range : Span) :
    Option (Except Fault Work.Outcome × Worker α μ) :=
  (gather turns turns worker range.start range.length ByteArray.empty).bind fun
  | (.error fault, worker) => some (.error fault, worker)
  | (.ok gathered, worker) =>
    if gathered.remaining = 0 then
      let digest := Md5.digest gathered.bytes
      some (.ok (.digested digest),
        { worker with registers := worker.registers.setDigest digest }.complete)
    else
      (sub range.length gathered.remaining).map fun consumed =>
        (.ok (.aborted consumed), worker.fail)

/-- Carry out the operation of a request. -/
def perform (turns : Nat) (worker : Worker α μ) :
    Work.Request → Option (Except Fault Work.Outcome × Worker α μ)
  | .translate range =>
    (stride turns turns worker range.start range.length 0).map fun (filled, worker) =>
      (.ok (.translated filled), worker.complete)
  | .read address => read turns worker address
  | .write address word => write turns worker address word
  | .checksum range => checksum turns worker range

/-- Carry out a request on an endpoint, no loop taking more than so many
turns. -/
def execute (turns : Nat) (endpoint : Endpoint α μ) (request : Work.Request) :
    Option (Step (Endpoint α μ) (Except Fault Work.Outcome)) :=
  (perform turns (endpoint.worker.note (.workStarted request)) request).map fun (result, worker) =>
    let worker :=
      match result with
      | .error _ => worker
      | .ok outcome => worker.note (.workDone outcome worker.registers.status)
    { result
      state := { endpoint with toDatapath := worker.toDatapath }
      trace := worker.trace }

theorem read_eq {turns : Nat} (worker : Worker α μ) (address : Address)
    (h : 2 * worker.granule.bytes.toNat ≤ turns) :
    read turns worker address = some (worker.read address) := by
  rw [read, resolveOrFill_eq worker address .read h, Option.bind_some, Worker.read]
  obtain ⟨resolved, worker⟩ := worker.resolve address .read
  cases resolved with
  | error reason => rfl
  | ok physical =>
      dsimp only
      rw [suspend_eq]
      rfl

theorem write_eq {turns : Nat} (worker : Worker α μ) (address : Address) (word : UInt32)
    (h : 2 * worker.granule.bytes.toNat ≤ turns) :
    write turns worker address word = some (worker.write address word) := by
  rw [write, resolveOrFill_eq worker address .write h, Option.bind_some, Worker.write]
  obtain ⟨resolved, worker⟩ := worker.resolve address .write
  cases resolved with
  | error reason => rfl
  | ok physical =>
      dsimp only
      rw [suspend_eq]
      rfl

/-- Each piece takes at least one byte off what remains, and no more than
remains. -/
theorem gather_eq {depth turns : Nat} (worker : Worker α μ) (address : Address)
    {remaining : UInt64} (bytes : ByteArray)
    (hdepth : remaining.toNat + worker.granule.bytes.toNat ≤ depth)
    (h : remaining.toNat < turns) :
    gather depth turns worker address remaining bytes =
      some (worker.gather address remaining bytes) := by
  induction turns generalizing worker address remaining bytes with
  | zero => exact absurd h (Nat.not_lt_zero _)
  | succ turns ih =>
      rw [gather, Worker.gather]
      by_cases hremaining : remaining = 0
      · rw [if_pos hremaining, if_pos hremaining]
      have hensure : ensure depth worker ⟨address, remaining⟩ =
          some (worker.ensure ⟨address, remaining⟩) := ensure_eq worker hdepth
      have hgranule : (worker.ensure ⟨address, remaining⟩).2.granule = worker.granule :=
        worker.granule_ensure _
      rw [if_neg hremaining, if_neg hremaining, hensure, Option.bind_some]
      generalize worker.ensure ⟨address, remaining⟩ = ensured at hgranule
      obtain ⟨added, ensured⟩ := ensured
      dsimp only at hgranule ⊢
      rw [find_eq, Option.bind_some]
      cases (ensured.cache.find? address).filter fun region => region.grants.intersects .read with
      | none => rfl
      | some region =>
          have hleft := region.toNat_sub_chunk_lt (region.translate address) hremaining
          dsimp only
          rw [translate_eq, Option.bind_some, chunk_eq, Option.bind_some, suspend_eq,
            Option.bind_some]
          have hread : (ensured.suspend.readMemory (region.translate address)
              (region.chunk (region.translate address) remaining).toNat).2.granule =
                worker.granule := hgranule
          generalize ensured.suspend.readMemory (region.translate address)
            (region.chunk (region.translate address) remaining).toNat = reply at hread
          obtain ⟨answer, after⟩ := reply
          cases answer with
          | error fault => rfl
          | ok piece =>
              dsimp only at hread ⊢
              rw [sub_eq (region.chunk_le _ _), Option.bind_some]
              refine ih after _ _ ?_ (Nat.lt_of_lt_of_le hleft (Nat.le_of_lt_succ h))
              rw [hread]
              omega

theorem checksum_eq {turns : Nat} (worker : Worker α μ) (range : Span)
    (h : range.length.toNat + 2 * worker.granule.bytes.toNat ≤ turns) :
    checksum turns worker range = some (worker.checksum range) := by
  have hgranule : 0 < worker.granule.bytes.toNat := worker.granule.isPowerOfTwo.toNat_pos
  have hgather : gather turns turns worker range.start range.length ByteArray.empty =
      some (worker.gather range.start range.length ByteArray.empty) :=
    gather_eq worker _ _ (by omega) (by omega)
  have hremaining (gathered : Worker.Gathered)
      (h : (worker.gather range.start range.length ByteArray.empty).1 = .ok gathered) :
      gathered.remaining ≤ range.length := worker.remaining_gather_le _ _ _ h
  rw [checksum, hgather, Option.bind_some, Worker.checksum]
  generalize worker.gather range.start range.length ByteArray.empty = ended at hremaining
  obtain ⟨result, after⟩ := ended
  cases result with
  | error fault => rfl
  | ok gathered =>
      dsimp only
      rw [sub_eq (hremaining gathered rfl)]
      split <;> rfl

/-- No loop of a request takes more turns than the request has bytes and the
granule twice over. -/
theorem perform_eq {turns : Nat} (worker : Worker α μ) (request : Work.Request)
    (h : request.extent + 2 * worker.granule.bytes.toNat ≤ turns) :
    perform turns worker request = some (worker.perform request) := by
  have hgranule : 0 < worker.granule.bytes.toNat := worker.granule.isPowerOfTwo.toNat_pos
  cases request with
  | translate range =>
      have hstride : stride turns turns worker range.start range.length 0 =
          some (worker.stride range.start range.length 0) := by
        simp only [Work.Request.extent] at h
        exact stride_eq worker _ _ (by omega) (by omega)
      rw [perform, hstride]
      rfl
  | read address => exact read_eq worker address (Nat.le_of_add_left_le h)
  | write address word => exact write_eq worker address word (Nat.le_of_add_left_le h)
  | checksum range => exact checksum_eq worker range h

theorem execute_eq {turns : Nat} (endpoint : Endpoint α μ) (request : Work.Request)
    (h : request.extent + 2 * endpoint.config.granule.toNat ≤ turns) :
    execute turns endpoint request = some (endpoint.execute request) := by
  have hperform : perform turns (endpoint.worker.note (.workStarted request)) request =
      some ((endpoint.worker.note (.workStarted request)).perform request) :=
    perform_eq _ request h
  rw [execute, hperform, Option.map_some, Endpoint.execute, Worker.execute]
  obtain ⟨result, after⟩ := (endpoint.worker.note (.workStarted request)).perform request
  cases result with
  | error fault => rfl
  | ok outcome => rfl

end Work

end Worker

end Checked

/-- Whatever an agent grants and a memory does, a request is over after a number
of turns that is known beforehand, no difference of words goes below zero on
the way, and a checksum is read in pieces that have a byte at least and never
more than remains. Looking an address up in a cache and dropping a range from it
are as safe. -/
theorem Endpoint.execute_checked {α : Type u} {μ : Type v} [TranslationAgent α] [PhysicalMemory μ]
    (endpoint : Endpoint α μ) (request : Work.Request) (more : Nat) (range : Span) (cache : Cache)
    (region : Region) (address : Address) :
    Checked.execute (request.extent + 2 * endpoint.config.granule.toNat + more) endpoint request =
        some (endpoint.execute request) ∧
      TakesInPieces range.length.toNat
        (accesses (endpoint.execute (.checksum range)).trace) ∧
      Checked.last region.span = some region.last ∧
      Checked.contains cache address = some (cache.contains address) ∧
      Checked.invalidate cache range = some (cache.invalidate range) ∧
      Checked.invalidateOverlapping cache range = some (cache.invalidateOverlapping range) :=
  ⟨Checked.execute_eq endpoint request (Nat.le_add_right _ _),
    endpoint.takesInPieces_checksum range, Checked.last_eq region.length_ne_zero,
    Checked.contains_eq cache address,
    Checked.invalidate_eq cache range, Checked.invalidateOverlapping_eq cache range⟩

end AtsEndpoint
