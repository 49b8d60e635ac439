import Mathlib.Algebra.Ring.Nat
import Mathlib.Data.List.DropRight
import AtsEndpoint.Proofs.Backlog
import AtsEndpoint.Proofs.Checksum
import AtsEndpoint.Proofs.Checked
import AtsEndpoint.Proofs.Exchanges

/-!
# The pieces of a checksum

A checksum reads its range in pieces. Each piece begins where the one before it
has ended, and it is taken from the first region that holds this address when
the address is looked up. Between the lookup and the read the waiting notices
take effect, so the region need not be cached any more when its bytes are read.

A trace tells what was cached at each of its points: regions are kept one after
another, and notices drop some of them. So the moment of a lookup is a point in
the trace, the one before the notices that are applied just ahead of the read.

The bytes read are those that the memory gives when it is read in this way, and
nothing else reaches the digest.
-/

namespace AtsEndpoint

/-! ## What a region gives in one piece -/

/-- So many bytes from a physical address on are a piece of what a region gives
from a virtual address on. -/
structure Region.Gives (region : Region) (address physical : Address) (count : Nat) : Prop where
  mem : address ∈ region.span
  readable : region.grants.intersects .read = true
  image : physical = region.translate address
  pos : 1 ≤ count
  le_length : count ≤ region.span.length.toNat
  /-- No multiple of the length lies inside the piece. -/
  undivided : IsPowerOfTwo region.span.length → ∀ multiple, region.span.length.toNat ∣ multiple →
    ¬ (physical.toNat < multiple ∧ multiple < physical.toNat + count)
  /-- The piece ends inside a region that is aligned on both sides. -/
  inside : region.IsNatural →
    address.toNat + count ≤ region.span.start.toNat + region.span.length.toNat ∧
      region.target.toNat ≤ physical.toNat ∧
      physical.toNat + count ≤ region.target.toNat + region.span.length.toNat
  /-- Each of its bytes is then the image of its own address. -/
  bytewise : region.IsNatural → ∀ i < count,
    (region.translate (address + i.toUInt64)).toNat = physical.toNat + i

namespace Region

theorem toNat_chunk_le_room (region : Region) (physical : Address) (remaining : UInt64) :
    (region.chunk physical remaining).toNat ≤ (region.room physical).toNat := by
  unfold chunk
  split
  next hle => exact UInt64.le_iff_toNat_le.mp hle
  next => exact Nat.le_refl _

/-- The piece behind a translated address is what the region gives from there. -/
theorem gives_chunk {region : Region} {address : Address} (hmem : address ∈ region.span)
    (hreadable : region.grants.intersects .read = true) {remaining : UInt64}
    (hwanted : remaining ≠ 0) :
    region.Gives address (region.translate address)
      (region.chunk (region.translate address) remaining).toNat := by
  have hroom := region.toNat_chunk_le_room (region.translate address) remaining
  rw [toNat_room] at hroom
  have hstop (hnatural : region.IsNatural) := hnatural.chunk_stop_le hmem remaining
  constructor
  · exact hmem
  · exact hreadable
  · rfl
  · exact region.toNat_chunk_pos _ hwanted
  · exact Nat.le_trans hroom (Nat.sub_le _ _)
  · rintro hpower multiple ⟨c, rfl⟩ ⟨hlow, hhigh⟩
    rw [toNat_granuleOffset hpower] at hroom
    have hpos := hpower.toNat_pos
    have hsplit := Nat.div_add_mod (region.translate address).toNat region.span.length.toNat
    -- A multiple above the start of the piece lies a whole length above the one
    -- below it.
    have hnext : (region.translate address).toNat / region.span.length.toNat + 1 ≤ c := by
      apply Nat.div_lt_of_lt_mul
      exact hlow
    have hstep := Nat.mul_le_mul_left region.span.length.toNat hnext
    rw [Nat.mul_succ] at hstep
    omega
  · intro hnatural
    have hmoved := hnatural.toNat_translate hmem
    have hinside := Span.mem_iff_toNat.mp hmem
    have hstop := hstop hnatural
    omega
  · intro hnatural i hi
    have hstop := hstop hnatural
    have hspan := hnatural.span_aligned.stop_le
    have hinside := Span.mem_iff_toNat.mp hmem
    have hsum : (address + i.toUInt64).toNat = address.toNat + i := by
      rw [toNat_add_toUInt64]
      exact Nat.mod_eq_of_lt (by omega)
    have hnext : address + i.toUInt64 ∈ region.span :=
      Span.mem_iff_toNat.mpr ⟨by omega, by omega⟩
    rw [hnatural.toNat_translate hnext, hnatural.toNat_translate hmem, hsum]
    omega

end Region

/-! ## What a trace leaves in the cache -/

namespace Event

/-- The cache after an event. -/
def cacheAfter (cache : Cache) : Event → Cache
  | .cached region => cache.append [region]
  | .invalidated range _ => cache.without range
  | .flushed _ => {}
  | _ => cache

/-- A waiting notice is being applied. -/
def isApplying : Event → Bool
  | .invalidated _ _ | .noticeApplied _ _ => true
  | _ => false

/-- No region enters or leaves the cache by the event. -/
structure IsIdle (event : Event) : Prop where
  cacheAfter_eq : ∀ cache, event.cacheAfter cache = cache
  isApplying_eq : event.isApplying = false

theorem IsMark.isIdle {event : Event} (h : event.IsMark) : event.IsIdle := by
  cases h <;> exact ⟨fun _ => rfl, rfl⟩

theorem EndsFill.isIdle {event : Event} (h : event.EndsFill) : event.IsIdle := by
  cases h <;> exact ⟨fun _ => rfl, rfl⟩

/-- While the agent answers, nothing is cached yet. -/
theorem isIdle_of_mem_reply {α : Type u} {reply : AgentReply α} {request : TranslationRequest}
    {event : Event} (h : event ∈ (reply.trace request).toList) : event.IsIdle := by
  rcases List.mem_append.mp h with hposted | hremark
  · rcases List.mem_cons.mp hposted with rfl | hposted
    · exact ⟨fun _ => rfl, rfl⟩
    · obtain ⟨notice, -, rfl⟩ := List.mem_map.mp hposted
      exact ⟨fun _ => rfl, rfl⟩
  · obtain ⟨remark, -, rfl⟩ := List.mem_map.mp hremark
    exact ⟨fun _ => rfl, rfl⟩

theorem isIdle_of_mem_posted {notices : List Notice} {event : Event}
    (h : event ∈ notices.map Event.posted) : event.IsIdle := by
  obtain ⟨notice, -, rfl⟩ := List.mem_map.mp h
  exact ⟨fun _ => rfl, rfl⟩

/-- Memory is not accessed while a notice is applied. -/
theorem access?_of_isApplying {event : Event} (h : event.isApplying = true) :
    event.access? = none := by
  cases event <;> first | rfl | cases h

end Event

/-- The cache after events. -/
def cacheFrom (cache : Cache) (events : List Event) : Cache :=
  events.foldl Event.cacheAfter cache

/-- The events before an access, up to its lookup: the notices applied just
ahead of the access come behind the lookup. -/
def untilLookup (before : List Event) : List Event :=
  before.rdropWhile Event.isApplying

/-- The number of bytes that are accessed in events. -/
def extent (events : List Event) : Nat :=
  ((events.filterMap Event.access?).map Prod.snd).sum

section Events

variable {events more : List Event}

theorem cacheFrom_append (cache : Cache) (first second : List Event) :
    cacheFrom cache (first ++ second) = cacheFrom (cacheFrom cache first) second :=
  List.foldl_append

theorem cacheFrom_of_isIdle (h : ∀ event ∈ events, event.IsIdle) (cache : Cache) :
    cacheFrom cache events = cache := by
  induction events with
  | nil => rfl
  | cons event rest ih =>
    obtain ⟨hfirst, hrest⟩ := List.forall_mem_cons.mp h
    change cacheFrom (event.cacheAfter cache) rest = cache
    rw [hfirst.cacheAfter_eq, ih hrest]

theorem extent_append (first second : List Event) :
    extent (first ++ second) = extent first + extent second := by
  simp [extent]

theorem extent_of_no_access (h : ∀ event ∈ events, event.access? = none) : extent events = 0 := by
  rw [extent, List.filterMap_eq_nil_iff.mpr h]
  rfl

theorem untilLookup_append_of_isApplying (h : ∀ event ∈ more, event.isApplying = true) :
    untilLookup (events ++ more) = untilLookup events := by
  induction more using List.reverseRecOn with
  | nil => rw [List.append_nil]
  | append_singleton earlier last ih =>
    obtain ⟨hearlier, hlast⟩ := List.forall_mem_append.mp h
    rw [← List.append_assoc, untilLookup, List.rdropWhile_concat_pos _ _ _ (by simpa using hlast)]
    exact ih hearlier

/-- A lookup can follow on anything but a notice being applied. -/
theorem untilLookup_append_of_ne_nil (hne : more ≠ [])
    (h : ∀ event ∈ more, event.isApplying = false) :
    untilLookup (events ++ more) = events ++ more := by
  apply List.rdropWhile_eq_self_iff.mpr
  intro hboth
  rw [List.getLast_append_of_ne_nil hboth hne, h _ (List.getLast_mem hne)]
  exact Bool.false_ne_true

end Events

/-! ## Drains and fills -/

/-- The events are notices being applied, and they leave of the cache what the
notices leave. -/
structure Applies (notices : List Notice) (cache : Cache) (events : List Event) : Prop where
  applying : ∀ event ∈ events, event.isApplying = true
  cache : cacheFrom cache events = NoticeQueue.remains cache notices

theorem NoticeQueue.applies_handleAll {start cache : Cache} {done : List Notice} {trace : Trace}
    (h : Applies done start trace.toList) (hcache : remains start done = cache)
    (queue : NoticeQueue) (notices : List Notice) :
    Applies (done ++ notices) start (queue.handleAll cache trace notices).trace.toList := by
  induction notices generalizing queue cache trace done with
  | nil =>
    rw [List.append_nil]
    exact h
  | cons notice rest ih =>
    have hleft : remains start (done ++ [notice]) = cache.without notice := by
      rw [remains, List.foldl_append, ← hcache]
      rfl
    have hhandled : Applies (done ++ [notice]) start
        (trace ++ (queue.handle cache notice).trace).toList := by
      rw [Array.toList_append]
      refine ⟨List.forall_mem_append.mpr ⟨h.applying, ?_⟩, ?_⟩
      · intro event hevent
        rcases Array.mem_push.mp (Array.mem_toList_iff.mp hevent) with hdropped | rfl
        · obtain rfl := Array.mem_singleton.mp hdropped
          rfl
        · rfl
      · rw [cacheFrom_append, h.cache, hleft, hcache]
        rfl
    rw [← List.singleton_append, ← List.append_assoc]
    exact ih hhandled hleft _

theorem NoticeQueue.applies_drain (queue : NoticeQueue) (cache : Cache) :
    Applies queue.waiting cache (queue.drain cache).trace.toList := by
  have hstart : Applies [] cache (#[] : Trace).toList := ⟨by simp, rfl⟩
  exact applies_handleAll hstart rfl _ _

namespace Fill

variable {α : Type u} [TranslationAgent α]

/-- The events of a fill tell the regions that it has kept, and none of them
applies a notice. -/
structure Told (cache : Cache) (fill : Fill α) : Prop where
  regions : cacheFrom cache fill.trace.toList = cache.append fill.regions.toList
  not_applying : ∀ event ∈ fill.trace.toList, event.isApplying = false

theorem Told.ask {cache : Cache} {fill : Fill α} (h : fill.Told cache)
    (request : TranslationRequest) : (fill.ask request).2.Told cache := by
  have hreply := @Event.isIdle_of_mem_reply α (TranslationAgent.translate fill.agent request)
    request
  constructor
  · rw [Fill.ask, Array.toList_append, cacheFrom_append, h.regions]
    exact cacheFrom_of_isIdle (fun _ => hreply) _
  · rw [Fill.ask, Array.toList_append]
    exact List.forall_mem_append.mpr
      ⟨h.not_applying, fun _ hevent => (hreply hevent).isApplying_eq⟩

theorem told_walk {cache : Cache} {fill : Fill α} (h : fill.Told cache) (address : Address)
    (remaining : UInt64) : (fill.walk address remaining).Told cache := by
  refine walk_invariant (P := Told cache) ?_ ?_ ?_ fill address remaining h
  · intro fill address h
    exact h.ask ⟨address, .all⟩
  · intro fill event hends h
    constructor
    · rw [note, Array.toList_push, cacheFrom_append, h.regions]
      exact hends.isIdle.cacheAfter_eq _
    · rw [note, Array.toList_push]
      exact List.forall_mem_append.mpr
        ⟨h.not_applying, List.forall_mem_singleton.mpr hends.isIdle.isApplying_eq⟩
  · intro fill address answer hlength h _
    have hasked := h.ask ⟨address, .all⟩
    constructor
    · rw [keep, Array.toList_push, cacheFrom_append, hasked.regions, Array.toList_push]
      simp only [cacheFrom, List.foldl_cons, List.foldl_nil, Event.cacheAfter, Cache.append,
        List.append_assoc]
    · rw [keep, Array.toList_push]
      exact List.forall_mem_append.mpr
        ⟨hasked.not_applying, List.forall_mem_singleton.mpr rfl⟩

theorem told_run (granule : UInt64) (agent : α) (range : Span) (cache : Cache) :
    (run granule agent range).Told cache := by
  have hstart : Told cache { agent } := ⟨(Cache.append_nil _).symm, by simp⟩
  exact told_walk hstart _ _

/-- A walk that is asked for anything leaves something in the trace. -/
theorem trace_walk_ne_nil (agent : α) (address : Address) {remaining : UInt64}
    (hwanted : remaining ≠ 0) : (walk { agent } address remaining).trace.toList ≠ [] := by
  obtain ⟨exchanges, hholds, hwalks⟩ := exists_walks { agent } address remaining
  intro hnone
  have hrequests := hholds.requests
  rw [requests, observe, hnone] at hrequests
  have hsilent : exchanges = [] := List.map_eq_nil_iff.mp hrequests.symm
  exact hwanted (hwalks.eq_nil_iff.mp hsilent)

end Fill

/-! ## One turn of the walk -/

/-- Every access in the events reads a piece of the range from `start` on, taken
from the first region that held the address of its first byte when it was looked
up. -/
def InPieces (start : Address) (cache : Cache) (events : List Event) : Prop :=
  ∀ before call after physical count, events = before ++ call :: after →
    call.access? = some (physical, count) →
    call = .readIssued physical count ∧
      ∃ region, (cacheFrom cache (untilLookup before)).find?
          (start + (extent before).toUInt64) = some region ∧
        region.Gives (start + (extent before).toUInt64) physical count

namespace InPieces

variable {start : Address} {cache : Cache} {events more : List Event}

theorem nil (start : Address) (cache : Cache) : InPieces start cache [] := by
  intro before call after physical count hsplit
  simp at hsplit

theorem append (h : InPieces start cache events) (hmore : ∀ event ∈ more, event.access? = none) :
    InPieces start cache (events ++ more) := by
  intro before call after physical count hsplit hcall
  obtain ⟨rest, hfound⟩ | ⟨since, -, hfound⟩ := split_append hsplit
  · exact h before call rest physical count hfound hcall
  · have hnone : call.access? = none := hmore call (hfound ▸ by simp)
    rw [hcall] at hnone
    cases hnone

/-- The notices that are applied between a lookup and its read do not count. -/
theorem read (h : InPieces start cache events) (hready : untilLookup events = events)
    {drained : List Event} (hdrained : ∀ event ∈ drained, event.isApplying = true)
    {region : Region} {physical : Address} {count : Nat}
    (hfound : (cacheFrom cache events).find? (start + (extent events).toUInt64) = some region)
    (hgives : region.Gives (start + (extent events).toUInt64) physical count) :
    InPieces start cache (events ++ drained ++ [.readIssued physical count]) := by
  have hsilent (event : Event) (hevent : event ∈ drained) : event.access? = none :=
    event.access?_of_isApplying (hdrained event hevent)
  intro before call after physical' count' hsplit hcall
  obtain ⟨rest, hearlier⟩ | ⟨since, rfl, hlast⟩ := split_append hsplit
  · exact h.append hsilent before call rest physical' count' hearlier hcall
  · cases since with
    | nil =>
      obtain ⟨rfl, -⟩ := List.cons.inj hlast
      cases hcall
      rw [List.append_nil, untilLookup_append_of_isApplying hdrained, hready, extent_append,
        extent_of_no_access hsilent, Nat.add_zero]
      exact ⟨rfl, region, hfound, hgives⟩
    | cons _ _ => simp at hlast

end InPieces

/-- The bytes behind those at hand when pieces of memory are read one after
another, and the memory after the last of these reads. -/
def readAll {μ : Type u} [PhysicalMemory μ] (memory : μ) (bytes : ByteArray) :
    List (Address × Nat) → Except Fault ByteArray × μ
  | [] => (.ok bytes, memory)
  | (physical, count) :: rest =>
    let reply := PhysicalMemory.read memory physical count
    match reply.answer with
    | .error fault => (.error fault, reply.memory)
    | .ok piece => readAll reply.memory (bytes ++ piece.val) rest

theorem readAll_append {μ : Type u} [PhysicalMemory μ] {memory middle : μ}
    {bytes read : ByteArray} {pieces : List (Address × Nat)}
    (h : readAll memory bytes pieces = (.ok read, middle)) (more : List (Address × Nat)) :
    readAll memory bytes (pieces ++ more) = readAll middle read more := by
  induction pieces generalizing memory bytes with
  | nil =>
    cases h
    rfl
  | cons piece rest ih =>
    rw [readAll] at h
    rw [List.cons_append, readAll]
    cases hanswer : (PhysicalMemory.read memory piece.1 piece.2).answer with
    | error fault => simp [hanswer] at h
    | ok got =>
      simp only [hanswer] at h ⊢
      exact ih h

namespace Worker

variable {α : Type u} {μ : Type v}

theorem cacheFrom_suspend {start : Cache} {worker : Worker α μ}
    (h : cacheFrom start worker.trace.toList = worker.cache) :
    cacheFrom start worker.suspend.trace.toList = worker.suspend.cache := by
  rw [suspend, Array.toList_append, cacheFrom_append, h, NoticeQueue.state_drain]
  exact (worker.notices.applies_drain worker.cache).cache

/-- Looking a translation up is silent about memory, and another lookup can
come next. -/
theorem exists_trace_ensure [TranslationAgent α] (worker : Worker α μ) (range : Span)
    (hwanted : range.length ≠ 0) (hready : untilLookup worker.trace.toList = worker.trace.toList) :
    ∃ more, (worker.ensure range).2.trace.toList = worker.trace.toList ++ more ∧
      (∀ event ∈ more, event.access? = none) ∧
      untilLookup (worker.trace.toList ++ more) = worker.trace.toList ++ more := by
  have hseen := worker.observe_ensure overlooks_access? range
  obtain ⟨more, hmore, hlookup⟩ : ∃ more,
      (worker.ensure range).2.trace.toList = worker.trace.toList ++ more ∧
        untilLookup (worker.trace.toList ++ more) = worker.trace.toList ++ more := by
    unfold ensure
    split
    · exact ⟨[], (List.append_nil _).symm, by rwa [List.append_nil]⟩
    · rw [fill, suspend, Array.toList_append, Array.toList_append, List.append_assoc]
      refine ⟨_, rfl, ?_⟩
      rw [← List.append_assoc]
      apply untilLookup_append_of_ne_nil
      · apply Fill.trace_walk_ne_nil
        exact addSaturating_ne_zero hwanted _
      · exact (Fill.told_run worker.granule.bytes worker.agent range {}).not_applying
  refine ⟨more, hmore, ?_, hlookup⟩
  rw [observe, observe, hmore, List.filterMap_append] at hseen
  exact List.filterMap_eq_nil_iff.mp (List.append_right_eq_self.mp hseen)

variable [PhysicalMemory μ]

theorem cacheFrom_readMemory {start : Cache} {worker : Worker α μ}
    (h : cacheFrom start worker.trace.toList = worker.cache) (physical : Address) (count : Nat) :
    cacheFrom start (worker.readMemory physical count).2.trace.toList =
      (worker.readMemory physical count).2.cache := by
  rw [readMemory, Array.toList_appendList, Array.toList_push, cacheFrom_append, cacheFrom_append, h]
  exact cacheFrom_of_isIdle (fun _ => Event.isIdle_of_mem_posted) _

/-- Between a lookup and the end of its read the waiting notices are applied,
the read goes out, and notices arrive. -/
theorem trace_readMemory (worker : Worker α μ) (physical : Address)
    (count : Nat) :
    ∃ (drained : List Event) (notices : List Notice),
      (worker.suspend.readMemory physical count).2.trace.toList =
        worker.trace.toList ++ drained ++ [.readIssued physical count] ++
          notices.map Event.posted ∧
      ∀ event ∈ drained, event.isApplying = true := by
  refine ⟨(worker.notices.drain worker.cache).trace.toList,
    (PhysicalMemory.read worker.memory physical count).posted, ?_,
    (worker.notices.applies_drain worker.cache).applying⟩
  rw [readMemory, Array.toList_appendList, Array.toList_push, suspend, Array.toList_append]

/-- The walk over a range has come to an address, and so much is left of it. All
bytes before the address have been read in pieces, and a lookup can come next. -/
structure Gathering (memory : μ) (cache : Cache) (range : Span) (worker : Worker α μ)
    (address : Address) (remaining : UInt64) (bytes : ByteArray) : Prop where
  cached : cacheFrom cache worker.trace.toList = worker.cache
  pieces : InPieces range.start cache worker.trace.toList
  reached : address = range.start + (extent worker.trace.toList).toUInt64
  counted : extent worker.trace.toList + remaining.toNat = range.length.toNat
  read : readAll memory .empty (accesses worker.trace) = (.ok bytes, worker.memory)
  ready : untilLookup worker.trace.toList = worker.trace.toList

/-- The walk over a range has ended. -/
structure Gathers (memory : μ) (cache : Cache) (range : Span)
    (walked : Except Fault Gathered × Worker α μ) : Prop where
  pieces : InPieces range.start cache walked.2.trace.toList
  read : (readAll memory .empty (accesses walked.2.trace)).1 = walked.1.map Gathered.bytes
  counted : ∀ gathered, walked.1 = .ok gathered →
    extent walked.2.trace.toList + gathered.remaining.toNat = range.length.toNat
  stopped : ∀ gathered, walked.1 = .ok gathered → gathered.remaining ≠ 0 → ∀ region,
    walked.2.cache.find? (range.start + (extent walked.2.trace.toList).toUInt64) = some region →
      region.grants.intersects .read = false

/-- A walk that ends before the end of its range. -/
theorem Gathers.consumed {memory : μ} {cache : Cache} {range : Span}
    {walked : Except Fault Gathered × Worker α μ} (h : Gathers memory cache range walked)
    {gathered : Gathered} (hwalked : walked.1 = .ok gathered) (hleft : gathered.remaining ≠ 0) :
    extent walked.2.trace.toList = (range.length - gathered.remaining).toNat ∧
      range.length - gathered.remaining < range.length ∧
      ∀ region, walked.2.cache.find? (range.start + (range.length - gathered.remaining)) =
        some region → region.grants.intersects .read = false := by
  have hcounted := h.counted gathered hwalked
  have hle : gathered.remaining ≤ range.length := UInt64.le_iff_toNat_le.mpr (by omega)
  have hpos := toNat_pos_of_ne_zero hleft
  have hconsumed : extent walked.2.trace.toList = (range.length - gathered.remaining).toNat := by
    rw [UInt64.toNat_sub_of_le _ _ hle]
    omega
  have hstopped := h.stopped gathered hwalked hleft
  rw [hconsumed] at hstopped
  change ∀ region, walked.2.cache.find? (range.start + UInt64.ofNat _) = _ → _ at hstopped
  rw [UInt64.ofNat_toNat] at hstopped
  refine ⟨hconsumed, ?_, hstopped⟩
  rw [UInt64.lt_iff_toNat_lt, UInt64.toNat_sub_of_le _ _ hle]
  omega

namespace Gathering

variable {memory : μ} {cache : Cache} {range : Span} {worker : Worker α μ} {address : Address}
variable {remaining : UInt64} {bytes : ByteArray}

section ReadMemory

variable {region : Region} (h : Gathering memory cache range worker address remaining bytes)
include h

/-- The piece that is found at the address is read next. -/
theorem pieces_readMemory (hwanted : remaining ≠ 0)
    (hfound : worker.cache.find? address = some region)
    (hreadable : region.grants.intersects .read = true) :
    InPieces range.start cache (worker.suspend.readMemory (region.translate address)
      (region.chunk (region.translate address) remaining).toNat).2.trace.toList := by
  obtain ⟨drained, notices, htrace, hdrained⟩ := worker.trace_readMemory
    (region.translate address) (region.chunk (region.translate address) remaining).toNat
  rw [htrace]
  apply InPieces.append
  · apply h.pieces.read h.ready hdrained
    · rw [h.cached, ← h.reached]
      exact hfound
    · rw [← h.reached]
      have hmem : address ∈ region.span := by
        simpa using List.find?_some hfound
      exact region.gives_chunk hmem hreadable hwanted
  · intro event hevent
    obtain ⟨notice, -, rfl⟩ := List.mem_map.mp hevent
    rfl

/-- Behind the piece the walk goes on with what is left. -/
theorem next_readMemory {physical : Address} {chunk : UInt64} (hchunk : chunk ≤ remaining)
    {piece : Payload chunk.toNat}
    (hread : (worker.suspend.readMemory physical chunk.toNat).1 = .ok piece)
    (hpieces : InPieces range.start cache
      (worker.suspend.readMemory physical chunk.toNat).2.trace.toList) :
    Gathering memory cache range (worker.suspend.readMemory physical chunk.toNat).2
      (address + chunk) (remaining - chunk) (bytes ++ piece.val) := by
  have haccesses : accesses (worker.suspend.readMemory physical chunk.toNat).2.trace =
      accesses worker.trace ++ [(physical, chunk.toNat)] := by
    rw [accesses_readMemory, accesses, observe_suspend overlooks_access?]
  have hextent : extent (worker.suspend.readMemory physical chunk.toNat).2.trace.toList =
      extent worker.trace.toList + chunk.toNat := by
    change ((accesses _).map Prod.snd).sum = _
    rw [haccesses, List.map_append, List.sum_append]
    rfl
  constructor
  · exact cacheFrom_readMemory (cacheFrom_suspend h.cached) physical chunk.toNat
  · exact hpieces
  · have hsum : (extent worker.trace.toList + chunk.toNat).toUInt64 =
        (extent worker.trace.toList).toUInt64 + chunk := by
      change UInt64.ofNat _ = UInt64.ofNat _ + chunk
      rw [UInt64.ofNat_add, UInt64.ofNat_toNat]
    rw [hextent, hsum, ← UInt64.add_assoc, ← h.reached]
  · have hcounted := h.counted
    have hle := UInt64.le_iff_toNat_le.mp hchunk
    rw [hextent, UInt64.toNat_sub_of_le _ _ hchunk]
    omega
  · have hanswer : (PhysicalMemory.read worker.memory physical chunk.toNat).answer = .ok piece :=
      hread
    rw [haccesses, readAll_append h.read, readAll]
    simp only [hanswer]
    rfl
  · obtain ⟨drained, notices, htrace, -⟩ := worker.trace_readMemory physical chunk.toNat
    rw [htrace, List.append_assoc]
    apply untilLookup_append_of_ne_nil
    · exact List.cons_ne_nil _ _
    · intro event hevent
      rcases List.mem_cons.mp hevent with rfl | hposted
      · rfl
      · exact (Event.isIdle_of_mem_posted hposted).isApplying_eq

/-- A read that fails is the last one. -/
theorem fault_readMemory {physical : Address} {count : Nat} {fault : Fault}
    (hread : (worker.suspend.readMemory physical count).1 = .error fault) :
    (readAll memory .empty
      (accesses (worker.suspend.readMemory physical count).2.trace)).1 = .error fault := by
  have hanswer : (PhysicalMemory.read worker.memory physical count).answer = .error fault := hread
  rw [accesses_readMemory, accesses, observe_suspend overlooks_access?, readAll_append h.read,
    readAll]
  simp only [hanswer]

end ReadMemory

end Gathering

variable [TranslationAgent α]

/-- The trace tells what is cached. -/
theorem steady_cacheFrom (start : Cache) :
    Steady fun worker : Worker α μ => cacheFrom start worker.trace.toList = worker.cache where
  mark worker event hmark h := by
    rw [note, Array.toList_push, cacheFrom_append, h]
    exact hmark.isIdle.cacheAfter_eq _
  fill worker range h := by
    rw [fill, Array.toList_append, cacheFrom_append, cacheFrom_suspend h]
    exact (Fill.told_run _ _ _ _).regions
  readMemory worker physical count h := cacheFrom_readMemory (cacheFrom_suspend h) physical count

theorem Gathering.ensure {memory : μ} {cache : Cache} {range : Span} {worker : Worker α μ}
    {address : Address} {remaining : UInt64} {bytes : ByteArray}
    (h : Gathering memory cache range worker address remaining bytes)
    (hwanted : remaining ≠ 0) :
    Gathering memory cache range (worker.ensure ⟨address, remaining⟩).2 address remaining
      bytes := by
  obtain ⟨more, hmore, hsilent, hready⟩ :=
    worker.exists_trace_ensure ⟨address, remaining⟩ hwanted h.ready
  have hextent : extent (worker.ensure ⟨address, remaining⟩).2.trace.toList =
      extent worker.trace.toList := by
    rw [hmore, extent_append, extent_of_no_access hsilent, Nat.add_zero]
  constructor
  · exact (steady_cacheFrom cache).ensure ⟨address, remaining⟩ h.cached
  · rw [hmore]
    exact h.pieces.append hsilent
  · rw [hextent]
    exact h.reached
  · rw [hextent]
    exact h.counted
  · rw [accesses, observe_ensure overlooks_access?, memory_ensure]
    exact h.read
  · rw [hmore]
    exact hready

theorem gathers_gather {memory : μ} {cache : Cache} {range : Span} {worker : Worker α μ}
    {address : Address} {remaining : UInt64} {bytes : ByteArray}
    (h : Gathering memory cache range worker address remaining bytes) :
    Gathers memory cache range (worker.gather address remaining bytes) := by
  fun_induction Worker.gather worker address remaining bytes with
  | case1 worker address bytes =>
    constructor
    · exact h.pieces
    · exact congrArg Prod.fst h.read
    · intro gathered hgathered
      cases hgathered
      exact h.counted
    · intro gathered hgathered hmore
      cases hgathered
      exact absurd rfl hmore
  | case2 worker address remaining bytes hwanted ensured hnone =>
    have hensured : Gathering memory cache range ensured address remaining bytes := h.ensure hwanted
    have haccesses : accesses (ensured.note (.checksumStopped address)).trace =
        accesses ensured.trace := (observe_push _ _).trans (List.append_nil _)
    have hextent : extent (ensured.note (.checksumStopped address)).trace.toList =
        extent ensured.trace.toList :=
      congrArg (fun pieces : List (Address × Nat) => (pieces.map Prod.snd).sum) haccesses
    constructor
    · rw [note, Array.toList_push]
      exact hensured.pieces.append (List.forall_mem_singleton.mpr rfl)
    · rw [haccesses, hensured.read]
      rfl
    · intro gathered hgathered
      cases hgathered
      rw [hextent]
      exact hensured.counted
    · intro gathered hgathered _ region hfound
      rw [hextent, ← hensured.reached] at hfound
      have hunreadable := Option.filter_eq_none_iff.mp hnone region hfound
      exact Bool.eq_false_iff.mpr hunreadable
  | case3 worker address remaining bytes hwanted ensured region hregion physical chunk fault after
      hread =>
    have hensured : Gathering memory cache range ensured address remaining bytes := h.ensure hwanted
    obtain ⟨hfound, hreadable⟩ := Option.filter_eq_some_iff.mp hregion
    obtain rfl : (ensured.suspend.readMemory physical chunk.toNat).2 = after :=
      congrArg Prod.snd hread
    constructor
    · exact hensured.pieces_readMemory hwanted hfound hreadable
    · exact hensured.fault_readMemory (congrArg Prod.fst hread)
    · intro gathered hgathered
      cases hgathered
    · intro gathered hgathered
      cases hgathered
  | case4 worker address remaining bytes hwanted ensured region hregion physical chunk piece after
      hread ih =>
    have hensured : Gathering memory cache range ensured address remaining bytes := h.ensure hwanted
    obtain ⟨hfound, hreadable⟩ := Option.filter_eq_some_iff.mp hregion
    obtain rfl : (ensured.suspend.readMemory physical chunk.toNat).2 = after :=
      congrArg Prod.snd hread
    apply ih
    apply hensured.next_readMemory (region.chunk_le physical remaining) (congrArg Prod.fst hread)
    exact hensured.pieces_readMemory hwanted hfound hreadable

/-- The end of a request accesses nothing. -/
theorem exists_trace_execute (worker : Worker α μ) (request : Work.Request) :
    ∃ more, (worker.execute request).2.trace.toList =
        ((worker.note (.workStarted request)).perform request).2.trace.toList ++ more ∧
      ∀ event ∈ more, event.access? = none := by
  unfold execute
  split
  next fault after hperform =>
    refine ⟨[], ?_, by simp⟩
    rw [hperform, List.append_nil]
  next outcome after hperform =>
    refine ⟨[.workDone outcome after.registers.status], ?_, List.forall_mem_singleton.mpr rfl⟩
    rw [hperform, note, Array.toList_push]

/-- The end of a checksum leaves the cache alone. -/
theorem cache_checksum (worker : Worker α μ) (range : Span) :
    (worker.checksum range).2.cache =
      (worker.gather range.start range.length .empty).2.cache := by
  unfold checksum
  split
  next fault after hgather => rw [hgather]
  next gathered after hgather =>
    rw [hgather]
    split <;> rfl

end Worker

/-! ## The whole checksum -/

section Checksum

variable {α : Type u} {μ : Type v} [TranslationAgent α] [PhysicalMemory μ]

theorem Endpoint.gathers_checksum (endpoint : Endpoint α μ) (range : Span) :
    Worker.Gathers endpoint.memory endpoint.cache range
      ((endpoint.worker.note (.workStarted (.checksum range))).gather range.start range.length
        .empty) := by
  apply Worker.gathers_gather
  constructor
  · rfl
  · exact (InPieces.nil _ _).append (List.forall_mem_singleton.mpr rfl)
  · exact (UInt64.add_zero _).symm
  · exact Nat.zero_add _
  · rfl
  · rfl

/-- The reads of a checksum are the pieces of its range, one behind the other.
A digest is that of the bytes in them and they make up the range; a checksum that
is aborted has come to an address without a readable region, and a fault is that
of the last read. -/
theorem Endpoint.checksum_in_pieces (endpoint : Endpoint α μ) (range : Span) :
    let run := endpoint.execute (.checksum range)
    let read := (readAll endpoint.memory .empty (accesses run.trace)).1
    InPieces range.start endpoint.cache run.trace.toList ∧
      match run.result with
      | .ok (.digested digest) =>
        extent run.trace.toList = range.length.toNat ∧
          ∃ bytes, read = .ok bytes ∧ digest = Md5.digest bytes
      | .ok (.aborted consumed) =>
        extent run.trace.toList = consumed.toNat ∧ consumed < range.length ∧
          (∃ bytes, read = .ok bytes) ∧
          ∀ region, run.state.cache.find? (range.start + consumed) = some region →
            region.grants.intersects .read = false
      | .ok _ => False
      | .error fault => read = .error fault := by
  intro run read
  have hgathers := endpoint.gathers_checksum range
  set started := endpoint.worker.note (.workStarted (.checksum range))
  set walked := started.gather range.start range.length .empty
  have hended : (started.checksum range).2.trace = walked.2.trace := started.trace_checksum range
  obtain ⟨more, htrace, hmore⟩ := endpoint.worker.exists_trace_execute (.checksum range)
  have htrace : run.trace.toList = walked.2.trace.toList ++ more := hended ▸ htrace
  have hextent : extent run.trace.toList = extent walked.2.trace.toList := by
    rw [htrace, extent_append, extent_of_no_access hmore, Nat.add_zero]
  have hread : read = walked.1.map Worker.Gathered.bytes := by
    rw [← hgathers.read, ← hended]
    exact congrArg (fun pieces => (readAll endpoint.memory .empty pieces).1)
      (endpoint.worker.accesses_execute (.checksum range))
  have hresult : run.result = walked.1.map (·.outcome range.length) :=
    (Worker.fst_execute _ _).trans (started.fst_checksum range)
  have hcache : run.state.cache = walked.2.cache :=
    (congrArg Datapath.cache (Worker.toDatapath_execute _ _)).trans (started.cache_checksum range)
  rw [htrace]
  refine ⟨hgathers.pieces.append hmore, ?_⟩
  rw [← htrace]
  cases hwalked : walked.1 with
  | error fault =>
    rw [hwalked] at hresult hread
    rw [hresult]
    exact hread
  | ok gathered =>
    have hcounted := hgathers.counted gathered hwalked
    rw [hwalked] at hresult hread
    rw [hresult, hextent, hcache]
    by_cases hall : gathered.remaining = 0
    · simp only [Except.map, Worker.Gathered.outcome, if_pos hall]
      rw [hall] at hcounted
      exact ⟨hcounted, gathered.bytes, hread, rfl⟩
    · simp only [Except.map, Worker.Gathered.outcome, if_neg hall]
      obtain ⟨hconsumed, hless, hstopped⟩ := hgathers.consumed hwalked hall
      exact ⟨hconsumed, hless, ⟨gathered.bytes, hread⟩, hstopped⟩

end Checksum

end AtsEndpoint
