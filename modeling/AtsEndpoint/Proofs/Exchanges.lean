import Mathlib.Data.List.Chain
import AtsEndpoint.Proofs.Alignment
import AtsEndpoint.Proofs.Observations
import AtsEndpoint.Worker

/-!
# The requests of a fill

A fill is a conversation: it asks for an address, and the answer decides whether
and where it asks next. An agent may answer as it likes, with granules of any
length, and what it answers may depend on all it was asked before.

Whatever the answers are, the requests go upwards, each from the end of the
region that the one before it brought. An answer takes at least as much off the
length that is wanted as it moves the walk on, since its region may begin below
the request but not behind it. So no request is made behind the end of the range.
-/

namespace AtsEndpoint

/-- A request to a translation agent, with what came back. -/
structure Exchange where
  /-- What was asked. -/
  request : TranslationRequest
  /-- The granule granted, or why there is none. -/
  answer : Except Fault Translation
  /-- The notices posted while answering. -/
  posted : List Notice

/-- The exchange for a request to an agent in this state. -/
def Exchange.of {α : Type u} [TranslationAgent α] (agent : α) (request : TranslationRequest) :
    Exchange :=
  let reply := TranslationAgent.translate agent request
  ⟨request, reply.answer, reply.posted⟩

/-- The rounded address lies no further below the address than the length. -/
theorem Region.mem_ofTranslation (address : Address) (answer : Translation)
    (hlength : answer.length ≠ 0) : address ∈ (ofTranslation address answer hlength).span := by
  have hsum : alignDown address answer.length + granuleOffset address answer.length = address :=
    alignDown_add_granuleOffset address answer.length
  have hoffset : address - alignDown address answer.length =
      granuleOffset address answer.length := by
    rw [UInt64.sub_eq_iff_eq_add, UInt64.add_comm, hsum]
  refine Span.mem_iff.mpr ⟨alignDown_le address answer.length, ?_⟩
  exact lt_of_eq_of_lt hoffset (granuleOffset_lt hlength)

namespace Exchange

variable {exchange : Exchange} {region : Region}

/-- The region that the answer makes. There is none if the request was declined
or the answer has no length. -/
def region? (exchange : Exchange) : Option Region :=
  match exchange.answer with
  | .error _ => none
  | .ok answer =>
    if hlength : answer.length = 0 then none
    else some (Region.ofTranslation exchange.request.address answer hlength)

theorem region?_of_error {fault : Fault} (h : exchange.answer = .error fault) :
    exchange.region? = none := by
  rw [region?, h]

theorem region?_of_length_eq_zero {answer : Translation} (h : exchange.answer = .ok answer)
    (hzero : answer.length = 0) : exchange.region? = none := by
  rw [region?, h]
  exact dif_pos hzero

theorem region?_of_ok {answer : Translation} (h : exchange.answer = .ok answer)
    (hlength : answer.length ≠ 0) :
    exchange.region? = some (.ofTranslation exchange.request.address answer hlength) := by
  rw [region?, h]
  exact dif_neg hlength

/-- The region of an answer holds the address that was asked for. -/
theorem mem_of_region? (h : exchange.region? = some region) :
    exchange.request.address ∈ region.span := by
  cases hanswer : exchange.answer with
  | error fault => simp [region?_of_error hanswer] at h
  | ok answer =>
    by_cases hlength : answer.length = 0
    · simp [region?_of_length_eq_zero hanswer hlength] at h
    · obtain rfl := Option.some.inj ((region?_of_ok hanswer hlength).symm.trans h)
      exact Region.mem_ofTranslation _ answer hlength

end Exchange

/-- The bytes that the regions of some exchanges have together, an overlap
counted again. -/
def granted (exchanges : List Exchange) : Nat :=
  (exchanges.filterMap Exchange.region?).foldr
    (fun region bytes => region.span.length.toNat + bytes) 0

theorem granted_cons_of_region? {exchange : Exchange} {region : Region}
    (h : exchange.region? = some region) (later : List Exchange) :
    granted (exchange :: later) = region.span.length.toNat + granted later := by
  rw [granted, List.filterMap_cons_some h, List.foldr_cons, granted]

/-- One agent is asked one request after another, and ends in another state. -/
inductive Conversation {α : Type u} [TranslationAgent α] : α → List Exchange → α → Prop
  | silent (agent : α) : Conversation agent [] agent
  | ask {agent after : α} {later : List Exchange} (request : TranslationRequest)
      (rest : Conversation (TranslationAgent.translate agent request).agent later after) :
      Conversation agent (.of agent request :: later) after

namespace Event

/-- The request that goes out. -/
def request? : Event → Option TranslationRequest
  | .requested request => some request
  | _ => none

end Event

/-- The translation requests of a trace. -/
abbrev requests (trace : Trace) : List TranslationRequest :=
  observe Event.request? trace

/-- One request goes out while the agent answers it. -/
theorem requests_reply {α : Type u} (reply : AgentReply α) (request : TranslationRequest) :
    requests (reply.trace request) = [request] := by
  have hposted : (reply.posted.map Event.posted).filterMap Event.request? = [] :=
    filterMap_posted (fun _ => rfl) reply.posted
  have hsaid : (reply.remarks.map Event.remark).filterMap Event.request? = [] := by
    rw [List.filterMap_map]
    exact List.filterMap_eq_nil_iff.mpr fun _ _ => rfl
  rw [requests, observe, AgentReply.trace, List.toList_toArray, List.filterMap_append, hsaid,
    List.append_nil]
  exact congrArg (request :: ·) hposted

namespace Fill

/-- The exchanges of a walk from an address on, while so much is wanted. -/
inductive Walks : Address → UInt64 → List Exchange → Prop
  /-- Nothing is wanted. -/
  | idle (address : Address) : Walks address 0 []
  /-- The answer makes no region. -/
  | refused {exchange : Exchange} {address : Address} {remaining : UInt64}
      (hrequest : exchange.request = ⟨address, .all⟩) (hwanted : remaining ≠ 0)
      (hrefused : exchange.region? = none) : Walks address remaining [exchange]
  /-- The region covers what was wanted, or reaches the end of the address space. -/
  | last {exchange : Exchange} {address : Address} {remaining : UInt64} {region : Region}
      (hrequest : exchange.request = ⟨address, .all⟩) (hwanted : remaining ≠ 0)
      (hregion : exchange.region? = some region)
      (hlast : remaining ≤ region.span.length ∨
        2 ^ 64 ≤ region.span.start.toNat + region.span.length.toNat) :
      Walks address remaining [exchange]
  /-- The walk goes on at the end of the region. -/
  | more {exchange : Exchange} {address next : Address} {remaining : UInt64} {region : Region}
      {later : List Exchange} (hrequest : exchange.request = ⟨address, .all⟩)
      (hwanted : remaining ≠ 0) (hregion : exchange.region? = some region)
      (hmore : region.span.length < remaining)
      (hnext : next.toNat = region.span.start.toNat + region.span.length.toNat)
      (rest : Walks next (remaining - region.span.length) later) :
      Walks address remaining (exchange :: later)

namespace Walks

variable {address : Address} {remaining : UInt64} {exchanges : List Exchange}

theorem eq_nil_iff (h : Walks address remaining exchanges) :
    exchanges = [] ↔ remaining = 0 := by
  cases h with
  | idle => simp
  | refused _ hwanted => simp [hwanted]
  | last _ hwanted => simp [hwanted]
  | more _ hwanted => simp [hwanted]

/-- The walk begins at its address. -/
theorem head_eq (h : Walks address remaining exchanges) :
    ∀ first ∈ exchanges.head?, first.request.address = address := by
  cases h with
  | idle => simp
  | refused hrequest => simp [hrequest]
  | last hrequest => simp [hrequest]
  | more hrequest => simp [hrequest]

theorem wanted_eq (h : Walks address remaining exchanges) :
    ∀ exchange ∈ exchanges, exchange.request.wanted = .all := by
  induction h with
  | idle => simp
  | refused hrequest => simp [hrequest]
  | last hrequest => simp [hrequest]
  | more hrequest _ _ _ _ _ ih => simpa [hrequest] using ih

/-- The walk never asks behind the end of what it wants. -/
theorem inside (h : Walks address remaining exchanges) :
    ∀ exchange ∈ exchanges, address.toNat ≤ exchange.request.address.toNat ∧
      exchange.request.address.toNat < address.toNat + remaining.toNat := by
  have hfirst {exchange : Exchange} {address : Address} {remaining : UInt64}
      (hrequest : exchange.request = ⟨address, .all⟩) (hwanted : remaining ≠ 0) :
      address.toNat ≤ exchange.request.address.toNat ∧
        exchange.request.address.toNat < address.toNat + remaining.toNat := by
    rw [hrequest]
    exact ⟨Nat.le_refl _, Nat.lt_add_of_pos_right (toNat_pos_of_ne_zero hwanted)⟩
  induction h with
  | idle => exact List.forall_mem_nil _
  | refused hrequest hwanted => exact List.forall_mem_singleton.mpr (hfirst hrequest hwanted)
  | last hrequest hwanted => exact List.forall_mem_singleton.mpr (hfirst hrequest hwanted)
  | @more exchange address next remaining region later hrequest hwanted hregion hmore hnext _ ih =>
    -- The region holds the address, so its end lies above the address, and no
    -- further above it than the region is long.
    have hmem := Span.mem_iff_toNat.mp (Exchange.mem_of_region? hregion)
    have hleft := UInt64.toNat_sub_of_le _ _ (UInt64.le_of_lt hmore)
    have hlt := UInt64.lt_iff_toNat_lt.mp hmore
    refine List.forall_mem_cons.mpr ⟨hfirst hrequest hwanted, ?_⟩
    intro other hother
    have hlater := ih other hother
    rw [hrequest] at hmem
    dsimp only at hmem
    omega

theorem increasing (h : Walks address remaining exchanges) :
    exchanges.Pairwise fun earlier later => earlier.request.address < later.request.address := by
  induction h with
  | idle => exact .nil
  | refused => exact List.pairwise_singleton _ _
  | last => exact List.pairwise_singleton _ _
  | more _ _ hregion _ hnext rest ih =>
    have hmem := Span.mem_iff_toNat.mp (Exchange.mem_of_region? hregion)
    refine List.pairwise_cons.mpr ⟨?_, ih⟩
    intro other hother
    have hlater := (rest.inside other hother).1
    rw [UInt64.lt_iff_toNat_lt]
    omega

/-- A request that is followed by another one brings a region, and the other one
is made at the end of it. -/
theorem chain (h : Walks address remaining exchanges) :
    exchanges.IsChain fun now next => ∃ region, now.region? = some region ∧
      next.request.address.toNat = region.span.start.toNat + region.span.length.toNat := by
  induction h with
  | idle => exact .nil
  | refused => exact .singleton _
  | last => exact .singleton _
  | more _ _ hregion _ hnext rest ih =>
    refine List.isChain_cons.mpr ⟨?_, ih⟩
    intro first hfirst
    refine ⟨_, hregion, ?_⟩
    rw [rest.head_eq first hfirst, hnext]

/-- A walk that is not refused ends when it has brought all that is wanted, or
at the end of the address space. -/
theorem ends (h : Walks address remaining exchanges) :
    ∀ final ∈ exchanges.getLast?, ∀ region ∈ final.region?,
      remaining.toNat ≤ granted exchanges ∨
        2 ^ 64 ≤ region.span.start.toNat + region.span.length.toNat := by
  induction h with
  | idle => simp
  | refused _ _ hrefused => simp [hrefused]
  | @last exchange _ _ region _ _ hregion hlast =>
    have hgranted : granted [exchange] = region.span.length.toNat :=
      granted_cons_of_region? hregion []
    simpa [hregion, hgranted, UInt64.le_iff_toNat_le] using hlast
  | @more exchange _ _ remaining region later _ _ hregion hmore _ rest ih =>
    intro final hfinal region' hregion'
    have hleft := UInt64.toNat_sub_of_le _ _ (UInt64.le_of_lt hmore)
    have hlt := UInt64.lt_iff_toNat_lt.mp hmore
    have hlater : later ≠ [] := by
      rw [Ne, rest.eq_nil_iff]
      intro hzero
      rw [hzero] at hleft
      change 0 = _ at hleft
      omega
    obtain ⟨second, others, rfl⟩ := List.exists_cons_of_ne_nil hlater
    rw [List.getLast?_cons_cons] at hfinal
    rw [granted_cons_of_region? hregion]
    exact (ih final hfinal region' hregion').imp_left fun hle => by omega

end Walks

variable {α : Type u}

theorem requests_note (fill : Fill α) {event : Event} (h : event.EndsFill) :
    requests (fill.note event).trace = requests fill.trace := by
  rw [note, requests, observe_push]
  cases h <;> exact List.append_nil _

theorem requests_keep (fill : Fill α) (region : Region) :
    requests (fill.keep region).trace = requests fill.trace := by
  rw [keep, requests, observe_push]
  exact List.append_nil _

variable [TranslationAgent α]

theorem requests_ask (fill : Fill α) (request : TranslationRequest) :
    requests (fill.ask request).2.trace = requests fill.trace ++ [request] :=
  (observe_append _ _).trans (congrArg _ (requests_reply _ request))

/-- Between two moments of a fill the agent was asked in these exchanges, and
their regions were kept. -/
structure Holds (before : Fill α) (exchanges : List Exchange) (after : Fill α) : Prop where
  conversation : Conversation before.agent exchanges after.agent
  regions : after.regions.toList =
    before.regions.toList ++ exchanges.filterMap Exchange.region?
  posted : after.posted.toList = before.posted.toList ++ exchanges.flatMap Exchange.posted
  requests : requests after.trace = requests before.trace ++ exchanges.map Exchange.request

namespace Holds

variable {before asked after : Fill α} {exchanges : List Exchange} {request : TranslationRequest}

theorem refl (fill : Fill α) : fill.Holds [] fill where
  conversation := .silent _
  regions := (List.append_nil _).symm
  posted := (List.append_nil _).symm
  requests := (List.append_nil _).symm

/-- A request whose answer makes no region ends the walk. -/
theorem refused {answer : Except Fault Translation} (hask : before.ask request = (answer, asked))
    (hrefused : (Exchange.of before.agent request).region? = none) {event : Event}
    (hends : event.EndsFill) : before.Holds [.of before.agent request] (asked.note event) := by
  obtain rfl : (before.ask request).2 = asked := congrArg Prod.snd hask
  refine ⟨.ask _ (.silent _), ?_, ?_, ?_⟩
  · rw [List.filterMap_cons_none hrefused]
    exact (List.append_nil _).symm
  · rw [List.flatMap_singleton]
    exact Array.toList_appendList
  · rw [requests_note _ hends, requests_ask]
    rfl

/-- The region of an answer is kept before the walk goes on. -/
theorem kept {answer : Except Fault Translation} (hask : before.ask request = (answer, asked))
    {region : Region} (hregion : (Exchange.of before.agent request).region? = some region)
    (h : (asked.keep region).Holds exchanges after) :
    before.Holds (.of before.agent request :: exchanges) after := by
  obtain rfl : (before.ask request).2 = asked := congrArg Prod.snd hask
  refine ⟨.ask _ h.conversation, ?_, ?_, ?_⟩
  · rw [h.regions, List.filterMap_cons_some hregion, keep, Array.toList_push, List.append_assoc]
    rfl
  · rw [h.posted, List.flatMap_cons, ← List.append_assoc]
    exact congrArg (· ++ _) Array.toList_appendList
  · rw [h.requests, requests_keep, requests_ask, List.append_assoc]
    rfl

end Holds

/-- A walk is a conversation that goes upwards from its address. -/
theorem exists_walks (fill : Fill α) (address : Address) (remaining : UInt64) :
    ∃ exchanges, fill.Holds exchanges (fill.walk address remaining) ∧
      Walks address remaining exchanges := by
  have hanswer {fill asked : Fill α} {address : Address} {answer : Except Fault Translation}
      (hask : fill.ask ⟨address, .all⟩ = (answer, asked)) :
      (Exchange.of fill.agent ⟨address, .all⟩).answer = answer :=
    congrArg Prod.fst hask
  fun_induction walk fill address remaining with
  | case1 fill address => exact ⟨[], .refl fill, .idle address⟩
  | case2 fill address remaining hwanted fault asked hask =>
    have hrefused := Exchange.region?_of_error (hanswer hask)
    exact ⟨_, .refused hask hrefused (.declined address fault), .refused rfl hwanted hrefused⟩
  | case3 fill address remaining hwanted answer asked hask hzero =>
    have hrefused := Exchange.region?_of_length_eq_zero (hanswer hask) hzero
    exact ⟨_, .refused hask hrefused (.unusable address), .refused rfl hwanted hrefused⟩
  | case4 fill address remaining hwanted answer asked hask hlength region kept hcovered =>
    have hregion := Exchange.region?_of_ok (hanswer hask) hlength
    exact ⟨_, .kept hask hregion (.refl _), .last rfl hwanted hregion (.inl hcovered)⟩
  | case5 fill address remaining hwanted answer asked hask hlength region kept hcovered hnext =>
    have hregion := Exchange.region?_of_ok (hanswer hask) hlength
    exact ⟨_, .kept hask hregion (.refl _),
      .last rfl hwanted hregion (.inr (addChecked?_eq_none_iff.mp hnext))⟩
  | case6 fill address remaining hwanted answer asked hask hlength region kept hcovered next hnext
      ih =>
    have hregion := Exchange.region?_of_ok (hanswer hask) hlength
    obtain ⟨exchanges, hholds, hwalks⟩ := ih
    exact ⟨_, .kept hask hregion hholds, .more rfl hwanted hregion (UInt64.not_le.mp hcovered)
      (toNat_of_addChecked?_eq_some hnext) hwalks⟩

/-- The exchanges go over the addresses from `start` up to `stop`, from region to
region. -/
structure Sweeps (start : Address) (stop : Nat) (exchanges : List Exchange) : Prop where
  /-- All permissions are asked for. -/
  wanted : ∀ exchange ∈ exchanges, exchange.request.wanted = .all
  /-- Nothing is asked only if there are no addresses. -/
  silent : exchanges = [] ↔ stop ≤ start.toNat
  first : ∀ exchange ∈ exchanges.head?, exchange.request.address = start
  increasing : exchanges.Pairwise fun earlier later =>
    earlier.request.address < later.request.address
  inside : ∀ exchange ∈ exchanges, start.toNat ≤ exchange.request.address.toNat ∧
    exchange.request.address.toNat < stop
  /-- A region holds the address that it was asked for. -/
  holds : ∀ exchange ∈ exchanges, ∀ region ∈ exchange.region?,
    exchange.request.address ∈ region.span
  /-- Only behind a region there is a next request. -/
  next : exchanges.IsChain fun now next => ∃ region, now.region? = some region ∧
    next.request.address.toNat = region.span.start.toNat + region.span.length.toNat
  /-- With a region for its last answer it ends only when enough was granted, a
  length being cut off at the end of the address space, or nothing comes behind. -/
  ends : ∀ final ∈ exchanges.getLast?, ∀ region ∈ final.region?,
    min (stop - start.toNat) (2 ^ 64 - 1) ≤ granted exchanges ∨
      2 ^ 64 ≤ region.span.start.toNat + region.span.length.toNat

end Fill

/-- Widened down to the granule, a range begins where its first granule does and
ends where it did, unless it was too long for a word. -/
theorem toNat_widened (range : Span) (granule : Granule) :
    (addSaturating range.length (granuleOffset range.start granule.bytes)).toNat =
      min (range.start.toNat + range.length.toNat -
        (alignDown range.start granule.bytes).toNat) (2 ^ 64 - 1) := by
  have hsplit := Nat.div_add_mod range.start.toNat granule.bytes.toNat
  rw [toNat_addSaturating, toNat_granuleOffset granule.isPowerOfTwo,
    toNat_alignDown granule.isPowerOfTwo]
  omega

namespace Worker

variable {α : Type u} {μ : Type v} [TranslationAgent α]

/-- Between two moments of a worker the agent was asked in these exchanges, and
what they brought was put behind what was there. -/
structure Holds (before : Worker α μ) (exchanges : List Exchange) (after : Worker α μ) : Prop where
  conversation : Conversation before.agent exchanges after.agent
  requests : requests after.trace = requests before.trace ++ exchanges.map Exchange.request
  cache : after.cache = before.cache.append (exchanges.filterMap Exchange.region?)
  waiting : after.notices.waiting = before.notices.waiting ++ exchanges.flatMap Exchange.posted

theorem exists_walks_fill (worker : Worker α μ) (range : Span) :
    ∃ exchanges, worker.Holds exchanges (worker.fill range).2 ∧
      Fill.Walks (alignDown range.start worker.granule.bytes)
        (addSaturating range.length (granuleOffset range.start worker.granule.bytes)) exchanges ∧
      (worker.fill range).1 = (exchanges.filterMap Exchange.region?).length := by
  obtain ⟨exchanges, hholds, hwalks⟩ := Fill.exists_walks { agent := worker.agent }
    (alignDown range.start worker.granule.bytes)
    (addSaturating range.length (granuleOffset range.start worker.granule.bytes))
  refine ⟨exchanges, ⟨hholds.conversation, ?_, ?_, ?_⟩, hwalks, ?_⟩
  · exact (observe_append _ _).trans (congrArg _ hholds.requests)
  · exact congrArg worker.cache.append hholds.regions
  · exact congrArg (worker.notices.waiting ++ ·) hholds.posted
  · exact congrArg List.length hholds.regions

/-- Whatever the agent answers, a fill asks it from the granule of the first
address upwards and never behind the range, adds the regions that the answers
make behind those that were cached, and counts them. -/
theorem exists_sweeps_fill (worker : Worker α μ) (range : Span) :
    ∃ exchanges,
      Conversation worker.agent exchanges (worker.fill range).2.agent ∧
      requests (worker.fill range).2.trace =
        requests worker.trace ++ exchanges.map Exchange.request ∧
      Fill.Sweeps (alignDown range.start worker.granule.bytes)
        (range.start.toNat + range.length.toNat) exchanges ∧
      (worker.fill range).2.cache.regions =
        worker.cache.regions ++ exchanges.filterMap Exchange.region? ∧
      (worker.fill range).2.notices.waiting =
        worker.notices.waiting ++ exchanges.flatMap Exchange.posted ∧
      (worker.fill range).1 = (exchanges.filterMap Exchange.region?).length := by
  obtain ⟨exchanges, hholds, hwalks, hadded⟩ := worker.exists_walks_fill range
  have hwidened := toNat_widened range worker.granule
  have hdown := UInt64.le_iff_toNat_le.mp (alignDown_le range.start worker.granule.bytes)
  refine ⟨exchanges, hholds.conversation, hholds.requests, ?_, congrArg Cache.regions hholds.cache,
    hholds.waiting, hadded⟩
  refine
    { wanted := hwalks.wanted_eq
      silent := ?_
      first := hwalks.head_eq
      increasing := hwalks.increasing
      inside := ?_
      holds := fun _ _ _ => Exchange.mem_of_region?
      next := hwalks.chain
      ends := ?_ }
  · rw [hwalks.eq_nil_iff, ← UInt64.toNat_inj, hwidened]
    change _ = 0 ↔ _
    omega
  · intro exchange hexchange
    have hinside := hwalks.inside exchange hexchange
    omega
  · intro final hfinal region hregion
    rw [← hwidened]
    exact hwalks.ends final hfinal region hregion

end Worker

end AtsEndpoint
