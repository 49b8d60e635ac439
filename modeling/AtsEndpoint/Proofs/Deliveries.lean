import Mathlib.Algebra.Ring.Nat
import AtsEndpoint.Proofs.Draining
import AtsEndpoint.Proofs.Dropping
import AtsEndpoint.Proofs.Halting

/-!
# The order of notices does not matter

Notices reach the cache in two ways: through the queue, by a drain, or past it. Which
of them drops a region depends on their order, but whether any of them does depends
on the region alone. So however the notices arrive and in whatever portions they are
applied, the cache ends up with the regions that none of them hits, in their old
order, and as many regions are dropped in total.

None of this would hold if a notice could be lost or applied twice. The notices that
have been applied and those that still wait are together the notices that came in.
-/

namespace AtsEndpoint

/-- What is done with notices. -/
inductive Delivery
  /-- A notice arrives in the queue. -/
  | send (notice : Notice)
  /-- Every waiting notice is applied. -/
  | drain
  /-- A notice is applied at once, past the queue. -/
  | handle (notice : Notice)

/-- The notices that come in. -/
def Delivery.received : Delivery → List Notice
  | send notice | handle notice => [notice]
  | drain => []

/-- The number of regions that an applied notice drops. -/
def Event.dropped? : Event → Option Nat
  | .noticeApplied _ removed => some removed
  | _ => none

/-- The numbers of regions dropped, one for each notice applied. -/
abbrev droppedCounts (trace : Trace) : List Nat :=
  observe Event.dropped? trace

theorem droppedCounts_append (first second : Trace) :
    droppedCounts (first ++ second) = droppedCounts first ++ droppedCounts second :=
  observe_append first second

namespace NoticeQueue

/-- Do one thing to the queue and the cache. -/
def deliver (queue : NoticeQueue) (cache : Cache) :
    Delivery → Step (NoticeQueue × Cache) Unit
  | .send notice =>
    { result := (), state := (queue.post [notice], cache), trace := #[.posted notice] }
  | .drain => (queue.drain cache).map fun _ => ()
  | .handle notice => (queue.handle cache notice).map fun _ => ()

/-- Do one thing after another. -/
def deliverAll (queue : NoticeQueue) (cache : Cache) :
    List Delivery → Step (NoticeQueue × Cache) Unit
  | [] => { result := (), state := (queue, cache) }
  | delivery :: rest =>
    (queue.deliver cache delivery).andThen fun _ state => state.1.deliverAll state.2 rest

/-! ## Counting what is dropped -/

/-- Each notice drops what it takes off the cache. -/
theorem sum_dropped_handleAll (queue : NoticeQueue) (cache : Cache) (trace : Trace)
    (notices : List Notice) :
    (droppedCounts (queue.handleAll cache trace notices).trace).sum +
        (remains cache notices).size =
      (droppedCounts trace).sum + cache.size := by
  induction notices generalizing queue cache trace with
  | nil => rfl
  | cons notice rest ih =>
      have hcount : droppedCounts (queue.handle cache notice).trace =
          [cache.size - (cache.without notice).size] := rfl
      have hshrinks := cache.size_without_le notice
      calc
        _ = (droppedCounts (trace ++ (queue.handle cache notice).trace)).sum +
            (cache.without notice).size := ih _ _ _
        _ = _ := by
          rw [droppedCounts_append, List.sum_append, hcount, List.sum_singleton]
          omega

theorem remains_append (cache : Cache) (first second : List Notice) :
    remains cache (first ++ second) = remains (remains cache first) second :=
  List.foldl_append

/-- The notices together act as one filter, in which their order does not show. -/
theorem regions_remains_eq_filter (cache : Cache) (notices : List Notice) :
    (remains cache notices).regions =
      cache.regions.filter fun region => ∀ notice ∈ notices, ¬ region.EndsIn notice := by
  rw [regions_remains]
  apply List.filter_congr
  intro region _
  rw [Bool.eq_iff_iff, decide_eq_true_eq, Bool.not_eq_true', List.any_eq_false]
  simp only [Region.hasBoundaryIn_iff_endsIn]

/-- The regions that some notice hits and those that are left make up the cache. -/
theorem countP_add_size_remains (cache : Cache) (notices : List Notice) :
    (cache.regions.countP fun region => ∃ notice ∈ notices, region.EndsIn notice) +
      (remains cache notices).size = cache.size := by
  rw [Cache.size, Cache.size, regions_remains_eq_filter]
  simpa using countP_add_length_filter_not cache.regions fun region =>
    ∃ notice ∈ notices, region.EndsIn notice

/-! ## Accounts of notices -/

/-- What is known of a step in which these notices came in: those applied and those
that wait were waiting before or came in, each of them once; those applied are
counted, and so are the regions that they drop. -/
structure Settles {ρ : Type} (queue : NoticeQueue) (cache : Cache) (received : List Notice)
    (step : Step (NoticeQueue × Cache) ρ) : Prop where
  perm : (appliedNotices step.trace ++ step.state.1.waiting).Perm (queue.waiting ++ received)
  applied : step.state.1.applied = queue.applied + (appliedNotices step.trace).length
  left : step.state.2 = remains cache (appliedNotices step.trace)
  dropped : (droppedCounts step.trace).sum + step.state.2.size = cache.size

variable {queue : NoticeQueue} {cache : Cache}

theorem settles_send (queue : NoticeQueue) (cache : Cache) (notice : Notice) :
    queue.Settles cache [notice] (queue.deliver cache (.send notice)) where
  perm := .refl _
  applied := rfl
  left := rfl
  dropped := Nat.zero_add _

theorem settles_drain (queue : NoticeQueue) (cache : Cache) :
    queue.Settles cache [] (queue.deliver cache .drain) := by
  have hstate : (queue.deliver cache .drain).state = _ := state_drain queue cache
  have happlied : appliedNotices (queue.deliver cache .drain).trace = queue.waiting :=
    applied_drain queue cache
  constructor
  · rw [happlied, hstate]
  · rw [happlied, hstate]
    rfl
  · rw [happlied, hstate]
  · rw [hstate]
    exact (sum_dropped_handleAll _ cache #[] queue.waiting).trans (Nat.zero_add _)

theorem settles_handle (queue : NoticeQueue) (cache : Cache) (notice : Notice) :
    queue.Settles cache [notice] (queue.deliver cache (.handle notice)) where
  perm := List.perm_append_comm
  applied := rfl
  left := rfl
  dropped := Nat.sub_add_cancel (cache.size_without_le notice)

/-- Accounts of two steps in a row make up one account. -/
theorem Settles.andThen {first second : List Notice} {step : Step (NoticeQueue × Cache) Unit}
    {next : NoticeQueue × Cache → Step (NoticeQueue × Cache) Unit}
    (hfirst : queue.Settles cache first step)
    (hnext : step.state.1.Settles step.state.2 second (next step.state)) :
    queue.Settles cache (first ++ second) (step.andThen fun _ state => next state) where
  perm := by
    rw [Step.trace_andThen, appliedNotices_append, List.append_assoc]
    calc
      _ = appliedNotices step.trace ++
          (appliedNotices (next step.state).trace ++ (next step.state).state.1.waiting) := rfl
      List.Perm _ (appliedNotices step.trace ++ (step.state.1.waiting ++ second)) :=
        hnext.perm.append_left _
      _ = (appliedNotices step.trace ++ step.state.1.waiting) ++ second :=
        (List.append_assoc _ _ _).symm
      List.Perm _ ((queue.waiting ++ first) ++ second) := hfirst.perm.append_right _
      _ = queue.waiting ++ (first ++ second) := List.append_assoc _ _ _
  applied := by
    rw [Step.trace_andThen, appliedNotices_append, List.length_append, ← Nat.add_assoc,
      ← hfirst.applied]
    exact hnext.applied
  left := by
    rw [Step.trace_andThen, appliedNotices_append, remains_append, ← hfirst.left]
    exact hnext.left
  dropped := by
    have hleft : _ + (next step.state).state.2.size = step.state.2.size := hnext.dropped
    rw [Step.trace_andThen, droppedCounts_append, List.sum_append, Step.state_andThen,
      Nat.add_assoc, hleft]
    exact hfirst.dropped

theorem settles_deliver (queue : NoticeQueue) (cache : Cache) (delivery : Delivery) :
    queue.Settles cache delivery.received (queue.deliver cache delivery) := by
  cases delivery with
  | send notice => exact queue.settles_send cache notice
  | drain => exact queue.settles_drain cache
  | handle notice => exact queue.settles_handle cache notice

theorem settles_deliverAll (queue : NoticeQueue) (cache : Cache) (deliveries : List Delivery) :
    queue.Settles cache (deliveries.flatMap Delivery.received)
      (queue.deliverAll cache deliveries) := by
  induction deliveries generalizing queue cache with
  | nil => exact ⟨by simp [deliverAll], rfl, rfl, Nat.zero_add _⟩
  | cons delivery rest ih =>
      have hrest (state : NoticeQueue × Cache) : state.1.Settles state.2 _ _ := ih state.1 state.2
      exact (queue.settles_deliver cache delivery).andThen (hrest _)

/-- As many regions are dropped as are hit by a notice that is applied. -/
theorem Settles.sum_dropped {ρ : Type} {received : List Notice}
    {step : Step (NoticeQueue × Cache) ρ} (h : queue.Settles cache received step) :
    (droppedCounts step.trace).sum =
      cache.regions.countP fun region =>
        ∃ notice ∈ appliedNotices step.trace, region.EndsIn notice := by
  have hdropped := h.dropped
  rw [h.left, ← countP_add_size_remains cache (appliedNotices step.trace)] at hdropped
  exact Nat.add_right_cancel hdropped

/-- Whatever is done with notices, and in whatever order: each notice that was
waiting or came in has been applied once or waits, and the counts agree. The cache
keeps the regions that no applied notice hits. Once no notice waits, as after a drain,
it has been put through one filter for all of them, and this does not depend on the
order in which they are listed. -/
theorem deliverAll_exact (queue : NoticeQueue) (cache : Cache) (deliveries : List Delivery) :
    let after := queue.deliverAll cache deliveries
    let received := deliveries.flatMap Delivery.received
    after.state.1.applied + after.state.1.pending =
        queue.applied + queue.pending + received.length ∧
      (appliedNotices after.trace ++ after.state.1.waiting).Perm (queue.waiting ++ received) ∧
      (after.state.2.regions = cache.regions.filter fun region =>
        ∀ notice ∈ appliedNotices after.trace, ¬ region.EndsIn notice) ∧
      (after.state.1.drain after.state.2).state.1.waiting = [] ∧
      ∀ notices : List Notice, after.state.1.waiting = [] →
          notices.Perm (queue.waiting ++ received) →
        (after.state.2.regions = cache.regions.filter fun region =>
          ∀ notice ∈ notices, ¬ region.EndsIn notice) ∧
        (droppedCounts after.trace).sum = cache.regions.countP fun region =>
          ∃ notice ∈ notices, region.EndsIn notice := by
  intro after received
  have hsettles : queue.Settles cache received after := queue.settles_deliverAll cache deliveries
  have hregions := regions_remains_eq_filter cache (appliedNotices after.trace)
  rw [← hsettles.left] at hregions
  refine ⟨?_, hsettles.perm, hregions, by rw [state_drain], fun notices hnone hnotices => ?_⟩
  · have hlength := hsettles.perm.length_eq
    rw [List.length_append, List.length_append] at hlength
    rw [hsettles.applied, pending, pending, Nat.add_assoc, hlength, Nat.add_assoc]
  · have hperm := hsettles.perm
    rw [hnone, List.append_nil] at hperm
    have hsame := hperm.trans hnotices.symm
    constructor
    · rw [hregions]
      simp only [hsame.mem_iff]
    · rw [hsettles.sum_dropped]
      simp only [hsame.mem_iff]

/-- Two notices, one of them for a range around the other one's, are drained in one
order, or taken in the other order, one of them past the queue. The first to come
drops the page; in the end the same regions are left, and as many are dropped. -/
theorem deliverAll_exact_swapped :
    let inner : Notice := ⟨0x1000, 0x1000⟩
    let outer : Notice := ⟨0, 0x200000⟩
    let queued := ({ waiting := [inner, outer] } : NoticeQueue).deliverAll .nested [.drain]
    let direct := ({} : NoticeQueue).deliverAll .nested [.handle outer, .send inner, .drain]
    droppedCounts queued.trace = [1, 1] ∧ droppedCounts direct.trace = [2, 0] ∧
      queued.state.2.regions = direct.state.2.regions ∧
      (droppedCounts queued.trace).sum = (droppedCounts direct.trace).sum := by
  intro inner outer queued direct
  have hqueued := (deliverAll_exact { waiting := [inner, outer] } .nested [.drain]).2.2.2.2
    [inner, outer] (by decide +kernel) (.refl _)
  have hdirect := (deliverAll_exact {} .nested [.handle outer, .send inner, .drain]).2.2.2.2
    [inner, outer] (by decide +kernel) (.swap outer inner [])
  exact ⟨by decide +kernel, by decide +kernel, hqueued.1.trans hdirect.1.symm,
    hqueued.2.trans hdirect.2.symm⟩

end NoticeQueue

end AtsEndpoint
