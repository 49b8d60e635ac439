import AtsEndpoint.Cache

/-!
# The notice queue

Notices wait in a queue in the order in which they arrive, until the endpoint
drains it. Draining applies every waiting notice to the cache. The queue counts
the notices it has applied, those handled directly included.
-/

namespace AtsEndpoint

/-- The notices that wait, and the number of those applied. -/
structure NoticeQueue where
  /-- The waiting notices, the oldest first. -/
  waiting : List Notice := []
  /-- The number of notices applied so far. -/
  applied : Nat := 0
deriving DecidableEq, Repr

namespace NoticeQueue

/-- The number of waiting notices. -/
def pending (queue : NoticeQueue) : Nat := queue.waiting.length

/-- Put notices behind those that wait. -/
def post (queue : NoticeQueue) (notices : List Notice) : NoticeQueue :=
  { queue with waiting := queue.waiting ++ notices }

@[simp] theorem waiting_post (queue : NoticeQueue) (notices : List Notice) :
    (queue.post notices).waiting = queue.waiting ++ notices := rfl
@[simp] theorem applied_post (queue : NoticeQueue) (notices : List Notice) :
    (queue.post notices).applied = queue.applied := rfl
@[simp] theorem post_nil (queue : NoticeQueue) : queue.post [] = queue := by
  simp [post]

/-- Apply one notice to the cache at once, and count the regions it drops. -/
def handle (queue : NoticeQueue) (cache : Cache) (notice : Notice) :
    Step (NoticeQueue × Cache) Nat :=
  let dropped := cache.invalidate notice
  { result := dropped.result
    state := ({ queue with applied := queue.applied + 1 }, dropped.state)
    trace := dropped.trace.push (.noticeApplied notice dropped.result) }

@[simp] theorem state_handle (queue : NoticeQueue) (cache : Cache) (notice : Notice) :
    (queue.handle cache notice).state =
      ({ queue with applied := queue.applied + 1 }, cache.without notice) := rfl

/-- Apply notices to the cache one after another. -/
def handleAll (queue : NoticeQueue) (cache : Cache) (trace : Trace) :
    List Notice → Step (NoticeQueue × Cache) Unit
  | [] => { result := (), state := (queue, cache), trace }
  | notice :: rest =>
    let step := queue.handle cache notice
    handleAll step.state.1 step.state.2 (trace ++ step.trace) rest

/-- Apply every waiting notice in the order of arrival, and count them. -/
def drain (queue : NoticeQueue) (cache : Cache) : Step (NoticeQueue × Cache) Nat :=
  (handleAll { queue with waiting := [] } cache #[] queue.waiting).map fun _ => queue.pending

/-- The cache that the notices leave, taken in order. -/
def remains (cache : Cache) (notices : List Notice) : Cache :=
  notices.foldl Cache.without cache

theorem state_handleAll (queue : NoticeQueue) (cache : Cache) (trace : Trace)
    (notices : List Notice) :
    (handleAll queue cache trace notices).state =
      ({ queue with applied := queue.applied + notices.length }, remains cache notices) := by
  induction notices generalizing queue cache trace with
  | nil => rfl
  | cons notice rest ih =>
    rw [handleAll, ih]
    simp [remains, Nat.add_comm, Nat.add_left_comm]

/-- Draining leaves no notice waiting, counts each of them, and leaves the
cache that the notices leave. -/
@[simp] theorem state_drain (queue : NoticeQueue) (cache : Cache) :
    (queue.drain cache).state =
      ({ waiting := [], applied := queue.applied + queue.pending },
        remains cache queue.waiting) := by
  rw [drain, Step.state_map, state_handleAll]
  rfl

@[simp] theorem result_drain (queue : NoticeQueue) (cache : Cache) :
    (queue.drain cache).result = queue.pending := rfl

end NoticeQueue

end AtsEndpoint
