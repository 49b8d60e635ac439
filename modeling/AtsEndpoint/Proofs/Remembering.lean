import Mathlib.Data.List.Induction
import AtsEndpoint.Proofs.Atomicity

/-!
# What a memory remembers

A host memory is an array of bytes with bounds. An access succeeds when all of its
bytes lie inside the bounds, compared as natural numbers that never wrap; otherwise
it names the address it was for and changes nothing. After any accesses each byte is
the one that was stored there last, or the one that the memory began with, and a read
gives such bytes in a row. The counters tell how many reads and writes have succeeded.
-/

namespace AtsEndpoint.HostMemory

/-- An access to the memory: by the endpoint, which is counted, or by the host. -/
inductive Access
  /-- The endpoint reads. -/
  | read (physical : Address) (count : Nat)
  /-- The endpoint writes. -/
  | write (physical : Address) (bytes : List UInt8)
  /-- The host looks at bytes. -/
  | peek (physical : Address) (count : Nat)
  /-- The host stores bytes. -/
  | poke (physical : Address) (bytes : List UInt8)

namespace Access

/-- The address of the first byte. -/
def physical : Access → Address
  | read physical _ | write physical _ | peek physical _ | poke physical _ => physical

/-- The number of bytes that are asked for. -/
def asked : Access → Nat
  | read _ count | peek _ count => count
  | write _ _ | poke _ _ => 0

/-- The bytes to be stored. -/
def stored : Access → List UInt8
  | write _ bytes | poke _ bytes => bytes
  | read _ _ | peek _ _ => []

/-- The number of bytes that the access is about. -/
def length : Access → Nat
  | read _ count | peek _ count => count
  | write _ bytes | poke _ bytes => bytes.length

def isRead : Access → Bool
  | read _ _ => true
  | _ => false

def isWrite : Access → Bool
  | write _ _ => true
  | _ => false

/-- All bytes of the access lie in a memory of this base and size. -/
def Fits (access : Access) (base : Address) (size : Nat) : Prop :=
  base.toNat ≤ access.physical.toNat ∧
    access.physical.toNat - base.toNat + access.length ≤ size

instance (access : Access) (base : Address) (size : Nat) : Decidable (access.Fits base size) :=
  inferInstanceAs (Decidable (_ ∧ _))

/-- The access is a read by the endpoint, and it fits. -/
def isReadIn (access : Access) (base : Address) (size : Nat) : Bool :=
  access.isRead && decide (access.Fits base size)

/-- The access is a write by the endpoint, and it fits. -/
def isWriteIn (access : Access) (base : Address) (size : Nat) : Bool :=
  access.isWrite && decide (access.Fits base size)

/-- Why a memory at this base refuses the access. -/
def refusal (access : Access) (base : Address) : Fault :=
  .transport access.physical
    (if access.physical < base then .belowMemory else .pastEnd access.length)

/-- The byte that the access stores at a position, if it fits into the memory. -/
def byteFor? (access : Access) (base : Address) (size : Nat) (position : Nat) : Option UInt8 :=
  if access.Fits base size ∧ access.physical.toNat ≤ position then
    access.stored[position - access.physical.toNat]?
  else none

end Access

/-- The byte stored at a position by the latest access that has stored one there, or
the initial byte. -/
def lastStored (initial : Nat → UInt8) (base : Address) (size : Nat) (history : List Access)
    (position : Nat) : UInt8 :=
  (history.reverse.findSome? fun access => access.byteFor? base size position).getD
    (initial position)

/-- The byte at a position of a memory that begins with some bytes and is zero behind them. -/
def initialByte (base : Address) (contents : ByteArray) (position : Nat) : UInt8 :=
  contents.data[position - base.toNat]?.getD 0

/-- Make an access. -/
def serve (memory : HostMemory) : Access → Except Fault (List UInt8) × HostMemory
  | .read physical count =>
    let reply := PhysicalMemory.read memory physical count
    (reply.answer.map fun bytes => bytes.val.toList, reply.memory)
  | .write physical bytes =>
    let reply := PhysicalMemory.write memory physical bytes
    (reply.answer.map fun _ => [], reply.memory)
  | .peek physical count =>
    ((memory.peek physical count).map fun bytes => bytes.val.toList, memory)
  | .poke physical bytes =>
    match memory.poke physical bytes with
    | .error fault => (.error fault, memory)
    | .ok after => (.ok [], after)

/-- Make one access after another. -/
def serveAll (memory : HostMemory) (history : List Access) : HostMemory :=
  history.foldl (fun memory access => (memory.serve access).2) memory

/-- What an access makes of the memory. One that does not fit makes nothing of it. -/
structure Served (memory : HostMemory) (access : Access) (after : HostMemory) : Prop where
  base : after.base = memory.base
  size : after.size = memory.size
  reads : after.reads =
    memory.reads + if access.isReadIn memory.base memory.size then 1 else 0
  writes : after.writes =
    memory.writes + if access.isWriteIn memory.base memory.size then 1 else 0
  byteAt : ∀ offset, after.byteAt offset =
    (access.byteFor? memory.base memory.size (memory.base.toNat + offset)).getD
      (memory.byteAt offset)

/-- What a memory is after a history of accesses. -/
structure Remembers (initial : Nat → UInt8) (base : Address) (size : Nat) (history : List Access)
    (memory : HostMemory) : Prop where
  base_eq : memory.base = base
  size_eq : memory.size = size
  /-- The reads that fitted are counted. -/
  reads : memory.reads = history.countP fun access => access.isReadIn base size
  /-- The writes that fitted are counted. -/
  writes : memory.writes = history.countP fun access => access.isWriteIn base size
  /-- Each byte is the one that was stored there last. -/
  byteAt : ∀ offset,
    memory.byteAt offset = lastStored initial base size history (base.toNat + offset)

variable {memory after : HostMemory} {access : Access} {history : List Access}
variable {initial : Nat → UInt8} {base : Address} {size : Nat}

theorem toList_slice (memory : HostMemory) (start count : Nat) :
    (memory.slice start count).val.toList =
      (List.range count).map fun i => memory.byteAt (start + i) := by
  rw [toList_eq_toList_data, data_slice, List.range'_eq_map_range, List.map_map]
  rfl

/-! ## One access -/

theorem fits_iff_covers :
    access.Fits memory.base memory.size ↔ memory.Covers access.physical access.length :=
  and_congr_left fun _ => UInt64.le_iff_toNat_le.symm

/-- An access that does not fit is refused. -/
theorem locate_of_not_fits (h : ¬ access.Fits memory.base memory.size) :
    memory.locate access.physical access.length = .error (access.refusal memory.base) := by
  unfold locate Access.refusal
  split
  · rfl
  next hbase =>
    have hbase := UInt64.not_lt.mp hbase
    apply if_neg
    rw [UInt64.toNat_sub_of_le _ _ hbase]
    exact fun hsize => h ⟨UInt64.le_iff_toNat_le.mp hbase, hsize⟩

theorem peek_of_locate_error {physical : Address} {count : Nat} {fault : Fault}
    (h : memory.locate physical count = .error fault) :
    memory.peek physical count = .error fault := by
  rw [peek, h]

/-- An access that does not fit changes nothing. -/
theorem serve_of_not_fits (h : ¬ access.Fits memory.base memory.size) :
    memory.serve access = (.error (access.refusal memory.base), memory) := by
  have hlocate := locate_of_not_fits h
  cases access with
  | read physical count =>
      change memory.locate physical count = _ at hlocate
      simp only [serve, PhysicalMemory.read, peek_of_locate_error hlocate]
      rfl
  | write physical bytes =>
      change memory.locate physical bytes.length = _ at hlocate
      simp only [serve, PhysicalMemory.write, poke_of_locate_error hlocate]
      rfl
  | peek physical count =>
      change memory.locate physical count = _ at hlocate
      simp only [serve, peek_of_locate_error hlocate]
      rfl
  | poke physical bytes =>
      change memory.locate physical bytes.length = _ at hlocate
      simp only [serve, poke_of_locate_error hlocate]

theorem byteFor?_of_not_fits (h : ¬ access.Fits base size) (position : Nat) :
    access.byteFor? base size position = none :=
  if_neg fun hfits => h hfits.1

/-- An access with nothing to store stores no byte. -/
theorem byteFor?_of_stored_nil (h : access.stored = []) (position : Nat) :
    access.byteFor? base size position = none := by
  unfold Access.byteFor?
  rw [h]
  exact ite_self _

theorem isReadIn_of_not_fits (h : ¬ access.Fits base size) :
    access.isReadIn base size = false := by
  rw [Access.isReadIn, decide_eq_false h, Bool.and_false]

theorem isWriteIn_of_not_fits (h : ¬ access.Fits base size) :
    access.isWriteIn base size = false := by
  rw [Access.isWriteIn, decide_eq_false h, Bool.and_false]

/-- Where the bytes of an access have been stored, they are what the access has for a
position, and the other bytes are as before. -/
theorem byteAt_store_eq_getD (h : access.Fits memory.base memory.size)
    (hroom : access.physical.toNat - memory.base.toNat + access.stored.length ≤ memory.size)
    (offset : Nat) :
    (memory.store (access.physical.toNat - memory.base.toNat) access.stored hroom).byteAt offset =
      (access.byteFor? memory.base memory.size (memory.base.toNat + offset)).getD
        (memory.byteAt offset) := by
  have hbase := h.1
  rw [byteAt_store, Access.byteFor?]
  -- Offsets count from the base of the memory, the positions of an access from zero.
  by_cases hbehind : access.physical.toNat - memory.base.toNat ≤ offset
  · have hsub : memory.base.toNat + offset - access.physical.toNat =
        offset - (access.physical.toNat - memory.base.toNat) := by omega
    have hfrom : access.physical.toNat ≤ memory.base.toNat + offset := by omega
    rw [if_pos (And.intro h hfrom), hsub]
    by_cases hinside : offset - (access.physical.toNat - memory.base.toNat) < access.stored.length
    · rw [if_pos ⟨hbehind, by omega⟩, List.getElem?_eq_getElem hinside]
      rfl
    · rw [if_neg (by omega), List.getElem?_eq_none (Nat.not_lt.mp hinside)]
      rfl
  · rw [if_neg fun hinside => hbehind hinside.1, if_neg (by omega)]
    rfl

/-- An access that does not fit makes nothing of the memory. -/
theorem Served.of_not_fits (h : ¬ access.Fits memory.base memory.size) :
    memory.Served access memory where
  base := rfl
  size := rfl
  reads := by rw [isReadIn_of_not_fits h]; rfl
  writes := by rw [isWriteIn_of_not_fits h]; rfl
  byteAt _ := by rw [byteFor?_of_not_fits h]; rfl

/-- An access that fits gives the bytes that it asks for. -/
theorem serve_of_fits (h : access.Fits memory.base memory.size) :
    (memory.serve access).1 = .ok ((List.range access.asked).map fun i =>
        memory.byteAt (access.physical.toNat - memory.base.toNat + i)) ∧
      memory.Served access (memory.serve access).2 := by
  have hcovers := fits_iff_covers.mp h
  have hfits : decide (access.Fits memory.base memory.size) = true := decide_eq_true h
  cases access with
  | read physical count =>
      have hpeek : memory.peek physical count = _ := peek_of_covers hcovers
      simp only [serve, PhysicalMemory.read, hpeek]
      refine ⟨congrArg Except.ok (memory.toList_slice _ _), rfl, rfl, ?_, rfl, ?_⟩
      · rw [Access.isReadIn, hfits]
        rfl
      · intro offset
        rw [byteFor?_of_stored_nil rfl]
        rfl
  | write physical bytes =>
      have hpoke : memory.poke physical bytes = _ := poke_of_locate (locate_of_covers hcovers)
      simp only [serve, PhysicalMemory.write, hpoke]
      refine ⟨rfl, rfl, rfl, rfl, ?_, byteAt_store_eq_getD h h.2⟩
      rw [Access.isWriteIn, hfits]
      rfl
  | peek physical count =>
      have hpeek : memory.peek physical count = _ := peek_of_covers hcovers
      simp only [serve, hpeek]
      refine ⟨congrArg Except.ok (memory.toList_slice _ _), rfl, rfl, rfl, rfl, ?_⟩
      intro offset
      rw [byteFor?_of_stored_nil rfl]
      rfl
  | poke physical bytes =>
      have hpoke : memory.poke physical bytes = _ := poke_of_locate (locate_of_covers hcovers)
      simp only [serve, hpoke]
      exact ⟨rfl, rfl, rfl, rfl, rfl, byteAt_store_eq_getD h h.2⟩

theorem served (memory : HostMemory) (access : Access) :
    memory.Served access (memory.serve access).2 := by
  by_cases h : access.Fits memory.base memory.size
  · exact (serve_of_fits h).2
  · rw [serve_of_not_fits h]
    exact .of_not_fits h

/-- An access stores nothing outside its range. -/
theorem byteFor?_of_outside {position : Nat}
    (h : position < access.physical.toNat ∨
      access.physical.toNat + access.stored.length ≤ position) :
    access.byteFor? base size position = none := by
  unfold Access.byteFor?
  split
  · apply List.getElem?_eq_none
    omega
  · rfl

theorem Served.byte?_of_outside (hserved : memory.Served access after) {position : Nat}
    (h : position < access.physical.toNat ∨
      access.physical.toNat + access.stored.length ≤ position) :
    after.byte? position = memory.byte? position := by
  unfold byte?
  rw [hserved.base, hserved.size]
  split
  next hheld =>
    rw [hserved.byteAt, Nat.add_sub_cancel' hheld.1, byteFor?_of_outside h]
    rfl
  next => rfl

/-! ## A history -/

theorem lastStored_append (initial : Nat → UInt8) (base : Address) (size : Nat)
    (history : List Access) (access : Access) (position : Nat) :
    lastStored initial base size (history ++ [access]) position =
      (access.byteFor? base size position).getD
        (lastStored initial base size history position) := by
  unfold lastStored
  rw [List.reverse_append, List.reverse_singleton, List.singleton_append, List.findSome?_cons]
  cases access.byteFor? base size position <;> rfl

/-- A memory remembers one more access. -/
theorem Remembers.next (h : memory.Remembers initial base size history)
    (hserved : memory.Served access after) :
    after.Remembers initial base size (history ++ [access]) where
  base_eq := hserved.base.trans h.base_eq
  size_eq := hserved.size.trans h.size_eq
  reads := by
    rw [hserved.reads, h.base_eq, h.size_eq, h.reads, List.countP_append, List.countP_singleton]
  writes := by
    rw [hserved.writes, h.base_eq, h.size_eq, h.writes, List.countP_append, List.countP_singleton]
  byteAt offset := by
    rw [hserved.byteAt, h.base_eq, h.size_eq, h.byteAt, lastStored_append]

/-- What fits is answered with the last bytes stored. -/
theorem Remembers.serve_of_fits (h : memory.Remembers initial base size history)
    (hfits : access.Fits base size) :
    (memory.serve access).1 = .ok ((List.range access.asked).map fun i =>
      lastStored initial base size history (access.physical.toNat + i)) := by
  have hbase := hfits.1
  obtain rfl := h.base_eq
  obtain rfl := h.size_eq
  have hanswer := (HostMemory.serve_of_fits hfits).1
  have hbytes (i : Nat) : memory.byteAt (access.physical.toNat - memory.base.toNat + i) =
      lastStored initial memory.base memory.size history (access.physical.toNat + i) := by
    rw [h.byteAt, ← Nat.add_assoc, Nat.add_sub_cancel' hbase]
  simpa only [hbytes] using hanswer

theorem Remembers.serve_of_not_fits (h : memory.Remembers initial base size history)
    (hfits : ¬ access.Fits base size) :
    memory.serve access = (.error (access.refusal base), memory) := by
  obtain rfl := h.base_eq
  obtain rfl := h.size_eq
  exact HostMemory.serve_of_not_fits hfits

theorem remembers_ofBytes (base : Address) (contents : ByteArray) (size : Nat) :
    (ofBytes base contents size).Remembers (initialByte base contents) base
      (max size contents.size) [] where
  base_eq := rfl
  size_eq := rfl
  reads := rfl
  writes := rfl
  byteAt offset := by
    change _ = contents.data[base.toNat + offset - base.toNat]?.getD 0
    rw [byteAt_eq_getD, Nat.add_sub_cancel_left]
    rfl

theorem serveAll_append (memory : HostMemory) (history : List Access) (access : Access) :
    memory.serveAll (history ++ [access]) = ((memory.serveAll history).serve access).2 :=
  List.foldl_append

theorem remembers_serveAll (base : Address) (contents : ByteArray) (size : Nat)
    (history : List Access) :
    ((ofBytes base contents size).serveAll history).Remembers (initialByte base contents) base
      (max size contents.size) history := by
  -- The history is taken apart at its end: the last access is made in the memory that
  -- remembers those before it.
  induction history using List.reverseRecOn with
  | nil => exact remembers_ofBytes base contents size
  | append_singleton history access ih =>
      rw [serveAll_append]
      exact ih.next (served _ access)

/-- Let a memory begin with some bytes and be filled up with zeros, and let any accesses be
made. Then its bytes are the last ones stored, and the reads and the writes that fitted are
counted. A further access succeeds when it fits, and gives the last bytes stored; else it is
refused for its address and nothing changes. No access changes a byte outside its range. -/
theorem serve_exact (base : Address) (contents : ByteArray) (size : Nat)
    (history : List Access) (access : Access) :
    let memory := (ofBytes base contents size).serveAll history
    let total := max size contents.size
    memory.Remembers (initialByte base contents) base total history ∧
      ((memory.serve access).1 = if access.Fits base total then
          .ok ((List.range access.asked).map fun i =>
            lastStored (initialByte base contents) base total history (access.physical.toNat + i))
        else .error (access.refusal base)) ∧
      (¬ access.Fits base total → (memory.serve access).2 = memory) ∧
      ∀ position, position < access.physical.toNat ∨
          access.physical.toNat + access.stored.length ≤ position →
        (memory.serve access).2.byte? position = memory.byte? position := by
  intro memory total
  have hremembers : memory.Remembers (initialByte base contents) base total history :=
    remembers_serveAll base contents size history
  refine ⟨hremembers, ?_, ?_, fun _ => (memory.served access).byte?_of_outside⟩
  · split
    next hfits => exact hremembers.serve_of_fits hfits
    next hfits => rw [hremembers.serve_of_not_fits hfits]
  · intro hfits
    rw [hremembers.serve_of_not_fits hfits]

/-- A memory at the top of the address space. Of overlapping writes the later one counts, and
a write past the last address is refused. -/
theorem serve_exact_topmost :
    let history : List Access := [.write 0xfffffffffffffff1 [0xaa, 0xbb],
      .poke 0xfffffffffffffff2 [0xcc, 0xdd], .write 0xffffffffffffffff [0xee, 0xff],
      .read 0xffffffffffffffff 0]
    let memory := (ofBytes 0xfffffffffffffff0 ⟨#[1, 2, 3]⟩ 16).serveAll history
    (memory.serve (.peek 0xfffffffffffffff0 6)).1 = .ok [1, 0xaa, 0xcc, 0xdd, 0, 0] ∧
      memory.reads = 1 ∧ memory.writes = 1 ∧
      memory.serve (.read 0xffffffffffffffff 2) =
        (.error (.transport 0xffffffffffffffff (.pastEnd 2)), memory) ∧
      (memory.serve (.write 0xfffffffffffffff1 [7])).2.byte? 0xfffffffffffffff2 =
        memory.byte? 0xfffffffffffffff2 := by
  intro history memory
  obtain ⟨hremembers, hpeek, _⟩ := serve_exact 0xfffffffffffffff0 ⟨#[1, 2, 3]⟩ 16 history
    (.peek 0xfffffffffffffff0 6)
  obtain ⟨_, hread, hunchanged, _⟩ := serve_exact 0xfffffffffffffff0 ⟨#[1, 2, 3]⟩ 16 history
    (.read 0xffffffffffffffff 2)
  obtain ⟨_, _, _, houtside⟩ := serve_exact 0xfffffffffffffff0 ⟨#[1, 2, 3]⟩ 16 history
    (.write 0xfffffffffffffff1 [7])
  refine ⟨hpeek.trans ?_, hremembers.reads.trans (by decide), hremembers.writes.trans (by decide),
    Prod.ext (hread.trans ?_) (hunchanged (by decide)), houtside _ (by decide)⟩
  · rw [if_pos (by decide)]
    exact congrArg Except.ok (by decide)
  · rw [if_neg (by decide)]
    rfl

end AtsEndpoint.HostMemory
