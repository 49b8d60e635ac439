import Mathlib.Algebra.Group.Nat.Defs
import AtsEndpoint.Memory.Host

/-!
# Reading byte by byte

A read of several bytes either lies inside the memory or is refused as a whole.
It is served exactly when each of its bytes would be served alone, and then it
gives these bytes in a row. So a reader that takes large pieces sees the same
memory as one that takes single bytes; only the fault of a refused read names
another place.
-/

namespace AtsEndpoint.HostMemory

variable (memory : HostMemory)

/-- The bytes of a slice, in the view of all bytes alike. -/
theorem data_slice (start count : Nat) : (memory.slice start count).val.data =
    ((List.range' start count).map memory.byteAt).toArray := by
  have hsize : (memory.slice start count).val.data.size = count :=
    (memory.slice start count).property
  apply Array.ext
  · simpa using hsize
  · intro i hleft hright
    have hi : i < count := hsize ▸ hleft
    simp only [slice, padBytes, ByteArray.data_append, ByteArray.data_extract, data_zeroBytes,
      Array.getElem_append, Array.getElem_extract, Array.getElem_replicate, List.getElem_toArray,
      List.getElem_map, List.getElem_range', byteAt]
    have hinside : i < (memory.stored.data.extract start (start + count)).size ↔
        start + 1 * i < memory.stored.size := by
      rw [Array.size_extract, ByteArray.size_data]
      omega
    by_cases hstored : start + 1 * i < memory.stored.size
    · rw [dif_pos (hinside.mpr hstored), dif_pos hstored, ByteArray.getElem_eq_getElem_data]
      congr 2
      omega
    · rw [dif_neg (mt hinside.mp hstored), dif_neg hstored]

/-- Two slices in a row are one slice. -/
theorem slice_add (start count more : Nat) : (memory.slice start (count + more)).val =
    (memory.slice start count).val ++ (memory.slice (start + count) more).val := by
  apply ByteArray.ext
  rw [ByteArray.data_append, data_slice, data_slice, data_slice, ← List.range'_append_1,
    List.map_append, List.append_toArray]

/-- A slice begins with its first byte. -/
theorem slice_succ (start count : Nat) : (memory.slice start (count + 1)).val =
    (memory.slice start 1).val ++ (memory.slice (start + 1) count).val := by
  rw [Nat.add_comm count 1, slice_add]

/-- Bytes that are enough already are not filled up. -/
theorem padBytes_eq_self {bytes : ByteArray} {size : Nat} (h : size ≤ bytes.size) :
    padBytes bytes size = bytes := by
  rw [padBytes, Nat.sub_eq_zero_of_le h, zeroBytes, if_pos rfl, ByteArray.append_empty]

/-- Memory that begins with some bytes gives them back. -/
theorem slice_ofBytes (base : Address) (bytes : ByteArray) (size : Nat) :
    ((ofBytes base bytes size).slice 0 bytes.size).val = bytes := by
  have hall : bytes.extract 0 bytes.size = bytes := ByteArray.extract_zero_size
  simp only [slice, ofBytes, Nat.zero_add, hall]
  exact padBytes_eq_self (Nat.le_refl _)

/-! ## The bytes after a write -/

theorem getElem?_data_padBytes (bytes : ByteArray) (size i : Nat) :
    (padBytes bytes size).data[i]?.getD 0 = bytes.data[i]?.getD 0 := by
  simp only [padBytes, ByteArray.data_append, data_zeroBytes, Array.getElem?_append,
    Array.getElem?_replicate]
  split
  · rfl
  next h =>
    rw [Array.getElem?_eq_none (Nat.not_lt.mp h)]
    split <;> rfl

theorem getElem?_data_spliceBytes {contents : ByteArray} {start : Nat} {bytes : List UInt8}
    (h : start + bytes.length ≤ contents.size) (i : Nat) :
    (spliceBytes contents start bytes).data[i]? =
      if start ≤ i ∧ i < start + bytes.length then bytes[i - start]? else contents.data[i]? := by
  induction bytes generalizing contents start with
  | nil =>
      rw [spliceBytes, if_neg]
      rintro ⟨hle, hlt⟩
      exact Nat.not_lt.mpr hle hlt
  | cons byte rest ih =>
      rw [List.length_cons] at h
      have hroom : start + 1 + rest.length ≤ (contents.set! start byte).size := by
        have hsize : (contents.set! start byte).size = contents.size := Array.size_setIfInBounds
        omega
      have hset : (contents.set! start byte).data = contents.data.setIfInBounds start byte := rfl
      have hstart : start < contents.data.size := by
        rw [ByteArray.size_data]
        omega
      rw [spliceBytes, ih hroom, hset, Array.getElem?_setIfInBounds, List.length_cons]
      rcases Nat.lt_trichotomy i start with hbefore | rfl | hbehind
      · rw [if_neg (by omega), if_neg (by omega), if_neg (by omega)]
      · rw [if_neg (by omega), if_pos rfl, if_pos hstart, if_pos (by omega), Nat.sub_self]
        rfl
      · have hstep : i - start = i - (start + 1) + 1 := by omega
        have hrange : (start + 1 ≤ i ∧ i < start + 1 + rest.length) ↔
            (start ≤ i ∧ i < start + (rest.length + 1)) := by omega
        rw [hstep, List.getElem?_cons_succ, if_neg (Nat.ne_of_lt hbehind)]
        simp only [hrange]

theorem byteAt_eq_getD (memory : HostMemory) (position : Nat) :
    memory.byteAt position = memory.stored.data[position]?.getD 0 := by
  unfold byteAt
  split
  next h => rw [Array.getElem?_eq_getElem h]; rfl
  next h => rw [Array.getElem?_eq_none (Nat.not_lt.mp h)]; rfl

/-- A write changes the bytes it is given, and no other. -/
theorem byteAt_store (memory : HostMemory) {start : Nat} {bytes : List UInt8}
    (h : start + bytes.length ≤ memory.size) (position : Nat) :
    (memory.store start bytes h).byteAt position =
      if start ≤ position ∧ position < start + bytes.length then bytes[position - start]?.getD 0
      else memory.byteAt position := by
  have hroom : start + bytes.length ≤ (padBytes memory.stored (start + bytes.length)).size := by
    rw [size_padBytes]
    exact Nat.le_max_right _ _
  rw [byteAt_eq_getD, byteAt_eq_getD, store, getElem?_data_spliceBytes hroom]
  split
  · rfl
  · exact getElem?_data_padBytes _ _ _

/-- Bytes that replace some of those stored are stored in their place. -/
theorem store_ofBytes {base : Address} {contents : ByteArray} {size start : Nat}
    {bytes : List UInt8} (h : start + bytes.length ≤ (ofBytes base contents size).size)
    (hroom : start + bytes.length ≤ contents.size) :
    (ofBytes base contents size).store start bytes h =
      ofBytes base (spliceBytes contents start bytes) size := by
  simp only [store, ofBytes, padBytes_eq_self hroom, size_spliceBytes]

theorem toList_eq_toList_data (bytes : ByteArray) : bytes.toList = bytes.data.toList := by
  have hloop (i : Nat) (taken : List UInt8) :
      ByteArray.toList.loop bytes i taken = taken.reverse ++ bytes.data.toList.drop i := by
    fun_induction ByteArray.toList.loop bytes i taken with
    | case1 i taken hlt ih =>
        have hnext : bytes.data.toList.drop i = bytes.get! i :: bytes.data.toList.drop (i + 1) := by
          rw [List.drop_eq_getElem_cons (by simpa using hlt), Array.getElem_toList]
          exact congrArg (· :: _) (getElem!_pos bytes.data i hlt).symm
        rw [ih, hnext, List.reverse_cons, List.append_assoc]
        rfl
    | case2 i taken hge =>
        rw [List.drop_eq_nil_of_le (by simpa using hge), List.append_nil]
  exact hloop 0 []

/-- Bytes that are put into others can be read there. -/
theorem slice_spliceBytes {base : Address} {contents : ByteArray} {size start : Nat}
    {bytes : List UInt8} (hroom : start + bytes.length ≤ contents.size) :
    ((ofBytes base (spliceBytes contents start bytes) size).slice start bytes.length).val.toList =
      bytes := by
  rw [toList_eq_toList_data, data_slice]
  apply List.ext_getElem?
  intro i
  rw [List.getElem?_map]
  by_cases hi : i < bytes.length
  · have hinside : start ≤ start + 1 * i ∧ start + 1 * i < start + bytes.length := by omega
    have hoffset : start + 1 * i - start = i := by omega
    rw [List.getElem?_range' hi, Option.map_some, byteAt_eq_getD]
    change some ((spliceBytes contents start bytes).data[start + 1 * i]?.getD 0) = _
    rw [getElem?_data_spliceBytes hroom, if_pos hinside, hoffset, List.getElem?_eq_getElem hi]
    rfl
  · have hbehind := Nat.not_lt.mp hi
    rw [List.getElem?_eq_none (by simpa using hbehind), List.getElem?_eq_none hbehind]
    rfl

/-- The memory has all bytes of an access. -/
def Covers (physical : Address) (count : Nat) : Prop :=
  memory.base ≤ physical ∧ physical.toNat - memory.base.toNat + count ≤ memory.size

variable {memory} {physical : Address} {count : Nat}

theorem locate_of_covers (h : memory.Covers physical count) :
    memory.locate physical count = .ok (physical.toNat - memory.base.toNat) := by
  obtain ⟨hbase, hsize⟩ := h
  rw [locate, if_neg (UInt64.not_lt.mpr hbase), UInt64.toNat_sub_of_le _ _ hbase]
  exact if_pos hsize

/-- An access that the memory does not have all bytes of is refused. -/
theorem locate_of_not_covers (h : ¬ memory.Covers physical count) :
    ∃ fault, memory.locate physical count = .error fault ∧ fault.kind = .transport := by
  unfold locate
  split
  next hbelow => exact ⟨_, rfl, rfl⟩
  next hbase =>
    have hbase := UInt64.not_lt.mp hbase
    have hsize : ¬ (physical - memory.base).toNat + count ≤ memory.size := by
      rw [UInt64.toNat_sub_of_le _ _ hbase]
      exact fun hsize => h ⟨hbase, hsize⟩
    dsimp only
    rw [if_neg hsize]
    exact ⟨_, rfl, rfl⟩

/-- The memory has all bytes when it has the first one and those behind it. -/
theorem covers_succ_iff (hnext : physical.toNat + 1 < 2 ^ 64) :
    memory.Covers physical (count + 1) ↔
      memory.Covers physical 1 ∧ memory.Covers (physical + 1) count := by
  have hsum : (physical + 1).toNat = physical.toNat + 1 := by
    rw [UInt64.toNat_add]
    exact Nat.mod_eq_of_lt hnext
  unfold Covers
  rw [UInt64.le_iff_toNat_le, UInt64.le_iff_toNat_le, hsum]
  omega

theorem poke_of_locate {bytes : List UInt8} {start : Nat}
    (h : memory.locate physical bytes.length = .ok start) :
    memory.poke physical bytes = .ok (memory.store start bytes (le_size_of_locate h)) := by
  unfold poke
  split
  next fault hlocate => simp [h] at hlocate
  next other hlocate =>
    obtain rfl : start = other := by simpa [h] using hlocate
    rfl

theorem poke_of_locate_error {bytes : List UInt8} {fault : Fault}
    (h : memory.locate physical bytes.length = .error fault) :
    memory.poke physical bytes = .error fault := by
  unfold poke
  split
  next other hlocate => simpa [h] using hlocate.symm
  next start hlocate => simp [h] at hlocate

theorem peek_of_covers (h : memory.Covers physical count) :
    memory.peek physical count =
      .ok (memory.slice (physical.toNat - memory.base.toNat) count) := by
  rw [peek, locate_of_covers h]

theorem peek_of_not_covers (h : ¬ memory.Covers physical count) :
    ∃ fault, memory.peek physical count = .error fault ∧ fault.kind = .transport := by
  obtain ⟨fault, hlocate, hkind⟩ := locate_of_not_covers h
  refine ⟨fault, ?_, hkind⟩
  rw [peek, hlocate]

/-! ## Reading in pieces -/

/-- Read some bytes and go on with them. Where the read is refused, the kind of
the fault is the result. -/
def feed {γ : Type u} (memory : HostMemory) (physical : Address) (count : Nat)
    (next : ByteArray → Except Fault.Kind γ) : Except Fault.Kind γ :=
  match memory.peek physical count with
  | .error fault => .error fault.kind
  | .ok piece => next piece.val

section Feed

variable {γ : Type u} {next : ByteArray → Except Fault.Kind γ}

theorem feed_of_peek {piece : Payload count} (h : memory.peek physical count = .ok piece) :
    memory.feed physical count next = next piece.val := by
  rw [feed, h]

theorem feed_of_peek_error {fault : Fault} (h : memory.peek physical count = .error fault) :
    memory.feed physical count next = .error fault.kind := by
  rw [feed, h]

theorem feed_of_covers (h : memory.Covers physical count) : memory.feed physical count next =
    next (memory.slice (physical.toNat - memory.base.toNat) count).val :=
  feed_of_peek (peek_of_covers h)

theorem feed_of_not_covers (h : ¬ memory.Covers physical count) :
    memory.feed physical count next = .error .transport := by
  obtain ⟨fault, hpeek, hkind⟩ := peek_of_not_covers h
  rw [feed_of_peek_error hpeek, hkind]

/-- Reading several bytes is reading the first one and then the others. -/
theorem feed_succ (hnext : physical.toNat + 1 < 2 ^ 64) (count : Nat) :
    memory.feed physical (count + 1) next =
      memory.feed physical 1 fun first =>
        memory.feed (physical + 1) count fun others => next (first ++ others) := by
  have hsplit : memory.Covers physical (count + 1) ↔ _ := covers_succ_iff hnext
  by_cases hfirst : memory.Covers physical 1
  · rw [feed_of_covers hfirst]
    by_cases hothers : memory.Covers (physical + 1) count
    · have hposition : (physical + 1).toNat - memory.base.toNat =
          physical.toNat - memory.base.toNat + 1 := by
        have hbase := UInt64.le_iff_toNat_le.mp hfirst.1
        have hsum : (physical + 1).toNat = physical.toNat + 1 := by
          rw [UInt64.toNat_add]
          exact Nat.mod_eq_of_lt hnext
        omega
      rw [feed_of_covers (hsplit.mpr ⟨hfirst, hothers⟩), feed_of_covers hothers, slice_succ,
        hposition]
    · rw [feed_of_not_covers hothers, feed_of_not_covers (mt (fun h => (hsplit.mp h).2) hothers)]
  · rw [feed_of_not_covers hfirst, feed_of_not_covers (mt (fun h => (hsplit.mp h).1) hfirst)]

end Feed

/-! ## Counters -/

/-- The memory with its counters at zero. -/
def plain (memory : HostMemory) : HostMemory :=
  { memory with reads := 0, writes := 0 }

@[simp] theorem peek_plain (memory : HostMemory) (physical : Address) (count : Nat) :
    memory.plain.peek physical count = memory.peek physical count := rfl

/-- Storing bytes leaves the counters alone. -/
theorem poke_plain (memory : HostMemory) (physical : Address) (bytes : List UInt8) :
    memory.plain.poke physical bytes = (memory.poke physical bytes).map plain := by
  by_cases hcovers : memory.Covers physical bytes.length
  · have hlocate := locate_of_covers hcovers
    have hplain : memory.plain.locate physical bytes.length = _ := hlocate
    rw [poke_of_locate hlocate, poke_of_locate hplain]
    rfl
  · obtain ⟨fault, hlocate, _⟩ := locate_of_not_covers hcovers
    have hplain : memory.plain.locate physical bytes.length = .error fault := hlocate
    rw [poke_of_locate_error hlocate, poke_of_locate_error hplain]
    rfl

/-- A read by the endpoint gives what a peek gives. -/
theorem answer_read (memory : HostMemory) (physical : Address) (count : Nat) :
    (PhysicalMemory.read memory physical count).answer = memory.peek physical count := by
  simp only [PhysicalMemory.read]
  split <;> simp only [*]

theorem plain_read (memory : HostMemory) (physical : Address) (count : Nat) :
    (PhysicalMemory.read memory physical count).memory.plain = memory.plain := by
  simp only [PhysicalMemory.read]
  split <;> rfl

/-- A write by the endpoint does what a poke does. -/
theorem answer_write (memory : HostMemory) (physical : Address) (bytes : List UInt8) :
    (PhysicalMemory.write memory physical bytes).answer =
      (memory.poke physical bytes).map fun _ => () := by
  simp only [PhysicalMemory.write]
  split <;> simp only [*, Except.map]

theorem plain_write (memory : HostMemory) (physical : Address) (bytes : List UInt8) :
    (PhysicalMemory.write memory physical bytes).memory.plain =
      match memory.plain.poke physical bytes with
      | .error _ => memory.plain
      | .ok after => after := by
  rw [poke_plain]
  simp only [PhysicalMemory.write]
  cases memory.poke physical bytes <;> rfl

/-! ## Bounds -/

/-- Storing bytes moves no bound of the memory. -/
theorem covers_of_poke {other : Address} {bytes : List UInt8} {after : HostMemory}
    (h : memory.poke other bytes = .ok after) :
    after.Covers physical count ↔ memory.Covers physical count := by
  unfold poke at h
  split at h
  · cases h
  · cases h
    exact Iff.rfl

theorem covers_read (other : Address) (length : Nat) :
    (PhysicalMemory.read memory other length).memory.Covers physical count ↔
      memory.Covers physical count := by
  simp only [PhysicalMemory.read]
  split <;> exact Iff.rfl

theorem covers_write (other : Address) (bytes : List UInt8) :
    (PhysicalMemory.write memory other bytes).memory.Covers physical count ↔
      memory.Covers physical count := by
  simp only [PhysicalMemory.write]
  split
  · exact Iff.rfl
  next after hpoke =>
    have hsame : after.Covers physical count ↔ memory.Covers physical count := covers_of_poke hpoke
    exact hsame

end AtsEndpoint.HostMemory
