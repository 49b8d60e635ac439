import AtsEndpoint.Proofs.Driving

/-!
# Transactions on a window

The register window takes a read or a write of one word at most, without a byte mask and
inside its stream. Whatever else comes, in whatever shape, is refused with a fault that
names the offset, and nothing changes. A read that is taken fills the buffer and changes
nothing else; a write that is taken leaves the buffer alone, gives its word to one register
at most, and puts one request behind the queue at most, if this register is CTRL.

What the registers do with a transaction is said once, and what the endpoint does follows.
-/

namespace AtsEndpoint

/-! ## The registers -/

namespace Register

/-- The register takes the words that the bus writes. -/
def isWritable : Register → Bool
  | digest _ => false
  | _ => true

end Register

namespace RegisterFile

/-- A write from the bus changes the register at its offset, if this is one that takes the
word, and no other register. -/
theorem get_write (registers : RegisterFile) (offset : Address) (word : UInt32)
    (register : Register) : (registers.write offset word).1.get register =
      if Register.ofOffset? offset = some register ∧ register.isWritable then word
      else registers.get register := by
  unfold write
  cases hnamed : Register.ofOffset? offset with
  | none => simp
  | some named =>
      by_cases hsame : named = register
      · subst hsame
        cases named <;> simp [get_set, Register.isWritable]
      · cases named <;> simp [get_set, hsame]

/-- The word that the bus is shown at an offset. -/
structure Shows (registers : RegisterFile) (offset : Address) (word : UInt32) : Prop where
  /-- A register other than CTRL shows what it holds. -/
  held : ∀ register : Register, register ≠ .ctrl → register.offset = offset →
    word = registers.get register
  /-- CTRL shows zero, and so does an offset without a register. -/
  zero : (∀ register : Register, register ≠ .ctrl → register.offset ≠ offset) → word = 0

theorem shows_read (registers : RegisterFile) (offset : Address) :
    registers.Shows offset (registers.read offset) where
  held := by
    rintro register hshown rfl
    exact registers.read_offset register hshown
  zero h := by
    unfold read
    split
    next => rfl
    next => rfl
    next register hshown hnamed =>
      exact absurd (Register.offset_of_ofOffset? hnamed) (h register hshown)

/-- What the registers do with a transaction. -/
theorem serve_cases (registers : RegisterFile) (transaction : Transaction) :
    let served := registers.serve transaction
    (¬ transaction.IsPlain ∧ served.state = registers ∧
        ∃ problem, served.result = .error (.bus transaction.offset problem)) ∨
      (transaction.IsPlain ∧ transaction.command = .read ∧ served.state = registers ∧
        served.result = .ok (.fetched
          ((Word.bytes (registers.read transaction.offset)).take transaction.data.length))) ∨
      (transaction.IsPlain ∧ transaction.command = .write ∧
        let written := registers.write transaction.offset (Word.ofBytes transaction.data)
        served.state = written.1 ∧ served.result = .ok (.wrote written.2)) := by
  obtain ⟨hplain, problem, hdirection⟩ | ⟨hplain, hcommand, hdirection⟩ |
    ⟨hplain, hcommand, hdirection⟩ := transaction.direction_cases
  all_goals simp only [serve, hdirection]
  · exact .inl ⟨hplain, trivial, problem, rfl⟩
  · exact .inr (.inl ⟨hplain, hcommand, trivial, trivial⟩)
  · exact .inr (.inr ⟨hplain, hcommand, trivial, trivial⟩)

end RegisterFile

/-! ## The endpoint -/

namespace Endpoint

variable {α : Type u} {μ : Type v}

/-- What the endpoint does with a transaction. -/
theorem transact_cases (endpoint : Endpoint α μ) (bar : UInt32) (transaction : Transaction) :
    let step := endpoint.transact bar transaction
    (¬ (bar = 0 ∧ transaction.IsPlain) ∧ step.state = endpoint ∧
        ∃ problem, step.result = .error (.bus transaction.offset problem)) ∨
      ((bar = 0 ∧ transaction.IsPlain) ∧ transaction.command = .read ∧ step.state = endpoint ∧
        step.result = .ok ((Word.bytes (endpoint.registers.read transaction.offset)).take
          transaction.data.length)) ∨
      ((bar = 0 ∧ transaction.IsPlain) ∧ transaction.command = .write ∧
        step.state =
          endpoint.writeAll [(transaction.offset, Word.ofBytes transaction.data)] ∧
        step.result = .ok transaction.data) := by
  intro step
  have hstep : step = endpoint.transact bar transaction := rfl
  unfold transact at hstep
  split at hstep
  next hbar =>
    rw [hstep]
    exact .inl ⟨fun h => hbar h.1, rfl, _, rfl⟩
  next hbar =>
    have hbar : bar = 0 := Decidable.not_not.mp hbar
    dsimp only at hstep
    obtain ⟨hplain, hstate, problem, hresult⟩ | ⟨hplain, hcommand, hstate, hresult⟩ |
      ⟨hplain, hcommand, hstate, hresult⟩ := endpoint.registers.serve_cases transaction
    · rw [hresult] at hstep
      rw [hstep]
      exact .inl ⟨fun h => hplain h.2, rfl, problem, rfl⟩
    · rw [hresult, hstate] at hstep
      rw [hstep]
      exact .inr (.inl ⟨⟨hbar, hplain⟩, hcommand, rfl, rfl⟩)
    · rw [hresult, hstate] at hstep
      rw [hstep]
      exact .inr (.inr ⟨⟨hbar, hplain⟩, hcommand, (endpoint.writes_settle _ _).state, rfl⟩)

/-- What a write of the word at the offset makes of the endpoint. -/
structure TakesWord (endpoint : Endpoint α μ) (offset : Address) (word : UInt32)
    (after : Endpoint α μ) : Prop where
  /-- Only the registers and the queue change. -/
  frame : after = { endpoint with registers := after.registers, pending := after.pending }
  /-- The register at the offset keeps the word, if it takes one; the others stay. -/
  registers : ∀ register, after.registers.get register =
    if Register.ofOffset? offset = some register ∧ register.isWritable then word
    else endpoint.registers.get register
  /-- The queue grows by one request at most, and only if CTRL is written. -/
  pending : after.pending = endpoint.pending ∨
    offset = Register.ctrl.offset ∧ ∃ request, after.pending = endpoint.pending ++ [request]

theorem takesWord_writeAll (endpoint : Endpoint α μ) (offset : Address) (word : UInt32) :
    endpoint.TakesWord offset word (endpoint.writeAll [(offset, word)]) where
  frame := rfl
  registers := endpoint.registers.get_write offset word
  pending := by
    change endpoint.pending ++ endpoint.askedBy [(offset, word)] = _ ∨ _ ∧ ∃ request,
      endpoint.pending ++ endpoint.askedBy [(offset, word)] = _
    unfold askedBy RegisterFile.askedBy RegisterFile.askedBy
    split
    next => exact .inl (List.append_nil _)
    next =>
      split
      next hctrl =>
        cases hasked : endpoint.registers.asked? word with
        | none => exact .inl (List.append_nil _)
        | some request => exact .inr ⟨hctrl, request, rfl⟩
      next => exact .inl (List.append_nil _)

/-- A transaction is taken exactly when it is meant for the register window and plain. One
that is not taken is refused for its offset, and neither the endpoint nor the buffer
changes. A read that is taken puts the low bytes of what the register there holds into the
buffer, or zeros for CTRL and where no register is, and does nothing to the endpoint. A write that is taken leaves the buffer alone; it changes one
register at most and puts one request behind the queue at most. A transaction on the
configuration space, of whatever shape, ends well and changes nothing. -/
theorem transact_exact (endpoint : Endpoint α μ) (bar : UInt32) (transaction : Transaction) :
    let step := endpoint.transact bar transaction
    let buffer := transaction.bufferAfter step.result
    let taken := bar = 0 ∧ transaction.IsPlain
    (step.result.isOk ↔ taken) ∧
      (¬ taken → (∃ problem, step.result = .error (.bus transaction.offset problem)) ∧
        step.state = endpoint ∧ buffer = transaction.data) ∧
      (taken → transaction.command = .read → step.state = endpoint ∧
        let word := endpoint.registers.read transaction.offset
        endpoint.registers.Shows transaction.offset word ∧
          buffer = (Word.bytes word).take transaction.data.length) ∧
      (taken → transaction.command = .write → buffer = transaction.data ∧
        endpoint.TakesWord transaction.offset (Word.ofBytes transaction.data) step.state) ∧
      (endpoint.configAccess transaction).state = endpoint ∧
      (endpoint.configAccess transaction).result = transaction.data := by
  intro step buffer taken
  have hbuffer : buffer = transaction.bufferAfter step.result := rfl
  obtain ⟨htaken, hstate, problem, hresult⟩ | ⟨htaken, hcommand, hstate, hresult⟩ |
    ⟨htaken, hcommand, hstate, hresult⟩ := endpoint.transact_cases bar transaction
  all_goals
    change step.state = _ at hstate
    change step.result = _ at hresult
    rw [hresult] at hbuffer ⊢
    rw [hbuffer, hstate]
  · exact ⟨⟨nofun, fun h => absurd h htaken⟩, fun _ => ⟨⟨problem, rfl⟩, rfl, rfl⟩,
      fun h => absurd h htaken, fun h => absurd h htaken, rfl, rfl⟩
  · refine ⟨⟨fun _ => htaken, fun _ => rfl⟩, fun h => absurd htaken h,
      fun _ _ => ⟨rfl, endpoint.registers.shows_read _, rfl⟩, ?_, rfl, rfl⟩
    intro _ hwrite
    rw [hcommand] at hwrite
    cases hwrite
  · refine ⟨⟨fun _ => htaken, fun _ => rfl⟩, fun h => absurd htaken h, ?_,
      fun _ _ => ⟨rfl, endpoint.takesWord_writeAll _ _⟩, rfl, rfl⟩
    intro _ hread
    rw [hcommand] at hread
    cases hread

/-- A write that is wider than its stream, a read of three bytes of VALUE and one of CTRL,
and a write that fires a trigger. -/
theorem transact_exact_loaded :
    let loaded : SoftwareEndpoint :=
      { paged with registers := { ctrl := 2, value := 0xdeadbeef } }
    let narrow : Transaction :=
      { command := .write, offset := 0x0c, data := [1, 2], streamingWidth := 1 }
    let value : Transaction := { command := .read, offset := 0x0c, data := [7, 7, 7] }
    let ctrl : Transaction := { command := .read, offset := 0x00, data := [7] }
    let trigger : Transaction := { command := .write, offset := 0x00, data := [2] }
    (∃ problem, (loaded.transact 0 narrow).result = .error (.bus 0x0c problem)) ∧
      (loaded.transact 0 narrow).state = loaded ∧
      value.bufferAfter (loaded.transact 0 value).result = [0xef, 0xbe, 0xad] ∧
      ctrl.bufferAfter (loaded.transact 0 ctrl).result = [0] ∧
      loaded.TakesWord 0x00 2 (loaded.transact 0 trigger).state := by
  intro loaded narrow value ctrl trigger
  obtain ⟨_, hrefused, _⟩ := transact_exact loaded 0 narrow
  obtain ⟨_, _, hvalue, _⟩ := transact_exact loaded 0 value
  obtain ⟨_, _, hctrl, _⟩ := transact_exact loaded 0 ctrl
  obtain ⟨_, _, _, hwrite, _⟩ := transact_exact loaded 0 trigger
  obtain ⟨hproblem, hstate, _⟩ := hrefused (by decide)
  obtain ⟨_, _, hbytes⟩ := hvalue (by decide) rfl
  obtain ⟨_, _, hzero⟩ := hctrl (by decide) rfl
  exact ⟨hproblem, hstate, hbytes.trans (by decide), hzero.trans (by decide),
    (hwrite (by decide) rfl).2⟩

end Endpoint

end AtsEndpoint
