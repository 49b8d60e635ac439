import Mathlib.Data.List.Induction
import AtsEndpoint.Proofs.Operations
import AtsEndpoint.Proofs.Transactions

/-!
# What the registers read back

Seen from the bus the register file is a map from offsets to words. Five offsets give the
word that was last written there, four give the last digest, and all others give zero;
a reset empties the map. CTRL keeps its word as well, but does not show it.

`Recalls` ties the registers to a history of all that has come to them, access by access.
That the map is read back, in whatever pieces, follows from it.
-/

namespace AtsEndpoint.RegisterFile

/-- What comes to the registers. -/
inductive Access
  /-- The bus sends a transaction. -/
  | transact (transaction : Transaction)
  /-- The reset line is asserted. -/
  | reset
  /-- The endpoint keeps a digest. -/
  | keep (digest : Digest)

namespace Access

def isReset : Access → Bool
  | reset => true
  | _ => false

/-- The word that the access writes at an offset. A transaction that is refused writes
none. -/
def wordFor? (offset : Address) : Access → Option UInt32
  | transact transaction =>
    if transaction.IsPlain ∧ transaction.command = .write ∧ transaction.offset = offset then
      some (Word.ofBytes transaction.data)
    else none
  | reset | keep _ => none

/-- The digest that the access brings. -/
def digest? : Access → Option Digest
  | keep digest => some digest
  | transact _ | reset => none

end Access

/-- The registers after an access. -/
def undergo (registers : RegisterFile) : Access → RegisterFile
  | .transact transaction => (registers.serve transaction).state
  | .reset => {}
  | .keep digest => registers.setDigest digest

/-- The registers after one access after another. -/
def undergoAll (registers : RegisterFile) (history : List Access) : RegisterFile :=
  history.foldl undergo registers

/-- What can be seen of the latest access since the last reset in which anything can be
seen. -/
def latest? (see : Access → Option β) (history : List Access) : Option β :=
  (history.reverse.takeWhile fun access => !access.isReset).findSome? see

/-- The word last written at an offset since the last reset, or zero. -/
def lastWord (history : List Access) (offset : Address) : UInt32 :=
  (latest? (Access.wordFor? offset) history).getD 0

/-- The offsets at which the bus reads the words that it has written. -/
def dataOffsets : List Address :=
  [Register.addrLsb, .length, .value, .status, .addrMsb].map Register.offset

/-- The word of a digest that the bus reads at an offset. -/
def digestWordAt (digest : Digest) (offset : Address) : UInt32 :=
  ((List.finRange 4).find? fun index => (Register.digest index).offset = offset).elim 0
    digest.words.get

/-- The map that a history makes. -/
def wordAt (history : List Access) (offset : Address) : UInt32 :=
  if offset ∈ dataOffsets then lastWord history offset
  else (latest? Access.digest? history).elim 0 fun digest => digestWordAt digest offset

/-- The bytes of the digest registers in their order, each register read from the bus. -/
def digestBytes (registers : RegisterFile) : List UInt8 :=
  (List.range 4).flatMap fun index =>
    (Register.digestOffset? index).elim [] fun offset => Word.bytes (registers.read offset)

/-- What the registers hold after a history. -/
structure Recalls (history : List Access) (registers : RegisterFile) : Prop where
  /-- A register that the bus can write holds the last word. -/
  word : ∀ register : Register, register.isWritable →
    registers.get register = lastWord history register.offset
  /-- The digest registers hold the last digest. -/
  digest : registers.digest =
    (latest? Access.digest? history).elim (Vector.replicate 4 0) Digest.words

variable {registers : RegisterFile} {history : List Access}

/-! ## One access -/

theorem latest?_append (see : Access → Option β) (history : List Access) (access : Access) :
    latest? see (history ++ [access]) =
      if access.isReset then none else (see access).or (latest? see history) := by
  unfold latest?
  rw [List.reverse_append, List.reverse_singleton, List.singleton_append, List.takeWhile_cons]
  cases access.isReset
  · rw [if_neg Bool.false_ne_true]
    simp only [Bool.not_false, if_true, List.findSome?_cons]
    cases see access <;> rfl
  · rfl

theorem lastWord_append (history : List Access) (access : Access) (offset : Address) :
    lastWord (history ++ [access]) offset =
      if access.isReset then 0 else (access.wordFor? offset).getD (lastWord history offset) := by
  unfold lastWord
  rw [latest?_append]
  cases access.isReset
  · cases access.wordFor? offset <;> rfl
  · rfl

/-- The bus does not write to the digest registers. -/
theorem digest_serve (registers : RegisterFile) (transaction : Transaction) :
    (registers.serve transaction).state.digest = registers.digest := by
  have hwrite (offset : Address) (word : UInt32) :
      (registers.write offset word).1.digest = registers.digest := by
    unfold write
    cases Register.ofOffset? offset with
    | none => rfl
    | some register => cases register <;> rfl
  obtain ⟨_, hstate, _⟩ | ⟨_, _, hstate, _⟩ | ⟨_, _, hstate, _⟩ :=
    registers.serve_cases transaction
  · rw [hstate]
  · rw [hstate]
  · rw [hstate, hwrite]

/-- A transaction gives a register the word that it writes there, if it writes one. -/
theorem get_serve (registers : RegisterFile) (transaction : Transaction) {register : Register}
    (hregister : register.isWritable) : (registers.serve transaction).state.get register =
      ((Access.transact transaction).wordFor? register.offset).getD (registers.get register) := by
  rw [Access.wordFor?]
  obtain ⟨hplain, hstate, _⟩ | ⟨_, hcommand, hstate, _⟩ | ⟨hplain, hcommand, hstate, _⟩ :=
    registers.serve_cases transaction
  · rw [hstate, if_neg fun h => hplain h.1]
    rfl
  · rw [hstate, if_neg fun h => by simp [hcommand] at h]
    rfl
  · rw [hstate, get_write]
    by_cases hsame : transaction.offset = register.offset
    · rw [if_pos ⟨Register.ofOffset?_eq_some_iff.mpr hsame.symm, hregister⟩,
        if_pos ⟨hplain, hcommand, hsame⟩]
      rfl
    · rw [if_neg fun h => hsame (Register.ofOffset?_eq_some_iff.mp h.1).symm,
        if_neg fun h => hsame h.2.2]
      rfl

theorem get_setDigest (registers : RegisterFile) (digest : Digest) {register : Register}
    (hregister : register.isWritable) :
    (registers.setDigest digest).get register = registers.get register := by
  cases register <;> first | rfl | cases hregister

theorem Recalls.undergo (h : registers.Recalls history) (access : Access) :
    (registers.undergo access).Recalls (history ++ [access]) where
  word register hregister := by
    rw [lastWord_append, ← h.word register hregister]
    cases access with
    | transact transaction => exact registers.get_serve transaction hregister
    | reset => cases register <;> first | rfl | cases hregister
    | keep digest => exact registers.get_setDigest digest hregister
  digest := by
    rw [latest?_append]
    cases access with
    | transact transaction => exact (registers.digest_serve transaction).trans h.digest
    | reset => rfl
    | keep digest => rfl

/-! ## A history -/

theorem recalls_undergoAll (history : List Access) :
    (undergoAll {} history).Recalls history := by
  -- The history is taken apart at its end: the last access comes to registers that recall
  -- those before it.
  induction history using List.reverseRecOn with
  | nil =>
      refine ⟨?_, rfl⟩
      intro register hregister
      cases register <;> first | rfl | cases hregister
  | append_singleton history access ih =>
      have happend : undergoAll {} (history ++ [access]) = (undergoAll {} history).undergo access :=
        List.foldl_append
      rw [happend]
      exact ih.undergo access

/-! ## The map as the bus reads it -/

theorem digestWordAt_offset (digest : Digest) (index : Fin 4) :
    digestWordAt digest (Register.digest index).offset = digest.words.get index := by
  match index with
  | 0 | 1 | 2 | 3 => rfl

theorem digest_offset_not_mem (index : Fin 4) :
    (Register.digest index).offset ∉ dataOffsets := by
  match index with
  | 0 | 1 | 2 | 3 => decide

/-- At an offset without a register the map has no word. -/
theorem wordAt_of_ofOffset?_eq_none (history : List Access) {offset : Address}
    (h : Register.ofOffset? offset = none) : wordAt history offset = 0 := by
  have hother (register : Register) : register.offset ≠ offset := by
    intro hoffset
    rw [Register.ofOffset?_eq_some_iff.mpr hoffset] at h
    cases h
  have hdata : offset ∉ dataOffsets := by
    intro hmem
    obtain ⟨register, _, hoffset⟩ := List.mem_map.mp hmem
    exact hother register hoffset
  have hdigest (digest : Digest) : digestWordAt digest offset = 0 := by
    unfold digestWordAt
    rw [List.find?_eq_none.mpr fun index _ => by simpa using hother (.digest index)]
    rfl
  rw [wordAt, if_neg hdata]
  cases latest? Access.digest? history with
  | none => rfl
  | some digest => exact hdigest digest

/-- From registers that recall a history the bus reads the words of its map. -/
theorem Recalls.read_eq (h : registers.Recalls history) (offset : Address) :
    registers.read offset = wordAt history offset := by
  cases hnamed : Register.ofOffset? offset with
  | none =>
      rw [wordAt_of_ofOffset?_eq_none history hnamed, read, hnamed]
  | some register =>
      obtain rfl := Register.offset_of_ofOffset? hnamed
      cases register with
      | ctrl =>
          rw [wordAt, if_neg (by decide), read, hnamed]
          cases latest? Access.digest? history <;> rfl
      | digest index =>
          rw [read_offset _ _ (by simp), wordAt, if_neg (digest_offset_not_mem index), get,
            h.digest]
          cases latest? Access.digest? history with
          | none => exact Vector.getElem_replicate index.isLt
          | some digest => exact (digestWordAt_offset digest index).symm
      | _ =>
          rw [read_offset _ _ (by decide), wordAt, if_pos (by decide)]
          exact h.word _ rfl

/-- The registers of a digest give its bytes in their order. -/
theorem digestBytes_eq {digest : Digest} (h : registers.digest = digest.words) :
    registers.digestBytes = digest.bytes.toList := by
  have hread (index : Fin 4) : Word.bytes (registers.read (Register.digest index).offset) =
      [digest.bytes[4 * index.val], digest.bytes[4 * index.val + 1],
        digest.bytes[4 * index.val + 2], digest.bytes[4 * index.val + 3]] := by
    have hword : registers.read (Register.digest index).offset = digest.words[index.val] := by
      rw [read_offset _ _ (by simp), get, h]
      rfl
    rw [hword]
    simp only [Digest.words, Vector.getElem_ofFn, Word.bytes_ofBytes]
  have hbytes : digest.bytes.toList = (List.finRange 16).map fun i => digest.bytes[i] := by
    apply List.ext_getElem <;> simp
  have hregisters : registers.digestBytes = (List.finRange 4).flatMap fun index =>
      Word.bytes (registers.read (Register.digest index).offset) := rfl
  rw [hregisters, hbytes]
  simp only [hread]
  rfl

theorem digest_undergoAll_transact (registers : RegisterFile) (transactions : List Transaction) :
    (registers.undergoAll (transactions.map .transact)).digest = registers.digest := by
  induction transactions generalizing registers with
  | nil => rfl
  | cons transaction rest ih =>
      exact (ih _).trans (registers.digest_serve transaction)

/-- What cannot be seen in any access has not been seen last. -/
theorem latest?_eq_none {see : Access → Option β} (h : ∀ access ∈ history, see access = none) :
    latest? see history = none := by
  refine List.findSome?_eq_none_iff.mpr ?_
  intro access haccess
  exact h access (List.mem_reverse.mp ((List.takeWhile_sublist _).subset haccess))

/-- Let any transactions, resets and digests come to fresh registers. Then every plain read
takes the low bytes of the word that the map of this history has at its offset. The map
has the last words at five offsets; unless the endpoint keeps a digest it has zero at all
others. The address is made of the words last written to its two halves, and CTRL holds
the word last written there. A digest that the endpoint keeps from then on is read back
byte by byte, and by the host, whatever transactions come before the next reset. -/
theorem undergoAll_reads_back (history : List Access) :
    let registers := undergoAll {} history
    (∀ transaction : Transaction, transaction.IsPlain → transaction.command = .read →
        (registers.serve transaction).result = .ok (.fetched
          ((Word.bytes (wordAt history transaction.offset)).take transaction.data.length))) ∧
      ((∀ access ∈ history, access.digest? = none) →
        ∀ offset, offset ∉ dataOffsets → wordAt history offset = 0) ∧
      registers.address.toNat = (lastWord history Register.addrMsb.offset).toNat * 2 ^ 32 +
        (lastWord history Register.addrLsb.offset).toNat ∧
      registers.ctrl = lastWord history Register.ctrl.offset ∧
      ∀ (digest : Digest) (transactions : List Transaction),
        let kept := (registers.setDigest digest).undergoAll (transactions.map .transact)
        kept.digestBytes = digest.bytes.toList ∧
          ∀ (α : Type u) (μ : Type v) (endpoint : Endpoint α μ), endpoint.registers = kept →
            (Host.readDigest endpoint).result = digest := by
  intro registers
  have hrecalls : registers.Recalls history := recalls_undergoAll history
  refine ⟨?_, ?_, ?_, hrecalls.word .ctrl rfl, ?_⟩
  · intro transaction hplain hread
    obtain ⟨hrefused, _⟩ | ⟨_, _, _, hresult⟩ | ⟨_, hwrite, _⟩ := registers.serve_cases transaction
    · exact absurd hplain hrefused
    · rw [hresult, hrecalls.read_eq]
    · rw [hread] at hwrite
      cases hwrite
  · intro hnone offset hoffset
    rw [wordAt, if_neg hoffset, latest?_eq_none hnone]
    rfl
  · rw [registers.toNat_address, ← hrecalls.word .addrMsb rfl, ← hrecalls.word .addrLsb rfl]
    rfl
  · intro digest transactions kept
    have hkept : kept.digest = digest.words :=
      (registers.setDigest digest).digest_undergoAll_transact transactions
    refine ⟨digestBytes_eq hkept, ?_⟩
    intro α μ endpoint hendpoint
    rw [Host.result_readDigest, hendpoint, hkept, Digest.ofWords_words]

/-- A short write comes behind a full one, then one that is too wide, and one to a digest
register. The digest that is kept behind them outlasts a write to one of its registers. -/
theorem undergoAll_reads_back_shortened :
    let write (offset : Address) (data : List UInt8) : Transaction :=
      { command := .write, offset, data }
    let history : List Access := [write 0x0c [0x11, 0x22, 0x33, 0x44], write 0x0c [0x55, 0x66],
      write 0x0c [1, 2, 3, 4, 5], write 0x18 [0x77], write 0x14 [1], write 0x00 [2]].map .transact
    let registers := undergoAll {} history
    let digest : Digest := ⟨.ofFn fun i => i.val.toUInt8⟩
    (registers.serve { command := .read, offset := 0x0c, data := [0, 0, 0] }).result =
        .ok (.fetched [0x55, 0x66, 0]) ∧
      wordAt history 0x18 = 0 ∧ registers.address.toNat = 2 ^ 32 ∧ registers.ctrl = 2 ∧
      ((registers.setDigest digest).undergoAll [.transact (write 0x18 [0x77])]).digestBytes =
        [0, 1, 2, 3, 4, 5, 6, 7, 8, 9, 10, 11, 12, 13, 14, 15] := by
  intro write history registers digest
  obtain ⟨hread, hzero, haddress, hctrl, hdigest⟩ := undergoAll_reads_back.{0, 0} history
  have hnone : ∀ access ∈ history, access.digest? = none := by
    intro access haccess
    obtain ⟨transaction, _, rfl⟩ := List.mem_map.mp haccess
    rfl
  refine ⟨(hread _ (by decide) rfl).trans ?_, hzero hnone 0x18 (by decide), haddress.trans ?_,
    hctrl.trans ?_, ((hdigest digest [write 0x18 [0x77]]).1).trans ?_⟩
  · exact congrArg (fun bytes => Except.ok (Served.fetched bytes)) (by decide)
  · decide
  · decide
  · rfl

end AtsEndpoint.RegisterFile
