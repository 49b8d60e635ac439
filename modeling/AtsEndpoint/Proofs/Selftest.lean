import AtsEndpoint.Proofs.BringUp
import AtsEndpoint.Proofs.FillingAhead

/-!
# The self-test

The scratch buffer is four granules long, and the test word goes to a fixed place
in it. Whether the buffer holds the word depends on the granule alone: one of
eight bytes or more makes it long enough, and the self-test passes.

Shorter granules are admitted by the configuration all the same. The word is then
written and read outside of the buffer, where the endpoint denies both, sets DONE,
and leaves the word in VALUE. So it seems to be read back; but the digest has
nothing to be compared with, and the self-test cannot go on.
-/

namespace AtsEndpoint.Tool

open Host

variable {setup : Setup} {endpoint : SoftwareEndpoint} {buffer : Buffer} {contents : ByteArray}

theorem size_scratch (size : Nat) : (scratch size).size = size := by
  have hpush (count : Nat) (bytes : ByteArray) :
      (count.fold (fun i _ bytes => bytes.push (i % 251).toUInt8) bytes).size =
        bytes.size + count := by
    induction count with
    | zero => rfl
    | succ count ih => rw [Nat.fold_succ, ByteArray.size_push, ih, Nat.add_assoc]
  exact (hpush size _).trans (Nat.zero_add size)

/-- The lines of a self-test up to the word that is read back. -/
def probeLines (setup : Setup) : List String :=
  let place := Text.hex (setup.iova + wordOffset.toUInt64).toNat
  let word := Text.hex testWord.toNat
  let ended := Completion.text ⟨true, false⟩
  ["translate " ++ (Text.hex setup.iova.toNat ++ "+" ++ Text.hex (4 * setup.granule.toNat)) ++ ": "
      ++ ended ++ ", " ++ toString 4 ++ " regions cached",
    "write     " ++ place ++ " <- " ++ word ++ ": " ++ ended,
    "read      " ++ place ++ " -> " ++ word ++ ": " ++ ended]

/-- The lines that follow when the digest is the expected one. -/
def passedLines (setup : Setup) : List String :=
  let expected := Md5.digest
    (spliceBytes (scratch (4 * setup.granule.toNat)) wordOffset (Word.bytes testWord))
  ["md5sum    " ++ (Text.hex setup.iova.toNat ++ "+" ++ Text.hex (4 * setup.granule.toNat)) ++ ": "
      ++ expected.hex,
    "selftest passed (" ++ toString 4 ++ " requests)"]

/-- Going on with an operation that completes. -/
theorem attempt_eq {step : Step SoftwareEndpoint (Except Fault ρ)} {value : ρ} {after : ByteArray}
    (h : Completes endpoint step value buffer after) (next : ρ → SoftwareEndpoint → Report) :
    attempt step next = next value step.state := by
  rw [attempt, h.result]

/-- When the accesses complete and the word comes back, the digest decides. -/
theorem selftestOn_eq {length : UInt32} (hlength : length.toNat = 4 * setup.granule.toNat)
    {after : ByteArray} :
    let place := setup.iova + wordOffset.toUInt64
    let translated := (translate endpoint setup.iova length).state
    let written := (writeWord translated place testWord).state
    Completes endpoint (translate endpoint setup.iova length) ⟨true, false⟩ buffer contents →
    translated.cache.size = 4 →
    Completes translated (writeWord translated place testWord) ⟨true, false⟩ buffer after →
    Completes written (readWord written place) (⟨true, false⟩, testWord) buffer after →
      let rest := selftestDigest setup contents length (readWord written place).state
      selftestOn setup contents length endpoint =
        { rest with lines := probeLines setup ++ rest.lines } := by
  intro place translated written htranslate hfilled hwrite hread rest
  have hprinted : selftestOn setup contents length endpoint =
      { rest with
        lines :=
          ("translate " ++ (Text.hex setup.iova.toNat ++ "+" ++ Text.hex length.toNat) ++ ": "
              ++ Completion.text ⟨true, false⟩ ++ ", " ++ toString translated.cache.size
              ++ " regions cached") ::
            (probeLines setup).tail ++ rest.lines } := by
    unfold selftestOn
    rw [attempt_eq htranslate, attempt_eq hwrite, attempt_eq hread]
    dsimp only
    rw [if_neg (not_not_intro rfl)]
    rfl
  rw [hprinted, hlength, hfilled]
  rfl

/-- A scratch buffer with the test word in it has the digest that is expected. -/
theorem selftestDigest_eq {length : UInt32}
    (h : endpoint.Mounts buffer (spliceBytes contents wordOffset (Word.bytes testWord)))
    (hreadable : buffer.mapping.grants.intersects .read) (hstart : buffer.address 0 = setup.iova)
    (hlength : length.toNat = contents.size) (hroom : wordOffset + 4 ≤ contents.size) :
    selftestDigest setup contents length endpoint =
      { lines :=
          ["md5sum    " ++ (Text.hex setup.iova.toNat ++ "+" ++ Text.hex length.toNat) ++ ": "
              ++ (Md5.digest (spliceBytes contents wordOffset (Word.bytes testWord))).hex,
            "selftest passed (" ++ toString (endpoint.completed + 1) ++ " requests)"] } := by
  have hdigest := completes_checksum h hreadable
    (hlength.trans (size_spliceBytes contents wordOffset (Word.bytes testWord)).symm)
  have hcounted := hdigest.completed
  rw [hstart] at hdigest hcounted
  rw [selftestDigest, attempt_eq hdigest]
  dsimp only
  rw [if_neg (Nat.not_lt.mpr hroom), if_neg (not_not_intro rfl), hcounted]
  rfl

/-- A scratch buffer that is too short for the test word ends the self-test. -/
theorem selftestDigest_of_short {length : UInt32} (h : endpoint.Mounts buffer contents)
    (hreadable : buffer.mapping.grants.intersects .read) (hstart : buffer.address 0 = setup.iova)
    (hlength : length.toNat = contents.size) (hshort : contents.size < wordOffset + 4) :
    selftestDigest setup contents length endpoint = .stop .aborted := by
  have hdigest := completes_checksum h hreadable hlength
  rw [hstart] at hdigest
  rw [selftestDigest, attempt_eq hdigest]
  dsimp only
  rw [if_pos hshort]

/-! ## The scratch buffer -/

section Scratch

variable (h : setup.Admits (scratch (4 * setup.granule.toNat)).size)
include h

/-- The buffer is as long as the scratch contents are. -/
theorem size_buffer_scratch : (h.buffer (.read ||| .write)).size = 4 * setup.granule.toNat := by
  have hpos := h.granule.toNat_pos
  rw [h.size_buffer, size_scratch]
  exact Setup.paddedSize_eq_self hpos (by omega) (Nat.dvd_mul_left _ _)

theorem grants_scratch : (h.buffer (.read ||| .write)).mapping.grants.intersects .read ∧
    (h.buffer (.read ||| .write)).mapping.grants.intersects .write :=
  (by decide : (Permissions.read ||| .write).intersects .read ∧
    (Permissions.read ||| .write).intersects .write)

/-- The word goes behind a buffer of sixteen bytes or less, even where addresses
begin again with zero. -/
theorem wordOffset_not_mem (hshort : setup.granule.toNat ≤ 4) :
    setup.iova + wordOffset.toUInt64 ∉ (h.buffer (.read ||| .write)).mapping.range := by
  rintro ⟨_, hlt⟩
  have hoffset : setup.iova + wordOffset.toUInt64 -
      (h.buffer (.read ||| .write)).mapping.range.start = wordOffset.toUInt64 := by
    change setup.iova + wordOffset.toUInt64 - setup.iova = _
    grind
  have hsize : (h.buffer (.read ||| .write)).mapping.range.length.toNat = _ :=
    size_buffer_scratch h
  rw [hoffset, UInt64.lt_iff_toNat_lt, hsize] at hlt
  change 16 < 4 * setup.granule.toNat at hlt
  omega

variable (hlimit : 4 * setup.granule.toNat < lengthLimit)
include hlimit

/-- The self-test comes up on its scratch buffer and caches its four pages. -/
theorem selftest_eq :
    let length := (4 * setup.granule.toNat).toUInt32
    ∃ endpoint : SoftwareEndpoint,
      Completes endpoint (translate endpoint setup.iova length) ⟨true, false⟩
          (h.buffer (.read ||| .write)) (scratch (4 * setup.granule.toNat)) ∧
        (translate endpoint setup.iova length).state.completed = 1 ∧
        (translate endpoint setup.iova length).state.cache.size = 4 ∧
        selftest setup =
          selftestOn setup (scratch (4 * setup.granule.toNat)) length endpoint := by
  intro length
  obtain ⟨endpoint, hbring, hmounts, hempty, hcompleted⟩ := h.bring_eq (.read ||| .write)
  have hlength : length.toNat = 4 * setup.granule.toNat := Nat.mod_eq_of_lt hlimit
  have htranslate := completes_translate hmounts setup.iova length
  have hcounted := htranslate.completed
  rw [hcompleted] at hcounted
  have hfilled := size_cache_translate hmounts hempty hlength
    (Nat.le_of_eq (size_buffer_scratch h).symm)
  rw [h.address_zero] at hfilled
  refine ⟨endpoint, htranslate, hcounted, hfilled, ?_⟩
  have hmapped : setup.mapBuffer (4 * setup.granule.toNat) (.read ||| .write) =
      .ok (h.buffer (.read ||| .write)).table :=
    (congrArg (setup.mapBuffer · _) (size_scratch _).symm).trans (h.mapBuffer_eq _)
  have hsize : ¬ sizeLimit ≤ 4 * setup.granule.toNat := by
    have hbelow : lengthLimit ≤ sizeLimit := by decide
    omega
  unfold selftest
  dsimp only
  rw [if_neg hsize, hmapped]
  dsimp only
  rw [if_neg (Nat.not_le.mpr hlimit), hbring]

/-- With a granule of eight bytes or more, the word lies in the buffer, and the
self-test passes. -/
theorem selftest_passes (hroom : 8 ≤ setup.granule.toNat) :
    selftest setup = { lines := probeLines setup ++ passedLines setup } := by
  obtain ⟨endpoint, htranslate, hcompleted, hfilled, hselftest⟩ := selftest_eq h hlimit
  have hcontents := size_scratch (4 * setup.granule.toNat)
  have hlength : (4 * setup.granule.toNat).toUInt32.toNat = 4 * setup.granule.toNat :=
    Nat.mod_eq_of_lt hlimit
  obtain ⟨hreadable, hwritable⟩ := grants_scratch h
  have hinside : wordOffset + 4 ≤ (scratch (4 * setup.granule.toNat)).size := by
    rw [hcontents, wordOffset]
    omega
  have hwrite := completes_writeWord htranslate.mounts hwritable testWord hinside
  have hread := completes_readWord_of_splice hwrite.mounts hreadable hinside
  rw [h.address_eq] at hwrite hread
  have hrest := selftestDigest_eq hread.mounts hreadable (h.address_zero _)
    (hlength.trans hcontents.symm) hinside
  have hprobed := selftestOn_eq hlength htranslate hfilled hwrite hread
  have hcounted := hread.completed
  rw [hwrite.completed, hcompleted] at hcounted
  refine hselftest.trans (hprobed.trans ?_)
  rw [hrest, hcounted, hlength]
  rfl

/-- With a shorter granule, the word is denied and seems to be read back, and
then the self-test cannot go on. -/
theorem selftest_aborts (hshort : setup.granule.toNat ≤ 4) :
    selftest setup = { lines := probeLines setup, failure := some .aborted } := by
  obtain ⟨endpoint, htranslate, hcompleted, hfilled, hselftest⟩ := selftest_eq h hlimit
  have hcontents := size_scratch (4 * setup.granule.toNat)
  have hlength : (4 * setup.granule.toNat).toUInt32.toNat = 4 * setup.granule.toNat :=
    Nat.mod_eq_of_lt hlimit
  have hreadable := (grants_scratch h).1
  have houtside := wordOffset_not_mem h hshort
  have hbehind : (scratch (4 * setup.granule.toNat)).size < wordOffset + 4 := by
    rw [hcontents, wordOffset]
    omega
  obtain ⟨hwrite, hvalue⟩ := completes_writeWord_outside htranslate.mounts houtside testWord
  have hread := completes_readWord_outside hwrite.mounts houtside
  rw [hvalue] at hread
  have hrest := selftestDigest_of_short hread.mounts hreadable (h.address_zero _)
    (hlength.trans hcontents.symm) hbehind
  have hprobed := selftestOn_eq hlength htranslate hfilled hwrite hread
  refine hselftest.trans (hprobed.trans ?_)
  rw [hrest]
  rfl

end Scratch

/-! ## Running the self-test -/

/-- A granule short enough for the LENGTH register, with bases that are multiples
of it and room for four granules on either side, admits the scratch buffer. -/
theorem admits_scratch (hgranule : IsPowerOfTwo setup.granule)
    (hle : setup.granule.toNat ≤ 2 ^ 29) (hiova : setup.granule.toNat ∣ setup.iova.toNat)
    (hphysBase : setup.granule.toNat ∣ setup.physBase.toNat)
    (hiovaStop : setup.iova.toNat + 4 * setup.granule.toNat ≤ 2 ^ 64)
    (hphysStop : setup.physBase.toNat + 4 * setup.granule.toNat ≤ 2 ^ 64) :
    setup.Admits (scratch (4 * setup.granule.toNat)).size := by
  have hpos := hgranule.toNat_pos
  have hsize : setup.paddedSize (scratch (4 * setup.granule.toNat)).size =
      4 * setup.granule.toNat := by
    rw [size_scratch]
    exact Setup.paddedSize_eq_self hpos (by omega) (Nat.dvd_mul_left _ _)
  have hlimit : 4 * setup.granule.toNat < sizeLimit := by
    have hbelow : 4 * 2 ^ 29 < sizeLimit := by decide
    omega
  refine ⟨hgranule, hiova, hphysBase, ?_, ?_, ?_⟩ <;> rwa [hsize]

/-- A power of two below eight is at most four. -/
theorem toNat_le_four (hgranule : IsPowerOfTwo setup.granule)
    (hshort : ¬ 8 ≤ setup.granule.toNat) : setup.granule.toNat ≤ 4 := by
  obtain ⟨k, hk⟩ := hgranule.exists_toNat_eq
  have hexponent : k.val < 3 := by
    refine Nat.lt_of_not_le fun hthree => hshort ?_
    rw [hk]
    exact Nat.pow_le_pow_right Nat.two_pos hthree
  rw [hk]
  exact Nat.pow_le_pow_right Nat.two_pos (Nat.le_of_lt_succ hexponent)

/-- The self-test passes just for granules of eight bytes or more. It then fills
four pages, reads back the word that it wrote, finds the digest that it expects,
and counts four requests. With a shorter granule it ends after the word has been
read, because the scratch buffer does not hold the word. The failure policy and
the two bases make no difference. -/
theorem run_selftest {arguments : List String} {read : String → Except ReadProblem ByteArray}
    (hparse : Command.parse arguments = .ok (.selftest setup))
    (hgranule : IsPowerOfTwo setup.granule) (hle : setup.granule.toNat ≤ 2 ^ 29)
    (hiova : setup.granule.toNat ∣ setup.iova.toNat)
    (hphysBase : setup.granule.toNat ∣ setup.physBase.toNat)
    (hiovaStop : setup.iova.toNat + 4 * setup.granule.toNat ≤ 2 ^ 64)
    (hphysStop : setup.physBase.toNat + 4 * setup.granule.toNat ≤ 2 ^ 64) :
    run arguments read =
      if 8 ≤ setup.granule.toNat then
        { code := 0, stdout := unlines (probeLines setup ++ passedLines setup), stderr := "" }
      else { code := 101, stdout := unlines (probeLines setup), stderr := "" } := by
  have hadmits := admits_scratch hgranule hle hiova hphysBase hiovaStop hphysStop
  have hlimit : 4 * setup.granule.toNat < lengthLimit := by
    have hbelow : 4 * 2 ^ 29 < lengthLimit := by decide
    omega
  rw [run, hparse]
  dsimp only
  rw [Command.run]
  by_cases hroom : 8 ≤ setup.granule.toNat
  · rw [if_pos hroom, selftest_passes hadmits hlimit hroom]
    rfl
  · rw [if_neg hroom, selftest_aborts hadmits hlimit (toNat_le_four hgranule hroom)]
    rfl

/-- Four granules of eight bytes that end with the address space on both sides. -/
theorem run_selftest_lastGranules :
    let arguments := ["selftest", "--granule=8", "--iova=0xffff_ffff_ffff_ffe0",
      "--phys-base=0xffff_ffff_ffff_ffe0", "--report-errors"]
    let setup : Setup :=
      { iova := 0xffffffffffffffe0, physBase := 0xffffffffffffffe0, granule := 8,
        reportErrors := true }
    let ended := "CompletionStatus \x7b done: true, err: false \x7d"
    Command.parse arguments = .ok (.selftest setup) ∧
      run arguments (fun _ => .error .notFound) =
        { code := 0
          stdout :=
            "translate 0xffffffffffffffe0+0x20: " ++ ended ++ ", 4 regions cached\n" ++
            "write     0xfffffffffffffff0 <- 0xdeadbeef: " ++ ended ++ "\n" ++
            "read      0xfffffffffffffff0 -> 0xdeadbeef: " ++ ended ++ "\n" ++
            "md5sum    0xffffffffffffffe0+0x20: c60c9a686a904d459a09502b097686ab\n" ++
            "selftest passed (4 requests)\n"
          stderr := "" } := by
  intro arguments setup ended
  have hparse : Command.parse arguments = .ok (.selftest setup) := rfl
  have hran := @run_selftest setup arguments (fun _ => .error .notFound) hparse ⟨3, rfl⟩ (by decide)
    (by decide) (by decide) (by decide) (by decide)
  refine ⟨hparse, hran.trans ?_⟩
  rw [if_pos (by decide)]
  decide +kernel

/-- A granule of four bytes is a power of two, and the default bases are multiples
of it; but the self-test does not pass. -/
theorem run_selftest_fourBytes :
    let arguments := ["selftest", "--granule", "4"]
    let setup : Setup := { granule := 4 }
    let ended := "CompletionStatus \x7b done: true, err: false \x7d"
    Command.parse arguments = .ok (.selftest setup) ∧
      IsPowerOfTwo setup.granule ∧ setup.granule.toNat ≤ 2 ^ 29 ∧
      setup.granule.toNat ∣ setup.iova.toNat ∧ setup.granule.toNat ∣ setup.physBase.toNat ∧
      setup.iova.toNat + 4 * setup.granule.toNat ≤ 2 ^ 64 ∧
      setup.physBase.toNat + 4 * setup.granule.toNat ≤ 2 ^ 64 ∧
      run arguments (fun _ => .error .notFound) =
        { code := 101
          stdout :=
            "translate 0x8000+0x10: " ++ ended ++ ", 4 regions cached\n" ++
            "write     0x8010 <- 0xdeadbeef: " ++ ended ++ "\n" ++
            "read      0x8010 -> 0xdeadbeef: " ++ ended ++ "\n"
          stderr := "" } := by
  intro arguments setup ended
  have hparse : Command.parse arguments = .ok (.selftest setup) := rfl
  have hgranule : IsPowerOfTwo setup.granule := ⟨2, rfl⟩
  have hadmits : setup.Admits (scratch (4 * setup.granule.toNat)).size :=
    admits_scratch hgranule (by decide) (by decide) (by decide) (by decide) (by decide)
  refine ⟨hparse, hgranule, by decide, by decide, by decide, by decide, by decide, ?_⟩
  rw [run, hparse]
  dsimp only
  rw [Command.run, selftest_aborts hadmits (by decide) (by decide)]
  decide +kernel

end AtsEndpoint.Tool
