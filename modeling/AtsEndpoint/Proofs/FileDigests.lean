import AtsEndpoint.Proofs.BringUp

/-!
# Digesting files

The tool lays each file into a buffer of its own, brings up an endpoint on it,
and asks for the digest of as many bytes as the file has. Since the setup admits
the buffer, nothing on this way fails, and the padding behind the file is not
read. So every line of the tool tells the digest of the bytes of a file.
-/

namespace AtsEndpoint.Tool

variable {setup : Setup} {read : String → Except ReadProblem ByteArray}

/-- The line of a file that fits: its digest, two blanks and its name. -/
theorem digestLine_eq (file : String) {contents : ByteArray} (h : setup.Admits contents.size)
    (hlength : contents.size < lengthLimit) : digestLine file contents setup =
      .ok ((Md5.digest contents).hex ++ "  " ++ file) := by
  have hmapped := h.mapBuffer_eq .read
  obtain ⟨endpoint, hbring, hmounts, _, _⟩ := h.bring_eq .read
  have hreadable : (h.buffer .read).mapping.grants.intersects .read :=
    (by decide : Permissions.read.intersects .read)
  have hcount : contents.size.toUInt32.toNat = contents.size := Nat.mod_eq_of_lt hlength
  have hdigest := (Host.completes_checksum hmounts hreadable hcount).result
  rw [h.address_zero] at hdigest
  rw [digestLine, if_neg (Nat.not_le.mpr hlength), hmapped]
  simp only [bind, Except.bind, hbring, hdigest]

/-- Files that all fit have one line each, in order, and none of them fails. -/
theorem digestFiles_eq {contents : String → ByteArray} {files : List String}
    (hread : ∀ file ∈ files, read file = .ok (contents file))
    (hlength : ∀ file ∈ files, (contents file).size < lengthLimit)
    (hadmits : ∀ file ∈ files, setup.Admits (contents file).size) :
    digestFiles setup read files =
      { lines := files.map fun file => (Md5.digest (contents file)).hex ++ "  " ++ file } := by
  induction files with
  | nil => rfl
  | cons file rest ih =>
      obtain ⟨hfile, hrest⟩ := List.forall_mem_cons.mp hread
      obtain ⟨hshort, hshorter⟩ := List.forall_mem_cons.mp hlength
      obtain ⟨hfits, hfit⟩ := List.forall_mem_cons.mp hadmits
      rw [digestFiles, hfile]
      dsimp only
      rw [digestLine_eq file hfits hshort]
      dsimp only
      rw [ih hrest hshorter hfit]
      rfl

/-- Digesting files that can be read, are shorter than the LENGTH register can
tell and are admitted by the setup ends well. It prints a line for each file, in
order, under either failure policy: two lowercase hexadecimal digits for each byte
of the digest of its bytes, two blanks, and its name. -/
theorem run_md5sum {arguments files : List String} {contents : String → ByteArray}
    (hparse : Command.parse arguments = .ok (.md5sum files setup))
    (hread : ∀ file ∈ files, read file = .ok (contents file))
    (hlength : ∀ file ∈ files, (contents file).size < 2 ^ 32)
    (hadmits : ∀ file ∈ files, setup.Admits (contents file).size) :
    run arguments read =
      { code := 0
        stdout := String.join <| files.map fun file =>
          String.ofList ((Md5.digest (contents file)).bytes.toList.flatMap fun byte =>
            [Nat.digitChar (byte.toNat / 16), Nat.digitChar (byte.toNat % 16)])
              ++ "  " ++ file ++ "\n"
        stderr := "" } := by
  rw [run, hparse]
  dsimp only
  rw [Command.run, digestFiles_eq hread hlength hadmits, Outcome.ofReport]
  dsimp only
  rw [unlines_eq_join, List.map_map]
  rfl

/-- A setup with single bytes for granules, at the end of the address space. -/
def lastBytes : Setup :=
  { iova := 0xfffffffffffffffd, physBase := 4097, granule := 1, reportErrors := true }

/-- Three bytes that end with the address space, and after them a file without bytes. -/
theorem run_md5sum_lastBytes :
    let arguments := ["md5sum", "--granule=1", "--iova", "0xffff_ffff_ffff_fffd",
      "--phys-base=4097", "--report-errors", "abc", "nothing"]
    let contents (file : String) : ByteArray :=
      if file = "abc" then ⟨#[0x61, 0x62, 0x63]⟩ else .empty
    Command.parse arguments = .ok (.md5sum ["abc", "nothing"] lastBytes) ∧
      (∀ file ∈ ["abc", "nothing"], lastBytes.Admits (contents file).size) ∧
      run arguments (fun file => .ok (contents file)) =
        { code := 0
          stdout :=
            "900150983cd24fb0d6963f7d28e17f72  abc\n" ++
            "d41d8cd98f00b204e9800998ecf8427e  nothing\n"
          stderr := "" } := by
  intro arguments contents
  have hparse : Command.parse arguments = .ok (.md5sum ["abc", "nothing"] lastBytes) := rfl
  have hlength : ∀ file ∈ ["abc", "nothing"], (contents file).size < 2 ^ 32 := by decide
  have hthree : lastBytes.Admits 3 :=
    ⟨⟨0, rfl⟩, Nat.one_dvd _, Nat.one_dvd _, by decide, by decide, by decide⟩
  have hnone : lastBytes.Admits 0 :=
    ⟨⟨0, rfl⟩, Nat.one_dvd _, Nat.one_dvd _, by decide, by decide, by decide⟩
  have hadmits : ∀ file ∈ ["abc", "nothing"], lastBytes.Admits (contents file).size :=
    List.forall_mem_cons.mpr ⟨hthree, List.forall_mem_cons.mpr ⟨hnone, nofun⟩⟩
  refine ⟨hparse, hadmits, ?_⟩
  rw [run_md5sum hparse (fun _ _ => rfl) hlength hadmits]
  decide +kernel

end AtsEndpoint.Tool
