import AtsEndpoint.Digest.Md5
import AtsEndpoint.Endpoint.Software
import AtsEndpoint.Host
import AtsEndpoint.Tool.Arguments
import AtsEndpoint.Tool.Outcome

/-!
# Runs of the tool

A buffer is laid into host memory in whole granules, at least one, and mapped
for an endpoint over a software IOMMU. Digesting a file maps it for reading and
lets the endpoint digest it. The self-test maps a scratch buffer for reading
and writing, and then fills the cache, writes a word, reads it back and digests
the buffer; the word and the digest must be the expected ones.

Every check that does not need the bytes of a buffer is made before the bytes
are.
-/

namespace AtsEndpoint.Tool

/-- The size from which on a buffer cannot be had. -/
def sizeLimit : Nat := UInt64.size / 2

/-- The number of bytes that the LENGTH register can count to, and one more. -/
def lengthLimit : Nat := UInt32.size

namespace Setup

/-- The configuration of the endpoint. -/
def config (setup : Setup) : Config :=
  { granule := setup.granule
    onFailure := if setup.reportErrors then .report else .failFast }

/-- The number of bytes of whole granules, at least one, that hold a buffer. -/
def paddedSize (setup : Setup) (length : Nat) : Nat :=
  let granule := setup.granule.toNat
  (max length 1 + granule - 1) / granule * granule

/-- The IOMMU on which the buffer is mapped. -/
def mapBuffer (setup : Setup) (length : Nat) (grants : Permissions) : Except Failure Iommu :=
  match setup.config.check with
  | .error fault => .error (.endpoint fault)
  | .ok () =>
    let size := setup.paddedSize length
    let mapped := Iommu.map { pageSize := setup.granule } ⟨setup.iova, size.toUInt64⟩
      setup.physBase grants
    match mapped.result with
    | .error fault => .error (.unmapped fault)
    | .ok () => if sizeLimit ≤ size then .error .aborted else .ok mapped.state

/-- Bring up an endpoint on which a buffer is mapped. -/
def bring (setup : Setup) (iommu : Iommu) (contents : ByteArray) :
    Except Failure SoftwareEndpoint :=
  let memory := HostMemory.ofBytes setup.physBase contents (setup.paddedSize contents.size)
  match (Endpoint.bootLinked setup.config iommu memory).1 with
  | .error fault => .error (.endpoint fault)
  | .ok endpoint => .ok endpoint

end Setup

/-! ## Digesting files -/

/-- The line that tells the digest of a file. -/
def digestLine (file : String) (contents : ByteArray) (setup : Setup) : Except Failure String :=
  if lengthLimit ≤ contents.size then .error (.fileTooLong file)
  else do
    let iommu ← setup.mapBuffer contents.size .read
    let endpoint ← setup.bring iommu contents
    match (Host.checksum endpoint setup.iova contents.size.toUInt32).result with
    | .error fault => .error (.endpoint fault)
    | .ok none => .error (.checksumFailed file)
    | .ok (some digest) => .ok (digest.hex ++ "  " ++ file)

/-- Digest files one after another, up to the first that fails. -/
def digestFiles (setup : Setup) (read : String → Except ReadProblem ByteArray) :
    List String → Report
  | [] => {}
  | file :: rest =>
    match read file with
    | .error problem => .stop (.unreadable file problem)
    | .ok contents =>
      match digestLine file contents setup with
      | .error failure => .stop failure
      | .ok line => .say line (digestFiles setup read rest)

/-! ## The self-test -/

/-- Where in the scratch buffer the test word goes. -/
def wordOffset : Nat := 16

/-- The test word. -/
def testWord : UInt32 := 0xdeadbeef

/-- The contents of a scratch buffer. -/
def scratch (size : Nat) : ByteArray :=
  size.fold (fun i _ bytes => bytes.push (i % 251).toUInt8) (ByteArray.emptyWithCapacity size)

/-- An address and a length, as printed. -/
private def rangeText (address : Address) (length : UInt32) : String :=
  Text.hex address.toNat ++ "+" ++ Text.hex length.toNat

/-- Go on with the result of an operation, or end with its fault. -/
def attempt (step : Step SoftwareEndpoint (Except Fault ρ))
    (next : ρ → SoftwareEndpoint → Report) : Report :=
  match step.result with
  | .error fault => .stop (.endpoint fault)
  | .ok value => next value step.state

/-- Digest the scratch buffer, which has the test word in it, and compare. A
buffer too short for the word cannot be compared at all. -/
def selftestDigest (setup : Setup) (contents : ByteArray) (length : UInt32)
    (endpoint : SoftwareEndpoint) : Report :=
  attempt (Host.checksum endpoint setup.iova length) fun digest endpoint =>
  match digest with
  | none => .stop .scratchChecksumFailed
  | some digest =>
    if contents.size < wordOffset + 4 then .stop .aborted
    else
      let expected := Md5.digest (spliceBytes contents wordOffset (Word.bytes testWord))
      .say ("md5sum    " ++ rangeText setup.iova length ++ ": " ++ digest.hex) <|
      if digest ≠ expected then .stop .digestDiffers
      else .say ("selftest passed (" ++ toString endpoint.completed ++ " requests)") {}

/-- Drive an endpoint through every operation on the scratch buffer. -/
def selftestOn (setup : Setup) (contents : ByteArray) (length : UInt32)
    (endpoint : SoftwareEndpoint) : Report :=
  let address := setup.iova + wordOffset.toUInt64
  let place := Text.hex address.toNat
  let word := Text.hex testWord.toNat
  attempt (Host.translate endpoint setup.iova length) fun completion endpoint =>
  .say ("translate " ++ rangeText setup.iova length ++ ": " ++ completion.text ++ ", "
    ++ toString endpoint.cache.size ++ " regions cached") <|
  attempt (Host.writeWord endpoint address testWord) fun completion endpoint =>
  .say ("write     " ++ place ++ " <- " ++ word ++ ": " ++ completion.text) <|
  attempt (Host.readWord endpoint address) fun (completion, value) endpoint =>
  .say ("read      " ++ place ++ " -> " ++ Text.hex value.toNat ++ ": " ++ completion.text) <|
  if value ≠ testWord then .stop (.readBack value testWord)
  else selftestDigest setup contents length endpoint

/-- Test an endpoint on a scratch buffer of four granules. -/
def selftest (setup : Setup) : Report :=
  let size := 4 * setup.granule.toNat
  if sizeLimit ≤ size then .stop .aborted
  else
    match setup.mapBuffer size (.read ||| .write) with
    | .error failure => .stop failure
    | .ok iommu =>
      if lengthLimit ≤ size then .stop .lengthTooLong
      else
        let contents := scratch size
        match setup.bring iommu contents with
        | .error failure => .stop failure
        | .ok endpoint => selftestOn setup contents size.toUInt32 endpoint

/-! ## The register map -/

/-- A bit mask with its name, as printed. -/
private def bitLine (mask : UInt32) (name : String) : String :=
  "  " ++ Text.hexPadded 2 mask.toNat ++ "  " ++ name

/-- The register map in lines. -/
def registerMap : List String :=
  ["BAR0 registers (" ++ toString Register.width ++ "-byte access only)"]
    ++ Register.all.map (fun register =>
      "  " ++ Text.hexPadded 4 register.offset.toNat ++ "  " ++ register.name)
    ++ ["CTRL bits (highest priority first)",
      bitLine Control.translate "TRANSLATE", bitLine Control.read "READ",
      bitLine Control.write "WRITE", bitLine Control.checksum "MD5SUM",
      "STATUS bits", bitLine Status.done "DONE", bitLine Status.failed "ERR"]

/-! ## Running a command -/

/-- The line that tells the version. -/
def versionLine : String := "acc 0.1.0"

/-- Run a command, reading files by the given function. -/
def Command.run (command : Command) (read : String → Except ReadProblem ByteArray) : Outcome :=
  match command with
  | .md5sum files setup => .ofReport (digestFiles setup read files)
  | .selftest setup => .ofReport (Tool.selftest setup)
  | .registers => .ofReport { lines := registerMap }
  | .help none => { stdout := toolHelp }
  | .help (some name) => { stdout := commandHelp name }
  | .version => .ofReport { lines := [versionLine] }

/-- Run the tool on an argument list, reading files by the given function. -/
def run (arguments : List String) (read : String → Except ReadProblem ByteArray) : Outcome :=
  match Command.parse arguments with
  | .error error => .ofUsageError error
  | .ok command => command.run read

/-- The files that a command reads. -/
def Command.files : Command → List String
  | .md5sum files _ => files
  | _ => []

end AtsEndpoint.Tool
