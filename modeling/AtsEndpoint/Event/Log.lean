import AtsEndpoint.Event

/-!
# The log

An event that is meant for the log has a level and a message. Addresses,
lengths and register words are written in hexadecimal, counts in decimal, and
requests, outcomes and configurations field by field.
-/

namespace AtsEndpoint

/-- How much a log message matters. -/
inductive LogLevel
  | debug
  | info
  | warn
  | error
deriving DecidableEq, Repr

/-- The name of a level. -/
def LogLevel.text : LogLevel → String
  | .debug => "DEBUG"
  | .info => "INFO"
  | .warn => "WARN"
  | .error => "ERROR"

/-- A word or an address in a message. -/
private def hexAddress (address : UInt64) : String :=
  Text.hex address.toNat

/-- A register word in a message. -/
private def hexWord (word : UInt32) : String :=
  Text.hex word.toNat

/-- The name of the register at an offset, or a question mark. -/
private def registerName (offset : Address) : String :=
  (Register.nameAt? offset).getD "?"

/-- The level and the message of a remark. -/
def Remark.log : Remark → LogLevel × String
  | mapped range target grants =>
    (.info, "IOMMU map " ++ hexAddress range.start ++ " -> " ++ hexAddress target
      ++ " size=" ++ hexAddress range.length ++ " perms=" ++ grants.text)
  | unmapped range removed =>
    (.info, "IOMMU unmap " ++ hexAddress range.start ++ " size=" ++ hexAddress range.length
      ++ ": " ++ toString removed ++ " mappings")
  | undelivered range =>
    (.warn, "Invalidation for " ++ hexAddress range.start
      ++ " not delivered: accelerator gone")
  | noMapping address => (.debug, "IOMMU: no mapping for " ++ hexAddress address)

/-- The level and the message of an event that is meant for the log. -/
def Event.log? : Event → Option (LogLevel × String)
  | requested _ | readIssued _ _ | writeIssued _ _ | posted _ | taken _ => none
  | remark said => some said.log
  | cached region =>
    some (.debug, "ATS " ++ hexAddress region.span.start ++ " -> " ++ hexAddress region.target
      ++ " len=" ++ hexAddress region.span.length ++ " attrs=" ++ region.grants.text)
  | fillDeclined address fault =>
    some (.debug, "ATS fill stopped at " ++ hexAddress address ++ ": " ++ fault.message)
  | fillUnusable address =>
    some (.warn, "ATS fill stopped: " ++ (Fault.translation address .emptyGranule).message)
  | invalidated range removed =>
    some (.debug, "ATC invalidate " ++ hexAddress range.start ++ "+" ++ hexAddress range.length
      ++ ": " ++ toString removed ++ " removed")
  | noticeApplied notice removed =>
    some (.debug, "Invalidation " ++ hexAddress notice.start ++ "+" ++ hexAddress notice.length
      ++ " applied, " ++ toString removed ++ " regions dropped")
  | flushed regions => some (.debug, "ATC flush: " ++ toString regions ++ " regions dropped")
  | configAccepted config => some (.debug, "Accelerator config ok: " ++ config.text)
  | started config =>
    some (.info, "PCIe accelerator up: granule=" ++ hexAddress config.granule
      ++ " transport_failure=" ++ config.onFailure.text)
  | configAccess offset =>
    some (.debug, "Config access at " ++ hexAddress offset ++ " acknowledged")
  | rejected offset length problem =>
    some (.warn, "Rejected MMIO access at " ++ hexAddress offset ++ " (len " ++ toString length
      ++ "): " ++ problem.message)
  | registerRead offset word =>
    some (.debug, "MMIO read " ++ registerName offset ++ " = " ++ hexWord word)
  | registerWritten offset word =>
    some (.debug, "MMIO write " ++ registerName offset ++ " <- " ++ hexWord word)
  | triggered control request =>
    some (.debug, "CTRL " ++ hexWord control ++ " -> " ++ request.text)
  | triggerDropped control =>
    some (.warn, "CTRL " ++ hexWord control ++ " dropped: device halted")
  | workStarted request => some (.debug, "Worker start: " ++ request.text)
  | workDone outcome status =>
    some (.debug, "Worker done: " ++ outcome.text ++ " status=" ++ hexWord status)
  | readDenied address reason =>
    some (.warn, "Read " ++ hexAddress address ++ ": " ++ reason.text)
  | writeDenied address reason =>
    some (.warn, "Write " ++ hexAddress address ++ ": " ++ reason.text)
  | checksumStopped address =>
    some (.warn, "Checksum stopped at " ++ hexAddress address ++ ": no readable translation")
  | haltedOn request fault =>
    some (.error, "Halting on " ++ request.text ++ ": " ++ fault.message)
  | requestFailed request fault =>
    some (.warn, request.text ++ " failed: " ++ fault.message)
  | wasReset regions =>
    some (.info, "Reset: registers cleared, " ++ toString regions ++ " regions cached")
  | statusSeen status polls =>
    some (.debug, "STATUS " ++ hexWord status ++ " after " ++ toString polls ++ " polls")

/-- The log of a trace: its messages in order. -/
def Trace.log (trace : Trace) : Array (LogLevel × String) :=
  trace.filterMap Event.log?

end AtsEndpoint
