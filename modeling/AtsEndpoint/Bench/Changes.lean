import AtsEndpoint.Memory.Host

/-!
# Changed bytes

What a trial did to a memory is told by the runs of bytes that differ from the
contents before it: the position of each run, and its bytes after the trial.
-/

namespace AtsEndpoint.Bench

/-- The runs found so far, and the run that the scan is in, with its bytes in
reverse. -/
structure ChangeScan where
  /-- The runs that have ended. -/
  closed : Array (Nat × List UInt8) := #[]
  /-- The start and the bytes of the run that has not ended. -/
  current : Option (Nat × List UInt8) := none

namespace ChangeScan

/-- End the current run. -/
def close (scan : ChangeScan) : ChangeScan :=
  match scan.current with
  | none => scan
  | some (start, bytes) => { closed := scan.closed.push (start, bytes.reverse) }

/-- Take in the byte at a position, as it was and as it is. -/
def take (scan : ChangeScan) (position : Nat) (old new : UInt8) : ChangeScan :=
  if old = new then scan.close
  else
    match scan.current with
    | none => { scan with current := some (position, [new]) }
    | some (start, bytes) => { scan with current := some (start, new :: bytes) }

end ChangeScan

/-- The maximal runs of bytes that differ, each with its position and its bytes
afterwards. -/
def changedRuns (before after : HostMemory) : Array (Nat × List UInt8) :=
  let scan := (max before.stored.size after.stored.size).fold
    (fun i _ scan => ChangeScan.take scan i (before.byteAt i) (after.byteAt i)) {}
  scan.close.closed

end AtsEndpoint.Bench
