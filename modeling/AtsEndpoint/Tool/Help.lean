import AtsEndpoint.Tool.Command

/-!
# Help pages

The page of the tool lists the commands; the page of a command lists what it
takes.
-/

namespace AtsEndpoint.Tool

/-- Text filled up with blanks to a width. -/
private def padded (width : Nat) (text : String) : String :=
  text ++ String.ofList (List.replicate (width - text.length) ' ')

/-- Lines, each with its end. -/
def unlines (lines : List String) : String :=
  lines.foldl (fun text line => text ++ line ++ "\n") ""

theorem unlines_eq_join (lines : List String) :
    unlines lines = String.join (lines.map fun line => line ++ "\n") := by
  simp only [unlines, String.join, List.foldl_map, String.append_assoc]

/-- The options that a setup is given by, with what they mean. -/
private def setupOptions : List String :=
  [ "      --iova <IOVA>            IO virtual address the buffer is mapped at [default: 0x8000]",
    "      --phys-base <PHYS_BASE>  Physical address of host memory [default: 0x10000000]",
    "      --granule <GRANULE>      Translation granule in bytes (power of two) [default: 4096]",
    "      --report-errors          Report transport failures as STATUS.ERR instead of halting",
    "  -h, --help                   Print help" ]

/-- The page of the tool. -/
def toolHelp : String :=
  unlines <|
    ["PCIe ATS accelerator model CLI", "", "Usage: acc <COMMAND>", "", "Commands:"]
      ++ CommandName.all.map (fun name => "  " ++ padded 10 name.word ++ name.summary)
      ++ ["", "Options:", "  -h, --help     Print help", "  -V, --version  Print version"]

/-- The page of a command. -/
def commandHelp (name : CommandName) : String :=
  unlines <| [name.summary, ""] ++
    match name with
    | .md5sum =>
      ["Usage: acc md5sum [OPTIONS] <FILES>...", "", "Arguments:",
        "  <FILES>...  Files to checksum", "", "Options:"] ++ setupOptions
    | .selftest => ["Usage: acc selftest [OPTIONS]", "", "Options:"] ++ setupOptions
    | .registers => ["Usage: acc regs", "", "Options:", "  -h, --help  Print help"]
    | .help =>
      ["Usage: acc help [COMMAND]...", "", "Arguments:",
        "  [COMMAND]...  Print help for the subcommand(s)"]

end AtsEndpoint.Tool
