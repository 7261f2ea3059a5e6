import ApiDoc.CommandLine.Run
import Std.Time

/-!
# The command

The outer layer of the command line: it reads what the options name, lets the library
make the document, and writes or prints it.
-/

namespace ApiDoc.Main

open CommandLine

/-- Read the text of a file. -/
def readText? (path : String) : IO (Option String) := do
  try
    return some (← IO.FS.readFile path)
  catch _ => return none

/-- Read a link or a special file; only what leads to a file has a text. -/
def readSpecial (entry : IO.FS.DirEntry) (path : String) : IO FileTree := do
  try
    match (← entry.path.metadata).type with
    | .file => return .special (← readText? path)
    | _ => return .special none
  catch _ => return .special none

/-- Read a file or a directory with all that a scan may look at. -/
partial def readTree? (path : String) : IO (Option FileTree) := do
  match ← readText? path with
  | some text => return some (.file text)
  | none =>
      try
        let entries ← (← IO.FS.realPath path).readDir
        let found ← entries.toList.filterMapM fun entry => do
          if Source.isSkipped entry.fileName then return none
          let below := Source.pathBelow path [entry.fileName]
          let tree ← match (← entry.path.symlinkMetadata).type with
            | .file | .dir => readTree? below
            | _ => some <$> readSpecial entry below
          return tree.map (entry.fileName, ·)
        return some (.directory found)
      catch _ => return none

/-- Read what some paths lead to. -/
def lookup (paths : List String) : IO Lookup := do
  let found ← paths.mapM fun path => return (path, ← readTree? path)
  return fun path => (found.find? fun entry => entry.1 = path).bind (·.2)

/-- The date and the time of the clock. -/
def now : IO Moment := do
  let t ← Std.Time.PlainDateTime.now
  return ⟨t.date.format "uuuu-MM-dd", t.time.format "HH:mm:ss"⟩

/-- Do something with a file; what goes wrong is told as a fault. -/
def attempt (action : IO Unit) (fault : FileTree.WriteFault) : IO (Except Failure Unit) := do
  try
    action
    return .ok ()
  catch _ => return .error (.unwritten fault)

/-- Write a file and the directories on the way to it. -/
def write (path text : String) : IO (Except Failure Unit) := do
  let parent := FileTree.parentPath path
  let made ← if parent = "" then pure (.ok ())
    else attempt (IO.FS.createDirAll parent) (.directory parent)
  match made with
  | .ok () => attempt (IO.FS.writeFile path text) (.file path)
  | .error f => return .error f

/-- Tell what went wrong, and end with an error. -/
def fail (f : Failure) : IO UInt32 := do
  IO.eprintln f.message
  return 1

def usage : String :=
  "Usage: apidoc [OPTIONS] <MANIFEST>\n\n" ++
    "Options:\n" ++
    "  -c, --config <CONFIG>   Settings file in YAML or JSON\n" ++
    "  -s, --sources <DIR>     Directory of Rust sources with annotated structs and handlers\n" ++
    "  -f, --format <FORMAT>   Output format: yaml or json\n" ++
    "  -o, --output <FILE>     Output file path\n" ++
    "      --filter <PREFIX>   Only document routes under this prefix\n" ++
    "  -v, --verbose           Enable verbose output\n" ++
    "  -h, --help              Print help\n" ++
    "  -V, --version           Print version"

/-- Run the command with its options. -/
def runWith (o : Options) : IO UInt32 := do
  let named ← lookup (o.manifest :: o.config.toList ++ o.sources.toList)
  let more ← match o.settings named with
    | .ok settings => lookup settings.schemaDirectory.toList
    | .error _ => lookup []
  let look : Lookup := fun path => (named path).or (more path)
  match o.generate look (← now) with
  | .error f => fail f
  | .ok (text, warnings) =>
      for warning in warnings do IO.eprintln warning.message
      match o.output with
      | none =>
          IO.println text
          return 0
      | some path =>
          match ← write path text with
          | .ok () => return 0
          | .error f => fail f

end ApiDoc.Main

def main (arguments : List String) : IO UInt32 := do
  match ApiDoc.CommandLine.Options.ofArguments arguments with
  | .ok o => ApiDoc.Main.runWith o
  | .error .help =>
      IO.println ApiDoc.Main.usage
      return 0
  | .error .version =>
      IO.println "apidoc 0.1.0"
      return 0
  | .error fault =>
      IO.eprintln (ApiDoc.CommandLine.Failure.usage fault).message
      IO.eprintln ApiDoc.Main.usage
      return 2
