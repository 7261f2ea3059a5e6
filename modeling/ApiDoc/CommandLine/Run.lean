import ApiDoc.Assembly.Document
import ApiDoc.CommandLine.Options
import ApiDoc.FileTree
import ApiDoc.Manifest
import ApiDoc.Settings.Reader
import ApiDoc.Source.Scan
import ApiDoc.Yaml.Printer

/-!
# The run of the command

A run looks up the files that its options name, and gives the text of the document.
What the run cannot do is told by the step that failed, with its cause.
-/

namespace ApiDoc.CommandLine

/-- Why a run ends without a document. -/
inductive Failure
  | usage (fault : UsageFault)
  | noManifest (path : String)
  | noConfig (path : String)
  | noSources (path : String)
  | badSettings (path : String) (cause : Error)
  | badManifest (path : String) (cause : Error)
  /-- A directory of source files that the settings name is none. -/
  | badScan (path : String)
  | badPages (cause : Error)
  | badDocument (cause : Error)
  | unwritten (fault : FileTree.WriteFault)
deriving Repr, Inhabited

/-- The text that leads a failure, if it has one of its own. -/
def Failure.headline? : Failure → Option String
  | .usage _ | .badPages _ => none
  | .noManifest path => some ("Manifest file does not exist: " ++ path)
  | .noConfig path => some ("Config file does not exist: " ++ path)
  | .noSources path => some ("Sources path is not a directory: " ++ path)
  | .badSettings path _ => some ("Failed to load settings from " ++ path)
  | .badManifest path _ => some ("Failed to load manifest " ++ path)
  | .badScan path => some ("Failed to scan sources in " ++ path)
  | .badDocument _ => some "Failed to generate OpenAPI document"
  | .unwritten (.directory path) => some ("Failed to create directory: " ++ path)
  | .unwritten (.file path) => some ("Failed to write to file: " ++ path)

/-- The cause of a failure in what the files say. -/
def Failure.cause? : Failure → Option Error
  | .badSettings _ cause | .badManifest _ cause | .badPages cause | .badDocument cause => some cause
  | _ => none

def UsageFault.message : UsageFault → String
  | .help => "help is asked for"
  | .version => "the version is asked for"
  | .unknownArgument => "unexpected argument"
  | .invalidValue => "a value is missing or invalid"
  | .unneededValue => "a value is given to an option that takes none"
  | .missingManifest => "the manifest is not given"
  | .repeatedOption => "an option is given twice"

/-- The text of a failure with that of its cause. -/
def Failure.message : Failure → String
  | .usage fault => "error: " ++ fault.message
  | f => ": ".intercalate (f.headline?.toList ++ (f.cause?.map Error.message).toList)

/-- What paths lead to. -/
abbrev Lookup := String → Option FileTree

namespace Lookup

def text? (look : Lookup) (path : String) : Option String :=
  (look path).bind FileTree.text?

def isDirectory (look : Lookup) (path : String) : Bool :=
  (look path).any FileTree.isDirectory

end Lookup

namespace Options

/-- The named files and directories must be there. -/
def check (o : Options) (look : Lookup) : Except Failure Unit := do
  if (look.text? o.manifest).isNone then throw (.noManifest o.manifest)
  if let some path := o.config then
    if (look.text? path).isNone then throw (.noConfig path)
  if let some path := o.sources then
    if !look.isDirectory path then throw (.noSources path)

/-- The settings that the options name, or the usual ones. -/
def settings (o : Options) (look : Lookup) : Except Failure Settings :=
  match o.config with
  | none => .ok {}
  | some path =>
      let read := match look.text? path with
        | some text => Settings.ofFile path text
        | none => .error .file
      read.mapError (.badSettings path)

def readManifest (o : Options) (look : Lookup) : Except Failure Manifest :=
  let read := match look.text? o.manifest with
    | some text => Manifest.ofFile o.manifest text
    | none => .error .file
  read.mapError (.badManifest o.manifest)

/-- The directories of source files: that of the settings, then that of the options. -/
def directories (o : Options) (s : Settings) : List String :=
  s.schemaDirectory.toList ++ o.sources.toList

end Options

/-- What the source files of a directory say. -/
def findings (look : Lookup) (path : String) :
    Except Failure (Source.Findings × List Warning) :=
  match (look path).bind (Source.filesBelow? path) with
  | some files => .ok (Source.Findings.ofFiles files)
  | none => .error (.badScan path)

/-- The application of a manifest, and of sources that are asked after it. -/
def application (m : Manifest) (sources : List Source.Findings) : Application :=
  { routes := m.routes
    resolve := .chain (m.resolve :: sources.map (·.resolve))
    entities := m.entities :: sources.map (·.entities) }

/-- The text of a document. -/
def Format.render : Format → Document → String
  | .json, d => d.toJson.pretty
  | .yaml, d => Yaml.render d.toJson

/-- The text of the document that the options ask for, and what was said on the way. -/
def Options.generate (o : Options) (look : Lookup) (now : Moment) :
    Except Failure (String × List Warning) := do
  o.check look
  let settings ← o.settings look
  let manifest ← o.readManifest look
  let found ← (o.directories settings).mapM (findings look)
  let app := application manifest (found.map (·.1))
  let assembly ← (app.assembly settings now).mapError .badPages
  let (document, warnings) ← (app.documentOf assembly o.filter).mapError .badDocument
  return (o.format.render document, found.flatMap (·.2) ++ warnings)

/-- The text of the document, and the files after it is written where that is asked. -/
def Options.run (o : Options) (tree : FileTree) (now : Moment) :
    Except Failure (String × List Warning × FileTree) := do
  let (text, warnings) ← o.generate tree.find? now
  match o.output with
  | none => return (text, warnings, tree)
  | some path => return (text, warnings, ← (tree.write path text).mapError .unwritten)

end ApiDoc.CommandLine
