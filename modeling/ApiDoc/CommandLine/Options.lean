import ApiDoc.Text.Basic

/-!
# Arguments of the command line

The command takes the path of a manifest and options before or after it.  A value
follows its option, with an equals sign or at once after a letter, or as the next
argument.  Such a value is settled only when the next option, the manifest or the end
comes, so a fault of a later option may be found before that of an earlier value.
-/

namespace ApiDoc.CommandLine

/-- The format of the written document. -/
inductive Format
  | yaml
  | json
deriving DecidableEq, Repr, Inhabited

/-- What the command is asked to do. -/
structure Options where
  /-- The path of the manifest. -/
  manifest : String
  /-- The path of the settings. -/
  config : Option String := none
  /-- A directory of source files. -/
  sources : Option String := none
  format : Format := .json
  /-- The file to write to. -/
  output : Option String := none
  /-- The prefix of the documented routes. -/
  filter : Option String := none
  verbose : Bool := false
deriving DecidableEq, Repr, Inhabited

/-- The options that are settled so far. -/
structure Draft where
  manifest : Option String := none
  config : Option String := none
  sources : Option String := none
  format : Option Format := none
  output : Option String := none
  filter : Option String := none
  verbose : Bool := false
deriving DecidableEq, Repr, Inhabited

/-- Why arguments are not taken, or that they ask for help or the version. -/
inductive UsageFault
  | help
  | version
  | unknownArgument
  | invalidValue
  | unneededValue
  | missingManifest
  | repeatedOption
deriving DecidableEq, Repr, Inhabited

/-- An option with a value, or the manifest. -/
inductive Slot
  | manifest
  | config
  | sources
  | format
  | output
  | filter
deriving DecidableEq, Repr, Inhabited

/-- An option. -/
inductive Switch
  | takes (slot : Slot)
  | verbose
  | help
  | version
deriving DecidableEq, Repr, Inhabited

namespace Switch

def ofLetter? : Char → Option Switch
  | 'c' => some (takes .config)
  | 's' => some (takes .sources)
  | 'f' => some (takes .format)
  | 'o' => some (takes .output)
  | 'v' => some verbose
  | 'h' => some help
  | 'V' => some version
  | _ => none

def ofName? : String → Option Switch
  | "config" => some (takes .config)
  | "sources" => some (takes .sources)
  | "format" => some (takes .format)
  | "output" => some (takes .output)
  | "filter" => some (takes .filter)
  | "verbose" => some verbose
  | "help" => some help
  | "version" => some version
  | _ => none

end Switch

def Format.ofName? : String → Option Format
  | "yaml" => some .yaml
  | "json" => some .json
  | _ => none

namespace Draft

/-- Fill a place that holds nothing yet. -/
def fill (old : Option α) (new : Option α) : Except UsageFault (Option α) :=
  if old.isSome then .error .repeatedOption
  else match new with
    | some a => .ok (some a)
    | none => .error .invalidValue

/-- A path is not empty. -/
def path? (value : String) : Option String :=
  if value = "" then none else some value

/-- Settle a value. -/
def set (d : Draft) (slot : Slot) (value : String) : Except UsageFault Draft :=
  match slot with
  | .manifest => return { d with manifest := ← fill d.manifest (path? value) }
  | .config => return { d with config := ← fill d.config (path? value) }
  | .sources => return { d with sources := ← fill d.sources (path? value) }
  | .format => return { d with format := ← fill d.format (Format.ofName? value) }
  | .output => return { d with output := ← fill d.output (path? value) }
  | .filter => return { d with filter := ← fill d.filter (some value) }

/-- The finished options, which need a manifest. -/
def finish (d : Draft) : Except UsageFault Options :=
  match d.manifest with
  | none => .error .missingManifest
  | some manifest => .ok {
      manifest
      config := d.config
      sources := d.sources
      format := d.format.getD .json
      output := d.output
      filter := d.filter
      verbose := d.verbose }

end Draft

/-- The arguments read so far. -/
structure Progress where
  draft : Draft := {}
  /-- An option or the manifest that is not settled, with its value if that has come. -/
  pending : Option (Slot × Option String) := none
  /-- The manifest has been named. -/
  hasManifest : Bool := false
  /-- Only the manifest may follow. -/
  isOver : Bool := false
deriving Inhabited

namespace Progress

/-- Settle what is pending. -/
def settle (p : Progress) : Except UsageFault Progress :=
  match p.pending with
  | none => .ok p
  | some (_, none) => .error .invalidValue
  | some (slot, some value) =>
      return { p with draft := ← p.draft.set slot value, pending := none }

/-- An option with a value that is written together with it. -/
def attach (p : Progress) (slot : Slot) (value : String) : Except UsageFault Progress := do
  let p ← p.settle
  return { p with draft := ← p.draft.set slot value }

/-- An option whose value comes next. -/
def await (p : Progress) (slot : Slot) : Except UsageFault Progress := do
  return { (← p.settle) with pending := some (slot, none) }

/-- An option without a value. -/
def flag (p : Progress) (switch : Switch) : Except UsageFault Progress := do
  let p ← p.settle
  match switch with
  | .verbose =>
      if p.draft.verbose then .error .repeatedOption
      else return { p with draft := { p.draft with verbose := true } }
  | .help => .error .help
  | .version => .error .version
  | .takes slot => p.await slot

/-- An option by its name, with the text after an equals sign if there is one. -/
def named (p : Progress) (name : String) (value : Option String) : Except UsageFault Progress :=
  match Switch.ofName? name, value with
  | none, _ => .error .unknownArgument
  | some (.takes slot), some value => p.attach slot value
  | some switch, none => p.flag switch
  | some _, some _ => .error .unneededValue

/-- Options by their letters; what follows one with a value is the value. -/
def letters (p : Progress) : List Char → Except UsageFault Progress
  | [] => .ok p
  | c :: rest =>
      match Switch.ofLetter? c with
      | none => .error .unknownArgument
      | some (.takes slot) =>
          match rest with
          | [] => p.await slot
          | '=' :: value => p.attach slot (String.ofList value)
          | value => p.attach slot (String.ofList value)
      | some switch => do letters (← p.flag switch) rest

/-- The manifest; there is only one. -/
def positional (p : Progress) (value : String) : Except UsageFault Progress :=
  if p.hasManifest then .error .unknownArgument
  else return { (← p.settle) with
    pending := some (.manifest, some value), hasManifest := true }

/-- An argument that is no option: the value that an option waits for, or the manifest. -/
def plain (p : Progress) (value : String) : Except UsageFault Progress :=
  match p.pending with
  | some (slot, none) => .ok { p with pending := some (slot, some value) }
  | _ => p.positional value

/-- One more argument. -/
def add (p : Progress) (argument : String) : Except UsageFault Progress :=
  if p.isOver then p.positional argument
  else match argument.toList with
    | ['-', '-'] => .ok { p with isOver := true }
    | '-' :: '-' :: rest =>
        match Text.cutFirst? '=' rest with
        | some (name, value) => p.named (String.ofList name) (some (String.ofList value))
        | none => p.named (String.ofList rest) none
    | ['-'] => p.plain argument
    | '-' :: rest => p.letters rest
    | _ => p.plain argument

end Progress

/-- The options that a list of arguments states. -/
def Options.ofArguments (arguments : List String) : Except UsageFault Options := do
  let p ← arguments.foldlM Progress.add {}
  (← p.settle).draft.finish

end ApiDoc.CommandLine
