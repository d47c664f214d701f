import SuiteLint.Config.Options
import SuiteLint.Session

/-! The command line: flags with their values, and paths. -/
namespace SuiteLint

namespace Command

/-- A flag as it is written, with the text that follows it in its word. -/
structure Mark where
  flag : Flag
  spelling : String
  attached : Option (List Char)

inductive Word where
  | plain (s : String)
  /-- After the first double dash there are no flags. -/
  | divider
  | flagged (m : Mark)
  /-- A word that looks like a flag and is none. -/
  | unknown (s : String)

/-- The flags that a word with a dash in front can stand for. The name of a flag with two dashes may
be cut short; one with a single dash may be cut short, or be a letter with a value after it. -/
def candidates (word : List Char) : List Mark :=
  match word with
  | '-' :: '-' :: _ =>
    let (name, value) := Text.cutAt '=' word
    Flag.table.filterMap fun (s, f) =>
      if name.isPrefixOf s.toList then some ⟨f, s, value⟩ else none
  | _ =>
    Flag.table.filterMap fun (s, f) =>
      if s.toList = word.take 2 then some ⟨f, s, some (word.drop 2)⟩
      else if word.isPrefixOf s.toList then some ⟨f, s, none⟩
      else none

def signed? (word : List Char) : Option Mark :=
  match Text.cutAt '=' word with
  | (name, some value) =>
    (Flag.ofSpelling? (String.ofList name)).map fun f => ⟨f, String.ofList name, some value⟩
  | (_, none) => none

def isNegative (word : List Char) : Bool :=
  match word with
  | '-' :: digits =>
    match Text.cutAt '.' digits with
    | (whole, some part) =>
      whole.all Text.isDecimal && !part.isEmpty && part.all Text.isDecimal
    | (whole, none) => !whole.isEmpty && whole.all Text.isDecimal
  | _ => false

def classify (word : String) : Except UsageError Word :=
  let chars := word.toList
  if chars.head? ≠ some '-' then .ok (.plain word)
  else match Flag.ofSpelling? word with
    | some f => .ok (.flagged ⟨f, word, none⟩)
    | none =>
      if chars.length = 1 then .ok (.plain word)
      else match signed? chars with
        | some m => .ok (.flagged m)
        | none =>
          match candidates chars with
          | [m] => .ok (.flagged m)
          | [] =>
            if isNegative chars || chars.contains ' ' then .ok (.plain word)
            else .ok (.unknown word)
          | marks => .error (.ambiguous word (marks.map (·.spelling)))

def classifyAll : List String → Except UsageError (List Word)
  | [] => .ok []
  | word :: words =>
    if word = "--" then .ok (.divider :: words.map .plain)
    else do
      let first ← classify word
      let rest ← classifyAll words
      return first :: rest

structure Act where
  flag : Flag
  value : Option String

structure Matched where
  acts : List Act
  /-- Whether the next word was taken as a value. -/
  tookNext : Bool

/-- A flag without a value in its own word. -/
def take (f : Flag) (next : Option String) : Except UsageError Matched :=
  match f.arity, next with
  | .none, _ => .ok ⟨[⟨f, none⟩], false⟩
  | .one, none => .error (.missingValue f)
  | .optional, none => .ok ⟨[⟨f, none⟩], false⟩
  | _, some value => .ok ⟨[⟨f, some value⟩], true⟩

def give (f : Flag) (value : List Char) : Except UsageError Matched :=
  if f.arity = .none then .error (.ignoredValue f (String.ofList value))
  else .ok ⟨[⟨f, some (String.ofList value)⟩], false⟩

/-- A flag of a single dash with a text after it: its value, or letters of more flags if it takes
none. -/
def spell (next : Option String) (f : Flag) : List Char → Except UsageError Matched
  | [] => give f []
  | c :: rest =>
    if f.arity ≠ .none then give f (c :: rest)
    else match Flag.ofSpelling? (String.ofList ['-', c]) with
      | none => .error (.ignoredValue f (String.ofList (c :: rest)))
      | some g =>
        let more := if rest.isEmpty then take g next else spell next g rest
        more.map fun m => { m with acts := ⟨f, none⟩ :: m.acts }

def Mark.resolve (m : Mark) (next : Option String) : Except UsageError Matched :=
  match m.attached with
  | none => take m.flag next
  | some text =>
    if ['-', '-'].isPrefixOf m.spelling.toList then give m.flag text else spell next m.flag text

/-- Where a word stands: before the paths, among them, or after them. -/
inductive Stage where
  | before | among | after
  deriving DecidableEq

def Stage.close : Stage → Stage
  | before => before
  | _ => after

/-- A command line taken apart. The paths are the words of one run; acts come before the fault, if
there is one. -/
structure Parsed where
  acts : List Act
  paths : List String
  strays : List String
  fault : Option UsageError

def Parsed.none : Parsed := ⟨[], [], [], .none⟩

def Parsed.add (m : Matched) (p : Parsed) : Parsed :=
  { p with acts := m.acts ++ p.acts }

def Parsed.addPlain (stage : Stage) (s : String) (p : Parsed) : Parsed :=
  if stage = .after then { p with strays := s :: p.strays } else { p with paths := s :: p.paths }

def Stage.next (stage : Stage) : Stage := if stage = .after then .after else .among

def parse (stage : Stage) : List Word → Parsed
  | [] => .none
  | .plain s :: words => (parse stage.next words).addPlain stage s
  | .divider :: words => (parse stage.next words).addPlain stage "--"
  | .unknown s :: words =>
    let p := parse stage.close words
    { p with strays := s :: p.strays }
  | .flagged m :: .plain s :: words =>
    match m.resolve (some s) with
    | .error e => { Parsed.none with fault := some e }
    | .ok matched =>
      if matched.tookNext then (parse stage.close words).add matched
      else ((parse stage.close.next words).addPlain stage.close s).add matched
  | .flagged m :: words =>
    match m.resolve none with
    | .error e => { Parsed.none with fault := some e }
    | .ok matched => (parse stage.close words).add matched

end Command

namespace Options

def parts (value : String) : List String := (Text.splitAt ',' value.toList).map String.ofList

def addAll (texts new : List String) : List String := new.foldl Text.insertText texts

def fileType (ending : String) : String :=
  if ending.toList.head? = some '.' then ending else "." ++ ending

def listed (value : String) : RulePattern := .ofText (if value.isEmpty then "*" else value)

def set (o : Options) (f : Flag) (value : String) : Options :=
  match f with
  | .included =>
    { o with selection := { o.selection with
        included := addAll o.selection.included (parts value) } }
  | .excluded =>
    { o with selection := { o.selection with
        excluded := addAll o.selection.excluded (parts value) } }
  | .extraRules => { o with extraRules := addAll o.extraRules (parts value) }
  | .flat => { o with recursive := false }
  | .reports => { o with reports := addAll o.reports (parts value) }
  | .format => { o with format := value }
  | .setting => { o with settings := o.settings ++ [String.ofList (Text.trim value.toList)] }
  | .listing => { o with listing := listed value }
  | .paramListing => { o with paramListing := listed value }
  | .reportListing => { o with listsReports := true }
  | .output => { o with output := if value = "-" then none else some value }
  | .fileTypes => { o with fileTypes := addAll o.fileTypes ((parts value).map fileType) }
  | .threshold =>
    { o with selection := { o.selection with threshold := .ofThreshold value } }
  | .ignored => { o with ignored := addAll o.ignored (parts value) }
  | .verbose => { o with verbose := true }
  | .argumentFile | .help | .version | .directives => o

end Options

namespace Command

def versionText : String := "1.11.2"

def directivesText : String :=
  "1. Serve the public trust\n2. Protect the innocent\n3. Uphold the law\n4. [ACCESS DENIED]"

def helpText : String :=
  "usage: robocop [options] [paths]\n\n" ++
    "\n".intercalate (Flag.all.map fun f => "  " ++ ", ".intercalate f.spellings)

def textOf? : Flag → Option String
  | .help => some helpText
  | .version => some versionText
  | .directives => some directivesText
  | _ => none

/-- Acts upon the flags in order. An output file is started anew when its flag is reached. -/
def perform (s : Session) (o : Options) : List Act → Session × Except Ending Options
  | [] => (s, .ok o)
  | act :: acts =>
    let value := act.value.getD ""
    match textOf? act.flag with
    | some text => (s.say text, .error (.quit (some 0)))
    | none =>
      if act.flag = .output && value ≠ "-" then
        match s.project.openFile value with
        | .error e => (s, .error (.misused (.unwritable value e)))
        | .ok project => perform { s with project := project } (o.set act.flag value) acts
      else perform s (o.set act.flag value) acts

/-- The paths of a command line; the first double dash does not count, and without any path the
standard ones are taken. -/
def Parsed.pathList (p : Parsed) : List String :=
  match p.paths.erase "--" with
  | [] => Options.standard.paths
  | paths => paths

def read (s : Session) (o : Options) (words : List String) : Session × Except Ending Options :=
  match classifyAll words with
  | .error e => (s, .error (.misused e))
  | .ok classified =>
    let parsed := parse .before classified
    match perform s o parsed.acts with
    | (s, .error e) => (s, .error e)
    | (s, .ok o) =>
      match parsed.fault, parsed.strays with
      | some e, _ => (s, .error (.misused e))
      | none, [] => (s, .ok { o with paths := parsed.pathList })
      | none, strays => (s, .error (.misused (.unrecognized strays)))

end Command

end SuiteLint
