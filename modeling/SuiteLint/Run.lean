import SuiteLint.Config.Load
import SuiteLint.Listing
import SuiteLint.Project.Scan

/-! A whole run: options, listings, checks of all files and reports. -/
namespace SuiteLint

def Project.checkExtraRules (project : Project) : List String → Except LintError Unit
  | [] => .ok ()
  | place :: places =>
    if project.holds (Path.ofString place) || project.modules.contains place then
      project.checkExtraRules places
    else .error (.missingRules place)

def Options.wanted (o : Options) : Wanted := ⟨o.ignored, o.fileTypes, o.recursive⟩

namespace Run

def tell (o : Options) (s : Session) (r : Reports) (i : Issue) :
    Except LintError (Session × Reports) :=
  match i.render o.format s.project.cwd with
  | .error e => .error (.invalidFormat e)
  | .ok line => .ok (s.write o.output line, r.add i)

def tellAll (o : Options) (s : Session) (r : Reports) :
    List Issue → Session × Except LintError Reports
  | [] => (s, .ok r)
  | i :: is =>
    match tell o s r i with
    | .error e => (s, .error e)
    | .ok (s, r) => tellAll o s r is

/-- Checks files in order, up to one whose check fails. -/
def checkAll (o : Options) (s : Session) (l : Linter) (r : Reports) :
    List Scanned → Session × Except LintError Reports
  | [] => (s, .ok r)
  | f :: fs =>
    let s := if o.verbose then s.say ("Scanning file: " ++ f.path.toString) else s
    match l.check (f.subject s.project) with
    | (.error e, _) => (s, .error e)
    | (.ok issues, l) =>
      match tellAll o s r (Issue.sort issues) with
      | (s, .error e) => (s, .error e)
      | (s, .ok r) => checkAll o s l r fs

def writeReports (o : Options) (seconds : String) (s : Session) (r : Reports) : Session :=
  (r.active.filterMap (r.text seconds)).foldl (fun s text => s.write o.output text) s

def checks (o : Options) (seconds : String) (s : Session) (setup : Setup) :
    Session × Except LintError Reports :=
  let gathered := s.project.gather o.wanted (o.paths.map Path.ofString)
  let scan := Scan.ofPaths s.project (gathered.paths.map s.project.absolute)
  let s := s.sayAll scan.notes
  match gathered.error with
  | some e => (s, .error e)
  | none =>
    match checkAll o s setup.linter setup.reports scan.files with
    | (s, .error e) => (s, .error e)
    | (s, .ok r) =>
      let r := { r with fileCount := scan.files.length }.settle
      (writeReports o seconds s r, .ok r)

/-- Runs with given options: a listing if one is asked for, else all checks. -/
def withOptions (host : Host) (o : Options) (seconds : String) (s : Session) :
    Session × Except Ending Reports :=
  match s.project.checkExtraRules o.extraRules with
  | .error e => (s, .error (.failed e))
  | .ok () =>
    match o.linter host with
    | (notes, .error e) => (s.sayAll notes, .error (.failed e))
    | (notes, .ok linter) =>
      let s := s.sayAll notes
      if !(o.listing.isBlank && o.paramListing.isBlank) then
        (s.sayAll (linter.listing o.listing o.paramListing), .error (.quit none))
      else if o.listsReports then (s.say Reports.listing, .error (.quit none))
      else
        match o.configure linter with
        | .error e => (s, .error (.failed e))
        | .ok setup =>
          match checks o seconds s setup with
          | (s, .error e) => (s, .error (.failed e))
          | (s, .ok r) => (s, .ok r)

/-- A run as a request asks for it: a command line ends with a status, a program gets the issues. The
time that the report on it names is given. -/
def ofRequest (host : Host) (r : Request) (seconds : String) (s : Session) : Session × Ending :=
  match r.load s with
  | (s, .error e) => (s, e)
  | (s, .ok o) =>
    let o := if r.words.isSome then o
      else { o with reports := Text.insertText o.reports ReportKind.json.name }
    match withOptions host o seconds s with
    | (s, .error e) => (s, e)
    | (s, .ok reports) =>
      (s, if r.words.isSome then .quit (some reports.status) else .issues reports.issues)

end Run

end SuiteLint
