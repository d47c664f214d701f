import SuiteLint.Check.Finding
import SuiteLint.Project.Tree
import SuiteLint.Text.Brace

/-! The errors that end a run, with their wording. -/
namespace SuiteLint

inductive LintError where
  /-- A setting that does not name a rule, a parameter and a value. -/
  | invalidSetting (setting : String)
  | unknownRule (name hint : String)
  | unknownTarget (name hint : String)
  | unknownParam (param rule available : String)
  | unknownReportParam (param report : String)
  | invalidSeverity (rule value : String)
  | invalidValue (e : ParamError)
  | duplicatedRule (what rule here before : String)
  | invalidDefinition (e : RuleDefinitionError)
  | undefinedMessage (name : String)
  | invalidUsage (id : String) (e : Text.PercentError)
  /-- Names of rules changed while they were read. -/
  | namesChanged
  | missingRules (path : String)
  | missingFile (path : String)
  | missingArgumentFile (path : String)
  | nestedArgumentFile (path : String)
  | invalidArgument (reason : String)
  | unwritable (e : PathError)
  /-- A directory in the place of a file to read. -/
  | unreadable
  /-- A file with settings that is not in UTF-8. -/
  | undecodable
  | emptyPattern
  /-- A request for no names that look alike. -/
  | emptyRequest (most : Int)
  | invalidFormat (e : Text.BraceError)
  | brokenCheck (e : Breakdown)
  | noCheck

namespace LintError

def message : LintError → String
  | invalidSetting setting =>
    "Provided invalid config: '" ++ setting ++ "' (general pattern: <rule>:<param>:<value>)"
  | unknownRule name hint => "Provided rule '" ++ name ++ "' does not exist." ++ hint
  | unknownTarget name hint => "Provided rule or report '" ++ name ++ "' does not exist." ++ hint
  | unknownParam param rule available =>
    "Provided param '" ++ param ++ "' for rule '" ++ rule ++
      "' does not exist. Available configurable(s) for this rule:\n    " ++ available
  | unknownReportParam param report =>
    "Provided param '" ++ param ++ "' for report '" ++ report ++ "' does not exist"
  | invalidSeverity rule value =>
    "Fatal error: Tried to configure message " ++ rule ++ " with invalid severity: " ++ value
  | invalidValue e => e.message
  | duplicatedRule what rule here before =>
    "Fatal error: Message " ++ what ++ " '" ++ rule ++ "' defined in " ++ here ++
      " was already defined in " ++ before
  | invalidDefinition e => e.message
  | undefinedMessage name => "Missing definition for message with name " ++ name
  | invalidUsage id e =>
    if e.isMisuse then
      "Fatal error: Rule '" ++ id ++ "' failed to prepare message description with error: " ++
        e.message
    else e.message
  | namesChanged => "Set changed size during iteration"
  | missingRules path =>
    "Fatal error: Failed to load external rules from file \"" ++ path ++
      "\". Verify if the file exists"
  | missingFile path => "File \"" ++ path ++ "\" does not exist"
  | missingArgumentFile path => "Argument file \"" ++ path ++ "\" does not exist"
  | nestedArgumentFile path => "Nested argument file in \"" ++ path ++ "\""
  | invalidArgument reason => "Invalid configuration for Robocop:\n" ++ reason
  | unwritable e => e.reason
  | unreadable => PathError.isDirectory.reason
  | undecodable => ""
  | emptyPattern => "empty pattern"
  | emptyRequest most => "n must be > 0: " ++ toString most
  | invalidFormat e => e.message
  | brokenCheck e => e.message
  | noCheck => ""

end LintError

end SuiteLint
