import SuiteLint.Project.Tree
import SuiteLint.Text.Quoted

/-! The flags of the command line. -/
namespace SuiteLint

inductive Flag where
  | included | excluded | extraRules | flat | reports | format | setting | listing | paramListing
  | reportListing | output | fileTypes | threshold | argumentFile | ignored | help | version
  | verbose | directives
  deriving DecidableEq

inductive Arity where
  | none | one | optional
  deriving DecidableEq

namespace Flag

def all : List Flag :=
  [included, excluded, extraRules, flat, reports, format, setting, listing, paramListing,
   reportListing, output, fileTypes, threshold, argumentFile, ignored, help, version, verbose,
   directives]

def spellings : Flag → List String
  | included => ["-i", "--include"]
  | excluded => ["-e", "--exclude"]
  | extraRules => ["-rules", "--ext-rules"]
  | flat => ["-nr", "--no-recursive"]
  | reports => ["-r", "--reports"]
  | format => ["-f", "--format"]
  | setting => ["-c", "--configure"]
  | listing => ["-l", "--list"]
  | paramListing => ["-lc", "--list-configurables"]
  | reportListing => ["-lr", "--list-reports"]
  | output => ["-o", "--output"]
  | fileTypes => ["-ft", "--filetypes"]
  | threshold => ["-t", "--threshold"]
  | argumentFile => ["-A", "--argumentfile"]
  | ignored => ["-g", "--ignore"]
  | help => ["-h", "--help"]
  | version => ["-v", "--version"]
  | verbose => ["-vv", "--verbose"]
  | directives => ["--directives"]

def arity : Flag → Arity
  | flat | reportListing | help | version | verbose | directives => .none
  | listing | paramListing => .optional
  | _ => .one

def table : List (String × Flag) := all.flatMap fun f => f.spellings.map fun s => (s, f)

def ofSpelling? (s : String) : Option Flag := table.lookup s

def title (f : Flag) : String := "/".intercalate f.spellings

end Flag

inductive UsageError where
  | ambiguous (word : String) (spellings : List String)
  | missingValue (f : Flag)
  | ignoredValue (f : Flag) (value : String)
  | unwritable (name : String) (e : PathError)
  | unrecognized (words : List String)

def UsageError.message : UsageError → String
  | .ambiguous word spellings =>
    "ambiguous option: " ++ word ++ " could match " ++ ", ".intercalate spellings
  | .missingValue f => "argument " ++ f.title ++ ": expected one argument"
  | .ignoredValue f value =>
    "argument " ++ f.title ++ ": ignored explicit argument " ++
      String.ofList (Text.quoted value.toList)
  | .unwritable name e =>
    "argument " ++ Flag.output.title ++ ": can't open '" ++ name ++ "': [Errno " ++
      toString e.code ++ "] " ++ e.reason ++ ": " ++ String.ofList (Text.quoted name.toList)
  | .unrecognized words => "unrecognized arguments: " ++ " ".intercalate words

end SuiteLint
