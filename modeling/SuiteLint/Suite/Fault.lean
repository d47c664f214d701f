import SuiteLint.Text.Case
import SuiteLint.Text.Find

/-! What the reader of a suite file says about its faults. -/
namespace SuiteLint.Fault

def longestBefore (p : List Char → Bool) : List Char → Option (List Char)
  | [] => if p [] then some [] else none
  | c :: rest =>
    match longestBefore p rest with
    | some part => some (c :: part)
    | none => if p (c :: rest) then some [] else none

def startsWithQuote : List Char → Bool
  | '\'' :: _ => true
  | _ => false

def closesQuote : List Char → Bool
  | '\'' :: _ :: _ => true
  | _ => false

def restOfLine (s : List Char) : List Char := s.takeWhile (· != '\n')

def quotedPart? : List Char → Option (List Char)
  | [] => none
  | c :: rest =>
    if c = '\'' then
      match longestBefore startsWithQuote (restOfLine rest) with
      | some (d :: part) => some (d :: part)
      | _ => quotedPart? rest
    else quotedPart? rest

def namedAfter? (intro : List Char) : List Char → Option (List Char)
  | [] => none
  | c :: rest =>
    match Text.after? intro (c :: rest) with
    | some tail => (longestBefore closesQuote (restOfLine tail)).or (namedAfter? intro rest)
    | none => namedAfter? intro rest

def unknownSetting? (error : String) : Option (List Char) :=
  namedAfter? "Non-existing setting '".toList error.toList

def invalidVariable? (error : String) : Option (List Char) :=
  namedAfter? "Invalid variable name '".toList error.toList

def mentions (error part : String) : Bool := Text.has part.toList error.toList

def suiteSettings : List (String × String) :=
  [("documentation", "Documentation"), ("suitesetup", "Suite Setup"),
   ("suiteteardown", "Suite Teardown"), ("metadata", "Metadata"), ("testsetup", "Test Setup"),
   ("testteardown", "Test Teardown"), ("testtemplate", "Test Template"),
   ("testtimeout", "Test Timeout"), ("forcetags", "Force Tags"), ("defaulttags", "Default Tags"),
   ("library", "Library"), ("resource", "Resource"), ("variables", "Variables")]

def settingKey (name : List Char) : List Char := Text.lower (Text.without ' ' name)

def suiteSettingAt? (name : List Char) : Option String :=
  (suiteSettings.find? fun entry => entry.1.toList.isPrefixOf (settingKey name)).map (·.2)

def unbroken (error : String) : String :=
  String.ofList (Text.replace "\n   ".toList [] error.toList)

def unannounced (error : String) : String :=
  String.ofList (Text.replace "Robot Framework syntax error: ".toList [] error.toList)

def withoutLast (s : String) : String := String.ofList s.toList.dropLast

end SuiteLint.Fault
