import SuiteLint.Text.Integer
import SuiteLint.Text.Quoted

/-! What can be wrong with the text of a pattern. -/
namespace SuiteLint.Text

inductive PatternFault where
  | danglingEscape | unterminatedSet | unterminatedGroup | unterminatedComment
  | unbalancedParenthesis | nothingToRepeat | multipleRepeat | backwardRepeat | unexpectedEnd
  | badEscape (written : List Char)
  | incompleteEscape (written : List Char)
  | largeOctal (written : List Char)
  | badRange (first last : List Char)
  | unknownExtension (written : List Char)
  | missing (thing : String)
  | unknownFlag
  | incompatibleFlags | localeFlag | flagOnAndOff | fixedFlagOff | wholeFlagOn | wholeFlagOff
  | lateFlags
  | badGroupName (name : List Char)
  | unknownGroupName (name : List Char)
  | repeatedGroupName (name : List Char) (group earlier : Nat)
  | badGroupNumber
  | unknownGroup (n : Nat)
  | openGroup | groupBehind | thirdBranch
  | unknownCharacter (name : List Char)
  | varyingWidth | excessiveWidth
  | wholeFlagRepeat (greed : String)
  deriving DecidableEq

namespace PatternFault

def showName (name : List Char) : String := String.ofList (quoted name)

def message : PatternFault → String
  | danglingEscape => "bad escape (end of pattern)"
  | unterminatedSet => "unterminated character set"
  | unterminatedGroup => "missing ), unterminated subpattern"
  | unterminatedComment => "missing ), unterminated comment"
  | unbalancedParenthesis => "unbalanced parenthesis"
  | nothingToRepeat => "nothing to repeat"
  | multipleRepeat => "multiple repeat"
  | backwardRepeat => "min repeat greater than max repeat"
  | unexpectedEnd => "unexpected end of pattern"
  | badEscape written => "bad escape " ++ String.ofList written
  | incompleteEscape written => "incomplete escape " ++ String.ofList written
  | largeOctal written =>
    "octal escape value " ++ String.ofList written ++ " outside of range 0-0o377"
  | badRange first last =>
    "bad character range " ++ String.ofList first ++ "-" ++ String.ofList last
  | unknownExtension written => "unknown extension ?" ++ String.ofList written
  | missing thing => "missing " ++ thing
  | unknownFlag => "unknown flag"
  | incompatibleFlags => "bad inline flags: flags 'a', 'u' and 'L' are incompatible"
  | localeFlag => "bad inline flags: cannot use 'L' flag with a str pattern"
  | flagOnAndOff => "bad inline flags: flag turned on and off"
  | fixedFlagOff => "bad inline flags: cannot turn off flags 'a', 'u' and 'L'"
  | wholeFlagOn => "bad inline flags: cannot turn on global flag"
  | wholeFlagOff => "bad inline flags: cannot turn off global flag"
  | lateFlags => "global flags not at the start of the expression"
  | badGroupName name => "bad character in group name " ++ showName name
  | unknownGroupName name => "unknown group name " ++ showName name
  | repeatedGroupName name group earlier =>
    "redefinition of group name " ++ showName name ++ " as group " ++ toString group ++
      "; was group " ++ toString earlier
  | badGroupNumber => "bad group number"
  | unknownGroup n => "invalid group reference " ++ toString n
  | openGroup => "cannot refer to an open group"
  | groupBehind => "cannot refer to group defined in the same lookbehind subpattern"
  | thirdBranch => "conditional backref with more than two branches"
  | unknownCharacter name => "undefined character name " ++ showName name
  | varyingWidth => "look-behind requires fixed-width pattern"
  | excessiveWidth => "looks too much behind"
  | wholeFlagRepeat greed => "internal: unsupported template operator " ++ greed

end PatternFault

/-- Why a text is no pattern: a fault at some place, or a number or flags that no pattern has. -/
inductive PatternError where
  | fault (f : PatternFault) (position : Option Nat)
  | largeRepeat
  | longNumber (digits : Nat)
  | mixedFlags
  deriving DecidableEq

namespace PatternError

def placeText (source : List Char) (position : Nat) : String :=
  " at position " ++ toString position ++
    if source.contains '\n' then
      let before := source.take position
      " (line " ++ toString (before.count '\n' + 1) ++ ", column " ++
        toString ((before.reverse.takeWhile (· ≠ '\n')).length + 1) ++ ")"
    else ""

def message (source : List Char) : PatternError → String
  | fault f position =>
    "Invalid regex pattern: " ++ f.message ++ (position.map (placeText source)).getD ""
  | largeRepeat => "the repetition number is too large"
  | longNumber digits => IntegerError.message (.tooLong digits)
  | mixedFlags => "ASCII and UNICODE flags are incompatible"

end PatternError

end SuiteLint.Text
