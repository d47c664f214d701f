import SuiteLint.Config.Flag
import SuiteLint.Error
import SuiteLint.Issue
import SuiteLint.Project

/-! A session: the project as a run changes it, and what the run prints. -/
namespace SuiteLint

structure Session where
  project : Project
  printed : List String

inductive Ending where
  /-- With a status, or without one after a listing. -/
  | quit (status : Option Nat)
  /-- With a message on how the program is used. -/
  | misused (e : UsageError)
  | failed (e : LintError)
  /-- With the issues handed over. -/
  | issues (found : List Issue)

namespace Session

def say (s : Session) (line : String) : Session := { s with printed := s.printed ++ [line] }

def sayAll (s : Session) (lines : List String) : Session := { s with printed := s.printed ++ lines }

def write (s : Session) (output : Option String) (line : String) : Session :=
  match output with
  | some name => { s with project := s.project.append name (line ++ "\n") }
  | none => s.say line

end Session

end SuiteLint
