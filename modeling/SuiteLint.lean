import SuiteLint.Main
import SuiteLint.Proofs.ArgumentLines
import SuiteLint.Proofs.AssignmentSigns
import SuiteLint.Proofs.BracketedSettings
import SuiteLint.Proofs.BranchIndents
import SuiteLint.Proofs.CheckerOrder
import SuiteLint.Proofs.CommentCoverage
import SuiteLint.Proofs.CommentedLines
import SuiteLint.Proofs.DocumentIsolation
import SuiteLint.Proofs.EmptyLineRuns
import SuiteLint.Proofs.FileEnds
import SuiteLint.Proofs.FileSpellings
import SuiteLint.Proofs.FileTypes
import SuiteLint.Proofs.ForcedTags
import SuiteLint.Proofs.LateReturns
import SuiteLint.Proofs.LongKeywords
import SuiteLint.Proofs.NameCharacters
import SuiteLint.Proofs.NameReview
import SuiteLint.Proofs.RepeatedImports
import SuiteLint.Proofs.RulePatterns
import SuiteLint.Proofs.RuleTable
import SuiteLint.Proofs.SectionPlaces
import SuiteLint.Proofs.SettingsSearch
import SuiteLint.Proofs.SimilarNames
import SuiteLint.Proofs.StoredText
import SuiteLint.Proofs.TargetPlaces
import SuiteLint.Proofs.WordStarts
