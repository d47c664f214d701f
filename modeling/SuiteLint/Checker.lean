import SuiteLint.RuleKey

/-! The checkers: groups of rules that are looked for together. -/
namespace SuiteLint

inductive Checker where
  | comments | ignoredData
  | missingDocumentation
  | duplications | sectionHeaders
  | missingKeywordName | parsingErrors | twoSpacesAfterSettings | variablesImports
  | emptySections | emptySettings | lengths | lineLength | returnedValues | testCaseNumber
  | assignmentSigns | emptyVariables | ifBlockCanBeUsed | nestedForLoops | resourceFile | returns
  | importOrder
  | charactersInNames | keywordNaming | settingNaming | similarVariables | testCaseNaming
  | variableNaming
  | emptyLines | tabsAndSpaces | trailingSpace | leftAlignment | continuations | indents
  | tagNames | tagScopes
  deriving DecidableEq

namespace Checker

def all : List Checker :=
  [comments, ignoredData, missingDocumentation, duplications, sectionHeaders, missingKeywordName,
   parsingErrors, twoSpacesAfterSettings, variablesImports, emptySections, emptySettings, lengths,
   lineLength, returnedValues, testCaseNumber, assignmentSigns, emptyVariables, ifBlockCanBeUsed,
   nestedForLoops, resourceFile, returns, importOrder, charactersInNames, keywordNaming,
   settingNaming, similarVariables, testCaseNaming, variableNaming, emptyLines, tabsAndSpaces,
   trailingSpace, leftAlignment, continuations, indents, tagNames, tagScopes]

def title : Checker → String
  | comments => "CommentChecker"
  | ignoredData => "IgnoredDataChecker"
  | missingDocumentation => "MissingDocumentationChecker"
  | duplications => "DuplicationsChecker"
  | sectionHeaders => "SectionHeadersChecker"
  | missingKeywordName => "MissingKeywordName"
  | parsingErrors => "ParsingErrorChecker"
  | twoSpacesAfterSettings => "TwoSpacesAfterSettingsChecker"
  | variablesImports => "VariablesImportErrorChecker"
  | emptySections => "EmptySectionChecker"
  | emptySettings => "EmptySettingsChecker"
  | lengths => "LengthChecker"
  | lineLength => "LineLengthChecker"
  | returnedValues => "NumberOfReturnedArgsChecker"
  | testCaseNumber => "TestCaseNumberChecker"
  | assignmentSigns => "ConsistentAssignmentSignChecker"
  | emptyVariables => "EmptyVariableChecker"
  | ifBlockCanBeUsed => "IfBlockCanBeUsed"
  | nestedForLoops => "NestedForLoopsChecker"
  | resourceFile => "ResourceFileChecker"
  | returns => "ReturnChecker"
  | importOrder => "SettingsOrderChecker"
  | charactersInNames => "InvalidCharactersInNameChecker"
  | keywordNaming => "KeywordNamingChecker"
  | settingNaming => "SettingsNamingChecker"
  | similarVariables => "SimilarVariableChecker"
  | testCaseNaming => "TestCaseNamingChecker"
  | variableNaming => "VariableNamingChecker"
  | emptyLines => "EmptyLinesChecker"
  | tabsAndSpaces => "InconsistentUseOfTabsAndSpacesChecker"
  | trailingSpace => "InvalidSpacingChecker"
  | leftAlignment => "LeftAlignedChecker"
  | continuations => "MisalignedContinuation"
  | indents => "UnevenIndentChecker"
  | tagNames => "TagNameChecker"
  | tagScopes => "TagScopeChecker"

def topic : Checker → String
  | comments | ignoredData => "comments"
  | missingDocumentation => "documentation"
  | duplications | sectionHeaders => "duplications"
  | missingKeywordName | parsingErrors | twoSpacesAfterSettings | variablesImports => "errors"
  | emptySections | emptySettings | lengths | lineLength | returnedValues
  | testCaseNumber => "lengths"
  | assignmentSigns | emptyVariables | ifBlockCanBeUsed | nestedForLoops | resourceFile
  | returns | importOrder => "misc"
  | charactersInNames | keywordNaming | settingNaming | similarVariables
  | testCaseNaming | variableNaming => "naming"
  | emptyLines | tabsAndSpaces | trailingSpace | leftAlignment | continuations | indents => "spacing"
  | tagNames | tagScopes => "tags"

def keys : Checker → List RuleKey
  | comments => [.todoInComment, .missingSpaceAfterComment, .invalidComment]
  | ignoredData => [.ignoredData, .bomEncodingInFile]
  | missingDocumentation => [.missingDocKeyword, .missingDocTestCase, .missingDocSuite]
  | duplications =>
    [.duplicatedTestCase, .duplicatedKeyword, .duplicatedVariable, .duplicatedResource,
     .duplicatedLibrary, .duplicatedMetadata, .duplicatedVariablesImport, .duplicatedArgumentName,
     .duplicatedAssignedVarName]
  | sectionHeaders => [.sectionAlreadyDefined, .sectionOutOfOrder, .bothTestsAndTasks]
  | missingKeywordName => [.missingKeywordName]
  | parsingErrors =>
    [.parsingError, .invalidContinuationMark, .notEnoughWhitespaceAfterNewlineMarker,
     .invalidArgument, .nonExistingSetting, .settingNotSupported, .notEnoughWhitespaceAfterVariable,
     .notEnoughWhitespaceAfterSuiteSetting, .invalidForLoop, .invalidIf]
  | twoSpacesAfterSettings => [.notEnoughWhitespaceAfterSetting]
  | variablesImports => [.variablesImportWithArgs]
  | emptySections => [.emptySection]
  | emptySettings =>
    [.emptyMetadata, .emptyDocumentation, .emptyForceTags, .emptyDefaultTags, .emptyVariablesImport,
     .emptyResourceImport, .emptyLibraryImport, .emptySetup, .emptySuiteSetup, .emptyTestSetup,
     .emptyTeardown, .emptySuiteTeardown, .emptyTestTeardown, .emptyTimeout, .emptyTestTimeout,
     .emptyArguments]
  | lengths =>
    [.tooLongKeyword, .tooFewCallsInKeyword, .tooManyCallsInKeyword, .tooLongTestCase,
     .tooManyCallsInTestCase, .fileTooLong, .tooManyArguments]
  | lineLength => [.lineTooLong]
  | returnedValues => [.numberOfReturnedValues]
  | testCaseNumber => [.tooManyTestCases]
  | assignmentSigns => [.inconsistentAssignment, .inconsistentAssignmentInVariables]
  | emptyVariables => [.emptyVariable]
  | ifBlockCanBeUsed => [.ifCanBeUsed]
  | nestedForLoops => [.nestedForLoop]
  | resourceFile => [.canBeResourceFile]
  | returns => [.keywordAfterReturn, .keywordAfterReturnFrom, .emptyReturn]
  | importOrder => [.wrongImportOrder]
  | charactersInNames => [.notAllowedCharInName]
  | keywordNaming =>
    [.wrongCaseInKeywordName, .keywordNameIsReservedWord, .underscoreInKeywordName,
     .elseNotUpperCase, .keywordNameIsEmpty, .bddWithoutKeywordCall]
  | settingNaming =>
    [.settingNameNotInTitleCase, .sectionNameInvalid, .emptyLibraryAlias, .duplicatedLibraryAlias]
  | similarVariables => [.possibleVariableOverwriting]
  | testCaseNaming => [.notCapitalizedTestCaseTitle, .testCaseNameIsEmpty]
  | variableNaming =>
    [.sectionVariableNotUppercase, .nonLocalVariablesShouldBeUppercase, .hyphenInVariableName]
  | emptyLines =>
    [.emptyLinesBetweenSections, .emptyLinesBetweenTestCases, .emptyLinesBetweenKeywords,
     .emptyLineAfterSection, .consecutiveEmptyLines, .emptyLinesInStatement]
  | tabsAndSpaces => [.mixedTabsAndSpaces]
  | trailingSpace => [.trailingWhitespace, .missingTrailingBlankLine, .tooManyTrailingBlankLines]
  | leftAlignment => [.variableShouldBeLeftAligned, .suiteSettingShouldBeLeftAligned]
  | continuations => [.misalignedContinuation, .misalignedContinuationRow]
  | indents => [.unevenIndent, .badIndent]
  | tagNames => [.tagWithSpace, .tagWithOrAnd, .tagWithReserved]
  | tagScopes =>
    [.couldBeForcedTags, .tagAlreadySetInForceTags, .unnecessaryDefaultTags, .emptyTags]

def defaults : Checker → Values
  | lengths =>
    [(RuleKey.tooLongKeyword.slot "max_len", .integer 40),
     (RuleKey.tooLongTestCase.slot "max_len", .integer 20),
     (RuleKey.tooManyCallsInKeyword.slot "max_calls", .integer 10),
     (RuleKey.tooFewCallsInKeyword.slot "min_calls", .integer 1),
     (RuleKey.tooManyCallsInTestCase.slot "max_calls", .integer 10),
     (RuleKey.fileTooLong.slot "max_lines", .integer 400),
     (RuleKey.tooManyArguments.slot "max_args", .integer 5)]
  | lineLength =>
    [(RuleKey.lineTooLong.slot "line_length", .integer 120),
     (RuleKey.lineTooLong.slot "ignore_pattern", .pattern .webAddress)]
  | returnedValues => [(RuleKey.numberOfReturnedValues.slot "max_returns", .integer 4)]
  | testCaseNumber =>
    [(RuleKey.tooManyTestCases.slot "max_testcases", .integer 50),
     (RuleKey.tooManyTestCases.slot "max_templated_testcases", .integer 100)]
  | assignmentSigns =>
    [(RuleKey.inconsistentAssignment.slot "assignment_sign_type", .text "autodetect"),
     (RuleKey.inconsistentAssignmentInVariables.slot "assignment_sign_type", .text "autodetect")]
  | sectionHeaders => [(RuleKey.sectionOutOfOrder.slot "sections_order", .order .standard)]
  | charactersInNames =>
    [(RuleKey.notAllowedCharInName.slot "pattern", .pattern .dotOrQuestionMark)]
  | keywordNaming =>
    [(RuleKey.wrongCaseInKeywordName.slot "convention", .text "each_word_capitalized")]
  | emptyLines =>
    [(RuleKey.emptyLinesBetweenSections.slot "empty_lines", .integer 2),
     (RuleKey.emptyLinesBetweenTestCases.slot "empty_lines", .integer 1),
     (RuleKey.emptyLinesBetweenKeywords.slot "empty_lines", .integer 1),
     (RuleKey.emptyLineAfterSection.slot "empty_lines", .integer 0),
     (RuleKey.consecutiveEmptyLines.slot "empty_lines", .integer 1)]
  | _ => []

/-- Whether a checker is for suites of the fourth generation of the framework only, or for older
ones only; such a checker starts switched off for the others. -/
def suits (modern : Bool) : Checker → Bool
  | nestedForLoops => !modern
  | ifBlockCanBeUsed | leftAlignment => modern
  | _ => true

end Checker

end SuiteLint
