import SuiteLint.Rule

/-! The rules of the linter, by number. -/
namespace SuiteLint

inductive RuleKey where
  | missingDocKeyword | missingDocTestCase | missingDocSuite
  | notAllowedCharInName | wrongCaseInKeywordName | keywordNameIsReservedWord
  | underscoreInKeywordName | settingNameNotInTitleCase | sectionNameInvalid
  | notCapitalizedTestCaseTitle | sectionVariableNotUppercase | nonLocalVariablesShouldBeUppercase
  | elseNotUpperCase | keywordNameIsEmpty | testCaseNameIsEmpty | emptyLibraryAlias
  | duplicatedLibraryAlias | possibleVariableOverwriting | hyphenInVariableName
  | bddWithoutKeywordCall
  | parsingError | notEnoughWhitespaceAfterSetting | missingKeywordName | variablesImportWithArgs
  | invalidContinuationMark | notEnoughWhitespaceAfterNewlineMarker | invalidArgument
  | nonExistingSetting | settingNotSupported | notEnoughWhitespaceAfterVariable
  | notEnoughWhitespaceAfterSuiteSetting | invalidForLoop | invalidIf
  | tooLongKeyword | tooFewCallsInKeyword | tooManyCallsInKeyword | tooLongTestCase
  | tooManyCallsInTestCase | fileTooLong | tooManyArguments | lineTooLong | emptySection
  | numberOfReturnedValues | emptyMetadata | emptyDocumentation | emptyForceTags | emptyDefaultTags
  | emptyVariablesImport | emptyResourceImport | emptyLibraryImport | emptySetup | emptySuiteSetup
  | emptyTestSetup | emptyTeardown | emptySuiteTeardown | emptyTestTeardown | emptyTimeout
  | emptyTestTimeout | emptyArguments | tooManyTestCases
  | tagWithSpace | tagWithOrAnd | tagWithReserved | couldBeForcedTags | tagAlreadySetInForceTags
  | unnecessaryDefaultTags | emptyTags
  | todoInComment | missingSpaceAfterComment | invalidComment | ignoredData | bomEncodingInFile
  | duplicatedTestCase | duplicatedKeyword | duplicatedVariable | duplicatedResource
  | duplicatedLibrary | duplicatedMetadata | duplicatedVariablesImport | sectionAlreadyDefined
  | sectionOutOfOrder | bothTestsAndTasks | duplicatedArgumentName | duplicatedAssignedVarName
  | keywordAfterReturn | keywordAfterReturnFrom | emptyReturn | nestedForLoop | ifCanBeUsed
  | inconsistentAssignment | inconsistentAssignmentInVariables | wrongImportOrder | emptyVariable
  | canBeResourceFile
  | trailingWhitespace | missingTrailingBlankLine | emptyLinesBetweenSections
  | emptyLinesBetweenTestCases | emptyLinesBetweenKeywords | mixedTabsAndSpaces | unevenIndent
  | badIndent | emptyLineAfterSection | tooManyTrailingBlankLines | misalignedContinuation
  | consecutiveEmptyLines | emptyLinesInStatement | variableShouldBeLeftAligned
  | misalignedContinuationRow | suiteSettingShouldBeLeftAligned
  deriving DecidableEq

namespace RuleKey

def all : List RuleKey :=
  [missingDocKeyword, missingDocTestCase, missingDocSuite, notAllowedCharInName,
   wrongCaseInKeywordName, keywordNameIsReservedWord, underscoreInKeywordName,
   settingNameNotInTitleCase, sectionNameInvalid, notCapitalizedTestCaseTitle,
   sectionVariableNotUppercase, nonLocalVariablesShouldBeUppercase, elseNotUpperCase,
   keywordNameIsEmpty, testCaseNameIsEmpty, emptyLibraryAlias, duplicatedLibraryAlias,
   possibleVariableOverwriting, hyphenInVariableName, bddWithoutKeywordCall, parsingError,
   notEnoughWhitespaceAfterSetting, missingKeywordName, variablesImportWithArgs,
   invalidContinuationMark, notEnoughWhitespaceAfterNewlineMarker, invalidArgument,
   nonExistingSetting, settingNotSupported, notEnoughWhitespaceAfterVariable,
   notEnoughWhitespaceAfterSuiteSetting, invalidForLoop, invalidIf, tooLongKeyword,
   tooFewCallsInKeyword, tooManyCallsInKeyword, tooLongTestCase, tooManyCallsInTestCase,
   fileTooLong, tooManyArguments, lineTooLong, emptySection, numberOfReturnedValues, emptyMetadata,
   emptyDocumentation, emptyForceTags, emptyDefaultTags, emptyVariablesImport, emptyResourceImport,
   emptyLibraryImport, emptySetup, emptySuiteSetup, emptyTestSetup, emptyTeardown,
   emptySuiteTeardown, emptyTestTeardown, emptyTimeout, emptyTestTimeout, emptyArguments,
   tooManyTestCases, tagWithSpace, tagWithOrAnd, tagWithReserved, couldBeForcedTags,
   tagAlreadySetInForceTags, unnecessaryDefaultTags, emptyTags, todoInComment,
   missingSpaceAfterComment, invalidComment, ignoredData, bomEncodingInFile, duplicatedTestCase,
   duplicatedKeyword, duplicatedVariable, duplicatedResource, duplicatedLibrary, duplicatedMetadata,
   duplicatedVariablesImport, sectionAlreadyDefined, sectionOutOfOrder, bothTestsAndTasks,
   duplicatedArgumentName, duplicatedAssignedVarName, keywordAfterReturn, keywordAfterReturnFrom,
   emptyReturn, nestedForLoop, ifCanBeUsed, inconsistentAssignment,
   inconsistentAssignmentInVariables, wrongImportOrder, emptyVariable, canBeResourceFile,
   trailingWhitespace, missingTrailingBlankLine, emptyLinesBetweenSections,
   emptyLinesBetweenTestCases, emptyLinesBetweenKeywords, mixedTabsAndSpaces, unevenIndent,
   badIndent, emptyLineAfterSection, tooManyTrailingBlankLines, misalignedContinuation,
   consecutiveEmptyLines, emptyLinesInStatement, variableShouldBeLeftAligned,
   misalignedContinuationRow, suiteSettingShouldBeLeftAligned]

def id : RuleKey → String
  | missingDocKeyword => "0201"
  | missingDocTestCase => "0202"
  | missingDocSuite => "0203"
  | notAllowedCharInName => "0301"
  | wrongCaseInKeywordName => "0302"
  | keywordNameIsReservedWord => "0303"
  | underscoreInKeywordName => "0305"
  | settingNameNotInTitleCase => "0306"
  | sectionNameInvalid => "0307"
  | notCapitalizedTestCaseTitle => "0308"
  | sectionVariableNotUppercase => "0309"
  | nonLocalVariablesShouldBeUppercase => "0310"
  | elseNotUpperCase => "0311"
  | keywordNameIsEmpty => "0312"
  | testCaseNameIsEmpty => "0313"
  | emptyLibraryAlias => "0314"
  | duplicatedLibraryAlias => "0315"
  | possibleVariableOverwriting => "0316"
  | hyphenInVariableName => "0317"
  | bddWithoutKeywordCall => "0318"
  | parsingError => "0401"
  | notEnoughWhitespaceAfterSetting => "0402"
  | missingKeywordName => "0403"
  | variablesImportWithArgs => "0404"
  | invalidContinuationMark => "0405"
  | notEnoughWhitespaceAfterNewlineMarker => "0406"
  | invalidArgument => "0407"
  | nonExistingSetting => "0408"
  | settingNotSupported => "0409"
  | notEnoughWhitespaceAfterVariable => "0410"
  | notEnoughWhitespaceAfterSuiteSetting => "0411"
  | invalidForLoop => "0412"
  | invalidIf => "0413"
  | tooLongKeyword => "0501"
  | tooFewCallsInKeyword => "0502"
  | tooManyCallsInKeyword => "0503"
  | tooLongTestCase => "0504"
  | tooManyCallsInTestCase => "0505"
  | fileTooLong => "0506"
  | tooManyArguments => "0507"
  | lineTooLong => "0508"
  | emptySection => "0509"
  | numberOfReturnedValues => "0510"
  | emptyMetadata => "0511"
  | emptyDocumentation => "0512"
  | emptyForceTags => "0513"
  | emptyDefaultTags => "0514"
  | emptyVariablesImport => "0515"
  | emptyResourceImport => "0516"
  | emptyLibraryImport => "0517"
  | emptySetup => "0518"
  | emptySuiteSetup => "0519"
  | emptyTestSetup => "0520"
  | emptyTeardown => "0521"
  | emptySuiteTeardown => "0522"
  | emptyTestTeardown => "0523"
  | emptyTimeout => "0524"
  | emptyTestTimeout => "0525"
  | emptyArguments => "0526"
  | tooManyTestCases => "0527"
  | tagWithSpace => "0601"
  | tagWithOrAnd => "0602"
  | tagWithReserved => "0603"
  | couldBeForcedTags => "0605"
  | tagAlreadySetInForceTags => "0606"
  | unnecessaryDefaultTags => "0607"
  | emptyTags => "0608"
  | todoInComment => "0701"
  | missingSpaceAfterComment => "0702"
  | invalidComment => "0703"
  | ignoredData => "0704"
  | bomEncodingInFile => "0705"
  | duplicatedTestCase => "0801"
  | duplicatedKeyword => "0802"
  | duplicatedVariable => "0803"
  | duplicatedResource => "0804"
  | duplicatedLibrary => "0805"
  | duplicatedMetadata => "0806"
  | duplicatedVariablesImport => "0807"
  | sectionAlreadyDefined => "0808"
  | sectionOutOfOrder => "0809"
  | bothTestsAndTasks => "0810"
  | duplicatedArgumentName => "0811"
  | duplicatedAssignedVarName => "0812"
  | keywordAfterReturn => "0901"
  | keywordAfterReturnFrom => "0902"
  | emptyReturn => "0903"
  | nestedForLoop => "0907"
  | ifCanBeUsed => "0908"
  | inconsistentAssignment => "0909"
  | inconsistentAssignmentInVariables => "0910"
  | wrongImportOrder => "0911"
  | emptyVariable => "0912"
  | canBeResourceFile => "0913"
  | trailingWhitespace => "1001"
  | missingTrailingBlankLine => "1002"
  | emptyLinesBetweenSections => "1003"
  | emptyLinesBetweenTestCases => "1004"
  | emptyLinesBetweenKeywords => "1005"
  | mixedTabsAndSpaces => "1006"
  | unevenIndent => "1007"
  | badIndent => "1008"
  | emptyLineAfterSection => "1009"
  | tooManyTrailingBlankLines => "1010"
  | misalignedContinuation => "1011"
  | consecutiveEmptyLines => "1012"
  | emptyLinesInStatement => "1013"
  | variableShouldBeLeftAligned => "1014"
  | misalignedContinuationRow => "1015"
  | suiteSettingShouldBeLeftAligned => "1016"

def name : RuleKey → String
  | missingDocKeyword => "missing-doc-keyword"
  | missingDocTestCase => "missing-doc-test-case"
  | missingDocSuite => "missing-doc-suite"
  | notAllowedCharInName => "not-allowed-char-in-name"
  | wrongCaseInKeywordName => "wrong-case-in-keyword-name"
  | keywordNameIsReservedWord => "keyword-name-is-reserved-word"
  | underscoreInKeywordName => "underscore-in-keyword-name"
  | settingNameNotInTitleCase => "setting-name-not-in-title-case"
  | sectionNameInvalid => "section-name-invalid"
  | notCapitalizedTestCaseTitle => "not-capitalized-test-case-title"
  | sectionVariableNotUppercase => "section-variable-not-uppercase"
  | nonLocalVariablesShouldBeUppercase => "non-local-variables-should-be-uppercase"
  | elseNotUpperCase => "else-not-upper-case"
  | keywordNameIsEmpty => "keyword-name-is-empty"
  | testCaseNameIsEmpty => "test-case-name-is-empty"
  | emptyLibraryAlias => "empty-library-alias"
  | duplicatedLibraryAlias => "duplicated-library-alias"
  | possibleVariableOverwriting => "possible-variable-overwriting"
  | hyphenInVariableName => "hyphen-in-variable-name"
  | bddWithoutKeywordCall => "bdd-without-keyword-call"
  | parsingError => "parsing-error"
  | notEnoughWhitespaceAfterSetting => "not-enough-whitespace-after-setting"
  | missingKeywordName => "missing-keyword-name"
  | variablesImportWithArgs => "variables-import-with-args"
  | invalidContinuationMark => "invalid-continuation-mark"
  | notEnoughWhitespaceAfterNewlineMarker => "not-enough-whitespace-after-newline-marker"
  | invalidArgument => "invalid-argument"
  | nonExistingSetting => "non-existing-setting"
  | settingNotSupported => "setting-not-supported"
  | notEnoughWhitespaceAfterVariable => "not-enough-whitespace-after-variable"
  | notEnoughWhitespaceAfterSuiteSetting => "not-enough-whitespace-after-suite-setting"
  | invalidForLoop => "invalid-for-loop"
  | invalidIf => "invalid-if"
  | tooLongKeyword => "too-long-keyword"
  | tooFewCallsInKeyword => "too-few-calls-in-keyword"
  | tooManyCallsInKeyword => "too-many-calls-in-keyword"
  | tooLongTestCase => "too-long-test-case"
  | tooManyCallsInTestCase => "too-many-calls-in-test-case"
  | fileTooLong => "file-too-long"
  | tooManyArguments => "too-many-arguments"
  | lineTooLong => "line-too-long"
  | emptySection => "empty-section"
  | numberOfReturnedValues => "number-of-returned-values"
  | emptyMetadata => "empty-metadata"
  | emptyDocumentation => "empty-documentation"
  | emptyForceTags => "empty-force-tags"
  | emptyDefaultTags => "empty-default-tags"
  | emptyVariablesImport => "empty-variables-import"
  | emptyResourceImport => "empty-resource-import"
  | emptyLibraryImport => "empty-library-import"
  | emptySetup => "empty-setup"
  | emptySuiteSetup => "empty-suite-setup"
  | emptyTestSetup => "empty-test-setup"
  | emptyTeardown => "empty-teardown"
  | emptySuiteTeardown => "empty-suite-teardown"
  | emptyTestTeardown => "empty-test-teardown"
  | emptyTimeout => "empty-timeout"
  | emptyTestTimeout => "empty-test-timeout"
  | emptyArguments => "empty-arguments"
  | tooManyTestCases => "too-many-test-cases"
  | tagWithSpace => "tag-with-space"
  | tagWithOrAnd => "tag-with-or-and"
  | tagWithReserved => "tag-with-reserved"
  | couldBeForcedTags => "could-be-forced-tags"
  | tagAlreadySetInForceTags => "tag-already-set-in-force-tags"
  | unnecessaryDefaultTags => "unnecessary-default-tags"
  | emptyTags => "empty-tags"
  | todoInComment => "todo-in-comment"
  | missingSpaceAfterComment => "missing-space-after-comment"
  | invalidComment => "invalid-comment"
  | ignoredData => "ignored-data"
  | bomEncodingInFile => "bom-encoding-in-file"
  | duplicatedTestCase => "duplicated-test-case"
  | duplicatedKeyword => "duplicated-keyword"
  | duplicatedVariable => "duplicated-variable"
  | duplicatedResource => "duplicated-resource"
  | duplicatedLibrary => "duplicated-library"
  | duplicatedMetadata => "duplicated-metadata"
  | duplicatedVariablesImport => "duplicated-variables-import"
  | sectionAlreadyDefined => "section-already-defined"
  | sectionOutOfOrder => "section-out-of-order"
  | bothTestsAndTasks => "both-tests-and-tasks"
  | duplicatedArgumentName => "duplicated-argument-name"
  | duplicatedAssignedVarName => "duplicated-assigned-var-name"
  | keywordAfterReturn => "keyword-after-return"
  | keywordAfterReturnFrom => "keyword-after-return-from"
  | emptyReturn => "empty-return"
  | nestedForLoop => "nested-for-loop"
  | ifCanBeUsed => "if-can-be-used"
  | inconsistentAssignment => "inconsistent-assignment"
  | inconsistentAssignmentInVariables => "inconsistent-assignment-in-variables"
  | wrongImportOrder => "wrong-import-order"
  | emptyVariable => "empty-variable"
  | canBeResourceFile => "can-be-resource-file"
  | trailingWhitespace => "trailing-whitespace"
  | missingTrailingBlankLine => "missing-trailing-blank-line"
  | emptyLinesBetweenSections => "empty-lines-between-sections"
  | emptyLinesBetweenTestCases => "empty-lines-between-test-cases"
  | emptyLinesBetweenKeywords => "empty-lines-between-keywords"
  | mixedTabsAndSpaces => "mixed-tabs-and-spaces"
  | unevenIndent => "uneven-indent"
  | badIndent => "bad-indent"
  | emptyLineAfterSection => "empty-line-after-section"
  | tooManyTrailingBlankLines => "too-many-trailing-blank-lines"
  | misalignedContinuation => "misaligned-continuation"
  | consecutiveEmptyLines => "consecutive-empty-lines"
  | emptyLinesInStatement => "empty-lines-in-statement"
  | variableShouldBeLeftAligned => "variable-should-be-left-aligned"
  | misalignedContinuationRow => "misaligned-continuation-row"
  | suiteSettingShouldBeLeftAligned => "suite-setting-should-be-left-aligned"

/-- What the rule says, with places for the particulars. -/
def template : RuleKey → String
  | missingDocKeyword => "Missing documentation in keyword"
  | missingDocTestCase => "Missing documentation in test case"
  | missingDocSuite => "Missing documentation in suite"
  | notAllowedCharInName => "Not allowed character '%s' found in %s name"
  | wrongCaseInKeywordName => "Keyword name should use title case"
  | keywordNameIsReservedWord => "'%s' is a reserved keyword%s"
  | underscoreInKeywordName => "Underscores in keyword name can be replaced with spaces"
  | settingNameNotInTitleCase => "Setting name should be title or upper case"
  | sectionNameInvalid =>
    "Section name should be in format `*** Capitalized ***` or `*** UPPERCASE ***`"
  | notCapitalizedTestCaseTitle => "Test case title should start with capital letter"
  | sectionVariableNotUppercase => "Section variable name should be uppercase"
  | nonLocalVariablesShouldBeUppercase => "Test, suite and global variables should be uppercased"
  | elseNotUpperCase => "ELSE and ELSE IF should be upper case"
  | keywordNameIsEmpty => "Keyword name should not be empty"
  | testCaseNameIsEmpty => "Test case name should not be empty"
  | emptyLibraryAlias => "Library alias should not be empty"
  | duplicatedLibraryAlias => "Library alias should not be the same as original name"
  | possibleVariableOverwriting =>
    "Variable '%s' may overwrite similar variable inside '%s' %s. Note that variables are " ++
    "case-insensitive, and also spaces and underscores are ignored."
  | hyphenInVariableName =>
    "Use underscore in variable names instead of hyphens to avoid treating them like minus " ++
    "sign"
  | bddWithoutKeywordCall => "BDD reserved keyword '%s' not followed by any keyword%s"
  | parsingError => "Robot Framework syntax error: %s"
  | notEnoughWhitespaceAfterSetting => "Provide at least two spaces after '%s' setting"
  | missingKeywordName => "Missing keyword name when calling some values"
  | variablesImportWithArgs => "Robot and YAML variable files do not take arguments"
  | invalidContinuationMark => "Invalid continuation mark. It should be '...'"
  | notEnoughWhitespaceAfterNewlineMarker => "Provide at least two spaces after '...' marker"
  | invalidArgument => "%s"
  | nonExistingSetting => "%s"
  | settingNotSupported => "Setting '[%s]' is not supported in %s. Allowed are: %s"
  | notEnoughWhitespaceAfterVariable => "Provide at least two spaces after variable"
  | notEnoughWhitespaceAfterSuiteSetting => "Provide at least two spaces after '%s' setting"
  | invalidForLoop => "Invalid for loop syntax: %s"
  | invalidIf => "Invalid IF syntax: %s"
  | tooLongKeyword => "Keyword is too long (%d/%d)"
  | tooFewCallsInKeyword => "Keyword has too few keywords inside (%d/%d)"
  | tooManyCallsInKeyword => "Keyword has too many keywords inside (%d/%d)"
  | tooLongTestCase => "Test case is too long (%d/%d)"
  | tooManyCallsInTestCase => "Test case has too many keywords inside (%d/%d)"
  | fileTooLong => "File has too many lines (%d/%d)"
  | tooManyArguments => "Keyword has too many arguments (%d/%d)"
  | lineTooLong => "Line is too long (%d/%d)"
  | emptySection => "Section is empty"
  | numberOfReturnedValues => "Too many return values (%d/%d)"
  | emptyMetadata => "Metadata settings does not have any value set"
  | emptyDocumentation => "Documentation is empty"
  | emptyForceTags => "Force Tags are empty"
  | emptyDefaultTags => "Default Tags are empty"
  | emptyVariablesImport => "Import variables path is empty"
  | emptyResourceImport => "Import resource path is empty"
  | emptyLibraryImport => "Import library path is empty"
  | emptySetup => "Setup does not have any keywords"
  | emptySuiteSetup => "Suite Setup does not have any keywords"
  | emptyTestSetup => "Test Setup does not have any keywords"
  | emptyTeardown => "Teardown does not have any keywords"
  | emptySuiteTeardown => "Suite Teardown does not have any keywords"
  | emptyTestTeardown => "Test Teardown does not have any keywords"
  | emptyTimeout => "Timeout is empty"
  | emptyTestTimeout => "Test Timeout is empty"
  | emptyArguments => "Arguments are empty"
  | tooManyTestCases => "Too many test cases (%d/%d)"
  | tagWithSpace => "Tags should not contain spaces"
  | tagWithOrAnd =>
    "Tag with reserved word OR/AND. Hint: make sure to include this tag using lowercase name " ++
    "to avoid issues"
  | tagWithReserved =>
    "Tag prefixed with reserved word `robot:`. The only allowed tags with this prefix are " ++
    "robot:no-dry-run, robot:continue-on-failure and robot:recursive-continue-on-failure"
  | couldBeForcedTags =>
    "All tests in suite share those tags: \"%s\". You can define them in Force Tags in suite " ++
    "settings instead"
  | tagAlreadySetInForceTags => "This tag is already set by Force Tags in suite settings"
  | unnecessaryDefaultTags => "Tags defined in Default Tags are always overwritten"
  | emptyTags => "[Tags] setting without values%s"
  | todoInComment => "Found %s in comment"
  | missingSpaceAfterComment => "Missing blank space after comment character"
  | invalidComment =>
    "Invalid comment. '#' needs to be first character in the cell. For block comments you " ++
    "can use '*** Comments ***' section"
  | ignoredData => "Ignored data found in file"
  | bomEncodingInFile =>
    "This file contains BOM (Byte Order Mark) encoding not supported by Robot Framework"
  | duplicatedTestCase => "Multiple test cases with name \"%s\" (first occurrence in line %d)"
  | duplicatedKeyword => "Multiple keywords with name \"%s\" (first occurrence in line %d)"
  | duplicatedVariable =>
    "Multiple variables with name \"%s\" in Variables section (first occurrence in line %d). " ++
    "Note that Robot Framework is case-insensitive"
  | duplicatedResource => "Multiple resource imports with path \"%s\" (first occurrence in line %d)"
  | duplicatedLibrary =>
    "Multiple library imports with name \"%s\" and identical arguments (first occurrence in " ++
    "line %d)"
  | duplicatedMetadata => "Duplicated metadata \"%s\" (first occurrence in line %d)"
  | duplicatedVariablesImport =>
    "Duplicated variables import with path \"%s\" (first occurrence in line %d)"
  | sectionAlreadyDefined => "'%s' section header already defined in file"
  | sectionOutOfOrder => "'%s' section header is defined in wrong order: %s"
  | bothTestsAndTasks => "Both Task(s) and Test Case(s) section headers defined in file"
  | duplicatedArgumentName => "Argument name '%s' is already used"
  | duplicatedAssignedVarName => "Assigned variable name '%s' is already used"
  | keywordAfterReturn =>
    "[Return] is not defined at the end of keyword. Note that [Return] does not return from " ++
    "keyword but only set returned variables"
  | keywordAfterReturnFrom => "Keyword call after 'Return From Keyword' keyword"
  | emptyReturn => "[Return] is empty"
  | nestedForLoop => "Nested for loops are not supported. You can use keyword with for loop instead"
  | ifCanBeUsed => "'%s' can be replaced with IF block since Robot Framework 4.0"
  | inconsistentAssignment =>
    "The assignment sign is not consistent within the file. Expected '%s' but got '%s' " ++
    "instead"
  | inconsistentAssignmentInVariables =>
    "The assignment sign is not consistent inside the variables section. Expected '%s' but " ++
    "got '%s' instead"
  | wrongImportOrder => "BuiltIn library import '%s' should be placed before '%s'"
  | emptyVariable =>
    "Use built-in variable $\x7bEMPTY\x7d instead of leaving variable without value or using " ++
    "backslash"
  | canBeResourceFile => "No tests in '%s' file, consider renaming to '%s.resource'"
  | trailingWhitespace => "Trailing whitespace at the end of line"
  | missingTrailingBlankLine => "Missing trailing blank line at the end of file"
  | emptyLinesBetweenSections => "Invalid number of empty lines between sections (%d/%d)"
  | emptyLinesBetweenTestCases => "Invalid number of empty lines between test cases (%d/%d)"
  | emptyLinesBetweenKeywords => "Invalid number of empty lines between keywords (%d/%d)"
  | mixedTabsAndSpaces => "Inconsistent use of tabs and spaces in file"
  | unevenIndent => "Line is %s-indented"
  | badIndent => "Indent expected"
  | emptyLineAfterSection => "Too many empty lines after section header (%d/%d)"
  | tooManyTrailingBlankLines => "Too many blank lines at the end of file"
  | misalignedContinuation => "Continuation marker should be aligned with starting row"
  | consecutiveEmptyLines => "Too many empty lines (%s/%s)"
  | emptyLinesInStatement => "Multi-line statement with empty lines"
  | variableShouldBeLeftAligned => "Variable in Variable section should be left aligned"
  | misalignedContinuationRow =>
    "Each next continuation line should be aligned with the previous one"
  | suiteSettingShouldBeLeftAligned => "Setting in Settings section should be left aligned"

def severity : RuleKey → Severity
  | keywordNameIsReservedWord | elseNotUpperCase | keywordNameIsEmpty | testCaseNameIsEmpty
  | emptyLibraryAlias | parsingError | notEnoughWhitespaceAfterSetting | missingKeywordName
  | variablesImportWithArgs | invalidContinuationMark | notEnoughWhitespaceAfterNewlineMarker
  | invalidArgument | nonExistingSetting | settingNotSupported | notEnoughWhitespaceAfterVariable
  | notEnoughWhitespaceAfterSuiteSetting | invalidForLoop | invalidIf | emptyVariablesImport
  | emptyResourceImport | emptyLibraryImport | emptySetup | emptySuiteSetup | emptyTestSetup
  | emptyTeardown | emptySuiteTeardown | emptyTestTeardown | emptyArguments | invalidComment
  | duplicatedTestCase | duplicatedKeyword | duplicatedVariable | bothTestsAndTasks
  | duplicatedArgumentName | keywordAfterReturnFrom | nestedForLoop | badIndent
  | variableShouldBeLeftAligned | suiteSettingShouldBeLeftAligned => .error
  | possibleVariableOverwriting | hyphenInVariableName | tagWithOrAnd | couldBeForcedTags
  | tagAlreadySetInForceTags | unnecessaryDefaultTags | duplicatedAssignedVarName | ifCanBeUsed
  | emptyVariable | canBeResourceFile => .info
  | _ => .warning

/-- The slot of a parameter: the number of its rule and its name. -/
def slot (key : RuleKey) (param : String) : String := key.id ++ "." ++ param

def params : RuleKey → List Param
  | notAllowedCharInName =>
    [⟨"pattern", slot notAllowedCharInName "pattern", .pattern,
      some "pattern defining characters (not) allowed in a name"⟩]
  | wrongCaseInKeywordName =>
    [⟨"convention", slot wrongCaseInKeywordName "convention", .text,
      some ("possible values: 'each_word_capitalized' (default) or 'first_word_capitalized'")⟩]
  | tooLongKeyword =>
    [⟨"max_len", slot tooLongKeyword "max_len", .integer,
      some "number of lines allowed in a keyword"⟩]
  | tooFewCallsInKeyword =>
    [⟨"min_calls", slot tooFewCallsInKeyword "min_calls", .integer,
      some "number of keyword calls required in a keyword"⟩]
  | tooManyCallsInKeyword =>
    [⟨"max_calls", slot tooManyCallsInKeyword "max_calls", .integer,
      some "number of keyword calls allowed in a keyword"⟩]
  | tooLongTestCase =>
    [⟨"max_len", slot tooLongTestCase "max_len", .integer,
      some "number of lines allowed in a test case"⟩]
  | tooManyCallsInTestCase =>
    [⟨"max_calls", slot tooManyCallsInTestCase "max_calls", .integer,
      some "number of keyword calls allowed in a test case"⟩]
  | fileTooLong =>
    [⟨"max_lines", slot fileTooLong "max_lines", .integer,
      some "number of lines allowed in a file"⟩]
  | tooManyArguments =>
    [⟨"max_args", slot tooManyArguments "max_args", .integer,
      some "number of arguments a keyword can take"⟩]
  | lineTooLong =>
    [⟨"line_length", slot lineTooLong "line_length", .integer,
      some "number of characters allowed in one line"⟩,
     ⟨"ignore_pattern", slot lineTooLong "ignore_pattern", .pattern,
      some "ignore lines that contain configured pattern"⟩]
  | numberOfReturnedValues =>
    [⟨"max_returns", slot numberOfReturnedValues "max_returns", .integer,
      some "allowed number of returned values from a keyword"⟩]
  | tooManyTestCases =>
    [⟨"max_testcases", slot tooManyTestCases "max_testcases", .integer,
      some "number of test cases allowed in a suite"⟩,
     ⟨"max_templated_testcases", slot tooManyTestCases "max_templated_testcases", .integer,
      some "number of test cases allowed in a templated suite"⟩]
  | sectionOutOfOrder =>
    [⟨"sections_order", slot sectionOutOfOrder "sections_order", .order,
      some ("order of sections in comma separated list. For example: settings,variables,testcases,keywords")⟩]
  | inconsistentAssignment =>
    [⟨"assignment_sign_type", slot inconsistentAssignment "assignment_sign_type", .sign,
      some (
        "possible values: 'autodetect' (default), 'none' (''), 'equal_sign' ('=') or " ++
        "space_and_equal_sign (' =')")⟩]
  | inconsistentAssignmentInVariables =>
    [⟨"assignment_sign_type", slot inconsistentAssignmentInVariables "assignment_sign_type", .sign,
      some (
        "possible values: 'autodetect' (default), 'none' (''), 'equal_sign' ('=') or " ++
        "space_and_equal_sign (' =')")⟩]
  | emptyLinesBetweenSections =>
    [⟨"empty_lines", slot emptyLinesBetweenSections "empty_lines", .integer,
      some "number of empty lines required between sections"⟩]
  | emptyLinesBetweenTestCases =>
    [⟨"empty_lines", slot emptyLinesBetweenTestCases "empty_lines", .integer,
      some "number of empty lines required between test cases"⟩]
  | emptyLinesBetweenKeywords =>
    [⟨"empty_lines", slot emptyLinesBetweenKeywords "empty_lines", .integer,
      some "number of empty lines required between keywords"⟩]
  | emptyLineAfterSection =>
    [⟨"empty_lines", slot emptyLineAfterSection "empty_lines", .integer,
      some "number of empty lines allowed after section header"⟩]
  | consecutiveEmptyLines =>
    [⟨"empty_lines", slot consecutiveEmptyLines "empty_lines", .integer,
      some "number of allowed consecutive empty lines"⟩]
  | _ => []

def rule (key : RuleKey) : Rule :=
  ⟨key.id, key.name, key.template, key.severity, key.params, true⟩

end RuleKey

end SuiteLint
