import SkillMarket.Binary64.Decimal
import SkillMarket.Skill.FrontMatter
import SkillMarket.Text.Case
import SkillMarket.Text.Search
import SkillMarket.Text.Word

/-!
Scoring a skill's document.

What the rubric looks at is found first: the findings. They decide the issues, in a fixed order,
and the points. Points are binary64 numbers and are added in that order, too; the total is rounded
to tenths, a tie going to the even one.
-/

namespace SkillMarket.Skill

/-! ## What the rubric looks for -/

def vaguePhrases : List String := ["helps with", "tool for", "useful", "handles"]

def occasionPhrases : List String := ["when ", "use when"]

def secondPersonPhrases : List String := ["you", "your", "i ", "i'm"]

def genericNames : List String := ["helper", "utils", "tool", "skill"]

def overviewHeadings : List String := ["## Overview", "## What"]

def usageHeadings : List String := ["## Usage", "## How"]

/-- One of the phrases occurs in the text. -/
def mentions (phrases : List String) (text : List Char) : Bool :=
  phrases.any fun p => Text.occurs p.toList text

/-- The length of a code fence at the end of a line: three backquotes, word characters and the
newline. -/
def fenceLength? : List Char → Option Nat
  | '\x60' :: '\x60' :: '\x60' :: rest =>
    let word := rest.takeWhile Text.isWord
    if (rest.drop word.length).head? = some '\n' then some (word.length + 4) else none
  | _ => none

/-- The number of code fences that end a line. -/
def fenceCount (text : List Char) : Nat := Text.countMatches fenceLength? 0 text

/-- Four digits, two and two, with hyphens between them. -/
def datePattern : Text.Pattern :=
  let digits (n : Nat) : Text.Pattern := List.replicate n Text.isDigit
  digits 4 ++ [(· == '-')] ++ digits 2 ++ [(· == '-')] ++ digits 2

/-- What shows that a text is about a certain time. -/
def timePatterns : List Text.Pattern :=
  [datePattern, Text.anyCase "last updated".toList,
    Text.anyCase "as of ".toList ++ List.replicate 4 Text.isDigit]

/-! ## Findings -/

/-- What is found in a description. -/
structure DescriptionTraits where
  isLong : Bool
  isSpecific : Bool
  saysWhen : Bool
  isThirdPerson : Bool
deriving DecidableEq, Repr

/-- The least number of characters of a long description. -/
def longDescription : Nat := 50

def DescriptionTraits.of (description : List Char) : DescriptionTraits :=
  let lower := Text.lowerAll description
  { isLong := longDescription ≤ description.length
    isSpecific := !mentions vaguePhrases lower
    saysWhen := mentions occasionPhrases lower
    isThirdPerson := !mentions secondPersonPhrases lower }

/-- What is found in a name. -/
structure NameTraits where
  isHyphenated : Bool
  isSpecific : Bool
deriving DecidableEq, Repr

def NameTraits.of (name : String) : NameTraits :=
  { isHyphenated := Text.lowerAll name.toList == name.toList && name.toList.contains '-'
    isSpecific := !genericNames.contains name }

/-- What is found in the text of a document. -/
structure TextTraits where
  newlines : Nat
  fences : Nat
  hasOverview : Bool
  hasUsage : Bool
  hasWindowsPath : Bool
  isTimeSensitive : Bool
  mixesTerms : Bool
deriving DecidableEq, Repr

def TextTraits.of (text : List Char) : TextTraits :=
  { newlines := Text.countNewlines text
    fences := fenceCount text
    hasOverview := mentions overviewHeadings text
    hasUsage := mentions usageHeadings text
    hasWindowsPath := mentions ["C:\\"] text
    isTimeSensitive := timePatterns.any (·.occurs text)
    mixesTerms := mentions ["skill", "Skill"] text && mentions ["plugin", "Plugin"] text }

/-- What is found in a document; an empty description or name is as good as none. -/
structure Findings where
  description : Option DescriptionTraits
  name : Option NameTraits
  text : TextTraits
deriving DecidableEq, Repr

def Findings.of (text : List Char) : Findings :=
  let front := FrontMatter.ofText text
  { description := (front.description.filter (· ≠ "")).map fun d => .of d.toList
    name := (front.name.filter (· ≠ "")).map .of
    text := .of text }

/-! ## Issues -/

/-- What can be wrong with a document. -/
inductive Issue where
  | noDescription
  | shortDescription
  | vagueDescription
  | noOccasion
  | notThirdPerson
  | noName
  | notHyphenated
  | genericName
  | long (newlines : Nat)
  | tooLong (newlines : Nat)
  | noExamples
  | fewExamples (count : Nat)
  | noOverview
  | noUsage
  | windowsPath
  | timeSensitive
  | mixedTerms
deriving DecidableEq, Repr

def Issue.message : Issue → String
  | noDescription => "Description: Missing description"
  | shortDescription => "Description: Description too short (< 50 chars)"
  | vagueDescription => "Description: Description contains vague phrases"
  | noOccasion => "Description: Description missing 'when to use' guidance"
  | notThirdPerson => "Description: Description should be third person"
  | noName => "Name: Missing name"
  | notHyphenated => "Name: Name should be lowercase-with-hyphens"
  | genericName => "Name: Name too generic"
  | long newlines => s!"Conciseness: SKILL.md is {newlines} lines (recommend <500)"
  | tooLong newlines => s!"Conciseness: SKILL.md is {newlines} lines (way over 500 limit)"
  | noExamples => "Examples: No code examples found"
  | fewExamples count => s!"Examples: Only {count} code examples (recommend 5+)"
  | noOverview => "Structure: Missing overview section"
  | noUsage => "Structure: Missing usage section"
  | windowsPath => "Structure: Contains Windows-style paths (use Unix /)"
  | timeSensitive => "Anti-patterns: Contains time-sensitive information"
  | mixedTerms => "Anti-patterns: Inconsistent terminology (skill vs plugin)"

/-- An issue, unless all is well. -/
def issueUnless (good : Bool) (issue : Issue) : List Issue := if good then [] else [issue]

def descriptionIssues : Option DescriptionTraits → List Issue
  | none => [.noDescription]
  | some d =>
    issueUnless d.isLong .shortDescription ++ issueUnless d.isSpecific .vagueDescription ++
      issueUnless d.saysWhen .noOccasion ++ issueUnless d.isThirdPerson .notThirdPerson

def nameIssues : Option NameTraits → List Issue
  | none => [.noName]
  | some n => issueUnless n.isHyphenated .notHyphenated ++ issueUnless n.isSpecific .genericName

def lengthIssues (newlines : Nat) : List Issue :=
  if newlines < 500 then [] else if newlines < 800 then [.long newlines] else [.tooLong newlines]

def exampleIssues (count : Nat) : List Issue :=
  if count = 0 then [.noExamples] else if count < 3 then [.fewExamples count] else []

def structureIssues (t : TextTraits) : List Issue :=
  issueUnless t.hasOverview .noOverview ++ issueUnless t.hasUsage .noUsage ++
    issueUnless (!t.hasWindowsPath) .windowsPath

def habitIssues (t : TextTraits) : List Issue :=
  issueUnless (!t.isTimeSensitive) .timeSensitive ++ issueUnless (!t.mixesTerms) .mixedTerms

/-- The issues of a document, in the order of the rubric. -/
def Findings.issues (f : Findings) : List Issue :=
  descriptionIssues f.description ++ nameIssues f.name ++ lengthIssues f.text.newlines ++
    exampleIssues f.text.fences ++ structureIssues f.text ++ habitIssues f.text

/-! ## Points -/

/-- So many hundredths of a point. -/
def hundredths (n : Nat) : Binary64 := .ofRatio n 100

/-- What is given for what is good, added up from nothing. -/
def earned (parts : List (Bool × Nat)) : Binary64 :=
  parts.foldl (fun sum p => if p.1 then sum + hundredths p.2 else sum) (hundredths 0)

/-- What is left of one point after what is taken off for what is not good; not below nothing. -/
def kept (parts : List (Bool × Nat)) : Binary64 :=
  (parts.foldl (fun sum p => if p.1 then sum else sum - hundredths p.2) (hundredths 100)).max
    (hundredths 0)

def descriptionPoints : Option DescriptionTraits → Binary64
  | none => hundredths 0
  | some d => earned [(d.isLong, 50), (d.isSpecific, 50), (d.saysWhen, 50), (d.isThirdPerson, 50)]

def namePoints : Option NameTraits → Binary64
  | none => hundredths 0
  | some n => earned [(n.isHyphenated, 25), (n.isSpecific, 25)]

def lengthPoints (newlines : Nat) : Binary64 :=
  hundredths (if newlines < 300 then 150 else if newlines < 500 then 100
    else if newlines < 800 then 50 else 0)

def examplePoints (count : Nat) : Binary64 :=
  hundredths (if count = 0 then 0 else if count < 3 then 50 else 100)

def structurePoints (t : TextTraits) : Binary64 :=
  kept [(t.hasOverview, 30), (t.hasUsage, 30), (!t.hasWindowsPath, 40)]

def habitPoints (t : TextTraits) : Binary64 := kept [(!t.isTimeSensitive, 50), (!t.mixesTerms, 50)]

/-- What every document is given for what the text cannot show. -/
def fixedPoints : Binary64 := hundredths 300

/-- The sum of all points. -/
def Findings.total (f : Findings) : Binary64 :=
  fixedPoints + descriptionPoints f.description + namePoints f.name + lengthPoints f.text.newlines +
    examplePoints f.text.fences + structurePoints f.text + habitPoints f.text

/-- A number rounded to tenths. -/
def toTenths (x : Binary64) : Binary64 := (x * .ofNat 10).roundToEven / .ofNat 10

def Findings.score (f : Findings) : Binary64 := toTenths f.total

/-! ## Reports -/

/-- The score of a document and what is wrong with it. -/
structure Report where
  score : Binary64
  issues : List String
deriving DecidableEq, Repr

/-- The report on a document. -/
def Report.ofText (text : List Char) : Report :=
  let f := Findings.of text
  ⟨f.score, f.issues.map Issue.message⟩

/-- The score reaches the threshold. -/
def Report.passes (r : Report) (threshold : Binary64) : Bool := threshold.le r.score

end SkillMarket.Skill
