import Persola.Lib.Numbers
import Persola.Persona.Cyrex

/-!
# `Analysis.Heuristic` — the analysis of a text without a model

`_heuristic_analysis` counts words, sentences, marks and markers and makes the 23 knobs of the counts, with the float
operations of the source in their order. Every one of them is clamped.
-/

namespace Persola.Analysis

open Persona (Knob)

/-- `StyleAnalysis`. -/
structure StyleAnalysis where
  knobs : Knob → ℚ
  confidenceScore : ℚ
  notes : String

/-- The knobs and the confidence score lie in `[0, 1]`. -/
structure StyleAnalysis.InRange (a : StyleAnalysis) : Prop where
  knobs : ∀ k, 0 ≤ a.knobs k ∧ a.knobs k ≤ 1
  confidenceScore : 0 ≤ a.confidenceScore ∧ a.confidenceScore ≤ 1

/-- What Python knows of characters: `\w`, `s.lower()`, and which characters match a letter of a pattern with
`re.IGNORECASE`. -/
structure Characters where
  isWord : Char → Bool
  lower : List Char → List Char
  ignoreCase : Char → Char → Bool

namespace Characters

variable (chars : Characters)

/-- `\b` between two characters, where there are such. -/
def boundary (before after : Option Char) : Bool := before.any chars.isWord != after.any chars.isWord

/-- How many characters `\b(w₁|w₂|…)\b` matches here. -/
def matchHere (same : Char → Char → Bool) (alternatives : List String) (before : Option Char) (s : List Char) :
    Option ℕ :=
  if chars.boundary before s.head? then
    alternatives.findSome? fun w =>
      let n := w.length
      let matched := s.take n
      if matched.length = n ∧ (w.toList.zip matched).all (fun cs => same cs.1 cs.2) ∧
        chars.boundary matched.getLast? (s.drop n).head? then some n else none
  else none

/-- `len(re.findall(r"\b(w₁|w₂|…)\b", s))`, `skip` characters of which belong to a match already. -/
def countMatches (same : Char → Char → Bool) (alternatives : List String) : Option Char → ℕ → List Char → ℕ
  | _, _, [] => 0
  | _, skip + 1, c :: s => countMatches same alternatives (some c) skip s
  | before, 0, c :: s =>
      match chars.matchHere same alternatives before (c :: s) with
      | some n => countMatches same alternatives (some c) (n - 1) s + 1
      | none => countMatches same alternatives (some c) 0 s

/-- The count with `re.IGNORECASE`. -/
def markers (alternatives : List String) (text : List Char) : ℕ :=
  chars.countMatches chars.ignoreCase alternatives none 0 text

/-- `re.findall(r"\b\w+\b", text)`. -/
def words (text : List Char) : List (List Char) := (text.splitOnP (!chars.isWord ·)).filter (· ≠ [])

end Characters

/-- The sentences: what stands between marks, where it is not blank. -/
def sentencesOf (text : List Char) : List (List Char) :=
  ((text.splitOnP (· ∈ ['.', '!', '?'])).map fun s => (Py.strip (String.ofList s)).toList).filter (· ≠ [])

/-- `_clamp`, of a float. -/
def clampFloat (x : FloatValue) : ℚ := (x.round 3).clamp

/-- `_clamp`, of what is finite. -/
def clamp (x : ℚ) : ℚ := clampFloat (.finite x)

theorem clamp_range (x : ℚ) : 0 ≤ clamp x ∧ clamp x ≤ 1 := FloatValue.clamp_range _

/-- `_average`: the exact mean, rounded once. -/
def average (values : List ℕ) : ℚ :=
  if values = [] then 0 else Rounding.binary64.div values.sum values.length

/-- `consistency_hint`. -/
def consistencyHint (chars : Characters) (text : List Char) : ℚ :=
  let r := Rounding.binary64
  let lower := chars.lower text
  let repeatedTransitions := chars.countMatches (· == ·)
    ["for example", "for instance", "however", "therefore", "because"] none 0 lower
  let repeatedPhrases := chars.countMatches (· == ·) ["again", "consistently", "always", "usually"] none 0 lower
  clamp (r.add (r.add (r.fl (45/100)) (r.mul repeatedTransitions (r.fl (5/100))))
    (r.mul repeatedPhrases (r.fl (7/100))))

/-- What is counted in a text. -/
structure Counts where
  wordCount : ℕ
  distinctWords : ℕ
  avgWordLen : ℚ
  avgSentenceLen : ℚ
  sentences : ℕ
  exclamations : ℕ
  questions : ℕ
  firstPerson : ℕ
  hedges : ℕ
  structureMarkers : ℕ
  humorMarkers : ℕ
  corrections : ℕ
  consistencyHint : ℚ

/-- The counts of a text. -/
def countsOf (chars : Characters) (text : List Char) : Counts :=
  let words := chars.words text
  let sentences := sentencesOf text
  { wordCount := words.length
    distinctWords := words.dedup.length
    avgWordLen := average (words.map List.length)
    avgSentenceLen := average (sentences.map fun s => (chars.words s).length)
    sentences := sentences.length
    exclamations := text.count '!'
    questions := text.count '?'
    firstPerson := chars.markers ["I", "me", "my", "mine", "we", "our", "ours"] text
    hedges := chars.markers ["maybe", "perhaps", "might", "could", "possibly", "seems", "appears"] text
    structureMarkers := chars.markers
      ["first", "second", "third", "next", "finally", "therefore", "because", "however"] text
    humorMarkers := chars.markers ["haha", "lol", "funny", "joke", "sarcasm"] text
    corrections := chars.markers ["correct", "clarify", "rephrase", "actually"] text
    consistencyHint := consistencyHint chars text }

/-- The knobs that `_heuristic_analysis` makes of the counts. -/
def heuristicKnobs (m : Counts) : Knob → ℚ :=
  let r := Rounding.binary64
  -- `max(len(sentences), 1)` and `max(len(sentences) * 2, 1)`
  let perSentence : ℚ := max m.sentences 1
  let perHalf : ℚ := max (m.sentences * 2) 1
  let creativity := clamp (if m.wordCount = 0 then 1/2 else r.div m.distinctWords m.wordCount)
  let empathy := clamp (r.div m.firstPerson (max (r.div m.wordCount 20) 1))
  let reasoningDepth := clamp (r.div m.avgSentenceLen 24)
  let stepByStep := clamp (r.div m.structureMarkers perSentence)
  let conscientiousness := clamp (r.div (r.add stepByStep reasoningDepth) 2)
  let selfCorrection := clamp (r.div m.corrections perSentence)
  fun
  | .creativity => creativity
  | .humor => clamp (r.div (r.add m.humorMarkers (r.mul m.exclamations (r.fl (15/100)))) 6)
  | .formality => clamp (r.div (r.sub m.avgWordLen (7/2)) (9/2))
  | .verbosity => clamp (r.div m.wordCount 400)
  | .empathy => empathy
  | .confidence => clamp (r.sub (3/4) (r.mul (r.div m.hedges perSentence) (r.fl (15/100))))
  | .openness => clamp (r.div (r.add creativity (r.div m.questions perSentence)) 2)
  | .conscientiousness => conscientiousness
  | .extraversion => clamp (r.div (m.exclamations + m.firstPerson) perHalf)
  | .agreeableness => clamp (r.div (r.add empathy (r.fl (6/10))) 2)
  | .neuroticism => clamp (r.div (r.add m.hedges (r.mul m.questions (1/2))) perHalf)
  | .reasoningDepth => reasoningDepth
  | .stepByStep => stepByStep
  | .creativityInReasoning => clamp (r.div (r.add creativity (r.div m.structureMarkers 10)) 2)
  | .synthetics => clamp (r.div (m.questions + m.structureMarkers) perHalf)
  | .abstraction => clamp (r.div (r.sub m.avgWordLen 4) 4)
  | .patterns => clamp (r.div m.structureMarkers perSentence)
  | .accuracy => clamp (r.div (r.add (r.add reasoningDepth conscientiousness) (r.fl (8/10))) 3)
  | .reliability => clamp (r.div (r.add (r.add conscientiousness m.consistencyHint) (r.fl (8/10))) 3)
  | .caution => clamp (r.add (r.div m.hedges perSentence) (r.fl (2/10)))
  | .consistency => clamp m.consistencyHint
  | .selfCorrection => selfCorrection
  | .transparency => clamp (r.div (r.add m.hedges selfCorrection) perSentence)

/-- One word alone: its verbosity is a tie in exact arithmetic, and the float lies above it. -/
example : clamp (Rounding.binary64.div 1 400) = Binary64.fl (3/1000) ∧ Py.round 3 (1/400) = 2/1000 := by
  decide +kernel

/-- The notes. -/
def heuristicNotes (knobs : Knob → ℚ) (notesPrefix : String) : String :=
  let above (k : Knob) (x : ℚ) : Bool := Binary64.fl x < knobs k
  notesPrefix ++ " Detected a " ++
    (if above .formality (6/10) then "formal" else if above .formality (4/10) then "mixed" else "casual") ++
    " tone, " ++ (if above .reasoningDepth (6/10) then "higher" else "moderate") ++ " reasoning depth, and " ++
    (if above .extraversion (6/10) then "expressive" else "measured") ++ " delivery."

/-- `_heuristic_analysis`. -/
def heuristicAnalysis (chars : Characters) (text notesPrefix : String) : StyleAnalysis :=
  let counts := countsOf chars text.toList
  let knobs := heuristicKnobs counts
  { knobs := knobs
    confidenceScore := clamp
      (min (Binary64.fl (65/100)) (Rounding.binary64.add (Binary64.fl (3/10)) (Binary64.fl (counts.wordCount / 1000))))
    notes := heuristicNotes knobs notesPrefix }

/-- **The heuristic analysis is in range**, whatever the text. -/
theorem heuristicAnalysis_inRange (chars : Characters) (text notesPrefix : String) :
    (heuristicAnalysis chars text notesPrefix).InRange where
  knobs k := by cases k <;> exact clamp_range _
  confidenceScore := clamp_range _

end Persola.Analysis
