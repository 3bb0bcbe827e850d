import Persola.Analysis.Heuristic
import Persola.Lib.JsonRead
import Persola.Lib.Regex

/-!
# `Analysis.Extractor` — a style analysis out of what a model returns

`_parse_response` tries three pieces of a response: what stands in a fence, the whole, and what stands in braces. A
piece that is no JSON is left out, and so is one that `from_payload` refuses with a `TypeError` or a `ValueError`.
Anything else that is raised is raised: by a piece that is no object, by an integer with too many digits, and by an
integer that is too large for a float.
-/

namespace Persola.Analysis

open Persona (Knob)
open Number (Fault)

/-- How Python reads floats from texts, and writes values that are no texts. -/
structure Conversions where
  float : String → Option FloatValue
  str : Json Number → String

/-- Whether Python takes the value for true. -/
def truthy : Json Number → Bool
  | .null => false
  | .bool b => b
  | .number n => !n.isZero
  | .str s => s ≠ ""
  | .arr items => !items.isEmpty
  | .obj fields => !fields.isEmpty

namespace Conversions

variable (py : Conversions)

/-- `_clamp(float(value if value is not None else default))`. -/
def normalize (value : Json Number) (default : ℚ) : Except PyError ℚ :=
  match value with
  | .null => .ok (clamp default)
  | value => (value.toFloat py.float).map clampFloat

/-- `str(value or "")`. -/
def text (value : Json Number) : String :=
  if truthy value then
    match value with
    | .str s => s
    | value => py.str value
  else ""

end Conversions

/-! ## A payload -/

/-- What is read off a payload: a value under a key, and the default for a value that is `None`. -/
structure Reading where
  key : String
  value : Json Number
  default : ℚ

/-- The values of the knobs and of the confidence score, in the order in which they are converted. -/
def readings (payload analysis : List (String × Json Number)) : List Reading :=
  (Knob.fields.map fun k => ⟨k.key, (analysis.lookup k.key).getD .null, k.default⟩) ++
    [⟨"confidence_score", (payload.lookup "confidence_score").getD (.number (.float (.finite 0))), 0⟩]

/-- The loop over the values. -/
def normalized (py : Conversions) : List Reading → Except PyError (List (String × ℚ))
  | [] => .ok []
  | r :: rs => do
      let x ← py.normalize r.value r.default
      return (r.key, x) :: (← normalized py rs)

/-- `cls(**normalized)`. -/
def analysisWith (py : Conversions) (fields : List (String × Json Number)) (values : List (String × ℚ)) :
    StyleAnalysis where
  knobs k := (values.lookup k.key).getD k.default
  confidenceScore := (values.lookup "confidence_score").getD 0
  notes := py.text ((fields.lookup "notes").getD (.str ""))

/-- `StyleAnalysis.from_payload`. -/
def fromPayload (py : Conversions) (payload : Json Number) : Except PyError StyleAnalysis :=
  match payload with
  | .obj fields =>
      match (fields.lookup "analysis").getD payload with
      | .obj analysis => (normalized py (readings fields analysis)).map (analysisWith py fields)
      | _ => .error .typeError
  -- there is no `get`
  | _ => .error .attributeError

/-! ## A response -/

/-- `(\{.*\})` with `re.DOTALL`. -/
def bracedRe : Regex :=
  .group (.concat [.lit ['{'], .many fun _ => true, .lit ['}']])

/-- `` ```(?:json)?\s*(\{.*\})\s*``` `` with `re.DOTALL`. -/
def fencedRe : Regex :=
  .concat [.lit ['\x60', '\x60', '\x60'], .maybe (.lit ['j', 's', 'o', 'n']), .many Py.isSpace, bracedRe,
    .many Py.isSpace, .lit ['\x60', '\x60', '\x60']]

/-- `re.search(r, text).group(1).strip()`, if there is a match. -/
def searched (r : Regex) (text : String) : Option String :=
  (Regex.finditer r 0 text.toList).head?.map fun groups => Py.strip (String.ofList (groups.getD 0 []))

/-- The pieces of a response that are tried. -/
def candidates (response : String) : List String :=
  (searched fencedRe response).toList ++ [Py.strip response] ++ (searched bracedRe response).toList

/-- `json.loads`. -/
def loads (s : String) : Except Fault (Json Number) := Json.read .decodeError Number.scan s.toList

/-- The loop over the pieces. -/
def parseCandidates (py : Conversions) : List String → Except PyError (Option StyleAnalysis)
  | [] => .ok none
  | c :: cs =>
      match loads c with
      | .error .decodeError => parseCandidates py cs
      | .error .valueError => .error .valueError
      | .ok payload =>
          match fromPayload py payload with
          | .ok analysis => .ok (some analysis)
          | .error .typeError | .error .valueError => parseCandidates py cs
          | .error e => .error e

/-- `_parse_response`. -/
def parseResponse (py : Conversions) (response : String) : Except PyError (Option StyleAnalysis) :=
  parseCandidates py (candidates response)

/-! ## The extraction -/

/-- The prompts, by what is put into them. -/
inductive Prompt
  | analysis (text : String)
  | retry (text invalidResponse : String)

/-- The model. -/
structure PersolaLLM where
  isAvailable : Bool
  generate : Prompt → String

/-- `extract`. -/
def extract (py : Conversions) (chars : Characters) (llm : PersolaLLM) (text : String) :
    Except PyError StyleAnalysis := do
  let sample := Py.strip text
  if sample = "" then throw .valueError
  if !llm.isAvailable then
    return heuristicAnalysis chars sample "LLM unavailable; used heuristic analysis."
  let response := llm.generate (.analysis sample)
  match ← parseResponse py response with
  | some parsed => return parsed
  | none =>
      match ← parseResponse py (llm.generate (.retry sample response)) with
      | none =>
          return heuristicAnalysis chars sample
            "Could not parse structured LLM output after retry; used heuristic analysis."
      | some parsed =>
          return { parsed with
            notes := if parsed.notes ≠ "" then "Retried after malformed LLM JSON. " ++ parsed.notes
              else "Retried after malformed LLM JSON." }

end Persola.Analysis
