import W2Net.Lib.FirstKey
import W2Net.Lib.Python
import W2Net.Lib.TextLines

/-!
# `W2Net.Utils.HypParse`: the settings file

The model of `hyp_parse` of `utils/utils.py`, which `train.py`, `eval.py` and `demo.py` call for the
settings. A dictionary is the list of its items in the order of their first assignment. `float` and
`eval` are parameters. The value of `eval` is a function of the text alone: a setting that names a
local variable of `hyp_parse` is not modelled.
-/

set_option autoImplicit false

namespace W2Net.HypParse

variable {V : Type}

/-- `float(text)` and `eval(text)`. -/
structure Readers (V : Type) where
  float : Text → PyM V
  eval : Text → PyM V

/-- `line.startswith('#') or len(line.strip()) == 0`. -/
def skips (line : Text) : Bool := ['#'].isPrefixOf line || (Text.strip line).length == 0

/-- `v[0]`. -/
def keyOf (line : Text) : Text := (Text.split (Text.strip line) [':']).headD []

/-- `v[1].strip().split(' ')[0]`. -/
def valueText (line : Text) : PyM Text :=
  match (Text.split (Text.strip line) [':'])[1]? with
  | some piece => .ok ((Text.split (Text.strip piece) [' ']).headD [])
  | none => .error .indexError

/-- What `try` and `except` assign: every exception of the first try leads to the second one. -/
def readValue (R : Readers V) (line : Text) : PyM V :=
  match valueText line >>= R.float with
  | .ok x => .ok x
  | .error _ => valueText line >>= R.eval

/-- `hyp[key] = value`. -/
def setItem (hyp : List (Text × V)) (key : Text) (value : V) : List (Text × V) :=
  updateFirst Prod.fst key (fun item => (item.1, value)) (key, value) hyp

/-- The body of the loop. -/
def parseLine (R : Readers V) (hyp : List (Text × V)) (line : Text) : PyM (List (Text × V)) :=
  if skips line then .ok hyp
  else do
    let value ← readValue R line
    .ok (setItem hyp (keyOf line) value)

/-- `hyp_parse` of a file with this content. -/
def hypParse (R : Readers V) (content : Text) : PyM (List (Text × V)) :=
  (Text.readlines content).foldlM (parseLine R) []

end W2Net.HypParse
