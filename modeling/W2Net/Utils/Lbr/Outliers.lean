import W2Net.Lib.OrderStats

/-!
# `W2Net.Utils.Lbr.Outliers`: the filter by the median deviation

The model of `remove_outliers_mad` of `utils/lbr.py`.
-/

set_option autoImplicit false

namespace W2Net.Lbr

variable {K : Type} [Field K] [LinearOrder K]

/-- `abs_dev`: the distance of each value from the median. -/
def absDev (values : List K) : List K := values.map fun v => |v - npMedian values|

/-- `mad`: the median of the distances. -/
def medianAbsDev (values : List K) : K := npMedian (absDev values)

/-- `remove_outliers_mad`. -/
def removeOutliersMad (values : List K) (thresh : K) : List K :=
  if values.length < 3 then values
  else
    let median := npMedian values
    let mad := medianAbsDev values
    if mad = 0 then values
    else values.filter fun v => decide (|v - median| / (mad * (14826 / 10 ^ 4)) < thresh)

end W2Net.Lbr
