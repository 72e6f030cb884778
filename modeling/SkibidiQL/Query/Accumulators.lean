import SkibidiQL.Query.Eval

/-!
# Accumulators of aggregates

The state that the streaming lambda of `executeSelect`, `executeDirectAggregateSelect` and
`executeRowIdSeekJoinAggregateSelect` keep for one aggregate of one group. The three functions declare the
same structures and the same steps, each for itself.
-/

namespace SkibidiQL

/-- `enum class StreamAggregateKind`. -/
inductive AggregateKind where
  | count
  | sum
  | average
  | max
  | min
  | loneWolf
deriving DecidableEq

/-- The kind of a simple aggregate. -/
def AggregateKind.ofName (name : Bytes) : AggregateKind :=
  if name = lit "headcount" then .count
  else if name = lit "stack" then .sum
  else if name = lit "mid" then .average
  else if name = lit "goat" then .max
  else if name = lit "L" then .min
  else .loneWolf

/-- `struct StreamAggregateState`. -/
structure AggregateState where
  count : Nat := 0
  sum : Float := 0
  allIntegers : Bool := true
  extremum : Option Value := none
  samples : List Float := []

namespace AggregateState

/-- A row counted without an argument. -/
def countRow (state : AggregateState) : AggregateState :=
  { state with count := state.count + 1 }

/-- A number taken in. -/
def addNumber (kind : AggregateKind) (state : AggregateState) (value : Value) : AggregateState :=
  { state with
    count := state.count + 1
    sum := state.sum + value.toFloat
    allIntegers := state.allIntegers && value.type == .integer
    samples := if kind = .loneWolf then state.samples ++ [value.toFloat] else state.samples }

/-- A candidate for the extremum; an equal one does not replace it. -/
def addCandidate (kind : AggregateKind) (state : AggregateState) (value : Value) : AggregateState :=
  let better (best : Value) : Bool :=
    (kind = .max && (value.compare best).isGT) || (kind = .min && (value.compare best).isLT)
  { state with
    count := state.count + 1
    extremum := match state.extremum with
      | none => some value
      | some best => if better best then some value else some best }

/-- The value of the argument on a row, taken in. -/
def add (kind : AggregateKind) (state : AggregateState) (value : Value) : Except Error AggregateState :=
  if value.isNull then pure state
  else match kind with
    | .count => pure state.countRow
    | .sum | .average | .loneWolf =>
      if value.isNumeric then pure (state.addNumber kind value)
      else throw (lit "Numeric aggregate on non-number")
    | .max | .min => pure (state.addCandidate kind value)

/-- The value of the aggregate. -/
def result (kind : AggregateKind) (state : AggregateState) : Value :=
  match kind with
  | .count => countValue state.count
  -- Over no values the count is 0, and all that follow are NULL.
  | .loneWolf => countValue (countLoneWolves state.samples)
  | kind =>
    if state.count = 0 then .null
    else match kind with
      | .average => .ofFloat (state.sum / floatOfNat state.count)
      | .sum => if state.allIntegers then .integer (truncate state.sum) else .ofFloat state.sum
      | _ => state.extremum.getD .null

end AggregateState

end SkibidiQL
