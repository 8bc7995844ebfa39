import Fabula.Binary.Literal
import Fabula.Store
import Fabula.Text.Blank
import Fabula.Text.Numeral
import Fabula.Text.Split

/-!
Conditions `left <operator> right`. An operand is a variable in braces, a whole number, a decimal
or a plain string. Equality compares values of all kinds; the ordering operators compare two whole
numbers, two doubles or two strings, and are false of anything else.
-/

namespace Fabula

open Binary (Literal)

namespace Condition

inductive Operator where
  | eq
  | ne
  | ge
  | le
  | gt
  | lt
deriving DecidableEq, Repr

def Operator.symbol : Operator → List Char
  | eq => ['=', '=']
  | ne => ['!', '=']
  | ge => ['>', '=']
  | le => ['<', '=']
  | gt => ['>']
  | lt => ['<']

/-- The operators in the order in which they are looked for. -/
def operators : List Operator := [.eq, .ne, .ge, .le, .gt, .lt]

/-- The text before the first `symbol`, and the text from there to the next one or the end. -/
def around? (symbol : List Char) (expression : List Char) : Option (List Char × List Char) :=
  (Text.cutAtText symbol expression).map fun (left, rest) =>
    (left, ((Text.cutAtText symbol rest).map Prod.fst).getD rest)

/-- The first operator that occurs, with its two operands. -/
def split? (expression : List Char) : Option (Operator × List Char × List Char) :=
  operators.findSome? fun op => (around? op.symbol expression).map fun parts => (op, parts)

/-- The name in a text in braces. -/
def bracedName? : List Char → Option (List Char)
  | '\x7b' :: rest => Text.dropLast? '\x7d' rest
  | _ => none

/-- A text that is no variable, as a value. A decimal that is not finite has no value. -/
def literal (text : List Char) : Json :=
  match Text.readInteger? text with
  | some i => .int i
  | none =>
    match Literal.read? text with
    | some number => (number.toDouble?.map Json.float).getD .null
    | none => .str (String.ofList text)

/-- The value of an operand; a blank one and an unset variable are null. -/
def operand (store : Store) (raw : List Char) : Json :=
  let text := Text.trim raw
  if text = [] then .null
  else match bracedName? text with
    | some name => (store.get? (String.ofList (Text.trim name))).getD .null
    | none => literal text

/-- Two whole numbers are ordered when both fit signed 64 bits or both are unsigned. -/
def compareInts? (a b : Int) : Option Ordering :=
  if Text.fitsSigned 64 a && Text.fitsSigned 64 b then some (compare a b)
  else if 0 ≤ a && 0 ≤ b then some (compare a b)
  else none

/-- The order of two values, where they have one. -/
def order? : Json → Json → Option Ordering
  | .float a, .float b => some (compare a.signedRank b.signedRank)
  | .int a, .int b => compareInts? a b
  | .str a, .str b => some (compare a b)
  | _, _ => none

def Operator.holds (op : Operator) (left right : Json) : Bool :=
  match op with
  | eq => left.same right
  | ne => !left.same right
  | ge => (order? left right).any (· != .lt)
  | le => (order? left right).any (· != .gt)
  | gt => (order? left right).any (· == .gt)
  | lt => (order? left right).any (· == .lt)

/-- The truth of an expression; nothing when no operator occurs in it. -/
def evaluate? (store : Store) (expression : String) : Option Bool :=
  (split? expression.toList).map fun (op, left, right) =>
    op.holds (operand store left) (operand store right)

end Condition

end Fabula
