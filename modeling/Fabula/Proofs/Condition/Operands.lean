import Fabula.Player.Turn
import Fabula.Proofs.Text.Occurrence

/-!
# The parts of a condition

A condition is read at the first occurrence of the first operator that occurs in it. The text
before that is the left operand. The right operand goes on to the next occurrence of the operator,
and what follows from there is dropped: the truth of the condition does not depend on it.
-/

namespace Fabula.Condition

open Text (FirstAt)

/-- The operator is the first of all operators that occurs in the text. -/
def Operator.LeadsIn (op : Operator) (cs : List Char) : Prop :=
  op.symbol <:+: cs ∧ ∃ before after, operators = before ++ op :: after ∧
    ∀ other ∈ before, ¬ other.symbol <:+: cs

/-- A text is read as two operands of an operator, the rest of it dropped. -/
inductive ReadAs (cs : List Char) : Operator → List Char → List Char → List Char → Prop
  | whole {op : Operator} {left right : List Char} : op.LeadsIn cs →
      FirstAt op.symbol cs left right → ¬ op.symbol <:+: right → ReadAs cs op left right []
  | cut {op : Operator} {left rest right tail : List Char} : op.LeadsIn cs →
      FirstAt op.symbol cs left rest → FirstAt op.symbol rest right tail →
      ReadAs cs op left right (op.symbol ++ tail)

section
variable {cs left right dropped : List Char} {op : Operator}

theorem mem_operators (op : Operator) : op ∈ operators := by
  cases op <;> decide

theorem symbol_ne_nil (op : Operator) : op.symbol ≠ [] := by
  cases op <;> decide

theorem ReadAs.leadsIn (h : ReadAs cs op left right dropped) : op.LeadsIn cs := by
  cases h with
  | whole hleads | cut hleads => exact hleads

theorem ReadAs.split (h : ReadAs cs op left right dropped) :
    cs = left ++ op.symbol ++ right ++ dropped := by
  cases h with
  | whole _ hfirst _ => rw [List.append_nil, ← hfirst.split]
  | cut _ hfirst hnext =>
    rw [hfirst.split, hnext.split]
    simp only [List.append_assoc]

/-- Nothing is dropped exactly if the operator does not occur in what follows its first
occurrence. -/
theorem ReadAs.dropped_eq_nil_iff (h : ReadAs cs op left right dropped) :
    dropped = [] ↔ ¬ op.symbol <:+: right ++ dropped := by
  cases h with
  | whole _ _ hnot => simpa using hnot
  | cut _ _ hnext =>
    have hoccurs := hnext.occurs
    rw [hnext.split, List.append_assoc] at hoccurs
    simp [symbol_ne_nil, hoccurs]

theorem around?_eq_none_iff {symbol : List Char} :
    around? symbol cs = none ↔ ¬ symbol <:+: cs := by
  rw [around?, Option.map_eq_none_iff, Text.cutAtText_eq_none_iff]

theorem around?_eq_some_iff {symbol : List Char} :
    around? symbol cs = some (left, right) ↔ ∃ rest, FirstAt symbol cs left rest ∧
      (¬ symbol <:+: rest ∧ right = rest ∨ ∃ tail, FirstAt symbol rest right tail) := by
  simp only [around?, Option.map_eq_some_iff, Prod.exists, Prod.mk.injEq,
    Text.cutAtText_eq_some_iff]
  constructor
  · rintro ⟨before, rest, hfirst, rfl, hright⟩
    refine ⟨rest, hfirst, ?_⟩
    cases hcut : Text.cutAtText symbol rest with
    | none =>
      rw [hcut] at hright
      exact .inl ⟨Text.cutAtText_eq_none_iff.mp hcut, hright.symm⟩
    | some parts =>
      rw [hcut] at hright
      obtain rfl : parts.1 = right := hright
      exact .inr ⟨parts.2, Text.firstAt_of_cutAtText hcut⟩
  · rintro ⟨rest, hfirst, ⟨hnot, rfl⟩ | ⟨tail, hnext⟩⟩
    · exact ⟨left, right, hfirst, rfl, by rw [Text.cutAtText_eq_none_iff.mpr hnot]; rfl⟩
    · exact ⟨left, rest, hfirst, rfl, by rw [Text.cutAtText_eq_some_iff.mpr hnext]; rfl⟩

theorem split?_eq_none_iff : split? cs = none ↔ ∀ op : Operator, ¬ op.symbol <:+: cs := by
  simp only [split?, List.findSome?_eq_none_iff, Option.map_eq_none_iff, around?_eq_none_iff]
  exact ⟨fun h op => h op (mem_operators op), fun h op _ => h op⟩

theorem split?_eq_some_iff :
    split? cs = some (op, left, right) ↔ ∃ dropped, ReadAs cs op left right dropped := by
  have hsplit : split? cs = some (op, left, right) ↔
      around? op.symbol cs = some (left, right) ∧ ∃ before after,
        operators = before ++ op :: after ∧ ∀ other ∈ before, ¬ other.symbol <:+: cs := by
    simp only [split?, List.findSome?_eq_some_iff, Option.map_eq_some_iff, Option.map_eq_none_iff,
      around?_eq_none_iff, Prod.mk.injEq]
    constructor
    · rintro ⟨before, other, after, hall, ⟨parts, hparts, rfl, rfl⟩, hnone⟩
      exact ⟨hparts, before, after, hall, hnone⟩
    · rintro ⟨hparts, before, after, hall, hnone⟩
      exact ⟨before, op, after, hall, ⟨_, hparts, rfl, rfl⟩, hnone⟩
  rw [hsplit, around?_eq_some_iff]
  constructor
  · rintro ⟨⟨rest, hfirst, hright⟩, hbefore⟩
    have hleads : op.LeadsIn cs := ⟨hfirst.occurs, hbefore⟩
    rcases hright with ⟨hnot, rfl⟩ | ⟨tail, hnext⟩
    · exact ⟨[], .whole hleads hfirst hnot⟩
    · exact ⟨_, .cut hleads hfirst hnext⟩
  · rintro ⟨dropped, hread⟩
    refine ⟨?_, hread.leadsIn.2⟩
    cases hread with
    | whole _ hfirst hnot => exact ⟨right, hfirst, .inl ⟨hnot, rfl⟩⟩
    | cut _ hfirst hnext => exact ⟨_, hfirst, .inr ⟨_, hnext⟩⟩

theorem evaluate?_of_readAs {expression : String} (store : Store)
    (h : ReadAs expression.toList op left right dropped) :
    evaluate? store expression = some (op.holds (operand store left) (operand store right)) := by
  rw [evaluate?, split?_eq_some_iff.mpr ⟨dropped, h⟩, Option.map_some]

theorem evaluate?_eq_none_iff {store : Store} {expression : String} :
    evaluate? store expression = none ↔ ∀ op : Operator, ¬ op.symbol <:+: expression.toList := by
  rw [evaluate?, Option.map_eq_none_iff, split?_eq_none_iff]

end

/-- A condition with an operator compares what is read as its operands, and any other is refused.
Beyond the operands nothing is read, and something is left there exactly if the operator occurs
again. -/
theorem evaluates_what_is_read (store : Store) (expression : String) :
    (∀ b, evaluate? store expression = some b ↔ ∃ op left right dropped,
      ReadAs expression.toList op left right dropped ∧
      b = op.holds (operand store left) (operand store right)) ∧
    (∀ op left right dropped, ReadAs expression.toList op left right dropped →
      expression.toList = left ++ op.symbol ++ right ++ dropped ∧
      (dropped = [] ↔ ¬ op.symbol <:+: right ++ dropped)) ∧
    ∀ {D : Type} (p : Player D) (e : RunError), p.decide expression = .error e ↔
      e = .unknownOperator expression ∧ ∀ op : Operator, ¬ op.symbol <:+: expression.toList := by
  refine ⟨?_, fun _ _ _ _ hread => ⟨hread.split, hread.dropped_eq_nil_iff⟩, ?_⟩
  · intro b
    constructor
    · intro h
      obtain ⟨⟨op, left, right⟩, hsplit, rfl⟩ := Option.map_eq_some_iff.mp h
      obtain ⟨dropped, hread⟩ := split?_eq_some_iff.mp hsplit
      exact ⟨op, left, right, dropped, hread, rfl⟩
    · rintro ⟨op, left, right, dropped, hread, rfl⟩
      exact evaluate?_of_readAs store hread
  · intro D p e
    have hnone : evaluate? p.store expression = none ↔ _ := evaluate?_eq_none_iff
    rw [Player.decide, ← hnone]
    cases evaluate? p.store expression with
    | none => simp [eq_comm]
    | some b => simp

theorem readAs_of_two_equalities :
    ReadAs "1==1==2".toList .eq ['1'] ['1'] ['=', '=', '2'] := by
  have hfirst : FirstAt Operator.eq.symbol "1==1==2".toList ['1'] ['1', '=', '=', '2'] :=
    Text.firstAt_of_cutAtText rfl
  have hnext : FirstAt Operator.eq.symbol ['1', '=', '=', '2'] ['1'] ['2'] :=
    Text.firstAt_of_cutAtText rfl
  exact .cut ⟨hfirst.occurs, [], _, rfl, by simp⟩ hfirst hnext

/-- Of two equalities in a row the first alone counts. -/
theorem evaluates_first_equality :
    ReadAs "1==1==2".toList .eq ['1'] ['1'] ['=', '=', '2'] ∧
    evaluate? .empty "1==1==2" = some true := by
  refine ⟨readAs_of_two_equalities, ?_⟩
  refine ((evaluates_what_is_read .empty "1==1==2").1 true).mpr ?_
  exact ⟨.eq, ['1'], ['1'], ['=', '=', '2'], readAs_of_two_equalities, rfl⟩

/-- The condition is true, though its left operand is not equal to all that follows the operator. -/
theorem second_equality_dropped :
    Operator.eq.LeadsIn "1==1==2".toList ∧
    FirstAt Operator.eq.symbol "1==1==2".toList ['1'] ['1', '=', '=', '2'] ∧
    evaluate? .empty "1==1==2" = some true ∧
    Operator.eq.holds (operand .empty ['1']) (operand .empty ['1', '=', '=', '2']) = false := by
  refine ⟨readAs_of_two_equalities.leadsIn, Text.firstAt_of_cutAtText rfl, ?_, rfl⟩
  exact evaluate?_of_readAs .empty readAs_of_two_equalities

end Fabula.Condition
