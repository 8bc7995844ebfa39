import Fabula.Proofs.Condition.Integers

/-!
# Comparisons of the same operands

Two operands without the characters of the operators can be written around any operator, on either
side. What the six operators say of them, one way around and the other, agrees: equality is
symmetric, two operands that have an order are related in exactly one way, and of two that have
none no ordering operator holds.
-/

namespace Fabula.Json

mutual

theorem same_comm (a b : Json) : a.same b = b.same a := by
  cases a <;> cases b <;> simp only [same]
  case bool.bool a b => exact Bool.beq_comm
  case int.int a b => exact Bool.beq_comm
  case float.float a b => exact Bool.beq_comm
  case str.str a b => exact Bool.beq_comm
  case arr.arr as bs => exact sameItems_comm as bs
  case obj.obj as bs => exact sameFields_comm as bs

theorem sameItems_comm (as bs : List Json) : sameItems as bs = sameItems bs as := by
  cases as with
  | nil => cases bs <;> rfl
  | cons a as =>
    cases bs with
    | nil => rfl
    | cons b bs => rw [sameItems, sameItems, same_comm a b, sameItems_comm as bs]

theorem sameFields_comm (as bs : List (String × Json)) :
    sameFields as bs = sameFields bs as := by
  cases as with
  | nil => cases bs <;> rfl
  | cons a as =>
    cases bs with
    | nil => rfl
    | cons b bs =>
      obtain ⟨key, a⟩ := a
      obtain ⟨key', b⟩ := b
      have hkey : (key == key') = (key' == key) := Bool.beq_comm
      rw [sameFields, sameFields, hkey, same_comm a b, sameFields_comm as bs]

end

end Fabula.Json

namespace Fabula.Condition

open Text (FirstAt fitsSigned)

/-- None of the characters that operators are made of is among the characters. -/
def MarkFree (cs : List Char) : Prop := ∀ c ∈ cs, c ∉ ['=', '!', '<', '>']

instance (cs : List Char) : Decidable (MarkFree cs) := List.decidableBAll _ cs

/-- The condition with these operands and this operator. -/
def between (left : List Char) (op : Operator) (right : List Char) : String :=
  String.ofList (left ++ (op.symbol ++ right))

/-- The operator that says of the operands exchanged what this one says of them. -/
def Operator.flip : Operator → Operator
  | eq => eq
  | ne => ne
  | ge => le
  | le => ge
  | gt => lt
  | lt => gt

/-- What the operator says of operands in this order. -/
def Operator.admits : Operator → Ordering → Bool
  | eq, o => o == .eq
  | ne, o => o != .eq
  | ge, o => o != .lt
  | le, o => o != .gt
  | gt, o => o == .gt
  | lt, o => o == .lt

/-- Two values that have an order: whole numbers that are both signed or both unsigned, doubles,
or strings. -/
inductive Orderable : Json → Json → Prop
  | signed {x y : Int} : fitsSigned 64 x = true → fitsSigned 64 y = true →
      Orderable (.int x) (.int y)
  | unsigned {x y : Int} : 0 ≤ x → 0 ≤ y → Orderable (.int x) (.int y)
  | float (x y : Binary.Double) : Orderable (.float x) (.float y)
  | str (s t : String) : Orderable (.str s) (.str t)

section
variable {a b : Json} {o : Ordering} {op other : Operator} {left right ls xs : List Char}
  {store : Store}

theorem compareInts?_swap (x y : Int) :
    compareInts? y x = (compareInts? x y).map Ordering.swap := by
  have hsigned := Bool.and_comm (fitsSigned 64 y) (fitsSigned 64 x)
  have hunsigned := Bool.and_comm (decide (0 ≤ y)) (decide (0 ≤ x))
  have hswap : compare y x = (compare x y).swap := Std.OrientedCmp.eq_swap
  unfold compareInts?
  rw [hsigned, hunsigned, hswap]
  split_ifs <;> rfl

theorem order?_swap (a b : Json) : order? b a = (order? a b).map Ordering.swap := by
  cases a <;> cases b <;> try rfl
  case int.int x y => exact compareInts?_swap x y
  case float.float x y => exact congrArg some Std.OrientedCmp.eq_swap
  case str.str s t => exact congrArg some Std.OrientedCmp.eq_swap

theorem compareInts?_eq_some {x y : Int} (h : compareInts? x y = some o) : compare x y = o := by
  unfold compareInts? at h
  split_ifs at h <;> exact Option.some.inj h

theorem same_of_order? (h : order? a b = some o) : a.same b = (o == .eq) := by
  cases a <;> cases b <;> simp only [order?, reduceCtorEq] at h
  case int.int x y =>
    rw [← compareInts?_eq_some h, Bool.eq_iff_iff, beq_iff_eq, Std.LawfulEqCmp.compare_eq_iff_eq]
    exact beq_iff_eq
  case float.float x y =>
    rw [← Option.some.inj h, Bool.eq_iff_iff, beq_iff_eq, Std.LawfulEqCmp.compare_eq_iff_eq]
    exact beq_iff_eq
  case str.str s t =>
    rw [← Option.some.inj h, Bool.eq_iff_iff, beq_iff_eq, Std.LawfulEqCmp.compare_eq_iff_eq]
    exact beq_iff_eq

theorem isSome_order?_iff : (order? a b).isSome = true ↔ Orderable a b := by
  constructor
  · intro h
    cases a <;> cases b <;> simp only [order?, Option.isSome_none, Bool.false_eq_true] at h
    case int.int x y =>
      unfold compareInts? at h
      split_ifs at h with hsigned hunsigned
      · rw [Bool.and_eq_true] at hsigned
        exact .signed hsigned.1 hsigned.2
      · rw [Bool.and_eq_true, decide_eq_true_eq, decide_eq_true_eq] at hunsigned
        exact .unsigned hunsigned.1 hunsigned.2
      · simp at h
    case float.float x y => exact .float x y
    case str.str s t => exact .str s t
  · intro h
    cases h with
    | signed hx hy => simp [order?, compareInts?, hx, hy]
    | unsigned hx hy =>
      simp only [order?, compareInts?, hx, hy, decide_true, Bool.and_self, if_true]
      split_ifs <;> rfl
    | float x y => rfl
    | str s t => rfl

theorem orderable_comm : Orderable b a ↔ Orderable a b := by
  rw [← isSome_order?_iff, ← isSome_order?_iff, order?_swap, Option.isSome_map]

theorem holds_flip (op : Operator) (a b : Json) : op.flip.holds b a = op.holds a b := by
  have hswap := order?_swap a b
  have hsame := Json.same_comm a b
  cases op <;> simp only [Operator.flip, Operator.holds, hswap, hsame]
  all_goals
    rcases order? a b with _ | _ | _ | _ <;> rfl

theorem holds_ne (a b : Json) : Operator.ne.holds a b = !Operator.eq.holds a b := rfl

theorem holds_of_order? (h : order? a b = some o) (op : Operator) :
    op.holds a b = op.admits o := by
  have hsame := same_of_order? h
  cases op <;> simp [Operator.holds, Operator.admits, h, hsame, bne]

theorem holds_of_not_orderable (h : ¬ Orderable a b) (hop : op.Orders) :
    op.holds a b = false := by
  rw [← isSome_order?_iff, Option.not_isSome_iff_eq_none] at h
  cases op with
  | eq => exact absurd rfl hop.1
  | ne => exact absurd rfl hop.2
  | ge | le | gt | lt => simp [Operator.holds, h]

theorem existsUnique_admits (o : Ordering) : ∃! op, op ∈ strict ∧ op.admits o = true := by
  have hother : ∀ op ∈ strict, ∀ other ∈ strict, op.admits o = true → other.admits o = true →
      other = op := by
    cases o <;> decide
  have hone : ∃ op ∈ strict, op.admits o = true := by
    cases o <;> decide
  obtain ⟨op, hmem, hadmits⟩ := hone
  exact ⟨op, ⟨hmem, hadmits⟩, fun other h => hother op hmem other h.1 hadmits h.2⟩

theorem existsUnique_strict (h : Orderable a b) :
    ∃! op, op ∈ strict ∧ op.holds a b = true := by
  obtain ⟨o, ho⟩ := Option.isSome_iff_exists.mp (isSome_order?_iff.mpr h)
  simp only [holds_of_order? ho]
  exact existsUnique_admits o

theorem holds_le (h : Orderable a b) : Operator.le.holds a b = !Operator.gt.holds a b := by
  obtain ⟨o, ho⟩ := Option.isSome_iff_exists.mp (isSome_order?_iff.mpr h)
  rw [holds_of_order? ho, holds_of_order? ho]
  rfl

theorem holds_ge (h : Orderable a b) : Operator.ge.holds a b = !Operator.lt.holds a b := by
  obtain ⟨o, ho⟩ := Option.isSome_iff_exists.mp (isSome_order?_iff.mpr h)
  rw [holds_of_order? ho, holds_of_order? ho]
  rfl

theorem mem_marks_of_mem_symbol {c : Char} (h : c ∈ op.symbol) :
    c ∈ ['=', '!', '<', '>'] := by
  cases op <;> simp only [Operator.symbol, List.mem_cons, List.not_mem_nil, or_false] at h ⊢ <;>
    tauto

theorem markFree_cons {c : Char} :
    MarkFree (c :: xs) ↔ c ∉ ['=', '!', '<', '>'] ∧ MarkFree xs :=
  List.forall_mem_cons

theorem MarkFree.not_occurs (h : MarkFree right) (op : Operator) : ¬ op.symbol <:+: right := by
  intro hoccurs
  obtain ⟨c, hc⟩ := List.exists_mem_of_ne_nil _ (symbol_ne_nil op)
  exact h c (hoccurs.subset hc) (mem_marks_of_mem_symbol hc)

theorem MarkFree.infix_append_iff (h : MarkFree left) :
    op.symbol <:+: left ++ xs ↔ op.symbol <:+: xs := by
  induction left with
  | nil => rw [List.nil_append]
  | cons c left ih =>
    obtain ⟨hc, hleft⟩ := markFree_cons.mp h
    have hnil : ¬ op.symbol <:+: [] := by simp [symbol_ne_nil]
    rw [List.cons_append, ← List.nil_append (c :: _),
      Text.infix_append_cons_iff (mt mem_marks_of_mem_symbol hc), ih hleft]
    simp [hnil]

theorem MarkFree.append_infix_iff (h : MarkFree right) :
    op.symbol <:+: xs ++ right ↔ op.symbol <:+: xs := by
  cases right with
  | nil => rw [List.append_nil]
  | cons c right =>
    obtain ⟨hc, hright⟩ := markFree_cons.mp h
    rw [Text.infix_append_cons_iff (mt mem_marks_of_mem_symbol hc)]
    simp [hright.not_occurs op]

theorem MarkFree.firstAt (h : MarkFree left) (op : Operator) (right : List Char) :
    FirstAt op.symbol (left ++ (op.symbol ++ right)) left right := by
  induction left with
  | nil => exact .of_append op.symbol right
  | cons c left ih =>
    obtain ⟨hc, hleft⟩ := markFree_cons.mp h
    refine (ih hleft).cons fun hprefix => ?_
    obtain ⟨d, symbol, hsymbol⟩ := List.exists_cons_of_ne_nil (symbol_ne_nil op)
    rw [hsymbol] at hprefix
    obtain rfl : d = c := (List.cons_prefix_cons.mp hprefix).1
    have hmem : d ∈ op.symbol := hsymbol ▸ List.mem_cons_self
    exact hc (mem_marks_of_mem_symbol hmem)

/-- What is written between two operands is read as the operator between them. -/
theorem readAs_between (hleft : MarkFree left) (hright : MarkFree right) (op : Operator) :
    ReadAs (between left op right).toList op left right [] := by
  have hfirst := hleft.firstAt op right
  rw [between, String.toList_ofList]
  refine .whole ⟨hfirst.occurs, ?_⟩ hfirst (hright.not_occurs op)
  obtain ⟨before, after, hsplit, hnone⟩ := symbol_first op
  refine ⟨before, after, hsplit, fun other hother hoccurs => ?_⟩
  rw [hleft.infix_append_iff, hright.append_infix_iff] at hoccurs
  exact hnone other hother hoccurs

theorem evaluate?_between (hleft : MarkFree left) (hright : MarkFree right) (op : Operator) :
    evaluate? store (between left op right) =
      some (op.holds (operand store left) (operand store right)) :=
  evaluate?_of_readAs store (readAs_between hleft hright op)

end

/-- The six operators agree with one another about two operands and about the operands
exchanged. -/
theorem comparisons_agree (store : Store) {left right : List Char} (hleft : MarkFree left)
    (hright : MarkFree right) : ∃ E E' : Operator → Bool,
    (∀ op, evaluate? store (between left op right) = some (E op) ∧
      evaluate? store (between right op left) = some (E' op)) ∧
    E .eq = E' .eq ∧ E .ne = !E .eq ∧ E .lt = E' .gt ∧ E .le = E' .ge ∧
    (¬ Orderable (operand store left) (operand store right) ∧
        (∀ op, op.Orders → E op = false ∧ E' op = false) ∨
      Orderable (operand store left) (operand store right) ∧
        (∃! op, op ∈ strict ∧ E op = true) ∧ E .le = !E .gt ∧ E .ge = !E .lt) := by
  generalize ha : operand store left = a
  generalize hb : operand store right = b
  refine ⟨fun op => op.holds a b, fun op => op.holds b a, ?_, holds_flip .eq b a, holds_ne a b,
    holds_flip .gt b a, holds_flip .ge b a, ?_⟩
  · intro op
    rw [evaluate?_between hleft hright, evaluate?_between hright hleft, ha, hb]
    exact ⟨rfl, rfl⟩
  · by_cases horder : Orderable a b
    · exact .inr ⟨horder, existsUnique_strict horder, holds_le horder, holds_ge horder⟩
    · have hflipped : ¬ Orderable b a := mt orderable_comm.mp horder
      exact .inl ⟨horder, fun op hop =>
        ⟨holds_of_not_orderable horder hop, holds_of_not_orderable hflipped hop⟩⟩

/-- A variable that holds zero. -/
def zeroUnderName : Store := ⟨[("x", .float (.zero false))]⟩

/-- The two zeros are one number, so exactly one of the strict operators holds of them. -/
theorem comparisons_agree_of_zeros :
    MarkFree "-0.0".toList ∧ MarkFree "\x7bx\x7d".toList ∧
    ∃ E : Operator → Bool,
      (∀ op, evaluate? zeroUnderName (between "-0.0".toList op "\x7bx\x7d".toList) =
        some (E op)) ∧ ∃! op, op ∈ strict ∧ E op = true := by
  have hleft : MarkFree "-0.0".toList := by decide
  have hright : MarkFree "\x7bx\x7d".toList := by decide
  refine ⟨hleft, hright, ?_⟩
  obtain ⟨E, E', hevaluate, _, _, _, _, hrest⟩ := comparisons_agree zeroUnderName hleft hright
  refine ⟨E, fun op => (hevaluate op).1, ?_⟩
  rcases hrest with ⟨hnot, _⟩ | ⟨_, hunique, _⟩
  · exact absurd (.float (.zero true) (.zero false)) hnot
  · exact hunique

end Fabula.Condition
