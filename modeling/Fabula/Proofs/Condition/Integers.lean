import Fabula.Proofs.Condition.Operands
import Fabula.Proofs.Text.Trim

/-!
# Comparing whole numbers

Variables hold whole numbers of 64 bits, signed or unsigned. Their equality is exact. Their order
is exact as well, unless one of them is negative and the other is too large for a signed number:
two such numbers have no order, and all four ordering operators are false of them.
-/

namespace Fabula.Condition

open Text (FirstAt fitsSigned fitsUnsigned)

/-- The relation of numbers that an operator stands for. -/
def Operator.Relates : Operator → Int → Int → Prop
  | eq, x, y => x = y
  | ne, x, y => x ≠ y
  | ge, x, y => y ≤ x
  | le, x, y => x ≤ y
  | gt, x, y => y < x
  | lt, x, y => x < y

instance (op : Operator) (x y : Int) : Decidable (op.Relates x y) :=
  match op with
  | .eq => inferInstanceAs (Decidable (x = y))
  | .ne => inferInstanceAs (Decidable (x ≠ y))
  | .ge => inferInstanceAs (Decidable (y ≤ x))
  | .le => inferInstanceAs (Decidable (x ≤ y))
  | .gt => inferInstanceAs (Decidable (y < x))
  | .lt => inferInstanceAs (Decidable (x < y))

/-- The operator asks for the order of its operands. -/
def Operator.Orders (op : Operator) : Prop := op ≠ .eq ∧ op ≠ .ne

instance (op : Operator) : Decidable op.Orders := inferInstanceAs (Decidable (_ ∧ _))

/-- A whole number that a variable can hold. -/
def Held (x : Int) : Prop := -Int.ofNat (twoTo 63) ≤ x ∧ x < Int.ofNat (twoTo 64)

instance (x : Int) : Decidable (Held x) := inferInstanceAs (Decidable (_ ∧ _))

/-- One of the numbers is negative, the other beyond the signed numbers. -/
def Apart (x y : Int) : Prop :=
  x < 0 ∧ Int.ofNat (twoTo 63) ≤ y ∨ y < 0 ∧ Int.ofNat (twoTo 63) ≤ x

instance (x y : Int) : Decidable (Apart x y) := inferInstanceAs (Decidable (_ ∨ _))

/-- A name in braces. -/
def braced (name : List Char) : List Char := '\x7b' :: (name ++ ['\x7d'])

/-- The condition that compares two variables. -/
def comparison (a : List Char) (op : Operator) (b : List Char) : String :=
  String.ofList (braced a ++ ' ' :: (op.symbol ++ ' ' :: braced b))

section
variable {x y : Int} {op other : Operator} {a b name ls rs : List Char} {store : Store}
  {value : Json}

theorem compareInts?_eq (hx : Held x) (hy : Held y) :
    compareInts? x y = if Apart x y then none else some (compare x y) := by
  have h63 : twoTo 63 = 9223372036854775808 := rfl
  have h64 : twoTo 64 = 18446744073709551616 := rfl
  simp only [Held, Apart, compareInts?, fitsSigned, h63, h64, Int.ofNat_eq_natCast,
    Bool.and_eq_true, decide_eq_true_eq] at hx hy ⊢
  split_ifs <;> first | rfl | omega

theorem holds_int_iff (hx : Held x) (hy : Held y) (op : Operator) :
    op.holds (.int x) (.int y) = true ↔ op.Relates x y ∧ (op.Orders → ¬ Apart x y) := by
  have horder : order? (.int x) (.int y) = if Apart x y then none else some (compare x y) :=
    compareInts?_eq hx hy
  have hsame : (Json.int x).same (.int y) = decide (x = y) := beq_eq_decide x y
  by_cases hapart : Apart x y
  · rw [if_pos hapart] at horder
    cases op <;> simp [Operator.holds, Operator.Relates, Operator.Orders, horder, hsame, hapart]
  · rw [if_neg hapart] at horder
    cases op <;> simp [Operator.holds, Operator.Relates, horder, hsame, hapart,
      Int.compare_eq_lt, Int.compare_eq_gt]

theorem not_mem_symbol {mark : Char} (hmark : mark = ' ' ∨ mark = '\x7b' ∨ mark = '\x7d')
    (op : Operator) : mark ∉ op.symbol := by
  rcases hmark with rfl | rfl | rfl <;> cases op <;> decide

/-- An operator occurs in a name in braces only if it occurs in the name. -/
theorem symbol_occurs_braced_iff : op.symbol <:+: braced name ↔ op.symbol <:+: name := by
  have hopen := not_mem_symbol (.inr (.inl rfl)) op
  have hclose := not_mem_symbol (.inr (.inr rfl)) op
  have hnil : ¬ op.symbol <:+: [] := by simp [symbol_ne_nil]
  rw [braced, ← List.nil_append ('\x7b' :: _), Text.infix_append_cons_iff hopen,
    Text.infix_append_cons_iff hclose]
  simp [hnil]

/-- An operator is the first one in its own symbol. -/
theorem symbol_first (op : Operator) : ∃ before after, operators = before ++ op :: after ∧
    ∀ other ∈ before, ¬ other.symbol <:+: op.symbol := by
  cases op with
  | eq => exact ⟨[], [.ne, .ge, .le, .gt, .lt], rfl, by decide⟩
  | ne => exact ⟨[.eq], [.ge, .le, .gt, .lt], rfl, by decide⟩
  | ge => exact ⟨[.eq, .ne], [.le, .gt, .lt], rfl, by decide⟩
  | le => exact ⟨[.eq, .ne, .ge], [.gt, .lt], rfl, by decide⟩
  | gt => exact ⟨[.eq, .ne, .ge, .le], [.lt], rfl, by decide⟩
  | lt => exact ⟨[.eq, .ne, .ge, .le, .gt], [], rfl, by decide⟩

/-- A comparison of names in which no operator occurs is read as it was written. -/
theorem readAs_comparison (ha : ∀ other : Operator, ¬ other.symbol <:+: a)
    (hb : ∀ other : Operator, ¬ other.symbol <:+: b) (op : Operator) :
    ReadAs (comparison a op b).toList op (braced a ++ [' ']) (' ' :: braced b) [] := by
  have hright (other : Operator) : ¬ other.symbol <:+: ' ' :: braced b := by
    rw [← List.nil_append (' ' :: _), Text.infix_append_cons_iff (not_mem_symbol (.inl rfl) other),
      symbol_occurs_braced_iff]
    simp [symbol_ne_nil, hb other]
  have hleft (other : Operator) : ¬ other.symbol <:+: braced a := by
    rw [symbol_occurs_braced_iff]
    exact ha other
  have htext : (comparison a op b).toList = braced a ++ ' ' :: (op.symbol ++ ' ' :: braced b) :=
    String.toList_ofList
  have hfirst : FirstAt op.symbol (comparison a op b).toList (braced a ++ [' '])
      (' ' :: braced b) := by
    rw [htext]
    exact Text.firstAt_of_mark (not_mem_symbol (.inl rfl) op) (hleft op) _
  refine .whole ⟨hfirst.occurs, ?_⟩ hfirst (hright op)
  obtain ⟨before, after, hsplit, hnone⟩ := symbol_first op
  refine ⟨before, after, hsplit, fun other hother hoccurs => ?_⟩
  have hspace := not_mem_symbol (.inl rfl) other
  rw [htext, Text.infix_append_cons_iff hspace, Text.infix_append_cons_iff hspace,
    symbol_occurs_braced_iff, symbol_occurs_braced_iff] at hoccurs
  rcases hoccurs with hoccurs | hoccurs | hoccurs
  · exact ha other hoccurs
  · exact hnone other hother hoccurs
  · exact hb other hoccurs

theorem bracedName?_eq_some_iff {cs : List Char} : bracedName? cs = some name ↔ cs = braced name := by
  unfold bracedName? braced
  split
  · rw [Text.dropLast?_eq_some_iff, List.cons.injEq, eq_self, true_and]
  · rename_i hopen
    refine iff_of_false (by simp) fun hcs => hopen _ hcs

/-- A name in braces between blanks is a variable. -/
theorem operand_variable (hls : ∀ c ∈ ls, Text.isBlank c = true)
    (hrs : ∀ c ∈ rs, Text.isBlank c = true) : operand store (ls ++ braced name ++ rs) =
      (store.get? (String.ofList (Text.trim name))).getD .null := by
  have htrim : Text.trim (ls ++ braced name ++ rs) = braced name := by
    rw [Text.trim_append_blanks hrs, Text.trim_blanks_append hls, braced,
      Text.trim_cons_of_not_blank rfl, Text.trimRight_append_of_not_blank rfl]
    rfl
  have hname : bracedName? (braced name) = some name := bracedName?_eq_some_iff.mpr rfl
  have hne : braced name ≠ [] := List.cons_ne_nil _ _
  simp only [operand, htrim, if_neg hne, hname]

theorem operand_braced (hls : ∀ c ∈ ls, Text.isBlank c = true)
    (hrs : ∀ c ∈ rs, Text.isBlank c = true)
    (hvalue : store.get? (String.ofList (Text.trim name)) = some value) :
    operand store (ls ++ braced name ++ rs) = value := by
  rw [operand_variable hls hrs, hvalue, Option.getD_some]

/-- The operators of which exactly one holds of two numbers. -/
def strict : List Operator := [.lt, .eq, .gt]

theorem eq_of_strict (hop : op ∈ strict) (hother : other ∈ strict) (h : op.Relates x y)
    (h' : other.Relates x y) : op = other := by
  simp only [strict, List.mem_cons, List.not_mem_nil, or_false] at hop hother
  rcases hop with rfl | rfl | rfl <;> rcases hother with rfl | rfl | rfl <;>
    simp only [Operator.Relates] at h h' <;> first | rfl | omega

theorem exists_strict (x y : Int) : ∃ op ∈ strict, op.Relates x y := by
  rcases Int.lt_trichotomy x y with h | h | h
  · exact ⟨.lt, by simp [strict], h⟩
  · exact ⟨.eq, by simp [strict], h⟩
  · exact ⟨.gt, by simp [strict], h⟩

theorem not_apart_self (x : Int) : ¬ Apart x x := by
  have h63 : (0 : Int) ≤ Int.ofNat (twoTo 63) := Int.natCast_nonneg _
  rintro (⟨hneg, hlarge⟩ | ⟨hneg, hlarge⟩) <;> omega

/-- Exactly one of the strict operators holds of two numbers that are not apart, and none of two
that are. -/
theorem existsUnique_strict_iff :
    (∃! op, op ∈ strict ∧ op.Relates x y ∧ (op.Orders → ¬ Apart x y)) ↔ ¬ Apart x y := by
  constructor
  · rintro ⟨op, ⟨hmem, hrelates, horders⟩, -⟩ hapart
    by_cases hop : op.Orders
    · exact horders hop hapart
    · obtain rfl : op = .eq := by
        cases op <;> simp_all [strict, Operator.Orders]
      obtain rfl : x = y := hrelates
      exact not_apart_self x hapart
  · intro hapart
    obtain ⟨op, hmem, hrelates⟩ := exists_strict x y
    refine ⟨op, ⟨hmem, hrelates, fun _ => hapart⟩, ?_⟩
    rintro other ⟨hother, hrelates', -⟩
    exact eq_of_strict hother hmem hrelates' hrelates

theorem evaluate?_comparison (ha : ∀ op : Operator, ¬ op.symbol <:+: a)
    (hb : ∀ op : Operator, ¬ op.symbol <:+: b) (hx : Held x) (hy : Held y)
    (hax : store.get? (String.ofList (Text.trim a)) = some (.int x))
    (hby : store.get? (String.ofList (Text.trim b)) = some (.int y)) (op : Operator) :
    evaluate? store (comparison a op b) =
      some (decide (op.Relates x y ∧ (op.Orders → ¬ Apart x y))) := by
  have hblank : ∀ c ∈ [' '], Text.isBlank c = true := List.forall_mem_singleton.mpr rfl
  have hleft : operand store (braced a ++ [' ']) = .int x := by
    have h : operand store ([] ++ braced a ++ [' ']) = .int x :=
      operand_braced (by simp) hblank hax
    rwa [List.nil_append] at h
  have hright : operand store (' ' :: braced b) = .int y := by
    have h : operand store ([' '] ++ braced b ++ []) = .int y :=
      operand_braced hblank (by simp) hby
    rwa [List.append_nil] at h
  rw [evaluate?_of_readAs store (readAs_comparison ha hb op), hleft, hright, Option.some_inj,
    Bool.eq_iff_iff, holds_int_iff hx hy, decide_eq_true_iff]

end

/-- Two variables that hold whole numbers compare as the numbers do, but for the order of numbers
of which one is negative and the other beyond the signed ones. -/
theorem compares_whole_numbers (store : Store) {a b : List Char}
    (ha : ∀ op : Operator, ¬ op.symbol <:+: a) (hb : ∀ op : Operator, ¬ op.symbol <:+: b)
    {x y : Int} (hx : Held x) (hy : Held y)
    (hax : store.get? (String.ofList (Text.trim a)) = some (.int x))
    (hby : store.get? (String.ofList (Text.trim b)) = some (.int y)) :
    (∀ op, evaluate? store (comparison a op b) =
      some (decide (op.Relates x y ∧ (op.Orders → ¬ Apart x y)))) ∧
    ((∃! op, op ∈ strict ∧ evaluate? store (comparison a op b) = some true) ↔ ¬ Apart x y) := by
  have hevaluate := evaluate?_comparison ha hb hx hy hax hby
  refine ⟨hevaluate, ?_⟩
  simp only [hevaluate, Option.some_inj, decide_eq_true_iff]
  exact existsUnique_strict_iff

theorem not_occurs_letter {c : Char} (hc : c = 'a' ∨ c = 'b') (op : Operator) :
    ¬ op.symbol <:+: [c] := by
  rcases hc with rfl | rfl <;> cases op <;> decide

/-- The largest signed number under one name, the number after it under another. -/
def beyondSigned : Store :=
  ⟨[("a", .int 9223372036854775807), ("b", .int 9223372036854775808)]⟩

theorem compares_across_the_signed_numbers :
    Held 9223372036854775807 ∧ Held 9223372036854775808 ∧
    beyondSigned.get? "a" = some (.int 9223372036854775807) ∧
    beyondSigned.get? "b" = some (.int 9223372036854775808) ∧
    evaluate? beyondSigned (comparison ['a'] .lt ['b']) = some true ∧
    ∃! op, op ∈ strict ∧ evaluate? beyondSigned (comparison ['a'] op ['b']) = some true := by
  have hx : Held 9223372036854775807 := by decide
  have hy : Held 9223372036854775808 := by decide
  obtain ⟨hevaluate, hunique⟩ := compares_whole_numbers beyondSigned
    (not_occurs_letter (.inl rfl)) (not_occurs_letter (.inr rfl)) hx hy rfl rfl
  refine ⟨hx, hy, rfl, rfl, ?_, hunique.mpr (by decide)⟩
  rw [hevaluate .lt]
  decide

/-- A negative number and the largest unsigned one. -/
def farApart : Store := ⟨[("a", .int (-1)), ("b", .int 18446744073709551615)]⟩

/-- The negative number is the smaller one, but none of the strict operators holds. -/
theorem no_order_of_numbers_apart :
    Held (-1) ∧ Held 18446744073709551615 ∧ Operator.lt.Relates (-1) 18446744073709551615 ∧
    farApart.get? "a" = some (.int (-1)) ∧
    farApart.get? "b" = some (.int 18446744073709551615) ∧
    ∀ op ∈ strict, evaluate? farApart (comparison ['a'] op ['b']) = some false := by
  have hx : Held (-1) := by decide
  have hy : Held 18446744073709551615 := by decide
  refine ⟨hx, hy, by decide, rfl, rfl, fun op hop => ?_⟩
  rw [evaluate?_comparison (not_occurs_letter (.inl rfl)) (not_occurs_letter (.inr rfl)) hx hy
    rfl rfl]
  revert op
  decide

end Fabula.Condition
