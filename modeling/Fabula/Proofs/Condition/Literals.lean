import Fabula.Proofs.Binary.Decimals
import Fabula.Proofs.Binary.Overflow
import Fabula.Proofs.Condition.Comparisons

/-!
# The value of a literal

An operand that is no variable is a literal. A whole number of 64 signed bits is itself, any other
number is the double nearest to it, and what is no number is a string. A number that no finite
double is nearest to has no value: its operand is null, like that of an unset variable. These are
infinity, what is called not a number, and the decimals from `Double.limit` on.
-/

namespace Fabula.Condition

open Binary (Double Literal)
open Text (Whole fitsSigned)

/-- The text is a name in braces. -/
def Braced (cs : List Char) : Prop := ∃ name, cs = braced name

/-- A number is written that no finite double is nearest to. -/
inductive Boundless (cs : List Char) : Prop
  | infinite : Literal.Writes cs .infinite → Boundless cs
  | notANumber : Literal.Writes cs .notANumber → Boundless cs
  | large {negative : Bool} {digits : Nat} {exponent : Int} :
      Literal.Writes cs (.finite negative digits exponent) →
      Double.limit ≤ (digits : ℚ) * 10 ^ exponent → Boundless cs

/-- What a text stands for that is neither blank nor a variable. -/
inductive Denotes (cs : List Char) : Json → Prop
  | int {i : Int} : Whole cs i → fitsSigned 64 i = true → Denotes cs (.int i)
  | decimal {negative : Bool} {digits : Nat} {exponent : Int} {d : Double} :
      Literal.Writes cs (.finite negative digits exponent) →
      (∀ i, Whole cs i → fitsSigned 64 i = false) →
      Double.ofDecimal? negative digits exponent = some d → Denotes cs (.float d)
  | boundless : Boundless cs → Denotes cs .null
  | text : (∀ l, ¬ Literal.Writes cs l) → Denotes cs (.str (String.ofList cs))

/-- The condition that a variable has the value of an operand. -/
def equality (name w : List Char) : String := between (braced name ++ [' ']) .eq (' ' :: w)

section
variable {cs name w : List Char} {i : Int} {v : Json} {store : Store}

instance (cs : List Char) : Decidable (Braced cs) :=
  decidable_of_iff ((bracedName? cs).isSome = true) <| by
    simp only [Option.isSome_iff_exists, bracedName?_eq_some_iff, Braced]

theorem readInteger?_eq_none_iff :
    Text.readInteger? cs = none ↔ ∀ i, Whole cs i → fitsSigned 64 i = false := by
  rw [Option.eq_none_iff_forall_ne_some]
  simp only [ne_eq, Text.readInteger?_eq_some_iff, not_and, Bool.not_eq_true]

theorem read?_eq_none_iff : Literal.read? cs = none ↔ ∀ l, ¬ Literal.Writes cs l := by
  rw [Option.eq_none_iff_forall_ne_some]
  simp only [ne_eq, Literal.read?_eq_some_iff]

theorem natAbs_lt_limit (h : fitsSigned 64 i = true) : (i.natAbs : ℚ) < Double.limit := by
  have h63 : twoTo 63 = 9223372036854775808 := rfl
  simp only [fitsSigned, h63, Int.ofNat_eq_natCast, Bool.and_eq_true, decide_eq_true_eq] at h
  have hsmall : i.natAbs ≤ 2 ^ 63 := by omega
  calc (i.natAbs : ℚ) ≤ 2 ^ (63 : Int) := by exact_mod_cast hsmall
    _ ≤ 2 ^ (1023 : Int) := zpow_le_zpow_right₀ (by norm_num) (by norm_num)
    _ < Double.limit := Double.lt_limit

theorem Boundless.not_fits (h : Boundless cs) (hwhole : Whole cs i) : fitsSigned 64 i = false := by
  rw [← Bool.not_eq_true]
  intro hfits
  obtain ⟨sign, hwrites⟩ := Literal.writes_of_whole hwhole
  cases h with
  | infinite h => cases h.unique hwrites
  | notANumber h => cases h.unique hwrites
  | large h hlimit =>
    cases h.unique hwrites
    rw [zpow_zero, mul_one] at hlimit
    exact absurd (natAbs_lt_limit hfits) (not_lt.mpr hlimit)

theorem denotes_literal (cs : List Char) : Denotes cs (literal cs) := by
  unfold literal
  split
  · rename_i i hread
    obtain ⟨hwhole, hfits⟩ := Text.readInteger?_eq_some_iff.mp hread
    exact .int hwhole hfits
  · rename_i hinteger
    rw [readInteger?_eq_none_iff] at hinteger
    split
    · rename_i l hread
      rw [Literal.read?_eq_some_iff] at hread
      cases l with
      | infinite => exact .boundless (.infinite hread)
      | notANumber => exact .boundless (.notANumber hread)
      | finite negative digits exponent =>
        cases hdouble : Double.ofDecimal? negative digits exponent with
        | none =>
          rw [Literal.toDouble?, hdouble]
          exact .boundless (.large hread (Double.ofDecimal?_eq_none_iff.mp hdouble))
        | some d =>
          rw [Literal.toDouble?, hdouble]
          exact .decimal hread hinteger hdouble
    · rename_i hread
      exact .text (read?_eq_none_iff.mp hread)

theorem Boundless.literal_eq_null (h : Boundless cs) : literal cs = .null := by
  have hinteger := readInteger?_eq_none_iff.mpr fun _ => h.not_fits
  unfold literal
  cases h with
  | infinite h | notANumber h => rw [hinteger, Literal.read?_eq_some_iff.mpr h]; rfl
  | large h hlimit =>
    simp only [hinteger, Literal.read?_eq_some_iff.mpr h, Literal.toDouble?,
      Double.ofDecimal?_eq_none_iff.mpr hlimit, Option.map_none, Option.getD_none]

theorem Denotes.literal_eq (h : Denotes cs v) : literal cs = v := by
  cases h with
  | int hwhole hfits => rw [literal, Text.readInteger?_eq_some_iff.mpr ⟨hwhole, hfits⟩]
  | decimal hwrites hinteger hdouble =>
    simp only [literal, readInteger?_eq_none_iff.mpr hinteger,
      Literal.read?_eq_some_iff.mpr hwrites, Literal.toDouble?, hdouble, Option.map_some,
      Option.getD_some]
  | boundless hboundless => exact hboundless.literal_eq_null
  | text hnone =>
    have hinteger : ∀ i, Whole cs i → fitsSigned 64 i = false := by
      intro i hwhole
      obtain ⟨negative, hwrites⟩ := Literal.writes_of_whole hwhole
      exact absurd hwrites (hnone _)
    rw [literal, readInteger?_eq_none_iff.mpr hinteger, read?_eq_none_iff.mpr hnone]

theorem literal_eq_iff : literal cs = v ↔ Denotes cs v :=
  ⟨fun h => h ▸ denotes_literal cs, Denotes.literal_eq⟩

theorem literal_eq_null_iff : literal cs = .null ↔ Boundless cs := by
  rw [literal_eq_iff]
  constructor
  · rintro ⟨⟩
    assumption
  · exact .boundless

theorem literal_eq_str_iff :
    literal cs = .str (String.ofList cs) ↔ ∀ l, ¬ Literal.Writes cs l := by
  rw [literal_eq_iff]
  constructor
  · generalize hs : String.ofList cs = s
    rintro ⟨⟩
    assumption
  · exact .text

theorem operand_eq_literal (hne : Text.trim w ≠ []) (hfree : ¬ Braced (Text.trim w)) :
    operand store w = literal (Text.trim w) := by
  have hname : bracedName? (Text.trim w) = none := by
    rw [Option.eq_none_iff_forall_ne_some]
    exact fun name h => hfree ⟨name, bracedName?_eq_some_iff.mp h⟩
  simp only [operand, if_neg hne, hname]

theorem markFree_braced (h : MarkFree name) : MarkFree (braced name ++ [' ']) := by
  intro c hc
  simp only [braced, List.mem_append, List.mem_cons, List.not_mem_nil, or_false] at hc
  rcases hc with (rfl | hc | rfl) | rfl
  · decide
  · exact h c hc
  · decide
  · decide

theorem evaluate?_equality (hname : MarkFree name) (hw : MarkFree w) :
    evaluate? store (equality name w) =
      some (((store.get? (String.ofList (Text.trim name))).getD .null).same
        (operand store w)) := by
  have hblank : ∀ c ∈ [' '], Text.isBlank c = true := List.forall_mem_singleton.mpr rfl
  have hright : MarkFree (' ' :: w) := markFree_cons.mpr ⟨by decide, hw⟩
  have htrim : operand store (' ' :: w) = operand store w := by
    rw [operand, Text.trim_cons_blank rfl]
    rfl
  have hvariable : operand store ([] ++ braced name ++ [' ']) = _ :=
    operand_variable (by simp) hblank
  rw [List.nil_append] at hvariable
  rw [equality, evaluate?_between (markFree_braced hname) hright, hvariable, htrim]
  rfl

theorem null_same_iff : Json.null.same v = true ↔ v = .null := by
  cases v <;> simp [Json.same]

theorem str_same_iff {s : String} : (Json.str s).same v = true ↔ v = .str s := by
  cases v with
  | str t => rw [Json.same, beq_iff_eq, Json.str.injEq, eq_comm]
  | _ => simp [Json.same]

end

/-- A literal is null if and only if it is a number that no finite double is nearest to. An unset
variable is equal to these literals alone, and a string to the literal of the same text if and
only if that is no number. -/
theorem literals_have_values (store : Store) {w : List Char} (hne : Text.trim w ≠ [])
    (hfree : ¬ Braced (Text.trim w)) :
    (∀ v, operand store w = v ↔ Denotes (Text.trim w) v) ∧
    (operand store w = .null ↔ Boundless (Text.trim w)) ∧
    ∀ name, MarkFree name → MarkFree w →
      (store.get? (String.ofList (Text.trim name)) = none →
        ∃ b, evaluate? store (equality name w) = some b ∧
          (b = true ↔ Boundless (Text.trim w))) ∧
      (store.get? (String.ofList (Text.trim name)) = some (.str (String.ofList (Text.trim w))) →
        ∃ b, evaluate? store (equality name w) = some b ∧
          (b = true ↔ ∀ l, ¬ Literal.Writes (Text.trim w) l)) := by
  have hliteral : operand store w = literal (Text.trim w) := operand_eq_literal hne hfree
  refine ⟨?_, ?_, ?_⟩
  · intro v
    rw [hliteral, literal_eq_iff]
  · rw [hliteral, literal_eq_null_iff]
  · intro name hname hw
    have hevaluate : evaluate? store (equality name w) = _ := evaluate?_equality hname hw
    refine ⟨fun hunset => ⟨_, hevaluate, ?_⟩, fun hset => ⟨_, hevaluate, ?_⟩⟩
    · rw [hunset, Option.getD_none, null_same_iff, hliteral, literal_eq_null_iff]
    · rw [hset, Option.getD_some, str_same_iff, hliteral, literal_eq_str_iff]

/-- A decimal with an exponent has a value, so an unset variable is not equal to it. -/
theorem unset_is_no_decimal :
    Text.trim " 1e3 ".toList ≠ [] ∧ ¬ Braced (Text.trim " 1e3 ".toList) ∧
    MarkFree "missing".toList ∧ MarkFree " 1e3 ".toList ∧
    evaluate? .empty (equality "missing".toList " 1e3 ".toList) = some false := by
  have hne : Text.trim " 1e3 ".toList ≠ [] := by decide
  have hfree : ¬ Braced (Text.trim " 1e3 ".toList) := by decide
  have hname : MarkFree "missing".toList := by decide
  have hw : MarkFree " 1e3 ".toList := by decide
  obtain ⟨_, _, hrest⟩ := literals_have_values .empty hne hfree
  obtain ⟨b, hevaluate, hb⟩ := (hrest _ hname hw).1 rfl
  have hwrites : Literal.Writes (Text.trim " 1e3 ".toList) (.finite false 1 3) :=
    Literal.read?_eq_some_iff.mp rfl
  refine ⟨hne, hfree, hname, hw, ?_⟩
  rw [hevaluate, Option.some_inj, ← Bool.not_eq_true, hb]
  intro hboundless
  cases hboundless with
  | infinite h | notANumber h => cases h.unique hwrites
  | large h hlimit =>
    cases h.unique hwrites
    have hsmall : ((1 : Nat) : ℚ) * 10 ^ (3 : Int) < 2 ^ (10 : Int) := by norm_num
    have hpower : (2 : ℚ) ^ (10 : Int) ≤ 2 ^ (1023 : Int) :=
      zpow_le_zpow_right₀ (by norm_num) (by norm_num)
    exact absurd hlimit (not_le.mpr ((hsmall.trans_le hpower).trans Double.lt_limit))

/-- A literal that is not blank has no value, and an unset variable is equal to it. -/
theorem unset_is_infinite :
    Text.trim "inf".toList ≠ [] ∧ ¬ Braced (Text.trim "inf".toList) ∧
    MarkFree "inf".toList ∧ operand .empty "inf".toList = .null ∧
    equality "missing".toList "inf".toList = "\x7bmissing\x7d == inf" ∧
    evaluate? .empty (equality "missing".toList "inf".toList) = some true := by
  have hname : MarkFree "missing".toList := by decide
  have hw : MarkFree "inf".toList := by decide
  have hnull : operand .empty "inf".toList = .null := rfl
  refine ⟨by decide, by decide, hw, hnull, rfl, ?_⟩
  rw [evaluate?_equality hname hw, hnull, Option.some_inj]
  exact null_same_iff.mpr rfl

end Fabula.Condition
