import Fabula.Text.Numeral

/-!
# Numerals

What the readers of whole numbers accept, said without them: digits, one at least, after a sign
that may be missing. A reader of signed texts reads the sign and hands on the rest.
-/

namespace Fabula.Text

/-- Decimal digits, one at least. -/
structure Numeral (cs : List Char) : Prop where
  nonempty : cs ≠ []
  digits : ∀ c ∈ cs, c.isDigit = true

/-- The number that digits stand for. -/
def valueOf (digits : List Char) : Nat :=
  digits.foldl (fun value c => 10 * value + (c.toNat - '0'.toNat)) 0

/-- A sign, and whether it is a minus. -/
inductive Sign : List Char → Bool → Prop
  | absent : Sign [] false
  | plus : Sign ['+'] false
  | minus : Sign ['-'] true

def signed (negative : Bool) (n : Nat) : Int := if negative then -Int.ofNat n else Int.ofNat n

/-- A whole number as it is written, of any size. -/
inductive Whole : List Char → Int → Prop
  | mk {sign digits : List Char} {negative : Bool} : Sign sign negative → Numeral digits →
      Whole (sign ++ digits) (signed negative (valueOf digits))

/-- Reads a sign, and the rest with `read`. -/
def readSigned {α : Type} (read : Bool → List Char → Option α) : List Char → Option α
  | '+' :: rest => read false rest
  | '-' :: rest => read true rest
  | cs => read false cs

section
variable {cs : List Char} {n : Nat} {i : Int}

theorem readDigits_eq_some_iff {value : Nat} : readDigits value cs = some n ↔
    (∀ c ∈ cs, c.isDigit = true) ∧
      cs.foldl (fun value c => 10 * value + (c.toNat - '0'.toNat)) value = n := by
  induction cs generalizing value with
  | nil => simp [readDigits]
  | cons c cs ih =>
    rw [readDigits, digit?, List.forall_mem_cons, List.foldl_cons]
    cases hc : c.isDigit with
    | true => simp [ih]
    | false => simp

theorem readNatural?_eq_some_iff : readNatural? cs = some n ↔ Numeral cs ∧ valueOf cs = n := by
  have hnumeral : Numeral cs ↔ cs ≠ [] ∧ ∀ c ∈ cs, c.isDigit = true :=
    ⟨fun h => ⟨h.nonempty, h.digits⟩, fun h => ⟨h.1, h.2⟩⟩
  rw [hnumeral]
  cases cs with
  | nil => simp [readNatural?]
  | cons c cs =>
    rw [readNatural?, readDigits_eq_some_iff]
    · simp [valueOf]
    · simp

/-- A reader that takes no sign itself reads what follows the sign. -/
theorem readSigned_eq_some_iff {α : Type} {read : Bool → List Char → Option α} {a : α}
    (hread : ∀ negative mark rest, mark = '+' ∨ mark = '-' → read negative (mark :: rest) = none) :
    readSigned read cs = some a ↔ ∃ sign negative rest, Sign sign negative ∧
      cs = sign ++ rest ∧ read negative rest = some a := by
  constructor
  · intro h
    unfold readSigned at h
    split at h
    · exact ⟨_, _, _, .plus, rfl, h⟩
    · exact ⟨_, _, _, .minus, rfl, h⟩
    · exact ⟨_, _, _, .absent, rfl, h⟩
  · rintro ⟨sign, negative, rest, hsign, rfl, h⟩
    cases hsign with
    | plus => exact h
    | minus => exact h
    | absent =>
      rw [List.nil_append, readSigned]
      · exact h
      · rintro rest rfl
        rw [hread _ _ _ (.inl rfl)] at h
        cases h
      · rintro rest rfl
        rw [hread _ _ _ (.inr rfl)] at h
        cases h

theorem readNatural?_sign {mark : Char} (h : mark = '+' ∨ mark = '-') (rest : List Char) :
    readNatural? (mark :: rest) = none := by
  rcases h with rfl | rfl <;> rfl

/-- Reads a whole number of any size. -/
def readWhole : List Char → Option Int :=
  readSigned fun negative digits => (readNatural? digits).map (signed negative)

theorem readWhole_eq_some_iff : readWhole cs = some i ↔ Whole cs i := by
  rw [readWhole, readSigned_eq_some_iff fun negative mark rest hmark => by
    rw [readNatural?_sign hmark, Option.map_none]]
  constructor
  · rintro ⟨sign, negative, digits, hsign, rfl, hread⟩
    obtain ⟨n, hn, rfl⟩ := Option.map_eq_some_iff.mp hread
    obtain ⟨hdigits, rfl⟩ := readNatural?_eq_some_iff.mp hn
    exact .mk hsign hdigits
  · rintro ⟨hsign, hdigits⟩
    exact ⟨_, _, _, hsign, rfl,
      Option.map_eq_some_iff.mpr ⟨_, readNatural?_eq_some_iff.mpr ⟨hdigits, rfl⟩, rfl⟩⟩

theorem readInteger?_eq (cs : List Char) :
    readInteger? cs = (readWhole cs).filter (fitsSigned 64) := by
  unfold readInteger? readWhole
  split
  · rfl
  · rfl
  · rename_i hplus hminus
    rw [readSigned.eq_3 _ _ hplus hminus]
    rfl

theorem readInteger?_eq_some_iff :
    readInteger? cs = some i ↔ Whole cs i ∧ fitsSigned 64 i = true := by
  rw [readInteger?_eq, Option.filter_eq_some_iff, readWhole_eq_some_iff]

end

end Fabula.Text
