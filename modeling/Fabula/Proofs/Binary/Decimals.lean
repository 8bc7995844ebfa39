import Mathlib.Data.List.TakeWhile
import Fabula.Binary.Literal
import Fabula.Proofs.Text.Numerals

/-!
# Written decimals

The texts that are read as literals, as a grammar: after a sign that may be missing stands a word
for infinity or for not-a-number, in any case, or digits with at most one point among or around
them and perhaps an exponent. The reader accepts these texts and no others.
-/

namespace Fabula.Binary.Literal

open Text (Numeral Sign Whole valueOf)

/-- The exponent at the end of a decimal; a decimal without one has the exponent zero. -/
inductive Exponent : List Char → Int → Prop
  | absent : Exponent [] 0
  | written {mark : Char} {cs : List Char} {e : Int} : mark = 'e' ∨ mark = 'E' → Whole cs e →
      Exponent (mark :: cs) e

/-- A decimal without its sign stands for `digits * 10 ^ exponent`. -/
inductive Magnitude : List Char → Nat → Int → Prop
  | whole {digits rest : List Char} {e : Int} : Numeral digits → Exponent rest e →
      Magnitude (digits ++ rest) (valueOf digits) e
  | pointed {whole fraction rest : List Char} {e : Int} : Numeral (whole ++ fraction) →
      Exponent rest e →
      Magnitude (whole ++ '.' :: (fraction ++ rest)) (valueOf (whole ++ fraction))
        (e - Int.ofNat fraction.length)

/-- A literal after its sign. -/
inductive Unsigned (negative : Bool) : List Char → Literal → Prop
  | infinite {word : List Char} : word.map Char.toLower = "inf".toList ∨
      word.map Char.toLower = "infinity".toList → Unsigned negative word .infinite
  | notANumber {word : List Char} : word.map Char.toLower = "nan".toList →
      Unsigned negative word .notANumber
  | finite {cs : List Char} {digits : Nat} {exponent : Int} : Magnitude cs digits exponent →
      Unsigned negative cs (.finite negative digits exponent)

/-- A literal as it is written. -/
inductive Writes : List Char → Literal → Prop
  | mk {sign rest : List Char} {negative : Bool} {l : Literal} : Sign sign negative →
      Unsigned negative rest l → Writes (sign ++ rest) l

/-- No digit stands at the front. -/
def EndsDigits (cs : List Char) : Prop := ∀ c rest, cs = c :: rest → c.isDigit = false

section
variable {cs digits rest : List Char} {c : Char} {n : Nat} {e : Int} {l : Literal}
  {negative : Bool}

theorem span_digits (hdigits : ∀ c ∈ digits, c.isDigit = true) (hrest : EndsDigits rest) :
    (digits ++ rest).takeWhile Char.isDigit = digits ∧
      (digits ++ rest).dropWhile Char.isDigit = rest := by
  rw [List.takeWhile_append_of_pos hdigits, List.dropWhile_append_of_pos hdigits]
  cases rest with
  | nil => simp
  | cons c rest => simp [hrest c rest rfl]

theorem Exponent.endsDigits (h : Exponent cs e) : EndsDigits cs := by
  rintro c rest rfl
  cases h with
  | written hmark _ => rcases hmark with rfl | rfl <;> rfl

theorem readExponent?_cons (c : Char) (cs : List Char) : readExponent? (c :: cs) =
    if c = 'e' || c = 'E' then Text.readWhole cs else none := by
  unfold readExponent? Text.readWhole
  dsimp only
  split_ifs
  · split
    · rfl
    · rfl
    · rename_i hplus hminus
      rw [Text.readSigned.eq_3 _ _ hplus hminus]
      rfl
  · rfl

theorem readExponent?_eq_some_iff : readExponent? cs = some e ↔ Exponent cs e := by
  cases cs with
  | nil =>
    rw [readExponent?, Option.some.injEq]
    constructor
    · rintro rfl
      exact .absent
    · rintro ⟨⟩
      rfl
  | cons c cs =>
    rw [readExponent?_cons]
    constructor
    · intro h
      split_ifs at h with hmark
      rw [Bool.or_eq_true, decide_eq_true_eq, decide_eq_true_eq] at hmark
      exact .written hmark (Text.readWhole_eq_some_iff.mp h)
    · intro h
      cases h with
      | written hmark hwhole =>
        rw [if_pos (by simpa using hmark)]
        exact Text.readWhole_eq_some_iff.mpr hwhole

theorem magnitude_of_read (h : readMagnitude? cs = some (n, e)) : Magnitude cs n e := by
  have hcs : cs.takeWhile Char.isDigit ++ cs.dropWhile Char.isDigit = cs :=
    List.takeWhile_append_dropWhile
  unfold readMagnitude? at h
  dsimp only at h
  split at h
  · rename_i rest hrest
    obtain ⟨digits, hdigits, h⟩ := Option.bind_eq_some_iff.mp h
    obtain ⟨exponent, hexponent, hpair⟩ := Option.map_eq_some_iff.mp h
    obtain ⟨rfl, rfl⟩ := Prod.mk.inj hpair
    obtain ⟨hnumeral, rfl⟩ := Text.readNatural?_eq_some_iff.mp hdigits
    have hpointed := Magnitude.pointed hnumeral (readExponent?_eq_some_iff.mp hexponent)
    rwa [List.takeWhile_append_dropWhile, ← hrest, hcs] at hpointed
  · obtain ⟨digits, hdigits, h⟩ := Option.bind_eq_some_iff.mp h
    obtain ⟨exponent, hexponent, hpair⟩ := Option.map_eq_some_iff.mp h
    obtain ⟨rfl, rfl⟩ := Prod.mk.inj hpair
    obtain ⟨hnumeral, rfl⟩ := Text.readNatural?_eq_some_iff.mp hdigits
    have hwhole := Magnitude.whole hnumeral (readExponent?_eq_some_iff.mp hexponent)
    rwa [hcs] at hwhole

theorem read_of_magnitude (h : Magnitude cs n e) : readMagnitude? cs = some (n, e) := by
  cases h with
  | @whole digits rest _ hnumeral hexponent =>
    obtain ⟨htake, hdrop⟩ := span_digits hnumeral.digits hexponent.endsDigits
    have hpoint : ∀ more, rest = '.' :: more → False := by
      rintro more rfl
      cases hexponent with
      | written hmark _ => rcases hmark with hmark | hmark <;> cases hmark
    have hread := Text.readNatural?_eq_some_iff.mpr ⟨hnumeral, rfl⟩
    unfold readMagnitude?
    dsimp only
    split
    · rename_i more hmore
      exact (hpoint more (hdrop.symm.trans hmore)).elim
    · rw [htake, hdrop, hread, readExponent?_eq_some_iff.mpr hexponent]
      rfl
  | @pointed whole fraction rest exponent hnumeral hexponent =>
    have hdigits := List.forall_mem_append.mp hnumeral.digits
    have hpoint : EndsDigits ('.' :: (fraction ++ rest)) := by
      rintro c more hmore
      obtain ⟨rfl, _⟩ := List.cons.inj hmore
      rfl
    obtain ⟨htake, hdrop⟩ := span_digits hdigits.1 hpoint
    obtain ⟨htake', hdrop'⟩ := span_digits hdigits.2 hexponent.endsDigits
    have hread := Text.readNatural?_eq_some_iff.mpr ⟨hnumeral, rfl⟩
    unfold readMagnitude?
    simp only [htake, hdrop, htake', hdrop', hread, readExponent?_eq_some_iff.mpr hexponent]
    rfl

theorem readMagnitude?_eq_some_iff : readMagnitude? cs = some (n, e) ↔ Magnitude cs n e :=
  ⟨magnitude_of_read, read_of_magnitude⟩

theorem Magnitude.front (h : Magnitude cs n e) :
    ∃ c rest, cs = c :: rest ∧ (c.isDigit = true ∨ c = '.') := by
  cases h with
  | @whole digits rest _ hnumeral _ =>
    cases digits with
    | nil => exact absurd rfl hnumeral.nonempty
    | cons c digits => exact ⟨c, _, rfl, .inl (hnumeral.digits c List.mem_cons_self)⟩
  | @pointed whole fraction rest _ hnumeral _ =>
    cases whole with
    | nil => exact ⟨'.', _, rfl, .inr rfl⟩
    | cons c whole => exact ⟨c, _, rfl, .inl (hnumeral.digits c List.mem_cons_self)⟩

/-- Neither digits nor the point have case. -/
theorem toLower_of_front (h : c.isDigit = true ∨ c = '.') : c.toLower = c := by
  rcases h with h | rfl
  · have hupper : ¬ (c.val ≥ 'A'.val ∧ c.val ≤ 'Z'.val) := by
      simp only [Char.isDigit, Bool.and_eq_true, decide_eq_true_eq, ge_iff_le,
        UInt32.le_iff_toNat_le] at h ⊢
      have hnine : '9'.val.toNat = 57 := rfl
      have hletter : 'A'.val.toNat = 65 := rfl
      omega
    exact dif_neg hupper
  · rfl

theorem Magnitude.ne_word (h : Magnitude cs n e) {mark : Char} {word : List Char}
    (hmark : mark = 'i' ∨ mark = 'n') : cs.map Char.toLower ≠ mark :: word := by
  obtain ⟨c, rest, rfl, hc⟩ := h.front
  intro hword
  have hlower : c.toLower = mark := (List.cons.inj hword).1
  rw [toLower_of_front hc] at hlower
  subst hlower
  rcases hmark with rfl | rfl <;> rcases hc with hc | hc <;> cases hc

theorem readUnsigned?_eq_some_iff :
    readUnsigned? negative cs = some l ↔ Unsigned negative cs l := by
  constructor
  · intro h
    unfold readUnsigned? at h
    dsimp only at h
    split_ifs at h with hinfinite hnan
    · obtain rfl := Option.some.inj h
      rw [Bool.or_eq_true, decide_eq_true_eq, decide_eq_true_eq] at hinfinite
      exact .infinite hinfinite
    · obtain rfl := Option.some.inj h
      exact .notANumber hnan
    · obtain ⟨⟨digits, exponent⟩, hread, rfl⟩ := Option.map_eq_some_iff.mp h
      exact .finite (readMagnitude?_eq_some_iff.mp hread)
  · intro h
    cases h with
    | infinite hword =>
      unfold readUnsigned?
      dsimp only
      rw [if_pos]
      simpa using hword
    | notANumber hword =>
      unfold readUnsigned?
      simp [hword]
    | finite hmagnitude =>
      have hword {mark : Char} {word : List Char} (hmark : mark = 'i' ∨ mark = 'n') :
          (cs.map Char.toLower = mark :: word) = False :=
        eq_false (hmagnitude.ne_word hmark)
      unfold readUnsigned?
      simp only [hword (.inl rfl), hword (.inr rfl), decide_false, Bool.or_self,
        Bool.false_eq_true, if_false, readMagnitude?_eq_some_iff.mpr hmagnitude]
      rfl

theorem readUnsigned?_sign {mark : Char} (h : mark = '+' ∨ mark = '-') (rest : List Char) :
    readUnsigned? negative (mark :: rest) = none := by
  rw [Option.eq_none_iff_forall_ne_some]
  intro l hl
  cases readUnsigned?_eq_some_iff.mp hl with
  | infinite hword =>
    rcases h with rfl | rfl <;> rcases hword with hword | hword <;> cases hword
  | notANumber hword => rcases h with rfl | rfl <;> cases hword
  | finite hmagnitude =>
    obtain ⟨c, more, hcons, hc⟩ := hmagnitude.front
    obtain ⟨rfl, _⟩ := List.cons.inj hcons
    rcases h with rfl | rfl <;> rcases hc with hc | hc <;> cases hc

/-- The texts that are read are those that are written. -/
theorem read?_eq_some_iff : read? cs = some l ↔ Writes cs l := by
  have hread : read? cs = Text.readSigned readUnsigned? cs := by
    unfold read? Text.readSigned
    rfl
  rw [hread, Text.readSigned_eq_some_iff fun _ _ rest hmark => readUnsigned?_sign hmark rest]
  constructor
  · rintro ⟨sign, negative, rest, hsign, rfl, h⟩
    exact .mk hsign (readUnsigned?_eq_some_iff.mp h)
  · rintro ⟨hsign, h⟩
    exact ⟨_, _, _, hsign, rfl, readUnsigned?_eq_some_iff.mpr h⟩

theorem Writes.unique {k : Literal} (h : Writes cs l) (h' : Writes cs k) : l = k := by
  rw [← read?_eq_some_iff] at h h'
  exact Option.some.inj (h.symm.trans h')

/-- A whole number is a decimal without a point and without an exponent. -/
theorem writes_of_whole {i : Int} (h : Whole cs i) :
    ∃ negative, Writes cs (.finite negative i.natAbs 0) := by
  cases h with
  | @mk sign digits negative hsign hnumeral =>
    have habs : (Text.signed negative (valueOf digits)).natAbs = valueOf digits := by
      cases negative <;> simp [Text.signed]
    have hmagnitude : Magnitude (digits ++ []) (valueOf digits) 0 := .whole hnumeral .absent
    rw [List.append_nil] at hmagnitude
    refine ⟨negative, ?_⟩
    rw [habs]
    exact .mk hsign (.finite hmagnitude)

end

end Fabula.Binary.Literal
