/-!
Ids of graphs and nodes: 128 bits, written as 32 hexadecimal digits in groups of 8, 4, 4, 4
and 12. Reading also takes the digits without hyphens, in braces, or after `urn:uuid:`.
-/

namespace Fabula

structure Uuid where
  digits : List (Fin 16)
  length_eq : digits.length = 32
deriving DecidableEq

namespace Uuid

def ofDigits? (digits : List (Fin 16)) : Option Uuid :=
  if h : digits.length = 32 then some ⟨digits, h⟩ else none

/-- The last hexadecimal digits of a number, as many as `count`. -/
def lastDigits : Nat → Nat → List (Fin 16)
  | 0, _ => []
  | count + 1, n => lastDigits count (n / 16) ++ [Fin.ofNat 16 n]

theorem length_lastDigits (count n : Nat) : (lastDigits count n).length = count := by
  induction count generalizing n with
  | zero => rfl
  | succ count ih => simp [lastDigits, ih]

/-- The id whose digits are those of a number, modulo the number of ids. -/
def ofNat (n : Nat) : Uuid := ⟨lastDigits 32 n, length_lastDigits 32 n⟩

/-- The value of a hexadecimal digit. -/
def digit? (c : Char) : Option (Fin 16) :=
  if '0' ≤ c ∧ c ≤ '9' then some (Fin.ofNat 16 (c.toNat - '0'.toNat))
  else if 'a' ≤ c ∧ c ≤ 'f' then some (Fin.ofNat 16 (c.toNat - 'a'.toNat + 10))
  else if 'A' ≤ c ∧ c ≤ 'F' then some (Fin.ofNat 16 (c.toNat - 'A'.toNat + 10))
  else none

def readDigits? (cs : List Char) : Option Uuid :=
  (cs.mapM digit?).bind ofDigits?

/-- The digits of the hyphenated form, whose groups stand at fixed places. -/
def dropHyphens? (cs : List Char) : Option (List Char) :=
  if cs.length = 36 ∧ cs[8]? = some '-' ∧ cs[13]? = some '-' ∧ cs[18]? = some '-' ∧
      cs[23]? = some '-' then
    some (cs.take 8 ++ (cs.drop 9).take 4 ++ (cs.drop 14).take 4 ++ (cs.drop 19).take 4 ++
      cs.drop 24)
  else none

def readHyphenated? (cs : List Char) : Option Uuid := (dropHyphens? cs).bind readDigits?

/-- The four written forms; digits are of either case. -/
def read? (cs : List Char) : Option Uuid :=
  match cs.length with
  | 32 => readDigits? cs
  | 36 => readHyphenated? cs
  | 38 =>
    if cs.head? = some '\x7b' ∧ cs.getLast? = some '\x7d' then readHyphenated? cs.tail.dropLast
    else none
  | 45 => (['u', 'r', 'n', ':', 'u', 'u', 'i', 'd', ':'].isPrefixOf? cs).bind readHyphenated?
  | _ => none

def ofString? (s : String) : Option Uuid := read? s.toList

def write (u : Uuid) : List Char :=
  let cs := u.digits.map fun d => Nat.digitChar d.val
  cs.take 8 ++ '-' :: (cs.drop 8).take 4 ++ '-' :: (cs.drop 12).take 4 ++ '-' ::
    (cs.drop 16).take 4 ++ '-' :: cs.drop 20

instance : ToString Uuid := ⟨fun u => String.ofList u.write⟩

end Uuid

/-- An endless supply of fresh ids: a stream of them and how many were taken. -/
structure IdSupply where
  stream : Nat → Uuid
  taken : Nat

namespace IdSupply

/-- The ids that follow a number. -/
def startingAt (base : Nat) : IdSupply := ⟨fun n => Uuid.ofNat (base + n), 0⟩

def next (supply : IdSupply) : Uuid × IdSupply :=
  (supply.stream supply.taken, { supply with taken := supply.taken + 1 })

/-- What a computation that makes ids answers, and the supply it leaves. -/
abbrev Drawing := StateM IdSupply

def fresh : Drawing Uuid := next

end IdSupply

end Fabula
