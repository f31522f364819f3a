/-!
# 64-bit integers

The integers of the language, and the exponents of its units, are 64-bit words whose arithmetic
is exact or refused: an operation computes over `Int` and `Integer.ofInt?` takes the result back
into the word, if it fits. `ofInt?_eq_some_iff` is the one fact through which the operations are
reasoned about.
-/

namespace UnitScript.Integer

/-- The word that holds an integer, if it is in range. -/
def ofInt? (n : Int) : Option Int64 :=
  if h : Int64.minValue.toInt ≤ n ∧ n ≤ Int64.maxValue.toInt then
    some (Int64.ofIntLE n h.1 h.2)
  else none

/-- A word holds an integer (`ofInt?`) exactly if it reads back as it. -/
theorem ofInt?_eq_some_iff {n : Int} {w : Int64} : ofInt? n = some w ↔ w.toInt = n := by
  unfold ofInt?
  split
  next h =>
    rw [Option.some.injEq]
    refine ⟨fun hw => ?_, fun hw => ?_⟩
    · rw [← hw, Int64.toInt_ofIntLE]
    · rw [← Int64.toInt_inj, Int64.toInt_ofIntLE, hw]
  next h =>
    refine ⟨fun hw => by simp at hw, fun hw => absurd ?_ h⟩
    subst hw
    exact ⟨w.minValue_le_toInt, w.toInt_le⟩

/-- No word holds an integer (`ofInt?`) exactly if it is out of range. -/
theorem ofInt?_eq_none_iff {n : Int} :
    ofInt? n = none ↔ n < -0x8000000000000000 ∨ 0x8000000000000000 ≤ n := by
  have hmin : Int64.minValue.toInt = -0x8000000000000000 := by decide
  have hmax : Int64.maxValue.toInt = 0x7fffffffffffffff := by decide
  unfold ofInt?
  split <;> simp <;> omega

/-- Every word holds its own value, so `ofInt?` gives the word back. -/
@[simp] theorem ofInt?_toInt (w : Int64) : ofInt? w.toInt = some w :=
  ofInt?_eq_some_iff.2 rfl

/-- The natural number a nonempty list of decimal digits denotes. -/
def digits? (text : List Char) : Option Nat :=
  if text ≠ [] ∧ text.all Char.isDigit then some (Nat.ofDigitChars 10 text 0) else none

/-- Reads decimal digits (`digits?`) after an optional sign, if the integer they denote is in
range. -/
def ofText? : List Char → Option Int64
  | '-' :: text => (digits? text).bind fun n => ofInt? (-n)
  | '+' :: text => (digits? text).bind fun n => ofInt? n
  | text => (digits? text).bind fun n => ofInt? n

/-- An integer in decimal digits, after a minus sign if it is negative. `Integer.ofText?` reads it
back. -/
def text (w : Int64) : String :=
  toString w.toInt

end UnitScript.Integer
