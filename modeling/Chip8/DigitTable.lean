/-!
# Tables over the sixteen digits

Registers and keys are both named by a hexadecimal digit. `DigitTable` holds a value for each of
the sixteen digits. Setting the value of one digit leaves those of the others (`get_set`), and a
table is determined by its values (`ext_get`).
-/

namespace Chip8

/-- A hexadecimal digit. -/
abbrev Digit := Fin 16

/-- A value for each of the sixteen hexadecimal digits. -/
structure DigitTable (α : Type) where
  entries : Vector α 16
deriving DecidableEq

namespace DigitTable

variable {α : Type}

/-- The table that holds one value for all digits. -/
def const (value : α) : DigitTable α where
  entries := Vector.replicate 16 value

/-- The table of the values of a function. -/
def ofFn (value : Digit → α) : DigitTable α where
  entries := Vector.ofFn value

/-- The value of a digit. -/
def get (t : DigitTable α) (d : Digit) : α :=
  t.entries[d]

/-- Replace the value of a digit. -/
def set (t : DigitTable α) (d : Digit) (value : α) : DigitTable α where
  entries := t.entries.set d.val value d.isLt

/-- The values in the order of their digits. -/
def toList (t : DigitTable α) : List α :=
  t.entries.toList

@[simp] theorem get_const (value : α) (d : Digit) : (const value).get d = value := by
  simp [const, get]

@[simp] theorem get_ofFn (value : Digit → α) (d : Digit) : (ofFn value).get d = value d := by
  simp [ofFn, get]

/-- Setting the value of a digit changes it and no other. -/
theorem get_set (t : DigitTable α) (d e : Digit) (value : α) :
    (t.set d value).get e = if d = e then value else t.get e := by
  simp [get, set, Vector.getElem_set, Fin.ext_iff]

@[simp] theorem get_set_self (t : DigitTable α) (d : Digit) (value : α) :
    (t.set d value).get d = value := by
  simp [get_set]

@[simp] theorem length_toList (t : DigitTable α) : t.toList.length = 16 := by
  simp [toList]

/-- The list holds at place `k` the value of the digit `k`. -/
theorem getElem_toList (t : DigitTable α) (k : Nat) (h : k < t.toList.length) :
    t.toList[k] = t.get ⟨k, by simpa using h⟩ := by
  simp [toList, get]

/-- A table is determined by its values. -/
theorem ext_get {t u : DigitTable α} (h : ∀ d, t.get d = u.get d) : t = u := by
  cases t with
  | mk a =>
    cases u with
    | mk b =>
      congr 1
      apply Vector.ext
      intro i hi
      exact h ⟨i, hi⟩

end DigitTable

end Chip8
