import SysresOs.Files.Remote
import SysresOs.Lib.Numeral
import SysresOs.Lib.Outcome
import Mathlib.Data.BitVec
import Mathlib.Data.List.TakeWhile
import Mathlib.Tactic.SplitIfs

/-!
# Printing on the serial line

`uart_putc`, `uart_puts` and `uart_put_int` of `libk/uart.c`, over the characters that have been
sent. The recursion of `uart_put_uint` sends nothing for zero, and otherwise the numeral of its
argument (`uartPutUint_eq`). What `uart_put_int` sends is read back as its argument
(`uartPutInt_reads`): the most negative number is its own negation in 64 bits, and is passed on as
`2 ^ 63`.
-/

set_option autoImplicit false
set_option relaxedAutoImplicit false

namespace SysresOs.Text

open SysresOs.Numeral SysresOs.Outcome

open SysresOs.Files (CString)

/-! ### Characters -/

/-- A character. -/
abbrev Character := BitVec 8

/-- The characters that have been sent, the first one in front. -/
abbrev Output := List Character

/-- The string that begins with an array of characters, behind which there is a zero. -/
def stringOf (array : List Character) : CString where
  chars := array.takeWhile (· ≠ 0)
  no_zero := fun hmem ↦ by simpa using List.all_eq_true.mp List.all_takeWhile 0 hmem

theorem chars_stringOf {array : List Character} (h : 0 ∉ array) :
    (stringOf array).chars = array := by
  refine List.takeWhile_eq_self_iff.mpr fun c hc ↦ ?_
  simpa using fun hzero : c = 0 ↦ h (hzero ▸ hc)

/-- Why printing does not come to its end. -/
inductive Stop
  /-- The remainder in the base `0`. -/
  | divisionByZero
  /-- A recursion without an end. -/
  | diverges
  /-- The assertions about `buff_index`. -/
  | buffIndex
  /-- `va_arg` finds no argument of its type. -/
  | argument
  /-- `memmove` runs over the end of a request. -/
  | overrun
  /-- A character is awaited. -/
  | waits
  deriving DecidableEq

/-! ### The serial line -/

/-- `uart_putc`. -/
def uartPutc (c : Character) (out : Output) : Output := out ++ [c]

/-- `uart_puts`. The loop counts in a variable of its own, and the result is the outer `i`. -/
def uartPuts (str : CString) (out : Output) : Output × ℤ :=
  (str.chars.foldl (fun out c ↦ uartPutc c out) out, 0)

/-- The character that `uart_put_uint` sends for a digit. -/
def digitChar (upperHexa : Bool) (y : ℕ) : Character :=
  if y ≤ 9 then BitVec.ofNat 8 (48 + y)
  else if upperHexa then BitVec.ofNat 8 (55 + y)
  else BitVec.ofNat 8 (87 + y)

/-- `uart_put_uint`, for a recursion of at most so many calls. -/
def uartPutUint (base : ℕ) (upperHexa : Bool) : ℕ → ℕ → Output → Except Stop (Output × ℤ)
  | bound, x, out =>
    if x = 0 then .ok (out, 0)
    else if base = 0 then .error .divisionByZero
    else
      match bound with
      | 0 => .error .diverges
      | bound + 1 => do
        let y := x % base
        let (out, written) ← uartPutUint base upperHexa bound (x / base) out
        .ok (uartPutc (digitChar upperHexa y) out, written + 1)

/-- `uart_put_int`. The recursion ends within 64 calls, or not at all. -/
def uartPutInt (x : BitVec 64) (base : ℕ) (unsign upperHexa : Bool) (out : Output) :
    Except Stop (Output × ℤ) :=
  if x = 0 then .ok (uartPutc 0x30 out, 1)
  else if x.slt 0 ∧ unsign = false then do
    let out := uartPutc 0x2d out
    let (out, written) ← uartPutUint base upperHexa 64 (1 + ~~~x).toNat out
    .ok (out, 1 + written)
  else uartPutUint base upperHexa 64 x.toNat out

section Print

variable {x : BitVec 64} {base bound n : ℕ} {unsign upperHexa : Bool} {out : Output}

theorem uartPuts_eq (str : CString) (out : Output) : uartPuts str out = (out ++ str.chars, 0) := by
  have hloop : ∀ (chars : List Character) (out : Output),
      chars.foldl (fun out c ↦ uartPutc c out) out = out ++ chars := by
    intro chars
    induction chars with
    | nil => exact fun out ↦ (List.append_nil out).symm
    | cons c chars ih =>
      intro out
      rw [List.foldl_cons, ih, uartPutc, List.append_assoc, List.singleton_append]
  rw [uartPuts, hloop]

/-- `uart_put_uint` sends the numeral and returns its length. -/
theorem uartPutUint_eq (upperHexa : Bool) (hbase : 1 < base) (hn : n < 2 ^ bound) (out : Output) :
    uartPutUint base upperHexa bound n out =
      .ok (out ++ numeral (digitChar upperHexa) base n,
      (numeral (digitChar upperHexa) base n).length) := by
  induction bound generalizing n with
  | zero =>
    obtain rfl : n = 0 := by simpa using hn
    rw [uartPutUint, if_pos rfl, numeral_zero, List.append_nil]
    rfl
  | succ bound ih =>
    rw [uartPutUint]
    rcases Nat.eq_zero_or_pos n with rfl | hpos
    · rw [if_pos rfl, numeral_zero, List.append_nil]
      rfl
    · have hdiv : n / base < 2 ^ bound := by
        rw [pow_succ] at hn
        refine Nat.div_lt_of_lt_mul (hn.trans_le ?_)
        rw [Nat.mul_comm]
        exact Nat.mul_le_mul_right _ hbase
      rw [if_neg hpos.ne', if_neg (by omega)]
      dsimp only
      rw [ih hdiv, ok_bind, numeral_eq_append (digitChar upperHexa) hbase hpos]
      simp [uartPutc]

/-- What `uart_put_int` sends. -/
def intText (x : BitVec 64) (base : ℕ) (unsign upperHexa : Bool) : List Character :=
  if x = 0 then [0x30]
  else if x.slt 0 ∧ unsign = false then 0x2d :: numeral (digitChar upperHexa) base (1 + ~~~x).toNat
  else numeral (digitChar upperHexa) base x.toNat

/-- `uart_put_int` returns the number of characters that it sends. -/
theorem uartPutInt_eq (x : BitVec 64) (hbase : 1 < base) (unsign upperHexa : Bool) (out : Output) :
    uartPutInt x base unsign upperHexa out =
      .ok (out ++ intText x base unsign upperHexa, (intText x base unsign upperHexa).length) := by
  unfold uartPutInt intText
  split_ifs with hzero hneg
  · rfl
  · dsimp only
    rw [uartPutUint_eq upperHexa hbase (BitVec.isLt _), ok_bind]
    simp [uartPutc, Int.add_comm]
  · exact uartPutUint_eq upperHexa hbase x.isLt out

/-! ### Numbers that are read back -/

/-- The value of a digit. -/
def digitValue (c : Character) : Option ℕ :=
  if 48 ≤ c.toNat ∧ c.toNat ≤ 57 then some (c.toNat - 48)
  else if 97 ≤ c.toNat ∧ c.toNat ≤ 122 then some (c.toNat - 87)
  else if 65 ≤ c.toNat ∧ c.toNat ≤ 90 then some (c.toNat - 55)
  else none

/-- The digits of a number that may begin with a minus sign. -/
def digitsOf (text : List Character) : List Character :=
  if text.head? = some 0x2d then text.tail else text

/-- The value of a text with at least one digit. -/
def readInteger (base : ℕ) (text : List Character) : Option ℤ :=
  if digitsOf text = [] then none
  else (readNumeral digitValue base (digitsOf text)).map fun v : ℕ ↦ if text.head? = some 0x2d
    then -(v : ℤ) else v

theorem digitValue_digitChar (upperHexa : Bool) :
    ∀ d < 36, digitValue (digitChar upperHexa d) = some d := by
  cases upperHexa <;> decide

theorem digitChar_ne (upperHexa : Bool) :
    ∀ d < 36, digitChar upperHexa d ≠ 0x2d ∧ (0 < d → digitChar upperHexa d ≠ 0x30) := by
  cases upperHexa <;> decide

/-- A text that is the numeral of a number, behind a sign or not. -/
theorem readInteger_numeral (upperHexa : Bool) (hlow : 2 ≤ base) (hhigh : base ≤ 36) (hn : 0 < n) :
    readInteger base (numeral (digitChar upperHexa) base n) = some (n : ℤ) ∧
      readInteger base (0x2d :: numeral (digitChar upperHexa) base n) = some (-(n : ℤ)) ∧
      (digitsOf (numeral (digitChar upperHexa) base n)).head? ≠ some 0x30 ∧
      (digitsOf (0x2d :: numeral (digitChar upperHexa) base n)).head? ≠ some 0x30 := by
  obtain ⟨d, hpos, hd, hhead⟩ := numeral_head (digitChar upperHexa) hlow hn
  obtain ⟨hsign, hzero⟩ := digitChar_ne upperHexa d (by omega)
  have hread := readNumeral_numeral hlow (fun d hd ↦ digitValue_digitChar upperHexa d (by omega)) n
  have hne : numeral (digitChar upperHexa) base n ≠ [] := by
    intro hnil
    rw [hnil] at hhead
    exact nomatch hhead
  have hplain : (numeral (digitChar upperHexa) base n).head? ≠ some 0x2d := by
    rw [hhead]
    exact fun heq ↦ hsign (Option.some.inj heq)
  have hdigits : digitsOf (numeral (digitChar upperHexa) base n) = numeral (digitChar upperHexa)
      base n := if_neg hplain
  have hsigned : digitsOf (0x2d :: numeral (digitChar upperHexa) base n) =
      numeral (digitChar upperHexa) base n := rfl
  have hnonzero : (numeral (digitChar upperHexa) base n).head? ≠ some 0x30 := by
    rw [hhead]
    exact fun heq ↦ hzero hpos (Option.some.inj heq)
  refine ⟨?_, ?_, by rwa [hdigits], by rwa [hsigned]⟩
  · rw [readInteger, hdigits, if_neg hne, hread, Option.map_some, if_neg hplain]
  · rw [readInteger, hsigned, if_neg hne, hread, Option.map_some, List.head?_cons, if_pos rfl]

/-- What `uart_put_int` sends is read back as the number, without a superfluous zero, and its length
is returned. -/
theorem uartPutInt_reads (x : BitVec 64) (hlow : 2 ≤ base) (hhigh : base ≤ 36)
    (unsign upperHexa : Bool) (out : Output) : ∃ text : List Character,
      uartPutInt x base unsign upperHexa out = .ok (out ++ text, text.length) ∧
        readInteger base text = some (if unsign then (x.toNat : ℤ) else x.toInt) ∧
        (digitsOf text = [0x30] ∨ (digitsOf text).head? ≠ some 0x30) := by
  refine ⟨intText x base unsign upperHexa, uartPutInt_eq x hlow unsign upperHexa out, ?_⟩
  unfold intText
  by_cases hzero : x = 0
  · subst hzero
    refine ⟨?_, .inl rfl⟩
    have hdigits : digitsOf [0x30] = [0x30] := rfl
    have hread : readNumeral digitValue base [0x30] = some 0 := by
      have hdigit : digitValue 0x30 = some 0 := by decide
      change (digitValue 0x30).bind (fun d ↦ if d < base then some (base * 0 + d)
        else none) = some 0
      rw [hdigit, Option.bind_some, if_pos (by omega)]
      rfl
    rw [if_pos rfl, readInteger, hdigits, if_neg (List.cons_ne_nil _ _), hread]
    cases unsign <;> rfl
  rw [if_neg hzero]
  by_cases hneg : x.slt 0 ∧ unsign = false
  · rw [if_pos hneg]
    obtain ⟨hneg, rfl⟩ := hneg
    have hint : x.toInt < 0 := BitVec.slt_iff_toInt_lt.mp hneg
    have hvalue : x.toInt = -((1 + ~~~x).toNat : ℤ) := by
      rw [BitVec.toInt_eq_toNat_cond] at hint ⊢
      bv_omega
    obtain ⟨-, hread, -, hhead⟩ :=
        readInteger_numeral upperHexa hlow hhigh (n := (1 + ~~~x).toNat) (by omega)
    refine ⟨?_, .inr hhead⟩
    rw [hread, hvalue]
    rfl
  · rw [if_neg hneg]
    have hpos : 0 < x.toNat := by bv_omega
    obtain ⟨hread, -, hhead, -⟩ := readInteger_numeral upperHexa hlow hhigh hpos
    refine ⟨?_, .inr hhead⟩
    rw [hread]
    cases unsign with
    | true => rfl
    | false =>
      have hint : ¬ x.toInt < 0 := fun hlt ↦ hneg ⟨BitVec.slt_iff_toInt_lt.mpr hlt, rfl⟩
      have hvalue : x.toInt = (x.toNat : ℤ) := by
        rw [BitVec.toInt_eq_toNat_cond] at hint ⊢
        omega
      rw [hvalue]
      rfl

/-- The most negative number in the base 10. -/
theorem uartPutInt_reads_min : ∃ text : List Character,
    uartPutInt (1 <<< 63) 10 false false [] = .ok ([] ++ text, text.length) ∧
      readInteger 10 text = some (if false then ((1 <<< 63 : BitVec 64).toNat : ℤ)
      else (1 <<< 63 : BitVec 64).toInt) ∧
      (digitsOf text = [0x30] ∨ (digitsOf text).head? ≠ some 0x30) :=
  uartPutInt_reads _ (by decide) (by decide) false false []

end Print

end SysresOs.Text
