import SysresOs.Text.Printf

/-!
# What `uart_printf` returns

`uart_printf` returns what `written` counts: the characters of numbers and the single characters of
its arguments. `uart_puts` returns zero, whatever it has sent, so that literal characters and
strings are not counted, and neither is a percent sign (`countsOutput_iff`).
-/

set_option autoImplicit false
set_option relaxedAutoImplicit false

namespace SysresOs.Text

open SysresOs.Files (CString)

open SysresOs.Memory (toInt32 toInt32_eq toInt32_bounds)

/-- `uart_printf`. -/
def uartPrintf (format : CString) (args : List VaArg) (out : Output) : Except Stop (Output × ℤ) :=
  internalPrintf uartHandlers false format args out

/-- The result is the number of characters sent. -/
def CountsOutput (format : CString) (args : List VaArg) (out : Output) : Prop :=
  ∃ text n, uartPrintf format args out = .ok (out ++ text, n) ∧ n = text.length

/-- The piece is a number, a single character of an argument, or an empty string. -/
def Piece.IsCounted : Piece → Prop
  | literal _ => False
  | call .percent => False
  | call (.string str) => str.chars = []
  | call (.char _) => True
  | call (.number ..) => True

section Count

variable {format : CString} {args : List VaArg} {out : Output} {pieces : List Piece}

theorem Piece.counted_le (number : NumberText) (piece : Piece) :
    piece.counted number ≤ (piece.text number).length := by
  cases piece with
  | literal c => exact Nat.zero_le _
  | call call =>
    cases call with
    | percent => exact Nat.zero_le _
    | char c => exact le_rfl
    | string str => exact Nat.zero_le _
    | number x base unsign upperHexa => exact le_rfl

theorem Piece.counted_eq_iff (number : NumberText) (piece : Piece) :
    piece.counted number = (piece.text number).length ↔ piece.IsCounted := by
  cases piece with
  | literal c => exact ⟨fun h ↦ absurd h (by simp [counted, text]), False.elim⟩
  | call call =>
    cases call with
    | percent =>
      exact ⟨fun h ↦ absurd h (by simp [counted, text, Call.counted, Call.text]), False.elim⟩
    | char c => exact ⟨fun _ ↦ trivial, fun _ ↦ rfl⟩
    | string str =>
      exact ⟨fun h ↦ List.eq_nil_of_length_eq_zero h.symm, fun h ↦ (congrArg List.length h).symm⟩
    | number x base unsign upperHexa => exact ⟨fun _ ↦ trivial, fun _ ↦ rfl⟩

/-- The characters that are counted are some of those that are sent, and all of them exactly if
every piece counts. -/
theorem counted_spec (number : NumberText) (pieces : List Piece) :
    counted number pieces ≤ (textOf number pieces).length ∧
    (counted number pieces = (textOf number pieces).length ↔
      ∀ piece ∈ pieces, piece.IsCounted) := by
  induction pieces with
  | nil => exact ⟨le_rfl, fun _ piece hpiece ↦ absurd hpiece List.not_mem_nil, fun _ ↦ rfl⟩
  | cons piece pieces ih =>
    have hle := piece.counted_le number
    have heq := piece.counted_eq_iff number
    have hcounted :
        counted number (piece :: pieces) = piece.counted number + counted number pieces := rfl
    have htext : (textOf number (piece :: pieces)).length =
        (piece.text number).length + (textOf number pieces).length := List.length_append
    rw [hcounted, htext, List.forall_mem_cons, ← heq, ← ih.2]
    omega

/-- What `uart_printf` sends and returns. -/
theorem uartPrintf_eq (hexpand : expand false format.chars args = .ok (pieces, true))
    (out : Output) :
    uartPrintf format args out = .ok (out ++ textOf intText pieces,
      toInt32 (counted intText pieces)) := by
  obtain ⟨r, hrun, hr⟩ : ∃ r, uartPrintf format args out = .ok r ∧
      Returns uartHandlers id intText (Printing.start format args out) pieces true r :=
    internalPrintf_returns uartHandlers_emits (fun _ _ ↦ trivial) hexpand
  have htext : r.1 = out ++ textOf intText pieces := by
    refine hr.text.trans ?_
    rw [Printing.text, Printing.start, List.append_nil]
    rfl
  have hcount : r.2 = toInt32 (counted intText pieces) := by
    rw [hr.count uartHandlers_counts rfl, Printing.count, Printing.start, Int.zero_add]
  rw [hrun, ← htext, ← hcount]

/-- The result is the number of characters sent exactly if every piece of the format counts, and
that number is an `int`. -/
theorem countsOutput_iff (hexpand : expand false format.chars args = .ok (pieces, true)) :
    CountsOutput format args out ↔
      (∀ piece ∈ pieces, piece.IsCounted) ∧ (textOf intText pieces).length < 2 ^ 31 := by
  have hrun := uartPrintf_eq hexpand out
  obtain ⟨hle, heq⟩ := counted_spec intText pieces
  rw [← heq]
  constructor
  · rintro ⟨text, n, htext, hn⟩
    rw [hrun] at htext
    obtain ⟨hsent, hcount⟩ := Prod.mk.inj (Except.ok.inj htext)
    obtain rfl := List.append_cancel_left hsent
    have hbounds := toInt32_bounds (counted intText pieces)
    have hlt : (textOf intText pieces).length < 2 ^ 31 := by omega
    rw [toInt32_eq (Int.natCast_nonneg _) (by omega)] at hcount
    omega
  · rintro ⟨hcounted, hlt⟩
    refine ⟨_, _, hrun, ?_⟩
    rw [toInt32_eq (Int.natCast_nonneg _) (by omega), hcounted]

/-- `"%d"` for 7. -/
theorem countsOutput_iff_number : CountsOutput ⟨[0x25, 0x64], by decide⟩ [.int 7] [] ↔
    (∀ piece ∈ [Piece.call (.number 7 10 false false)], piece.IsCounted) ∧
      (textOf intText [.call (.number 7 10 false false)]).length < 2 ^ 31 :=
  countsOutput_iff rfl

/-- For `"a"` the result is zero. -/
theorem not_countsOutput_literal : ¬ CountsOutput ⟨[0x61], by decide⟩ [] [] := by
  rintro ⟨text, n, htext, hn⟩
  rw [uartPrintf_eq (show expand false [0x61] [] = .ok ([.literal 0x61], true) from rfl)] at htext
  obtain ⟨hsent, hcount⟩ := Prod.mk.inj (Except.ok.inj htext)
  obtain rfl := List.append_cancel_left hsent
  exact absurd (hcount.trans hn) (by decide)

end Count

end SysresOs.Text
