import SysresOs.Memory.Heap
import SysresOs.Text.Uart
import Mathlib.Logic.Relation

/-!
# Formatted printing

`internal_printf` goes through its format character by character. Literal characters are collected
in a buffer, which is printed when it is full, in front of a conversion and at the end. What is
printed is what the format says without a buffer (`internalPrintf_spec`): a step of the loop moves a
piece from what is still to be printed to the buffer or to the output (`step_spec`).
-/

set_option autoImplicit false
set_option relaxedAutoImplicit false

namespace SysresOs.Text

open SysresOs.Outcome

open SysresOs.Files (CString ioBuffSize)

open SysresOs.Memory (toInt32)

/-! ### Arguments and conversions -/

/-- An argument behind the format, with the type that it is passed with. -/
inductive VaArg
  /-- An `int` or an `unsigned int`. -/
  | int (v : BitVec 32)
  | uint64 (v : BitVec 64)
  | string (str : CString)

/-- A call that a conversion makes. -/
inductive Call
  /-- `putc('%')` -/
  | percent
  | char (c : Character)
  | string (str : CString)
  | number (x : BitVec 64) (base : ℕ) (unsign upperHexa : Bool)

/-- `va_arg(adpar, int)` -/
def vaInt : List VaArg → Except Stop (BitVec 32 × List VaArg)
  | .int v :: args => .ok (v, args)
  | _ => .error .argument

/-- `va_arg(adpar, uint64_t)` -/
def vaUint64 : List VaArg → Except Stop (BitVec 64 × List VaArg)
  | .uint64 v :: args => .ok (v, args)
  | _ => .error .argument

/-- `va_arg(adpar, char *)` -/
def vaString : List VaArg → Except Stop (CString × List VaArg)
  | .string str :: args => .ok (str, args)
  | _ => .error .argument

/-- A conversion of a signed integer. -/
def signedCall (base : ℕ) (upperHexa : Bool) (args : List VaArg) :
    Except Stop (Option (Call × List VaArg)) := do
  let (v, args) ← vaInt args
  .ok (some (.number (v.signExtend 64) base false upperHexa, args))

/-- A conversion of an unsigned integer. -/
def unsignedCall (base : ℕ) (args : List VaArg) : Except Stop (Option (Call × List VaArg)) := do
  let (v, args) ← vaUint64 args
  .ok (some (.number v base true false, args))

/-- The `switch` over the character behind a `%`: its call, and the arguments that are left. There
is none for an unknown conversion. -/
def conversion (c : Character) (args : List VaArg) : Except Stop (Option (Call × List VaArg)) :=
  if c = 0x25 then .ok (some (.percent, args))
  else if c = 0x64 then signedCall 10 false args
  else if c = 0x58 then signedCall 16 true args
  else if c = 0x6f then unsignedCall 8 args
  else if c = 0x75 then unsignedCall 10 args
  else if c = 0x78 then unsignedCall 16 args
  else if c = 0x62 then unsignedCall 2 args
  else if c = 0x63 then do
    let (v, args) ← vaInt args
    .ok (some (.char (v.setWidth 8), args))
  else if c = 0x73 then do
    let (str, args) ← vaString args
    .ok (some (.string str, args))
  else .ok none

/-! ### The loop -/

/-- The functions that `internal_printf` prints with. -/
structure Handlers (σ : Type) where
  putc : Character → σ → Except Stop σ
  puts : CString → σ → Except Stop (σ × ℤ)
  putInt : BitVec 64 → ℕ → Bool → Bool → σ → Except Stop (σ × ℤ)

variable {σ : Type}

/-- A call of a conversion, with what is added to `written`. -/
def Call.run (h : Handlers σ) : Call → σ → Except Stop (σ × ℤ)
  | percent, out => do
    let out ← h.putc 0x25 out
    .ok (out, 0)
  | char c, out => do
    let out ← h.putc c out
    .ok (out, 1)
  | string str, out => h.puts str out
  | number x base unsign upperHexa, out => h.putInt x base unsign upperHexa out

/-- The variables of `internal_printf`: the format from index `i` on, the arguments that are left,
the first `buff_index` characters of the buffer, and what has been printed. -/
structure Printing (σ : Type) where
  format : List Character
  args : List VaArg
  buff : List Character
  written : ℤ
  out : σ

/-- The string `"\n\t  "`. -/
def newlineTab : CString := ⟨[0x0a, 0x09, 0x20, 0x20], by decide⟩

/-- The character is a line feed in front of another character, and there is a label. -/
def BreaksLine (label : Bool) (c : Character) (rest : List Character) : Prop :=
  c = 0x0a ∧ rest ≠ [] ∧ label = true

instance (label : Bool) (c : Character) (rest : List Character) :
    Decidable (BreaksLine label c rest) :=
  inferInstanceAs (Decidable (_ ∧ _))

/-- The buffer is printed if it is not empty. The assertion bounds `buff_index`. -/
def flush (h : Handlers σ) (bound : ℕ) (p : Printing σ) : Except Stop (σ × ℤ) :=
  if p.buff.length > 0 then
    if p.buff.length ≤ bound then do
      let (out, n) ← h.puts (stringOf p.buff) p.out
      .ok (out, toInt32 (p.written + n))
    else .error .buffIndex
  else .ok (p.out, p.written)

/-- A round of the loop, which goes on or returns, or the end behind the loop. -/
def printfStep (h : Handlers σ) (label : Bool) (p : Printing σ) :
    Except Stop (Printing σ ⊕ σ × ℤ) :=
  match p.format with
  | [] => do
    let r ← flush h (ioBuffSize - 2) p
    .ok (.inr r)
  | c :: rest =>
    if c ≠ 0x25 ∧ ¬ BreaksLine label c rest then
      let buff := p.buff ++ [c]
      if buff.length = ioBuffSize - 1 then do
        let (out, _) ← h.puts (stringOf buff) p.out
        .ok (.inl { p with format := rest, buff := [], out := out })
      else .ok (.inl { p with format := rest, buff := buff })
    else do
      let (out, written) ← flush h (ioBuffSize - 1) p
      if BreaksLine label c rest then do
        let (out, n) ← h.puts newlineTab out
        .ok (.inl { p with
          format := rest, buff := [], written := toInt32 (written + n), out := out })
      else
        match rest with
        | [] => .ok (.inr (out, -1))
        | d :: rest => do
          match ← conversion d p.args with
          | none => .ok (.inr (out, -1))
          | some (call, args) => do
            let (out, n) ← call.run h out
            .ok (.inl ⟨rest, args, [], toInt32 (written + n), out⟩)

/-- The loop, for at most so many rounds. -/
def printfLoop (h : Handlers σ) (label : Bool) : ℕ → Printing σ → Except Stop (σ × ℤ)
  | 0, _ => .error .diverges
  | n + 1, p => do
    match ← printfStep h label p with
    | .inl p => printfLoop h label n p
    | .inr r => .ok r

/-- `internal_printf`. Every round goes over a character. -/
def internalPrintf (h : Handlers σ) (label : Bool) (format : CString)
    (args : List VaArg) (out : σ) : Except Stop (σ × ℤ) :=
  printfLoop h label (format.chars.length + 1) ⟨format.chars, args, [], 0, out⟩

/-! ### What a format says -/

/-- A character of the format that stands for itself, or a call. -/
inductive Piece
  | literal (c : Character)
  | call (call : Call)

/-- The pieces of a format, one after the other, up to its end or the first unknown conversion. -/
def expand (label : Bool) : List Character → List VaArg → Except Stop (List Piece × Bool)
  | [], _ => .ok ([], true)
  | c :: rest, args =>
    if c = 0x25 then
      match rest with
      | [] => .ok ([], false)
      | d :: rest => do
        match ← conversion d args with
        | none => .ok ([], false)
        | some (call, args) => do
          let (pieces, complete) ← expand label rest args
          .ok (.call call :: pieces, complete)
    else do
      let (pieces, complete) ← expand label rest args
      .ok ((if BreaksLine label c rest then .call (.string newlineTab) else .literal c) :: pieces,
      complete)

/-- The text of a number, by its arguments. -/
abbrev NumberText := BitVec 64 → ℕ → Bool → Bool → List Character

/-- What a call prints. -/
def Call.text (number : NumberText) : Call → List Character
  | percent => [0x25]
  | char c => [c]
  | string str => str.chars
  | .number x base unsign upperHexa => number x base unsign upperHexa

/-- What a piece prints. -/
def Piece.text (number : NumberText) : Piece → List Character
  | literal c => [c]
  | call c => c.text number

/-- What the pieces print. -/
def textOf (number : NumberText) (pieces : List Piece) : List Character :=
  pieces.flatMap (Piece.text number)

/-! ### Handlers that print -/

/-- The functions print their arguments, as far as the strings fit. -/
structure Emits (h : Handlers σ) (sent : σ → Output) (number : NumberText) (fits : CString → Prop) :
    Prop where
  putc : ∀ c s, ∃ t, h.putc c s = .ok t ∧ sent t = sent s ++ [c]
  puts : ∀ str s, fits str → ∃ t n, h.puts str s = .ok (t, n) ∧ sent t = sent s ++ str.chars
  putInt : ∀ x base unsign upperHexa s, 1 < base → base ≤ 16 →
    ∃ t n, h.putInt x base unsign upperHexa s = .ok (t, n) ∧
    sent t = sent s ++ number x base unsign upperHexa
  short : ∀ str : CString, str.chars.length < ioBuffSize → fits str

/-- The functions return the number of characters of a number, and nothing for a string. -/
structure Counts (h : Handlers σ) (number : NumberText) : Prop where
  puts : ∀ str s t n, h.puts str s = .ok (t, n) → n = 0
  putInt : ∀ x base unsign upperHexa s t n, 1 < base →
    h.putInt x base unsign upperHexa s = .ok (t, n) → n = (number x base unsign upperHexa).length

/-- What `written` counts of a call. -/
def Call.counted (number : NumberText) : Call → ℕ
  | char _ => 1
  | .number x base unsign upperHexa => (number x base unsign upperHexa).length
  | _ => 0

/-- What `written` counts of a piece. -/
def Piece.counted (number : NumberText) : Piece → ℕ
  | literal _ => 0
  | call c => c.counted number

/-- What `written` counts of the pieces. -/
def counted (number : NumberText) (pieces : List Piece) : ℕ :=
  (pieces.map (Piece.counted number)).sum

/-- A string of the call fits, and a number is in one of the bases of the conversions. -/
def Call.Fits (fits : CString → Prop) : Call → Prop
  | .string str => fits str
  | .number _ base _ _ => 1 < base ∧ base ≤ 16
  | _ => True

/-- The functions of the serial line. -/
def uartHandlers : Handlers Output where
  putc c out := .ok (uartPutc c out)
  puts str out := .ok (uartPuts str out)
  putInt := uartPutInt

theorem uartHandlers_emits : Emits uartHandlers id intText fun _ ↦ True where
  putc _ _ := ⟨_, rfl, rfl⟩
  puts str s _ := ⟨_, _, rfl, congrArg Prod.fst (uartPuts_eq str s)⟩
  putInt x _ unsign upperHexa s hbase _ := ⟨_, _, uartPutInt_eq x hbase unsign upperHexa s, rfl⟩
  short _ _ := trivial

theorem uartHandlers_counts : Counts uartHandlers intText where
  puts str s t n h := by
    change Except.ok (uartPuts str s) = _ at h
    rw [uartPuts_eq] at h
    cases h
    rfl
  putInt x base unsign upperHexa s t n hbase h := by
    change uartPutInt x base unsign upperHexa s = _ at h
    rw [uartPutInt_eq x hbase] at h
    cases h
    rfl

section Conversions

variable {args args' : List VaArg} {call : Call} {fits : CString → Prop} {c : Character}

theorem vaInt_eq {v : BitVec 32} (h : vaInt args = .ok (v, args')) : args = .int v :: args' := by
  unfold vaInt at h
  split at h
  · cases h
    rfl
  · exact nomatch h

theorem vaUint64_eq {v : BitVec 64} (h : vaUint64 args = .ok (v, args')) :
    args = .uint64 v :: args' := by
  unfold vaUint64 at h
  split at h
  · cases h
    rfl
  · exact nomatch h

theorem vaString_eq {str : CString} (h : vaString args = .ok (str, args')) :
    args = .string str :: args' := by
  unfold vaString at h
  split at h
  · cases h
    rfl
  · exact nomatch h

theorem signedCall_fits {base : ℕ} {upperHexa : Bool} (hbase : 1 < base ∧ base ≤ 16)
    (h : signedCall base upperHexa args = .ok (some (call, args')))
    (hargs : ∀ str, .string str ∈ args → fits str) :
    call.Fits fits ∧ ∀ str, .string str ∈ args' → fits str := by
  obtain ⟨⟨v, rest⟩, hva, heq⟩ := bind_eq_ok.mp h
  cases heq
  exact ⟨hbase, fun str hstr ↦ hargs str (vaInt_eq hva ▸ List.mem_cons_of_mem _ hstr)⟩

theorem unsignedCall_fits {base : ℕ} (hbase : 1 < base ∧ base ≤ 16)
    (h : unsignedCall base args = .ok (some (call, args')))
    (hargs : ∀ str, .string str ∈ args → fits str) :
    call.Fits fits ∧ ∀ str, .string str ∈ args' → fits str := by
  obtain ⟨⟨v, rest⟩, hva, heq⟩ := bind_eq_ok.mp h
  cases heq
  exact ⟨hbase, fun str hstr ↦ hargs str (vaUint64_eq hva ▸ List.mem_cons_of_mem _ hstr)⟩

/-- A conversion takes its arguments from the list. -/
theorem conversion_fits (h : conversion c args = .ok (some (call, args')))
    (hargs : ∀ str, .string str ∈ args → fits str) :
    call.Fits fits ∧ ∀ str, .string str ∈ args' → fits str := by
  unfold conversion at h
  split_ifs at h
  · cases h
    exact ⟨trivial, hargs⟩
  · exact signedCall_fits (by decide) h hargs
  · exact signedCall_fits (by decide) h hargs
  · exact unsignedCall_fits (by decide) h hargs
  · exact unsignedCall_fits (by decide) h hargs
  · exact unsignedCall_fits (by decide) h hargs
  · exact unsignedCall_fits (by decide) h hargs
  · obtain ⟨⟨v, rest⟩, hva, heq⟩ := bind_eq_ok.mp h
    cases heq
    exact ⟨trivial, fun str hstr ↦ hargs str (vaInt_eq hva ▸ List.mem_cons_of_mem _ hstr)⟩
  · obtain ⟨⟨str, rest⟩, hva, heq⟩ := bind_eq_ok.mp h
    cases heq
    have hstring := vaString_eq hva
    refine ⟨hargs str (hstring ▸ List.mem_cons_self), fun str' hstr ↦ hargs str' ?_⟩
    exact hstring ▸ List.mem_cons_of_mem _ hstr
  · exact nomatch h

end Conversions

/-! ### A round -/

theorem toInt32_add (a b : ℤ) : toInt32 (toInt32 a + b) = toInt32 (a + b) := Int.bmod_add_bmod

section Rounds

variable {h : Handlers σ} {sent : σ → Output} {number : NumberText} {fits : CString → Prop}
  {label complete : Bool} {p : Printing σ} {pieces : List Piece}

/-- The state of the loop between two rounds. The buffer has room for a character, and then for the
zero. -/
structure Ready (fits : CString → Prop) (p : Printing σ) : Prop where
  format : 0 ∉ p.format
  buff : 0 ∉ p.buff
  buff_lt : p.buff.length < ioBuffSize - 1
  args : ∀ str, .string str ∈ p.args → fits str
  written : toInt32 p.written = p.written

/-- What has been printed in the end. -/
def Printing.text (sent : σ → Output) (number : NumberText) (p : Printing σ) (pieces : List Piece) :
    Output :=
  sent p.out ++ p.buff ++ textOf number pieces

/-- What `written` is in the end. -/
def Printing.count (number : NumberText) (p : Printing σ) (pieces : List Piece) : ℤ :=
  toInt32 (p.written + counted number pieces)

theorem Call.run_spec (hh : Emits h sent number fits) {call : Call} (hcall : call.Fits fits)
    (s : σ) : ∃ t n, call.run h s = .ok (t, n) ∧ sent t = sent s ++ call.text number ∧
      (Counts h number → n = call.counted number) := by
  cases call with
  | percent =>
    obtain ⟨t, ht, hsent⟩ := hh.putc 0x25 s
    exact ⟨t, 0, bind_eq_ok.mpr ⟨t, ht, rfl⟩, hsent, fun _ ↦ rfl⟩
  | char c =>
    obtain ⟨t, ht, hsent⟩ := hh.putc c s
    exact ⟨t, 1, bind_eq_ok.mpr ⟨t, ht, rfl⟩, hsent, fun _ ↦ rfl⟩
  | string str =>
    obtain ⟨t, n, ht, hsent⟩ := hh.puts str s hcall
    exact ⟨t, n, ht, hsent, fun hcounts ↦ hcounts.puts str s t n ht⟩
  | number x base unsign upperHexa =>
    obtain ⟨t, n, ht, hsent⟩ := hh.putInt x base unsign upperHexa s hcall.1 hcall.2
    exact ⟨t, n, ht, hsent, fun hcounts ↦ hcounts.putInt x base unsign upperHexa s t n hcall.1 ht⟩

/-- The buffer is printed. -/
theorem puts_stringOf (hh : Emits h sent number fits) {buff : List Character} (hzero : 0 ∉ buff)
    (hlt : buff.length < ioBuffSize) (s : σ) : ∃ t n, h.puts (stringOf buff) s = .ok (t, n) ∧
      sent t = sent s ++ buff := by
  have hchars := chars_stringOf hzero
  obtain ⟨t, n, ht, hsent⟩ := hh.puts (stringOf buff) s (hh.short _ (by rwa [hchars]))
  exact ⟨t, n, ht, by rw [hsent, hchars]⟩

theorem flush_spec (hh : Emits h sent number fits) (hp : Ready fits p) {bound : ℕ}
    (hbound : p.buff.length ≤ bound) :
    ∃ t n, flush h bound p = .ok (t, n) ∧ sent t = sent p.out ++ p.buff ∧
      (Counts h number → n = p.written) := by
  unfold flush
  by_cases hempty : p.buff.length > 0
  · obtain ⟨t, n, ht, hsent⟩ := puts_stringOf hh hp.buff (hp.buff_lt.trans (by decide)) p.out
    refine ⟨t, toInt32 (p.written + n), ?_, hsent, fun hcounts ↦ ?_⟩
    · rw [if_pos hempty, if_pos hbound, ht]
      rfl
    · rw [hcounts.puts _ _ _ _ ht, Int.add_zero, hp.written]
  · refine ⟨p.out, p.written, if_neg hempty, ?_, fun _ ↦ rfl⟩
    rw [List.eq_nil_of_length_eq_zero (Nat.eq_zero_of_not_pos hempty), List.append_nil]

/-- A round goes on in a state that prints and counts the same in the end. -/
structure GoesOn (h : Handlers σ) (sent : σ → Output) (number : NumberText) (fits : CString → Prop)
    (label : Bool) (p : Printing σ) (pieces : List Piece) (complete : Bool) (q : Printing σ)
    (rest : List Piece) : Prop where
  ready : Ready fits q
  shorter : q.format.length < p.format.length
  expand : expand label q.format q.args = .ok (rest, complete)
  text : q.text sent number rest = p.text sent number pieces
  count : Counts h number → q.count number rest = p.count number pieces

/-- The result of the function. -/
structure Returns (h : Handlers σ) (sent : σ → Output) (number : NumberText) (p : Printing σ)
    (pieces : List Piece) (complete : Bool) (r : σ × ℤ) : Prop where
  text : sent r.1 = p.text sent number pieces
  unknown : complete = false → r.2 = -1
  count : Counts h number → complete = true → r.2 = p.count number pieces

/-- A round at a literal character. -/
theorem printfStep_literal (hh : Emits h sent number fits) (hp : Ready fits p) {c : Character}
    {rest : List Character} (hformat : p.format = c :: rest)
    (hliteral : c ≠ 0x25 ∧ ¬ BreaksLine label c rest)
    (hexpand : expand label p.format p.args = .ok (pieces, complete)) :
    ∃ q rest', printfStep h label p = .ok (.inl q) ∧
      GoesOn h sent number fits label p pieces complete q rest' := by
  have hzero := hp.format
  rw [hformat] at hzero hexpand
  obtain ⟨hc, hrest⟩ := not_or.mp (mt List.mem_cons.mpr hzero)
  unfold expand at hexpand
  rw [if_neg hliteral.1] at hexpand
  obtain ⟨⟨pieces', complete'⟩, htail, heq⟩ := bind_eq_ok.mp hexpand
  cases heq
  have hbuff : 0 ∉ p.buff ++ [c] :=
    fun hmem ↦ (List.mem_append.mp hmem).elim hp.buff fun h ↦ hc (by simpa using h)
  have hlength : (p.buff ++ [c]).length < ioBuffSize := by
    have hlt := hp.buff_lt
    rw [List.length_append, List.length_singleton]
    omega
  have htext : textOf number (Piece.literal c :: pieces') = c :: textOf number pieces' := rfl
  have hcounted : counted number (Piece.literal c :: pieces') = counted number pieces' :=
    Nat.zero_add _
  rw [if_neg hliteral.2]
  unfold printfStep
  rw [hformat]
  dsimp only
  rw [if_pos hliteral]
  by_cases hfull : (p.buff ++ [c]).length = ioBuffSize - 1
  · obtain ⟨t, n, ht, hsent⟩ := puts_stringOf hh hbuff hlength p.out
    refine ⟨{ p with format := rest, buff := [], out := t }, pieces', ?_,
      ⟨hrest, List.not_mem_nil, ?_, hp.args, hp.written⟩, ?_, htail, ?_, fun _ ↦ ?_⟩
    · rw [if_pos hfull, ht]
      rfl
    · exact Nat.zero_lt_of_lt hp.buff_lt
    · rw [hformat]
      exact Nat.lt_succ_self _
    · simp [Printing.text, hsent, htext]
    · rw [Printing.count, Printing.count, hcounted]
  · refine ⟨{ p with format := rest, buff := p.buff ++ [c] }, pieces', if_neg hfull,
      ⟨hrest, hbuff, ?_, hp.args, hp.written⟩, ?_, htail, ?_, fun _ ↦ ?_⟩
    · exact lt_of_le_of_ne (Nat.le_sub_one_of_lt hlength) hfull
    · rw [hformat]
      exact Nat.lt_succ_self _
    · simp [Printing.text, htext]
    · rw [Printing.count, Printing.count, hcounted]

/-- After the buffer is printed, a call is made. -/
theorem goesOn_call {call : Call} {t u : σ} {n m : ℤ} {rest : List Character} {args : List VaArg}
    (hflush : sent t = sent p.out ++ p.buff) (hn : Counts h number → n = p.written)
    (hrun : sent u = sent t ++ call.text number) (hm : Counts h number → m = call.counted number)
    (hrest : 0 ∉ rest) (hargs : ∀ str, .string str ∈ args → fits str)
    (hlt : rest.length < p.format.length)
    (hexpand : expand label rest args = .ok (pieces, complete)) :
    GoesOn h sent number fits label p (.call call :: pieces) complete ⟨rest, args, [],
      toInt32 (n + m), u⟩ pieces := by
  refine ⟨⟨hrest, List.not_mem_nil, Nat.zero_lt_succ _, hargs, Int.bmod_bmod⟩, hlt, hexpand, ?_,
    fun hcounts ↦ ?_⟩
  · have htext :
        textOf number (Piece.call call :: pieces) = call.text number ++ textOf number pieces := rfl
    simp [Printing.text, htext, hrun, hflush]
  · have hcounted : counted number (Piece.call call :: pieces) = call.counted number + counted
        number pieces := rfl
    rw [Printing.count, Printing.count, hcounted, hm hcounts, hn hcounts, toInt32_add,
      Int.add_assoc, Int.natCast_add]

/-- A round at a line feed that is printed with a label. -/
theorem printfStep_break (hh : Emits h sent number fits) (hp : Ready fits p) {c : Character}
    {rest : List Character} (hformat : p.format = c :: rest) (hbreak : BreaksLine label c rest)
    (hexpand : expand label p.format p.args = .ok (pieces, complete)) :
    ∃ q rest', printfStep h label p = .ok (.inl q) ∧
      GoesOn h sent number fits label p pieces complete q rest' := by
  have hzero := hp.format
  rw [hformat] at hzero hexpand
  have hc : c ≠ 0x25 := by
    rw [hbreak.1]
    decide
  unfold expand at hexpand
  rw [if_neg hc] at hexpand
  obtain ⟨⟨pieces', complete'⟩, htail, heq⟩ := bind_eq_ok.mp hexpand
  rw [if_pos hbreak] at heq
  cases heq
  obtain ⟨t, n, hflush, hsent, hn⟩ := flush_spec hh hp (Nat.le_of_lt hp.buff_lt)
  obtain ⟨u, m, hrun, hsent', hm⟩ := Call.run_spec hh
    (show (Call.string newlineTab).Fits fits from hh.short _ (by decide)) t
  refine ⟨_, pieces', ?_, goesOn_call hsent hn hsent' hm
    (fun hmem ↦ hzero (List.mem_cons_of_mem c hmem)) hp.args
    (by rw [hformat]; exact Nat.lt_succ_self _) htail⟩
  unfold printfStep
  rw [hformat]
  dsimp only
  rw [if_neg fun h ↦ h.2 hbreak, hflush, ok_bind]
  dsimp only
  rw [if_pos hbreak]
  change h.puts newlineTab t = _ at hrun
  rw [hrun]
  rfl

/-- A round at a percent sign. -/
theorem printfStep_percent (hh : Emits h sent number fits) (hp : Ready fits p)
    {rest : List Character} (hformat : p.format = 0x25 :: rest)
    (hexpand : expand label p.format p.args = .ok (pieces, complete)) :
    (∃ q rest', printfStep h label p = .ok (.inl q) ∧
      GoesOn h sent number fits label p pieces complete q rest') ∨
      ∃ r, printfStep h label p = .ok (.inr r) ∧ Returns h sent number p pieces complete r := by
  have hzero := hp.format
  rw [hformat] at hzero hexpand
  have hnobreak : ¬ BreaksLine label 0x25 rest := fun h ↦ absurd h.1 (by decide)
  obtain ⟨t, n, hflush, hsent, hn⟩ := flush_spec hh hp (Nat.le_of_lt hp.buff_lt)
  unfold expand at hexpand
  rw [if_pos rfl] at hexpand
  unfold printfStep
  rw [hformat]
  dsimp only
  rw [if_neg fun h ↦ h.1 rfl, hflush, ok_bind]
  dsimp only
  rw [if_neg hnobreak]
  have hstops : Returns h sent number p [] false (t, -1) := by
    refine ⟨?_, fun _ ↦ rfl, fun _ hfalse ↦ nomatch hfalse⟩
    rw [Printing.text, textOf, List.flatMap_nil, List.append_nil]
    exact hsent
  cases rest with
  | nil =>
    cases hexpand
    exact .inr ⟨_, rfl, hstops⟩
  | cons d rest =>
    obtain ⟨converted, hconversion, hexpand⟩ := bind_eq_ok.mp hexpand
    dsimp only
    rw [hconversion, ok_bind]
    cases converted with
    | none =>
      cases hexpand
      exact .inr ⟨_, rfl, hstops⟩
    | some converted =>
      obtain ⟨call, args⟩ := converted
      obtain ⟨⟨pieces', complete'⟩, htail, heq⟩ := bind_eq_ok.mp hexpand
      cases heq
      obtain ⟨hcall, hargs⟩ := conversion_fits hconversion hp.args
      obtain ⟨u, m, hrun, hsent', hm⟩ := Call.run_spec hh hcall t
      refine .inl ⟨_, pieces', ?_,
        goesOn_call hsent hn hsent' hm (fun hmem ↦ hzero ?_) hargs ?_ htail⟩
      · dsimp only
        rw [hrun]
        rfl
      · exact List.mem_cons_of_mem _ (List.mem_cons_of_mem d hmem)
      · rw [hformat, List.length_cons, List.length_cons]
        omega

/-- A round goes on in a state that prints and counts the same in the end, or returns what is
printed and counted. -/
theorem printfStep_spec (hh : Emits h sent number fits) (hp : Ready fits p)
    (hexpand : expand label p.format p.args = .ok (pieces, complete)) :
    (∃ q rest, printfStep h label p = .ok (.inl q) ∧
      GoesOn h sent number fits label p pieces complete q rest) ∨
      ∃ r, printfStep h label p = .ok (.inr r) ∧ Returns h sent number p pieces complete r := by
  cases hformat : p.format with
  | nil =>
    obtain ⟨t, n, hflush, hsent, hn⟩ := flush_spec hh hp (Nat.le_sub_one_of_lt hp.buff_lt)
    rw [hformat] at hexpand
    cases hexpand
    refine .inr ⟨(t, n), ?_, ?_, (nomatch ·), fun hcounts _ ↦ ?_⟩
    · unfold printfStep
      rw [hformat]
      dsimp only
      rw [show ioBuffSize - 2 = ioBuffSize - 1 - 1 from rfl, hflush]
      rfl
    · rw [Printing.text, textOf, List.flatMap_nil, List.append_nil]
      exact hsent
    · have hcounted : counted number [] = 0 := rfl
      rw [Printing.count, hcounted, Int.natCast_zero, Int.add_zero, hp.written]
      exact hn hcounts
  | cons c rest =>
    by_cases hc : c = 0x25
    · subst hc
      exact printfStep_percent hh hp hformat hexpand
    · by_cases hbreak : BreaksLine label c rest
      · exact .inl (printfStep_break hh hp hformat hbreak hexpand)
      · exact .inl (printfStep_literal hh hp hformat ⟨hc, hbreak⟩ hexpand)

/-! ### The whole format -/

theorem GoesOn.returns {q : Printing σ} {rest : List Piece} {r : σ × ℤ}
    (hstep : GoesOn h sent number fits label p pieces complete q rest)
    (hr : Returns h sent number q rest complete r) : Returns h sent number p pieces complete r where
  text := hr.text.trans hstep.text
  unknown := hr.unknown
  count := fun hcounts hcomplete ↦ (hr.count hcounts hcomplete).trans (hstep.count hcounts)

theorem printfLoop_spec (hh : Emits h sent number fits) {n : ℕ} (hn : p.format.length < n)
    (hp : Ready fits p) (hexpand : expand label p.format p.args = .ok (pieces, complete)) :
    ∃ r, printfLoop h label n p = .ok r ∧ Returns h sent number p pieces complete r := by
  induction n generalizing p pieces with
  | zero => exact absurd hn (Nat.not_lt_zero _)
  | succ n ih =>
    rcases printfStep_spec hh hp hexpand with ⟨q, rest, hstep, hgoes⟩ | ⟨r, hstep, hr⟩
    · have hshorter := hgoes.shorter
      obtain ⟨r, hloop, hr⟩ := ih (by omega) hgoes.ready hgoes.expand
      refine ⟨r, ?_, hgoes.returns hr⟩
      rw [printfLoop, hstep]
      exact hloop
    · refine ⟨r, ?_, hr⟩
      rw [printfLoop, hstep]
      rfl

/-- One state of the loop is followed by another. -/
def Round (h : Handlers σ) (label : Bool) (p q : Printing σ) : Prop :=
  printfStep h label p = .ok (.inl q)

/-- The state before the loop. -/
def Printing.start (format : CString) (args : List VaArg) (out : σ) : Printing σ :=
  ⟨format.chars, args, [], 0, out⟩

variable {format : CString} {args : List VaArg} {out : σ}

theorem ready_start (hargs : ∀ str, .string str ∈ args → fits str) :
    Ready fits (Printing.start format args out) :=
  ⟨format.no_zero, List.not_mem_nil, Nat.zero_lt_succ _, hargs, rfl⟩

theorem internalPrintf_returns (hh : Emits h sent number fits)
    (hargs : ∀ str, .string str ∈ args → fits str)
    (hexpand : expand label format.chars args = .ok (pieces, complete)) :
    ∃ r, internalPrintf h label format args out = .ok r ∧
      Returns h sent number (Printing.start format args out) pieces complete r :=
  printfLoop_spec hh (Nat.lt_succ_self _) (ready_start hargs) hexpand

/-- Every state of the loop is ready for what is left of the format. -/
theorem ready_of_rounds (hh : Emits h sent number fits)
    (hargs : ∀ str, .string str ∈ args → fits str)
    (hexpand : expand label format.chars args = .ok (pieces, complete))
    (hrounds : Relation.ReflTransGen (Round h label) (Printing.start format args out) p) :
    Ready fits p ∧ ∃ rest, expand label p.format p.args = .ok (rest, complete) := by
  induction hrounds with
  | refl => exact ⟨ready_start hargs, pieces, hexpand⟩
  | tail _ hround ih =>
    obtain ⟨hready, rest, hrest⟩ := ih
    rcases printfStep_spec hh hready hrest with ⟨q, rest', hstep, hgoes⟩ | ⟨r, hstep, -⟩
    · rw [Round, hstep] at hround
      obtain rfl := Sum.inl.inj (Except.ok.inj hround)
      exact ⟨hgoes.ready, rest', hgoes.expand⟩
    · rw [Round, hstep] at hround
      exact nomatch hround

/-- The buffer does not show: what is printed is what the format says character by character, an
unknown conversion makes the result `-1`, no assertion fails, and between two rounds the buffer has
room for a character and a zero. -/
theorem internalPrintf_transparent (hh : Emits h sent number fun _ ↦ True)
    (hexpand : expand label format.chars args = .ok (pieces, complete)) :
    (∃ r, internalPrintf h label format args out = .ok r ∧
      sent r.1 = sent out ++ textOf number pieces ∧
        (complete = false → r.2 = -1)) ∧
      ∀ p, Relation.ReflTransGen (Round h label) (Printing.start format args out) p →
        p.buff.length < ioBuffSize - 1 := by
  refine ⟨?_, fun p hrounds ↦ (ready_of_rounds hh (fun _ _ ↦ trivial) hexpand hrounds).1.buff_lt⟩
  obtain ⟨r, hrun, hr⟩ : ∃ r, internalPrintf h label format args out = .ok r ∧
      Returns h sent number (Printing.start format args out) pieces complete r :=
    internalPrintf_returns hh (fun _ _ ↦ trivial) hexpand
  refine ⟨r, hrun, ?_, hr.unknown⟩
  rw [hr.text, Printing.text, Printing.start, List.append_nil]

end Rounds

/-- `"a%d"` for 7, on the serial line. -/
theorem internalPrintf_transparent_uart :
    (∃ r, internalPrintf uartHandlers false ⟨[0x61, 0x25, 0x64], by decide⟩ [.int 7] [] = .ok r ∧
        id r.1 = id [] ++ textOf intText [.literal 0x61, .call (.number 7 10 false false)] ∧
        (true = false → r.2 = -1)) ∧
      ∀ p, Relation.ReflTransGen (Round uartHandlers false)
        (Printing.start ⟨[0x61, 0x25, 0x64], by decide⟩ [.int 7] []) p →
        p.buff.length < ioBuffSize - 1 :=
  internalPrintf_transparent uartHandlers_emits rfl

end SysresOs.Text
