import SysresOs.Memory.Heap
import SysresOs.Text.Uart

/-!
# Reading a line

`uart_get_string` stores the characters of a line, echoes them, and stops one character ahead: in
front of the end of the line, or in front of the first character for which the buffer has no room.
Then it stores the zero one place too far, behind a character of the buffer that it has not set
(`readsLine_iff`).
-/

set_option autoImplicit false
set_option relaxedAutoImplicit false

namespace SysresOs.Text

open SysresOs.ByteMemory

open SysresOs.Memory (sub64 sub64_eq toInt32)

/-! ### The function -/

/-- What the function has done: the characters sent, the array, and the indices of the array that it
has stored to. -/
structure Line where
  output : Output
  buff : ByteMemory.Memory
  written : List ℕ

/-- `buff[i] = c` -/
def Line.store (s : Line) (i : ℕ) (c : Character) : Line :=
  { s with buff := write s.buff i [c], written := s.written ++ [i] }

/-- `uart_putc` -/
def Line.echo (s : Line) (c : Character) : Line := { s with output := uartPutc c s.output }

/-- The character ends a line: it is a carriage return or a line feed. -/
def EndsLine (c : Character) : Prop := c = 0x0d ∨ c = 0x0a

instance (c : Character) : Decidable (EndsLine c) := inferInstanceAs (Decidable (_ ∨ _))

/-- The first loop, with the character `c` read ahead: the number of characters stored, the
character read ahead and the input behind it. It waits if there is no more input. -/
def storeLoop (size : ℕ) : List Character → Character → ℕ → Line →
    Option (Line × ℕ × Character × List Character)
  | input, c, i, s =>
    if ¬ EndsLine c ∧ i < sub64 size 1 then
      match input with
      | [] => none
      | next :: input => storeLoop size input next (i + 1) ((s.store i c).echo next)
    else some (s, i, c, input)

/-- The second loop: the number of characters that are not copied, and the input behind the line. -/
def discardLoop : List Character → Character → ℤ → Option (ℤ × List Character)
  | input, c, nonCopiedChar =>
    if ¬ EndsLine c then
      match input with
      | [] => none
      | next :: input => discardLoop input next (toInt32 (nonCopiedChar + 1))
    else some (nonCopiedChar, input)

/-- `uart_get_string`: what it has done, its result, and the input behind the line. -/
def uartGetString (size : ℕ) (s : Line) : List Character → Option (Line × ℤ × List Character)
  | [] => none
  | c :: input => do
    let (s, i, c, input) ← storeLoop size input c 0 (s.echo c)
    let s := s.store (i + 1) 0
    let (nonCopiedChar, input) ← discardLoop input c 0
    some (s, nonCopiedChar, input)

/-! ### A line -/

section Lines

variable {size i : ℕ} {L input rest : List Character} {c t : Character} {s : Line}

theorem exists_next (h : input = L ++ t :: rest) : ∃ next input', input = next :: input' :=
  List.exists_cons_of_ne_nil (by simp [h])

/-- The first loop stores as many characters of the line as there is room for. -/
theorem storeLoop_spec (hL : ∀ c ∈ L, ¬ EndsLine c) (ht : EndsLine t)
    (hinput : c :: input = L ++ t :: rest) {room : ℕ} (hroom : i + room = sub64 size 1) (s : Line) :
    ∃ s' c' input',
      storeLoop size input c i s = some (s', i + min L.length room, c', input') ∧
        c' :: input' = L.drop room ++ t :: rest ∧ s'.buff = write s.buff i (L.take room) ∧
        s'.written = s.written ++ List.range' i (min L.length room) := by
  induction L generalizing i c input s room with
  | nil =>
    obtain ⟨rfl, rfl⟩ := List.cons.inj hinput
    refine ⟨s, c, input, ?_, ?_, ?_, ?_⟩
    · unfold storeLoop
      rw [if_neg fun h ↦ h.1 ht, List.length_nil, Nat.zero_min, Nat.add_zero]
    · rw [List.drop_nil, List.nil_append]
    · rw [List.take_nil, write_nil]
    · rw [List.length_nil, Nat.zero_min, List.range'_zero, List.append_nil]
  | cons b L ih =>
    obtain ⟨rfl, htail⟩ : c = b ∧ input = L ++ t :: rest := List.cons.inj hinput
    cases room with
    | zero =>
      refine ⟨s, c, input, ?_, ?_, ?_, ?_⟩
      · unfold storeLoop
        rw [if_neg fun h ↦ by omega, Nat.min_zero, Nat.add_zero]
      · rw [List.drop_zero, hinput]
      · rw [List.take_zero, write_nil]
      · rw [Nat.min_zero, List.range'_zero, List.append_nil]
    | succ room =>
      obtain ⟨next, input, rfl⟩ := exists_next htail
      have hc := hL c List.mem_cons_self
      obtain ⟨s', c', input', hloop, hrest, hbuff, hwritten⟩ :=
        ih (fun d hd ↦ hL d (List.mem_cons_of_mem c hd)) htail
        (show i + 1 + room = sub64 size 1 by omega) ((s.store i c).echo next)
      have hmin : min (L.length + 1) (room + 1) = min L.length room + 1 := by omega
      refine ⟨s', c', input', ?_, hrest, ?_, ?_⟩
      · unfold storeLoop
        rw [if_pos ⟨hc, by omega⟩, List.length_cons, hmin]
        dsimp only
        rw [hloop, Nat.add_assoc, Nat.add_comm 1]
      · rw [hbuff, List.take_succ_cons, ← write_cons]
        rfl
      · rw [hwritten, List.length_cons, hmin, List.range'_succ]
        simp [Line.store, Line.echo]

/-- The second loop reads up to the end of the line. -/
theorem discardLoop_spec (hL : ∀ c ∈ L, ¬ EndsLine c) (ht : EndsLine t)
    (hinput : c :: input = L ++ t :: rest) (n : ℤ) :
    ∃ m, discardLoop input c n = some (m, rest) ∧ (L = [] → m = n) := by
  induction L generalizing c input n with
  | nil =>
    obtain ⟨rfl, rfl⟩ := List.cons.inj hinput
    refine ⟨n, ?_, fun _ ↦ rfl⟩
    unfold discardLoop
    rw [if_neg (not_not.mpr ht)]
  | cons b L ih =>
    obtain ⟨rfl, htail⟩ : c = b ∧ input = L ++ t :: rest := List.cons.inj hinput
    obtain ⟨next, input, rfl⟩ := exists_next htail
    obtain ⟨m, hloop, -⟩ := ih (fun d hd ↦ hL d (List.mem_cons_of_mem c hd)) htail (toInt32 (n + 1))
    refine ⟨m, ?_, fun hnil ↦ absurd hnil (List.cons_ne_nil c L)⟩
    unfold discardLoop
    rw [if_pos (hL c List.mem_cons_self)]
    exact hloop

variable (rest) in
/-- The function reads up to the end of the line, stores what fits, and stores the zero behind the
next place. -/
theorem uartGetString_spec (hsize : 1 ≤ size) (h64 : size < 2 ^ 64) (hL : ∀ c ∈ L, ¬ EndsLine c)
    (ht : EndsLine t) (s : Line) :
    ∃ s' m, uartGetString size s (L ++ t :: rest) = some (s', m, rest) ∧
      s'.buff = write (write s.buff 0 (L.take (size - 1))) (min L.length (size - 1) + 1) [0] ∧
      s'.written = s.written ++ List.range' 0 (min L.length (size - 1)) ++
      [min L.length (size - 1) + 1] ∧ (L.length ≤ size - 1 → m = 0) := by
  obtain ⟨c, input, hinput⟩ := exists_next (L := L) (t := t) rfl
  have hroom : 0 + (size - 1) = sub64 size 1 := by rw [sub64_eq hsize h64, Nat.zero_add]
  obtain ⟨s', c', input', hstore, hrest, hbuff, hwritten⟩ :=
    storeLoop_spec hL ht hinput.symm hroom (s.echo c)
  obtain ⟨m, hdiscard, hm⟩ :=
    discardLoop_spec (fun d hd ↦ hL d (List.mem_of_mem_drop hd)) ht hrest 0
  rw [Nat.zero_add] at hstore
  refine ⟨s'.store (min L.length (size - 1) + 1) 0, m, ?_, ?_, ?_,
    fun hle ↦ hm (List.drop_eq_nil_of_le hle)⟩
  · rw [hinput, uartGetString, hstore]
    change (discardLoop input' c' 0).bind _ = _
    rw [hdiscard]
    rfl
  · rw [Line.store, hbuff]
    rfl
  · rw [Line.store, hwritten]
    rfl

/-- The line `L`, which `t` ends, is read: only the line is consumed, nothing is stored outside the
array, the array holds the beginning of the line and a zero, and the result is the number of
characters left out. -/
def ReadsLine (size : ℕ) (L : List Character) (t : Character) (rest : List Character) (out : Output)
    (buff : ByteMemory.Memory) : Prop :=
  ∃ s', uartGetString size ⟨out, buff, []⟩ (L ++ t :: rest) =
      some (s', ((L.length - min L.length (size - 1) : ℕ) : ℤ), rest) ∧
    (∀ i ∈ s'.written, i < size) ∧ (∀ i (hi : i < L.length), i < size - 1 → s'.buff i = L[i]) ∧
    s'.buff (min L.length (size - 1)) = 0

variable {out : Output} {buff : ByteMemory.Memory}

/-- A line that is read leaves two places of the array, and the array had a zero where the line
ends. -/
theorem ReadsLine.fits (hsize : 1 ≤ size) (h64 : size < 2 ^ 64) (hL : ∀ c ∈ L, ¬ EndsLine c)
    (ht : EndsLine t) (h : ReadsLine size L t rest out buff) :
    L.length + 2 ≤ size ∧ buff L.length = 0 := by
  obtain ⟨s', hrun, hwritten, -, hzero⟩ := h
  obtain ⟨s'', m, hrun', hbuff, hindices, -⟩ :=
    uartGetString_spec rest hsize h64 hL ht ⟨out, buff, []⟩
  rw [hrun'] at hrun
  obtain rfl : s'' = s' := congrArg (fun r : Line × ℤ × List Character ↦ r.1) (Option.some.inj hrun)
  have hlast := hwritten (min L.length (size - 1) + 1) (by rw [hindices]; simp)
  have hfits : L.length + 2 ≤ size := by omega
  have hmin : min L.length (size - 1) = L.length := by omega
  refine ⟨hfits, ?_⟩
  rw [hbuff, hmin, write_of_not_mem (Or.inl (Nat.lt_succ_self _)),
    write_of_not_mem (Or.inr ?_)] at hzero
  · exact hzero
  · rw [List.length_take]
    omega

/-- A line is read exactly if it leaves two places of the array, and the array had a zero where the
line ends. -/
theorem readsLine_iff (hsize : 1 ≤ size) (h64 : size < 2 ^ 64) (hL : ∀ c ∈ L, ¬ EndsLine c)
    (ht : EndsLine t) : ReadsLine size L t rest out buff ↔
    L.length + 2 ≤ size ∧ buff L.length = 0 := by
  refine ⟨fun h ↦ h.fits hsize h64 hL ht, fun ⟨hfits, hzero⟩ ↦ ?_⟩
  obtain ⟨s', m, hrun, hbuff, hindices, hm⟩ :=
    uartGetString_spec rest hsize h64 hL ht ⟨out, buff, []⟩
  have hmin : min L.length (size - 1) = L.length := by omega
  have htake : L.take (size - 1) = L := List.take_of_length_le (by omega)
  rw [hmin, htake] at hbuff
  rw [hmin] at hindices
  refine ⟨s', ?_, fun i hi ↦ ?_, fun i hi _ ↦ ?_, ?_⟩
  · rw [hrun, hm (by omega), hmin, Nat.sub_self]
    rfl
  · rw [hindices] at hi
    simp only [List.nil_append, List.mem_append, List.mem_range'_1, List.mem_singleton] at hi
    omega
  · rw [hbuff, write_of_not_mem (Or.inl (by omega)), write, if_pos (Nat.zero_le i), Nat.sub_zero,
      List.getElem?_eq_getElem hi, Option.getD_some]
  · rw [hmin, hbuff, write_of_not_mem (Or.inl (Nat.lt_succ_self _)),
      write_of_not_mem (Or.inr (Nat.zero_add _).le)]
    exact hzero

/-- The line `ok` into an array of 500 zeros. -/
theorem readsLine_iff_ok : ReadsLine 500 [0x6f, 0x6b] 0x0d [] [] (fun _ ↦ 0) ↔
    [(0x6f : Character), 0x6b].length + 2 ≤ 500 ∧ (0 : Character) = 0 :=
  readsLine_iff (by decide) (by decide) (by decide) (by decide)

/-- An empty line leaves an array of `x` as it was in front. -/
theorem not_readsLine_empty : ¬ ReadsLine 500 [] 0x0d [] [] (fun _ ↦ 0x78) := by
  intro h
  have hfits := h.fits (by decide) (by decide) (by decide) (by decide)
  exact absurd hfits.2 (by decide)

end Lines

end SysresOs.Text
