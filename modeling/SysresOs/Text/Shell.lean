import SysresOs.Text.LineInput
import SysresOs.Text.UartPrintf

/-!
# The shell

The shell reads a line into an array that it keeps, and executes the string in it. `uart_get_string`
leaves one place of the array between the line and the zero, so that a character of an earlier line
may stand there: `shell_executes` says, for every sequence of lines that call no test, which
commands are executed, and that nothing else of the earlier lines is left. A test of `run_test` may
read lines itself and store elsewhere. The command `echo` prints its argument as a format
(`echo_prints_iff`).
-/

set_option autoImplicit false
set_option relaxedAutoImplicit false

namespace SysresOs.Text

open SysresOs.ByteMemory SysresOs.Outcome

open SysresOs.Files (CString ioBuffSize)

/-! ### The source -/

/-- `memcmp`, of the bytes from two places on. -/
def memcmp (a b : Memory) (size : ℕ) : ℤ :=
  match (List.range size).find? fun i ↦ a i ≠ b i with
  | some i => if a i < b i then -1 else 1
  | none => 0

/-- The codes of characters. -/
def codes (chars : List Char) : List Character := chars.map fun c ↦ BitVec.ofNat 8 c.toNat

/-- `"\r\n[root@raspi /]# "` -/
def shellPrompt : CString :=
  ⟨0x0d :: 0x0a :: codes ['[', 'r', 'o', 'o', 't', '@', 'r', 'a', 's', 'p', 'i', ' ', '/', ']', '#',
    ' '], by decide⟩

/-- `"[WARNING] "` -/
def warningLabel : CString := ⟨codes ['[', 'W', 'A', 'R', 'N', 'I', 'N', 'G', ']', ' '], by decide⟩

/-- `"[ ERROR ] "` -/
def errorLabel : CString := ⟨codes ['[', ' ', 'E', 'R', 'R', 'O', 'R', ' ', ']', ' '], by decide⟩

/-- `"Shell: %d characters lost\r\n"` -/
def charactersLost : CString :=
  ⟨codes ['S', 'h', 'e', 'l', 'l', ':', ' ', '%', 'd', ' ', 'c', 'h', 'a', 'r', 'a', 'c', 't', 'e',
    'r', 's', ' ', 'l', 'o', 's', 't'] ++ [0x0d, 0x0a], by decide⟩

/-- `"Shell: Unknown command\r\n"` -/
def unknownCommand : CString :=
  ⟨codes ['S', 'h', 'e', 'l', 'l', ':', ' ', 'U', 'n', 'k', 'n', 'o', 'w', 'n', ' ', 'c', 'o',
    'm', 'm', 'a', 'n', 'd'] ++ [0x0d, 0x0a], by decide⟩

/-- `"echo "` -/
def echoCommand : CString := ⟨codes ['e', 'c', 'h', 'o', ' '], by decide⟩

/-- `"test "` -/
def testCommand : CString := ⟨codes ['t', 'e', 's', 't', ' '], by decide⟩

/-- `uart_warning` and `uart_error`, by their labels. -/
def uartLabelled (label format : CString) (args : List VaArg) (out : Output) :
    Except Stop (Output × ℤ) :=
  internalPrintf uartHandlers true format args (uartPuts label out).1

/-- `uart_warning`, at the log level of the header. -/
def uartWarning : CString → List VaArg → Output → Except Stop (Output × ℤ) :=
  uartLabelled warningLabel

/-- `uart_error`, at the log level of the header. -/
def uartError : CString → List VaArg → Output → Except Stop (Output × ℤ) := uartLabelled errorLabel

/-- The string that begins at an index of the array `buff`. It ends with the array, behind which
nothing is known. -/
def stringAt (buff : Memory) (i : ℕ) : CString := stringOf (read buff i (ioBuffSize - i))

/-- A string in memory, with its zero. -/
def CString.bytes (str : CString) : Memory := fun i ↦ (str.chars[i]?).getD 0

/-- The failure exit of `execute_command`. -/
def unknown (out : Output) : Except Stop Output := do
  let (out, _) ← uartError unknownCommand [] out
  .ok out

/-- A command that prints, and neither reads nor stores. -/
def prints (x : Except Stop Output) (s : Line) (input : List Character) :
    Except Stop (Line × List Character) := do
  let out ← x
  .ok ({ s with output := out }, input)

variable (runTest : Character → Line → List Character → Except Stop (Line × List Character))

/-- `execute_command`, of the string in the array of the shell. The tests of `run_test` are a
parameter: they read from the input, and may store in the array. -/
def executeCommand (s : Line) (input : List Character) : Except Stop (Line × List Character) :=
  if s.buff 0 = 0x65 then
    if memcmp s.buff (CString.bytes echoCommand) 5 ≠ 0 then prints (unknown s.output) s input
    else
      let printed := do
        let (out, _) ← uartPrintf (stringAt s.buff 5) [] s.output
        .ok out
      prints printed s input
  else if s.buff 0 = 0x74 then
    if memcmp s.buff (CString.bytes testCommand) 5 ≠ 0 then prints (unknown s.output) s input
    else runTest (s.buff 5) s input
  else prints (unknown s.output) s input

/-- Why the shell does not come to the next line. -/
inductive ShellStop
  /-- In a function that prints or reads. -/
  | stop (stop : Stop)
  /-- The assertion about `status`. -/
  | status

/-- What a function that prints does in the shell. -/
def inShell {α : Type} (x : Except Stop α) : Except ShellStop α := x.mapError .stop

/-- A round of `shell`: the array, what has been sent, and the input behind the line. -/
def shellRound (s : Line) (input : List Character) : Except ShellStop (Line × List Character) :=
  match uartGetString ioBuffSize { s with output := (uartPuts shellPrompt s.output).1 } input with
  | none => .error (.stop .waits)
  | some (s, status, input) =>
    if status < 0 then .error .status
    else if status > 0 then do
      let (out, _) ← inShell (uartWarning charactersLost [] s.output)
      .ok ({ s with output := out }, input)
    else if (stringAt s.buff 0).chars.length > 0 then inShell (executeCommand runTest s input)
    else .ok (s, input)

/-- So many rounds of `shell`. -/
def shell : ℕ → Line → List Character → Except ShellStop (Line × List Character)
  | 0, s, input => .ok (s, input)
  | n + 1, s, input => do
    let (s, input) ← shellRound runTest s input
    shell n s input

/-! ### What a session is -/

/-- What a command prints that calls no test. -/
def answer (command : List Character) (out : Output) : Except Stop Output :=
  if echoCommand.chars <+: command then do
    let (out, _) ← uartPrintf (stringOf (command.drop 5)) [] out
    .ok out
  else unknown out

/-- What the command `command` does. -/
def perform (command : List Character) (s : Line) (input : List Character) :
    Except Stop (Line × List Character) :=
  if testCommand.chars <+: command then runTest ((command[5]?).getD 0) s input
  else prints (answer command s.output) s input

/-- The character that the earlier lines, the last one in front, have left at an index of the
array. -/
def residue (buff : Memory) (i : ℕ) : List (List Character) → Character
  | [] => buff i
  | L :: earlier =>
    if h : i < L.length then L[i] else if i = L.length + 1 then 0 else residue buff i earlier

/-- The command that is executed for a line: the line, and the character behind it in the array. -/
def heard (buff : Memory) (earlier : List (List Character)) (L : List Character) : List Character :=
  (stringOf (L ++ [residue buff L.length earlier])).chars

/-- What is done for a line. An empty command is not executed. -/
def respond (buff : Memory) (earlier : List (List Character)) (L : List Character) (out : Output) :
    Except Stop Output :=
  if heard buff earlier L = [] then .ok out else answer (heard buff earlier L) out

/-- A session: for every line, with the character that ends it, the prompt, the echo and the
command. -/
def session (buff : Memory) : List (List Character) → List (List Character × Character) → Output →
    Except Stop Output
  | _, [], out => .ok out
  | earlier, (L, t) :: lines, out => do
    let out ← respond buff earlier L (out ++ shellPrompt.chars ++ L ++ [t])
    session buff (L :: earlier) lines out

/-! ### The string in the array -/

section Commands

variable {a b buff : Memory} {size i k : ℕ} {command : List Character}

theorem memcmp_eq_zero_iff : memcmp a b size = 0 ↔ ∀ i < size, a i = b i := by
  unfold memcmp
  cases hfind : (List.range size).find? fun i ↦ a i ≠ b i with
  | none =>
    have hall := List.find?_eq_none.mp hfind
    refine ⟨fun _ i hi ↦ ?_, fun _ ↦ rfl⟩
    simpa using hall i (List.mem_range.mpr hi)
  | some i =>
    have hmem := List.mem_range.mp (List.mem_of_find?_eq_some hfind)
    have hne : a i ≠ b i := by simpa using List.find?_some hfind
    refine iff_of_false ?_ fun h ↦ hne (h i hmem)
    dsimp only
    split_ifs <;> decide

/-- The characters in front of the first zero of an array, and this zero. -/
theorem getElem?_takeWhile (l : List Character) (hi : i ≤ (l.takeWhile (· ≠ 0)).length) :
    (l[i]?).getD 0 = ((l.takeWhile (· ≠ 0))[i]?).getD 0 := by
  induction l generalizing i with
  | nil => rfl
  | cons c l ih =>
    by_cases hc : c = 0
    · rw [List.takeWhile_cons_of_neg (by simpa using hc)] at hi ⊢
      obtain rfl : i = 0 := Nat.le_zero.mp hi
      simpa using hc
    · rw [List.takeWhile_cons_of_pos (by simpa using hc)] at hi ⊢
      cases i with
      | zero => rfl
      | succ i => exact ih (Nat.le_of_succ_le_succ hi)

/-- The array holds the string `command` and its zero. -/
structure HoldsString (buff : Memory) (command : List Character) : Prop where
  bytes : ∀ i ≤ command.length, buff i = (command[i]?).getD 0
  no_zero : 0 ∉ command
  length_lt : command.length < ioBuffSize

theorem eq_of_chars {str str' : CString} (h : str.chars = str'.chars) : str = str' := by
  cases str
  cases str'
  congr

/-- The rest of the string that the array holds. -/
theorem HoldsString.stringAt (h : HoldsString buff command) (hk : k ≤ command.length) :
    (stringAt buff k).chars = command.drop k := by
  have hlength := h.length_lt
  have hread : (read buff k (ioBuffSize - k)).length = ioBuffSize - k := by simp [ByteMemory.read]
  have hbyte : ∀ i (hi : i < (read buff k (ioBuffSize - k)).length),
      (read buff k (ioBuffSize - k))[i] = buff (k + i) := fun i hi ↦ by simp [ByteMemory.read]
  have htake : (read buff k (ioBuffSize - k)).take (command.length - k) = command.drop k := by
    refine List.ext_getElem ?_ fun i hi hi' ↦ ?_
    · rw [List.length_take, List.length_drop, hread]
      omega
    · have hi : k + i < command.length := by
        rw [List.length_drop] at hi'
        omega
      rw [List.getElem_take, hbyte, h.bytes _ hi.le, List.getElem_drop, List.getElem?_eq_getElem hi,
        Option.getD_some]
  have hdrop : (read buff k (ioBuffSize - k)).drop (command.length - k) =
      0 :: (read buff k (ioBuffSize - k)).drop (command.length - k + 1) := by
    have hlt : command.length - k < (read buff k (ioBuffSize - k)).length := by omega
    rw [List.drop_eq_getElem_cons hlt, hbyte, Nat.add_sub_cancel' hk, h.bytes _ le_rfl,
      List.getElem?_eq_none le_rfl, Option.getD_none]
  have hzero : ∀ c ∈ command.drop k, decide (c ≠ 0) = true := by
    rintro c hc
    refine decide_eq_true ?_
    rintro rfl
    exact h.no_zero (List.mem_of_mem_drop hc)
  change (read buff k (ioBuffSize - k)).takeWhile (· ≠ 0) = _
  rw [← List.take_append_drop (command.length - k) (read buff k (ioBuffSize - k)), htake, hdrop,
    List.takeWhile_append_of_pos hzero, List.takeWhile_cons_of_neg (by decide), List.append_nil]

/-- A comparison with the bytes of a string, which has no zero in them. -/
theorem HoldsString.memcmp_eq_zero_iff (h : HoldsString buff command) (str : CString) :
    memcmp buff (CString.bytes str) str.chars.length = 0 ↔ str.chars <+: command := by
  rw [Text.memcmp_eq_zero_iff]
  constructor
  · intro hall
    have hlength : str.chars.length ≤ command.length := by
      by_contra hlt
      have hend := hall command.length (not_le.mp hlt)
      rw [h.bytes _ le_rfl, List.getElem?_eq_none le_rfl, Option.getD_none, CString.bytes,
        List.getElem?_eq_getElem (not_le.mp hlt), Option.getD_some] at hend
      exact str.no_zero (hend ▸ List.getElem_mem _)
    refine List.prefix_iff_eq_take.mpr (List.ext_getElem ?_ fun i hi hi' ↦ ?_)
    · rw [List.length_take, Nat.min_eq_left hlength]
    · have hbyte := hall i hi
      rw [h.bytes _ (hi.le.trans hlength), CString.bytes, List.getElem?_eq_getElem hi,
        List.getElem?_eq_getElem (hi.trans_le hlength), Option.getD_some, Option.getD_some] at hbyte
      rw [List.getElem_take, hbyte]
  · rintro ⟨rest, rfl⟩ i hi
    rw [h.bytes _ (by rw [List.length_append]; omega), List.getElem?_append_left hi]
    rfl

/-- What `execute_command` does depends on the string in the array. -/
theorem HoldsString.executeCommand {s : Line} (h : HoldsString s.buff command)
    (input : List Character) :
    executeCommand runTest s input = perform runTest command s input := by
  have hfirst : s.buff 0 = (command[0]?).getD 0 := h.bytes 0 (Nat.zero_le _)
  have hecho : memcmp s.buff (CString.bytes echoCommand) 5 = 0 ↔ echoCommand.chars <+: command :=
    h.memcmp_eq_zero_iff echoCommand
  have htest : memcmp s.buff (CString.bytes testCommand) 5 = 0 ↔ testCommand.chars <+: command :=
    h.memcmp_eq_zero_iff testCommand
  unfold Text.executeCommand perform answer
  by_cases ht : testCommand.chars <+: command
  · have hlength : 5 ≤ command.length := ht.length_le
    have hhead : s.buff 0 = 0x74 := by
      obtain ⟨rest, rfl⟩ := ht
      exact hfirst
    rw [if_neg (by rw [hhead]; decide), if_pos hhead, if_neg (not_not.mpr (htest.mpr ht)),
      if_pos ht, h.bytes 5 hlength]
  · by_cases he : echoCommand.chars <+: command
    · have hlength : 5 ≤ command.length := he.length_le
      have hstring : Text.stringAt s.buff 5 = stringOf (command.drop 5) := by
        refine eq_of_chars ((h.stringAt hlength).trans (chars_stringOf ?_).symm)
        exact fun hmem ↦ h.no_zero (List.mem_of_mem_drop hmem)
      have hhead : s.buff 0 = 0x65 := by
        obtain ⟨rest, rfl⟩ := he
        exact hfirst
      rw [if_pos hhead, if_neg (not_not.mpr (hecho.mpr he)), if_neg ht, if_pos he, hstring]
    · rw [if_pos (mt hecho.mp he), if_pos (mt htest.mp ht), if_neg ht, if_neg he]
      split_ifs <;> rfl

/-- A string that fits is held by an array that begins with it. -/
theorem holdsString_bytes (str : CString) (h : str.chars.length < ioBuffSize) :
    HoldsString (CString.bytes str) str.chars := ⟨fun _ _ ↦ rfl, str.no_zero, h⟩

end Commands

/-! ### A line -/

section Rounds

variable {L input rest : List Character} {c t : Character} {size i : ℕ} {buff : Memory}
  {earlier : List (List Character)} {out : Output} {written : List ℕ}

theorem eq_cons_drop (h : c :: input = L ++ t :: rest) : L ++ [t] = c :: (L ++ [t]).drop 1 := by
  cases L with
  | nil =>
    obtain ⟨rfl, -⟩ := List.cons.inj h
    rfl
  | cons d L =>
    obtain ⟨rfl, -⟩ := List.cons.inj h
    rfl

/-- A line for which the array has room is echoed. -/
theorem storeLoop_output (hL : ∀ c ∈ L, ¬ EndsLine c) (ht : EndsLine t)
    (hinput : c :: input = L ++ t :: rest) (hroom : i + L.length ≤ Memory.sub64 size 1) (s : Line) :
    ∃ s' j,
      storeLoop size input c i s = some (s', j, t, rest) ∧
      s'.output = s.output ++ (L ++ [t]).drop 1 := by
  induction L generalizing i c input s with
  | nil =>
    obtain ⟨rfl, rfl⟩ := List.cons.inj hinput
    refine ⟨s, i, ?_, (List.append_nil _).symm⟩
    unfold storeLoop
    rw [if_neg fun h ↦ h.1 ht]
  | cons b L ih =>
    obtain ⟨rfl, htail⟩ : c = b ∧ input = L ++ t :: rest := List.cons.inj hinput
    obtain ⟨next, input, rfl⟩ := exists_next htail
    rw [List.length_cons] at hroom
    obtain ⟨s', j, hloop, houtput⟩ := ih (fun d hd ↦ hL d (List.mem_cons_of_mem c hd)) htail
      (show i + 1 + L.length ≤ Memory.sub64 size 1 by omega) ((s.store i c).echo next)
    refine ⟨s', j, ?_, ?_⟩
    · unfold storeLoop
      rw [if_pos ⟨hL c List.mem_cons_self, by omega⟩]
      exact hloop
    · have hecho : ((s.store i c).echo next).output = s.output ++ [next] := rfl
      rw [houtput, hecho, List.append_assoc, List.singleton_append, ← eq_cons_drop htail]
      rfl

/-- The array after a line. -/
theorem write_line (buff : Memory) (earlier : List (List Character)) (L : List Character) :
    write (write (fun i ↦ residue buff i earlier) 0 L) (L.length + 1) [0] = fun i ↦
      residue buff i (L :: earlier) := by
  funext i
  rw [residue]
  by_cases hlt : i < L.length
  · rw [write_of_not_mem (.inl (by omega)), dif_pos hlt, write, if_pos (Nat.zero_le i),
      Nat.sub_zero, List.getElem?_eq_getElem hlt, Option.getD_some]
  · rw [dif_neg hlt]
    by_cases heq : i = L.length + 1
    · rw [if_pos heq, heq, write, if_pos le_rfl, Nat.sub_self]
      rfl
    · rw [if_neg heq, write_of_not_mem, write_of_not_mem (.inr (by omega))]
      rw [List.length_singleton]
      omega

/-- What is read of a line that leaves two places of the array. -/
theorem uartGetString_fits (hL : ∀ c ∈ L, ¬ EndsLine c) (ht : EndsLine t)
    (hfits : L.length + 2 ≤ ioBuffSize) (rest : List Character) (buff : Memory)
    (earlier : List (List Character)) (out : Output) (written : List ℕ) : ∃ written',
      uartGetString ioBuffSize ⟨out, fun i ↦ residue buff i earlier, written⟩ (L ++ t :: rest) =
        some (⟨out ++ L ++ [t], fun i ↦ residue buff i (L :: earlier), written'⟩, 0, rest) ∧
      ∀ i ∈ written', i ∈ written ∨ i < ioBuffSize := by
  have hroom : L.length ≤ ioBuffSize - 1 := by omega
  obtain ⟨s', m, hrun, hbuff, hwritten, hm⟩ := uartGetString_spec rest
    (show 1 ≤ ioBuffSize by decide)
    (show ioBuffSize < 2 ^ 64 by decide) hL ht ⟨out, fun i ↦ residue buff i earlier, written⟩
  rw [List.take_of_length_le hroom, Nat.min_eq_left hroom, write_line] at hbuff
  rw [Nat.min_eq_left hroom] at hwritten
  have houtput : s'.output = out ++ L ++ [t] := by
    obtain ⟨c, input, hinput⟩ := exists_next (show L ++ t :: rest = L ++ t :: rest from rfl)
    have hsub : 0 + L.length ≤ Memory.sub64 ioBuffSize 1 := by
      rw [Memory.sub64_eq (by decide) (by decide)]
      omega
    obtain ⟨u, j, hloop, hu⟩ := storeLoop_output hL ht hinput.symm hsub
      (Line.echo ⟨out, fun i ↦ residue buff i earlier, written⟩ c)
    rw [hinput, uartGetString, hloop] at hrun
    have hdiscard : discardLoop rest t 0 = some (0, rest) := by
      unfold discardLoop
      rw [if_neg (not_not.mpr ht)]
    change (discardLoop rest t 0).bind _ = _ at hrun
    rw [hdiscard] at hrun
    obtain rfl : u.store (j + 1) 0 = s' := congrArg Prod.fst (Option.some.inj hrun)
    refine hu.trans ?_
    change out ++ [c] ++ (L ++ [t]).drop 1 = _
    rw [List.append_assoc, List.singleton_append, ← eq_cons_drop hinput.symm, List.append_assoc]
  refine ⟨s'.written, ?_, fun i hi ↦ ?_⟩
  · rw [hrun, hm hroom, ← houtput, ← hbuff]
  · rw [hwritten] at hi
    simp only [List.mem_append, List.mem_range'_1, List.mem_singleton] at hi
    rcases hi with (hi | hi) | hi
    · exact .inl hi
    · exact .inr (by omega)
    · exact .inr (by omega)

/-- The array after a line holds the command that is executed for the line. -/
theorem holdsString_heard (hfits : L.length + 2 ≤ ioBuffSize) :
    HoldsString (fun i ↦ residue buff i (L :: earlier)) (heard buff earlier L) := by
  have hle : (heard buff earlier L).length ≤ L.length + 1 :=
    (List.takeWhile_sublist _).length_le.trans (List.length_append ..).le
  refine ⟨fun i hi ↦ ?_, CString.no_zero _, by omega⟩
  refine Eq.trans ?_ (getElem?_takeWhile (L ++ [residue buff L.length earlier]) hi)
  rw [residue]
  split_ifs with hlt heq
  · rw [List.getElem?_append_left hlt, List.getElem?_eq_getElem hlt, Option.getD_some]
  · rw [List.getElem?_eq_none, Option.getD_none]
    rw [List.length_append, List.length_singleton, heq]
  · obtain rfl : i = L.length := by omega
    rw [List.getElem?_concat_length, Option.getD_some]

/-- A line that does not begin with `test` calls no test, whatever character is left behind it. -/
theorem heard_calls_no_test (htest : ¬ codes ['t', 'e', 's', 't'] <+: L) :
    ¬ testCommand.chars <+: heard buff earlier L := by
  intro hcalls
  obtain ⟨tail, hline⟩ : testCommand.chars <+: L ++ [residue buff L.length earlier] :=
    hcalls.trans (List.takeWhile_prefix _)
  have hlength := congrArg List.length hline
  have hfive : testCommand.chars.length = 5 := rfl
  rw [List.length_append, List.length_append, List.length_singleton, hfive] at hlength
  refine htest (List.prefix_iff_eq_take.mpr ?_)
  have htake := congrArg (List.take 4) hline
  rw [List.take_append_of_le_length (by omega), List.take_append_of_le_length (by omega)] at htake
  exact htake

/-- A round of the shell is a step of the session. -/
theorem shellRound_line (hL : ∀ c ∈ L, ¬ EndsLine c) (ht : EndsLine t)
    (hfits : L.length + 2 ≤ ioBuffSize) (htest : ¬ codes ['t', 'e', 's', 't'] <+: L)
    (rest : List Character) (buff : Memory) (earlier : List (List Character)) (out : Output)
    (written : List ℕ) :
    ∃ written', shellRound runTest ⟨out, fun i ↦ residue buff i earlier, written⟩ (L ++ t :: rest) =
        (inShell (respond buff earlier L (out ++ shellPrompt.chars ++ L ++ [t])) >>= fun out' ↦
          .ok (⟨out', fun i ↦ residue buff i (L :: earlier), written'⟩, rest)) ∧
      ∀ i ∈ written', i ∈ written ∨ i < ioBuffSize := by
  obtain ⟨written', hread, hwritten⟩ :=
    uartGetString_fits hL ht hfits rest buff earlier (out ++ shellPrompt.chars) written
  refine ⟨written', ?_, hwritten⟩
  have hholds : HoldsString (fun i ↦ residue buff i (L :: earlier)) (heard buff earlier L) :=
    holdsString_heard hfits
  have hstring : (stringAt (fun i ↦ residue buff i (L :: earlier)) 0).chars =
      heard buff earlier L :=
    hholds.stringAt (Nat.zero_le _)
  unfold shellRound
  rw [uartPuts_eq]
  dsimp only
  rw [hread]
  dsimp only
  rw [if_neg (lt_irrefl 0), if_neg (lt_irrefl 0), hstring, respond]
  by_cases hempty : heard buff earlier L = []
  · rw [if_pos hempty, if_neg (by rw [hempty]; decide)]
    rfl
  · have hexecute : executeCommand runTest ⟨out ++ shellPrompt.chars ++ L ++ [t],
        fun i ↦ residue buff i (L :: earlier), written'⟩ rest = _ :=
        HoldsString.executeCommand runTest hholds rest
    rw [if_neg hempty, if_pos (List.length_pos_iff.mpr hempty), hexecute, perform,
      if_neg (heard_calls_no_test htest)]
    unfold prints inShell
    cases answer (heard buff earlier L) (out ++ shellPrompt.chars ++ L ++ [t]) <;> rfl

/-- The characters of the lines. -/
def typed (lines : List (List Character × Character)) : List Character :=
  lines.flatMap fun l ↦ l.1 ++ [l.2]

/-- The lines end, each of them leaves two places of the array, and none begins with `test`. -/
def Fit (lines : List (List Character × Character)) : Prop :=
  ∀ l ∈ lines, (∀ c ∈ l.1, ¬ EndsLine c) ∧ EndsLine l.2 ∧ l.1.length + 2 ≤ ioBuffSize ∧
    ¬ codes ['t', 'e', 's', 't'] <+: l.1

/-- The rounds of the shell are the session. -/
theorem shell_lines {lines : List (List Character × Character)} (hlines : Fit lines)
    (rest : List Character) (buff : Memory) (earlier : List (List Character)) (out : Output)
    (written : List ℕ) : ∃ written',
      shell runTest lines.length ⟨out, fun i ↦ residue buff i earlier, written⟩
          (typed lines ++ rest) =
        (inShell (session buff earlier lines out) >>= fun out' ↦
          .ok (⟨out', fun i ↦ residue buff i (lines.reverse.map Prod.fst ++ earlier), written'⟩,
            rest)) ∧
      ∀ i ∈ written', i ∈ written ∨ i < ioBuffSize := by
  induction lines generalizing earlier out written with
  | nil => exact ⟨written, rfl, fun i hi ↦ .inl hi⟩
  | cons l lines ih =>
    obtain ⟨⟨hL, ht, hfits, htest⟩, hrest⟩ := List.forall_mem_cons.mp hlines
    obtain ⟨L, t⟩ := l
    have htyped : typed ((L, t) :: lines) ++ rest = L ++ t :: (typed lines ++ rest) := by
      simp [typed]
    have hearlier : ((L, t) :: lines).reverse.map Prod.fst ++ earlier =
        lines.reverse.map Prod.fst ++ L :: earlier := by simp
    obtain ⟨written', hround, hwritten⟩ :=
      shellRound_line runTest hL ht hfits htest (typed lines ++ rest) buff earlier out written
    rw [htyped, hearlier, List.length_cons, shell, hround, session]
    cases respond buff earlier L (out ++ shellPrompt.chars ++ L ++ [t]) with
    | error stop => exact ⟨written, rfl, fun i hi ↦ .inl hi⟩
    | ok out' =>
      obtain ⟨written'', hshell, hwritten'⟩ := ih hrest (L :: earlier) out' written'
      refine ⟨written'', hshell, fun i hi ↦ ?_⟩
      exact (hwritten' i hi).elim (hwritten i) .inr

/-- Whatever lines are typed, as long as each leaves two places of the array and calls no test, the
shell executes for every line the line and the character that the earlier lines have left behind it,
if this is not a zero, and no other command. Before it, it prints the prompt and the echo of the
line. It stores in the array alone, and reads nothing behind the last line. -/
theorem shell_executes {lines : List (List Character × Character)} (hlines : Fit lines)
    (rest : List Character) (buff : Memory) (out : Output) : ∃ written,
      shell runTest lines.length ⟨out, buff, []⟩ (typed lines ++ rest) =
        (inShell (session buff [] lines out) >>= fun out' ↦
          .ok (⟨out', fun i ↦ residue buff i (lines.reverse.map Prod.fst), written⟩, rest)) ∧
      ∀ i ∈ written, i < ioBuffSize := by
  obtain ⟨written, hshell, hwritten⟩ := shell_lines runTest hlines rest buff [] out []
  rw [List.append_nil] at hshell
  exact ⟨written, hshell, fun i hi ↦ (hwritten i hi).resolve_left List.not_mem_nil⟩

/-- A line is executed as it was typed exactly if the earlier lines have left a zero behind it. -/
theorem heard_eq_iff (hzero : 0 ∉ L) :
    heard buff earlier L = L ↔ residue buff L.length earlier = 0 := by
  have hchars : ∀ c ∈ L, decide (c ≠ 0) = true := by
    rintro c hc
    refine decide_eq_true ?_
    rintro rfl
    exact hzero hc
  change (L ++ [residue buff L.length earlier]).takeWhile (· ≠ 0) = L ↔ _
  rw [List.takeWhile_append_of_pos hchars]
  by_cases h : residue buff L.length earlier = 0
  · rw [List.takeWhile_cons_of_neg (by simpa using h), List.append_nil]
    exact iff_of_true rfl h
  · rw [List.takeWhile_cons_of_pos (by simpa using h)]
    refine iff_of_false (fun heq ↦ ?_) h
    simpa using congrArg List.length heq

end Rounds

/-- `echo abc` and `echo `, with carriage returns. -/
def twoEchoes : List (List Character × Character) :=
  [(codes ['e', 'c', 'h', 'o', ' ', 'a', 'b', 'c'], 0x0d), (codes ['e', 'c', 'h', 'o', ' '], 0x0d)]

/-- The second command is `echo a`. -/
theorem shell_executes_twoEchoes :
    heard (fun _ ↦ 0) [codes ['e', 'c', 'h', 'o', ' ', 'a', 'b', 'c']]
      (codes ['e', 'c', 'h', 'o', ' ']) =
      codes ['e', 'c', 'h', 'o', ' ', 'a'] ∧
    ∃ written, shell (fun _ s input ↦ .ok (s, input)) twoEchoes.length ⟨[], fun _ ↦ 0,
      []⟩ (typed twoEchoes ++ []) =
        (inShell (session (fun _ ↦ 0) [] twoEchoes []) >>= fun out' ↦
          .ok (⟨out', fun i ↦ residue (fun _ ↦ 0) i (twoEchoes.reverse.map Prod.fst), written⟩,
          [])) ∧
      ∀ i ∈ written, i < ioBuffSize :=
  ⟨by decide, shell_executes _ (by unfold Fit; decide) [] _ []⟩

/-! ### The command `echo` -/

section Echo

variable {p : Printing Output}

/-- The length of what has been sent and of what is left of the format. -/
def Printing.room (p : Printing Output) : ℕ := p.out.length + p.buff.length + p.format.length

theorem length_uartPuts (buff : List Character) (out : Output) :
    (uartPuts (stringOf buff) out).1.length ≤ out.length + buff.length := by
  rw [uartPuts_eq, List.length_append]
  exact Nat.add_le_add_left (List.takeWhile_sublist _).length_le _

theorem flush_length (bound : ℕ) :
    Yields (flush uartHandlers bound p) fun r ↦ r.1.length ≤ p.out.length + p.buff.length := by
  unfold flush
  refine Yields.ite (fun _ ↦ Yields.ite (fun _ ↦ .ok ?_) fun _ ↦ .error) fun _ ↦
    .ok (Nat.le_add_right _ _)
  exact length_uartPuts p.buff p.out

/-- Without arguments there is no conversion but that of the percent sign. -/
theorem conversion_nil (c : Character) :
    Yields (conversion c []) fun r ↦ r = none ∨ r = some (.percent, []) := by
  unfold conversion
  refine Yields.ite (fun _ ↦ .ok (.inr rfl)) fun _ ↦ ?_
  iterate 7 refine Yields.ite (fun _ ↦ .error) fun _ ↦ ?_
  exact Yields.ite (fun _ ↦ .error) fun _ ↦ .ok (.inl rfl)

/-- A round does not print more than the format has, and less at a percent sign. -/
def Shrinks (p : Printing Output) : Printing Output ⊕ Output × ℤ → Prop
  | .inl q => q.args = [] ∧ q.room ≤ p.room ∧ (0x25 ∈ p.format → 0x25 ∈ q.format ∨ q.room < p.room)
  | .inr (out, _) => out.length ≤ p.room ∧ (0x25 ∈ p.format → out.length < p.room)

theorem printfStep_shrinks (hargs : p.args = []) :
    Yields (printfStep uartHandlers false p) (Shrinks p) := by
  unfold printfStep
  cases hformat : p.format with
  | nil =>
    refine Yields.bind (flush_length _) fun r hr ↦ .ok ⟨hr.trans (Nat.le_add_right _ _),
      fun hmem ↦ ?_⟩
    exact absurd (hformat ▸ hmem) List.not_mem_nil
  | cons c rest =>
    have hroom : p.room = p.out.length + p.buff.length + (rest.length + 1) := by
      rw [Printing.room, hformat]; rfl
    have hbreak : ¬ BreaksLine false c rest := fun h ↦ Bool.false_ne_true h.2.2
    dsimp only
    refine Yields.ite (fun hliteral ↦ ?_) fun hpercent ↦ ?_
    · -- A percent sign is in the rest.
      have hrest : 0x25 ∈ p.format → 0x25 ∈ rest := by
        rw [hformat]
        exact fun hmem ↦ (List.mem_cons.mp hmem).resolve_left fun heq ↦ hliteral.1 heq.symm
      have hgoes : ∀ q : Printing Output, q.args = p.args → q.format = rest →
          q.out.length + q.buff.length ≤ p.out.length + (p.buff ++ [c]).length →
          Shrinks p (.inl q) := by
        intro q hq hformat' hle
        rw [List.length_append, List.length_singleton] at hle
        refine ⟨hq.trans hargs, ?_, fun hmem ↦ .inl (hformat' ▸ hrest hmem)⟩
        rw [hroom, Printing.room, hformat']
        omega
      refine Yields.ite (fun _ ↦ ?_) fun _ ↦ .ok (hgoes _ rfl rfl le_rfl)
      exact .ok (hgoes _ rfl rfl (length_uartPuts (p.buff ++ [c]) p.out))
    · obtain rfl : c = 0x25 := by
        by_contra hc
        exact hpercent ⟨hc, hbreak⟩
      refine Yields.bind (flush_length _) fun r hr ↦ ?_
      refine Yields.ite (fun h ↦ absurd h hbreak) fun _ ↦ ?_
      have hlt : r.1.length < p.room := by omega
      cases rest with
      | nil => exact .ok ⟨hlt.le, fun _ ↦ hlt⟩
      | cons d rest =>
        rw [hargs]
        refine Yields.bind (conversion_nil d) fun converted hconverted ↦ ?_
        rcases hconverted with rfl | rfl
        · exact .ok ⟨hlt.le, fun _ ↦ hlt⟩
        · -- Two characters give one.
          have hsent : (uartPutc 0x25 r.1).length = r.1.length + 1 := List.length_append
          have hless : Printing.room ⟨rest, [], [], Memory.toInt32 (r.2 + 0), uartPutc 0x25 r.1⟩ <
              p.room := by
            change (uartPutc 0x25 r.1).length + 0 + rest.length < p.room
            rw [hroom, List.length_cons]
            omega
          exact .ok ⟨rfl, hless.le, fun _ ↦ .inr hless⟩

theorem printfLoop_shrinks (n : ℕ) (hargs : p.args = []) :
    Yields (printfLoop uartHandlers false n p) fun r ↦
    r.1.length ≤ p.room ∧ (0x25 ∈ p.format → r.1.length < p.room) := by
  induction n generalizing p with
  | zero => exact .error
  | succ n ih =>
    refine Yields.bind (printfStep_shrinks hargs) fun r hr ↦ ?_
    cases r with
    | inl q =>
      obtain ⟨hq, hle, hpercent⟩ := hr
      refine (ih hq).mono fun r hr ↦ ⟨hr.1.trans hle, fun hmem ↦ ?_⟩
      rcases hpercent hmem with hmem' | hlt
      · exact (hr.2 hmem').trans_le hle
      · exact hr.1.trans_lt hlt
    | inr r => exact .ok hr

/-- A format without a percent sign is printed as it is. -/
theorem expand_literal {chars : List Character} (h : 0x25 ∉ chars) :
    expand false chars [] = .ok (chars.map .literal, true) := by
  induction chars with
  | nil => rfl
  | cons c chars ih =>
    obtain ⟨hc, hchars⟩ := not_or.mp (mt List.mem_cons.mpr h)
    have hbreak : ¬ BreaksLine false c chars := fun h ↦ Bool.false_ne_true h.2.2
    unfold expand
    rw [if_neg fun heq : c = 0x25 ↦ hc heq.symm, ih hchars, if_neg hbreak]
    rfl

/-- The command `echo` prints its argument exactly if there is no percent sign in it: it takes it as
a format, for which there are no arguments. -/
theorem echo_prints_iff {s : Line} (argument : CString)
    (h : HoldsString s.buff (echoCommand.chars ++ argument.chars)) (input : List Character) :
    executeCommand runTest s input = .ok ({ s with output := s.output ++ argument.chars }, input) ↔
      0x25 ∉ argument.chars := by
  have hformat : stringOf ((echoCommand.chars ++ argument.chars).drop 5) = argument :=
    eq_of_chars (chars_stringOf argument.no_zero)
  have htest : ¬ testCommand.chars <+: echoCommand.chars ++ argument.chars := by
    rintro ⟨rest, heq⟩
    exact absurd (List.cons.inj heq).1 (by decide)
  have hanswer : executeCommand runTest s input =
      prints (uartPrintf argument [] s.output >>= fun r ↦ .ok r.1) s input := by
    rw [h.executeCommand, perform, if_neg htest, answer, if_pos (List.prefix_append _ _), hformat]
  rw [hanswer]
  constructor
  · intro hok hmem
    obtain ⟨out, hout, hline⟩ := bind_eq_ok.mp hok
    obtain ⟨r, hr, heq⟩ := bind_eq_ok.mp hout
    have hlt : r.1.length < _ := (printfLoop_shrinks _ rfl r hr).2 hmem
    have houtput : out = s.output ++ argument.chars :=
      congrArg (fun x ↦ x.1.output) (Except.ok.inj hline)
    rw [Except.ok.inj heq, houtput, Printing.room, List.length_append] at hlt
    exact absurd hlt (lt_irrefl _)
  · intro hliteral
    rw [uartPrintf_eq (expand_literal hliteral), prints, ok_bind, ok_bind, textOf, List.flatMap_map]
    exact congrArg (fun chars ↦ Except.ok ({ s with
      output := s.output ++ chars }, input)) (List.flatMap_singleton' _)

/-- `echo 50%` does not print its argument. -/
theorem echo_prints_iff_percent :
    executeCommand (fun _ s input ↦ .ok (s, input))
        ⟨[], CString.bytes ⟨codes ['e', 'c', 'h', 'o', ' ', '5', '0', '%'], by decide⟩, []⟩ [] =
      .ok (⟨[] ++ codes ['5', '0', '%'],
        CString.bytes ⟨codes ['e', 'c', 'h', 'o', ' ', '5', '0', '%'], by decide⟩, []⟩,
        []) ↔ 0x25 ∉ codes ['5', '0', '%'] :=
  echo_prints_iff _ ⟨codes ['5', '0', '%'], by decide⟩
    (holdsString_bytes ⟨codes ['e', 'c', 'h', 'o', ' ', '5', '0', '%'], by decide⟩ (by decide)) []

end Echo

end SysresOs.Text
