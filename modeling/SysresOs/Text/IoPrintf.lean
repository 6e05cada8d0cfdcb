import SysresOs.Text.LineInput
import SysresOs.Text.UartPrintf

/-!
# Printing through the I/O manager

A process prints by messages to the I/O manager: a character, a number or a string of at most 499
characters in a request of 520 bytes. The manager takes it out of the message and prints it on the
serial line. What `io_printf` makes the manager print is what `uart_printf` prints, as long as no
string is longer (`samePrinted_of_short`); `io_puts` refuses a longer one.
-/

set_option autoImplicit false
set_option relaxedAutoImplicit false

namespace SysresOs.Text

open SysresOs.ByteMemory SysresOs.Outcome

open SysresOs.Files (CString Buff ioBuffSize field field_append field_toBytes stringAt_stored)

open SysresOs.Memory (toInt32 toInt32_eq)

/-! ### Requests -/

/-- `io_request_t`. The gaps are the bytes in front of `data` and behind `buff` that align the
structure. -/
structure IoRequest where
  code : BitVec 32
  gap : BitVec 32
  data : BitVec 64
  buff : Buff
  gapEnd : BitVec 32

/-- The bytes of a request. -/
def IoRequest.bytes (r : IoRequest) : List (BitVec 8) :=
  toBytes 4 r.code.toNat ++ (toBytes 4 r.gap.toNat ++ (toBytes 8 r.data.toNat ++
    (r.buff.bytes ++ toBytes 4 r.gapEnd.toNat)))

/-- A request whose other members are initialised with zeros. -/
def IoRequest.init (code : BitVec 32) (data : BitVec 64) : IoRequest := ⟨code, 0, data, .zero, 0⟩

/-! ### The manager -/

/-- The serial line: what has been sent, the response buffer of the manager, and the characters
still to come. -/
structure Terminal where
  line : Line
  input : List Character

/-- The characters sent are those of a function that prints. -/
def Terminal.print (t : Terminal) (out : Output) : Terminal :=
  { t with line := { t.line with output := out } }

/-- The `switch` of `main_io_manager` for a message that was received, without its log: the status
with which it acknowledges the message. -/
def ioService (message : List (BitVec 8)) (t : Terminal) : Except Stop (Terminal × ℤ) :=
  let data := BitVec.ofNat 64 (field message 8 8)
  match field message 0 4 with
  | 0 => .ok (t.print (uartPutc (data.setWidth 8) t.line.output), 0)
  | 1 => do
    let (out, status) ← uartPutInt data (field message 16 1) (field message 17 1 ≠ 0)
      (field message 18 1 ≠ 0) t.line.output
    .ok (t.print out, status)
  | 2 =>
    let (out, status) := uartPuts (stringOf (message.drop 16)) t.line.output
    .ok (t.print out, status)
  | 3 =>
    match uartGetString ioBuffSize t.line t.input with
    | none => .error .waits
    | some (line, status, input) => .ok (⟨line, input⟩, status)
  | _ => .ok (t, -1)

/-! ### The library -/

/-- `send` to the manager, which serves the message: at most `BUFF_SIZE` bytes of it arrive. -/
def ioSend (request : IoRequest) (t : Terminal) : Except Stop (Terminal × ℤ) :=
  ioService (request.bytes.take Proc.buffSize) t

/-- `io_putc`. -/
def ioPutc (c : Character) (t : Terminal) : Except Stop Terminal := do
  let (t, _) ← ioSend (.init 0 (c.setWidth 64)) t
  .ok t

/-- `io_puts`. The request is not initialised: `stack` is what is there. -/
def ioPuts (stack : IoRequest) (str : CString) (t : Terminal) : Except Stop (Terminal × ℤ) :=
  let size := toInt32 str.strsize
  if hlarge : size > ioBuffSize then .ok (t, -1)
  else if hnegative : size < 0 then .error .overrun
  else
    have hfits : (str.stored.take size.toNat).length ≤ ioBuffSize := by
      rw [List.length_take]
      omega
    ioSend { stack with code := 2, buff := stack.buff.put (str.stored.take size.toNat) hfits } t

/-- `io_put_int`. -/
def ioPutInt (x : BitVec 64) (base : ℕ) (unsign upperHexa : Bool) (t : Terminal) :
    Except Stop (Terminal × ℤ) :=
  let request := IoRequest.init 1 x
  if base > (1 <<< 8) - 1 then .ok (t, -1)
  else
    let settings :=
      [BitVec.ofNat 8 base, (BitVec.ofBool unsign).setWidth 8, (BitVec.ofBool upperHexa).setWidth 8]
    ioSend { request with buff := request.buff.put settings (Nat.le_of_ble_eq_true rfl) } t

/-- The functions of the library, with what is on the stack of the process for `io_puts`. -/
def ioHandlers (stack : Terminal → IoRequest) : Handlers Terminal where
  putc := ioPutc
  puts str t := ioPuts (stack t) str t
  putInt := ioPutInt

/-- `io_printf`. -/
def ioPrintf (stack : Terminal → IoRequest) (format : CString) (args : List VaArg) (t : Terminal) :
    Except Stop (Terminal × ℤ) :=
  internalPrintf (ioHandlers stack) false format args t

/-! ### Messages -/

namespace IoRequest

variable (r : IoRequest)

theorem length_bytes : r.bytes.length = 520 := by
  simp only [bytes, List.length_append, length_toBytes, r.buff.length_eq]
  rfl

/-- The message fits into the buffer of the manager. -/
theorem take_bytes : r.bytes.take Proc.buffSize = r.bytes :=
  List.take_of_length_le (r.length_bytes.trans_le (by decide))

theorem field_code : field r.bytes 0 4 = r.code.toNat :=
  field_toBytes (r.code.isLt.trans_le (by decide)) _

theorem field_data : field r.bytes 8 8 = r.data.toNat := by
  rw [bytes, field_append (length_toBytes 4 _) 4 8, field_append (length_toBytes 4 _) 0 8]
  exact field_toBytes (r.data.isLt.trans_le (by decide)) _

theorem drop_bytes : r.bytes.drop 16 = r.buff.bytes ++ toBytes 4 r.gapEnd.toNat := by
  have hdrop : ∀ (n v : ℕ) (l : List (BitVec 8)), (toBytes n v ++ l).drop n = l := fun n v l ↦
    List.drop_left' (length_toBytes n v)
  rw [show (16 : ℕ) = 4 + (4 + 8) from rfl, ← List.drop_drop, ← List.drop_drop, bytes,
    hdrop, hdrop, hdrop]

/-- A byte of the buffer. -/
theorem field_buff {i : ℕ} {c : BitVec 8} (hc : r.buff.bytes[i]? = some c) :
    field r.bytes (16 + i) 1 = c.toNat := by
  obtain ⟨hi, hget⟩ := List.getElem?_eq_some_iff.mp hc
  have hdrop : (r.buff.bytes ++ toBytes 4 r.gapEnd.toNat).drop i =
      c :: (r.buff.bytes ++ toBytes 4 r.gapEnd.toNat).drop (i + 1) := by
    rw [List.drop_eq_getElem_cons (by rw [List.length_append]; omega), List.getElem_append_left hi,
      hget]
  rw [field, ← List.drop_drop, r.drop_bytes, hdrop, List.take_succ_cons, List.take_zero]
  exact Nat.add_zero _

end IoRequest

/-! ### What the manager prints -/

section Service

variable {t : Terminal} {out : Output} {n : ℤ}

theorem ioPutc_eq (c : Character) (t : Terminal) :
    ioPutc c t = .ok (t.print (uartPutc c t.line.output)) := by
  have hcode : (IoRequest.init 0 (c.setWidth 64)).code.toNat = 0 := rfl
  have hdata : ((IoRequest.init 0 (c.setWidth 64)).data).setWidth 8 = c := by
    change (c.setWidth 64).setWidth 8 = c
    rw [BitVec.setWidth_setWidth_of_le _ (by decide), BitVec.setWidth_eq]
  rw [ioPutc, ioSend, IoRequest.take_bytes, ioService, IoRequest.field_code, IoRequest.field_data,
    BitVec.ofNat_toNat, BitVec.setWidth_eq, hcode]
  dsimp only
  rw [hdata]
  rfl

/-- A request to print a string. -/
theorem ioSend_puts {r : IoRequest} {str : CString} {l : List (BitVec 8)} (hcode : r.code = 2)
    (hbuff : r.buff.bytes = str.stored ++ l) (t : Terminal) :
    ioSend r t = .ok (t.print (t.line.output ++ str.chars), 0) := by
  have hchars : (stringOf (r.bytes.drop 16)).chars = str.chars := by
    rw [r.drop_bytes, hbuff, List.append_assoc]
    exact stringAt_stored str _
  rw [ioSend, IoRequest.take_bytes, ioService, IoRequest.field_code, hcode]
  change Except.ok (t.print (uartPuts (stringOf (r.bytes.drop 16)) t.line.output).1,
    (uartPuts (stringOf (r.bytes.drop 16)) t.line.output).2) = _
  rw [uartPuts_eq, hchars]

/-- A request to print a number. -/
theorem ioSend_putInt {r : IoRequest} {base unsign upperHexa : BitVec 8} {l : List (BitVec 8)}
    (hcode : r.code = 1) (hbuff : r.buff.bytes = base :: unsign :: upperHexa :: l) (t : Terminal) :
    ioSend r t =
      (uartPutInt r.data base.toNat (unsign.toNat ≠ 0) (upperHexa.toNat ≠ 0) t.line.output).map
        fun result ↦ (t.print result.1, result.2) := by
  have hbase := r.field_buff (i := 0) (by rw [hbuff]; rfl)
  have hunsign := r.field_buff (i := 1) (by rw [hbuff]; rfl)
  have hupper := r.field_buff (i := 2) (by rw [hbuff]; rfl)
  rw [ioSend, IoRequest.take_bytes, ioService, IoRequest.field_code, IoRequest.field_data,
    BitVec.ofNat_toNat, BitVec.setWidth_eq, hbase, hunsign, hupper, hcode]
  change (uartPutInt r.data _ _ _ _).bind _ = _
  cases uartPutInt r.data base.toNat (unsign.toNat ≠ 0) (upperHexa.toNat ≠ 0) t.line.output with
  | error stop => rfl
  | ok result => rfl

/-- A string that fits into the request is printed. -/
theorem ioPuts_eq (stack : IoRequest) {str : CString} (hshort : str.chars.length < ioBuffSize)
    (t : Terminal) : ioPuts stack str t = .ok (t.print (t.line.output ++ str.chars), 0) := by
  have hsize : str.strsize = str.chars.length + 1 := List.length_append
  have hle : str.strsize ≤ ioBuffSize := hsize.trans_le hshort
  have hint : toInt32 str.strsize = str.strsize :=
    toInt32_eq (Int.natCast_nonneg _) (Int.ofNat_lt.mpr (hle.trans_lt (by decide)))
  have hlarge : ¬ toInt32 str.strsize > ioBuffSize := by
    rw [hint]
    omega
  have hnegative : ¬ toInt32 str.strsize < 0 := by
    rw [hint]
    omega
  have htake : str.stored.take (toInt32 str.strsize).toNat = str.stored := by
    rw [hint, Int.toNat_natCast]
    exact List.take_length
  have hfits : (str.stored.take (toInt32 str.strsize).toNat).length ≤ ioBuffSize := by rwa [htake]
  have hbuff : (stack.buff.put (str.stored.take (toInt32 str.strsize).toNat) hfits).bytes =
      str.stored ++ stack.buff.bytes.drop str.stored.length := by rw [Buff.put_bytes, htake]
  rw [ioPuts]
  dsimp only
  rw [dif_neg hlarge, dif_neg hnegative]
  exact ioSend_puts (r := { stack with code := 2, buff := stack.buff.put _ hfits }) rfl hbuff t

theorem ioPutInt_eq (x : BitVec 64) {base : ℕ} (hbase : 1 < base) (hlarge : base ≤ 16)
    (unsign upperHexa : Bool) (t : Terminal) : ioPutInt x base unsign upperHexa t =
      .ok (t.print (t.line.output ++ intText x base unsign upperHexa),
      (intText x base unsign upperHexa).length) := by
  have hflag : ∀ b : Bool, decide (((BitVec.ofBool b).setWidth 8).toNat ≠ 0) = b := by decide
  have hvalue : (BitVec.ofNat 8 base).toNat = base := Nat.mod_eq_of_lt (hlarge.trans_lt (by decide))
  have hbuff : ∀ (settings : List (BitVec 8)) (h : settings.length ≤ ioBuffSize),
      (Buff.zero.put settings h).bytes = settings ++ Buff.zero.bytes.drop settings.length :=
    fun _ h ↦
    Buff.put_bytes Buff.zero h
  rw [ioPutInt]
  dsimp only
  rw [if_neg (Nat.not_lt.mpr (hlarge.trans (by decide)))]
  refine (ioSend_putInt (l := Buff.zero.bytes.drop 3) rfl (hbuff _ (Nat.le_of_ble_eq_true rfl))
    t).trans ?_
  rw [hflag, hflag, hvalue]
  change (uartPutInt x base unsign upperHexa t.line.output).map _ = _
  rw [uartPutInt_eq x hbase]
  rfl

/-- The library prints strings of less than `IO_BUFF_SIZE` characters, and numbers in the bases of
the conversions. -/
theorem ioHandlers_emits (stack : Terminal → IoRequest) :
    Emits (ioHandlers stack) (fun t ↦ t.line.output) intText fun str ↦
      str.chars.length < ioBuffSize where
  putc c t := by
    refine ⟨t.print (t.line.output ++ [c]), ?_, rfl⟩
    exact ioPutc_eq c t
  puts str t hshort := by
    refine ⟨t.print (t.line.output ++ str.chars), 0, ?_, rfl⟩
    dsimp only [ioHandlers]
    have hputs := ioPuts_eq (stack t) hshort t
    exact hputs
  putInt x base unsign upperHexa t hbase hlarge :=
    ⟨t.print (t.line.output ++ intText x base unsign upperHexa), _,
      ioPutInt_eq x hbase hlarge unsign upperHexa t, rfl⟩
  short _ h := h

/-- `io_printf` makes the manager print what `uart_printf` prints, and takes no input. -/
def SamePrinted (stack : Terminal → IoRequest) (format : CString) (args : List VaArg)
    (t : Terminal) : Prop :=
  ∃ out n u m, uartPrintf format args t.line.output = .ok (out, n) ∧
    ioPrintf stack format args t = .ok (u, m) ∧ u.line.output = out

/-- The two ways to print agree if the strings of the arguments have less than `IO_BUFF_SIZE`
characters. -/
theorem samePrinted_of_short {format : CString} {args : List VaArg} {pieces : List Piece}
    {complete : Bool} (hexpand : expand false format.chars args = .ok (pieces, complete))
    (hshort : ∀ str, .string str ∈ args → str.chars.length < ioBuffSize)
    (stack : Terminal → IoRequest) (t : Terminal) : SamePrinted stack format args t := by
  obtain ⟨r, hrun, hr⟩ : ∃ r, uartPrintf format args t.line.output = .ok r ∧
      Returns uartHandlers id intText (Printing.start format args t.line.output)
      pieces complete r :=
    internalPrintf_returns uartHandlers_emits (fun _ _ ↦ trivial) hexpand
  obtain ⟨u, hrun', hu⟩ : ∃ u, ioPrintf stack format args t = .ok u ∧
      Returns (ioHandlers stack) (fun t ↦ t.line.output) intText (Printing.start format args t)
      pieces complete u :=
    internalPrintf_returns (ioHandlers_emits stack) hshort hexpand
  exact ⟨r.1, r.2, u.1, u.2, hrun, hrun', hu.text.trans hr.text.symm⟩

end Service

/-- Nothing is sent yet, and no input comes. -/
def Terminal.idle : Terminal := ⟨⟨[], fun _ ↦ 0, []⟩, []⟩

/-- The format `"%s"`. -/
def stringFormat : CString := ⟨[0x25, 0x73], by decide⟩

/-- `"%s"` for `"a"`. -/
theorem samePrinted_of_short_string :
    SamePrinted (fun _ ↦ .init 0 0) stringFormat [.string ⟨[0x61], by decide⟩] .idle := by
  have hexpand : expand false [0x25, 0x73] [.string ⟨[0x61], by decide⟩] =
      .ok ([.call (.string ⟨[0x61], by decide⟩)], true) := rfl
  refine samePrinted_of_short hexpand (fun str hstr ↦ ?_) _ _
  obtain rfl := VaArg.string.inj (List.mem_singleton.mp hstr)
  decide

/-- A string that does not fit into the request is refused. -/
theorem ioPuts_long (stack : IoRequest) {str : CString} (hlong : ioBuffSize < str.strsize)
    (hint : str.strsize < 2 ^ 31) (t : Terminal) : ioPuts stack str t = .ok (t, -1) := by
  have hsize : toInt32 str.strsize = str.strsize :=
    toInt32_eq (Int.natCast_nonneg _) (Int.ofNat_lt.mpr hint)
  rw [ioPuts]
  dsimp only
  rw [dif_pos (by rw [hsize]; exact Int.ofNat_lt.mpr hlong)]

theorem internalPrintf_string {σ : Type} {h : Handlers σ} {str : CString} {s t : σ} {n : ℤ}
    (hputs : h.puts str s = .ok (t, n)) :
    internalPrintf h false stringFormat [.string str] s = .ok (t, toInt32 (0 + n)) := by
  have hcall : (Call.string str).run h s = .ok (t, n) := hputs
  have hstep : printfStep h false ⟨[0x25, 0x73], [.string str], [], 0, s⟩ =
      .ok (.inl ⟨[], [], [], toInt32 (0 + n), t⟩) := by
    unfold printfStep
    change ((Call.string str).run h s).bind _ = _
    rw [hcall]
    rfl
  change (printfStep h false ⟨[0x25, 0x73], [.string str], [], 0, s⟩).bind _ = _
  rw [hstep]
  rfl

/-- A string of 500 characters `x`. -/
def longString : CString :=
  ⟨.replicate 500 0x78, fun h ↦ absurd (List.eq_of_mem_replicate h) (by decide)⟩

theorem strsize_longString : longString.strsize = 501 := by
  rw [CString.strsize, CString.stored, longString, List.length_append, List.length_replicate,
    List.length_singleton]

/-- For a string of 500 characters, `uart_printf` prints them, and nothing is sent to the
manager. -/
theorem not_samePrinted_long :
    ¬ SamePrinted (fun _ ↦ .init 0 0) stringFormat [.string longString] .idle := by
  rintro ⟨out, n, u, m, huart, hio, hsame⟩
  have hexpand : expand false [0x25, 0x73] [.string longString] =
      .ok ([.call (.string longString)], true) := rfl
  have hputs : ioPuts (.init 0 0) longString .idle = .ok (.idle, -1) :=
    ioPuts_long _ (by rw [strsize_longString]; decide) (by rw [strsize_longString]; decide) _
  have hnothing : ioPrintf (fun _ ↦ .init 0 0) stringFormat [.string longString] .idle =
      .ok (.idle, toInt32 (0 + -1)) := by
    refine internalPrintf_string ?_
    dsimp only [ioHandlers]
    exact hputs
  rw [uartPrintf_eq hexpand] at huart
  rw [hnothing] at hio
  obtain rfl : Terminal.idle = u := congrArg Prod.fst (Except.ok.inj hio)
  have hout : longString.chars ++ [] = out := congrArg Prod.fst (Except.ok.inj huart)
  rw [← hout, List.append_nil] at hsame
  have hlength := congrArg List.length hsame
  exact absurd (hlength.trans List.length_replicate) (by decide)

end SysresOs.Text
