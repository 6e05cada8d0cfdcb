import Mathlib.Data.List.Basic
import Mathlib.Logic.Function.Basic
import Mathlib.Order.Lattice
import Mathlib.Order.Nat
import SysresOs.Lib.Trace

/-!
# A store of files

The files of a store are open through handles. A handle has a position and the size that it knows of
its file, which may be less than the size of the file when the file has grown through another
handle. In every run a byte of a file is the one that was put there last, through whichever handle
(`Run.content_eq`), and the parts of a file that a handle gets one after the other are one part of
it, whatever happens through the other handles to other files (`Run.received_eq`).
-/

set_option autoImplicit false
set_option relaxedAutoImplicit false

namespace SysresOs.FileStore

open SysresOs.Trace

variable {ι δ β : Type*}

/-! ### Putting bytes into a list -/

/-- The bytes from a position on, over those that are there and behind the end. -/
def splice (pos : ℕ) (bytes l : List β) : List β :=
  l.take pos ++ bytes ++ l.drop (pos + bytes.length)

section Splice

variable {pos : ℕ} {bytes l : List β}

theorem length_splice (hpos : pos ≤ l.length) :
    (splice pos bytes l).length = max l.length (pos + bytes.length) := by
  simp only [splice, List.length_append, List.length_take, List.length_drop]
  omega

theorem getElem?_splice (hpos : pos ≤ l.length) (i : ℕ) : (splice pos bytes l)[i]? =
    (if pos ≤ i then bytes[i - pos]? else none).or l[i]? := by
  have htake : (l.take pos).length = pos := List.length_take_of_le hpos
  rw [splice]
  rcases lt_or_ge i pos with hlt | hge
  · rw [if_neg (by omega), Option.none_or, List.append_assoc, List.getElem?_append_left (by omega),
      List.getElem?_take_of_lt hlt]
  · rw [if_pos hge]
    rcases lt_or_ge (i - pos) bytes.length with hin | hout
    · rw [List.getElem?_append_left (by rw [List.length_append]; omega),
        List.getElem?_append_right (by omega), htake, List.getElem?_eq_getElem hin, Option.some_or]
    · rw [List.getElem?_append_right (by rw [List.length_append]; omega), List.getElem?_drop,
        List.getElem?_eq_none hout, Option.none_or, List.length_append, htake]
      congr 1
      omega

/-- Bytes that are put over more than there is, and up to the end, are put behind what is kept. -/
theorem splice_append {tail : List β} (hpos : pos ≤ l.length)
    (hend : pos + bytes.length = l.length + tail.length) :
    splice pos bytes (l ++ tail) = splice pos bytes l := by
  rw [splice, splice, List.take_append_of_le_length hpos,
    List.drop_of_length_le (by rw [List.length_append]; omega), List.drop_of_length_le (by omega)]

end Splice

/-! ### Stores -/

/-- A handle: the file, the position in it, and the size of the file as the handle knows it. -/
structure Handle (ι : Type*) where
  file : ι
  pos : ℕ
  size : ℕ
  pos_le : pos ≤ size

/-- The handle of a file that is longer, by so many bytes. -/
def Handle.grow (h : Handle ι) (k : ℕ) : Handle ι :=
  ⟨h.file, h.pos, h.size + k, h.pos_le.trans (Nat.le_add_right _ k)⟩

/-- Files and the handles through which they are open. No handle knows of more bytes than the file
has. -/
@[ext]
structure Store (ι δ β : Type*) where
  content : ι → List β
  handle : δ → Option (Handle ι)
  size_le : ∀ d h, handle d = some h → h.size ≤ (content h.file).length

/-- What happens to a store. -/
inductive Event (ι δ β : Type*)
  | opened (d : δ) (n : ι)
  /-- There is no handle left for the file. -/
  | refused (n : ι)
  | closed (d : δ)
  | sought (d : δ) (pos : ℕ)
  /-- At most so many bytes were read through a handle: these. -/
  | got (d : δ) (len : ℕ) (bytes : List β)
  | put (d : δ) (bytes : List β)

namespace Store

/-- Changing a handle. -/
def setHandle [DecidableEq δ] (s : Store ι δ β) (d : δ) (h : Option (Handle ι))
    (hsize : ∀ h' ∈ h, h'.size ≤ (s.content h'.file).length) : Store ι δ β where
  content := s.content
  handle := Function.update s.handle d h
  size_le := by
    intro e h' he
    rcases eq_or_ne e d with rfl | hne
    · rw [Function.update_self] at he
      exact hsize h' he
    · rw [Function.update_of_ne hne] at he
      exact s.size_le e h' he

/-- Opening a file from its beginning on. -/
def openFile [DecidableEq δ] (s : Store ι δ β) (d : δ) (n : ι) : Store ι δ β :=
  s.setHandle d (some ⟨n, 0, (s.content n).length, Nat.zero_le _⟩) fun h' hh' ↦ by
    obtain rfl := Option.some.inj hh'
    exact le_rfl

def close [DecidableEq δ] (s : Store ι δ β) (d : δ) : Store ι δ β :=
  s.setHandle d none fun h' hh' ↦ absurd hh' (Option.not_mem_none h')

/-- Going to another position. -/
def move [DecidableEq δ] (s : Store ι δ β) (d : δ) (h : Handle ι) (hd : s.handle d = some h)
    (pos : ℕ) (hpos : pos ≤ h.size) : Store ι δ β :=
  s.setHandle d (some ⟨h.file, pos, h.size, hpos⟩) fun h' hh' ↦ by
    obtain rfl := Option.some.inj hh'
    exact s.size_le d h hd

/-- Putting bytes into a file from the position of a handle on, which then is behind them. -/
def put [DecidableEq ι] [DecidableEq δ] (s : Store ι δ β) (d : δ) (h : Handle ι)
    (hd : s.handle d = some h) (bytes : List β) : Store ι δ β where
  content := Function.update s.content h.file (splice h.pos bytes (s.content h.file))
  handle := Function.update s.handle d
    (some ⟨h.file, h.pos + bytes.length, max h.size (h.pos + bytes.length), le_max_right _ _⟩)
  size_le := by
    intro e h' he
    have hsize := s.size_le d h hd
    have hlength : (splice h.pos bytes (s.content h.file)).length = _ :=
      length_splice (h.pos_le.trans hsize)
    rcases eq_or_ne e d with rfl | hne
    · rw [Function.update_self] at he
      obtain rfl := Option.some.inj he
      rw [Function.update_self]
      dsimp only
      omega
    · rw [Function.update_of_ne hne] at he
      have hother := s.size_le e h' he
      rcases eq_or_ne h'.file h.file with hfile | hfile
      · rw [hfile] at hother ⊢
        rw [Function.update_self]
        omega
      · rwa [Function.update_of_ne hfile]

/-- A file that gets longer at its end, through a handle that knows its size. -/
def grow [DecidableEq ι] [DecidableEq δ] (s : Store ι δ β) (d : δ) (h : Handle ι)
    (hsize : h.size = (s.content h.file).length) (tail : List β) : Store ι δ β where
  content := Function.update s.content h.file (s.content h.file ++ tail)
  handle := Function.update s.handle d (some (h.grow tail.length))
  size_le := by
    intro e h' he
    rcases eq_or_ne e d with rfl | hne
    · rw [Function.update_self] at he
      obtain rfl := Option.some.inj he
      rw [Handle.grow, Function.update_self, List.length_append, ← hsize]
    · rw [Function.update_of_ne hne] at he
      have hother := s.size_le e h' he
      rcases eq_or_ne h'.file h.file with hfile | hfile
      · rw [hfile] at hother ⊢
        rw [Function.update_self, List.length_append]
        omega
      · rwa [Function.update_of_ne hfile]

/-- What a file gets at its end does not matter if it is written over. -/
theorem put_grow [DecidableEq ι] [DecidableEq δ] {s : Store ι δ β} {d : δ} {h : Handle ι}
    {tail bytes : List β} (hd : s.handle d = some h) (hsize : h.size = (s.content h.file).length)
    (hend : h.pos + bytes.length = h.size + tail.length) :
    (s.grow d h hsize tail).put d (h.grow tail.length) (Function.update_self _ _ _) bytes =
      s.put d h hd bytes := by
  have hpos := h.pos_le
  have hfile : (s.grow d h hsize tail).content h.file = s.content h.file ++ tail :=
    Function.update_self _ _ _
  have hmax : max (h.size + tail.length) (h.pos + bytes.length) =
      max h.size (h.pos + bytes.length) := by omega
  ext1
  · change Function.update (Function.update s.content _ _) _
      (splice h.pos bytes ((s.grow d h hsize tail).content h.file)) = _
    rw [hfile, splice_append (by omega) (by omega)]
    exact Function.update_idem _ _ _
  · refine (Function.update_idem _ _ _).trans ?_
    simp only [Handle.grow, hmax]
    rfl

end Store

/-- How much a handle has before it, of at most so many bytes. -/
def Handle.ahead (h : Handle ι) (len : ℕ) : ℕ := min len (h.size - h.pos)

theorem Handle.pos_add_ahead_le (h : Handle ι) (len : ℕ) : h.pos + h.ahead len ≤ h.size := by
  have hle := h.pos_le
  unfold ahead
  omega

/-- A part of a file. -/
def Store.part (s : Store ι δ β) (n : ι) (pos len : ℕ) : List β := ((s.content n).drop pos).take len

theorem Store.part_append (s : Store ι δ β) (n : ι) (pos a b : ℕ) :
    s.part n pos a ++ s.part n (pos + a) b = s.part n pos (a + b) := by
  simp only [part]
  rw [← List.drop_drop, ← List.take_add]

/-- The steps of a store. -/
inductive Step [DecidableEq ι] [DecidableEq δ] : Store ι δ β → Event ι δ β → Store ι δ β → Prop
  | opened {s : Store ι δ β} {d : δ} (n : ι) (hd : s.handle d = none) :
      Step s (.opened d n) (s.openFile d n)
  | refused {s : Store ι δ β} (n : ι) (hfull : ∀ d, s.handle d ≠ none) : Step s (.refused n) s
  | closed {s : Store ι δ β} {d : δ} {h : Handle ι} (hd : s.handle d = some h) :
      Step s (.closed d) (s.close d)
  | sought {s : Store ι δ β} {d : δ} {h : Handle ι} {pos : ℕ} (hd : s.handle d = some h)
      (hpos : pos ≤ h.size) : Step s (.sought d pos) (s.move d h hd pos hpos)
  | got {s : Store ι δ β} {d : δ} {h : Handle ι} (len : ℕ) (hd : s.handle d = some h) :
      Step s (.got d len (s.part h.file h.pos (h.ahead len)))
        (s.move d h hd (h.pos + h.ahead len) (h.pos_add_ahead_le len))
  | put {s : Store ι δ β} {d : δ} {h : Handle ι} (bytes : List β) (hd : s.handle d = some h) :
      Step s (.put d bytes) (s.put d h hd bytes)

variable [DecidableEq ι] [DecidableEq δ] {s s' s₀ : Store ι δ β} {e : Event ι δ β} {d : δ}
  {h : Handle ι} {n : ι} {i pos : ℕ} {bytes : List β}
  {history : List (Transition (Store ι δ β) (Event ι δ β))}

/-! ### The last byte that was put -/

/-- The byte that an event puts at a place of a file. -/
def byteAt (s : Store ι δ β) (n : ι) (i : ℕ) : Event ι δ β → Option β
  | .put d bytes => (s.handle d).bind fun h ↦ if h.file = n ∧ h.pos ≤ i then bytes[i - h.pos]?
      else none
  | _ => none

/-- The byte that was put last at a place of a file. The history has the most recent transition
first. -/
def lastPut (n : ι) (i : ℕ) (history : List (Transition (Store ι δ β) (Event ι δ β))) : Option β :=
  history.findSome? fun t ↦ byteAt t.pre n i t.label

/-- A step puts a byte at a place, or leaves the byte there as it was. -/
theorem Step.content_eq (hstep : Step s e s') (n : ι) (i : ℕ) :
    (s'.content n)[i]? = (byteAt s n i e).or (s.content n)[i]? := by
  cases hstep with
  | opened n hd => rfl
  | refused n hfull => rfl
  | closed hd => rfl
  | sought hd hpos => rfl
  | got len hd => rfl
  | @put d h bytes hd =>
    have hpos : h.pos ≤ (s.content h.file).length := h.pos_le.trans (s.size_le d h hd)
    rw [byteAt, hd, Option.bind_some]
    change (Function.update s.content h.file _ n)[i]? = _
    rcases eq_or_ne n h.file with rfl | hne
    · rw [Function.update_self, getElem?_splice hpos]
      simp only [true_and]
    · rw [Function.update_of_ne hne, if_neg fun hsame ↦ hne hsame.1.symm, Option.none_or]

/-- In every run a byte is the one that was put there last, or the one that was there at first. -/
theorem Run.content_eq (hrun : Run (· = s₀) Step history s) (n : ι) (i : ℕ) :
    (s.content n)[i]? = (lastPut n i history).or (s₀.content n)[i]? := by
  induction hrun with
  | start hinit =>
    subst hinit
    rfl
  | next hrun hstep ih =>
    rw [hstep.content_eq, ih]
    unfold lastPut
    rw [List.findSome?_cons]
    dsimp only
    cases byteAt _ n i _ with
    | none => rfl
    | some b => rfl

/-- No file gets shorter. -/
theorem Run.length_le (hrun : Run (· = s₀) Step history s) (n : ι) :
    (s₀.content n).length ≤ (s.content n).length := by
  by_contra hlt
  have hnone : (s.content n)[(s.content n).length]? = none := List.getElem?_eq_none le_rfl
  rw [Run.content_eq hrun, List.getElem?_eq_getElem (not_le.mp hlt)] at hnone
  exact absurd (Option.or_eq_none_iff.mp hnone).2 (by simp)

/-! ### Reading in parts -/

/-- What an event reads through a handle. -/
def gotBy (d : δ) : Event ι δ β → List β
  | .got e _ bytes => if e = d then bytes else []
  | _ => []

/-- The bytes that were read through a handle, those that were read first in front. -/
def received (d : δ) : List (Transition (Store ι δ β) (Event ι δ β)) → List β
  | [] => []
  | t :: history => received d history ++ gotBy d t.label

/-- Reads, and what leaves an open handle and its file alone. -/
def Undisturbed (d : δ) (n : ι) (s : Store ι δ β) : Event ι δ β → Prop
  | .opened _ _ => True
  | .refused _ => True
  | .closed e => e ≠ d
  | .sought e _ => e ≠ d
  | .got _ _ _ => True
  | .put e _ => e ≠ d ∧ ∀ h, s.handle e = some h → h.file ≠ n

/-- A handle goes on in its file, and what is read through it is the part that it goes over. -/
structure GoesOver (s s' : Store ι δ β) (d : δ) (h h' : Handle ι) (bytes : List β) : Prop where
  handle : s'.handle d = some h'
  file : h'.file = h.file
  size : h'.size = h.size
  le : h.pos ≤ h'.pos
  content : s'.content h.file = s.content h.file
  bytes_eq : bytes = s.part h.file h.pos (h'.pos - h.pos)

omit [DecidableEq ι] [DecidableEq δ] in
theorem GoesOver.refl (hd : s'.handle d = some h)
    (hcontent : s'.content h.file = s.content h.file) : GoesOver s s' d h h [] := by
  refine ⟨hd, rfl, rfl, le_rfl, hcontent, ?_⟩
  rw [Nat.sub_self, Store.part, List.take_zero]

omit [DecidableEq ι] [DecidableEq δ] in
theorem GoesOver.trans {s₁ : Store ι δ β} {h₁ h' : Handle ι} {a b : List β}
    (ha : GoesOver s s₁ d h h₁ a) (hb : GoesOver s₁ s' d h₁ h' b) :
    GoesOver s s' d h h' (a ++ b) := by
  have hle := ha.le
  have hle' := hb.le
  have hcontent := hb.content
  rw [ha.file] at hcontent
  refine ⟨hb.handle, hb.file.trans ha.file, hb.size.trans ha.size, hle.trans hle',
    hcontent.trans ha.content, ?_⟩
  have hpart : s₁.part h₁.file h₁.pos (h'.pos - h₁.pos) =
      s.part h.file (h.pos + (h₁.pos - h.pos)) (h'.pos - h₁.pos) := by
    rw [Nat.add_sub_cancel' hle, ha.file, Store.part, ha.content, Store.part]
  have hlength : h₁.pos - h.pos + (h'.pos - h₁.pos) = h'.pos - h.pos := by omega
  rw [ha.bytes_eq, hb.bytes_eq, hpart, Store.part_append, hlength]

/-- A step that leaves a handle alone, or reads through it. -/
theorem Step.goesOver (hstep : Step s e s') (hd : s.handle d = some h)
    (hsame : Undisturbed d h.file s e) : ∃ h', GoesOver s s' d h h' (gotBy d e) := by
  cases hstep with
  | @opened e n hfree =>
    have hne : d ≠ e := by
      rintro rfl
      rw [hfree] at hd
      exact absurd hd (by simp)
    exact ⟨h, .refl ((Function.update_of_ne hne _ _).trans hd) rfl⟩
  | refused n hfull => exact ⟨h, .refl hd rfl⟩
  | closed hopen => exact ⟨h, .refl ((Function.update_of_ne hsame.symm _ _).trans hd) rfl⟩
  | sought hopen hpos => exact ⟨h, .refl ((Function.update_of_ne hsame.symm _ _).trans hd) rfl⟩
  | @got e g len hopen =>
    rw [gotBy]
    rcases eq_or_ne e d with rfl | hne
    · obtain rfl : g = h := Option.some.inj (hopen.symm.trans hd)
      rw [if_pos rfl]
      refine ⟨_, Function.update_self _ _ _, rfl, rfl, Nat.le_add_right _ _, rfl, ?_⟩
      rw [Nat.add_sub_cancel_left]
    · rw [if_neg hne]
      exact ⟨h, .refl ((Function.update_of_ne hne.symm _ _).trans hd) rfl⟩
  | put bytes hopen =>
    obtain ⟨hne, hfile⟩ := hsame
    exact ⟨h, .refl ((Function.update_of_ne hne.symm _ _).trans hd)
      (Function.update_of_ne (hfile _ hopen).symm _ _)⟩

/-- The parts that are read through a handle one after the other are one part of its file. -/
theorem Run.received_eq (hrun : Run (· = s₀) Step history s) (hd : s₀.handle d = some h)
    (hsame : ∀ t ∈ history, Undisturbed d h.file t.pre t.label) :
    ∃ h', GoesOver s₀ s d h h' (received d history) := by
  induction hrun with
  | start hinit =>
    subst hinit
    exact ⟨h, .refl hd rfl⟩
  | next hrun hstep ih =>
    obtain ⟨hlast, hbefore⟩ := List.forall_mem_cons.mp hsame
    obtain ⟨h₁, hover⟩ := ih hbefore
    rw [← hover.file] at hlast
    obtain ⟨h', hover'⟩ := hstep.goesOver hover.handle hlast
    exact ⟨h', hover.trans hover'⟩

end SysresOs.FileStore
