import SysresOs.Files.Growth

/-!
# Sessions of several descriptors

In a session every call is one that the code does right. Then the session is a run of a store of
files (`refines_store`), whichever descriptors are open on a file: what is read at a place is what
was written there last (`read_lastWritten`), reads one after the other give one part of the file
(`reads_concatenate`), and a session takes no block and leaves everything but its files alone
(`session_frame`).
-/

set_option autoImplicit false
set_option relaxedAutoImplicit false

namespace SysresOs.Files

open SysresOs.ByteMemory SysresOs.Outcome SysresOs.FileStore SysresOs.Trace

/-! ### Sessions -/

/-- A call of a session, and what it gives. -/
abbrev FileEvent := FileCall × Answer

/-- A call that the code does right. -/
def SessionStep (inodes : Set ℕ) (fs : Filesystem) (e : FileEvent) (fs' : Filesystem) : Prop :=
  Permitted inodes fs e.1 ∧ e.1.run fs = .ok (fs', e.2)

/-- A session from `fs₀` on. -/
abbrev Session (inodes : Set ℕ) (fs₀ : Filesystem) : List (Transition Filesystem FileEvent) →
    Filesystem → Prop :=
  Run (· = fs₀) (SessionStep inodes)

/-- A call of a session does to the store what its answer says. -/
structure Mirrors (inodes index : Set ℕ) (t : Transition Filesystem FileEvent)
    (u : Transition (Store ℕ Slot (BitVec 8)) (Event ℕ Slot (BitVec 8))) : Prop where
  pre : Represents inodes index t.pre u.pre
  post : Represents inodes index t.post u.post
  answers : Answers t.pre t.label.1 t.label.2 u.label

variable {fs fs' fs₀ : Filesystem} {inodes index : Set ℕ} {n i pos : ℕ} {fd : FileDescriptor}
  {d : Slot} {h : Handle ℕ} {s s₀ : Store ℕ Slot (BitVec 8)} {buffer : List (BitVec 8)}
  {history : List (Transition Filesystem FileEvent)}
  {stores : List (Transition (Store ℕ Slot (BitVec 8)) (Event ℕ Slot (BitVec 8)))}

/-- A step of a session does what `Does` says. -/
theorem SessionStep.does {e : FileEvent} (hstep : SessionStep inodes fs e fs')
    (h' : Represents inodes index fs s) : ∃ a s', Answers fs e.1 e.2 a ∧ Step s a s' ∧
      Represents inodes index fs' s' ∧ Framed inodes fs fs' := by
  obtain ⟨fs₁, answer, a, s', hrun, hanswers, hstore, hnext, hframe⟩ := h'.does hstep.1
  obtain ⟨rfl, rfl⟩ := Prod.mk.inj (Except.ok.inj (hstep.2.symm.trans hrun))
  exact ⟨a, s', hanswers, hstore, hnext, hframe⟩

/-- A session mirrors a run of the store that it starts with. -/
theorem Session.exists_stores (h₀ : Represents inodes index fs₀ s₀)
    (hrun : Session inodes fs₀ history fs) :
    ∃ stores s, Run (· = s₀) Step stores s ∧ List.Forall₂ (Mirrors inodes index) history stores ∧
      Represents inodes index fs s := by
  induction hrun with
  | start hinit =>
    subst hinit
    exact ⟨[], s₀, .start rfl, .nil, h₀⟩
  | next hrun hstep ih =>
    obtain ⟨stores, s, hstores, hmirrors, hs⟩ := ih
    obtain ⟨a, s', hanswers, hstore, hnext, -⟩ := hstep.does hs
    exact ⟨_, s', .next hstores hstore, .cons ⟨hs, hnext, hanswers⟩ hmirrors, hnext⟩

/-! ### A session on the small disk -/

/-- The first descriptor. -/
def slotZero : Slot := ⟨0, by decide⟩

/-- The second descriptor. -/
def slotOne : Slot := ⟨1, by decide⟩

/-- The small disk with its file open once. -/
def onceOpen : Filesystem := atHead smallDisk 0 32 1 0

/-- The small disk with its file open twice. -/
def twiceOpen : Filesystem := atHead onceOpen 1 32 1 0

theorem represents_smallDisk : Represents {1} {2} smallDisk (initialStore smallDisk) := by
  refine .of_closed wellFormed_smallDisk ?_ fun d ↦ Nat.one_ne_zero
  rintro n rfl
  have hsize : fileSize smallDisk 1 = 40 := by decide +kernel
  rw [hsize]
  decide

theorem represents_onceOpen :
    Represents {1} {2} onceOpen ((initialStore smallDisk).openFile slotZero 1) :=
  represents_smallDisk.openFile (Set.mem_singleton 1) slotZero

theorem represents_twiceOpen :
    Represents {1} {2} twiceOpen
      (((initialStore smallDisk).openFile slotZero 1).openFile slotOne 1) :=
  represents_onceOpen.openFile (Set.mem_singleton 1) slotOne

theorem iopen_smallDisk : FileCall.run smallDisk (.iopen 1) = .ok (onceOpen, ⟨[], 0⟩) := by
  have hsize : fileSize smallDisk 1 ≤ smallDisk.maxFileSize := by decide +kernel
  rw [FileCall.run, iopen_eq layout_smallDisk.inMemory (d := 0) rfl (by decide) (by decide),
    if_pos hsize, ok_bind]
  rfl

theorem iopen_onceOpen : FileCall.run onceOpen (.iopen 1) = .ok (twiceOpen, ⟨[], 1⟩) := by
  have hsize : fileSize onceOpen 1 ≤ onceOpen.maxFileSize := by decide +kernel
  have hmem : InMemory onceOpen := layout_smallDisk.inMemory.congr rfl rfl
  rw [FileCall.run, iopen_eq hmem (d := 1) rfl (by decide) (by decide), if_pos hsize, ok_bind]
  rfl

/-- The file is opened twice, written through the first descriptor and read through the second
one. -/
theorem exists_session : ∃ answer history before after,
    Session {1} smallDisk (⟨before, (.read slotOne 3, answer), after⟩ :: history) after ∧
      history.map (fun t ↦ t.label.1) = [.write slotZero [7, 8, 9], .iopen 1, .iopen 1] := by
  have hsize : fileSize smallDisk 1 = 40 := by decide +kernel
  have hwrite : Permitted {1} twiceOpen (.write slotZero [7, 8, 9]) := by
    refine ⟨rfl, Or.inl ?_⟩
    change 0 + 3 ≤ fileSize smallDisk 1
    omega
  obtain ⟨fs, answer, e, s, hrun, hanswers, hstore, hs, hframe⟩ := represents_twiceOpen.does hwrite
  obtain ⟨h, hd, hpos⟩ : ∃ h, s.handle slotOne = some h ∧ h.pos = 0 := by
    cases hanswers with
    | put d buffer =>
      cases hstore with
      | put bytes hd => exact ⟨_, rfl, rfl⟩
  have hshow := hs.shows slotOne h hd
  have hblock : fs.blockSize = 32 := hframe.blockSize
  have hread : Permitted {1} fs (.read slotOne 3) := by
    refine ⟨hshow.closed_eq, by decide, Or.inl ?_⟩
    rw [hshow.pos_eq, hpos, hblock, readCount]
    omega
  obtain ⟨fs', answer', -, -, hrun', -⟩ := hs.does hread
  refine ⟨answer', [⟨twiceOpen, (.write slotZero [7, 8, 9], answer), fs⟩,
    ⟨onceOpen, (.iopen 1, ⟨[], 1⟩), twiceOpen⟩, ⟨smallDisk, (.iopen 1, ⟨[], 0⟩), onceOpen⟩],
    fs, fs', ?_, rfl⟩
  exact .next (.next (.next (.next (.start rfl) ⟨Set.mem_singleton 1, iopen_smallDisk⟩)
    ⟨Set.mem_singleton 1, iopen_onceOpen⟩) ⟨hwrite, hrun⟩) ⟨hread, hrun'⟩

/-- Three bytes are read through the second descriptor, and then through the first one. -/
theorem exists_reads : ∃ answer answer' between after, Session {1} twiceOpen
    [⟨between, (.read slotZero 3, answer'), after⟩, ⟨twiceOpen, (.read slotOne 3, answer), between⟩]
    after := by
  have hread : Permitted {1} twiceOpen (.read slotOne 3) :=
    ⟨rfl, by decide, Or.inl (by decide +kernel)⟩
  obtain ⟨fs, answer, e, s, hrun, hanswers, hstore, hs, hframe⟩ := represents_twiceOpen.does hread
  obtain ⟨h, hd, hpos⟩ : ∃ h, s.handle slotZero = some h ∧ h.pos = 0 := by
    cases hanswers with
    | got d hlen bytes =>
      cases hstore with
      | got len hd => exact ⟨_, rfl, rfl⟩
  have hshow := hs.shows slotZero h hd
  have hblock : fs.blockSize = 32 := hframe.blockSize
  have hread' : Permitted {1} fs (.read slotZero 3) := by
    refine ⟨hshow.closed_eq, by decide, Or.inl ?_⟩
    rw [hshow.pos_eq, hpos, hblock, readCount]
    omega
  obtain ⟨fs', answer', -, -, hrun', -⟩ := hs.does hread'
  exact ⟨answer, answer', fs, fs', .next (.next (.start rfl) ⟨hread, hrun⟩) ⟨hread', hrun'⟩⟩

/-! ### The store of files -/

/-- A session is a run of the store of files, and the next call returns as well. -/
theorem refines_store (h₀ : Represents inodes index fs₀ s₀) (hrun : Session inodes fs₀ history fs) :
    (∃ stores s, Run (· = s₀) Step stores s ∧ List.Forall₂ (Mirrors inodes index) history stores ∧
      Represents inodes index fs s) ∧
    ∀ call, Permitted inodes fs call → ∃ fs' answer, call.run fs = .ok (fs', answer) := by
  obtain ⟨stores, s, hstores, hmirrors, hs⟩ := Session.exists_stores h₀ hrun
  refine ⟨⟨stores, s, hstores, hmirrors, hs⟩, fun call hcall ↦ ?_⟩
  obtain ⟨fs', answer, -, -, hcall, -⟩ := hs.does hcall
  exact ⟨fs', answer, hcall⟩

theorem refines_store_smallDisk : ∃ history fs, Session {1} smallDisk history fs ∧
    (∃ stores s, Run (· = initialStore smallDisk) Step stores s ∧ List.Forall₂
      (Mirrors {1} {2}) history stores ∧
      Represents {1} {2} fs s) ∧
    ∀ call, Permitted {1} fs call → ∃ fs' answer, call.run fs = .ok (fs', answer) := by
  obtain ⟨answer, history, before, after, hrun, -⟩ := exists_session
  exact ⟨_, after, hrun, refines_store represents_smallDisk hrun⟩

/-! ### What was written last -/

/-- The byte that a call writes at a place of a file. -/
def byteWritten (n i : ℕ) (t : Transition Filesystem FileEvent) : Option (BitVec 8) :=
  match t.label.1 with
  | .write d buffer =>
    if (t.pre.descriptors d).inode.index = n ∧ (t.pre.descriptors d).pos ≤ i then
      buffer[i - (t.pre.descriptors d).pos]?
    else none
  | _ => none

/-- The byte that was written last at a place of a file, in a history with the most recent call
first. -/
def lastWritten (n i : ℕ) (history : List (Transition Filesystem FileEvent)) : Option (BitVec 8) :=
  history.findSome? (byteWritten n i)

/-- A call writes the byte that is put into the store. -/
theorem Mirrors.byteWritten_eq {t : Transition Filesystem FileEvent}
    {u : Transition (Store ℕ Slot (BitVec 8)) (Event ℕ Slot (BitVec 8))}
    (hm : Mirrors inodes index t u) (hstep : Step u.pre u.label u.post) :
    byteWritten n i t = byteAt u.pre n i u.label := by
  obtain ⟨fs, ⟨call, answer⟩, fs'⟩ := t
  obtain ⟨s, e, s'⟩ := u
  obtain ⟨hpre, -, hanswers⟩ := hm
  dsimp only at hpre hanswers hstep ⊢
  cases hanswers with
  | opened n d => rfl
  | refused n => rfl
  | closed d => rfl
  | sought d offset whence hpos => rfl
  | got d hlen bytes => rfl
  | put d buffer =>
    cases hstep with
    | @put d h bytes hd =>
      have hshow := hpre.shows d h hd
      rw [byteWritten, byteAt, hd, Option.bind_some]
      dsimp only
      rw [hshow.index_eq, hshow.pos_eq]
      simp only [Nat.cast_inj]

/-- What was written last is what was put last into the store. -/
theorem lastWritten_eq (hmirrors : List.Forall₂ (Mirrors inodes index) history stores)
    (hstores : Run (· = s₀) Step stores s) (n i : ℕ) :
    lastWritten n i history = lastPut n i stores := by
  induction hmirrors generalizing s with
  | nil => rfl
  | cons hm _ ih =>
    obtain ⟨-, hstep, hbefore⟩ := hstores.last
    rw [lastWritten, lastPut, List.findSome?_cons, List.findSome?_cons, hm.byteWritten_eq hstep]
    cases byteAt _ n i _ with
    | none => exact ih hbefore
    | some b => rfl

/-- In every session a byte of a file is the one that was written there last, or the one that was
there at first. -/
theorem Session.content_eq (h₀ : Represents inodes index fs₀ s₀)
    (hrun : Session inodes fs₀ history fs) (hn : n ∈ inodes) (i : ℕ) :
    (fileContent fs n)[i]? = (lastWritten n i history).or (fileContent fs₀ n)[i]? := by
  obtain ⟨stores, s, hstores, hmirrors, hs⟩ := Session.exists_stores h₀ hrun
  rw [← hs.content n hn, ← h₀.content n hn, Run.content_eq hstores, lastWritten_eq hmirrors hstores]

/-- What a read gives is what was written last at each place, and before the first write what was
there. -/
theorem read_lastWritten {t : Transition Filesystem FileEvent} {len : ℤ} {answer : Answer}
    (h₀ : Represents inodes index fs₀ s₀) (hrun : Session inodes fs₀ (t :: history) fs)
    (hlabel : t.label = (.read d len, answer)) :
    ∃ n ∈ inodes, (t.pre.descriptors d).inode.index = n ∧
      answer.value = readCount (t.pre.descriptors d) len ∧
      answer.bytes.length = readCount (t.pre.descriptors d) len ∧
      ∀ j < readCount (t.pre.descriptors d) len, answer.bytes[j]? =
        (lastWritten n ((t.pre.descriptors d).pos + j) history).or
          (fileContent fs₀ n)[(t.pre.descriptors d).pos + j]? := by
  obtain ⟨-, hstep, hbefore⟩ := hrun.last
  obtain ⟨stores, s, -, -, hs⟩ := Session.exists_stores h₀ hbefore
  obtain ⟨a, s', hanswers, hstore, -, -⟩ := hstep.does hs
  rw [hlabel] at hanswers
  cases hanswers with
  | got d hlen bytes =>
    cases hstore with
    | @got d h len hd =>
      have hshow := hs.shows d h hd
      have hcount : readCount (t.pre.descriptors d) len = h.ahead len.toNat := by
        rw [readCount, hshow.size_eq, hshow.pos_eq, Handle.ahead]
      have hfit := hs.size_le hd
      have hle := h.pos_add_ahead_le len.toNat
      have hlength : (s.part h.file h.pos (h.ahead len.toNat)).length = h.ahead len.toNat := by
        rw [Store.part, hs.content _ hshow.mem, List.length_take, List.length_drop,
          length_fileContent]
        omega
      refine ⟨h.file, hshow.mem, hshow.index_eq, ?_, ?_, fun j hj ↦ ?_⟩
      · rw [hcount, hlength]
      · rw [hcount, hlength]
      · rw [hcount] at hj
        rw [hshow.pos_eq, ← Session.content_eq h₀ hbefore hshow.mem, Store.part,
          hs.content _ hshow.mem, List.getElem?_take_of_lt hj, List.getElem?_drop]

theorem read_lastWritten_smallDisk :
    ∃ (answer : Answer) (history : List (Transition Filesystem FileEvent))
    (fs : Filesystem), history.map
    (fun t ↦ t.label.1) = [.write slotZero [7, 8, 9], .iopen 1, .iopen 1] ∧
    ∃ n ∈ ({1} : Set ℕ), (fs.descriptors slotOne).inode.index = n ∧
      answer.value = readCount (fs.descriptors slotOne) 3 ∧
      answer.bytes.length = readCount (fs.descriptors slotOne) 3 ∧
      ∀ j < readCount (fs.descriptors slotOne) 3, answer.bytes[j]? =
        (lastWritten n ((fs.descriptors slotOne).pos + j) history).or
          (fileContent smallDisk n)[(fs.descriptors slotOne).pos + j]? := by
  obtain ⟨answer, history, before, after, hrun, hlabels⟩ := exists_session
  exact ⟨answer, history, before, hlabels, read_lastWritten represents_smallDisk hrun rfl⟩

/-! ### Reads one after the other -/

/-- The bytes that a call reads through a descriptor. -/
def bytesRead (d : Slot) (e : FileEvent) : List (BitVec 8) :=
  match e.1 with
  | .read c _ => if c = d then e.2.bytes else []
  | _ => []

/-- The bytes that were read through a descriptor, those that were read first in front. -/
def readThrough (d : Slot) : List (Transition Filesystem FileEvent) → List (BitVec 8)
  | [] => []
  | t :: history => readThrough d history ++ bytesRead d t.label

/-- Reads, and calls that leave an open descriptor and its file alone. -/
def LeavesAlone (d : Slot) (n : ℕ) (t : Transition Filesystem FileEvent) : Prop :=
  match t.label.1 with
  | .iopen _ => True
  | .fclose c => c ≠ d
  | .fseek c _ _ => c ≠ d
  | .read _ _ => True
  | .write c _ => c ≠ d ∧ (t.pre.descriptors c).inode.index ≠ n

section Mirrors

variable {t : Transition Filesystem FileEvent}
  {u : Transition (Store ℕ Slot (BitVec 8)) (Event ℕ Slot (BitVec 8))}
  (hm : Mirrors inodes index t u)

include hm

theorem Mirrors.gotBy_eq (d : Slot) : bytesRead d t.label = gotBy d u.label := by
  have hanswers := hm.answers
  obtain ⟨fs, ⟨call, answer⟩, fs'⟩ := t
  obtain ⟨s, e, s'⟩ := u
  dsimp only at hanswers ⊢
  cases hanswers <;> rfl

theorem Mirrors.undisturbed (halone : LeavesAlone d n t) : Undisturbed d n u.pre u.label := by
  obtain ⟨hpre, -, hanswers⟩ := hm
  obtain ⟨fs, ⟨call, answer⟩, fs'⟩ := t
  obtain ⟨s, e, s'⟩ := u
  dsimp only at hpre hanswers ⊢
  cases hanswers with
  | opened n d => trivial
  | refused n => trivial
  | closed d => exact halone
  | sought d offset whence hpos => exact halone
  | got d hlen bytes => trivial
  | put c buffer =>
    obtain ⟨hne, hindex⟩ := halone
    refine ⟨hne, fun h hc hfile ↦ hindex ?_⟩
    rw [(hpre.shows c h hc).index_eq, hfile]

end Mirrors

theorem readThrough_eq (hmirrors : List.Forall₂ (Mirrors inodes index) history stores) (d : Slot) :
    readThrough d history = received d stores := by
  induction hmirrors with
  | nil => rfl
  | cons hm _ ih => rw [readThrough, received, ih, hm.gotBy_eq]

/-- Reads through a descriptor, whatever is done through others to other files, give one part of the
file. -/
theorem reads_concatenate (h₀ : Represents inodes index fs₀ s₀)
    (hrun : Session inodes fs₀ history fs) (hopen : (fs₀.descriptors d).closed = 0)
    (hindex : (fs₀.descriptors d).inode.index = n) (halone : ∀ t ∈ history, LeavesAlone d n t) :
    (fs₀.descriptors d).pos ≤ (fs.descriptors d).pos ∧ fileContent fs n = fileContent fs₀ n ∧
      readThrough d history =
        fileBytes fs₀ n (fs₀.descriptors d).pos
        ((fs.descriptors d).pos - (fs₀.descriptors d).pos) := by
  obtain ⟨stores, s, hstores, hmirrors, hs⟩ := Session.exists_stores h₀ hrun
  obtain ⟨h, hd⟩ := h₀.exists_handle hopen
  have hshow := h₀.shows d h hd
  obtain rfl : h.file = n := by
    have hfile := hshow.index_eq.symm.trans hindex
    omega
  have hsame : ∀ u ∈ stores, Undisturbed d h.file u.pre u.label := by
    intro u hu
    obtain ⟨i, hi, rfl⟩ := List.mem_iff_getElem.mp hu
    obtain ⟨hlength, hget⟩ := List.forall₂_iff_get.mp hmirrors
    exact (hget i (hlength ▸ hi) hi).undisturbed (halone _ (List.getElem_mem _))
  obtain ⟨h', hover⟩ := Run.received_eq hstores hd hsame
  have hshow' := hs.shows d h' hover.handle
  have hle := hover.le
  have hpos := h'.pos_le
  have hfit := h₀.size_le hd
  have hsize := hover.size
  rw [hshow.pos_eq, hshow'.pos_eq, readThrough_eq hmirrors, hover.bytes_eq,
    ← hs.content _ hshow.mem, ← h₀.content _ hshow.mem]
  refine ⟨hle, hover.content, ?_⟩
  rw [fileBytes_eq (by omega), Store.part, h₀.content _ hshow.mem]

theorem reads_concatenate_twiceOpen :
    ∃ history fs, Session {1} twiceOpen history fs ∧ history.length = 2 ∧
    (twiceOpen.descriptors slotOne).pos ≤ (fs.descriptors slotOne).pos ∧
    fileContent fs 1 = fileContent twiceOpen 1 ∧
      readThrough slotOne history = fileBytes twiceOpen 1 (twiceOpen.descriptors slotOne).pos
        ((fs.descriptors slotOne).pos - (twiceOpen.descriptors slotOne).pos) := by
  obtain ⟨answer, answer', between, after, hrun⟩ := exists_reads
  refine ⟨_, after, hrun, rfl,
    reads_concatenate (d := slotOne) (n := 1) represents_twiceOpen hrun rfl rfl fun t ht ↦ ?_⟩
  rcases List.mem_cons.mp ht with rfl | ht
  · trivial
  · obtain rfl := List.mem_singleton.mp ht
    trivial

/-! ### What a session leaves alone -/

/-- The files stay in their blocks, and nothing but their bytes and their sizes changes. The list of
free blocks is the same. -/
theorem session_frame (h₀ : Represents inodes index fs₀ s₀) (hrun : Session inodes fs₀ history fs) :
    Framed inodes fs₀ fs ∧ ∀ chain, FreeList fs₀ chain →
      (∀ b ∈ chain, b.number ∈ index ∧ b.number ∉ inodes) →
      FreeList fs chain := by
  have hframe : Framed inodes fs₀ fs := by
    induction hrun with
    | start hinit =>
      subst hinit
      exact .of_image rfl rfl rfl rfl
    | next hrun hstep ih =>
      obtain ⟨stores, s, -, -, hs⟩ := Session.exists_stores h₀ hrun
      obtain ⟨a, s', -, -, -, hframe⟩ := hstep.does hs
      exact ih.trans hframe
  refine ⟨hframe, fun chain hlist hapart ↦ ?_⟩
  have hchain : IsChain fs chain := by
    refine hlist.isChain.congr hframe.blockSize hframe.blockCount fun b hb x hx ↦
      hframe.image x fun n hn ↦ ?_
    obtain ⟨hin, hout⟩ := hapart b hb
    refine ⟨?_, fun k hk hdata ↦ h₀.wellFormed.data_not_index n hn k hk ?_⟩
    · have hfits := h₀.wellFormed.fits n hn
      by_contra hmem
      obtain ⟨j, rfl⟩ := Nat.exists_eq_add_of_le (show n * fs₀.blockSize ≤ x by omega)
      rw [div_blockSize (by omega)] at hx
      exact hout (hx ▸ hn)
    · rw [← hdata, hx]
      exact hin
  exact ⟨hlist.layout.congr hframe.blockSize hframe.blockCount,
    hframe.freeBlockList.trans hlist.head, hchain, hlist.nodup⟩

theorem session_frame_smallDisk :
    ∃ history fs, Session {1} smallDisk history fs ∧ history.length = 4 ∧
    Framed {1} smallDisk fs ∧ ∀ chain, FreeList smallDisk chain →
      (∀ b ∈ chain, b.number ∈ ({2} : Set ℕ) ∧ b.number ∉ ({1} : Set ℕ)) → FreeList fs chain := by
  obtain ⟨answer, history, before, after, hrun, hlabels⟩ := exists_session
  have hlength := congrArg List.length hlabels
  rw [List.length_map] at hlength
  exact ⟨_, after, hrun, congrArg Nat.succ hlength, session_frame represents_smallDisk hrun⟩

end SysresOs.Files
