import SysresOs.Files.Lookup

/-!
# Lookups in malformed images

Every lookup ends, in any image (`exists_walks`), but not always by returning or at an assertion:
`read_dirent` has a buffer for one entry, and a directory may be so large that its size is a
negative `int`, or an entry may cross the boundary of a block so that `read` stores some of its
bytes twice (`endsOrderly_iff`).
-/

set_option autoImplicit false
set_option relaxedAutoImplicit false

namespace SysresOs.Files

open SysresOs.ByteMemory SysresOs.Outcome
open SysresOs.Memory (toInt32)

variable {fs : Filesystem} {fresh : ℕ → Memory} {head head' : Head} {ending : Ending}
  {path p : List (BitVec 8)} {n d j pos : ℕ}

/-! ### The heads of a lookup -/

/-- The walk from a head is at another head after so many rounds. -/
inductive Visits (fs : Filesystem) : (ℕ → Memory) → Head → ℕ → Head → Prop
  | here {fresh : ℕ → Memory} {head : Head} : Visits fs fresh head 0 head
  | next {fresh : ℕ → Memory} {head head' last : Head} {j : ℕ}
      (h : round fs (fresh 0) head = .ok head')
      (hv : Visits fs (fun i ↦ fresh (i + 1)) head' j last) : Visits fs fresh head (j + 1) last

/-- The rest of a walk is the walk from any of its heads. -/
theorem Visits.walks_iff (hv : Visits fs fresh head j head') :
    Walks fs fresh head ending ↔ Walks fs (fun i ↦ fresh (i + j)) head' ending := by
  induction hv with
  | here => exact Iff.rfl
  | @next fresh head head' last j h _ ih =>
    have hstep : Walks fs fresh head ending ↔ Walks fs (fun i ↦ fresh (i + 1)) head' ending := by
      refine ⟨fun hw ↦ ?_, .next h⟩
      cases hw with
      | ends hend => exact absurd (h.symm.trans hend) (by simp)
      | next h' hw =>
        obtain rfl := Except.ok.inj (h.symm.trans h')
        exact hw
    rw [hstep, ih]
    simp only [Nat.add_assoc]

/-- A walk ends in a round. -/
theorem Walks.last (hw : Walks fs fresh head ending) :
    ∃ j last, Visits fs fresh head j last ∧ round fs (fresh j) last = .error ending := by
  induction hw with
  | ends h => exact ⟨0, _, .here, h⟩
  | next h _ ih =>
    obtain ⟨j, last, hv, hlast⟩ := ih
    exact ⟨j + 1, last, .next h hv, hlast⟩

/-- The lookup of a path is at a head after so many rounds. -/
def Reaches (fs : Filesystem) (fresh : ℕ → Memory) (path : List (BitVec 8)) (j : ℕ) (head : Head) :
    Prop :=
  fs.rootInode < fs.blockCount ∧ fileSize fs fs.rootInode ≤ fs.maxFileSize ∧
    Visits fs fresh ⟨fs.rootInode, 0, relative path⟩ j head

theorem Reaches.lookupEnds_iff (hr : Reaches fs fresh path j head) :
    LookupEnds fs fresh path ending ↔ Walks fs (fun i ↦ fresh (i + j)) head ending := by
  obtain ⟨hlt, hsize, hv⟩ := hr
  rw [LookupEnds, if_pos hlt, if_pos hsize, hv.walks_iff]

/-! ### Entries that do not fit into the buffer -/

/-- The read of the entry writes behind its buffer: the size of the directory is a negative number,
or some bytes are stored twice. -/
def Overwrites (fs : Filesystem) (dir pos : ℕ) : Prop :=
  pos < fileSize fs dir ∧
    ((2 ^ 31 ≤ fileSize fs dir ∧ dataBlock fs dir 0 < fs.blockCount) ∨
      (fileSize fs dir < 2 ^ 31 ∧ InRange fs dir pos (pos + entryCount fs dir pos) ∧
        directoryEntrySize < entryEnd fs dir pos - pos))

/-- The code's own ways to end a lookup: it returns, or an assertion fails. -/
def Ending.Orderly : Ending → Prop
  | .missing => True
  | .found _ => True
  | .stopped stop => ∃ which, stop = .assertion which

theorem follow_orderly {inode : ℕ} (h : follow fs path inode = .error ending) : ending.Orderly := by
  unfold follow at h
  split_ifs at h
  · obtain rfl := Except.error.inj h
    trivial
  · obtain rfl := Except.error.inj h
    exact ⟨_, rfl⟩
  · obtain rfl := Except.error.inj h
    exact ⟨_, rfl⟩

/-- A round ends the lookup in another way only where an entry does not fit. -/
theorem round_orderly {buffer : Memory} (h : round fs buffer head = .error ending) :
    ending.Orderly ↔ ¬ Overwrites fs head.dir head.pos := by
  unfold round at h
  unfold Overwrites
  by_cases hend : fileSize fs head.dir ≤ head.pos
  · rw [if_pos hend] at h
    obtain rfl := Except.error.inj h
    exact iff_of_true trivial fun hover ↦ absurd hover.1 (not_lt.mpr hend)
  · rw [if_neg hend] at h
    cases hstop : entryStop fs head.dir head.pos with
    | none =>
      obtain ⟨hsize, -, hfits⟩ := entryStop_eq_none hstop
      rw [hstop] at h
      dsimp only at h
      refine iff_of_true ?_ (by omega)
      split_ifs at h
      exact follow_orderly h
    | some stop =>
      rw [hstop] at h
      obtain rfl := Except.error.inj h
      unfold entryStop at hstop
      split_ifs at hstop with hbig hdata hrange hover
      · obtain rfl := Option.some.inj hstop
        exact iff_of_false (by simp [Ending.Orderly])
          (not_not.mpr ⟨not_le.mp hend, .inl ⟨hbig, hdata⟩⟩)
      · obtain rfl := Option.some.inj hstop
        exact iff_of_true ⟨_, rfl⟩ (by omega)
      · obtain rfl := Option.some.inj hstop
        exact iff_of_false (by simp [Ending.Orderly])
          (not_not.mpr ⟨not_le.mp hend, .inr ⟨by omega, hrange, hover⟩⟩)
      · obtain rfl := Option.some.inj hstop
        exact iff_of_true ⟨_, rfl⟩ fun h ↦ h.2.elim (fun h ↦ hbig h.1) (fun h ↦ hrange h.2.1)

/-- The entry at a head with another head after it fits. -/
theorem not_overwrites_of_round {buffer : Memory} (h : round fs buffer head = .ok head') :
    ¬ Overwrites fs head.dir head.pos := by
  obtain ⟨-, hstop, -⟩ := round_ok h
  obtain ⟨hsize, -, hfits⟩ := entryStop_eq_none hstop
  rintro ⟨-, ⟨hbig, -⟩ | ⟨-, -, hover⟩⟩
  · omega
  · omega

/-- A walk ends by returning or at an assertion exactly if every entry that it reads fits. -/
theorem Walks.orderly (hw : Walks fs fresh head ending) :
    ending.Orderly ↔ ∀ j last, Visits fs fresh head j last → ¬ Overwrites fs last.dir last.pos := by
  induction hw with
  | ends h =>
    refine ⟨fun horderly j last hv ↦ ?_, fun hfits ↦ (round_orderly h).mpr (hfits 0 _ .here)⟩
    cases hv with
    | here => exact (round_orderly h).mp horderly
    | next h' _ => exact absurd (h.symm.trans h') (by simp)
  | next h _ ih =>
    rw [ih]
    refine ⟨fun hfits j last hv ↦ ?_, fun hfits j last hv ↦ hfits (j + 1) last (.next h hv)⟩
    cases hv with
    | here => exact not_overwrites_of_round h
    | next h' hv =>
      obtain rfl := Except.ok.inj (h.symm.trans h')
      exact hfits _ last hv

theorem LookupEnds.orderly (hends : LookupEnds fs fresh path ending) :
    ending.Orderly ↔ ∀ j head, Reaches fs fresh path j head →
      ¬ Overwrites fs head.dir head.pos := by
  unfold LookupEnds at hends
  split_ifs at hends with hlt hsize
  · rw [hends.orderly]
    exact ⟨fun hfits j head hr ↦ hfits j head hr.2.2,
      fun hfits j head hv ↦ hfits j head ⟨hlt, hsize, hv⟩⟩
  · rw [hends]
    exact iff_of_true ⟨_, rfl⟩ fun j head hr ↦ absurd hr.2.1 hsize
  · rw [hends]
    exact iff_of_true ⟨_, rfl⟩ fun j head hr ↦ absurd hr.1 hlt

/-- After finitely many rounds the lookup returns, or an assertion of the code fails. -/
def EndsOrderly (fs : Filesystem) (fresh : ℕ → Memory) (path : List (BitVec 8)) : Prop :=
  ∃ bound, ∀ k ≥ bound, (∃ res, inodeOfPath fresh k fs path = .ok res) ∨
    ∃ which, inodeOfPath fresh k fs path = .error (.assertion which)

theorem Ending.Result.orderly {res : Except Stop (Filesystem × ℤ)} (h : ending.Result fs d res) :
    ending.Orderly ↔ (∃ r, res = .ok r) ∨ ∃ which, res = .error (.assertion which) := by
  cases ending with
  | missing =>
    obtain ⟨_, _, _, rfl⟩ := h
    exact iff_of_true trivial (.inl ⟨_, rfl⟩)
  | found inode =>
    obtain ⟨_, _, _, rfl⟩ := h
    exact iff_of_true trivial (.inl ⟨_, rfl⟩)
  | stopped stop =>
    obtain rfl : res = .error stop := h
    simp [Ending.Orderly]

theorem LookupEnds.orderlyEnd_iff (h : InMemory fs) (hroot : fs.rootInode < 2 ^ 32)
    (hne : toInt32 fs.rootInode ≠ -1)
    (hslot : ∃ d < maxFileDescriptors, (fs.descriptors d).closed ≠ 0)
    (hends : LookupEnds fs fresh path ending) : EndsOrderly fs fresh path ↔ ending.Orderly := by
  obtain ⟨d, hd, hnext, -⟩ := slot_of_closed hslot
  obtain ⟨bound, hrun⟩ := hends.run h hroot hne hnext hd
  refine ⟨?_, fun horderly ↦ ⟨bound, fun k hk ↦ (hrun k hk).orderly.mp horderly⟩⟩
  rintro ⟨bound', horderly⟩
  exact (hrun _ (le_max_left bound bound')).orderly.mpr (horderly _ (le_max_right bound bound'))

/-- With a free descriptor the lookup ends by returning or at an assertion exactly if there is a
root directory to open and no entry that the lookup comes to is too large for its buffer. -/
theorem endsOrderly_iff (h : InMemory fs) (hroot : fs.rootInode < 2 ^ 32)
    (hslot : ∃ d < maxFileDescriptors, (fs.descriptors d).closed ≠ 0) (fresh : ℕ → Memory)
    (path : List (BitVec 8)) : EndsOrderly fs fresh path ↔ toInt32 fs.rootInode ≠ -1 ∧
      ∀ j head, Reaches fs fresh path j head → ¬ Overwrites fs head.dir head.pos := by
  by_cases hne : toInt32 fs.rootInode = -1
  · refine iff_of_false ?_ fun hright ↦ hright.1 hne
    rintro ⟨bound, hbound⟩
    have hout : inodeOfPath fresh (bound + 1) fs path = .error (.outOfBounds (-1)) :=
      inodeOfPath_of_noDescriptor (.inr hne) bound
    rcases hbound (bound + 1) (Nat.le_succ bound) with ⟨res, hres⟩ | ⟨which, hres⟩
    · exact absurd (hout.symm.trans hres) (by simp)
    · exact absurd (hout.symm.trans hres) (by simp)
  · obtain ⟨ending, hends⟩ := exists_lookupEnds h fresh path
    rw [hends.orderlyEnd_iff h hroot hne hslot, hends.orderly, and_iff_right hne]

/-- The condition at the small tree, for the path `a`. -/
theorem endsOrderly_iff_treeDisk : EndsOrderly treeDisk (fun _ _ ↦ 0) [0x61] ↔ toInt32 1 ≠ -1 ∧
    ∀ j head, Reaches treeDisk (fun _ _ ↦ 0) [0x61] j head →
    ¬ Overwrites treeDisk head.dir head.pos :=
  endsOrderly_iff wellFormed_treeDisk.layout.inMemory (by decide) ⟨0, by decide, by decide⟩ _ _

/-- Four blocks of 40 bytes with a directory of two entries. The second one is in two blocks. -/
def crookedDisk : Filesystem :=
  { treeDisk with
    image := imageOf [(10, 1), (11, 1), (12, 64), (13, 2), (14, 3)]
    blockSize := 40
    blockCount := 4 }

/-- The read of the second entry stores 40 bytes into the buffer of 32 bytes. -/
theorem not_endsOrderly_crookedDisk : ¬ EndsOrderly crookedDisk (fun _ _ ↦ 0) [0x78] := by
  have hfirst : round crookedDisk (fun _ ↦ 0) ⟨1, 0, [0x78]⟩ = .ok ⟨1, 32, [0x78]⟩ := by
    decide +kernel
  have hsecond : round crookedDisk (fun _ ↦ 0) ⟨1, 32, [0x78]⟩ = .error (.stopped .overrun) := by
    decide +kernel
  have hends : LookupEnds crookedDisk (fun _ _ ↦ 0) [0x78] (.stopped .overrun) := by
    have hsize : fileSize crookedDisk crookedDisk.rootInode ≤ crookedDisk.maxFileSize := by
      decide +kernel
    rw [LookupEnds, if_pos (by decide), if_pos hsize]
    exact .next hfirst (.ends hsecond)
  have hmem : InMemory crookedDisk := ⟨by decide, by decide⟩
  rw [hends.orderlyEnd_iff hmem (by decide) (by decide) ⟨0, by decide, by decide⟩]
  rintro ⟨which, hstop⟩
  cases hstop

end SysresOs.Files
