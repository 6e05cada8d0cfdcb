import SysresOs.Files.Malformed

/-!
# The descriptors after `fopen`

`inode_of_path` opens a descriptor for the directory that it reads. At the end of a directory it
closes it, but where it returns an inode it does not, so that a call of `fopen` that finds a file
takes two descriptors. `fopen` keeps the table as it should exactly if a descriptor is free for the
lookup, every entry that the lookup reads fits into its buffer, and it finds no file that could be
opened (`keepsDescriptors_iff`).
-/

set_option autoImplicit false
set_option relaxedAutoImplicit false

namespace SysresOs.Files

open SysresOs.ByteMemory SysresOs.Outcome
open SysresOs.Memory (toInt32)

variable {fs fs' : Filesystem} {fresh : ℕ → Memory} {head : Head} {ending : Ending}
  {path : List (BitVec 8)} {d dir pos cursor : ℕ} {v : ℤ}

/-! ### Keeping the table -/

/-- The descriptor is as it was. What a closed descriptor holds does not matter. -/
def SlotKept (fs fs' : Filesystem) (i : ℕ) : Prop :=
  fs'.descriptors i = fs.descriptors i ∨
    ((fs.descriptors i).closed ≠ 0 ∧ (fs'.descriptors i).closed ≠ 0)

/-- A call of `fopen` that returns has opened one descriptor that was closed, or none. A call that
does not return ends at an assertion, and not by an access to what the table or a buffer does not
have. -/
def FopenKeeps (fs : Filesystem) : Except Stop (Filesystem × ℤ) → Prop
  | .ok (fs', slot) =>
    (∃ d < maxFileDescriptors, slot = d ∧ (fs.descriptors d).closed ≠ 0 ∧
      (fs'.descriptors d).closed = 0 ∧ ∀ i < maxFileDescriptors, i ≠ d → SlotKept fs fs' i) ∨
    (slot = -1 ∧ ∀ i < maxFileDescriptors, SlotKept fs fs' i)
  | .error (.assertion _) => True
  | .error _ => False

/-- `fopen` keeps the table, once there are enough rounds for the lookup to end. -/
def KeepsDescriptors (fs : Filesystem) (fresh : ℕ → Memory) (path : List (BitVec 8)) : Prop :=
  ∃ bound, ∀ k ≥ bound, FopenKeeps fs (fopen fresh k fs path)

/-- Two descriptors are closed. -/
def TwoClosed (fs : Filesystem) : Prop :=
  ∃ d < maxFileDescriptors, ∃ d' < maxFileDescriptors, d ≠ d' ∧ (fs.descriptors d).closed ≠ 0 ∧
    (fs.descriptors d').closed ≠ 0

/-- `fopen` does not come to return the inode that its lookup has found: there is a descriptor for
it, but its number is none of an inode in the image. -/
def Unopened (fs : Filesystem) (v : ℤ) : Prop :=
  TwoClosed fs ∧ v ≠ -1 ∧ ∃ stop, readInode fs v = .error stop

/-! ### Lookups that stop -/

theorem entryStop_ne_outOfBounds {i : ℤ} : entryStop fs dir pos ≠ some (.outOfBounds i) := by
  unfold entryStop
  split_ifs <;> simp

/-- No lookup with a descriptor leaves the table. -/
theorem Walks.ne_outOfBounds {i : ℤ} (hw : Walks fs fresh head ending) :
    ending ≠ .stopped (.outOfBounds i) := by
  rintro rfl
  obtain ⟨j, last, -, hround⟩ := hw.last
  unfold round at hround
  by_cases hend : fileSize fs last.dir ≤ last.pos
  · rw [if_pos hend] at hround
    cases hround
  · rw [if_neg hend] at hround
    cases hstop : entryStop fs last.dir last.pos with
    | some stop =>
      rw [hstop] at hround
      obtain rfl := Ending.stopped.inj (Except.error.inj hround)
      exact entryStop_ne_outOfBounds hstop
    | none =>
      rw [hstop] at hround
      dsimp only at hround
      split_ifs at hround
      obtain ⟨which, hwhich⟩ := follow_orderly hround
      cases hwhich

theorem LookupEnds.ne_outOfBounds {i : ℤ} (hends : LookupEnds fs fresh path ending) :
    ending ≠ .stopped (.outOfBounds i) := by
  unfold LookupEnds at hends
  split_ifs at hends
  · exact hends.ne_outOfBounds
  · rw [hends]
    simp
  · rw [hends]
    simp

/-! ### Opening the inode found -/

/-- `read_inode` does not look at the descriptors. -/
theorem readInode_atHead (fs : Filesystem) (d cursor dir pos : ℕ) (v : ℤ) :
    readInode (atHead fs d cursor dir pos) v = (readInode fs v).map fun res ↦
      ({ atHead fs d cursor dir pos with seekCursor := res.1.seekCursor }, res.2) := by
  unfold readInode seekBlock atHead assert
  dsimp only
  by_cases hblock : toUint32 v < fs.blockCount
  · simp only [if_pos (decide_eq_true hblock), ok_bind]
    split_ifs <;> rfl
  · rw [if_neg (by simpa using hblock)]
    rfl

theorem readInode_error {stop : Stop} (h : readInode fs v = .error stop) :
    ∃ which, stop = .assertion which := by
  unfold readInode seekBlock assert at h
  by_cases hblock : toUint32 v < fs.blockCount
  · rw [if_pos (decide_eq_true hblock), ok_bind, ok_bind] at h
    dsimp only at h
    split_ifs at h
    · cases h
    · obtain rfl := Except.error.inj h
      exact ⟨_, rfl⟩
  · rw [if_neg (by simpa using hblock)] at h
    obtain rfl := Except.error.inj h
    exact ⟨_, rfl⟩

/-! ### The three endings -/

/-- The descriptor of the lookup is closed again. -/
theorem fopenKeeps_missing (hd : (fs.descriptors d).closed ≠ 0) : FopenKeeps fs (iopen
    { fs with
      seekCursor := cursor
      descriptors := Function.update fs.descriptors d ⟨inodeAt fs dir, pos, 1⟩ } (-1)) := by
  rw [iopen, if_pos (.inr rfl)]
  refine .inr ⟨rfl, fun i _ ↦ ?_⟩
  by_cases hi : i = d
  · subst hi
    refine .inr ⟨hd, ?_⟩
    dsimp only
    rw [Function.update_self]
    exact Nat.one_ne_zero
  · exact .inl (Function.update_of_ne hi _ _)

theorem atHead_descriptor_of_ne {i : ℕ} (hne : i ≠ d) :
    (atHead fs d cursor dir pos).descriptors i = fs.descriptors i := Function.update_of_ne hne _ _

/-- Another descriptor can be opened beside that of the lookup. -/
theorem twoClosed_iff (hd : d < maxFileDescriptors) (hclosed : (fs.descriptors d).closed ≠ 0) :
    TwoClosed fs ↔ ∃ i < maxFileDescriptors, ((atHead fs d cursor dir pos).descriptors i).closed ≠
      0 := by
  constructor
  · rintro ⟨i, hi, i', hi', hne, hiclosed, hiclosed'⟩
    by_cases hid : i = d
    · refine ⟨i', hi', ?_⟩
      rwa [atHead_descriptor_of_ne (by omega)]
    · refine ⟨i, hi, ?_⟩
      rwa [atHead_descriptor_of_ne hid]
  · rintro ⟨i, hi, hiclosed⟩
    have hne : i ≠ d := by
      rintro rfl
      rw [atHead_descriptor] at hiclosed
      exact hiclosed rfl
    rw [atHead_descriptor_of_ne hne] at hiclosed
    exact ⟨i, hi, d, hd, hne, hiclosed, hclosed⟩

/-- The descriptor of the lookup is not kept where it stays open. -/
theorem not_slotKept_of_open (hclosed : (fs.descriptors d).closed ≠ 0)
    (hopen : (fs'.descriptors d).closed = 0) : ¬ SlotKept fs fs' d := by
  rintro (heq | ⟨-, hclosed'⟩)
  · rw [heq] at hopen
    exact hclosed hopen
  · exact hclosed' hopen

/-- The descriptor of the lookup stays open, so that the table is kept only if the call does not
return. -/
theorem fopenKeeps_found (hd : d < maxFileDescriptors) (hclosed : (fs.descriptors d).closed ≠ 0) :
    FopenKeeps fs (iopen (atHead fs d cursor dir pos) v) ↔ Unopened fs v := by
  have hopen : ((atHead fs d cursor dir pos).descriptors d).closed = 0 := by
    rw [atHead_descriptor]
  unfold Unopened
  by_cases htwo : TwoClosed fs
  · obtain ⟨d', hd', hslot, hclosed'⟩ := slot_of_closed ((twoClosed_iff hd hclosed).mp htwo)
    have hne : d ≠ d' := by
      rintro rfl
      exact hclosed' hopen
    by_cases hv : v = -1
    · rw [iopen, if_pos (.inr hv)]
      refine iff_of_false ?_ fun h ↦ h.2.1 hv
      rintro (⟨i, _, hi, _⟩ | ⟨-, hkept⟩)
      · omega
      · exact not_slotKept_of_open hclosed hopen (hkept d hd)
    · unfold iopen
      rw [hslot, if_neg (not_or.mpr ⟨by omega, hv⟩), readInode_atHead]
      cases hread : readInode fs v with
      | error stop =>
        obtain ⟨which, rfl⟩ := readInode_error hread
        exact iff_of_true trivial ⟨htwo, hv, _, rfl⟩
      | ok res =>
        refine iff_of_false ?_ fun h ↦ by simpa using h.2.2
        change ¬ FopenKeeps fs (Except.ok _ >>= _)
        rw [ok_bind]
        dsimp only
        rw [setDescriptor_natCast hd', ok_bind]
        rintro (⟨i, _, hi, _, _, hkept⟩ | ⟨hslot', _⟩)
        · have hi' : d ≠ i := by omega
          refine not_slotKept_of_open hclosed ?_ (hkept d hd hi')
          dsimp only
          rw [Function.update_of_ne hne]
          exact hopen
        · omega
  · have hfull : getNextAvailableFileDescriptorSlot (atHead fs d cursor dir pos) = -1 := by
      apply slot_of_full
      intro i hi
      by_contra hi'
      exact htwo ((twoClosed_iff hd hclosed).mpr ⟨i, hi, hi'⟩)
    rw [iopen, if_pos (.inl hfull)]
    refine iff_of_false ?_ fun h ↦ htwo h.1
    rintro (⟨i, _, hi, _⟩ | ⟨-, hkept⟩)
    · omega
    · exact not_slotKept_of_open hclosed hopen (hkept d hd)

/-! ### The call -/

/-- The endings with which the table is kept. -/
def Ending.Keeps (fs : Filesystem) (ending : Ending) : Prop :=
  ending.Orderly ∧ ∀ v, ending = .found v → Unopened fs v

theorem Ending.Result.fopenKeeps {res : Except Stop (Filesystem × ℤ)} (h : ending.Result fs d res)
    (hd : d < maxFileDescriptors) (hclosed : (fs.descriptors d).closed ≠ 0) :
    FopenKeeps fs (res >>= fun r ↦ iopen r.1 r.2) ↔ ending.Keeps fs := by
  unfold Ending.Keeps
  cases ending with
  | missing =>
    obtain ⟨cursor, dir, pos, rfl⟩ := h
    rw [ok_bind]
    exact iff_of_true (fopenKeeps_missing hclosed) ⟨trivial, fun v ↦ nofun⟩
  | found v =>
    obtain ⟨cursor, dir, pos, rfl⟩ := h
    rw [ok_bind, fopenKeeps_found hd hclosed]
    constructor
    · rintro hunopened
      refine ⟨trivial, ?_⟩
      rintro w ⟨⟩
      exact hunopened
    · exact fun hkeeps ↦ hkeeps.2 v rfl
  | stopped stop =>
    obtain rfl : res = .error stop := h
    rw [error_bind]
    cases stop with
    | assertion which => exact iff_of_true trivial ⟨⟨which, rfl⟩, fun v ↦ nofun⟩
    | _ => exact iff_of_false (fun h ↦ h) (by rintro ⟨⟨which, ⟨⟩⟩, -⟩)

theorem LookupEnds.descriptorsKept_iff (h : InMemory fs) (hroot : fs.rootInode < 2 ^ 32)
    (hne : toInt32 fs.rootInode ≠ -1)
    (hslot : ∃ d < maxFileDescriptors, (fs.descriptors d).closed ≠ 0)
    (hends : LookupEnds fs fresh path ending) :
    KeepsDescriptors fs fresh path ↔ ending.Keeps fs := by
  obtain ⟨d, hd, hnext, hclosed⟩ := slot_of_closed hslot
  obtain ⟨bound, hrun⟩ := hends.run h hroot hne hnext hd
  have hkeeps : ∀ k ≥ bound, FopenKeeps fs (fopen fresh k fs path) ↔ ending.Keeps fs := fun k hk ↦
    (hrun k hk).fopenKeeps hd hclosed
  refine ⟨?_, fun hright ↦ ⟨bound, fun k hk ↦ (hkeeps k hk).mpr hright⟩⟩
  rintro ⟨bound', hleft⟩
  exact (hkeeps _ (le_max_left bound bound')).mp (hleft _ (le_max_right bound bound'))

/-- Without a descriptor for the lookup, `fopen` accesses what is before the table. -/
theorem not_keepsDescriptors
    (h : getNextAvailableFileDescriptorSlot fs = -1 ∨ toInt32 fs.rootInode = -1) :
    ¬ KeepsDescriptors fs fresh path := by
  rintro ⟨bound, hkeeps⟩
  have hlast := hkeeps (bound + 1) (Nat.le_succ bound)
  rw [fopen, inodeOfPath_of_noDescriptor h, error_bind] at hlast
  exact hlast

/-- `fopen` keeps the table exactly if a descriptor is free, there is a root directory, every entry
that the lookup reads fits into its buffer, and the lookup finds no file, or only the number of an
inode that the image does not have while another descriptor is free. -/
theorem keepsDescriptors_iff (h : InMemory fs) (hroot : fs.rootInode < 2 ^ 32) (fresh : ℕ → Memory)
    (path : List (BitVec 8)) : KeepsDescriptors fs fresh path ↔
      (∃ d < maxFileDescriptors, (fs.descriptors d).closed ≠ 0) ∧ toInt32 fs.rootInode ≠ -1 ∧
        (∀ j head, Reaches fs fresh path j head → ¬ Overwrites fs head.dir head.pos) ∧
        ∀ v, LookupEnds fs fresh path (.found v) → Unopened fs v := by
  by_cases hslot : ∃ d < maxFileDescriptors, (fs.descriptors d).closed ≠ 0
  · by_cases hne : toInt32 fs.rootInode = -1
    · exact iff_of_false (not_keepsDescriptors (.inr hne)) fun hright ↦ hright.2.1 hne
    · obtain ⟨ending, hends⟩ := exists_lookupEnds h fresh path
      rw [hends.descriptorsKept_iff h hroot hne hslot, and_iff_right hslot, and_iff_right hne,
        Ending.Keeps, hends.orderly]
      refine and_congr_right fun _ ↦ forall_congr' fun v ↦
        ⟨fun hkeeps hfound ↦ ?_, fun hall heq ↦ ?_⟩
      · exact hkeeps (hends.unique hfound)
      · exact hall (heq ▸ hends)
  · push Not at hslot
    refine iff_of_false (not_keepsDescriptors (.inl (slot_of_full hslot))) ?_
    rintro ⟨⟨d, hd, hclosed⟩, -⟩
    exact hclosed (hslot d hd)

theorem keepsDescriptors_iff_treeDisk : KeepsDescriptors treeDisk (fun _ _ ↦ 0) [0x78] ↔
    (∃ d < maxFileDescriptors, (treeDisk.descriptors d).closed ≠ 0) ∧ toInt32 1 ≠ -1 ∧
      (∀ j head, Reaches treeDisk (fun _ _ ↦ 0) [0x78] j head →
      ¬ Overwrites treeDisk head.dir head.pos) ∧
      ∀ v, LookupEnds treeDisk (fun _ _ ↦ 0) [0x78] (.found v) → Unopened treeDisk v :=
  keepsDescriptors_iff wellFormed_treeDisk.layout.inMemory (by decide) _ _

/-- `fopen` of the file a of the small tree, with all descriptors closed, leaves two of them
open. -/
theorem not_keepsDescriptors_treeDisk : ¬ KeepsDescriptors treeDisk (fun _ _ ↦ 0) [0x61] := by
  have hfirst : round treeDisk (fun _ ↦ 0) ⟨1, 0, [0x61]⟩ = .ok ⟨1, 32, [0x61]⟩ := by decide +kernel
  have hsecond : round treeDisk (fun _ ↦ 0) ⟨1, 32, [0x61]⟩ = .error (.found 2) := by decide +kernel
  have hends : LookupEnds treeDisk (fun _ _ ↦ 0) [0x61] (.found 2) := by
    have hsize : fileSize treeDisk treeDisk.rootInode ≤ treeDisk.maxFileSize := by decide +kernel
    rw [LookupEnds, if_pos (by decide), if_pos hsize]
    exact .next hfirst (.ends hsecond)
  rw [hends.descriptorsKept_iff wellFormed_treeDisk.layout.inMemory (by decide) (by decide) ⟨0,
    by decide, by decide⟩]
  rintro ⟨-, hunopened⟩
  obtain ⟨-, -, stop, hstop⟩ := hunopened 2 rfl
  have hread : (readInode treeDisk 2).isOk = true := by decide +kernel
  rw [hstop] at hread
  exact Bool.false_ne_true hread

end SysresOs.Files
