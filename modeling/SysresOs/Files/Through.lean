import SysresOs.Files.Malformed

/-!
# Paths through a file

`print_directory` looks at the kind of an inode before it goes on in it, `inode_of_path` does not:
if a name in the middle of a path is that of a file, the bytes of the file are read as entries. No
path through the file is found exactly if none of these entries has a name, so that each of them
begins with a zero (`refuses_iff`).
-/

set_option autoImplicit false
set_option relaxedAutoImplicit false

namespace SysresOs.Files

open SysresOs.ByteMemory SysresOs.Outcome
open SysresOs.Memory (toInt32)

variable {fs : Filesystem} {fresh : ℕ → Memory} {head head' : Head} {ending : Ending}
  {path p rest : List (BitVec 8)} {n d i j pos : ℕ}

/-! ### Records -/

/-- The position of the record `i` of a file that is read as a directory. -/
def recordPos (fs : Filesystem) (n : ℕ) : ℕ → ℕ
  | 0 => 0
  | i + 1 => entryEnd fs n (recordPos fs n i)

/-- All records of a file can be read, and none has a name. -/
def Blank (fs : Filesystem) (n : ℕ) : Prop :=
  ∀ i, recordPos fs n i < fileSize fs n →
    entryStop fs n (recordPos fs n i) = none ∧ fileByte fs n (recordPos fs n i) = 0

theorem le_recordPos (h : InMemory fs) (hlt : ∀ k < i, recordPos fs n k < fileSize fs n) :
    i ≤ recordPos fs n i := by
  induction i with
  | zero => exact Nat.zero_le _
  | succ i ih =>
    have hle := ih fun k hk ↦ hlt k (Nat.lt_succ_of_lt hk)
    have hnext := lt_entryEnd h (hlt i (Nat.lt_succ_self i))
    rw [recordPos]
    omega

/-! ### Names -/

/-- No path begins with an empty name. -/
theorem filenameMatch_of_blank {dirname : Memory} (h : dirname 0 = 0) (path : List (BitVec 8)) :
    filenameMatch path dirname ≤ 0 := by
  rw [filenameMatch, filenameMaxSize, filenameMatchLoop, h]
  by_cases hends : endsAt path 0 = true
  · rw [if_pos ⟨hends, rfl⟩]
    exact le_rfl
  · have hne : charAt path 0 ≠ 0 := fun hzero ↦ hends (decide_eq_true (.inr hzero))
    rw [if_neg fun hboth ↦ hends hboth.1, if_pos hne]
    decide

/-- The name of an entry, with any characters in it. -/
def nameOf (dirname : Memory) : List (BitVec 8) :=
  (read dirname 0 filenameMaxSize).takeWhile (· ≠ 0)

/-- A path that begins with the name matches it. -/
theorem filenameMatchLoop_self {dirname : Memory} {name tail : List (BitVec 8)} {left cur : ℕ}
    (hpath : path.drop cur = name ++ tail) (htail : endsAt tail 0 = true) (hzero : 0 ∉ name)
    (hlength : name.length ≤ left)
    (hname : ∀ i ≤ name.length, i < left → dirname (cur + i) = charAt name i) :
    filenameMatchLoop path dirname left cur = (cur + name.length : ℕ) := by
  have hends : endsAt path cur = endsAt (name ++ tail) 0 := by rw [← hpath, endsAt_drop]
  have hchar : charAt path cur = charAt (name ++ tail) 0 := by rw [← hpath, charAt_drop]
  induction left generalizing cur name with
  | zero =>
    obtain rfl := List.eq_nil_of_length_eq_zero (Nat.le_zero.mp hlength)
    rw [filenameMatchLoop, hends, List.nil_append, htail, if_pos rfl, List.length_nil, Nat.add_zero]
  | succ left ih =>
    have hfirst := hname 0 (Nat.zero_le _) (Nat.succ_pos left)
    rw [Nat.add_zero] at hfirst
    rw [filenameMatchLoop, hends, hchar, hfirst]
    cases name with
    | nil => rw [List.nil_append, htail, if_pos ⟨rfl, rfl⟩, List.length_nil, Nat.add_zero]
    | cons a name =>
      have ha : charAt (a :: name) 0 = a := rfl
      have hne : ¬ (endsAt (a :: name ++ tail) 0 = true ∧ charAt (a :: name) 0 = 0) := fun h ↦
        hzero (by simp [← h.2, ha])
      have hsame : ¬ charAt (a :: name ++ tail) 0 ≠ charAt (a :: name) 0 := not_not.mpr rfl
      have hnext : path.drop (cur + 1) = name ++ tail := by
        rw [← List.drop_drop, hpath]
        rfl
      rw [if_neg hne, if_neg hsame,
        ih hnext (fun h ↦ hzero (List.mem_cons_of_mem a h)) (by simpa using hlength)
        (fun i hi hlt ↦ ?_) (by rw [← hnext, endsAt_drop]) (by rw [← hnext, charAt_drop]),
        List.length_cons]
      · rw [Nat.add_right_comm, Nat.add_assoc]
      · rw [Nat.add_assoc, Nat.add_comm 1 i]
        exact hname (i + 1) (Nat.succ_le_succ hi) (Nat.succ_lt_succ hlt)

theorem filenameMatch_nameOf {dirname : Memory} {tail : List (BitVec 8)}
    (htail : endsAt tail 0 = true) :
    filenameMatch (nameOf dirname ++ tail) dirname = ((nameOf dirname).length : ℤ) := by
  have hlength : (read dirname 0 filenameMaxSize).length = filenameMaxSize := by
    rw [ByteMemory.read, List.length_map, List.length_range]
  have hle : (nameOf dirname).length ≤ filenameMaxSize :=
    hlength ▸ (List.takeWhile_sublist _).length_le
  have hzero : (0 : BitVec 8) ∉ nameOf dirname := not_mem_takeWhile _
  rw [filenameMatch, filenameMatchLoop_self List.drop_zero htail hzero hle fun i hi hlt ↦ ?_,
    Nat.zero_add]
  rw [nameOf, charAt_takeWhile hi, charAt, ByteMemory.read, List.getElem?_map,
    List.getElem?_range hlt, Option.map_some, Option.getD_some]

/-- A character with no zero before it is in the name. -/
theorem mem_nameOf {dirname : Memory} (hi : i < filenameMaxSize) (hne : ∀ k ≤ i, dirname k ≠ 0) :
    dirname i ∈ nameOf dirname := by
  obtain ⟨m, hm⟩ := Nat.exists_eq_add_of_le (Nat.succ_le_of_lt hi)
  rw [nameOf, ByteMemory.read, hm, List.range_add, List.map_append, List.takeWhile_append_of_pos]
  · refine List.mem_append_left _ (List.mem_map.mpr ⟨i, List.mem_range.mpr (Nat.lt_succ_self i),
      ?_⟩)
    rw [Nat.zero_add]
  · intro a ha
    obtain ⟨k, hk, rfl⟩ := List.mem_map.mp ha
    have hk := hne k (Nat.le_of_lt_succ (List.mem_range.mp hk))
    simpa using hk

theorem nameOf_ne_nil {dirname : Memory} (h : dirname 0 ≠ 0) : nameOf dirname ≠ [] := by
  rw [nameOf, ByteMemory.read, filenameMaxSize, List.range_succ_eq_map, List.map_cons,
    List.takeWhile_cons_of_pos (by simpa using h)]
  exact List.cons_ne_nil _ _

/-! ### The walk over the records -/

theorem Visits.snoc (hv : Visits fs fresh head j head') {last : Head}
    (h : round fs (fresh j) head' = .ok last) : Visits fs fresh head (j + 1) last := by
  induction hv with
  | here => exact .next h .here
  | next hfirst _ ih => exact .next hfirst (ih h)

/-- The first character of the name of an entry is in the file. -/
theorem entryAt_name_zero (h : InMemory fs) (hlt : pos < fileSize fs n) (buffer : Memory) :
    (entryAt fs buffer n pos).name 0 = fileByte fs n pos := by
  have hend := lt_entryEnd h hlt
  rw [entryAt, direntOf]
  dsimp only
  rw [write_of_not_mem (Or.inl (by decide)), write_fileBytes (by omega), Nat.add_zero]

/-- A record without a name is passed over. -/
theorem round_blank (h : InMemory fs) (hlt : pos < fileSize fs n)
    (hstop : entryStop fs n pos = none) (hblank : fileByte fs n pos = 0) (buffer : Memory) :
    round fs buffer ⟨n, pos, rest⟩ = .ok ⟨n, entryEnd fs n pos, rest⟩ := by
  have hmatch : ¬ 0 < filenameMatch rest (entryAt fs buffer n pos).name := by
    apply not_lt.mpr
    apply filenameMatch_of_blank
    rw [entryAt_name_zero h hlt, hblank]
  unfold round
  rw [if_neg (not_le.mpr hlt), hstop]
  dsimp only
  rw [if_neg hmatch]

/-- The walk comes to a record if those before it have no name. -/
theorem visits_recordPos (h : InMemory fs) (hbefore : ∀ k < i, recordPos fs n k < fileSize fs n ∧
    entryStop fs n (recordPos fs n k) = none ∧ fileByte fs n (recordPos fs n k) = 0)
    (fresh : ℕ → Memory) (rest : List (BitVec 8)) :
    Visits fs fresh ⟨n, 0, rest⟩ i ⟨n, recordPos fs n i, rest⟩ := by
  induction i with
  | zero => exact .here
  | succ i ih =>
    obtain ⟨hlt, hstop, hblank⟩ := hbefore i (Nat.lt_succ_self i)
    exact (ih fun k hk ↦ hbefore k (Nat.lt_succ_of_lt hk)).snoc (round_blank h hlt hstop hblank _)

/-- Nothing is found in a file without names. -/
theorem Blank.walks (hblank : Blank fs n) (h : InMemory fs) (fresh : ℕ → Memory)
    (rest : List (BitVec 8)) : Walks fs fresh ⟨n, 0, rest⟩ .missing := by
  have hexists : ∃ i, fileSize fs n ≤ recordPos fs n i := by
    by_contra hnone
    push Not at hnone
    exact absurd (le_recordPos h fun k _ ↦ hnone k) (not_le.mpr (hnone (fileSize fs n)))
  have hbefore : ∀ k < Nat.find hexists, recordPos fs n k < fileSize fs n := fun k hk ↦
    not_le.mp (Nat.find_min hexists hk)
  have hv := visits_recordPos h (fun k hk ↦ ⟨hbefore k hk, hblank k (hbefore k hk)⟩) fresh rest
  refine hv.walks_iff.mpr (.ends ?_)
  rw [round, if_pos (Nat.find_spec hexists)]

theorem recordPos_le {k : ℕ} (hk : k ≤ i) : recordPos fs n k ≤ recordPos fs n i := by
  induction hk with
  | refl => exact le_rfl
  | step _ ih => exact ih.trans (le_readEnd _ _ _ _ _)

/-- The value that the lookup returns, if it does. -/
def Ending.value : Ending → Option ℤ
  | .missing => some (-1)
  | .found inode => some inode
  | .stopped _ => none

/-- A record is followed if the rest of the path begins with its name. -/
theorem round_nameOf (h : InMemory fs) (hlt : pos < fileSize fs n)
    (hstop : entryStop fs n pos = none) (hname : fileByte fs n pos ≠ 0) (buffer : Memory)
    {tail : List (BitVec 8)} (htail : endsAt tail 0 = true) :
    round fs buffer ⟨n, pos, nameOf (entryAt fs buffer n pos).name ++ tail⟩ =
      follow fs tail (entryAt fs buffer n pos).inode := by
  have hpos : 0 < (nameOf (entryAt fs buffer n pos).name).length := by
    apply List.length_pos_of_ne_nil
    apply nameOf_ne_nil
    rwa [entryAt_name_zero h hlt]
  unfold round
  rw [if_neg (not_le.mpr hlt), hstop]
  dsimp only
  rw [filenameMatch_nameOf htail, if_pos (by omega), Int.toNat_natCast, List.drop_left]

/-- If some record has a name or cannot be read, some path through the file is not refused. -/
theorem exists_rest (h : InMemory fs) (hnot : ¬ Blank fs n) (fresh : ℕ → Memory) :
    ∃ rest ending, Walks fs fresh ⟨n, 0, rest⟩ ending ∧ ending.value ≠ some (-1) := by
  classical
  have hexists := not_forall.mp hnot
  obtain ⟨hlt, hbad⟩ := Classical.not_imp.mp (Nat.find_spec hexists)
  have hbefore : ∀ k < Nat.find hexists, recordPos fs n k < fileSize fs n ∧
      entryStop fs n (recordPos fs n k) = none ∧
      fileByte fs n (recordPos fs n k) = 0 := fun k hk ↦ by
    have hk' := (recordPos_le hk.le).trans_lt hlt
    exact ⟨hk', not_not.mp (Nat.find_min hexists hk) hk'⟩
  have hv := visits_recordPos h hbefore fresh
  generalize Nat.find hexists = i at *
  cases hstop : entryStop fs n (recordPos fs n i) with
  | some stop =>
    refine ⟨[], .stopped stop, (hv []).walks_iff.mpr (.ends ?_), by simp [Ending.value]⟩
    rw [round, if_neg (not_le.mpr hlt), hstop]
  | none =>
    have hname : fileByte fs n (recordPos fs n i) ≠ 0 := fun hzero ↦ hbad ⟨hstop, hzero⟩
    have hround : ∀ tail, endsAt tail 0 = true → round fs (fresh (0 + i)) ⟨n, recordPos fs n i,
        nameOf (entryAt fs (fresh (0 + i)) n (recordPos fs n i)).name ++ tail⟩ =
          follow fs tail (entryAt fs (fresh (0 + i)) n (recordPos fs n i)).inode := fun tail htail ↦
      round_nameOf h hlt hstop hname _ htail
    generalize entryAt fs (fresh (0 + i)) n (recordPos fs n i) = dirent at hround
    by_cases hinode : toInt32 dirent.inode = -1
    · -- the inode -1 would be returned, but the path does not go on in it
      have hle : ¬ dirent.inode < fs.blockCount := fun hlt ↦ by
        have hbound := (h.bounds hlt).1
        exact toInt32_ne (by omega) hinode
      refine ⟨nameOf dirent.name ++ [0x2f], .stopped (.assertion .seekBlock),
        (hv _).walks_iff.mpr (.ends ?_), by simp [Ending.value]⟩
      rw [hround _ rfl, follow, if_neg (by decide), if_neg hle]
    · refine ⟨nameOf dirent.name ++ [], .found (toInt32 dirent.inode),
        (hv _).walks_iff.mpr (.ends ?_), fun heq ↦ hinode (Option.some.inj heq)⟩
      rw [hround _ rfl, follow, if_pos (by rfl)]

/-! ### The call -/

/-- The lookup of a path returns the inode. -/
def Returns (fs : Filesystem) (fresh : ℕ → Memory) (path : List (BitVec 8)) (inode : ℤ) : Prop :=
  ∃ bound, ∀ k ≥ bound, ∃ fs', inodeOfPath fresh k fs path = .ok (fs', inode)

theorem Ending.Result.value_eq {res : Except Stop (Filesystem × ℤ)} {inode : ℤ}
    (h : ending.Result fs d res) : (∃ fs', res = .ok (fs', inode)) ↔ ending.value = some inode := by
  cases ending with
  | missing =>
    obtain ⟨_, _, _, rfl⟩ := h
    simp [Ending.value]
  | found inode =>
    obtain ⟨_, _, _, rfl⟩ := h
    simp [Ending.value]
  | stopped stop =>
    obtain rfl : res = .error stop := h
    simp [Ending.value]

theorem LookupEnds.returns_iff {inode : ℤ} (h : InMemory fs) (hlt : fs.rootInode < fs.blockCount)
    (hslot : ∃ d < maxFileDescriptors, (fs.descriptors d).closed ≠ 0)
    (hends : LookupEnds fs fresh path ending) :
    Returns fs fresh path inode ↔ ending.value = some inode := by
  have hbound := (h.bounds hlt).1
  obtain ⟨d, hd, hnext, -⟩ := slot_of_closed hslot
  obtain ⟨bound, hrun⟩ := hends.run h (by omega) (toInt32_ne (by omega)) hnext hd
  refine ⟨?_, fun hvalue ↦ ⟨bound, fun k hk ↦ (hrun k hk).value_eq.mpr hvalue⟩⟩
  rintro ⟨bound', hreturns⟩
  exact (hrun _ (le_max_left bound bound')).value_eq.mp (hreturns _ (le_max_right bound bound'))

/-- The path `p` leads to an inode: however it goes on behind a slash, the lookup is at the
beginning of that inode after `j` rounds, with the rest of the path. -/
def ResolvesTo (fs : Filesystem) (fresh : ℕ → Memory) (p : List (BitVec 8)) (j n : ℕ) : Prop :=
  ∀ rest, Reaches fs fresh (p ++ 0x2f :: rest) j ⟨n, 0, rest⟩

/-! ### Prefixes that are found -/

theorem charAt_append {q tail : List (BitVec 8)} {i : ℕ} (hi : i < q.length) :
    charAt (q ++ tail) i = charAt q i := by
  rw [charAt, List.getElem?_append_left hi, charAt]

theorem charAt_length (q tail : List (BitVec 8)) : charAt (q ++ tail) q.length = charAt tail 0 := by
  rw [charAt, List.getElem?_append_right le_rfl, Nat.sub_self, charAt]

/-- A name without a slash is compared with a path as with the path that goes on behind a slash. -/
theorem filenameMatchLoop_append {dirname : Memory} {q : List (BitVec 8)} {left cur : ℕ}
    (hcur : cur ≤ q.length) (hslash : ∀ i, cur ≤ i → i < cur + left →
    (∀ k, cur ≤ k → k < i → dirname k ≠ 0) → dirname i ≠ 0x2f) (rest : List (BitVec 8)) :
    filenameMatchLoop (q ++ 0x2f :: rest) dirname left cur = filenameMatchLoop q dirname left cur ∧
      filenameMatchLoop q dirname left cur ≤ q.length := by
  induction left generalizing cur with
  | zero =>
    have hends : endsAt (q ++ 0x2f :: rest) cur = endsAt q cur := by
      rcases hcur.lt_or_eq with hlt | rfl
      · rw [endsAt, charAt_append hlt, endsAt]
      · have hnone : charAt q q.length = 0 := by simp [charAt]
        rw [endsAt, charAt_length, endsAt, hnone]
        rfl
    rw [filenameMatchLoop, filenameMatchLoop, hends]
    split_ifs <;> exact ⟨rfl, by omega⟩
  | succ left ih =>
    rw [filenameMatchLoop, filenameMatchLoop]
    rcases hcur.lt_or_eq with hlt | rfl
    · rw [endsAt, charAt_append hlt, ← endsAt]
      split_ifs with hends hne
      · exact ⟨rfl, by omega⟩
      · exact ⟨rfl, by omega⟩
      · have hnonzero : dirname cur ≠ 0 := fun hzero ↦ hends ⟨by
          rw [endsAt, not_not.mp hne, hzero]
          rfl, hzero⟩
        refine ih hlt fun i hi hi' hbefore ↦ hslash i (by omega) (by omega) fun k hk hk' ↦ ?_
        rcases hk.lt_or_eq with hk | rfl
        · exact hbefore k hk hk'
        · exact hnonzero
    · have hnone : charAt q q.length = 0 := by simp [charAt]
      have hfirst := hslash q.length le_rfl (by omega) fun k hk hk' ↦ by omega
      have hchar : charAt (q ++ 0x2f :: rest) q.length = 0x2f := charAt_length q _
      have hends : endsAt q q.length = true := by
        rw [endsAt, hnone]
        rfl
      have hends' : endsAt (q ++ 0x2f :: rest) q.length = true := by
        rw [endsAt, hchar]
        rfl
      rw [hends, hends', hchar, hnone]
      by_cases hzero : dirname q.length = 0
      · rw [if_pos ⟨rfl, hzero⟩, if_pos ⟨rfl, hzero⟩]
        exact ⟨rfl, le_rfl⟩
      · have hboth : ¬ (true = true ∧ dirname q.length = 0) := fun h ↦ hzero h.2
        rw [if_neg hboth, if_neg hboth, if_pos hfirst.symm, if_pos (Ne.symm hzero)]
        exact ⟨rfl, by omega⟩

/-- No name of an entry, wherever it is read, has a slash. -/
def SlashFree (fs : Filesystem) : Prop :=
  ∀ buffer dir pos, 0x2f ∉ nameOf (entryAt fs buffer dir pos).name

theorem SlashFree.filenameMatch_append (hfree : SlashFree fs) (buffer : Memory) (dir pos : ℕ)
    (q rest : List (BitVec 8)) :
    filenameMatch (q ++ 0x2f :: rest) (entryAt fs buffer dir pos).name =
      filenameMatch q (entryAt fs buffer dir pos).name ∧
    filenameMatch q (entryAt fs buffer dir pos).name ≤ q.length := by
  apply filenameMatchLoop_append (Nat.zero_le _)
  intro i _ hi hbefore heq
  apply hfree buffer dir pos
  rw [← heq]
  exact mem_nameOf (by omega) fun k hk ↦ by
    rcases hk.lt_or_eq with hlt | rfl
    · exact hbefore k (Nat.zero_le k) hlt
    · rw [heq]
      decide

section Found

variable {buffer : Memory} {dir inode : ℕ} {v : ℤ} {q : List (BitVec 8)} {next : Except Ending Head}

/-- A round at an entry that can be read. -/
theorem round_of_none (hlt : pos < fileSize fs dir) (hstop : entryStop fs dir pos = none)
    (buffer : Memory) (q : List (BitVec 8)) : round fs buffer ⟨dir, pos, q⟩ =
      if 0 < filenameMatch q (entryAt fs buffer dir pos).name then
        follow fs (q.drop (filenameMatch q (entryAt fs buffer dir pos).name).toNat)
        (entryAt fs buffer dir pos).inode
      else .ok ⟨dir, entryEnd fs dir pos, q⟩ := by
  unfold round
  rw [if_neg (not_le.mpr hlt), hstop]

/-- An entry that is followed by a path is followed by the path that goes on. -/
theorem SlashFree.round_append (hfree : SlashFree fs) (hlt : pos < fileSize fs dir)
    (hstop : entryStop fs dir pos = none) (rest : List (BitVec 8)) :
    round fs buffer ⟨dir, pos, q ++ 0x2f :: rest⟩ =
      if 0 < filenameMatch q (entryAt fs buffer dir pos).name then
        follow fs (q.drop (filenameMatch q (entryAt fs buffer dir pos).name).toNat ++ 0x2f :: rest)
          (entryAt fs buffer dir pos).inode
      else .ok ⟨dir, entryEnd fs dir pos, q ++ 0x2f :: rest⟩ := by
  obtain ⟨hsame, hle⟩ := hfree.filenameMatch_append buffer dir pos q rest
  rw [round_of_none hlt hstop, hsame, List.drop_append_of_le_length (by omega)]

/-- A path that ends with an entry leads into it if it goes on. -/
theorem follow_found (h : follow fs q inode = .error (.found v)) (hzero : 0 ∉ q) :
    v = toInt32 inode ∧ ∀ rest, inode < fs.blockCount → fileSize fs inode ≤ fs.maxFileSize →
      follow fs (q ++ 0x2f :: rest) inode = .ok ⟨inode, 0, rest⟩ := by
  have hnil : q = [] ∧ v = toInt32 inode := by
    cases q with
    | nil => exact ⟨rfl, Ending.found.inj (Except.error.inj h).symm⟩
    | cons b q =>
      have hb : charAt (b :: q) 0 ≠ 0 := fun heq ↦ hzero (List.mem_cons.mpr (.inl (Eq.symm heq)))
      unfold follow at h
      rw [if_neg hb] at h
      split_ifs at h <;> cases h
  obtain ⟨rfl, hv⟩ := hnil
  refine ⟨hv, fun rest hlt hsize ↦ ?_⟩
  have hslash : charAt ([] ++ 0x2f :: rest) 0 ≠ 0 := by
    change (0x2f : BitVec 8) ≠ 0
    decide
  rw [follow, if_neg hslash, if_pos hlt, if_pos hsize]
  rfl

theorem follow_append (h : follow fs q inode = .ok head) (rest : List (BitVec 8)) :
    follow fs (q ++ 0x2f :: rest) inode = .ok ⟨head.dir, head.pos, head.path ++ 0x2f :: rest⟩ := by
  obtain ⟨hne, hlt, hsize, rfl⟩ := follow_ok h
  cases q with
  | nil => exact absurd rfl hne
  | cons b q =>
    have hsame : charAt (b :: q ++ 0x2f :: rest) 0 ≠ 0 := hne
    rw [follow, if_neg hsame, if_pos hlt, if_pos hsize]
    rfl

/-- A round that does not stop at the end of the directory, nor at an entry that cannot be read. -/
theorem round_reads (h : round fs buffer head = next) (hnext : next ≠ .error .missing)
    (hstopped : ∀ stop, next ≠ .error (.stopped stop)) :
    head.pos < fileSize fs head.dir ∧ entryStop fs head.dir head.pos = none := by
  unfold round at h
  by_cases hend : fileSize fs head.dir ≤ head.pos
  · rw [if_pos hend] at h
    exact absurd h.symm hnext
  · rw [if_neg hend] at h
    refine ⟨not_le.mp hend, ?_⟩
    cases hstop : entryStop fs head.dir head.pos with
    | none => rfl
    | some stop =>
      rw [hstop] at h
      exact absurd h.symm (hstopped stop)

/-- A walk that finds an inode goes through it if the path goes on. -/
theorem Walks.through (hfree : SlashFree fs) (hw : Walks fs fresh head ending)
    (hending : ending = .found v) (hzero : 0 ∉ head.path) :
    ∃ (j m : ℕ), v = toInt32 m ∧ m < 2 ^ 32 ∧
      (m < fs.blockCount → fileSize fs m ≤ fs.maxFileSize → ∀ rest,
        Visits fs fresh ⟨head.dir, head.pos, head.path ++ 0x2f :: rest⟩ j ⟨m, 0, rest⟩) := by
  induction hw with
  | @ends fresh head ending h =>
    subst hending
    obtain ⟨hlt, hstop⟩ := round_reads h (by simp) (by simp)
    obtain ⟨dir, pos, q⟩ := head
    rw [round_of_none hlt hstop] at h
    split_ifs at h with hfound
    obtain ⟨hv, hgo⟩ := follow_found h fun hmem ↦ hzero (List.mem_of_mem_drop hmem)
    refine ⟨1, _, hv, entryAt_inode_lt _ _ _ _, fun hlt' hsize rest ↦ .next ?_ .here⟩
    rw [hfree.round_append hlt hstop, if_pos hfound, hgo rest hlt' hsize]
  | @next fresh head head' ending h hw ih =>
    obtain ⟨hlt, hstop⟩ := round_reads h (by simp) (by simp)
    obtain ⟨dir, pos, q⟩ := head
    have happend : ∀ rest, round fs (fresh 0) ⟨dir, pos, q ++ 0x2f :: rest⟩ =
        .ok ⟨head'.dir, head'.pos, head'.path ++ 0x2f :: rest⟩ := fun rest ↦ by
      rw [round_of_none hlt hstop] at h
      rw [hfree.round_append hlt hstop]
      split_ifs at h ⊢ with hfound
      · exact follow_append h rest
      · obtain rfl := Except.ok.inj h
        rfl
    have hzero' : 0 ∉ head'.path := by
      obtain ⟨-, -, rfl | hfollow⟩ := round_ok h
      · exact hzero
      · obtain ⟨-, -, -, rfl⟩ := follow_ok hfollow
        exact fun hmem ↦ hzero (List.mem_of_mem_drop (List.mem_of_mem_drop hmem))
    obtain ⟨j, m, hv, hm, hvisits⟩ := ih hending hzero'
    exact ⟨j + 1, m, hv, hm, fun hlt' hsize rest ↦ .next (happend rest) (hvisits hlt' hsize rest)⟩

end Found

theorem relative_append {q : List (BitVec 8)} (hq : q ≠ []) (rest : List (BitVec 8)) :
    relative (q ++ 0x2f :: rest) = relative q ++ 0x2f :: rest := by
  cases q with
  | nil => exact absurd rfl hq
  | cons b q =>
    have hsame : charAt (b :: q ++ 0x2f :: rest) 0 = charAt (b :: q) 0 := rfl
    rw [relative, relative, hsame]
    split_ifs <;> rfl

/-- A path for which the lookup returns an inode of the image leads to it. -/
theorem resolvesTo_of_returns (h : InMemory fs)
    (hslot : ∃ d < maxFileDescriptors, (fs.descriptors d).closed ≠ 0)
    (hfree : SlashFree fs) (hroot : fs.rootInode < fs.blockCount) (hp : p ≠ []) (hzero : 0 ∉ p)
    (hreturns : Returns fs fresh p n) (hlt : n < fs.blockCount)
    (hsize : fileSize fs n ≤ fs.maxFileSize) : ∃ j, ResolvesTo fs fresh p j n := by
  obtain ⟨ending, hends⟩ := exists_lookupEnds h fresh p
  have hvalue := (hends.returns_iff h hroot hslot).mp hreturns
  unfold LookupEnds at hends
  split_ifs at hends with hroot_size
  · cases ending with
    | missing => exact absurd (Option.some.inj hvalue) (by omega)
    | stopped stop => exact absurd hvalue (by simp [Ending.value])
    | found v =>
      have hv : v = n := Option.some.inj hvalue
      have hrelative : 0 ∉ relative p := by
        unfold relative
        split_ifs
        · exact fun hmem ↦ hzero (List.mem_of_mem_drop hmem)
        · exact hzero
      obtain ⟨j, m, hm, hm_lt, hvisits⟩ := hends.through hfree rfl hrelative
      have hbound := (h.bounds hlt).1
      obtain rfl : m = n := by rw [← toUint32_toInt32 hm_lt, ← hm, hv, toUint32_natCast (by omega)]
      refine ⟨j, fun rest ↦ ⟨hroot, hroot_size, ?_⟩⟩
      rw [relative_append hp]
      exact hvisits hlt hsize rest
  · rw [hends] at hvalue
    exact absurd hvalue (by simp [Ending.value])

/-! ### Paths through an inode -/

/-- Whether a path through an inode is refused depends on the entries that its lookup finds from
there on, and all are refused exactly if no record of it has a name. The kind of the inode does not
matter. -/
theorem refuses_iff (h : InMemory fs)
    (hslot : ∃ d < maxFileDescriptors, (fs.descriptors d).closed ≠ 0)
    (hresolves : ResolvesTo fs fresh p j n) :
    (∀ rest, Returns fs fresh (p ++ 0x2f :: rest) (-1) ↔
      ∃ ending, Walks fs (fun i ↦ fresh (i + j)) ⟨n, 0, rest⟩ ending ∧ ending.value = some (-1)) ∧
    ((∀ rest, Returns fs fresh (p ++ 0x2f :: rest) (-1)) ↔ Blank fs n) := by
  have hone : ∀ rest, Returns fs fresh (p ++ 0x2f :: rest) (-1) ↔
      ∃ ending, Walks fs (fun i ↦ fresh (i + j)) ⟨n, 0, rest⟩ ending ∧
      ending.value = some (-1) := fun rest ↦ by
    obtain ⟨ending, hw⟩ := exists_walks h (fun i ↦ fresh (i + j)) ⟨n, 0, rest⟩
    have hends := (hresolves rest).lookupEnds_iff.mpr hw
    rw [hends.returns_iff h (hresolves rest).1 hslot]
    refine ⟨fun hvalue ↦ ⟨ending, hw, hvalue⟩, ?_⟩
    rintro ⟨ending', hw', hvalue⟩
    rwa [hw.unique hw']
  refine ⟨hone, fun hall ↦ ?_,
    fun hblank rest ↦ (hone rest).mpr ⟨.missing, hblank.walks h _ rest, rfl⟩⟩
  by_contra hnot
  obtain ⟨rest, ending, hw, hvalue⟩ := exists_rest h hnot fun i ↦ fresh (i + j)
  obtain ⟨ending', hw', hvalue'⟩ := (hone rest).mp (hall rest)
  rw [hw.unique hw'] at hvalue
  exact hvalue hvalue'

/-- In the small tree the path `c` leads to a file. -/
theorem resolvesTo_treeDisk : ResolvesTo treeDisk (fun _ _ ↦ 0) [0x63] 1 3 := by
  have hname : entryName treeDisk 1 0 = [0x63] := by decide +kernel
  have hinode : entryInode treeDisk 1 0 = 3 := by decide +kernel
  have hsize : fileSize treeDisk 1 ≤ treeDisk.maxFileSize ∧
      fileSize treeDisk 3 ≤ treeDisk.maxFileSize := by
    decide +kernel
  intro rest
  have hslash : ¬ charAt (0x2f :: rest) 0 = 0 := (by decide : ¬ (0x2f : BitVec 8) = 0)
  refine ⟨by decide, hsize.1, .next ?_ .here⟩
  change round treeDisk (fun _ ↦ 0) ⟨1, directoryEntrySize * 0, [0x63] ++ 0x2f :: rest⟩ = _
  rw [wellFormedTree_treeDisk.round_entry (by decide : 1 ∈ [1, 2, 3]) (by decide +kernel)
    (by decide +kernel) _
    ⟨by decide, by decide, by decide⟩ rfl, if_pos hname.symm, hinode, follow, if_neg hslash,
    if_pos (by decide), if_pos hsize.2]
  rfl

theorem refuses_iff_treeDisk :
    (∀ rest, Returns treeDisk (fun _ _ ↦ 0) (0x63 :: 0x2f :: rest) (-1) ↔
      ∃ ending, Walks treeDisk (fun _ _ ↦ 0) ⟨3, 0, rest⟩ ending ∧ ending.value = some (-1)) ∧
    ((∀ rest, Returns treeDisk (fun _ _ ↦ 0) (0x63 :: 0x2f :: rest) (-1)) ↔ Blank treeDisk 3) :=
  refuses_iff wellFormed_treeDisk.layout.inMemory ⟨0, by decide, by decide⟩ resolvesTo_treeDisk

/-- The path `c/x` of the small tree goes through the file c, and leads to the inode 1. -/
theorem returns_through_file : ¬ IsDirectory treeDisk 3 ∧
    ResolvesTo treeDisk (fun _ _ ↦ 0) [0x63] 1 3 ∧
    Returns treeDisk (fun _ _ ↦ 0) [0x63, 0x2f, 0x78] 1 ∧
    ¬ Returns treeDisk (fun _ _ ↦ 0) [0x63, 0x2f, 0x78] (-1) := by
  have hround : round treeDisk (fun _ ↦ 0) ⟨3, 0, [0x78]⟩ = .error (.found 1) := by decide +kernel
  have hends : LookupEnds treeDisk (fun _ _ ↦ 0) [0x63, 0x2f, 0x78] (.found 1) :=
    (resolvesTo_treeDisk [0x78]).lookupEnds_iff.mpr (.ends hround)
  have hreturns : ∀ inode : ℤ, Returns treeDisk (fun _ _ ↦ 0) [0x63, 0x2f, 0x78] inode ↔
      some 1 = some inode :=
    fun inode ↦ hends.returns_iff wellFormed_treeDisk.layout.inMemory (by decide)
      ⟨0, by decide, by decide⟩
  refine ⟨by decide +kernel, resolvesTo_treeDisk, (hreturns 1).mpr rfl, fun h ↦ ?_⟩
  exact absurd ((hreturns (-1)).mp h) (by decide)

end SysresOs.Files
