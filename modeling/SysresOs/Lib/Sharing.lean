import Mathlib.Data.Finset.Card
import Mathlib.Data.List.Nodup
import Mathlib.Logic.Function.Basic

/-!
# Memory that is shared until it is written

Processes map pages to frames, and a fork shares the frames of the parent with the child instead of
copying them. From then on neither of the two may write to them, except for a list of private pages,
of which the child gets copies at once. A process that is the only one to hold a frame may become
its writer again, and a frame that no process holds is free. `Sound` is what the operations keep.
With it the sharing cannot be seen: what the processes find at their pages changes as if every
process had a memory of its own (`Step.space`).
-/

set_option autoImplicit false
set_option relaxedAutoImplicit false

namespace SysresOs.Sharing

variable {P V F D : Type*}

/-- What a page is mapped to, and whether it may be written. -/
structure Mapping (F : Type*) where
  frame : F
  writable : Bool

/-- The processes with their mappings, the contents of the frames and the free frames, the next one
first. -/
structure SharedMemory (P V F D : Type*) where
  procs : Finset P
  map : P → V → Option (Mapping F)
  contents : F → D
  free : List F

/-- The operations on such a memory. -/
inductive Op (P V D : Type*)
  | fork (parent child : P)
  | take (p : P) (v : V)
  | own (p : P) (v : V)
  | drop (p : P) (v : V)
  | store (p : P) (v : V) (d : D)

namespace SharedMemory

variable (m : SharedMemory P V F D)

/-- The frame that a page is mapped to. -/
def frameOf (p : P) (v : V) : Option F := (m.map p v).map Mapping.frame

/-- What a process finds at a page. -/
def space (p : P) (v : V) : Option D := (m.frameOf p v).map m.contents

open Classical in
/-- The processes that have a page mapped to a frame. -/
noncomputable def holders (f : F) : Finset P := m.procs.filter fun p ↦ ∃ v, m.frameOf p v = some f

variable [DecidableEq P] [DecidableEq V]

/-- A page is mapped anew, or no longer. -/
def setMap (p : P) (v : V) (x : Option (Mapping F)) : SharedMemory P V F D :=
  { m with map := Function.update m.map p (Function.update (m.map p) v x) }

/-- A page is mapped to a frame of its own. -/
def take (p : P) (v : V) (f : F) (rest : List F) : SharedMemory P V F D :=
  { m.setMap p v (some ⟨f, true⟩) with free := rest }

/-- A page is not mapped any more, and its frame is free unless another process holds it. -/
noncomputable def drop (p : P) (v : V) (f : F) : SharedMemory P V F D :=
  { m.setMap p v none with free := if m.holders f = {p} then f :: m.free else m.free }

/-- A frame gets new contents. -/
def store [DecidableEq F] (f : F) (d : D) : SharedMemory P V F D :=
  { m with contents := Function.update m.contents f d }

/-- All but the private pages of the parent are shared with the child, and can only be read. -/
def share (priv : List V) (parent child : P) : SharedMemory P V F D :=
  { m with
    procs := insert child m.procs
    map := fun q v ↦ if v ∉ priv ∧ (q = child ∨ q = parent) then (m.map parent v).map fun x ↦
      ⟨x.frame, false⟩
      else m.map q v }

/-- The private pages of the parent are copied for the child, one after the other. -/
inductive Copies [DecidableEq F] (parent child : P) :
    List V → SharedMemory P V F D → SharedMemory P V F D → Prop
  | nil {m : SharedMemory P V F D} : Copies parent child [] m m
  | cons {m m' : SharedMemory P V F D} {v : V} {vs : List V} {f g : F} {rest : List F}
      (hmap : m.map child v = none)
      (hparent : m.frameOf parent v = some g) (hfree : m.free = f :: rest)
      (h : Copies parent child vs ((m.take child v f rest).store f (m.contents g)) m') :
      Copies parent child (v :: vs) m m'

/-- The operations, with the private pages `priv`. -/
inductive Step [DecidableEq F] (priv : List V) :
    SharedMemory P V F D → Op P V D → SharedMemory P V F D → Prop
  | fork {m m' : SharedMemory P V F D} {parent child : P} (hparent : parent ∈ m.procs)
      (hchild : child ∉ m.procs)
      (h : Copies parent child priv (m.share priv parent child) m') :
      Step priv m (.fork parent child) m'
  | take {m : SharedMemory P V F D} {p : P} {v : V} {f : F} {rest : List F} (hp : p ∈ m.procs)
      (hmap : m.map p v = none)
      (hfree : m.free = f :: rest) : Step priv m (.take p v) (m.take p v f rest)
  | own {m : SharedMemory P V F D} {p : P} {v : V} {f : F} (hmap : m.frameOf p v = some f)
      (hsole : m.holders f = {p}) : Step priv m (.own p v) (m.setMap p v (some ⟨f, true⟩))
  | drop {m : SharedMemory P V F D} {p : P} {v : V} {f : F} (hmap : m.frameOf p v = some f)
      (hv : v ∉ priv) : Step priv m (.drop p v) (m.drop p v f)
  | store {m : SharedMemory P V F D} {p : P} {v : V} {f : F} (d : D)
      (hmap : m.map p v = some ⟨f, true⟩) : Step priv m (.store p v d) (m.store f d)

/-- What the operations keep: a process has a frame mapped once at most, a frame that some page may
write to is held by one process only, and the free frames are held by none. -/
structure Sound (m : SharedMemory P V F D) : Prop where
  absent : ∀ p ∉ m.procs, ∀ v, m.map p v = none
  once : ∀ p u v f, m.frameOf p u = some f → m.frameOf p v = some f → u = v
  single : ∀ p q u v f, m.map p u = some ⟨f, true⟩ → m.frameOf q v = some f → q = p
  nodup : m.free.Nodup
  unbound : ∀ f ∈ m.free, ∀ p v, m.frameOf p v ≠ some f

/-- Every process has its private pages. -/
def HasPrivate (priv : List V) (m : SharedMemory P V F D) : Prop :=
  ∀ p ∈ m.procs, ∀ v ∈ priv, ∃ f, m.map p v = some ⟨f, true⟩

end SharedMemory

/-! ### Memories of their own -/

section Spaces

variable [DecidableEq P] [DecidableEq V]

/-- A page of one process changes. -/
def setPage (S : P → V → Option D) (p : P) (v : V) (d : Option D) : P → V → Option D :=
  Function.update S p (Function.update (S p) v d)

/-- The operations on processes with memories of their own: a fork copies the whole memory of the
parent. -/
inductive SpaceStep : (P → V → Option D) → Op P V D → (P → V → Option D) → Prop
  | fork {S : P → V → Option D} {parent child : P} :
      SpaceStep S (.fork parent child) (Function.update S child (S parent))
  | take {S : P → V → Option D} {p : P} {v : V} (d : D) (hv : S p v = none) :
      SpaceStep S (.take p v) (setPage S p v (some d))
  | own {S : P → V → Option D} {p : P} {v : V} (hv : (S p v).isSome) : SpaceStep S (.own p v) S
  | drop {S : P → V → Option D} {p : P} {v : V} (hv : (S p v).isSome) :
      SpaceStep S (.drop p v) (setPage S p v none)
  | store {S : P → V → Option D} {p : P} {v : V} (d : D) (hv : (S p v).isSome) :
      SpaceStep S (.store p v d) (setPage S p v (some d))

theorem setPage_apply (S : P → V → Option D) (p q : P) (u v : V) (d : Option D) :
    setPage S p v d q u = if q = p ∧ u = v then d else S q u := by
  rw [setPage, Function.update_apply]
  split_ifs with hq hand hand
  · rw [hand.2, Function.update_self]
  · rw [Function.update_of_ne fun hu ↦ hand ⟨hq, hu⟩, hq]
  · exact absurd hand.1 hq
  · rfl

section

variable {S S' : P → V → Option D} {p parent child : P} {v : V} {d : D}

theorem SpaceStep.eq_of_fork (h : SpaceStep S (.fork parent child) S') :
    S' = Function.update S child (S parent) := by
  cases h
  rfl

theorem SpaceStep.eq_of_own (h : SpaceStep S (.own p v) S') : S' = S := by
  cases h
  rfl

theorem SpaceStep.isSome_of_drop (h : SpaceStep S (.drop p v) S') : (S p v).isSome := by
  cases h with
  | drop hv => exact hv

theorem SpaceStep.eq_of_store (h : SpaceStep S (.store p v d) S') :
    S' = setPage S p v (some d) := by
  cases h
  rfl

end

end Spaces

namespace SharedMemory

variable {m m' : SharedMemory P V F D} {priv vs : List V} {p q parent child : P} {u v : V} {f g : F}
  {rest : List F} {x : Option (Mapping F)} {d : D} {op : Op P V D}

/-! ### The mappings after an operation -/

theorem mem_holders : p ∈ m.holders f ↔ p ∈ m.procs ∧ ∃ v, m.frameOf p v = some f := by
  classical
  rw [holders, Finset.mem_filter]

theorem holders_subset : m.holders f ⊆ m.procs := fun _ hp ↦ (mem_holders.mp hp).1

theorem frameOf_eq_some (h : m.map p v = some ⟨f, true⟩) : m.frameOf p v = some f := by
  rw [frameOf, h]
  rfl

section Mappings

variable [DecidableEq P] [DecidableEq V]

theorem map_setMap : (m.setMap p v x).map q u = if q = p ∧ u = v then x else m.map q u :=
  setPage_apply m.map p q u v x

theorem frameOf_setMap :
    (m.setMap p v x).frameOf q u = if q = p ∧ u = v then x.map Mapping.frame
      else m.frameOf q u := by
  rw [frameOf, map_setMap]
  split_ifs
  · rfl
  · rfl

/-- Every page that is mapped keeps its frame when pages are shared. -/
theorem frameOf_share (hq : q ≠ child) :
    (m.share priv parent child).frameOf q v = m.frameOf q v := by
  rw [frameOf, share]
  dsimp only
  split_ifs with hshared
  · rw [hshared.2.resolve_left hq, Option.map_map]
    rfl
  · rfl

/-- The child has the pages of the parent that are not private. -/
theorem frameOf_share_child (hnone : m.map child v = none) :
    (m.share priv parent child).frameOf child v = if v ∈ priv
      then none else m.frameOf parent v := by
  rw [frameOf, share]
  dsimp only
  by_cases hv : v ∈ priv
  · rw [if_neg fun hand ↦ hand.1 hv, if_pos hv, hnone]
    rfl
  · rw [if_pos ⟨hv, .inl rfl⟩, if_neg hv, Option.map_map]
    rfl

/-- A page that may be written after pages are shared is one that has not been shared. -/
theorem map_share_writable (h : (m.share priv parent child).map p v = some ⟨f, true⟩) :
    m.map p v = some ⟨f, true⟩ ∧ (v ∉ priv → p ≠ child ∧ p ≠ parent) := by
  rw [share] at h
  dsimp only at h
  split_ifs at h with hshared
  · obtain ⟨y, -, hy⟩ := Option.map_eq_some_iff.mp h
    exact absurd (congrArg Mapping.writable hy) Bool.false_ne_true
  · exact ⟨h, fun hv ↦ not_or.mp fun hor ↦ hshared ⟨hv, hor⟩⟩

end Mappings

/-! ### Soundness -/

namespace Sound

/-- A writable page is the only one of its frame. -/
theorem eq_of_writable (h : m.Sound) (hmap : m.map p u = some ⟨f, true⟩)
    (hframe : m.frameOf q v = some f) : q = p ∧ v = u := by
  obtain rfl := h.single p q u v f hmap hframe
  exact ⟨rfl, h.once q v u f hframe (frameOf_eq_some hmap)⟩

theorem mem_procs (h : m.Sound) (hframe : m.frameOf p v = some f) : p ∈ m.procs := by
  by_contra hp
  rw [frameOf, h.absent p hp v] at hframe
  cases hframe

/-- The frame of a writable page is held by its process alone. -/
theorem holders_eq (h : m.Sound) (hmap : m.map p v = some ⟨f, true⟩) : m.holders f = {p} := by
  ext q
  rw [mem_holders, Finset.mem_singleton]
  constructor
  · rintro ⟨-, u, hframe⟩
    exact h.single p q v u f hmap hframe
  · rintro rfl
    exact ⟨h.mem_procs (frameOf_eq_some hmap), v, frameOf_eq_some hmap⟩

theorem holders_of_free (h : m.Sound) (hf : f ∈ m.free) : m.holders f = ∅ := by
  refine Finset.eq_empty_of_forall_notMem fun q hq ↦ ?_
  obtain ⟨-, v, hframe⟩ := mem_holders.mp hq
  exact h.unbound f hf q v hframe

theorem store [DecidableEq F] (h : m.Sound) (f : F) (d : D) : (m.store f d).Sound :=
  ⟨h.absent, h.once, h.single, h.nodup, h.unbound⟩

variable [DecidableEq P] [DecidableEq V]

/-- One page is mapped anew, to a frame that no other page of its process has. If it may be written,
or the frame of another process may be, the frame is held by no other process. -/
theorem replace (h : m.Sound) (hp : p ∈ m.procs)
    (honce : ∀ y ∈ x, ∀ u, m.frameOf p u = some y.frame → u = v)
    (hsole : ∀ y ∈ x, ∀ q u, q ≠ p → m.frameOf q u = some y.frame →
      y.writable = false ∧ m.map q u ≠ some ⟨y.frame, true⟩)
    (hnodup : rest.Nodup) (hrest : ∀ f ∈ rest, ∀ y ∈ x, y.frame ≠ f)
    (hunbound : ∀ f ∈ rest, ∀ q u, ¬ (q = p ∧ u = v) → m.frameOf q u ≠ some f) :
    Sound { m.setMap p v x with free := rest } := by
  have hmap (q : P) (u : V) :
      ({ m.setMap p v x with free := rest } : SharedMemory P V F D).map q u =
      if q = p ∧ u = v then x else m.map q u := map_setMap
  have hframe (q : P) (u : V) :
      ({ m.setMap p v x with free := rest } : SharedMemory P V F D).frameOf q u =
      if q = p ∧ u = v then x.map Mapping.frame else m.frameOf q u := frameOf_setMap
  constructor
  case absent =>
    intro q hq u
    have hne : q ≠ p := fun heq ↦ hq (heq ▸ hp)
    rw [hmap, if_neg fun hand ↦ hne hand.1]
    exact h.absent q hq u
  case once =>
    intro q u w f hu hw
    rw [hframe] at hu hw
    split_ifs at hu hw with hu' hw' hw'
    · rw [hu'.2, hw'.2]
    · obtain ⟨y, hy, rfl⟩ := Option.map_eq_some_iff.mp hu
      rw [hu'.2, honce y hy w (hu'.1 ▸ hw)]
    · obtain ⟨y, hy, rfl⟩ := Option.map_eq_some_iff.mp hw
      rw [hw'.2, honce y hy u (hw'.1 ▸ hu)]
    · exact h.once q u w f hu hw
  case single =>
    intro q r u w f hu hw
    rw [hmap] at hu
    rw [hframe] at hw
    split_ifs at hu hw with hu' hw' hw'
    · rw [hu'.1, hw'.1]
    · by_contra hne
      cases (hsole _ hu r w (hu'.1 ▸ hne) hw).1
    · obtain ⟨y, hy, rfl⟩ := Option.map_eq_some_iff.mp hw
      by_contra hne
      exact (hsole y hy q u (hw'.1 ▸ Ne.symm hne) (frameOf_eq_some hu)).2 hu
    · exact h.single q r u w f hu hw
  case nodup => exact hnodup
  case unbound =>
    intro f hf q u
    rw [hframe]
    split_ifs with hsame
    · intro hx
      obtain ⟨y, hy, hyf⟩ := Option.map_eq_some_iff.mp hx
      exact hrest f hf y hy hyf
    · exact hunbound f hf q u hsame

theorem take (h : m.Sound) (hp : p ∈ m.procs) (hfree : m.free = f :: rest) :
    (m.take p v f rest).Sound := by
  have hnodup := h.nodup
  have hmem : f ∈ m.free := hfree ▸ List.mem_cons_self
  rw [hfree, List.nodup_cons] at hnodup
  refine h.replace hp ?_ ?_ hnodup.2 ?_ fun g hg q u _ ↦
    h.unbound g (hfree ▸ List.mem_cons_of_mem f hg) q u
  · rintro y ⟨⟩ u hframe
    exact absurd hframe (h.unbound f hmem p u)
  · rintro y ⟨⟩ q u - hframe
    exact absurd hframe (h.unbound f hmem q u)
  · rintro g hg y ⟨⟩ rfl
    exact hnodup.1 hg

theorem own (h : m.Sound) (hmap : m.frameOf p v = some f) (hsole : m.holders f = {p}) :
    (m.setMap p v (some ⟨f, true⟩)).Sound := by
  refine h.replace (h.mem_procs hmap) ?_ ?_ h.nodup ?_ fun g hg q u _ ↦ h.unbound g hg q u
  · rintro y ⟨⟩ u hframe
    exact h.once p u v f hframe hmap
  · rintro y ⟨⟩ q u hq hframe
    have hmem : q ∈ m.holders f := mem_holders.mpr ⟨h.mem_procs hframe, u, hframe⟩
    rw [hsole, Finset.mem_singleton] at hmem
    exact absurd hmem hq
  · rintro g hg y ⟨⟩ rfl
    exact h.unbound f hg p v hmap

theorem drop (h : m.Sound) (hmap : m.frameOf p v = some f) : (m.drop p v f).Sound := by
  refine h.replace (h.mem_procs hmap) (by rintro y ⟨⟩) (by rintro y ⟨⟩) ?_ (by rintro g - y ⟨⟩) ?_
  · split_ifs with hsole
    · exact List.nodup_cons.mpr ⟨fun hf ↦ h.unbound f hf p v hmap, h.nodup⟩
    · exact h.nodup
  · intro g hg q u hne hframe
    split_ifs at hg with hsole
    · rcases List.mem_cons.mp hg with rfl | hg
      · have hmem : q ∈ m.holders g := mem_holders.mpr ⟨h.mem_procs hframe, u, hframe⟩
        rw [hsole, Finset.mem_singleton] at hmem
        subst hmem
        exact hne ⟨rfl, h.once q u v g hframe hmap⟩
      · exact h.unbound g hg q u hframe
    · exact h.unbound g hg q u hframe

theorem share (h : m.Sound) (hparent : parent ∈ m.procs) (hchild : child ∉ m.procs) :
    (m.share priv parent child).Sound := by
  have hne : parent ≠ child := fun heq ↦ hchild (heq ▸ hparent)
  have hframe (v : V) : (m.share priv parent child).frameOf child v = if v ∈ priv
      then none else m.frameOf parent v :=
    frameOf_share_child (h.absent child hchild v)
  -- a frame of the child is one of the parent
  have hsource (q : P) (v : V) (f : F) (hq : (m.share priv parent child).frameOf q v = some f) :
      m.frameOf (if q = child then parent else q) v = some f ∧ (q = child → v ∉ priv) := by
    split_ifs with heq
    · rw [heq, hframe] at hq
      split_ifs at hq with hv
      exact ⟨hq, fun _ ↦ hv⟩
    · rw [frameOf_share heq] at hq
      exact ⟨hq, fun hq ↦ absurd hq heq⟩
  constructor
  case absent =>
    intro q hq v
    have hq' : q ≠ child ∧ q ∉ m.procs := by simpa [SharedMemory.share] using hq
    have hnone : q ≠ parent := fun heq ↦ hq'.2 (heq ▸ hparent)
    rw [SharedMemory.share]
    dsimp only
    rw [if_neg fun hand ↦ hand.2.elim hq'.1 hnone]
    exact h.absent q hq'.2 v
  case once =>
    intro q u v f hu hv
    exact h.once _ u v f (hsource q u f hu).1 (hsource q v f hv).1
  case single =>
    intro q r u v f hu hv
    obtain ⟨hu, hnot⟩ := map_share_writable hu
    obtain ⟨hv, hpriv⟩ := hsource r v f hv
    obtain ⟨hr, rfl⟩ := h.eq_of_writable hu hv
    split_ifs at hr with heq
    · exact absurd hr.symm (hnot (hpriv heq)).2
    · exact hr
  case nodup => exact h.nodup
  case unbound =>
    intro f hf q v hq
    exact h.unbound f hf _ v (hsource q v f hq).1

end Sound

variable [DecidableEq P] [DecidableEq V]

/-! ### Private pages -/

namespace HasPrivate

theorem replace {free : List F} (h : m.HasPrivate priv) (hx : v ∈ priv → ∃ f, x = some ⟨f, true⟩) :
    HasPrivate priv { m.setMap p v x with free := free } := by
  intro q hq u hu
  have hmap : ({ m.setMap p v x with free := free } : SharedMemory P V F D).map q u =
      if q = p ∧ u = v then x else m.map q u := map_setMap
  rw [hmap]
  split_ifs with hsame
  · exact hx (hsame.2 ▸ hu)
  · exact h q hq u hu

end HasPrivate

/-! ### Forks -/

section Fork

variable [DecidableEq F]

/-- A page of the child is mapped to the next free frame, which gets the contents of the page of the
parent. -/
theorem space_copy (h : m.Sound) (hparent : m.frameOf parent v = some g)
    (hfree : m.free = f :: rest) :
    ((m.take child v f rest).store f (m.contents g)).space = setPage m.space child v
      (m.space parent v) := by
  funext q u
  have hmem : f ∈ m.free := hfree ▸ List.mem_cons_self
  have hframe : ((m.take child v f rest).store f (m.contents g)).frameOf q u =
      if q = child ∧ u = v then some f else m.frameOf q u := frameOf_setMap
  rw [space, hframe, setPage_apply]
  split_ifs with hsame
  · rw [space, hparent, Option.map_some, Option.map_some]
    exact congrArg some (Function.update_self _ _ _)
  · rw [space]
    cases hq : m.frameOf q u with
    | none => rfl
    | some k =>
      have hne : k ≠ f := fun heq ↦ h.unbound f hmem q u (heq ▸ hq)
      rw [Option.map_some, Option.map_some]
      exact congrArg some (Function.update_of_ne hne _ _)

/-- What copying the private pages keeps and what it does. -/
structure Copied (parent child : P) (vs : List V) (m m' : SharedMemory P V F D) : Prop where
  sound : m'.Sound
  procs : m'.procs = m.procs
  map_of_ne : ∀ q v, ¬ (q = child ∧ v ∈ vs) → m'.map q v = m.map q v
  writable : ∀ v ∈ vs, ∃ f, m'.map child v = some ⟨f, true⟩
  space : ∀ q v, m'.space q v = if q = child ∧ v ∈ vs then m.space parent v else m.space q v
  conserved : ∀ f, f ∈ m.free → f ∈ m'.free ∨ ∃ v ∈ vs, m'.frameOf child v = some f

theorem map_copy : ((m.take p v f rest).store g d).map q u = if q = p ∧ u = v then some ⟨f, true⟩
    else m.map q u :=
  map_setMap

/-- None of the pages is mapped before. -/
theorem Copies.unmapped (hcopies : Copies parent child vs m m') (hv : v ∈ vs) :
    m.map child v = none := by
  induction hcopies with
  | nil => cases hv
  | @cons m m' w vs f g rest hmap _ _ _ ih =>
    rcases List.mem_cons.mp hv with rfl | hv
    · exact hmap
    · have hlater := ih hv
      rw [map_copy] at hlater
      split_ifs at hlater
      exact hlater

theorem Copies.copied (hcopies : Copies parent child vs m m') (h : m.Sound)
    (hchild : child ∈ m.procs) (hne : parent ≠ child) : Copied parent child vs m m' := by
  induction hcopies with
  | nil => exact ⟨h, rfl, fun _ _ _ ↦ rfl, by simp, by simp, fun f hf ↦ .inl hf⟩
  | @cons m m' v vs f g rest hmap hparent hfree hrest ih =>
    have hcopy : ((m.take child v f rest).store f (m.contents g)).space = setPage m.space child v
        (m.space parent v) :=
      space_copy h hparent hfree
    have hv : v ∉ vs := by
      intro hv
      have hnone := hrest.unmapped hv
      rw [map_copy, if_pos ⟨rfl, rfl⟩] at hnone
      cases hnone
    have ih := ih ((h.take hchild hfree).store _ _) hchild
    have hmap' : m'.map child v = some ⟨f, true⟩ := by
      rw [ih.map_of_ne child v fun hand ↦ hv hand.2, map_copy, if_pos ⟨rfl, rfl⟩]
    constructor
    case sound => exact ih.sound
    case procs => exact ih.procs
    case map_of_ne =>
      intro q u hnot
      rw [ih.map_of_ne q u fun hand ↦ hnot ⟨hand.1, List.mem_cons_of_mem v hand.2⟩,
        map_copy, if_neg]
      rintro ⟨rfl, rfl⟩
      exact hnot ⟨rfl, List.mem_cons_self⟩
    case writable =>
      intro u hu
      rcases List.mem_cons.mp hu with rfl | hu
      · exact ⟨f, hmap'⟩
      · exact ih.writable u hu
    case space =>
      intro q u
      rw [ih.space, hcopy, setPage_apply, setPage_apply]
      by_cases hq : q = child
      · subst hq
        by_cases hu : u = v
        · subst hu
          rw [if_neg fun hand ↦ hv hand.2, if_pos ⟨rfl, rfl⟩, if_pos ⟨rfl, List.mem_cons_self⟩]
        · simp only [hne, hu, true_and, and_false, if_false, List.mem_cons, false_or]
      · rw [if_neg fun hand ↦ hq hand.1, if_neg fun hand ↦ hq hand.1, if_neg fun hand ↦ hq hand.1]
    case conserved =>
      intro k hk
      rw [hfree] at hk
      rcases List.mem_cons.mp hk with rfl | hk
      · exact .inr ⟨v, List.mem_cons_self, frameOf_eq_some hmap'⟩
      · rcases ih.conserved k hk with hfree | ⟨u, hu, hframe⟩
        · exact .inl hfree
        · exact .inr ⟨u, List.mem_cons_of_mem v hu, hframe⟩

/-- What a fork keeps and what it does. -/
structure Forked (priv : List V) (parent child : P) (m m' : SharedMemory P V F D) : Prop where
  sound : m'.Sound
  hasPrivate : m'.HasPrivate priv
  procs : m'.procs = insert child m.procs
  frameOf_of_ne : ∀ q v, q ≠ child → m'.frameOf q v = m.frameOf q v
  map_of_ne : ∀ q v, q ≠ child → m'.map q v = if v ∉ priv ∧ q = parent then
    (m.map parent v).map fun x ↦ ⟨x.frame, false⟩ else m.map q v
  map_child : ∀ v ∉ priv, m'.map child v = (m.map parent v).map fun x ↦ ⟨x.frame, false⟩
  space : m'.space = Function.update m.space child (m.space parent)
  conserved : ∀ f, f ∈ m.free → f ∈ m'.free ∨ ∃ v, m'.frameOf child v = some f

theorem forked (h : m.Sound) (hprivate : m.HasPrivate priv) (hparent : parent ∈ m.procs)
    (hchild : child ∉ m.procs) (hcopies : Copies parent child priv (m.share priv parent child) m') :
    Forked priv parent child m m' := by
  have hne : parent ≠ child := fun heq ↦ hchild (heq ▸ hparent)
  have hcopied := hcopies.copied (h.share hparent hchild) (Finset.mem_insert_self child m.procs) hne
  have hmap (q : P) (v : V) (hq : q ≠ child) : m'.map q v = if v ∉ priv ∧ q = parent then
      (m.map parent v).map fun x ↦ ⟨x.frame, false⟩ else m.map q v := by
    rw [hcopied.map_of_ne q v fun hand ↦ hq hand.1, share]
    exact if_congr (and_congr_right fun _ ↦ or_iff_right hq) rfl rfl
  have hframe (q : P) (v : V) (hq : q ≠ child) : m'.frameOf q v = m.frameOf q v := by
    rw [frameOf, hcopied.map_of_ne q v fun hand ↦ hq hand.1]
    exact frameOf_share hq
  constructor
  case sound => exact hcopied.sound
  case hasPrivate =>
    intro p hp v hv
    rw [hcopied.procs, share, Finset.mem_insert] at hp
    by_cases heq : p = child
    · exact heq ▸ hcopied.writable v hv
    · rw [hmap p v heq, if_neg fun hand ↦ hand.1 hv]
      exact hprivate p (hp.resolve_left heq) v hv
  case procs => exact hcopied.procs
  case frameOf_of_ne => exact hframe
  case map_of_ne => exact hmap
  case map_child =>
    intro v hv
    rw [hcopied.map_of_ne child v fun hand ↦ hv hand.2, share]
    exact if_pos ⟨hv, .inl rfl⟩
  case space =>
    funext q v
    rw [hcopied.space, Function.update_apply]
    have hparent' : (m.share priv parent child).space parent v = m.space parent v := by
      rw [space, space, frameOf_share hne]
      rfl
    by_cases hq : q = child
    · subst hq
      rw [if_pos rfl, hparent']
      split_ifs with hv
      · rfl
      · rw [space, frameOf_share_child (h.absent q hchild v), if_neg fun hmem ↦ hv ⟨rfl, hmem⟩]
        rfl
    · rw [if_neg hq, if_neg fun hand ↦ hq hand.1, space, space, frameOf_share hq]
      rfl
  case conserved =>
    intro f hf
    rcases hcopied.conserved f hf with hfree | ⟨v, -, hframe⟩
    · exact .inl hfree
    · exact .inr ⟨v, hframe⟩

end Fork

/-- The holders of a frame after a fork. -/
theorem Forked.holders_eq (h : Forked priv parent child m m') (hchild : child ∉ m.procs)
    [Decidable (∃ v, m'.frameOf child v = some f)] :
    m'.holders f = if ∃ v, m'.frameOf child v = some f then insert child (m.holders f)
      else m.holders f := by
  have hother (q : P) (hq : q ≠ child) : q ∈ m'.holders f ↔ q ∈ m.holders f := by
    rw [mem_holders, mem_holders, h.procs, Finset.mem_insert, or_iff_right hq]
    simp only [h.frameOf_of_ne q _ hq]
  have hself : child ∈ m'.holders f ↔ ∃ v, m'.frameOf child v = some f := by
    rw [mem_holders, h.procs]
    exact and_iff_right (Finset.mem_insert_self _ _)
  have hnot : child ∉ m.holders f := fun hmem ↦ hchild (mem_holders.mp hmem).1
  ext q
  by_cases hq : q = child
  · subst hq
    split_ifs with hheld
    · exact iff_of_true (hself.mpr hheld) (Finset.mem_insert_self _ _)
    · exact iff_of_false (fun hmem ↦ hheld (hself.mp hmem)) hnot
  · rw [hother q hq]
    split_ifs
    · rw [Finset.mem_insert, or_iff_right hq]
    · rfl

/-- The mapping of a page that the parent shares. -/
theorem Forked.map_parent (h : Forked priv parent child m m') (hne : parent ≠ child) (hv : v ∉ priv)
    (hmap : m.map parent v = some ⟨f, true⟩) : m'.map parent v = some ⟨f, false⟩ := by
  rw [h.map_of_ne parent v hne, if_pos ⟨hv, rfl⟩, hmap]
  rfl

/-! ### Every operation -/

theorem space_setMap {free : List F} :
    ({ m.setMap p v x with free := free } : SharedMemory P V F D).space =
    setPage m.space p v (x.map fun y ↦ m.contents y.frame) := by
  funext q u
  have hframe : ({ m.setMap p v x with free := free } : SharedMemory P V F D).frameOf q u =
      if q = p ∧ u = v then x.map Mapping.frame else m.frameOf q u := frameOf_setMap
  rw [space, hframe, setPage_apply]
  split_ifs
  · exact Option.map_map _ _ _
  · rfl

/-- The holders of a frame after a page is mapped anew. -/
theorem mem_holders_setMap {free : List F} :
    q ∈ holders { m.setMap p v x with free := free } f ↔ q ∈ m.procs ∧
    ∃ u, (if q = p ∧ u = v then x.map Mapping.frame else m.frameOf q u) = some f := by
  have hframe (u : V) : ({ m.setMap p v x with free := free } : SharedMemory P V F D).frameOf q u =
      if q = p ∧ u = v then x.map Mapping.frame else m.frameOf q u := frameOf_setMap
  rw [mem_holders]
  simp only [hframe]
  exact Iff.rfl

/-- A frame that is taken from the free ones is held by one process, and all others are held as
before. -/
theorem Sound.holders_take (h : m.Sound) (hp : p ∈ m.procs) (hmap : m.map p v = none)
    (hfree : m.free = f :: rest) (g : F) :
    (g = f → (m.take p v f rest).holders g = {p}) ∧
      (g ≠ f → (m.take p v f rest).holders g = m.holders g) := by
  have hnone : m.frameOf p v = none := by
    rw [frameOf, hmap]
    rfl
  constructor
  · rintro rfl
    ext q
    rw [SharedMemory.take, mem_holders_setMap, Finset.mem_singleton]
    constructor
    · rintro ⟨-, u, hframe⟩
      split_ifs at hframe with hsame
      · exact hsame.1
      · exact absurd hframe (h.unbound g (hfree ▸ List.mem_cons_self) q u)
    · rintro rfl
      exact ⟨hp, v, if_pos ⟨rfl, rfl⟩⟩
  · intro hne
    ext q
    rw [SharedMemory.take, mem_holders_setMap, mem_holders]
    refine and_congr_right fun _ ↦ exists_congr fun u ↦ ?_
    split_ifs with hsame
    · rw [hsame.1, hsame.2, hnone]
      exact iff_of_false (fun heq ↦ hne (Option.some.inj heq).symm) (by rintro ⟨⟩)
    · rfl

/-- A page that is mapped to the same frame changes no holder. -/
theorem holders_setMap {y : Mapping F} (hmap : m.frameOf p v = some y.frame) (g : F) :
    (m.setMap p v (some y)).holders g = m.holders g := by
  ext q
  have hset : q ∈ (m.setMap p v (some y)).holders g ↔ q ∈ m.procs ∧
      ∃ u, (if q = p ∧ u = v then (some y).map Mapping.frame else m.frameOf q u) = some g :=
    mem_holders_setMap
  rw [hset, mem_holders]
  refine and_congr_right fun _ ↦ exists_congr fun u ↦ ?_
  split_ifs with hsame
  · rw [hsame.1, hsame.2, hmap]
    rfl
  · rfl

/-- The frame of a page that is dropped is not held by its process any more. -/
theorem Sound.holders_drop [DecidableEq F] (h : m.Sound) (hmap : m.frameOf p v = some f) (g : F) :
    (m.drop p v f).holders g = if g = f then (m.holders g).erase p else m.holders g := by
  ext q
  rw [SharedMemory.drop, mem_holders_setMap]
  split_ifs with hg
  · subst hg
    rw [Finset.mem_erase, mem_holders]
    constructor
    · rintro ⟨hq, u, hframe⟩
      split_ifs at hframe with hsame
      · cases hframe
      · refine ⟨?_, hq, u, hframe⟩
        rintro rfl
        exact hsame ⟨rfl, h.once q u v g hframe hmap⟩
    · rintro ⟨hne, hq, u, hframe⟩
      exact ⟨hq, u, (if_neg fun hand ↦ hne hand.1).trans hframe⟩
  · rw [mem_holders]
    refine and_congr_right fun _ ↦ exists_congr fun u ↦ ?_
    split_ifs with hsame
    · rw [hsame.1, hsame.2, hmap]
      exact iff_of_false (by rintro ⟨⟩) fun heq ↦ hg (Option.some.inj heq).symm
    · rfl

variable [DecidableEq F]

theorem forked_of_step (hstep : Step priv m (.fork parent child) m') (h : m.Sound)
    (hprivate : m.HasPrivate priv) : parent ≠ child ∧ Forked priv parent child m m' := by
  cases hstep with
  | fork hparent hchild hcopies =>
    exact ⟨fun heq ↦ hchild (heq ▸ hparent), forked h hprivate hparent hchild hcopies⟩

/-- A page that a process has shared with its child and then drops is held by the child alone. -/
theorem Forked.holders_drop (h : Forked priv parent child m m') (hsound : m.Sound)
    (hchild : child ∉ m.procs) (hne : parent ≠ child) (hv : v ∉ priv)
    (hmap : m.map parent v = some ⟨f, true⟩) :
    (m'.drop parent v f).holders f = {child} ∧
      (m'.drop parent v f).map child v = some ⟨f, false⟩ := by
  classical
  have hparent : m'.frameOf parent v = some f := by
    rw [h.frameOf_of_ne parent v hne]
    exact frameOf_eq_some hmap
  have hshared : m'.map child v = some ⟨f, false⟩ := by
    rw [h.map_child v hv, hmap]
    rfl
  have hframe : ∃ u, m'.frameOf child u = some f := ⟨v, by rw [frameOf, hshared]; rfl⟩
  constructor
  · rw [h.sound.holders_drop hparent, if_pos rfl, h.holders_eq hchild, if_pos hframe,
      hsound.holders_eq hmap]
    ext q
    rw [Finset.mem_erase, Finset.mem_insert, Finset.mem_singleton, Finset.mem_singleton]
    constructor
    · rintro ⟨hq, hor⟩
      exact hor.resolve_right hq
    · rintro rfl
      exact ⟨hne.symm, .inl rfl⟩
  · exact map_setMap.trans ((if_neg fun hand ↦ hne hand.1.symm).trans hshared)

/-- The operations keep the memory sound. -/
theorem Step.sound (hstep : Step priv m op m') (h : m.Sound) (hprivate : m.HasPrivate priv) :
    m'.Sound := by
  cases hstep with
  | fork hparent hchild hcopies => exact (forked h hprivate hparent hchild hcopies).sound
  | take hp _ hfree => exact h.take hp hfree
  | own hmap hsole => exact h.own hmap hsole
  | drop hmap => exact h.drop hmap
  | store d => exact h.store _ _

theorem Step.hasPrivate (hstep : Step priv m op m') (h : m.Sound) (hprivate : m.HasPrivate priv) :
    m'.HasPrivate priv := by
  cases hstep with
  | fork hparent hchild hcopies => exact (forked h hprivate hparent hchild hcopies).hasPrivate
  | take => exact hprivate.replace fun _ ↦ ⟨_, rfl⟩
  | own => exact hprivate.replace fun _ ↦ ⟨_, rfl⟩
  | drop hmap hv => exact hprivate.replace fun hmem ↦ absurd hmem hv
  | store d => exact hprivate

/-- What the processes find at their pages changes as if every process had a memory of its own. -/
theorem Step.space (hstep : Step priv m op m') (h : m.Sound) (hprivate : m.HasPrivate priv) :
    SpaceStep m.space op m'.space := by
  cases hstep with
  | fork hparent hchild hcopies =>
    rw [(forked h hprivate hparent hchild hcopies).space]
    exact .fork
  | @take p v f rest hp hmap hfree =>
    have hspace : (m.take p v f rest).space = setPage m.space p v (some (m.contents f)) :=
      space_setMap
    rw [hspace]
    refine .take _ ?_
    rw [SharedMemory.space, frameOf, hmap]
    rfl
  | @own p v f hmap hsole =>
    have hfind : m.space p v = some (m.contents f) := by
      rw [SharedMemory.space, hmap]
      rfl
    have hspace :
        (m.setMap p v (some ⟨f, true⟩)).space = setPage m.space p v (some (m.contents f)) :=
      space_setMap
    have hsame : setPage m.space p v (some (m.contents f)) = m.space := by
      rw [← hfind, setPage, Function.update_eq_self, Function.update_eq_self]
    rw [hspace, hsame]
    exact .own (by rw [hfind]; rfl)
  | @drop p v f hmap hv =>
    have hspace : (m.drop p v f).space = setPage m.space p v none := space_setMap
    rw [hspace]
    refine .drop ?_
    rw [SharedMemory.space, hmap]
    rfl
  | @store p v f d hmap =>
    have hspace : (m.store f d).space = setPage m.space p v (some d) := by
      funext q u
      rw [setPage_apply]
      change (m.frameOf q u).map (Function.update m.contents f d) = _
      split_ifs with hsame
      · rw [hsame.1, hsame.2, frameOf_eq_some hmap, Option.map_some, Function.update_self]
      · rw [SharedMemory.space]
        cases hframe : m.frameOf q u with
        | none => rfl
        | some g =>
          -- a frame that may be written has one page
          have hne : g ≠ f := by
            rintro rfl
            exact hsame (h.eq_of_writable hmap hframe)
          rw [Option.map_some, Option.map_some, Function.update_of_ne hne]
    rw [hspace]
    refine .store d ?_
    rw [SharedMemory.space, frameOf_eq_some hmap]
    rfl

/-- A frame that is free or held by a process. -/
def Accounted (m : SharedMemory P V F D) (f : F) : Prop := f ∈ m.free ∨ (m.holders f).Nonempty

/-- No frame is lost. -/
theorem Step.accounted (hstep : Step priv m op m') (h : m.Sound) (hprivate : m.HasPrivate priv)
    (hf : m.Accounted f) : m'.Accounted f := by
  classical
  cases hstep with
  | @fork m' parent child hparent hchild hcopies =>
    have hforked := forked h hprivate hparent hchild hcopies
    rcases hf with hfree | ⟨q, hq⟩
    · rcases hforked.conserved f hfree with hfree | ⟨v, hframe⟩
      · exact .inl hfree
      · refine .inr ⟨child, mem_holders.mpr ⟨?_, v, hframe⟩⟩
        rw [hforked.procs]
        exact Finset.mem_insert_self _ _
    · refine .inr ⟨q, ?_⟩
      rw [hforked.holders_eq hchild]
      split_ifs
      · exact Finset.mem_insert_of_mem hq
      · exact hq
  | @take p v g rest hp hmap hfree =>
    rcases hf with hmem | ⟨q, hq⟩
    · rw [hfree] at hmem
      rcases List.mem_cons.mp hmem with rfl | hmem
      · exact .inr ⟨p, mem_holders.mpr ⟨hp, v, frameOf_setMap.trans (if_pos ⟨rfl, rfl⟩)⟩⟩
      · exact .inl hmem
    · obtain ⟨hproc, u, hframe⟩ := mem_holders.mp hq
      refine .inr ⟨q, mem_holders.mpr ⟨hproc, u, frameOf_setMap.trans ?_⟩⟩
      rw [if_neg]
      · exact hframe
      · rintro ⟨rfl, rfl⟩
        rw [frameOf, hmap] at hframe
        cases hframe
  | @own p v g hmap hsole =>
    rcases hf with hfree | ⟨q, hq⟩
    · exact .inl hfree
    · obtain ⟨hproc, u, hframe⟩ := mem_holders.mp hq
      refine .inr ⟨q, mem_holders.mpr ⟨hproc, u, frameOf_setMap.trans ?_⟩⟩
      split_ifs with hsame
      · rw [hsame.1, hsame.2, hmap] at hframe
        exact hframe
      · exact hframe
  | @drop p v g hmap hv =>
    have hproc (q : P) (u : V) (hq : q ∈ m.procs) (hframe : m.frameOf q u = some f)
        (hne : ¬ (q = p ∧ u = v)) : (m.drop p v g).Accounted f :=
      .inr ⟨q, mem_holders.mpr ⟨hq, u, frameOf_setMap.trans ((if_neg hne).trans hframe)⟩⟩
    rcases hf with hfree | ⟨q, hq⟩
    · left
      rw [SharedMemory.drop]
      dsimp only
      split_ifs
      · exact List.mem_cons_of_mem g hfree
      · exact hfree
    · obtain ⟨hq, u, hframe⟩ := mem_holders.mp hq
      by_cases hsame : q = p ∧ u = v
      · obtain ⟨rfl, rfl⟩ := hsame
        obtain rfl : f = g := Option.some.inj (hframe.symm.trans hmap)
        by_cases hsole : m.holders f = {q}
        · left
          rw [SharedMemory.drop]
          dsimp only
          rw [if_pos hsole]
          exact List.mem_cons_self
        · -- some other process holds the frame
          have hmem : q ∈ m.holders f := mem_holders.mpr ⟨hq, u, hframe⟩
          obtain ⟨r, hr, hne⟩ : ∃ r ∈ m.holders f, r ≠ q := by
            by_contra hnone
            refine hsole (Finset.eq_singleton_iff_unique_mem.mpr ⟨hmem, fun r hr ↦ ?_⟩)
            exact by_contra fun hne ↦ hnone ⟨r, hr, hne⟩
          obtain ⟨hr, w, hframe'⟩ := mem_holders.mp hr
          exact hproc r w hr hframe' fun hand ↦ hne hand.1
      · exact hproc q u hq hframe hsame
  | store d => exact hf

end SharedMemory

end SysresOs.Sharing
