import SysresOs.Lib.Ring
import SysresOs.Proc.View

/-!
# The process tree

Every process has a cyclic list of children, entered at `child` and linked by `next_sibling` and
`prev_sibling`. `Kinship` is the part of the process table that these lists and the parents are kept
in, and `Family N st kids` says that it holds the lists `kids` of the processes alive: fork is an
insertion (`Family.adopt`), a reported exit a removal (`Family.reap`), and an exit gives the
children to `init` without putting them in its list (`Family.exit`).
-/

set_option autoImplicit false
set_option relaxedAutoImplicit false

namespace SysresOs.Proc

open SysresOs.Ring SysresOs.Outcome

/-! ### Families -/

/-- The parents, children and siblings of all processes. -/
@[ext] structure Kinship where
  parent : Pid → Pid
  child : Pid → Ptr
  next : Pid → Ptr
  prev : Pid → Ptr

/-- A process that has neither exited nor been reaped. -/
def ProcState.Alive (st : ProcState) : Prop := st ≠ .free ∧ st ≠ .zombie

/-- A slot that was given to a process by a fork, and not freed since. -/
def Member (st : Pid → ProcState) (c : Pid) : Prop := 2 ≤ c.val ∧ st c ≠ .free

/-- The kinship holds the lists of children `kids` of the processes alive. The children of a process
that has exited keep their links to each other, and have `init` as parent. -/
structure Family (N : Kinship) (st : Pid → ProcState) (kids : Pid → List Pid) : Prop where
  linked : ∀ c, Member st c → (∃ d, Member st d ∧ Link N.next N.prev c d) ∧
    ∃ e, Member st e ∧ Link N.next N.prev e c
  parent : ∀ c, Member st c → N.parent c = initPid ∨ (st (N.parent c)).Alive
  proper : ∀ c, Member st c → N.parent c ≠ c
  root : N.parent initPid = initPid
  ring : ∀ p, (st p).Alive → IsRing N.next N.prev (kids p)
  head : ∀ p, (st p).Alive → N.child p = (kids p).head?
  mem : ∀ p, (st p).Alive → ∀ c ∈ kids p, Member st c ∧ N.parent c = p
  complete : ∀ p, (st p).Alive → p ≠ initPid → ∀ c, Member st c → N.parent c = p → c ∈ kids p

/-- The lists of a process that waits hold children, none of which has exited. -/
def Awaited (st : Pid → ProcState) (kids : Pid → List Pid) : Prop :=
  ∀ p, st p = .waiting → kids p ≠ [] ∧ ∀ c ∈ kids p, st c ≠ .zombie

section Edits

variable {N : Kinship} {st st' : Pid → ProcState} {kids : Pid → List Pid} {p q c w z : Pid}

theorem Family.disjoint (h : Family N st kids) (hp : (st p).Alive) (hq : (st q).Alive)
    (hc : c ∈ kids p) (hc' : c ∈ kids q) : p = q :=
  (h.mem p hp c hc).2.symm.trans (h.mem q hq c hc').2

/-- States that are free or exited where the others are have the same families. -/
theorem Family.congr (h : Family N st kids) (hfree : ∀ q, st' q = .free ↔ st q = .free)
    (hzombie : ∀ q, st' q = .zombie ↔ st q = .zombie) : Family N st' kids := by
  have hmember : ∀ q, Member st' q ↔ Member st q := fun q ↦ and_congr_right fun _ ↦
    not_congr (hfree q)
  have halive : ∀ q, (st' q).Alive ↔ (st q).Alive := fun q ↦
    and_congr (not_congr (hfree q)) (not_congr (hzombie q))
  refine ⟨fun c hc ↦ ?_, fun c hc ↦ ?_, fun c hc ↦ h.proper c ((hmember c).mp hc), h.root,
    fun p hp ↦ ?_, fun p hp ↦ ?_, fun p hp c hc ↦ ?_, fun p hp hinit c hc hparent ↦ ?_⟩
  · simp only [hmember] at hc ⊢
    exact h.linked c hc
  · rw [halive]
    exact h.parent c ((hmember c).mp hc)
  · exact h.ring p ((halive p).mp hp)
  · exact h.head p ((halive p).mp hp)
  · rw [hmember]
    exact h.mem p ((halive p).mp hp) c hc
  · exact h.complete p ((halive p).mp hp) hinit c ((hmember c).mp hc) hparent

/-- The kinship after an exit of `p` with the children `l`, which get `init` as parent. -/
def Kinship.orphan (N : Kinship) (l : List Pid) : Kinship :=
  { N with parent := fun q ↦ if q ∈ l then initPid else N.parent q }

/-- An exit. -/
theorem Family.exit (h : Family N st kids) (hp : (st p).Alive) :
    Family (N.orphan (kids p)) (Function.update st p .zombie) kids := by
  have hmember : ∀ q, Member (Function.update st p .zombie) q ↔ Member st q := by
    intro q
    refine and_congr_right fun _ ↦ ?_
    rw [Function.update_apply]
    split_ifs with hq
    · subst hq
      exact iff_of_true nofun hp.1
    · rfl
  have halive : ∀ q, (Function.update st p .zombie q).Alive ↔ q ≠ p ∧ (st q).Alive := by
    intro q
    rw [Function.update_apply]
    split_ifs with hq
    · exact iff_of_false (fun hzombie ↦ hzombie.2 rfl) fun hne ↦ hne.1 hq
    · exact (and_iff_right hq).symm
  refine ⟨fun c hc ↦ ?_, fun c hc ↦ ?_, fun c hc ↦ ?_, ?_, fun q hq ↦ ?_, fun q hq ↦ ?_,
    fun q hq c hc ↦ ?_, fun q hq hinit c hc hparent ↦ ?_⟩
  · simp only [hmember] at hc ⊢
    exact h.linked c hc
  · rw [hmember] at hc
    by_cases hkid : c ∈ kids p
    · exact .inl (if_pos hkid)
    · have hsame : (N.orphan (kids p)).parent c = N.parent c := if_neg hkid
      rw [hsame, halive]
      rcases h.parent c hc with hinit | hlive
      · exact .inl hinit
      · by_cases hp' : N.parent c = p
        · by_cases hinit : p = initPid
          · exact .inl (hp'.trans hinit)
          · exact absurd (h.complete p hp hinit c hc hp') hkid
        · exact .inr ⟨hp', hlive⟩
  · rw [hmember] at hc
    change (if c ∈ kids p then initPid else N.parent c) ≠ c
    split_ifs
    · rintro rfl
      exact absurd hc.1 (by decide)
    · exact h.proper c hc
  · change (if initPid ∈ kids p then initPid else N.parent initPid) = initPid
    split_ifs
    · rfl
    · exact h.root
  · exact h.ring q ((halive q).mp hq).2
  · exact h.head q ((halive q).mp hq).2
  · obtain ⟨hne, hlive⟩ := (halive q).mp hq
    obtain ⟨hmem, hparent⟩ := h.mem q hlive c hc
    refine ⟨(hmember c).mpr hmem, ?_⟩
    have hkid : c ∉ kids p := fun hkid ↦ hne (h.disjoint hlive hp hc hkid)
    exact (if_neg hkid).trans hparent
  · obtain ⟨hne, hlive⟩ := (halive q).mp hq
    rw [hmember] at hc
    by_cases hkid : c ∈ kids p
    · exact absurd ((if_pos hkid).symm.trans hparent) hinit.symm
    · exact h.complete q hlive hinit c hc ((if_neg hkid).symm.trans hparent)

/-- The kinship after `remove_child` of the child `c` of `p`, whose neighbours are `w` and `z`. -/
def Kinship.remove (N : Kinship) (p c w z : Pid) : Kinship :=
  { N with
    child := if N.child p = some c then
        Function.update N.child p (if z = c then none else some z) else N.child
    next := Function.update N.next w (some z)
    prev := Function.update N.prev z (some w) }

/-- The neighbours of a slot that is not in a ring are not either. -/
theorem not_mem_of_links {next prev : Pid → Ptr} {l : List Pid} (hring : IsRing next prev l)
    (hc : c ∉ l) (hw : Link next prev w c) (hz : Link next prev c z) : w ∉ l ∧ z ∉ l := by
  refine ⟨fun hmem ↦ hc ?_, fun hmem ↦ hc ?_⟩
  · obtain ⟨⟨d, hd, hlink⟩, -⟩ := hring.links_of_mem hmem
    rwa [← Option.some.inj (hlink.1.symm.trans hw.1)]
  · obtain ⟨-, ⟨d, hd, hlink⟩⟩ := hring.links_of_mem hmem
    rwa [← Option.some.inj (hlink.2.symm.trans hz.2)]

theorem Family.reap_linked (h : Family N st kids)
    (hmember : ∀ q, Member st' q ↔ q ≠ c ∧ Member st q)
    (hw : Link N.next N.prev w c) (hz : Link N.next N.prev c z) (hwm : Member st w)
    (hzm : Member st z) (d : Pid) (hd : Member st' d) :
    (∃ e, Member st' e ∧ Link (N.remove p c w z).next (N.remove p c w z).prev d e) ∧
      ∃ e, Member st' e ∧ Link (N.remove p c w z).next (N.remove p c w z).prev e d := by
  obtain ⟨hdc, hdm⟩ := (hmember d).mp hd
  -- A removed slot that is its own neighbour is alone.
  have halone : ∀ {a}, a ≠ c → a = w ∨ a = z → z ≠ c ∧ w ≠ c := by
    intro a ha haw
    constructor
    · rintro rfl
      obtain rfl := Option.some.inj (hw.2.symm.trans hz.2)
      exact haw.elim ha ha
    · rintro rfl
      obtain rfl := Option.some.inj (hz.1.symm.trans hw.1)
      exact haw.elim ha ha
  have hjoin : z ≠ c → w ≠ c → Link (N.remove p c w z).next (N.remove p c w z).prev w z :=
    fun _ _ ↦ ⟨Function.update_self .., Function.update_self ..⟩
  obtain ⟨⟨e, hem, hde⟩, ⟨f, hfm, hfd⟩⟩ := h.linked d hdm
  constructor
  · by_cases hdw : d = w
    · obtain ⟨hzc, hwc⟩ := halone hdc (.inl hdw)
      exact ⟨z, (hmember z).mpr ⟨hzc, hzm⟩, hdw ▸ hjoin hzc hwc⟩
    · have hec : e ≠ c := by
        rintro rfl
        exact hdw (Option.some.inj (hde.2.symm.trans hw.2))
      have hez : e ≠ z := by
        rintro rfl
        exact hdc (Option.some.inj (hde.2.symm.trans hz.2))
      exact ⟨e, (hmember e).mpr ⟨hec, hem⟩, (Function.update_of_ne hdw ..).trans hde.1,
        (Function.update_of_ne hez ..).trans hde.2⟩
  · by_cases hdz : d = z
    · obtain ⟨hzc, hwc⟩ := halone hdc (.inr hdz)
      exact ⟨w, (hmember w).mpr ⟨hwc, hwm⟩, hdz ▸ hjoin hzc hwc⟩
    · have hfc : f ≠ c := by
        rintro rfl
        exact hdz (Option.some.inj (hfd.1.symm.trans hz.1))
      have hfw : f ≠ w := by
        rintro rfl
        exact hdc (Option.some.inj (hfd.1.symm.trans hw.1))
      exact ⟨f, (hmember f).mpr ⟨hfc, hfm⟩, (Function.update_of_ne hfw ..).trans hfd.1,
        (Function.update_of_ne hdz ..).trans hfd.2⟩

theorem member_reaped (hne : c ≠ p) (hp : (st p).Alive) :
    Member (Function.update (Function.update st c .free) p .runnable) q ↔ q ≠ c ∧ Member st q := by
  unfold Member
  rw [Function.update_apply]
  split_ifs with hq
  · simp [hq, hne.symm, hp.1]
  · rw [Function.update_apply]
    split_ifs with hq'
    · simp [hq']
    · simp [hq']

theorem alive_reaped (hzombie : st c = .zombie) (hp : (st p).Alive) :
    (Function.update (Function.update st c .free) p .runnable q).Alive ↔ (st q).Alive := by
  rw [Function.update_apply]
  split_ifs with hq
  · rw [hq]
    exact iff_of_true ⟨nofun, nofun⟩ hp
  · rw [Function.update_apply]
    split_ifs with hq'
    · rw [hq']
      exact iff_of_false (fun halive ↦ halive.1 rfl) fun halive ↦ halive.2 hzombie
    · rfl

/-- The first children after a report, in the rings without the child. -/
theorem Family.reap_head (h : Family N st kids) (hz : N.next c = some z) (hq : (st q).Alive) :
    (N.remove p c w z).child q = (Function.update kids p ((kids p).erase c) q).head? := by
  by_cases hqp : q = p
  · subst hqp
    rw [Function.update_self, (h.ring q hq).head?_erase hz, ← h.head q hq, Kinship.remove]
    split_ifs
    · exact Function.update_self ..
    · exact Function.update_self ..
    · rfl
  · rw [Function.update_of_ne hqp, ← h.head q hq, Kinship.remove]
    split_ifs
    · exact Function.update_of_ne hqp ..
    · exact Function.update_of_ne hqp ..
    · rfl

/-- The report of an exit: the child leaves the list of its parent, when it is in it, and its slot
is free. -/
theorem Family.reap (h : Family N st kids) (hc : Member st c) (hzombie : st c = .zombie)
    (hparent : N.parent c = p) (hp : (st p).Alive) (hw : N.prev c = some w)
    (hz : N.next c = some z) :
    Family (N.remove p c w z) (Function.update (Function.update st c .free) p .runnable)
      (Function.update kids p ((kids p).erase c)) := by
  have hne : c ≠ p := by
    rintro rfl
    exact hp.2 hzombie
  have hmember (q : Pid) :
      Member (Function.update (Function.update st c .free) p .runnable) q ↔ q ≠ c ∧ Member st q :=
    member_reaped hne hp
  have halive (q : Pid) :
      (Function.update (Function.update st c .free) p .runnable q).Alive ↔ (st q).Alive :=
    alive_reaped hzombie hp
  obtain ⟨⟨d, hdm, hcd⟩, ⟨e, hem, hec⟩⟩ := h.linked c hc
  obtain rfl := Option.some.inj (hz.symm.trans hcd.1)
  obtain rfl := Option.some.inj (hw.symm.trans hec.2)
  have hkids : ∀ q, (st q).Alive → ∀ a, a ∈ Function.update kids p ((kids p).erase c) q ↔
      a ≠ c ∧ a ∈ kids q := by
    intro q hq a
    rw [Function.update_apply]
    split_ifs with hqp
    · subst hqp
      exact (h.ring q hq).nodup.mem_erase_iff
    · refine (and_iff_right_of_imp fun hmem ↦ ?_).symm
      rintro rfl
      exact hqp ((h.mem q hq a hmem).2.symm.trans hparent)
  refine ⟨h.reap_linked hmember hec hcd hem hdm, fun a ha ↦ ?_,
    fun a ha ↦ h.proper a ((hmember a).mp ha).2, h.root, fun q hq ↦ ?_, fun q hq ↦ ?_,
    fun q hq a ha ↦ ?_, fun q hq hinit a ha hpa ↦ ?_⟩
  · rw [halive]
    exact h.parent a ((hmember a).mp ha).2
  · rw [halive] at hq
    by_cases hmem : c ∈ kids q
    · obtain rfl : q = p := (h.mem q hq c hmem).2.symm.trans hparent
      rw [Function.update_self]
      exact (h.ring q hq).remove hmem hw hz
    · have hsame : Function.update kids p ((kids p).erase c) q = kids q := by
        rw [Function.update_apply]
        split_ifs with hqp
        · rw [hqp] at hmem ⊢
          exact List.erase_of_not_mem hmem
        · rfl
      obtain ⟨hwnot, hznot⟩ := not_mem_of_links (h.ring q hq) hmem hec hcd
      rw [hsame]
      refine (h.ring q hq).congr (fun a ha ↦ Function.update_of_ne ?_ ..)
        fun a ha ↦ Function.update_of_ne ?_ ..
      · exact fun heq ↦ hwnot (heq ▸ ha)
      · exact fun heq ↦ hznot (heq ▸ ha)
  · rw [halive] at hq
    exact h.reap_head hz hq
  · rw [halive] at hq
    obtain ⟨hac, hmem⟩ := (hkids q hq a).mp ha
    exact ⟨(hmember a).mpr ⟨hac, (h.mem q hq a hmem).1⟩, (h.mem q hq a hmem).2⟩
  · rw [halive] at hq
    obtain ⟨hac, hmem⟩ := (hmember a).mp ha
    exact (hkids q hq a).mpr ⟨hac, h.complete q hq hinit a hmem hpa⟩

/-- The kinship after `add_child` of a new child `c` of `p`. The links depend on whether `p` had a
first child `h`, with predecessor `w`. -/
def Kinship.adopt (N : Kinship) (p c : Pid) (links : Option (Pid × Pid)) : Kinship where
  parent := Function.update N.parent c p
  child := Function.update (Function.update N.child c none) p (some c)
  next := match links with
    | none => Function.update N.next c (some c)
    | some (h, w) => Function.update (Function.update N.next c (some h)) w (some c)
  prev := match links with
    | none => Function.update N.prev c (some c)
    | some (h, w) => Function.update (Function.update N.prev c (some w)) h (some c)

/-- The links that `add_child` finds. -/
def Kinship.Finds (N : Kinship) (p : Pid) : Option (Pid × Pid) → Prop
  | none => N.child p = none
  | some (h, w) => N.child p = some h ∧ N.prev h = some w

/-- The first child that `add_child` finds and its predecessor are in the list of the parent, next
to each other. -/
theorem Family.finds (h : Family N st kids) (hp : (st p).Alive) {a b : Pid}
    (hlinks : N.Finds p (some (a, b))) :
    (∃ l, kids p = a :: l) ∧ b ∈ kids p ∧ Link N.next N.prev b a := by
  have hhead := (h.head p hp).symm.trans hlinks.1
  obtain ⟨l, hl⟩ : ∃ l, kids p = a :: l := List.head?_eq_some_iff.mp hhead
  have hmem : a ∈ kids p := by rw [hl]; exact List.mem_cons_self
  obtain ⟨-, ⟨d, hd, hlink⟩⟩ := (h.ring p hp).links_of_mem hmem
  obtain rfl := Option.some.inj (hlinks.2.symm.trans hlink.2)
  exact ⟨⟨l, hl⟩, hd, hlink⟩

theorem Family.adopt_linked (h : Family N st kids) (hp : (st p).Alive) (hnew : ¬ Member st c)
    (hmember : ∀ q, Member st' q ↔ q = c ∨ Member st q) {links : Option (Pid × Pid)}
    (hlinks : N.Finds p links) (d : Pid) (hd : Member st' d) :
    (∃ e, Member st' e ∧ Link (N.adopt p c links).next (N.adopt p c links).prev d e) ∧
      ∃ e, Member st' e ∧ Link (N.adopt p c links).next (N.adopt p c links).prev e d := by
  have hself : Member st' c := (hmember c).mpr (.inl rfl)
  cases links with
  | none =>
    rcases (hmember d).mp hd with rfl | hdm
    · have hlink : Link (N.adopt p d none).next (N.adopt p d none).prev d d :=
        ⟨Function.update_self .., Function.update_self ..⟩
      exact ⟨⟨d, hself, hlink⟩, ⟨d, hself, hlink⟩⟩
    · obtain ⟨⟨e, hem, hde⟩, ⟨f, hfm, hfd⟩⟩ := h.linked d hdm
      have hkeep : ∀ {x y}, Member st x → Member st y → Link N.next N.prev x y →
          Link (N.adopt p c none).next (N.adopt p c none).prev x y := by
        intro x y hx hy hxy
        have hxc : x ≠ c := fun heq ↦ hnew (heq ▸ hx)
        have hyc : y ≠ c := fun heq ↦ hnew (heq ▸ hy)
        exact ⟨(Function.update_of_ne hxc ..).trans hxy.1,
          (Function.update_of_ne hyc ..).trans hxy.2⟩
      exact ⟨⟨e, (hmember e).mpr (.inr hem), hkeep hdm hem hde⟩,
        ⟨f, (hmember f).mpr (.inr hfm), hkeep hfm hdm hfd⟩⟩
  | some ab =>
    obtain ⟨a, b⟩ := ab
    obtain ⟨⟨l, hl⟩, hb, hba⟩ := h.finds hp hlinks
    have ham : Member st a := (h.mem p hp a (by rw [hl]; exact List.mem_cons_self)).1
    have hbm : Member st b := (h.mem p hp b hb).1
    have hca : c ≠ a := fun heq ↦ hnew (heq ▸ ham)
    have hcb : c ≠ b := fun heq ↦ hnew (heq ▸ hbm)
    have hafter : Link (N.adopt p c (some (a, b))).next (N.adopt p c (some (a, b))).prev c a :=
      ⟨(Function.update_of_ne hcb ..).trans (Function.update_self ..), Function.update_self ..⟩
    have hbefore : Link (N.adopt p c (some (a, b))).next (N.adopt p c (some (a, b))).prev b c :=
      ⟨Function.update_self .., (Function.update_of_ne hca ..).trans (Function.update_self ..)⟩
    have hkeep : ∀ {x y}, Member st x → Member st y → x ≠ b → y ≠ a → Link N.next N.prev x y →
        Link (N.adopt p c (some (a, b))).next (N.adopt p c (some (a, b))).prev x y := by
      intro x y hx hy hxb hya hxy
      have hxc : x ≠ c := fun heq ↦ hnew (heq ▸ hx)
      have hyc : y ≠ c := fun heq ↦ hnew (heq ▸ hy)
      exact ⟨((Function.update_of_ne hxb ..).trans (Function.update_of_ne hxc ..)).trans hxy.1,
        ((Function.update_of_ne hya ..).trans (Function.update_of_ne hyc ..)).trans hxy.2⟩
    rcases (hmember d).mp hd with rfl | hdm
    · exact ⟨⟨a, (hmember a).mpr (.inr ham), hafter⟩, ⟨b, (hmember b).mpr (.inr hbm), hbefore⟩⟩
    · obtain ⟨⟨e, hem, hde⟩, ⟨f, hfm, hfd⟩⟩ := h.linked d hdm
      constructor
      · by_cases hdb : d = b
        · exact ⟨c, hself, hdb ▸ hbefore⟩
        · have hea : e ≠ a := by
            rintro rfl
            exact hdb (Option.some.inj (hde.2.symm.trans hba.2))
          exact ⟨e, (hmember e).mpr (.inr hem), hkeep hdm hem hdb hea hde⟩
      · by_cases hda : d = a
        · exact ⟨c, hself, hda ▸ hafter⟩
        · have hfb : f ≠ b := by
            rintro rfl
            exact hda (Option.some.inj (hfd.1.symm.trans hba.1))
          exact ⟨f, (hmember f).mpr (.inr hfm), hkeep hfm hdm hfb hda hfd⟩

theorem Family.adopt_ring (h : Family N st kids) (hp : (st p).Alive) (hnew : ¬ Member st c)
    {links : Option (Pid × Pid)} (hlinks : N.Finds p links) :
    IsRing (N.adopt p c links).next (N.adopt p c links).prev (c :: kids p) ∧
      ∀ q, (st q).Alive → q ≠ p →
      IsRing (N.adopt p c links).next (N.adopt p c links).prev (kids q) := by
  have hnotin : ∀ q, (st q).Alive → c ∉ kids q := fun q hq hmem ↦ hnew (h.mem q hq c hmem).1
  cases links with
  | none =>
    have hempty : kids p = [] := List.head?_eq_none_iff.mp ((h.head p hp).symm.trans hlinks)
    constructor
    · rw [hempty]
      exact isRing_singleton (Function.update_self ..) (Function.update_self ..)
    · intro q hq _
      refine (h.ring q hq).congr (fun a ha ↦ Function.update_of_ne ?_ ..)
        fun a ha ↦ Function.update_of_ne ?_ ..
      all_goals exact fun heq ↦ hnotin q hq (heq ▸ ha)
  | some ab =>
    obtain ⟨a, b⟩ := ab
    obtain ⟨⟨l, hl⟩, hb, hba⟩ := h.finds hp hlinks
    have ha : a ∈ kids p := by rw [hl]; exact List.mem_cons_self
    constructor
    · have hring := h.ring p hp
      have hnot := hnotin p hp
      rw [hl] at hring hnot ⊢
      exact hring.insert hnot hba.2
    · intro q hq hqp
      have hother : ∀ d ∈ kids q, d ∉ kids p := fun d hd hd' ↦ hqp (h.disjoint hq hp hd hd')
      refine (h.ring q hq).congr (fun d hd ↦ ?_) fun d hd ↦ ?_
      · refine (Function.update_of_ne ?_ ..).trans (Function.update_of_ne ?_ ..)
        · exact fun heq ↦ hother d hd (heq ▸ hb)
        · exact fun heq ↦ hnotin q hq (heq ▸ hd)
      · refine (Function.update_of_ne ?_ ..).trans (Function.update_of_ne ?_ ..)
        · exact fun heq ↦ hother d hd (heq ▸ ha)
        · exact fun heq ↦ hnotin q hq (heq ▸ hd)

@[simp]
theorem Kinship.adopt_parent_self (links : Option (Pid × Pid)) : (N.adopt p c links).parent c = p :=
  Function.update_self ..

theorem Kinship.adopt_parent_of_ne (links : Option (Pid × Pid)) (hne : q ≠ c) :
    (N.adopt p c links).parent q = N.parent q :=
  Function.update_of_ne hne ..

theorem member_update_runnable (hslot : 2 ≤ c.val) :
    Member (Function.update st c .runnable) q ↔ q = c ∨ Member st q := by
  unfold Member
  rw [Function.update_apply]
  split_ifs with hq
  · simp [hq, hslot]
  · simp [hq]

theorem alive_update_runnable :
    (Function.update st c .runnable q).Alive ↔ q = c ∨ (st q).Alive := by
  rw [Function.update_apply]
  split_ifs with hq
  · exact iff_of_true ⟨nofun, nofun⟩ (.inl hq)
  · exact (or_iff_right hq).symm

/-- The lists of children after a fork: the new process has none and is the first of its parent. -/
def adoptKids (kids : Pid → List Pid) (p c : Pid) : Pid → List Pid :=
  Function.update (Function.update kids c []) p (c :: kids p)

@[simp]
theorem adoptKids_self : adoptKids kids p c p = c :: kids p :=
  Function.update_self ..

theorem adoptKids_new (hne : c ≠ p) : adoptKids kids p c c = [] :=
  (Function.update_of_ne hne ..).trans (Function.update_self ..)

theorem adoptKids_of_ne (hp : q ≠ p) (hc : q ≠ c) : adoptKids kids p c q = kids q :=
  (Function.update_of_ne hp ..).trans (Function.update_of_ne hc ..)

theorem Family.adopt_head (h : Family N st kids) (hne : c ≠ p) (links : Option (Pid × Pid))
    (hq : q = c ∨ (st q).Alive) :
    (N.adopt p c links).child q = (adoptKids kids p c q).head? := by
  change Function.update (Function.update N.child c none) p (some c) q = _
  by_cases hqp : q = p
  · rw [hqp, Function.update_self, adoptKids_self, List.head?_cons]
  · rw [Function.update_of_ne hqp]
    by_cases hqc : q = c
    · rw [hqc, Function.update_self, adoptKids_new hne, List.head?_nil]
    · rw [Function.update_of_ne hqc, adoptKids_of_ne hqp hqc]
      exact h.head q (hq.resolve_left hqc)

theorem Family.adopt_mem (h : Family N st kids) (hp : (st p).Alive) (hnew : ¬ Member st c)
    (hne : c ≠ p) (links : Option (Pid × Pid)) (hq : q = c ∨ (st q).Alive) {a : Pid}
    (ha : a ∈ adoptKids kids p c q) :
    (a = c ∨ Member st a) ∧ (N.adopt p c links).parent a = q := by
  have hold (hqa : (st q).Alive) (hmem : a ∈ kids q) :
      (a = c ∨ Member st a) ∧ (N.adopt p c links).parent a = q := by
    obtain ⟨hmember, hparent⟩ := h.mem q hqa a hmem
    have hac : a ≠ c := fun heq ↦ hnew (heq ▸ hmember)
    exact ⟨.inr hmember, (Kinship.adopt_parent_of_ne links hac).trans hparent⟩
  by_cases hqp : q = p
  · subst hqp
    rw [adoptKids_self] at ha
    rcases List.mem_cons.mp ha with rfl | ha
    · exact ⟨.inl rfl, Kinship.adopt_parent_self links⟩
    · exact hold hp ha
  · by_cases hqc : q = c
    · rw [hqc, adoptKids_new hne] at ha
      exact absurd ha List.not_mem_nil
    · rw [adoptKids_of_ne hqp hqc] at ha
      exact hold (hq.resolve_left hqc) ha

theorem Family.adopt_complete (h : Family N st kids) (hfree : st c = .free)
    {links : Option (Pid × Pid)} (hq : q = c ∨ (st q).Alive) (hinit : q ≠ initPid) {a : Pid}
    (ha : a = c ∨ Member st a) (hparent : (N.adopt p c links).parent a = q) :
    a ∈ adoptKids kids p c q := by
  by_cases hac : a = c
  · rw [hac, Kinship.adopt_parent_self] at hparent
    rw [← hparent, adoptKids_self, hac]
    exact List.mem_cons_self
  · rw [Kinship.adopt_parent_of_ne links hac] at hparent
    have hmember := ha.resolve_left hac
    -- Nobody has the slot of the new process as parent.
    have hqc : q ≠ c := by
      rintro rfl
      rcases h.parent a hmember with hroot | hlive
      · exact hinit (hparent.symm.trans hroot)
      · rw [hparent] at hlive
        exact hlive.1 hfree
    have hold := h.complete q (hq.resolve_left hqc) hinit a hmember hparent
    by_cases hqp : q = p
    · rw [hqp, adoptKids_self]
      exact List.mem_cons_of_mem c (hqp ▸ hold)
    · rw [adoptKids_of_ne hqp hqc]
      exact hold

theorem Family.adopt_parent (h : Family N st kids) (hp : (st p).Alive)
    (links : Option (Pid × Pid)) {a : Pid} (ha : a = c ∨ Member st a) :
    (N.adopt p c links).parent a = initPid ∨ (N.adopt p c links).parent a = c ∨
      (st ((N.adopt p c links).parent a)).Alive := by
  by_cases hac : a = c
  · rw [hac, Kinship.adopt_parent_self]
    exact .inr (.inr hp)
  · rw [Kinship.adopt_parent_of_ne links hac]
    exact (h.parent a (ha.resolve_left hac)).imp_right .inr

theorem Family.adopt_proper (h : Family N st kids) (hne : c ≠ p) (links : Option (Pid × Pid))
    {a : Pid} (ha : a = c ∨ Member st a) : (N.adopt p c links).parent a ≠ a := by
  by_cases hac : a = c
  · rw [hac, Kinship.adopt_parent_self]
    exact hne.symm
  · rw [Kinship.adopt_parent_of_ne links hac]
    exact h.proper a (ha.resolve_left hac)

/-- A fork. -/
theorem Family.adopt (h : Family N st kids) (hp : (st p).Alive) (hfree : st c = .free)
    (hslot : 2 ≤ c.val) {links : Option (Pid × Pid)} (hlinks : N.Finds p links) :
    Family (N.adopt p c links) (Function.update st c .runnable) (adoptKids kids p c) := by
  have hne : c ≠ p := by
    rintro rfl
    exact hp.1 hfree
  have hnew : ¬ Member st c := fun hmem ↦ hmem.2 hfree
  have hmember (a : Pid) : Member (Function.update st c .runnable) a ↔ a = c ∨ Member st a :=
    member_update_runnable hslot
  obtain ⟨hring, hrings⟩ := h.adopt_ring hp hnew hlinks
  constructor
  case linked => exact h.adopt_linked hp hnew hmember hlinks
  case parent =>
    intro a ha
    rw [alive_update_runnable]
    exact h.adopt_parent hp links ((hmember a).mp ha)
  case proper => exact fun a ha ↦ h.adopt_proper hne links ((hmember a).mp ha)
  case root =>
    have hroot : initPid ≠ c := by
      rintro rfl
      exact absurd hslot (by decide)
    exact (Kinship.adopt_parent_of_ne links hroot).trans h.root
  case ring =>
    intro q hq
    by_cases hqp : q = p
    · rw [hqp, adoptKids_self]
      exact hring
    · by_cases hqc : q = c
      · rw [hqc, adoptKids_new hne]
        exact isRing_nil ..
      · rw [adoptKids_of_ne hqp hqc]
        exact hrings q ((alive_update_runnable.mp hq).resolve_left hqc) hqp
  case head => exact fun q hq ↦ h.adopt_head hne links (alive_update_runnable.mp hq)
  case mem =>
    intro q hq a ha
    rw [hmember]
    exact h.adopt_mem hp hnew hne links (alive_update_runnable.mp hq) ha
  case complete =>
    exact fun q hq hinit a ha hparent ↦
      h.adopt_complete hfree (alive_update_runnable.mp hq) hinit ((hmember a).mp ha) hparent

/-- An exit is a wake-up for its parent only. -/
theorem Awaited.exit_of_ne (h : Awaited st kids) (hfamily : Family N st kids) (hq : q ≠ N.parent p)
    (hwait : Function.update st p .zombie q = .waiting) :
    kids q ≠ [] ∧ ∀ c ∈ kids q, Function.update st p .zombie c ≠ .zombie := by
  have hqp : q ≠ p := by
    rintro rfl
    rw [Function.update_self] at hwait
    exact nomatch hwait
  rw [Function.update_of_ne hqp] at hwait
  obtain ⟨hne, hnone⟩ := h q hwait
  refine ⟨hne, fun c hc ↦ ?_⟩
  by_cases hcp : c = p
  · subst hcp
    have halive : (st q).Alive := by rw [hwait]; exact ⟨nofun, nofun⟩
    exact absurd (hfamily.mem q halive c hc).2.symm hq
  · rw [Function.update_of_ne hcp]
    exact hnone c hc

/-- An exit whose parent does not wait loses no wake-up. -/
theorem Awaited.exit (h : Awaited st kids) (hfamily : Family N st kids)
    (hparent : st (N.parent p) ≠ .waiting) : Awaited (Function.update st p .zombie) kids := by
  intro q hq
  refine h.exit_of_ne hfamily ?_ hq
  rintro rfl
  refine hparent ?_
  rw [Function.update_apply] at hq
  split_ifs at hq
  exact hq

/-- A report wakes its parent, and no other process that waits loses a child. -/
theorem Awaited.reap (h : ∀ q, q ≠ p → st q = .waiting →
    kids q ≠ [] ∧ ∀ c ∈ kids q, st c ≠ .zombie) : Awaited
    (Function.update (Function.update st c .free) p .runnable)
      (Function.update kids p ((kids p).erase c)) := by
  intro q hq
  have hqp : q ≠ p := by
    rintro rfl
    rw [Function.update_self] at hq
    exact nomatch hq
  have hqc : q ≠ c := by
    rintro rfl
    rw [Function.update_of_ne hqp, Function.update_self] at hq
    exact nomatch hq
  rw [Function.update_of_ne hqp, Function.update_of_ne hqc] at hq
  obtain ⟨hne, hnone⟩ := h q hqp hq
  rw [Function.update_of_ne hqp]
  refine ⟨hne, fun a ha ↦ ?_⟩
  rw [Function.update_apply]
  split_ifs
  · exact nofun
  · rw [Function.update_apply]
    split_ifs
    · exact nofun
    · exact hnone a ha

/-- A fork of a process that runs takes no child from a process that waits. -/
theorem Awaited.adopt (h : Awaited st kids) (hp : st p ≠ .waiting) :
    Awaited (Function.update st c .runnable) (adoptKids kids p c) := by
  intro q hq
  have hqc : q ≠ c := by
    rintro rfl
    rw [Function.update_self] at hq
    exact nomatch hq
  rw [Function.update_of_ne hqc] at hq
  have hqp : q ≠ p := by
    rintro rfl
    exact hp hq
  obtain ⟨hne, hnone⟩ := h q hq
  rw [adoptKids_of_ne hqp hqc]
  refine ⟨hne, fun a ha ↦ ?_⟩
  rw [Function.update_apply]
  split_ifs
  · exact nofun
  · exact hnone a ha

end Edits

/-! ### The kinship of a system state -/

/-- The kinship of a system state. -/
def SystemState.kin (s : SystemState) : Kinship where
  parent q := (s.procs q).parentPid
  child q := (s.procs q).child
  next q := (s.procs q).nextSibling
  prev q := (s.procs q).prevSibling

/-- The states of all processes. -/
def SystemState.states (s : SystemState) : Pid → ProcState := fun q ↦ (s.procs q).state

/-- What a descriptor holds of the kinship. -/
def ProcDescriptor.kinData (d : ProcDescriptor) : Pid × Ptr × Ptr × Ptr :=
  (d.parentPid, d.child, d.nextSibling, d.prevSibling)

theorem kin_congr {s s' : SystemState} (h : ∀ q, (s'.procs q).kinData = (s.procs q).kinData) :
    s'.kin = s.kin := by
  ext1 <;> ext1 q
  · exact congrArg (·.1) (h q)
  · exact congrArg (·.2.1) (h q)
  · exact congrArg (·.2.2.1) (h q)
  · exact congrArg (·.2.2.2) (h q)

theorem kin_modify (s : SystemState) (p : Pid) {f : ProcDescriptor → ProcDescriptor}
    (hf : ∀ d, (f d).kinData = d.kinData) : (s.modify p f).kin = s.kin := by
  refine kin_congr fun q ↦ ?_
  rw [SystemState.modify_procs]
  split_ifs with hq
  · rw [hf, hq]
  · rfl

theorem changeState_kin {s s' : SystemState} {q : Pid} {newState : ProcState}
    (h : changeState s q newState = .ok s') :
    s'.kin = s.kin ∧ s'.states = Function.update s.states q newState := by
  obtain ⟨htable, -⟩ := changeState_table h
  have hproc : ∀ r, (s'.procs r).dropQueue =
      if r = q then ((s.procs q).dropQueue).setState newState else (s.procs r).dropQueue := by
    intro r
    have hr := congrFun htable r
    rwa [Table.setState, Function.update_apply] at hr
  refine ⟨kin_congr fun r ↦ ?_, funext fun r ↦ ?_⟩
  · have hr := congrArg ProcDescriptor.kinData (hproc r)
    split_ifs at hr with hrq
    · rw [hrq] at hr ⊢
      exact hr
    · exact hr
  · have hr := congrArg ProcDescriptor.state (hproc r)
    rw [Function.update_apply]
    split_ifs at hr ⊢ with hrq
    · exact hr
    · exact hr

end SysresOs.Proc
