import SysresOs.Memory.Zone

/-!
# Page descriptors

`init_block_and_page_entry_sg1` merges the fields of a `block_attributes_sg1` and an address into a
level-3 entry. `decode` reads the fields at the positions that `mmu.h` documents.
`initBlockAndPageEntrySg1_encodes_iff` says that an entry decodes to what it was made from exactly
when the memory attribute index fits into the one bit that is written of it: the field has three.
-/

set_option autoImplicit false
set_option relaxedAutoImplicit false

namespace SysresOs.Mmu

/-! ### Fields -/

/-- The bits of a word from one position to another. -/
def field (x : Word) (hi lo : ℕ) : Word := (x &&& mask hi lo) >>> lo

section Field

variable {x y : Word} {hi lo k : ℕ}

theorem getLsbD_field (h : lo ≤ hi) (hhi : hi < 64) (i : ℕ) :
    (field x hi lo).getLsbD i = (x.getLsbD (lo + i) && decide (lo + i ≤ hi)) := by
  rw [field, BitVec.getLsbD_ushiftRight, BitVec.getLsbD_and, getLsbD_mask h hhi]
  simp

theorem field_or (x y : Word) (hi lo : ℕ) :
    field (x ||| y) hi lo = field x hi lo ||| field y hi lo := by
  rw [field, BitVec.and_or_distrib_right, BitVec.ushiftRight_or_distrib, field, field]

/-- A field is zero where the word has no bits. -/
theorem field_eq_zero (h : lo ≤ hi) (hhi : hi < 64)
    (hzero : ∀ i, lo ≤ i → i ≤ hi → x.getLsbD i = false) : field x hi lo = 0 := by
  refine BitVec.eq_of_getLsbD_eq fun i _ ↦ ?_
  have hbit : (0 : Word).getLsbD i = false := BitVec.getLsbD_zero
  rw [getLsbD_field h hhi, hbit]
  by_cases hi' : lo + i ≤ hi
  · rw [hzero _ (by omega) hi', Bool.false_and]
  · rw [decide_eq_false hi', Bool.and_false]

theorem field_bit_ne (h : lo ≤ hi) (hhi : hi < 64) (hk : k < lo ∨ hi < k) :
    field ((x &&& 1) <<< k) hi lo = 0 :=
  field_eq_zero h hhi fun _ _ _ ↦ getLsbD_bit x (by omega)

theorem field_pair_ne (h : lo ≤ hi) (hhi : hi < 64) (hk : k + 1 < lo ∨ hi < k) :
    field ((x &&& 3) <<< k) hi lo = 0 :=
  field_eq_zero h hhi fun _ _ _ ↦ getLsbD_pair x (by omega)

theorem field_address_ne (h : lo ≤ hi) (hhi : hi < 64) (hk : hi < 12 ∨ 47 < lo) :
    field (entryAddress x) hi lo = 0 := by
  refine field_eq_zero h hhi fun i _ _ ↦ ?_
  rw [getLsbD_entryAddress, decide_eq_false (by omega), Bool.and_false]

theorem field_three_ne (h : lo ≤ hi) (hhi : hi < 64) (hk : 2 ≤ lo) : field 3 hi lo = 0 := by
  refine field_eq_zero h hhi fun i _ _ ↦ ?_
  rw [getLsbD_three, decide_eq_false (by omega)]

theorem getLsbD_and_one (x : Word) (i : ℕ) :
    (x &&& 1).getLsbD i = (x.getLsbD i && decide (i = 0)) := by
  rw [BitVec.getLsbD_and, one_eq_mask, getLsbD_mask (by omega) (by omega)]
  simp

theorem getLsbD_and_three (x : Word) (i : ℕ) :
    (x &&& 3).getLsbD i = (x.getLsbD i && decide (i ≤ 1)) := by
  rw [BitVec.getLsbD_and, getLsbD_three]

/-- A single bit is read where it was put, also when the field is wider. -/
theorem field_bit_self (h : k ≤ hi) (hhi : hi < 64) : field ((x &&& 1) <<< k) hi k = x &&& 1 := by
  refine BitVec.eq_of_getLsbD_eq fun i _ ↦ ?_
  rw [getLsbD_field h hhi, BitVec.getLsbD_shiftLeft, getLsbD_and_one, getLsbD_and_one]
  rcases i with _ | i
  · simp [h]
    omega
  · simp

theorem field_pair_self (hhi : k + 1 < 64) : field ((x &&& 3) <<< k) (k + 1) k = x &&& 3 := by
  refine BitVec.eq_of_getLsbD_eq fun i _ ↦ ?_
  rw [getLsbD_field (by omega) hhi, BitVec.getLsbD_shiftLeft, getLsbD_and_three, getLsbD_and_three]
  by_cases hi : i ≤ 1
  · have hlt : k + i < 64 := by omega
    simp [hi, hlt]
  · simp [hi]

end Field

/-! ### Decoding -/

/-- `enum block_cache_config`. -/
inductive BlockCacheConfig
  | device
  | normalWtNt
  | normalWtT
  | normalWbNt
  | normalWbT
  | nonCacheable
  deriving DecidableEq, Repr

/-- The value of a constant of `enum block_cache_config`. -/
def BlockCacheConfig.value : BlockCacheConfig → Word
  | .device => Mmu.device
  | .normalWtNt => Mmu.normalWtNt
  | .normalWtT => 2
  | .normalWbNt => 3
  | .normalWbT => 4
  | .nonCacheable => 5

/-- The attributes of an entry, at the positions documented in `mmu.h`. -/
def decode (e : Word) : BlockAttributesSg1 where
  uxn := field e 54 54
  pxn := field e 53 53
  continuousBit := field e 52 52
  dirtyBit := field e 51 51
  notGlobal := field e 11 11
  accessFlag := field e 10 10
  shareability := field e 9 8
  accessPermission := field e 7 6
  nonSecure := field e 5 5
  attrIndex := field e 4 2

/-- An entry of type 3 for a physical page and attributes, with no other bit set. -/
structure Encodes (e pa : Word) (ba : BlockAttributesSg1) : Prop where
  attributes : decode e = ba
  address : e &&& mask 47 12 = pa
  type : field e 1 0 = 3
  high : field e 63 55 = 0
  middle : field e 50 48 = 0

variable {e pa : Word}

/-- Every field of an entry holds the bits that are written of it: all of its bits, but for the
memory attribute index, of which one bit is written. -/
theorem decode_withAttributes (e : Word) (ba : BlockAttributesSg1) :
    decode (withAttributes e ba) =
      { uxn := ba.uxn &&& 1
        pxn := ba.pxn &&& 1
        continuousBit := ba.continuousBit &&& 1
        dirtyBit := ba.dirtyBit &&& 1
        notGlobal := ba.notGlobal &&& 1
        accessFlag := ba.accessFlag &&& 1
        shareability := ba.shareability &&& 3
        accessPermission := ba.accessPermission &&& 3
        nonSecure := ba.nonSecure &&& 1
        attrIndex := ba.attrIndex &&& 1 } := by
  have haddress : e &&& mask 47 12 = entryAddress e := rfl
  have hor (x : Word) : x ||| 0 = x := BitVec.or_zero
  have hor' (x : Word) : 0 ||| x = x := BitVec.zero_or
  simp only [decode, withAttributes, field_or, haddress]
  simp (disch := omega) only [field_bit_ne, field_pair_ne, field_address_ne,
    field_three_ne, field_bit_self, field_pair_self, hor, hor']

/-- The attributes of `new_block_attributes_sg1` fit into their fields. -/
theorem decode_newBlockAttributesSg1 (e perm cache : Word) :
    decode (withAttributes e (newBlockAttributesSg1 perm cache)) =
      { newBlockAttributesSg1 perm cache with attrIndex := cache &&& 1 } := by
  have hone (x : Word) : x &&& 1#64 &&& 1 = x &&& 1#64 := by
    rw [BitVec.and_assoc]
    rfl
  have hthree (x : Word) : x &&& 3 &&& 3 = x &&& 3 := by
    rw [BitVec.and_assoc]
    rfl
  have hglobal (c : Prop) [Decidable c] : (if c then (0 : Word) else 1) &&& 1 = if c then 0
      else 1 := by
    split_ifs <;> rfl
  have hzero : (0 : Word) &&& 1 = 0 := rfl
  have hzero' : (0 : Word) &&& 3 = 0 := rfl
  have hset : (1 : Word) &&& 1 = 1 := rfl
  rw [decode_withAttributes]
  simp only [newBlockAttributesSg1, hone, hthree, hglobal, hzero, hzero', hset]

variable {s : MmuState} {entryAddr : Word}

/-- The entry that `init_block_and_page_entry_sg1` writes, whatever was there before. -/
theorem word_initBlockAndPageEntrySg1 (s : MmuState) (entryAddr : Word) (ba : BlockAttributesSg1)
    (hpa : pa.toNat % 0x1000 = 0) (hpa' : pa.toNat < 2 ^ 36) :
    (initBlockAndPageEntrySg1 s entryAddr pa ba).word entryAddr = withAttributes pa ba := by
  simp only [initBlockAndPageEntrySg1, setBlockAndPageAttributesSg1,
    MmuState.setWord, MmuState.word, Function.update_self, withAttributes_init ba hpa hpa']

theorem entryAddress_bits (e : Word) : entryAddress e = e &&& mask 47 12 := rfl

/-- An entry decodes to the page, permissions and memory type it was made from exactly for the
memory types whose index has one bit. -/
theorem initBlockAndPageEntrySg1_encodes_iff (s : MmuState) (entryAddr perm : Word)
    (cache : BlockCacheConfig) (hpa : pa.toNat % 0x1000 = 0) (hpa' : pa.toNat < 2 ^ 36) :
    Encodes
        ((initBlockAndPageEntrySg1 s entryAddr pa (newBlockAttributesSg1 perm cache.value)).word
          entryAddr)
        pa (newBlockAttributesSg1 perm cache.value) ↔
      cache = .device ∨ cache = .normalWtNt := by
  have hindex : cache.value &&& 1 = cache.value ↔ cache = .device ∨ cache = .normalWtNt := by
    cases cache <;> decide
  rw [word_initBlockAndPageEntrySg1 s entryAddr _ hpa hpa', ← hindex]
  have hor (x : Word) : x ||| 0 = x := BitVec.or_zero
  have hor' (x : Word) : 0 ||| x = x := BitVec.zero_or
  constructor
  · intro h
    have hattributes := h.attributes
    rw [decode_newBlockAttributesSg1] at hattributes
    exact congrArg BlockAttributesSg1.attrIndex hattributes
  · intro hfits
    constructor
    case attributes =>
      rw [decode_newBlockAttributesSg1, hfits]
      rfl
    case address =>
      rw [← entryAddress_bits, entryAddress_withAttributes, entryAddress_of_page hpa (by omega)]
    case type =>
      simp only [withAttributes, field_or, ← entryAddress_bits]
      simp (disch := omega) only [field_bit_ne, field_pair_ne, field_address_ne, hor, hor']
      decide
    case high =>
      simp only [withAttributes, field_or, ← entryAddress_bits]
      simp (disch := omega) only [field_bit_ne, field_pair_ne, field_address_ne,
        field_three_ne, hor]
    case middle =>
      simp only [withAttributes, field_or, ← entryAddress_bits]
      simp (disch := omega) only [field_bit_ne, field_pair_ne, field_address_ne,
        field_three_ne, hor]

/-- A page of write-through memory without transient hint. -/
theorem initBlockAndPageEntrySg1_encodes_iff_sampleTables :
    Encodes ((initBlockAndPageEntrySg1 (sampleTables 0) 0x201000 0x5000000
      (newBlockAttributesSg1 userPage BlockCacheConfig.normalWtNt.value)).word 0x201000) 0x5000000
      (newBlockAttributesSg1 userPage BlockCacheConfig.normalWtNt.value) :=
  (initBlockAndPageEntrySg1_encodes_iff (sampleTables 0) 0x201000 userPage .normalWtNt (by decide)
    (by decide)).mpr (.inr rfl)

/-- The index of `NORMAL_WT_T` is 2, of which the bit 0 is written: the entry says `DEVICE`. -/
theorem not_encodes_normalWtT :
    ¬ Encodes ((initBlockAndPageEntrySg1 (sampleTables 0) 0x201000 0x5000000
      (newBlockAttributesSg1 userPage BlockCacheConfig.normalWtT.value)).word 0x201000) 0x5000000
      (newBlockAttributesSg1 userPage BlockCacheConfig.normalWtT.value) := by
  intro h
  have hattributes := h.attributes
  rw [word_initBlockAndPageEntrySg1 _ _ _ (by decide) (by decide),
    decode_newBlockAttributesSg1] at hattributes
  exact absurd (congrArg BlockAttributesSg1.attrIndex hattributes) (by decide)

end SysresOs.Mmu
