/-
# Erasing the flash for an upgrade

The erase functions of `ota_storage.c` and the driver function below them. The source
computes with `int`, `size_t` and `unsigned long` of 32 bits and converts freely between
them; `i32` and `u32` are these conversions.

A driver call is the list of sector and block erases it issues, so that power can be
lost between any two of them. The `_clears` results say what such a list does on an
aligned range: it stays inside and leaves all of it erased. Offsets are of type `int`
and an address is its 32 bits, so these ranges are sets of addresses; they are
intervals when they do not run over the last address.
-/

import SpeakerFirmware.Lib.NorFlash

namespace SpeakerFirmware.Ota.Upgrade

open NorFlash Int

variable {n size : Nat} {offs lba : Int}

/-! ## Machine integers -/

/-- A value as `u32_t`, `size_t` or `unsigned long`. -/
def u32 (x : Int) : Nat :=
  (x % 2 ^ 32).toNat

/-- A value as `int`. -/
def i32 (x : Int) : Int :=
  if x % 2 ^ 32 < 2 ^ 31 then x % 2 ^ 32 else x % 2 ^ 32 - 2 ^ 32

def otaEraseAlignSize : Nat := 4096

/-- `ROUND_DOWN(x, OTA_ERASE_ALIGN_SIZE)`. -/
def roundDown (x : Int) : Nat :=
  u32 x / otaEraseAlignSize * otaEraseAlignSize

/-- `ROUND_UP(x, OTA_ERASE_ALIGN_SIZE)`. -/
def roundUp (x : Int) : Nat :=
  roundDown (x + (otaEraseAlignSize - 1))

theorem u32_of_nat (h : n < 2 ^ 32) : u32 n = n := by
  unfold u32
  omega

theorem i32_of_nat (h : n < 2 ^ 31) : i32 n = n := by
  unfold i32
  split <;> omega

theorem roundDown_of_aligned (h : n < 2 ^ 32) (haligned : n % 4096 = 0) :
    roundDown n = n := by
  rw [roundDown, u32_of_nat h, otaEraseAlignSize]
  omega

theorem roundUp_of_aligned (h : n < 2 ^ 31) (haligned : n % 4096 = 0) :
    roundUp n = n := by
  have hsum : (n : Int) + ((otaEraseAlignSize : Int) - 1) = ((n + 4095 : Nat) : Int) := by
    rw [otaEraseAlignSize]
    omega
  rw [roundUp, hsum, roundDown, u32_of_nat (by omega), otaEraseAlignSize]
  omega

/-! ## The driver -/

/-- The errors of these functions: `-EINVAL`, and the `-1` of a misaligned sector. -/
inductive Err
  | einval | invalidLba
  deriving DecidableEq, Repr

/-- The loop of `xspi_nor_erase_internal`: a block of 64 KiB where one fits, else a sector of
4 KiB. `fuel` counts sectors. -/
def xspiNorEraseInternal : Nat → Nat → Nat → List Op
  | 0, _, _ => []
  | fuel + 1, addr, remaining =>
    if remaining = 0 then [] else
    let eraseSize := if addr % 0x10000 ≠ 0 ∨ remaining < 0x10000 then 0x1000 else 0x10000
    .erase addr eraseSize :: xspiNorEraseInternal fuel (addr + eraseSize) (remaining - eraseSize)

/-- `flash_erase`, that is `xspi_nor_erase`. -/
def flashErase (addr size : Nat) : List Op × Option Err :=
  if size = 0 then ([], none)
  else if addr % 0x1000 ≠ 0 ∨ size % 0x1000 ≠ 0 then ([], some .einval)
  else (xspiNorEraseInternal (size / 0x1000) addr size, none)

/-! ## `ota_storage.c` -/

/-- `p_erase_check[i]`. -/
def checkWord (buffer : List UInt8) (i : Nat) : BitVec 32 :=
  .ofNat 32 (((buffer.drop (4 * i)).take 4).foldr (fun b word => b.toNat + 256 * word) 0)

/-- The loop that finds out `need_erase`, over groups of four words. -/
def needErase : Nat → List UInt8 → Bool
  | 0, _ => false
  | groups + 1, buffer =>
    let testValue := 0xffffffff#32 &&& checkWord buffer 0 &&& checkWord buffer 1 &&&
      checkWord buffer 2 &&& checkWord buffer 3
    if testValue ≠ 0xffffffff#32 then true else needErase groups (buffer.drop 16)

/-- `OTA_STORAGE_DEFAULT_READ_SEGMENT_SIZE`; the buffer of the caller is not smaller. -/
def readSegmentSize : Nat := 128

/-- `ota_storage_is_clean` for a size that is a multiple of four, so that no bytes are left behind
the last word. `fuel` counts reads. -/
def otaStorageIsClean : Nat → Image → Nat → Nat → Bool
  | 0, _, _, _ => true
  | fuel + 1, f, offs, size =>
    if size = 0 then true else
    let readSize := if size < readSegmentSize then size else readSegmentSize
    let buf := read f offs readSize
    if (List.range (readSize / 4)).any fun i => checkWord buf i ≠ 0xffffffff#32 then false
    else otaStorageIsClean fuel f (offs + readSize) (size - readSize)

/-- `ota_erase_use_4kb`: sectors that are erased already are left alone. The numbers of
sectors here are of 512 bytes. -/
def otaEraseUse4kb : Nat → Image → Int → Int → List Op
  | 0, _, _, _ => []
  | fuel + 1, f, lba, sectors =>
    if sectors ≤ 0 then [] else
    let addr := u32 (lba * 512)
    let ops := if needErase 256 (read f addr 0x1000) then (flashErase addr 0x1000).1 else []
    ops ++ otaEraseUse4kb fuel (applyAll ops f) (lba + 8) (sectors - 8)

/-- `ota_erase_use_64kb`: the sixteen sectors of a block are looked at one by one. -/
def otaEraseUse64kb : Nat → Image → Int → Int → List Op
  | 0, _, _, _ => []
  | fuel + 1, f, lba, sectors =>
    let addr := u32 (lba * 512)
    let ops := if (List.range 16).any fun j : Nat =>
        needErase 256 (read f (u32 (lba * 512 + 0x1000 * j)) 0x1000)
      then (flashErase addr 0x10000).1 else []
    ops ++ if sectors > 128 then otaEraseUse64kb fuel (applyAll ops f) (lba + 128) (sectors - 128)
      else []

/-- The last two parts of `ota_storage_erase`: blocks, then the sectors behind them. -/
def eraseBlocks (f : Image) (lba : Int) (sectors : Nat) : List Op :=
  let blocks := i32 (sectors / 128 * 128 : Nat)
  let ops := if blocks > 0 then otaEraseUse64kb blocks.toNat f lba blocks else []
  let lba := if blocks > 0 then lba + blocks else lba
  let sectors := if blocks > 0 then u32 (sectors - blocks) else sectors
  ops ++ if sectors ≠ 0 then otaEraseUse4kb (i32 sectors).toNat (applyAll ops f) lba (i32 sectors)
    else []

/-- `ota_storage_erase`: sectors up to the first block boundary, then the rest. -/
def otaStorageErase (f : Image) (offs size : Int) : List Op × Option Err :=
  let lba := offs / 512
  let sectors := u32 (size / 512)
  if lba.tmod 8 ≠ 0 then ([], some .invalidLba)
  else if lba.tmod 128 ≠ 0 then
    let first := 128 - lba.tmod 128
    let first := if u32 first > sectors then i32 sectors else first
    let ops := otaEraseUse4kb first.toNat f lba first
    (ops ++ eraseBlocks (applyAll ops f) (lba + first) (u32 (sectors - first)), none)
  else (eraseBlocks f lba sectors, none)

def otaStorageEraseInitial (offs size : Int) : List Op × Option Err :=
  flashErase (u32 offs) (u32 size)

/-! ## The test for erased sectors -/

/-- A word of ones has four erased bytes. -/
theorem checkWord_eq_iff {buffer : List UInt8} {i : Nat} (hlen : 4 * i + 4 ≤ buffer.length) :
    checkWord buffer i = 0xffffffff#32 ↔ ∀ b ∈ (buffer.drop (4 * i)).take 4, b = 0xff := by
  obtain ⟨a, b, c, d, hword⟩ : ∃ a b c d, (buffer.drop (4 * i)).take 4 = [a, b, c, d] :=
    List.length_eq_four.mp (by simp; omega)
  have ha := a.toNat_lt
  have hb := b.toNat_lt
  have hc := c.toNat_lt
  have hd := d.toNat_lt
  have hones : (0xff : UInt8).toNat = 255 := rfl
  simp only [checkWord, hword, List.foldr_cons, List.foldr_nil, ← BitVec.toNat_inj,
    BitVec.toNat_ofNat, List.forall_mem_cons, List.not_mem_nil, false_imp_iff, implies_true,
    and_true, ← UInt8.toNat_inj, hones]
  omega

/-- A group of words of ones has sixteen erased bytes. -/
theorem checkWords_eq_iff {buffer : List UInt8} (hlen : 16 ≤ buffer.length) :
    0xffffffff#32 &&& checkWord buffer 0 &&& checkWord buffer 1 &&& checkWord buffer 2 &&&
        checkWord buffer 3 = 0xffffffff#32 ↔ ∀ b ∈ buffer.take 16, b = 0xff := by
  have hones : 0xffffffff#32 = BitVec.allOnes 32 := rfl
  have hsplit : buffer.take 16 = (buffer.drop (4 * 0)).take 4 ++ (buffer.drop (4 * 1)).take 4 ++
      (buffer.drop (4 * 2)).take 4 ++ (buffer.drop (4 * 3)).take 4 := by
    rw [show 16 = 4 + 4 + 4 + 4 by rfl, List.take_add, List.take_add, List.take_add]
    rfl
  rw [hsplit, List.forall_mem_append, List.forall_mem_append, List.forall_mem_append,
    ← checkWord_eq_iff (by omega), ← checkWord_eq_iff (by omega), ← checkWord_eq_iff (by omega),
    ← checkWord_eq_iff (by omega), hones]
  simp only [BitVec.and_eq_allOnes_iff, true_and]

theorem needErase_eq {buffer : List UInt8} {groups : Nat} (hlen : 16 * groups ≤ buffer.length) :
    needErase groups buffer = !(buffer.take (16 * groups)).all (· == 0xff) := by
  induction groups generalizing buffer with
  | zero => rfl
  | succ groups ih =>
    have hgroup := checkWords_eq_iff (show 16 ≤ buffer.length by omega)
    have hrest := @ih (buffer.drop 16) (by rw [List.length_drop]; omega)
    have hall : (buffer.take 16).all (· == 0xff) = true ↔ ∀ b ∈ buffer.take 16, b = 0xff := by
      simp
    rw [← hall] at hgroup
    rw [needErase, hrest, show 16 * (groups + 1) = 16 + 16 * groups by omega, List.take_add,
      List.all_append]
    cases hfirst : (buffer.take 16).all (· == 0xff) with
    | true => exact if_neg (not_not.mpr (hgroup.mpr hfirst))
    | false => exact if_pos (mt hgroup.mp (by simp [hfirst]))

/-- The words of a sector are tested for nothing but erased bytes. -/
theorem needErase_read (f : Image) (addr : Nat) :
    needErase 256 (read f addr 0x1000) = !isErased f addr 0x1000 := by
  have hlen : (read f addr 0x1000).length = 0x1000 := length_read f addr 0x1000
  rw [needErase_eq (by omega), List.take_of_length_le (by omega), isErased_eq_all_read]

theorem ite_needErase (erased : Bool) (ops : List Op) :
    (if !erased then ops else []) = if erased then [] else ops := by
  cases erased <;> rfl

/-- Bytes that are read as words of ones are erased. -/
theorem erased_of_words {f : Image} {offs len : Nat} (hlen : len % 4 = 0)
    (h : ¬ ((List.range (len / 4)).any fun i =>
      checkWord (read f offs len) i ≠ 0xffffffff#32) = true) :
    Erased f offs len := by
  intro a hlo hhi
  have hread : (read f offs len).length = len := length_read f offs len
  have hword : checkWord (read f offs len) ((a - offs) / 4) = 0xffffffff#32 := by
    by_contra hne
    exact h (List.any_eq_true.mpr ⟨_, List.mem_range.mpr (by omega), decide_eq_true hne⟩)
  refine (checkWord_eq_iff (by omega)).mp hword (f a) ?_
  refine List.mem_of_getElem? (i := (a - offs) % 4) ?_
  rw [List.getElem?_take_of_lt (Nat.mod_lt _ (by decide)), List.getElem?_drop, Nat.div_add_mod,
    NorFlash.read, List.getElem?_map, List.getElem?_range (by omega), Option.map_some,
    Nat.add_sub_cancel' hlo]

/-- What passes the test of `ota_storage_is_clean` is erased. -/
theorem erased_of_otaStorageIsClean {f : Image} {fuel offs size : Nat} (hsize : size % 4 = 0)
    (hfuel : size ≤ fuel * readSegmentSize) (h : otaStorageIsClean fuel f offs size = true) :
    Erased f offs size := by
  induction fuel generalizing offs size with
  | zero =>
    intro a hlo hhi
    omega
  | succ fuel ih =>
    by_cases hzero : size = 0
    · intro a hlo hhi
      omega
    rw [otaStorageIsClean, if_neg hzero] at h
    dsimp only at h
    have hseg : readSegmentSize = 128 := rfl
    rw [Nat.succ_mul] at hfuel
    obtain ⟨len, hlen, hle, hmod⟩ : ∃ len, (if size < readSegmentSize then size
        else readSegmentSize) = len ∧ len ≤ size ∧ len % 4 = 0 ∧
          (len < size → len = readSegmentSize) := by
      refine ⟨_, rfl, ?_⟩
      split <;> omega
    rw [hlen] at h
    split at h
    · cases h
    · rename_i hwords
      have hrest := ih (show (size - len) % 4 = 0 by omega) (by omega) h
      intro a hlo hhi
      by_cases hin : a < offs + len
      · exact erased_of_words (by omega) hwords a hlo hin
      · exact hrest a (by omega) (by omega)

/-! ## What the functions do on aligned ranges -/

variable (f : Image) (fuel : Nat)

theorem xspiNorEraseInternal_clears {addr remaining : Nat}
    (haddr : addr % 0x1000 = 0) (hremaining : remaining % 0x1000 = 0)
    (hfuel : remaining ≤ fuel * 0x1000) :
    Clears f addr remaining (xspiNorEraseInternal fuel addr remaining) := by
  induction fuel generalizing f addr remaining with
  | zero =>
    have hzero : remaining = 0 := by omega
    subst hzero
    exact (erased_zero f addr).clears
  | succ fuel ih =>
    rw [xspiNorEraseInternal]
    split
    · rename_i hzero
      subst hzero
      exact (erased_zero f addr).clears
    · generalize hsize : (if addr % 0x10000 ≠ 0 ∨ remaining < 0x10000 then 0x1000 else 0x10000) =
          size
      have hbounds : size % 0x1000 = 0 ∧ 0x1000 ≤ size ∧ size ≤ remaining := by
        split at hsize <;> omega
      obtain ⟨haligned, hpos, hle⟩ := hbounds
      have hrest : Clears ((Op.erase addr size).apply f) (addr + size) (remaining - size)
          (xspiNorEraseInternal fuel (addr + size) (remaining - size)) :=
        ih _ (by omega) (by omega) (by omega)
      have hall := (clears_erase f addr size).append hrest
      rwa [Nat.add_sub_cancel' hle] at hall

theorem flashErase_clears {addr : Nat} (haddr : addr % 0x1000 = 0)
    (hsize : size % 0x1000 = 0) : Clears f addr size (flashErase addr size).1 := by
  unfold flashErase
  split
  · rename_i hzero
    subst hzero
    exact (erased_zero f addr).clears
  · rw [if_neg (by omega)]
    exact xspiNorEraseInternal_clears f (size / 0x1000) haddr hsize (by omega)

/-! ## Ranges of 32-bit addresses -/

/-- The addresses of the bytes of a range, as the driver gets them. -/
def addresses (offs size : Int) : Set Nat :=
  {a | ∃ x : Int, offs ≤ x ∧ x < offs + size ∧ a = u32 x}

theorem addresses_zero (offs : Int) : addresses offs 0 = ∅ :=
  Set.eq_empty_of_forall_notMem fun _ ⟨_, hlo, hhi, _⟩ => by omega

theorem addresses_add {m n : Int} (hm : 0 ≤ m) (hn : 0 ≤ n) :
    addresses offs (m + n) = addresses offs m ∪ addresses (offs + m) n := by
  ext a
  constructor
  · rintro ⟨x, hlo, hhi, rfl⟩
    rcases lt_or_ge x (offs + m) with hlt | hge
    · exact .inl ⟨x, hlo, hlt, rfl⟩
    · exact .inr ⟨x, hge, by omega, rfl⟩
  · rintro (⟨x, hlo, hhi, rfl⟩ | ⟨x, hlo, hhi, rfl⟩)
    · exact ⟨x, hlo, by omega, rfl⟩
    · exact ⟨x, by omega, by omega, rfl⟩

/-- A range that does not run over the last address. -/
theorem addresses_eq_Ico (hend : u32 offs + size ≤ 2 ^ 32) :
    addresses offs size = Set.Ico (u32 offs) (u32 offs + size) := by
  ext a
  unfold u32 at hend ⊢
  constructor
  · rintro ⟨x, hlo, hhi, rfl⟩
    unfold u32
    constructor <;> omega
  · rintro ⟨hlo, hhi⟩
    refine ⟨offs + (a - (offs % 2 ^ 32).toNat : Int), by omega, by omega, ?_⟩
    unfold u32
    omega

/-- Sectors, from the number of a first 512-byte sector on. -/
theorem otaEraseUse4kb_clears {sectors : Int} (hlba : lba % 8 = 0)
    (hsectors : sectors % 8 = 0) (hpos : 0 ≤ sectors) (hfuel : sectors ≤ fuel * 8) :
    ClearsAll f (addresses (lba * 512) (sectors * 512)) (otaEraseUse4kb fuel f lba sectors) := by
  induction fuel generalizing f lba sectors with
  | zero =>
    have hzero : sectors = 0 := by omega
    rw [hzero, zero_mul, addresses_zero]
    exact clearsAll_nil f
  | succ fuel ih =>
    simp only [otaEraseUse4kb, needErase_read, ite_needErase]
    split
    · have hzero : sectors = 0 := by omega
      rw [hzero, zero_mul, addresses_zero]
      exact clearsAll_nil f
    · have haligned : u32 (lba * 512) % 0x1000 = 0 ∧ u32 (lba * 512) + 0x1000 ≤ 2 ^ 32 := by
        unfold u32
        omega
      have hone := (flashErase_clears f haligned.1
        (show 0x1000 % 0x1000 = 0 by decide)).unless_erased
        isErased_iff.mp
      have hrest := ih (applyAll (if isErased f (u32 (lba * 512)) 0x1000 then []
          else (flashErase (u32 (lba * 512)) 0x1000).1) f) (show (lba + 8) % 8 = 0 by omega)
        (show (sectors - 8) % 8 = 0 by omega) (by omega) (by omega)
      have hnext : (lba + 8) * 512 = lba * 512 + (0x1000 : Nat) := by omega
      have hlen : sectors * 512 = (0x1000 : Nat) + (sectors - 8) * 512 := by omega
      rw [hnext] at hrest
      rw [hlen, addresses_add (by omega) (by omega), addresses_eq_Ico haligned.2]
      exact (hone.clearsAll (by decide)).append hrest

/-- A block of sixteen sectors. -/
theorem erased_block {f : Image} (hlba : lba % 128 = 0)
    (h : ((List.range 16).all fun j : Nat => isErased f (u32 (lba * 512 + 0x1000 * j)) 0x1000) =
      true) :
    Erased f (u32 (lba * 512)) 0x10000 := by
  intro a hlo hhi
  obtain ⟨i, rfl⟩ := Nat.exists_eq_add_of_le hlo
  obtain ⟨q, r, hq, hr, rfl⟩ : ∃ q r, q < 16 ∧ r < 0x1000 ∧ i = q * 0x1000 + r :=
    ⟨i / 0x1000, i % 0x1000, by omega, by omega, (Nat.div_add_mod' i 0x1000).symm⟩
  have hsector := isErased_iff.mp (List.all_eq_true.mp h q (List.mem_range.mpr hq))
  have haddr : u32 (lba * 512 + 0x1000 * q) = u32 (lba * 512) + q * 0x1000 := by
    unfold u32
    omega
  rw [haddr] at hsector
  rw [← Nat.add_assoc]
  exact hsector _ (Nat.le_add_right _ _) (Nat.add_lt_add_left hr _)

theorem otaEraseUse64kb_clears {sectors : Int} (hlba : lba % 128 = 0)
    (hsectors : sectors % 128 = 0) (hpos : 0 < sectors) (hfuel : sectors ≤ fuel * 128) :
    ClearsAll f (addresses (lba * 512) (sectors * 512)) (otaEraseUse64kb fuel f lba sectors) := by
  induction fuel generalizing f lba sectors with
  | zero => omega
  | succ fuel ih =>
    simp only [otaEraseUse64kb, needErase_read, ← List.not_all_eq_any_not, ite_needErase]
    have haligned : u32 (lba * 512) % 0x1000 = 0 ∧ u32 (lba * 512) + 0x10000 ≤ 2 ^ 32 := by
      unfold u32
      omega
    have hblock := ((flashErase_clears f haligned.1
      (show 0x10000 % 0x1000 = 0 by decide)).unless_erased (erased_block
        hlba)).clearsAll (by decide)
    rw [← addresses_eq_Ico haligned.2] at hblock
    generalize (if ((List.range 16).all fun j : Nat =>
        isErased f (u32 (lba * 512 + 0x1000 * j)) 0x1000) then []
      else (flashErase (u32 (lba * 512)) 0x10000).1) = ops at hblock ⊢
    split
    · have hrest := ih (applyAll ops f) (show (lba + 128) % 128 = 0 by omega)
        (show (sectors - 128) % 128 = 0 by omega) (by omega) (by omega)
      have hnext : (lba + 128) * 512 = lba * 512 + (0x10000 : Nat) := by omega
      have hlen : sectors * 512 = (0x10000 : Nat) + (sectors - 128) * 512 := by omega
      rw [hnext] at hrest
      rw [hlen, addresses_add (by omega) (by omega)]
      exact hblock.append hrest
    · have hone : sectors * 512 = (0x10000 : Nat) := by omega
      rw [List.append_nil, hone]
      exact hblock

theorem eraseBlocks_clears {sectors : Nat} (hlba : lba % 8 = 0)
    (hblock : lba % 128 = 0 ∨ sectors = 0) (hsectors : sectors % 8 = 0)
    (hbound : sectors < 2 ^ 31) :
    ClearsAll f (addresses (lba * 512) (sectors * 512)) (eraseBlocks f lba sectors) := by
  have hblocks : i32 (sectors / 128 * 128 : Nat) = (sectors / 128 * 128 : Nat) :=
    i32_of_nat (by omega)
  have hrest : ∀ (g : Image) (first : Int) (rest : Nat), first % 8 = 0 → rest % 8 = 0 →
      rest < 2 ^ 31 →
      ClearsAll g (addresses (first * 512) (rest * 512)) (if rest ≠ 0 then
        otaEraseUse4kb (i32 rest).toNat g first (i32 rest) else []) := by
    intro g first rest hfirst hrest hlt
    split
    · have hint : i32 rest = rest := i32_of_nat hlt
      rw [hint, toNat_natCast]
      exact otaEraseUse4kb_clears g rest hfirst (by omega) (by omega) (by omega)
    · have hzero : rest = 0 := by omega
      subst hzero
      rw [Int.natCast_zero, Int.zero_mul, addresses_zero]
      exact clearsAll_nil g
  unfold eraseBlocks
  rw [hblocks]
  dsimp only
  split
  · rename_i hpos
    obtain ⟨rest, hsplit⟩ := Nat.exists_eq_add_of_le (show sectors / 128 * 128 ≤ sectors by omega)
    have hfull : ClearsAll f (addresses (lba * 512) ((sectors / 128 * 128 : Nat) * 512))
        (otaEraseUse64kb (sectors / 128 * 128) f lba (sectors / 128 * 128 : Nat)) :=
      otaEraseUse64kb_clears f _ (by omega) (by omega) (by omega) (by omega)
    have hsub : u32 ((sectors : Int) - (sectors / 128 * 128 : Nat)) = rest := by
      unfold u32
      omega
    have hlen : (sectors : Int) * 512 = (sectors / 128 * 128 : Nat) * 512 + (rest : Int) * 512 := by
      omega
    rw [hsub, toNat_natCast, hlen, addresses_add (by omega) (by omega), ← add_mul]
    exact hfull.append (hrest _ _ _ (by omega) (by omega) (by omega))
  · exact hrest f lba sectors hlba hsectors hbound

/-- `ota_storage_erase` on an aligned range, anywhere. -/
theorem otaStorageErase_clearsAll {size : Int} (hoffs : offs % 0x1000 = 0)
    (hsize : size % 0x1000 = 0) (hpos : 0 ≤ size) (hbound : size ≤ 2 ^ 31) :
    ClearsAll f (addresses offs size) (otaStorageErase f offs size).1 := by
  obtain ⟨lba, rfl⟩ : ∃ lba, offs = lba * 512 := ⟨offs / 512, by omega⟩
  obtain ⟨sectors, rfl⟩ : ∃ sectors : Nat, size = sectors * 512 := ⟨(size / 512).toNat, by omega⟩
  have hlba : lba * 512 / 512 = lba := by omega
  have hsectors : u32 ((sectors : Int) * 512 / 512) = sectors := by
    unfold u32
    omega
  have h8 : lba.tmod 8 = 0 := tmod_eq_zero_of_dvd (by omega)
  have hparts := mul_tdiv_add_tmod lba 128
  have hlow : -128 < lba.tmod 128 := lt_tmod_of_pos lba (by decide)
  have hhigh : lba.tmod 128 < 128 := tmod_lt_of_pos lba (by decide)
  unfold otaStorageErase
  rw [hlba, hsectors]
  dsimp only
  rw [if_neg (not_not.mpr h8)]
  split
  · -- the sectors up to a block boundary, or all of them
    obtain ⟨first, hmin, hle, hend⟩ : ∃ first : Nat,
        (if u32 (128 - lba.tmod 128) > sectors then i32 sectors else 128 - lba.tmod 128) = first ∧
        first ≤ sectors ∧ (first = sectors ∨ (lba + first) % 128 = 0) := by
      have hu : (u32 (128 - lba.tmod 128) : Int) = 128 - lba.tmod 128 := by
        unfold u32
        omega
      split
      · exact ⟨sectors, i32_of_nat (by omega), le_rfl, .inl rfl⟩
      · exact ⟨u32 (128 - lba.tmod 128), hu.symm, by omega, .inr (by omega)⟩
    rw [hmin, toNat_natCast]
    obtain ⟨rest, rfl⟩ := Nat.exists_eq_add_of_le hle
    have hsub : u32 (((first + rest : Nat) : Int) - first) = rest := by
      unfold u32
      omega
    rw [hsub]
    have hfront :
        ClearsAll f (addresses (lba * 512) (first * 512)) (otaEraseUse4kb first f lba first) :=
      otaEraseUse4kb_clears f _ (by omega) (by omega) (by omega) (by omega)
    have hlen : ((first + rest : Nat) : Int) * 512 = (first : Int) * 512 + (rest : Int) * 512 :=
      by omega
    rw [hlen, addresses_add (by omega) (by omega), ← add_mul]
    exact hfront.append (eraseBlocks_clears _ (by omega) (by omega) (by omega) (by omega))
  · exact eraseBlocks_clears f (by omega) (by omega) (by omega) (by omega)

/-- `ota_storage_erase` on an aligned range of offsets that an `int` holds. -/
theorem otaStorageErase_clears {offs : Nat} (hoffs : offs % 0x1000 = 0)
    (hsize : size % 0x1000 = 0) (hbound : offs + size ≤ 2 ^ 31) :
    Clears f offs size (otaStorageErase f offs size).1 := by
  have hclears : ClearsAll f (addresses offs size) (otaStorageErase f offs size).1 :=
    otaStorageErase_clearsAll f (by omega) (by omega) (by omega) (by omega)
  have haddr : u32 offs = offs := u32_of_nat (by omega)
  rw [addresses_eq_Ico (by omega), haddr] at hclears
  exact hclears.clears

theorem otaStorageErase_succeeds (size : Int) (hoffs : offs % 0x1000 = 0) :
    (otaStorageErase f offs size).2 = none := by
  have h8 : (offs / 512).tmod 8 = 0 := tmod_eq_zero_of_dvd (by omega)
  unfold otaStorageErase
  dsimp only
  rw [if_neg (not_not.mpr h8)]
  split <;> rfl

/-- Whatever is erased by sectors, by blocks or not at all: behind `ota_storage_erase` every byte
of the range is erased, and every other byte is what it was. An offset of the range is the
address of its 32 bits, so that a negative one is covered as well. -/
theorem otaStorageErase_exact (f : Image) (offs size : Int) (hoffs : offs % 4096 = 0)
    (hsize : size % 4096 = 0) (hpos : 0 ≤ size) (hint : size < 2 ^ 31) :
    (otaStorageErase f offs size).2 = none ∧
      (∀ x, offs ≤ x → x < offs + size →
        applyAll (otaStorageErase f offs size).1 f (u32 x) = 0xff) ∧
      ∀ a, (∀ x, offs ≤ x → x < offs + size → a ≠ u32 x) →
        applyAll (otaStorageErase f offs size).1 f a = f a := by
  have hclears := otaStorageErase_clearsAll f hoffs hsize hpos (le_of_lt hint)
  refine ⟨otaStorageErase_succeeds f size hoffs, fun x hlo hhi => ?_, fun a hout => ?_⟩
  · exact hclears.erased _ ⟨x, hlo, hhi, rfl⟩
  · refine hclears.applyAll_eq f fun hmem => ?_
    obtain ⟨x, hlo, hhi, hx⟩ := hmem
    exact hout x hlo hhi hx

/-- A range with sectors in front of a block and behind it. -/
theorem otaStorageErase_exact_mixed :
    (otaStorageErase (fun _ => 0) 0xf000 0x12000).2 = none ∧
      (∀ x, 0xf000 ≤ x → x < 0xf000 + 0x12000 →
        applyAll (otaStorageErase (fun _ => 0) 0xf000 0x12000).1 (fun _ => 0) (u32 x) = 0xff) ∧
      ∀ a, (∀ x, 0xf000 ≤ x → x < 0xf000 + 0x12000 → a ≠ u32 x) →
        applyAll (otaStorageErase (fun _ => 0) 0xf000 0x12000).1 (fun _ => 0) a = 0 :=
  otaStorageErase_exact (fun _ => 0) 0xf000 0x12000 (by decide) (by decide) (by decide) (by decide)

theorem otaStorageEraseInitial_clears {offs : Nat} (hoffs : offs % 0x1000 = 0)
    (hsize : size % 0x1000 = 0) (hbound : offs + size ≤ 2 ^ 31) :
    Clears f offs size (otaStorageEraseInitial offs size).1 := by
  rw [otaStorageEraseInitial, u32_of_nat (by omega), u32_of_nat (by omega)]
  exact flashErase_clears f hoffs hsize

/-! ## The functions only erase -/

theorem xspiNorEraseInternal_onlyErases (fuel addr remaining : Nat) :
    OnlyErases (xspiNorEraseInternal fuel addr remaining) := by
  induction fuel generalizing addr remaining with
  | zero => exact onlyErases_nil
  | succ fuel ih =>
    rw [xspiNorEraseInternal]
    split
    · exact onlyErases_nil
    · exact onlyErases_cons (ih _ _)

theorem flashErase_onlyErases (addr size : Nat) : OnlyErases (flashErase addr size).1 := by
  unfold flashErase
  split
  · exact onlyErases_nil
  · split
    · exact onlyErases_nil
    · exact xspiNorEraseInternal_onlyErases _ _ _

theorem otaEraseUse4kb_onlyErases (f : Image) (lba sectors : Int) :
    OnlyErases (otaEraseUse4kb fuel f lba sectors) := by
  induction fuel generalizing f lba sectors with
  | zero => exact onlyErases_nil
  | succ fuel ih =>
    rw [otaEraseUse4kb]
    split
    · exact onlyErases_nil
    · refine .append ?_ (ih _ _ _)
      split
      · exact flashErase_onlyErases _ _
      · exact onlyErases_nil

theorem otaEraseUse64kb_onlyErases (f : Image) (lba sectors : Int) :
    OnlyErases (otaEraseUse64kb fuel f lba sectors) := by
  induction fuel generalizing f lba sectors with
  | zero => exact onlyErases_nil
  | succ fuel ih =>
    rw [otaEraseUse64kb]
    refine .append ?_ ?_
    · split
      · exact flashErase_onlyErases _ _
      · exact onlyErases_nil
    · split
      · exact ih _ _ _
      · exact onlyErases_nil

theorem eraseBlocks_onlyErases (lba : Int) (sectors : Nat) :
    OnlyErases (eraseBlocks f lba sectors) := by
  unfold eraseBlocks
  refine .append ?_ ?_
  · split
    · exact otaEraseUse64kb_onlyErases _ _ _ _
    · exact onlyErases_nil
  · generalize (if i32 (sectors / 128 * 128 : Nat) > 0 then
      u32 (sectors - i32 (sectors / 128 * 128 : Nat)) else sectors) = rest
    split
    · exact otaEraseUse4kb_onlyErases _ _ _ _
    · exact onlyErases_nil

theorem otaStorageErase_onlyErases (offs size : Int) :
    OnlyErases (otaStorageErase f offs size).1 := by
  unfold otaStorageErase
  dsimp only
  split
  · exact onlyErases_nil
  · split
    · exact (otaEraseUse4kb_onlyErases _ _ _ _).append (eraseBlocks_onlyErases _ _ _)
    · exact eraseBlocks_onlyErases _ _ _

end SpeakerFirmware.Ota.Upgrade
