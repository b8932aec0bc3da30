import KanekFs.Super.Codec

/-!
# A mounted file system

`kfs_active` of `kfs_super.c`, and what `kfs_mount` does to the superblock once its page is in
the page cache. `Fs` is what the functions that work on a mounted file system see: `__sb`, the
device behind `sb_bdev`, and whether the page cache is active.
-/

namespace KanekFs.Super

open Bytes

def kfsIsMounted : ℕ := 0x0008

/-- A program with `__sb`; `cache_active` is the flag `CACHE_ACTIVE` of its page cache. -/
structure Fs where
  sb : Sb
  disk : Disk
  cache_active : Bool

def kfsActive (fs : Fs) : ℤ :=
  if fs.sb.sb_magic ≠ kfsMagic then -1
  else if fs.sb.sb_flags &&& kfsIsMounted = 0 then -1
  else if fs.cache_active = false then -1
  else 0

/-- What `kfs_mount` makes of the page of the superblock: `__sb`, and the page itself, which
gets the flag and the times as well. -/
def mountSuper (kfs_sb : List Byte) (now : ℕ) : Sb × List Byte :=
  let sb := kfssbToSb kfs_sb
  let sb_flags := sb.sb_flags ||| kfsIsMounted
  ({ sb with sb_flags := sb_flags, sb_m_time := now, sb_a_time := now },
   CField.putAll kfs_sb [(Superblock.sb_flags, sb_flags), (Superblock.sb_m_time, now),
     (Superblock.sb_a_time, now)])

/-- The state that a successful `kfs_mount` leads to, once the cache thread has written the page
of the superblock back. -/
def mounted (d : Disk) (now : ℕ) : Fs :=
  let r := mountSuper (blockRead d 0) now
  { sb := r.1, disk := blockWrite d r.2 0, cache_active := true }

/-- Mounting writes block 0 only. -/
lemma disk_mounted_of_ne (d : Disk) (now : ℕ) {b : ℕ} (hb : b ≠ 0) :
    (mounted d now).disk b = d b := by
  have hzero : blockIndex 0 = 0 := by decide
  simp only [mounted, blockWrite, hzero, Function.update_of_ne hb]

/-- `KFS_IS_MOUNTED` is there once it was set. -/
lemma or_kfsIsMounted (flags : ℕ) : (flags ||| kfsIsMounted) &&& kfsIsMounted = kfsIsMounted := by
  apply Nat.eq_of_testBit_eq
  intro i
  rw [Nat.testBit_and, Nat.testBit_or]
  cases flags.testBit i <;> simp

lemma mountSuper_isMounted (kfs_sb : List Byte) (now : ℕ) :
    (mountSuper kfs_sb now).1.sb_flags &&& kfsIsMounted ≠ 0 := by
  have hpos : kfsIsMounted ≠ 0 := by decide
  simpa only [mountSuper, or_kfsIsMounted] using hpos

/-- The fields of the page that `kfs_mount` assigns. -/
lemma mountSuper_fields_apart :
    [Superblock.sb_flags, Superblock.sb_m_time, Superblock.sb_a_time].Pairwise CField.Apart := by
  decide

/-- The page keeps its other fields. -/
lemma get_mountSuper_of_apart {f : CField} (kfs_sb : List Byte) (now : ℕ)
    (hf : ∀ g ∈ [Superblock.sb_flags, Superblock.sb_m_time, Superblock.sb_a_time], f.Apart g) :
    f.get (mountSuper kfs_sb now).2 = f.get kfs_sb :=
  CField.get_putAll_of_apart kfs_sb hf

@[simp] lemma length_mountSuper (kfs_sb : List Byte) (now : ℕ) :
    (mountSuper kfs_sb now).2.length = kfs_sb.length := CField.length_putAll _ _

/-- The page has the flag, too. -/
lemma mountSuper_page_isMounted {kfs_sb : List Byte} (hpage : Superblock.size ≤ kfs_sb.length)
    (now : ℕ) : Superblock.sb_flags.get (mountSuper kfs_sb now).2 &&& kfsIsMounted ≠ 0 := by
  set flags := Superblock.sb_flags.get kfs_sb with hflags
  have hget : Superblock.sb_flags.get (mountSuper kfs_sb now).2 =
      (flags ||| kfsIsMounted) % 2 ^ 32 :=
    CField.get_putAll mountSuper_fields_apart (by simp [kfssbToSb, hflags])
      (le_trans (by decide) hpage)
  have hlt : flags ||| kfsIsMounted < 2 ^ 32 :=
    Nat.or_lt_two_pow (CField.get_lt Superblock.sb_flags kfs_sb) (by decide)
  rw [hget, Nat.mod_eq_of_lt hlt, or_kfsIsMounted]
  decide

/-- A file system with the right magic is active once it is mounted. -/
lemma kfsActive_mounted {d : Disk} (hmagic : Superblock.sb_magic.get (blockRead d 0) = kfsMagic)
    (now : ℕ) : kfsActive (mounted d now) = 0 := by
  have hmagic' : (mounted d now).sb.sb_magic = kfsMagic := hmagic
  have hflag : (mounted d now).sb.sb_flags &&& kfsIsMounted ≠ 0 := mountSuper_isMounted _ now
  rw [kfsActive, if_neg (not_not.mpr hmagic'), if_neg hflag]
  rfl

end KanekFs.Super
