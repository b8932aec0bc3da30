import KanekFs.Lib.Word

/-!
# Cache elements

The flags and counters of `cache_element_t` of `cache.h`, and the choice of the least recently
used element in `cache_element_map`. The flag word is a record with one field for each
`CACHE_EL_*` bit.
-/

namespace KanekFs.Cache

open Word

/-- `ce_flags`. -/
structure ElFlags where
  active : Bool
  dirty : Bool
  evict : Bool
  pin : Bool
  clean : Bool
deriving DecidableEq

/-- `ce_flags = 0`. -/
def ElFlags.zero : ElFlags := ⟨false, false, false, false, false⟩

/-- `CACHE_EL_ACTIVE | CACHE_EL_CLEAN`, the flags of a new element. -/
def ElFlags.mapped : ElFlags := ⟨true, false, false, false, true⟩

/-- `CACHE_EL_ADD_COUNT`. -/
def addCount (count : ℕ) : ℕ := u64 (count + 1)

/-- `ca_elements_in_use++`. -/
def incInUse (n : ℕ) : ℕ := u32 (n + 1)

/-- `ca_elements_in_use--`. -/
def decInUse (n : ℕ) : ℕ := u32 (n + (2 ^ 32 - 1))

lemma decInUse_u32 (n : ℕ) : decInUse (u32 (n + 1)) = u32 n := by
  unfold decInUse u32
  omega

lemma incInUse_u32 (n : ℕ) : incInUse (u32 n) = u32 (n + 1) := by
  unfold incInUse u32
  omega

/-- `INT_MAX`. -/
def intMax : ℤ := 2 ^ 31 - 1

/-! ## The least recently used element -/

/-- The locals of the search: the least access count so far, an `int`, and the index of the
element that has it. -/
structure Lru where
  min : ℤ
  sub : Option ℕ
deriving DecidableEq

def Lru.start : Lru := ⟨intMax, none⟩

/-- One iteration. The comparison is made in 64 unsigned bits, the assignment to `min` in 32
signed ones. -/
def Lru.step (l : Lru) (i : ℕ) (flags : ElFlags) (access_count : ℕ) : Lru :=
  if flags.pin = false ∧ access_count < (l.min % 2 ^ 64).toNat then
    ⟨toInt32 access_count, some i⟩
  else l

end KanekFs.Cache
