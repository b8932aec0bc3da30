import KanekFs.Gc.Memory

/-!
# Tracked allocations

The functions of `gc.c` that build, mark and release the allocations of a list. `ret` is what the
system's `malloc` returned to a call, `none` for `NULL`. The outer `Option` of a result is `none`
where the code touches memory that is not its own.

`Call` is a call of one of them and `step` what it does to the memory.
-/

namespace KanekFs.Gc

open Bytes CString Word

/-- `container_of( p, gc_node_t, data)` -/
def containerOf (p : ℕ) : ℕ := sub64 p sizeofNode

/-- `node->data` -/
def dataOf (node : ℕ) : ℕ := u64 (node + sizeofNode)

/-- `memset( node, 'X', total)` -/
def filled (total : ℕ) : Node where
  list := ⟨0x5858585858585858, 0x5858585858585858⟩
  size := 0x58585858
  mark := 0x58585858
  d_str := List.replicate MAX_DBG_STR_LEN 0x58#8
  data := List.replicate (total - sizeofNode) 0x58#8

def gcMalloc (ll : ℕ) (ret : Option ℕ) (size : ℕ) (m : Memory) : Option (Option ℕ × Memory) :=
  let total := u64 (size + sizeofNode)
  match ret with
  | none => some (none, m)
  | some node =>
    -- the sum has wrapped, and the header does not fit into the block
    if total < sizeofNode then none else do
      let m : Memory := Function.update m node (some (filled total))
      let m ← m.modify node fun n => { n with size := u32 size }
      let m ← m.modify node fun n => { n with mark := 0 }
      let m ← m.modify node fun n =>
        { n with d_str := memcpy n.d_str 0 ((ofChars "-------").chars ++ [0#8]) }
      let m ← listAdd node ll m
      some (some (dataOf node), m)

def gcCalloc (ll : ℕ) (ret : Option ℕ) (nelements elementSize : ℕ) (m : Memory) :
    Option (Option ℕ × Memory) :=
  gcMalloc ll ret (u64 (nelements * elementSize)) m

/-- A copy of `src` to `pstr[0]` and up. -/
def copyTo (pstr : ℕ) (src : List Byte) (m : Memory) : Option Memory := do
  let n ← m (containerOf pstr)
  if n.data.length < src.length then none
  else m.modify (containerOf pstr) fun n => { n with data := memcpy n.data 0 src }

/-- `pstr[i] = c`. The address wraps, so that `i` may also name a byte of the trace buffer, which
ends where the data start. -/
def setChar (pstr i : ℕ) (c : Byte) (m : Memory) : Option Memory := do
  let n ← m (containerOf pstr)
  let off := u64 (sizeofNode + i)
  if off < sizeofNode - MAX_DBG_STR_LEN ∨ sizeofNode + n.data.length ≤ off then none
  else if off < sizeofNode then
    m.modify (containerOf pstr) fun n =>
      { n with d_str := n.d_str.set (off - (sizeofNode - MAX_DBG_STR_LEN)) c }
  else m.modify (containerOf pstr) fun n => { n with data := n.data.set (off - sizeofNode) c }

def gcStrdup (ll : ℕ) (ret : Option ℕ) (p : CStr) (m : Memory) : Option (ℕ × Memory) := do
  let string_size := strlen p
  let (pstr, m) ← gcMalloc ll ret (u64 (string_size + 1)) m
  let pstr ← pstr
  let m ← copyTo pstr (strncpy (u64 (string_size + 1)) p) m
  let m ← setChar pstr string_size 0#8 m
  some (pstr, m)

def gcStrndup (ll : ℕ) (ret : Option ℕ) (p : CStr) (n : ℤ) (m : Memory) : Option (ℕ × Memory) := do
  let string_size := ofInt64 n
  let (pstr, m) ← gcMalloc ll ret (u64 (string_size + 1)) m
  let pstr ← pstr
  let m ← copyTo pstr (strncpy (u64 (string_size + 1)) p) m
  let m ← setChar pstr string_size 0#8 m
  some (pstr, m)

/-- `p` is what can be read from the pointer on. -/
def gcMemclone (ll : ℕ) (ret : Option ℕ) (p : List Byte) (n : ℤ) (m : Memory) :
    Option (ℕ × Memory) := do
  let (pm, m) ← gcMalloc ll ret (ofInt64 n) m
  let pm ← pm
  if p.length < ofInt64 n then none
  else do
    let m ← copyTo pm (p.take (ofInt64 n)) m
    some (pm, m)

def gcMark (ptr : ℕ) (m : Memory) : Option Memory :=
  m.modify (containerOf ptr) fun n => { n with mark := 1 }

def gcNodeSetTrace (n : ℕ) (str : CStr) (m : Memory) : Option Memory :=
  m.modify (containerOf n) fun n =>
    { n with d_str := memcpy n.d_str 0 (strncpy MAX_DBG_STR_LEN str) }

def gcFree (p : ℕ) (m : Memory) : Option Memory := do
  let node := containerOf p
  let m ← listDel node m
  m.free node

def gcListInit (ll : ℕ) (m : Memory) : Option Memory := initListHead ll m

def gcListDestroy (ll fuel : ℕ) (m : Memory) : Option Memory := do
  let m ← listForEachSafe id Memory.free ll fuel m
  gcListInit ll m

def gcListTotalMem (ll fuel : ℕ) (m : Memory) : Option ℕ := do
  let (size, _) ← listForEachSafe Prod.snd
    (fun s i => (s.2 i).map fun n => (u64 (s.1 + n.size), s.2)) ll fuel (0, m)
  some size

/-- A call on the list. -/
inductive Call where
  | malloc (ret : Option ℕ) (size : ℕ)
  | calloc (ret : Option ℕ) (nelements elementSize : ℕ)
  | strdup (ret : Option ℕ) (p : CStr)
  | strndup (ret : Option ℕ) (p : CStr) (n : ℤ)
  | memclone (ret : Option ℕ) (p : List Byte) (n : ℤ)
  | mark (ptr : ℕ)
  | setTrace (ptr : ℕ) (str : CStr)
  | free (ptr : ℕ)
  | destroy

def step (ll fuel : ℕ) (m : Memory) : Call → Option Memory
  | .malloc ret size => (gcMalloc ll ret size m).map Prod.snd
  | .calloc ret nelements elementSize => (gcCalloc ll ret nelements elementSize m).map Prod.snd
  | .strdup ret p => (gcStrdup ll ret p m).map Prod.snd
  | .strndup ret p n => (gcStrndup ll ret p n m).map Prod.snd
  | .memclone ret p n => (gcMemclone ll ret p n m).map Prod.snd
  | .mark ptr => gcMark ptr m
  | .setTrace ptr str => gcNodeSetTrace ptr str m
  | .free ptr => gcFree ptr m
  | .destroy => gcListDestroy ll fuel m

end KanekFs.Gc
