import KanekFs.Cache.Element
import KanekFs.Lib.Threads

/-!
# The cache and its thread

`cache.c` as its clients and the cache thread run it concurrently, one access to shared data at
a time. A call is a frame that says which function runs, at which statement, with which locals.

* A mutex is the thread that holds it. A thread that has to wait cannot take a step.
* An element is named by the allocation it came from, and a name is used once; the number its
  address has as `ce_id` is up to the allocator. An access to freed memory has no result, and
  neither has a use of the table or of `ca_mutex` after `cache_disable` has destroyed them.
* The log records, newest first, what happens to the elements: completed calls of
  `cache_element_mark_dirty`, calls of the callbacks, and elements freed.
* The thread and `cache_element_evict_by_idx` do the same to an element once they hold its
  mutex: `Stage` and `execWork` are shared.
-/

namespace KanekFs.Cache.Machine

/-! ## Memory -/

/-- Who runs: the cache thread, or one of any number of clients. -/
inductive Tid
  | cacheThread
  | client (n : ℕ)
deriving DecidableEq

/-- `cache_element_t`. -/
structure Elem where
  ce_id : ℕ
  ce_mutex : Option Tid
  ce_flags : ElFlags
  ce_access_count : ℕ

/-- What is at the address of an allocation. -/
inductive Cell
  | unused
  | live (el : Elem)
  | freed

/-- `ca_flags`. -/
structure CaFlags where
  ready : Bool
  active : Bool
  sync : Bool
  flush : Bool
  pause : Bool
  exit : Bool
  on_loop : Bool
  evicted : Bool
  set_loop_done : Bool
  loop_done : Bool
deriving DecidableEq

/-- `ca_flags = 0`. -/
def CaFlags.zero : CaFlags :=
  ⟨false, false, false, false, false, false, false, false, false, false⟩

/-- Something happened to the element at `p`. -/
inductive Event
  /-- `cache_element_mark_dirty` was completed. -/
  | marked (p : ℕ)
  /-- `ca_on_flush_callback` was called. -/
  | flushed (p : ℕ)
  /-- `ca_on_evict_callback` was called. -/
  | evicted (p : ℕ)
  /-- The element was freed. -/
  | freed (p : ℕ)
deriving DecidableEq

/-- `cache_t` with the elements. The callbacks are there or null. -/
structure Memory where
  heap : ℕ → Cell
  ca_elements_ptr : List (Option ℕ)
  ca_elements_in_use : ℕ
  ca_flags : CaFlags
  ca_mutex : Option Tid
  /-- Written by the thread; `ca_thread` is `Tid.cacheThread` from the beginning. -/
  ca_tid : Option Tid
  /-- The thread has ended, and a `pthread_join` returns. -/
  ca_thread_ended : Bool
  /-- `ca_mutex` was destroyed, and `ca_elements_ptr` freed. -/
  ca_mutex_destroyed : Bool
  ca_elements_freed : Bool
  ca_on_flush_callback : Bool
  ca_on_evict_callback : Bool
  log : List Event

/-- `cache_init`. -/
def cacheInit (elements_capacity : ℕ) (on_evict on_flush : Bool) : Memory where
  heap _ := .unused
  ca_elements_ptr := List.replicate elements_capacity none
  ca_elements_in_use := 0
  ca_flags := { CaFlags.zero with ready := true }
  ca_mutex := none
  ca_tid := none
  ca_thread_ended := false
  ca_mutex_destroyed := false
  ca_elements_freed := false
  ca_on_flush_callback := on_flush
  ca_on_evict_callback := on_evict
  log := []

namespace Memory

variable (m : Memory)

/-- The element at `p`, if it is live. -/
def el? (p : ℕ) : Option Elem :=
  match m.heap p with
  | .live el => some el
  | _ => none

def setEl (p : ℕ) (el : Elem) : Memory := { m with heap := Function.update m.heap p (.live el) }

def emit (e : Event) : Memory := { m with log := e :: m.log }

/-- `pthread_mutex_lock(&el->ce_mutex)`. -/
def lockEl (t : Tid) (p : ℕ) : Option Memory :=
  (m.el? p).bind fun el =>
    if el.ce_mutex = none then some (m.setEl p { el with ce_mutex := some t }) else none

/-- `pthread_mutex_unlock(&el->ce_mutex)`. -/
def unlockEl (t : Tid) (p : ℕ) : Option Memory :=
  (m.el? p).bind fun el =>
    if el.ce_mutex = some t then some (m.setEl p { el with ce_mutex := none }) else none

/-- An assignment to `el->ce_flags`. -/
def setFlags (p : ℕ) (f : ElFlags → ElFlags) : Option Memory :=
  (m.el? p).map fun el => m.setEl p { el with ce_flags := f el.ce_flags }

/-- `CACHE_EL_ADD_COUNT(el)`. -/
def addCountEl (p : ℕ) : Option Memory :=
  (m.el? p).map fun el => m.setEl p { el with ce_access_count := addCount el.ce_access_count }

/-- `free(el)`. -/
def freeEl (p : ℕ) : Option Memory :=
  (m.el? p).map fun _ => { m with heap := Function.update m.heap p .freed }.emit (.freed p)

/-- `pthread_mutex_lock(&cache->ca_mutex)`. -/
def lockCa (t : Tid) : Option Memory :=
  if m.ca_mutex = none then some { m with ca_mutex := some t } else none

/-- `pthread_mutex_unlock(&cache->ca_mutex)`. -/
def unlockCa (t : Tid) : Option Memory :=
  if m.ca_mutex = some t then some { m with ca_mutex := none } else none

/-- An assignment to `cache->ca_flags`. -/
def setCaFlags (f : CaFlags → CaFlags) : Memory := { m with ca_flags := f m.ca_flags }

/-- `cache->ca_elements_ptr[i]`. -/
def slot (i : ℕ) : Option ℕ := (m.ca_elements_ptr[i]?).join

/-! What these operations do when they have a result. -/

variable {m} {m' : Memory} {t : Tid} {p : ℕ} {el : Elem} {f : ElFlags → ElFlags}

lemma el?_eq_some : m.el? p = some el ↔ m.heap p = .live el := by
  unfold el?
  cases m.heap p <;> simp

lemma lockEl_eq_some (h : m.lockEl t p = some m') :
    ∃ el, m.heap p = .live el ∧ el.ce_mutex = none ∧
      m' = m.setEl p { el with ce_mutex := some t } := by
  rcases Option.bind_eq_some_iff.mp h with ⟨el, hel, hm⟩
  split_ifs at hm with hfree
  exact ⟨el, el?_eq_some.mp hel, hfree, (Option.some.inj hm).symm⟩

lemma unlockEl_eq_some (h : m.unlockEl t p = some m') :
    ∃ el, m.heap p = .live el ∧ el.ce_mutex = some t ∧
      m' = m.setEl p { el with ce_mutex := none } := by
  rcases Option.bind_eq_some_iff.mp h with ⟨el, hel, hm⟩
  split_ifs at hm with hheld
  exact ⟨el, el?_eq_some.mp hel, hheld, (Option.some.inj hm).symm⟩

lemma setFlags_eq_some (h : m.setFlags p f = some m') :
    ∃ el, m.heap p = .live el ∧ m' = m.setEl p { el with ce_flags := f el.ce_flags } := by
  rcases Option.map_eq_some_iff.mp h with ⟨el, hel, hm⟩
  exact ⟨el, el?_eq_some.mp hel, hm.symm⟩

lemma addCountEl_eq_some (h : m.addCountEl p = some m') :
    ∃ el, m.heap p = .live el ∧
      m' = m.setEl p { el with ce_access_count := addCount el.ce_access_count } := by
  rcases Option.map_eq_some_iff.mp h with ⟨el, hel, hm⟩
  exact ⟨el, el?_eq_some.mp hel, hm.symm⟩

lemma freeEl_eq_some (h : m.freeEl p = some m') :
    ∃ el, m.heap p = .live el ∧
      m' = { m with heap := Function.update m.heap p .freed }.emit (.freed p) := by
  rcases Option.map_eq_some_iff.mp h with ⟨el, hel, hm⟩
  exact ⟨el, el?_eq_some.mp hel, hm.symm⟩

lemma lockCa_eq_some (h : m.lockCa t = some m') :
    m.ca_mutex = none ∧ m' = { m with ca_mutex := some t } := by
  unfold lockCa at h
  split_ifs at h with hfree
  exact ⟨hfree, (Option.some.inj h).symm⟩

lemma unlockCa_eq_some (h : m.unlockCa t = some m') :
    m.ca_mutex = some t ∧ m' = { m with ca_mutex := none } := by
  unfold unlockCa at h
  split_ifs at h with hheld
  exact ⟨hheld, (Option.some.inj h).symm⟩

end Memory

/-! ## Frames -/

/-- `cache_element_mark_dirty` and its kin: a test of `CACHE_EL_ACTIVE`, then an assignment to
the flags under `ce_mutex`. -/
inductive FlagOp
  | markDirty
  | markEviction
  | pin
  | markUnpin
deriving DecidableEq

/-- The assignment; for `cache_element_mark_dirty` the first of two. -/
def FlagOp.assign : FlagOp → ElFlags → ElFlags
  | .markDirty, f => { f with dirty := true }
  | .markEviction, f => { f with evict := true }
  | .pin, f => { f with pin := true }
  | .markUnpin, f => { f with pin := false }

lemma FlagOp.assign_active (op : FlagOp) (f : ElFlags) : (op.assign f).active = f.active := by
  cases op <;> rfl

lemma FlagOp.assign_dirty (op : FlagOp) {f : ElFlags} (h : f.dirty = true) :
    (op.assign f).dirty = true := by
  cases op <;> simp [FlagOp.assign, h]

/-- The functions that assign to `ca_flags` under `ca_mutex` and do nothing else: `cache_pause`,
`cache_clear_pause`, `cache_clear_loop_done`, and `cache_set_flags` with the bits it is given. -/
inductive CaFlagOp
  | pause
  | clearPause
  | clearLoopDone
  | setFlags (flag_to_enable : CaFlags)
deriving DecidableEq

/-- `cache_set_flags` wants one of the flags of its mask. -/
def CaFlagOp.accepted : CaFlagOp → Bool
  | .setFlags b => b.sync || b.flush || b.pause || b.exit || b.set_loop_done
  | _ => true

def CaFlagOp.assign : CaFlagOp → CaFlags → CaFlags
  | .pause, f => { f with pause := true }
  | .clearPause, f => { f with pause := false }
  | .clearLoopDone, f => { f with loop_done := false }
  | .setFlags b, f =>
    { ready := f.ready || b.ready, active := f.active || b.active, sync := f.sync || b.sync,
      flush := f.flush || b.flush, pause := f.pause || b.pause, exit := f.exit || b.exit,
      on_loop := f.on_loop || b.on_loop, evicted := f.evicted || b.evicted,
      set_loop_done := f.set_loop_done || b.set_loop_done,
      loop_done := f.loop_done || b.loop_done }

inductive FlagPc
  | test
  | lock
  | assign
  | clearClean
  | unlock
deriving DecidableEq

/-- What is done to an element under its mutex, and after it in an eviction. -/
inductive Stage
  | addCount
  | flush
  | clearDirty
  | setClean
  | onEvict
  | decInUse
  | zeroFlags
  | unlock
  | destroy
  | free
  | clearSlot
  /-- The unlock where no eviction follows. -/
  | release
deriving DecidableEq

/-- `cache_element_evict` and `cache_lookup`: the lock of `ca_mutex` and the loop. -/
inductive ScanPc
  | lock
  | scan (i : ℕ)
deriving DecidableEq

inductive MapPc
  | lock
  | find
  | lru (i : ℕ) (l : Lru)
  | malloc (sub : ℕ)
  | publish (sub p : ℕ)
deriving DecidableEq

inductive SyncPc
  | test
  | lock
  | scan (i : ℕ)
  | setLoop
  | wait
  | clearLock (rc : Bool)
  | clear (rc : Bool)
  | ret (rc : Bool)
deriving DecidableEq

inductive DisablePc
  | lock
  | scan (i : ℕ)
  | setExit
  | wait
  | join
  | destroyMutex
  | freeTable
  | ret
deriving DecidableEq

/-- The search of `pgcache_element_map` and its hit; the element found may have to grow. -/
inductive PgMapPc
  | scan (i : ℕ)
  | read (i p : ℕ)
  | addCount (p : ℕ)
  | size (p : ℕ)
  | growLock (p : ℕ)
  | growRead (p : ℕ)
  | growUnlock (p : ℕ)
  | ret (p : Option ℕ)
deriving DecidableEq

/-- `cache_thread`. `tryLock` holds the copy of the flags that was read. -/
inductive ThreadPc
  | start
  | top
  | lock
  | enter
  | elem (i : ℕ)
  | read (i p : ℕ)
  | tryLock (i p : ℕ) (flags : ElFlags)
  | leave
  | loop
  | finish
deriving DecidableEq

/-- A running call. -/
inductive Frame
  | flagOp (op : FlagOp) (p : ℕ) (pc : FlagPc)
  /-- `cache_element_evict_by_idx`, before the lock of the element and before its flags are
  read. -/
  | evictByIdx (i p : ℕ) (locked : Bool)
  | work (i p : ℕ) (evict : Bool) (st : Stage)
  | evict (key : ℕ) (pc : ScanPc)
  | lookup (key : ℕ) (pc : ScanPc)
  | map (pc : MapPc)
  | sync (pc : SyncPc)
  | disable (pc : DisablePc)
  | pgMap (addr : ℕ) (pc : PgMapPc)
  | caFlagOp (op : CaFlagOp) (locked : Bool)
  /-- The client assigns `ce_id`, as `pgcache_element_map` does. -/
  | setId (p key : ℕ)
  | thread (pc : ThreadPc)
  /-- The unlock of `ca_mutex` at the end of a function, with the element it returns. -/
  | unlockCa (ret : Option ℕ)
deriving DecidableEq

/-- What the environment decides: which call a client makes, how an allocation ends, when a wait
times out, whether a page that was found is too small. Most statements leave it nothing to
decide. -/
inductive Input
  | go
  | call (f : Frame)
  | alloc (p id : ℕ)
  | allocFails
  | timeout
  | grow
deriving DecidableEq

abbrev Result := Option (Memory × List Frame)

/-! ## Statements -/

section Statements

variable (m : Memory) (t : Tid)

def execFlagOp (op : FlagOp) (p : ℕ) : FlagPc → Result
  -- read without the mutex
  | .test => (m.el? p).map fun el =>
      (m, if el.ce_flags.active then [.flagOp op p .lock] else [])
  | .lock => (m.lockEl t p).map fun m => (m, [.flagOp op p .assign])
  | .assign => (m.setFlags p op.assign).map fun m =>
      (m, [.flagOp op p (if op = .markDirty then .clearClean else .unlock)])
  | .clearClean => (m.setFlags p fun f => { f with clean := false }).map fun m =>
      (m, [.flagOp op p .unlock])
  | .unlock => (m.unlockEl t p).map fun m =>
      (if op = .markDirty then m.emit (.marked p) else m, [])

/-- The work on the element `p` of slot `i`, whose mutex is held. -/
def execWork (i p : ℕ) (evict : Bool) : Stage → Result
  | .addCount => (m.addCountEl p).map fun m => (m, [.work i p evict .flush])
  -- without a callback only the flags change
  | .flush =>
    some (if m.ca_on_flush_callback then m.emit (.flushed p) else m,
      [.work i p evict .clearDirty])
  | .clearDirty => (m.setFlags p fun f => { f with dirty := false }).map fun m =>
      (m, [.work i p evict .setClean])
  | .setClean => (m.setFlags p fun f => { f with clean := true }).map fun m =>
      (m, [.work i p evict (if evict then .onEvict else .release)])
  | .onEvict =>
    some (if m.ca_on_evict_callback then m.emit (.evicted p) else m,
      [.work i p evict .decInUse])
  | .decInUse =>
    some ({ m with ca_elements_in_use := decInUse m.ca_elements_in_use },
      [.work i p evict .zeroFlags])
  | .zeroFlags => (m.setFlags p fun _ => .zero).map fun m => (m, [.work i p evict .unlock])
  | .unlock => (m.unlockEl t p).map fun m => (m, [.work i p evict .destroy])
  | .destroy => (m.el? p).map fun _ => (m, [.work i p evict .free])
  | .free => (m.freeEl p).map fun m => (m, [.work i p evict .clearSlot])
  | .clearSlot => some ({ m with ca_elements_ptr := m.ca_elements_ptr.set i none }, [])
  | .release => (m.unlockEl t p).map fun m => (m, [])

/-- `cache_element_evict_by_idx`: the flags are read under the mutex. -/
def execEvictByIdx (i p : ℕ) : Bool → Result
  | false => (m.lockEl t p).map fun m => (m, [.evictByIdx i p true])
  | true => (m.el? p).map fun el =>
      (m, [.work i p true (if el.ce_flags.dirty then .addCount else .onEvict)])

/-- `cache_element_evict`. -/
def execEvict (key : ℕ) : ScanPc → Result
  | .lock => (m.lockCa t).map fun m => (m, [.evict key (.scan 0)])
  | .scan i =>
    if i < m.ca_elements_ptr.length then
      match m.slot i with
      | none => some (m, [.evict key (.scan (i + 1))])
      | some p => (m.el? p).map fun el =>
          (m, if el.ce_id = key then [.evictByIdx i p false, .unlockCa none]
            else [.evict key (.scan (i + 1))])
    else some (m, [.unlockCa none])

/-- `cache_lookup`. -/
def execLookup (key : ℕ) : ScanPc → Result
  | .lock => (m.lockCa t).map fun m => (m, [.lookup key (.scan 0)])
  | .scan i =>
    if i < m.ca_elements_ptr.length then
      match m.slot i with
      | none => some (m, [.lookup key (.scan (i + 1))])
      | some p => (m.el? p).map fun el =>
          if el.ce_id = key then
            (m.setEl p { el with ce_access_count := addCount el.ce_access_count },
              [.unlockCa (some p)])
          else (m, [.lookup key (.scan (i + 1))])
    else some (m, [.unlockCa none])

/-- A new element; the fields are filled in before anyone else can see it. -/
def newElem (id : ℕ) : Elem :=
  { ce_id := id, ce_mutex := none, ce_flags := .mapped, ce_access_count := 1 }

/-- `cache_element_map`. -/
def execMap : MapPc → Input → Result
  | .lock, _ => (m.lockCa t).map fun m => (m, [.map .find])
  | .find, _ =>
    -- an empty slot, or else the least recently used element
    match m.ca_elements_ptr.findIdx? Option.isNone with
    | some sub => some (m, [.map (.malloc sub)])
    | none => some (m, [.map (.lru 0 Lru.start)])
  | .lru i l, _ =>
    if i < m.ca_elements_ptr.length then
      match m.slot i with
      -- an empty slot is an error at this point, and ends the call
      | none => some (m, [.unlockCa none])
      | some p => (m.el? p).map fun el =>
          (m, [.map (.lru (i + 1) (l.step i el.ce_flags el.ce_access_count))])
    else
      match l.sub with
      | none => some (m, [.unlockCa none])
      -- the call goes on in the slot that the eviction empties
      | some sub => (m.slot sub).map fun p =>
          (m, [.evictByIdx sub p false, .map (.malloc sub)])
  | .malloc sub, .alloc p id =>
    -- no allocation returns a name for the second time
    match m.heap p with
    | .unused => some (m.setEl p (newElem id), [.map (.publish sub p)])
    | _ => none
  -- no memory, or no mutex: then the memory is freed before anyone else can see it
  | .malloc _, .allocFails => some (m, [.unlockCa none])
  | .malloc _, _ => none
  | .publish sub p, _ =>
    some ({ m with ca_elements_in_use := incInUse m.ca_elements_in_use
                   ca_elements_ptr := m.ca_elements_ptr.set sub (some p) },
      [.unlockCa (some p)])

/-- `cache_sync`, with its wait for `CACHE_LOOP_DONE` and `cache_clear_loop_done`. -/
def execSync : SyncPc → Input → Result
  | .test, _ => some (m, if m.ca_flags.ready then [.sync .lock] else [])
  | .lock, _ => (m.lockCa t).map fun m => (m, [.sync (.scan 0)])
  | .scan i, _ =>
    if i < m.ca_elements_ptr.length then
      match m.slot i with
      | none => some (m, [.sync (.scan (i + 1))])
      | some p => (m.el? p).map fun el =>
          -- a pinned element is left alone
          (m, if el.ce_flags.pin then [.sync (.scan (i + 1))]
            else [.flagOp .markEviction p .test, .sync (.scan (i + 1))])
    else some (m, [.sync .setLoop])
  | .setLoop, _ =>
    some (m.setCaFlags fun f => { f with set_loop_done := true }, [.unlockCa none, .sync .wait])
  | .wait, .timeout => some (m, [.sync (.clearLock false)])
  -- the flag is polled until it is set
  | .wait, _ => if m.ca_flags.loop_done then some (m, [.sync (.clearLock true)]) else none
  | .clearLock rc, _ => (m.lockCa t).map fun m => (m, [.sync (.clear rc)])
  | .clear rc, _ =>
    some (m.setCaFlags fun f => { f with loop_done := false }, [.unlockCa none, .sync (.ret rc)])
  | .ret _, _ => some (m, [])

/-- `cache_disable`, which is also what `cache_destroy` and `pgcache_destroy` do. -/
def execDisable : DisablePc → Input → Result
  | .lock, _ => (m.lockCa t).map fun m => (m, [.disable (.scan 0)])
  | .scan i, _ =>
    if i < m.ca_elements_ptr.length then
      match m.slot i with
      | none => some (m, [.disable (.scan (i + 1))])
      | some p => some (m, [.flagOp .markEviction p .test, .disable (.scan (i + 1))])
    else some (m, [.disable .setExit])
  | .setExit, _ =>
    some (m.setCaFlags fun f => { f with exit := true }, [.unlockCa none, .disable .wait])
  -- the result of the wait is not looked at
  | .wait, .timeout => some (m, [.disable .join])
  | .wait, _ =>
    if m.ca_flags.exit && m.ca_flags.evicted then some (m, [.disable .join]) else none
  | .join, _ =>
    if m.ca_tid = some .cacheThread then
      if m.ca_thread_ended then some (m, [.disable .destroyMutex]) else none
    else some (m, [.disable .destroyMutex])
  | .destroyMutex, _ => some ({ m with ca_mutex_destroyed := true }, [.disable .freeTable])
  | .freeTable, _ => some ({ m with ca_elements_freed := true }, [.disable .ret])
  | .ret, _ => some (m, [])

/-- `pgcache_element_map` up to its first `exit0`. It reads the table without `ca_mutex`. After a
miss it goes on with `cache_element_map` and the assignment of `ce_id`, which are calls of their
own here; `pc_mutex`, which only keeps its calls apart, is left out. -/
def execPgMap (addr : ℕ) : PgMapPc → Input → Result
  | .scan i, _ =>
    if i < m.ca_elements_ptr.length then
      match m.slot i with
      | none => some (m, [.pgMap addr (.scan (i + 1))])
      | some p => some (m, [.pgMap addr (.read i p)])
    else some (m, [])
  | .read i p, _ => (m.el? p).map fun el =>
      (m, [.pgMap addr (if el.ce_id = addr then .addCount p else .scan (i + 1))])
  | .addCount p, _ => (m.addCountEl p).map fun m => (m, [.pgMap addr (.size p)])
  | .size p, .grow => some (m, [.pgMap addr (.growLock p)])
  | .size p, _ => some (m, [.pgMap addr (.ret (some p))])
  | .growLock p, _ => (m.lockEl t p).map fun m => (m, [.pgMap addr (.growRead p)])
  -- the page is flushed, reallocated and read again; a failure leaves with the mutex locked
  | .growRead _, .allocFails => some (m, [.pgMap addr (.ret none)])
  | .growRead p, _ => (m.el? p).map fun _ => (m, [.pgMap addr (.growUnlock p)])
  | .growUnlock p, _ => (m.unlockEl t p).map fun m => (m, [.pgMap addr (.ret (some p))])
  | .ret _, _ => some (m, [])

def execCaFlagOp (op : CaFlagOp) : Bool → Result
  | false =>
    if op.accepted then (m.lockCa t).map fun m => (m, [.caFlagOp op true]) else some (m, [])
  | true => some (m.setCaFlags op.assign, [.unlockCa none])

/-- What the thread does to an element after the `trylock`: it decides on its copy of the
flags. -/
def afterTryLock (i p : ℕ) (flags : ElFlags) : Frame :=
  if flags.dirty then .work i p flags.evict .addCount
  else if flags.evict then .work i p true .onEvict
  else .work i p false .release

/-- The end of a pass: `CACHE_EXIT` and `CACHE_SET_LOOP_DONE` are acknowledged. -/
def leaveFlags (f : CaFlags) : CaFlags :=
  { f with on_loop := false, evicted := f.evicted || f.exit, set_loop_done := false,
           loop_done := f.loop_done || f.set_loop_done }

/-- `cache_thread`. -/
def execThread : ThreadPc → Result
  | .start =>
    some ({ m with ca_tid := some t }.setCaFlags fun f => { f with active := true },
      [.thread .top])
  | .top => some (m, [.thread (if m.ca_flags.pause then .loop else .lock)])
  | .lock => (m.lockCa t).map fun m => (m, [.thread .enter])
  | .enter =>
    if m.ca_elements_in_use > 0 then
      some (m.setCaFlags fun f => { f with on_loop := true }, [.thread (.elem 0)])
    else some (m, [.thread .leave])
  | .elem i =>
    if i < m.ca_elements_ptr.length then
      match m.slot i with
      | none => some (m, [.thread (.elem (i + 1))])
      | some p => some (m, [.thread (.read i p)])
    else some (m, [.thread .leave])
  -- the copy of the flags is taken before the mutex
  | .read i p => (m.el? p).map fun el =>
      (m, [.thread (if el.ce_flags.active then .tryLock i p el.ce_flags else .elem (i + 1))])
  | .tryLock i p flags => (m.el? p).map fun el =>
      if el.ce_mutex = none then
        (m.setEl p { el with ce_mutex := some t },
          [afterTryLock i p flags, .thread (.elem (i + 1))])
      -- another thread has the mutex: the element is left for the next pass
      else (m, [.thread (.elem (i + 1))])
  | .leave => some (m.setCaFlags leaveFlags, [.unlockCa none, .thread .loop])
  -- the condition of the `do` loop
  | .loop => some (m, [.thread (if m.ca_flags.evicted then .finish else .top)])
  | .finish =>
    some ({ m with ca_thread_ended := true }.setCaFlags fun _ =>
      { CaFlags.zero with exit := true, evicted := true }, [])

/-- The statement on top of the stack. -/
def execFrame (f : Frame) (i : Input) : Result :=
  match f with
  | .flagOp op p pc => execFlagOp m t op p pc
  | .evictByIdx i p locked => execEvictByIdx m t i p locked
  | .work i p evict st => execWork m t i p evict st
  | .evict key pc => execEvict m t key pc
  | .lookup key pc => execLookup m t key pc
  | .map pc => execMap m t pc i
  | .sync pc => execSync m t pc i
  | .disable pc => execDisable m t pc i
  | .pgMap addr pc => execPgMap m t addr pc i
  | .caFlagOp op locked => execCaFlagOp m t op locked
  | .setId p key => (m.el? p).map fun el => (m.setEl p { el with ce_id := key }, [])
  | .thread pc => execThread m t pc
  | .unlockCa _ => (m.unlockCa t).map fun m => (m, [])

/-- The statement reads or writes an entry of `ca_elements_ptr`. -/
def Frame.accessesTable : Frame → Bool
  | .evict _ (.scan _) | .lookup _ (.scan _) | .map .find | .map (.lru _ _)
  | .map (.publish _ _) | .sync (.scan _) | .disable (.scan _) | .pgMap _ (.scan _)
  | .thread (.elem _) | .work _ _ _ .clearSlot => true
  | _ => false

/-- The statement locks or unlocks `ca_mutex`. -/
def Frame.usesMutex : Frame → Bool
  | .evict _ .lock | .lookup _ .lock | .map .lock | .sync .lock | .sync (.clearLock _)
  | .disable .lock | .thread .lock | .unlockCa _ => true
  | .caFlagOp op locked => op.accepted && !locked
  | _ => false

/-- The statement uses what `cache_disable` has destroyed. -/
def torn (f : Frame) : Bool :=
  m.ca_elements_freed && f.accessesTable || m.ca_mutex_destroyed && f.usesMutex

def exec (f : Frame) (i : Input) : Result := if torn m f then none else execFrame m t f i

end Statements

lemma execFrame_of_exec {m : Memory} {t : Tid} {f : Frame} {i : Input} {r : Memory × List Frame}
    (h : exec m t f i = some r) : execFrame m t f i = some r := by
  unfold exec at h
  split_ifs at h
  exact h

lemma frames_of_map {m' : Memory} {fs : List Frame} {o : Option Memory} {g : List Frame}
    (h : (o.map fun m => (m, g)) = some (m', fs)) : o = some m' ∧ fs = g := by
  rcases Option.map_eq_some_iff.mp h with ⟨m₁, ho, heq⟩
  rcases Prod.mk.inj heq with ⟨rfl, rfl⟩
  exact ⟨ho, rfl⟩

/-! What a loop over the table and a wait do in one step. -/

section Cases

variable {m m' : Memory} {t : Tid} {inp : Input} {fs : List Frame}

/-- A loop comes to an empty slot, to an element, or to its end. -/
lemma scan_cases {i : ℕ} {next done : List Frame} {r : ℕ → Result}
    (h : (if i < m.ca_elements_ptr.length then
        match m.slot i with
        | none => some (m, next)
        | some p => r p
      else some (m, done)) = some (m', fs)) :
    (m.slot i = none ∧ m = m' ∧ next = fs) ∨ (∃ p, m.slot i = some p ∧ r p = some (m', fs)) ∨
      m.ca_elements_ptr.length ≤ i ∧ m = m' ∧ done = fs := by
  split_ifs at h with hlt
  · cases hslot : m.slot i with
    | none =>
      rw [hslot] at h
      exact .inl ⟨rfl, Prod.mk.inj (Option.some.inj h)⟩
    | some p =>
      rw [hslot] at h
      exact .inr (.inl ⟨p, rfl, h⟩)
  · exact .inr (.inr ⟨not_lt.mp hlt, Prod.mk.inj (Option.some.inj h)⟩)

/-- The wait of `cache_sync` ends with its timeout, or with its flag. -/
lemma sync_wait_cases (h : execSync m t .wait inp = some (m', fs)) :
    m = m' ∧ ([.sync (.clearLock false)] = fs ∨
      [.sync (.clearLock true)] = fs ∧ m.ca_flags.loop_done = true) := by
  have hpoll : (if m.ca_flags.loop_done then some (m, [Frame.sync (.clearLock true)]) else none) =
      some (m', fs) → m = m' ∧ [Frame.sync (.clearLock true)] = fs ∧
        m.ca_flags.loop_done = true := by
    intro h
    split_ifs at h with hdone
    rcases Prod.mk.inj (Option.some.inj h) with ⟨hm, hfs⟩
    exact ⟨hm, hfs, hdone⟩
  cases inp with
  | timeout =>
    rcases Prod.mk.inj (Option.some.inj h) with ⟨hm, hfs⟩
    exact ⟨hm, .inl hfs⟩
  | _ => exact (hpoll h).imp_right .inr

/-- `cache_disable` goes on in the same way after its timeout. -/
lemma disable_wait_cases (h : execDisable m t .wait inp = some (m', fs)) :
    m = m' ∧ [.disable .join] = fs := by
  have hpoll : (if m.ca_flags.exit && m.ca_flags.evicted then some (m, [Frame.disable .join])
      else none) = some (m', fs) → m = m' ∧ [Frame.disable .join] = fs := by
    intro h
    split_ifs at h
    exact Prod.mk.inj (Option.some.inj h)
  cases inp with
  | timeout => exact Prod.mk.inj (Option.some.inj h)
  | _ => exact hpoll h

end Cases

/-! ## What is known of an element -/

/-- The element at `p`, unless it has been freed, satisfies `P`. -/
def OnElem (m : Memory) (p : ℕ) (P : Elem → Prop) : Prop :=
  m.heap p = .freed ∨ ∃ el, m.heap p = .live el ∧ P el

/-- The mutex of `p` is held by `t`. -/
def Held (m : Memory) (t : Tid) (p : ℕ) : Prop := OnElem m p fun el => el.ce_mutex = some t

section OnElem

variable {m : Memory} {p : ℕ} {el el' : Elem} {P Q : Elem → Prop}

lemma live_inj (h : m.heap p = .live el) (h' : m.heap p = .live el') : el = el' :=
  Cell.live.inj (h.symm.trans h')

lemma OnElem.mono (h : OnElem m p P) (hPQ : ∀ el, P el → Q el) : OnElem m p Q := by
  rcases h with hfreed | ⟨el, hel, hP⟩
  · exact .inl hfreed
  · exact .inr ⟨el, hel, hPQ el hP⟩

lemma OnElem.of_live (h : OnElem m p P) (hel : m.heap p = .live el) : P el := by
  rcases h with hfreed | ⟨el', hel', hP⟩
  · simp [hfreed] at hel
  · exact live_inj hel' hel ▸ hP

lemma onElem_setEl (hP : P el') : OnElem (m.setEl p el') p P :=
  .inr ⟨el', by simp [Memory.setEl], hP⟩

end OnElem

/-! ## Runs -/

/-- The calls a client can make. -/
def entry : Frame → Bool
  | .flagOp _ _ pc => pc = .test
  | .evict _ pc | .lookup _ pc => pc = .lock
  | .map pc => pc = .lock
  | .sync pc => pc = .test
  | .disable pc => pc = .lock
  | .pgMap _ pc => pc = .scan 0
  | .caFlagOp _ locked => !locked
  | .setId _ _ => true
  | _ => false

/-- An idle client starts a call. -/
def start : Tid → Input → Option (List Frame)
  | .client _, .call f => if entry f then some [f] else none
  | _, _ => none

/-- What an idle client can start. -/
lemma start_eq_some {t : Tid} {inp : Input} {fs : List Frame} (h : start t inp = some fs) :
    ∃ n f, t = .client n ∧ inp = .call f ∧ entry f = true ∧ fs = [f] := by
  cases t with
  | cacheThread => simp [start] at h
  | client n =>
    cases inp with
    | call f =>
      simp only [start] at h
      split_ifs at h with hentry
      exact ⟨n, f, rfl, rfl, hentry, (Option.some.inj h).symm⟩
    | go => simp [start] at h
    | alloc p id => simp [start] at h
    | allocFails => simp [start] at h
    | timeout => simp [start] at h
    | grow => simp [start] at h

def system : Threads.System Tid Memory Frame Input := ⟨exec, start⟩

abbrev State := Threads.State Tid Memory Frame

/-- The cache after `cache_init` and `cache_enable`: the thread is about to start. -/
def init (elements_capacity : ℕ) (on_evict on_flush : Bool) : State where
  mem := cacheInit elements_capacity on_evict on_flush
  stack
    | .cacheThread => [.thread .start]
    | .client _ => []

/-! Inputs for runs that are written out: a client starts a call and takes `n` steps. -/

def steps (t : Tid) (n : ℕ) : List (Tid × Input) := List.replicate n (t, .go)

def call (t : Tid) (f : Frame) (n : ℕ) : List (Tid × Input) := (t, .call f) :: steps t n

/-- Client 0 maps the element 4096. -/
def mapped : List (Tid × Input) :=
  call (.client 0) (.map .lock) 2 ++ [(.client 0, .alloc 4096 4096)] ++ steps (.client 0) 2

end KanekFs.Cache.Machine
