import Ircu.Chattr
import Ircu.Heap.Basic

/-!
The receive queues of `dbuf.c`.

A `DBuf` is a list of blocks of `DBUF_SIZE` bytes, linked through pointers, with
a recorded length and a pointer to the last block. Blocks come from a free list
that all queues share, and are only allocated while the pool is below
`BUFFERPOOL`. Blocks are cells of a heap here; following a pointer to a cell that
does not exist, or an assertion that fails, has no result.

Lengths are `unsigned int`, so they are taken modulo `2 ^ 32`.
-/

namespace Ircu.Dbuf

def DBUF_SIZE : ℕ := 2048

/-- Addition of `unsigned int`. -/
def uadd (a b : ℕ) : ℕ := (a + b) % 2 ^ 32

/-- Subtraction of `unsigned int`. -/
def usub (a b : ℕ) : ℕ := (a + (2 ^ 32 - b)) % 2 ^ 32

structure Block where
  next : Option ℕ
  start : ℕ
  stop : ℕ
  data : ℕ → UInt8

def Block.bytes (b : Block) : List UInt8 := (List.range' b.start (b.stop - b.start)).map b.data

def Block.put (b : Block) (bs : List UInt8) : Block :=
  { b with
    data := fun i => if b.stop ≤ i then bs.getD (i - b.stop) (b.data i) else b.data i
    stop := b.stop + bs.length }

def Block.skip (b : Block) (n : ℕ) : Block := { b with start := b.start + n }

structure DBuf where
  length : ℕ
  head : Option ℕ
  tail : Option ℕ
deriving DecidableEq

/-- The blocks of all queues, those that are free, and how many were ever
allocated. -/
structure Pool where
  heap : Heap Block
  freeList : Option ℕ
  allocCount : ℕ

/-- The features that are read: `BUFFERPOOL`, which leaves the size of the pool
an `int`, and `HAS_FERGUSON_FLUSHER`; and whether `flush_connections` fails to write
to the connection whose queue is being put to. -/
structure Surroundings where
  bufferpool : ℕ
  ferguson : Bool
  writeFails : Bool
  fits : bufferpool + DBUF_SIZE ≤ 2 ^ 31

/-- Surroundings in which no write of `flush_connections` fails. -/
structure Config extends Surroundings where
  sends : ferguson = true → writeFails = false

instance : Coe Config Surroundings := ⟨Config.toSurroundings⟩

structure St where
  dyn : DBuf
  pool : Pool

def St.block (s : St) (p : ℕ) : Option Block := s.pool.heap.cell p

def St.write (s : St) (p : ℕ) (f : Block → Block) : Option St := do
  let heap ← s.pool.heap.store p f
  some { s with pool := { s.pool with heap := heap } }

/-! ### Blocks from and to the pool -/

/-- The contents of new memory are not used. -/
def dbufAlloc (cfg : Surroundings) (s : St) : Option (Option ℕ × St) :=
  match s.pool.freeList with
  | some p => do
      let b ← s.block p
      some (some p, { s with pool := { s.pool with freeList := b.next } })
  | none =>
    if s.pool.allocCount * DBUF_SIZE < cfg.bufferpool then
      some (some s.pool.heap.next, { s with pool := { s.pool with
        heap := s.pool.heap.alloc ⟨none, 0, 0, fun _ => 0⟩
        allocCount := s.pool.allocCount + 1 } })
    else some (none, s)

def dbufFree (p : ℕ) (s : St) : Option St := do
  let s' ← s.write p fun b => { b with next := s.pool.freeList }
  some { s' with pool := { s'.pool with freeList := some p } }

/-- The loop of `dbuf_malloc_error`. -/
def freeAll : ℕ → Option ℕ → St → Option St
  | _, none, s => some s
  | 0, some _, _ => none
  | n + 1, some p, s => do
      let b ← s.block p
      let s ← dbufFree p s
      freeAll n b.next s

def dbufMallocError (s : St) : Option St := do
  let s ← freeAll (s.pool.heap.next + 1) s.dyn.head s
  some { s with dyn := ⟨0, none, none⟩ }

/-! ### Deleting bytes -/

def deleteLoop : ℕ → ℕ → St → Option St
  | 0, _, _ => none
  | n + 1, length, s =>
    if length = 0 then some s
    else
      match s.dyn.head with
      | none => some s
      | some p => do
          let b ← s.block p
          let chunk := min (b.stop - b.start) length
          let s ← s.write p fun b => b.skip chunk
          let s : St := { s with dyn := { s.dyn with length := usub s.dyn.length chunk } }
          if b.start + chunk = b.stop then do
            let s ← dbufFree p { s with dyn := { s.dyn with head := b.next } }
            deleteLoop n (length - chunk) s
          else deleteLoop n (length - chunk) s

def dbufDelete (length : ℕ) (s : St) : Option St := do
  let s ← deleteLoop (min length s.dyn.length + 1) (min length s.dyn.length) s
  if s.dyn.head = none then some { s with dyn := { s.dyn with length := 0, tail := none } }
  else some s

/-! ### Putting bytes -/

/-- `dbuf_alloc` in `dbuf_put`, tried again after `flush_connections`. It sends what is queued for
output; if that fails, `dead_link` clears the queue of the connection. -/
def dbufAllocRetry (cfg : Surroundings) (s : St) : Option (Option ℕ × St) := do
  let r ← dbufAlloc cfg s
  if r.1 = none ∧ cfg.ferguson = true then do
    let s ← if cfg.writeFails then dbufDelete r.2.dyn.length r.2 else some r.2
    dbufAlloc cfg s
  else some r

/-- The places a `struct DBufBuffer **` points to. -/
inductive Place where
  | head
  | tail
  | next (p : ℕ)

def Place.deref (s : St) : Place → Option (Option ℕ)
  | .head => some s.dyn.head
  | .tail => some s.dyn.tail
  | .next p => (s.block p).map Block.next

def Place.assign (s : St) (db : Option ℕ) : Place → Option St
  | .head => some { s with dyn := { s.dyn with head := db } }
  | .tail => some { s with dyn := { s.dyn with tail := db } }
  | .next p => s.write p fun b => { b with next := db }

/-- The new block at `db` becomes the last one, and empty. -/
def link (h : Place) (db : ℕ) (s : St) : Option St := do
  let s : St := { s with dyn := { s.dyn with tail := some db } }
  let s ← h.assign s (some db)
  s.write db fun b => { b with next := none, start := 0, stop := 0 }

/-- The block that `*h` points to; a null pointer is replaced by a new block, if
there is one. -/
def target (cfg : Surroundings) (h : Place) (s : St) : Option (Option ℕ × St) := do
  match ← h.deref s with
  | some db => some (some db, s)
  | none => do
      match ← dbufAllocRetry cfg s with
      | (none, s) => some (none, s)
      | (some db, s) => do
          let s ← link h db s
          some (some db, s)

/-- Copy to the block `db` what fits; the bytes that are left. -/
def fill (db : ℕ) (buf : List UInt8) (s : St) : Option (List UInt8 × St) := do
  let b ← s.block db
  let chunk := min (DBUF_SIZE - b.stop) buf.length
  let s ← s.write db fun b => b.put (buf.take chunk)
  some (buf.drop chunk, s)

def putLoop (cfg : Surroundings) : ℕ → Place → List UInt8 → St → Option (Bool × St)
  | 0, _, _, _ => none
  | n + 1, h, buf, s =>
    if buf = [] then some (true, s)
    else do
      match ← target cfg h s with
      | (none, s) => do
          let s ← dbufMallocError s
          some (false, s)
      | (some db, s) => do
          let r ← fill db buf s
          putLoop cfg n (.next db) r.1 r.2

def dbufPut (cfg : Surroundings) (buf : List UInt8) (s : St) : Option (Bool × St) :=
  let h := if s.dyn.length = 0 then Place.head else Place.tail
  putLoop cfg (buf.length + 2) h buf
    { s with dyn := { s.dyn with length := uadd s.dyn.length buf.length } }

/-! ### Taking bytes -/

def dbufMap (s : St) : Option (Option (List UInt8)) :=
  if s.dyn.length = 0 then some none
  else do
    let p ← s.dyn.head
    let b ← s.block p
    some (some b.bytes)

/-- The loop of `dbuf_get`, with what was copied so far. -/
def getLoop : ℕ → ℕ → List UInt8 → St → Option (List UInt8 × St)
  | 0, _, _, _ => none
  | n + 1, length, moved, s =>
    if length = 0 then some (moved, s)
    else do
      match ← dbufMap s with
      | none => some (moved, s)
      | some block => do
          let chunk := min block.length length
          let s ← dbufDelete chunk s
          getLoop n (length - chunk) (moved ++ block.take chunk) s

def dbufGet (length : ℕ) (s : St) : Option (List UInt8 × St) := getLoop (length + 1) length [] s

/-- The loop of `dbuf_flush`, at the block `db`. -/
def flushLoop : ℕ → ℕ → St → Option St
  | 0, _, _ => none
  | n + 1, db, s => do
      let b ← s.block db
      if isEol (b.data b.start) then do
        let s ← s.write db fun b => b.skip 1
        if b.start + 1 = b.stop then do
          let s ← dbufFree db { s with dyn := { s.dyn with head := b.next } }
          match b.next with
          | none => some { s with dyn := { s.dyn with tail := none, length := 0 } }
          | some db => flushLoop n db { s with dyn := { s.dyn with length := usub s.dyn.length 1 } }
        else flushLoop n db { s with dyn := { s.dyn with length := usub s.dyn.length 1 } }
      else some s

def dbufFlush (s : St) : Option St :=
  match s.dyn.head with
  | none => some s
  | some db => do
      let b ← s.block db
      if b.start < b.stop then flushLoop (s.dyn.length + 1) db s else none

/-- The loop of `dbuf_getmsg`: the bytes in front of the first line end among
the first `length` ones, from the block `db` on, behind those already copied. -/
def scanLoop (s : St) : ℕ → ℕ → ℕ → List UInt8 → Option (Option (List UInt8))
  | 0, _, _, _ => none
  | n + 1, db, length, copied =>
    if length = 0 then some none
    else do
      let b ← s.block db
      let seg := b.bytes.take length
      let part := seg.takeWhile fun c => !isEol c
      if part.length < seg.length then some (some (copied ++ part))
      else
        match b.next with
        | none => some none
        | some db => scanLoop s n db (length - part.length) (copied ++ part)

def dbufGetmsg (length : ℕ) (s : St) : Option (List UInt8 × St) := do
  let s ← dbufFlush s
  -- the value of `dbuf_flush`: zero too when the queue has no block
  if s.dyn.head = none ∨ s.dyn.length = 0 then some ([], s)
  else do
    let db ← s.dyn.head
    let b ← s.block db
    if b.start < b.stop then do
      let r ← scanLoop s (s.pool.heap.next + 1) db (min length s.dyn.length) []
      match r with
      | none => some ([], s)
      | some line => do
          let s ← dbufDelete line.length s
          let s ← dbufFlush s
          some (line, s)
    else none

end Ircu.Dbuf
