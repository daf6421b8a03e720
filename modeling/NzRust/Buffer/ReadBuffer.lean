import NzRust.Core.Error
import NzRust.Lib.Bytes

/-!
# The growable stream read buffer

`ReadBuffer` keeps a backing vector and the window of unconsumed bytes in it.
The window bounds are fields of the structure, so every operation re-proves
that its window lies inside its vector. A socket is the list of outcomes its
next `read` calls have; a chunk larger than the slice offered to `read` is
handed out in pieces.
-/

namespace NzRust

/-- What one `read` call on the socket finds. -/
inductive ReadEvent where
  | data (chunk : Bytes)
  | failed (kind : IoErrorKind)
  deriving DecidableEq, Repr

/-- The remaining outcomes of a socket; the empty list is the end of the stream. -/
abbrev Stream := List ReadEvent

namespace Stream

/-- Bytes and events still to come, the variant of every read loop. -/
def weight : Stream → Nat
  | [] => 0
  | .data chunk :: rest => chunk.length + 1 + weight rest
  | .failed _ :: rest => 1 + weight rest

/-- `Read::read` into a slice of `space` bytes. -/
def read (space : Nat) : Stream → Except IoErrorKind Bytes × Stream
  | [] => (.ok [], [])
  | .data chunk :: rest =>
      if chunk.length ≤ space then (.ok chunk, rest)
      else (.ok (chunk.take space), .data (chunk.drop space) :: rest)
  | .failed kind :: rest => (.error kind, rest)

theorem read_length_le {space : Nat} {s s' : Stream} {chunk : Bytes}
    (h : s.read space = (.ok chunk, s')) : chunk.length ≤ space := by
  unfold read at h
  split at h
  · cases h; simp
  · split at h
    · cases h; assumption
    · cases h; exact List.length_take_le _ _
  · cases h

theorem read_weight_lt {space : Nat} {s s' : Stream} {chunk : Bytes}
    (h : s.read space = (.ok chunk, s')) (hc : chunk ≠ []) : s'.weight < s.weight := by
  unfold read at h
  split at h
  · cases h; exact (hc rfl).elim
  · split at h
    · cases h; simp [weight]
    · cases h
      have hs : space ≠ 0 := by
        rintro rfl
        exact hc (by simp)
      simp only [weight, List.length_drop]
      omega
  · cases h

theorem read_failed_weight_lt {space : Nat} {s s' : Stream} {kind : IoErrorKind}
    (h : s.read space = (.error kind, s')) : s'.weight < s.weight := by
  unfold read at h
  split at h
  · cases h
  · split at h <;> cases h
  · cases h; simp [weight]

end Stream

/-- The backing vector and the window `start..stop` of unconsumed bytes. -/
structure ReadBuffer where
  buf : Bytes
  start : Nat
  stop : Nat
  start_le_stop : start ≤ stop
  stop_le_length : stop ≤ buf.length

namespace ReadBuffer

/-- A fresh buffer of 64 KiB. -/
def new : ReadBuffer where
  buf := List.replicate 65536 0
  start := 0
  stop := 0
  start_le_stop := Nat.le_refl 0
  stop_le_length := Nat.zero_le _

@[simp] theorem new_length : new.buf.length = 65536 := List.length_replicate

/-- The buffer left behind by `take`: nothing is allocated. -/
def vacant : ReadBuffer where
  buf := []
  start := 0
  stop := 0
  start_le_stop := Nat.le_refl 0
  stop_le_length := Nat.zero_le _

/-- `take`: the moved buffer, and the vacant one in its place. -/
def take (b : ReadBuffer) : ReadBuffer × ReadBuffer := (b, vacant)

def available (b : ReadBuffer) : Nat := b.stop - b.start

/-- The unconsumed bytes. -/
def slice (b : ReadBuffer) : Bytes := (b.buf.drop b.start).take b.available

@[simp] theorem slice_length (b : ReadBuffer) : b.slice.length = b.available := by
  have h₁ := b.start_le_stop
  have h₂ := b.stop_le_length
  simp only [slice, available, List.length_take, List.length_drop]
  omega

/-- Overwrite a vector from `pos` on with bytes that fit there. -/
def writeAt (buf : Bytes) (pos : Nat) (bytes : Bytes) : Bytes :=
  buf.take pos ++ bytes ++ buf.drop (pos + bytes.length)

theorem writeAt_length {buf : Bytes} {pos : Nat} {bytes : Bytes}
    (h : pos + bytes.length ≤ buf.length) : (writeAt buf pos bytes).length = buf.length := by
  simp only [writeAt, List.length_append, List.length_take, List.length_drop]
  omega

/-- `discard_leading_nulls`: the number of zero bytes dropped from the front of the window. -/
def leadingNulls (b : ReadBuffer) : Nat := (b.slice.takeWhile (· == 0)).length

theorem leadingNulls_le (b : ReadBuffer) : b.leadingNulls ≤ b.available := by
  rw [← slice_length]
  exact (List.takeWhile_sublist _).length_le

def discardLeadingNulls (b : ReadBuffer) : Nat × ReadBuffer :=
  (b.leadingNulls,
    { b with
      start := b.start + b.leadingNulls
      start_le_stop := by
        have h₁ := b.leadingNulls_le
        have h₂ := b.start_le_stop
        simp only [available] at h₁
        omega })

/-- Move the window to the front of a vector of the given size. -/
def rebuild (b : ReadBuffer) (size : Nat) (_ : b.available ≤ size) : ReadBuffer where
  buf := b.slice ++ List.replicate (size - b.available) 0
  start := 0
  stop := b.available
  start_le_stop := Nat.zero_le _
  stop_le_length := by simp

@[simp] theorem rebuild_length (b : ReadBuffer) (size : Nat) (h : b.available ≤ size) :
    (b.rebuild size h).buf.length = size := by
  simp only [rebuild, List.length_append, slice_length, List.length_replicate]
  omega

/-- `copy_within` of the window to offset zero; the bytes behind it keep what they were. -/
def compact (b : ReadBuffer) : ReadBuffer where
  buf := writeAt b.buf 0 b.slice
  start := 0
  stop := b.available
  start_le_stop := Nat.zero_le _
  stop_le_length := by
    have h₁ := b.stop_le_length
    rw [writeAt_length] <;> simp only [slice_length, available] <;> omega

@[simp] theorem compact_length (b : ReadBuffer) : b.compact.buf.length = b.buf.length := by
  have h := b.stop_le_length
  simp only [compact]
  rw [writeAt_length]
  simp only [slice_length, available]
  omega

/-- `ensure_capacity`: room at the tail, else compaction, else geometric growth. -/
def ensureCapacity (b : ReadBuffer) (needed : Nat) : ReadBuffer :=
  if needed ≤ b.buf.length - b.stop then b
  else if needed ≤ b.buf.length - b.available then b.compact
  else b.rebuild (max (max (b.buf.length * 2) (b.available + needed)) 65536) (by omega)

/-- Store a chunk just read behind the window. -/
def append (b : ReadBuffer) (chunk : Bytes) (h : chunk.length ≤ b.buf.length - b.stop) :
    ReadBuffer where
  buf := writeAt b.buf b.stop chunk
  start := b.start
  stop := b.stop + chunk.length
  start_le_stop := Nat.le_trans b.start_le_stop (Nat.le_add_right _ _)
  stop_le_length := by
    have h₁ := b.stop_le_length
    rw [writeAt_length] <;> omega

@[simp] theorem append_length (b : ReadBuffer) (chunk : Bytes)
    (h : chunk.length ≤ b.buf.length - b.stop) : (b.append chunk h).buf.length = b.buf.length := by
  have h₁ := b.stop_le_length
  exact writeAt_length (by omega)

/-- The loop of `ensure_data`, entered once the vector has room for `n` bytes. -/
def fillLoop (n : Nat) (b : ReadBuffer) (s : Stream) : NzResult Unit × ReadBuffer × Stream :=
  if n ≤ b.available then (.ok (), b, s)
  else
    match h : s.read (b.buf.length - b.stop) with
    | (.ok [], s') => (.error (.closed "Socket closed/ended during read"), b, s')
    | (.ok (byte :: chunk), s') =>
        fillLoop n (b.append (byte :: chunk) (Stream.read_length_le h)) s'
    | (.error .interrupted, s') => fillLoop n b s'
    | (.error kind, s') => (.error (.io kind), b, s')
termination_by s.weight
decreasing_by
  · exact Stream.read_weight_lt h (List.cons_ne_nil _ _)
  · exact Stream.read_failed_weight_lt h

/-- `check_len`: a request must fit `i32` and the protocol limit. -/
def checkLen (n : Nat) (field : String) : NzResult Unit :=
  if 2 ^ 31 ≤ n then
    .error (.protocol s!"Invalid backend protocol length for '{field}': {n}; maximum supported payload is {maxProtocolPayload} bytes. The connection is no longer safe to reuse; reconnect is required.")
  else (validateProtocolLength n field true).map fun _ => ()

/-- `ensure_data`: at least `n` buffered bytes, reading from the socket as needed. -/
def ensureData (b : ReadBuffer) (s : Stream) (n : Nat) : NzResult Unit × ReadBuffer × Stream :=
  match checkLen n "buffer read" with
  | .error e => (.error e, b, s)
  | .ok () =>
      if n ≤ b.available then (.ok (), b, s)
      else
        let b' := if b.buf.length - b.start < n then b.ensureCapacity (b.start + n) else b
        fillLoop n b' s

/-- Move the window start over `n` buffered bytes, as `advance` does. -/
def advance (b : ReadBuffer) (n : Nat) : ReadBuffer :=
  { b with
    start := min (b.start + n) b.stop
    start_le_stop := Nat.min_le_right _ _ }

/-- `skip` consumes `n` bytes that are buffered or can be read. -/
def skip (b : ReadBuffer) (s : Stream) (n : Nat) : NzResult Unit × ReadBuffer × Stream :=
  match checkLen n "buffer skip" with
  | .error e => (.error e, b, s)
  | .ok () =>
      match b.ensureData s n with
      | (.error e, b', s') => (.error e, b', s')
      | (.ok (), b', s') => (.ok (), b'.advance n, s')

/-- The first `n` unconsumed bytes, and the buffer with them consumed. -/
def consume (b : ReadBuffer) (s : Stream) (n : Nat) : NzResult Bytes × ReadBuffer × Stream :=
  match b.ensureData s n with
  | (.error e, b', s') => (.error e, b', s')
  | (.ok (), b', s') => (.ok (b'.slice.take n), b'.advance n, s')

def readByte (b : ReadBuffer) (s : Stream) : NzResult UInt8 × ReadBuffer × Stream :=
  match b.consume s 1 with
  | (r, b', s') => (r.map fun bytes => bytes.headD 0, b', s')

def readI32 (b : ReadBuffer) (s : Stream) : NzResult Int × ReadBuffer × Stream :=
  match b.consume s 4 with
  | (r, b', s') => (r.map ByteString.beInt, b', s')

/-- `read_bytes`, which checks the length under its own name first. -/
def readBytes (b : ReadBuffer) (s : Stream) (n : Nat) : NzResult Bytes × ReadBuffer × Stream :=
  match checkLen n "buffer read" with
  | .error e => (.error e, b, s)
  | .ok () => b.consume s n

/-- `peek_bytes` borrows without consuming. -/
def peekBytes (b : ReadBuffer) (s : Stream) (n : Nat) : NzResult Bytes × ReadBuffer × Stream :=
  match b.ensureData s n with
  | (.error e, b', s') => (.error e, b', s')
  | (.ok (), b', s') => (.ok (b'.slice.take n), b', s')

/-- The loop of `pull_available`, which stops at the end of the stream or when it would block. -/
def pullLoop (pulled : Nat) (b : ReadBuffer) (s : Stream) : NzResult Nat × ReadBuffer × Stream :=
  let b' := b.ensureCapacity 4096
  match h : s.read (b'.buf.length - b'.stop) with
  | (.ok [], s') => (.ok pulled, b', s')
  | (.ok (byte :: chunk), s') =>
      pullLoop (pulled + (byte :: chunk).length)
        (b'.append (byte :: chunk) (Stream.read_length_le h)) s'
  | (.error .wouldBlock, s') => (.ok pulled, b', s')
  | (.error kind, s') => (.error (.io kind), b', s')
termination_by s.weight
decreasing_by
  exact Stream.read_weight_lt h (List.cons_ne_nil _ _)

def pullAvailable (b : ReadBuffer) (s : Stream) : NzResult Nat × ReadBuffer × Stream :=
  pullLoop 0 b s

/-- `shrink_if_large`: back to 64 KiB once a burst has been consumed. -/
def shrinkIfLarge (b : ReadBuffer) : ReadBuffer :=
  if b.buf.length ≤ 262144 then b
  else if 65536 < b.available then b
  else b.rebuild (max 65536 b.available) (Nat.le_max_right _ _)

end ReadBuffer

end NzRust
