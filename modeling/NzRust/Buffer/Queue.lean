import NzRust.Buffer.View
import NzRust.Lib.Transition

/-!
# The read buffer as a byte queue

The abstract object is a queue of bytes: what a caller has not consumed yet. A
call takes a prefix off the queue and replies with what it took, or fails and
takes nothing. The buffer over a socket refines it: its queue is the window
followed by every byte the socket will still deliver, and no call of any run
changes that queue but by taking its prefix. The only exception is `advance`
with a length that overflows `usize`.
-/

namespace NzRust

/-- Every byte a stream will still deliver. -/
def Stream.bytes : Stream → Bytes
  | [] => []
  | .data chunk :: rest => chunk ++ bytes rest
  | .failed _ :: rest => bytes rest

theorem Stream.read_bytes {space : Nat} {s s' : Stream} {chunk : Bytes}
    (h : s.read space = (.ok chunk, s')) : s.bytes = chunk ++ s'.bytes := by
  unfold read at h
  split at h
  · cases h
    rfl
  · split at h
    · cases h
      rfl
    · cases h
      simp only [bytes, ← List.append_assoc, List.take_append_drop]
  · cases h

theorem Stream.read_failed_bytes {space : Nat} {s s' : Stream} {kind : IoErrorKind}
    (h : s.read space = (.error kind, s')) : s.bytes = s'.bytes := by
  unfold read at h
  split at h
  · cases h
  · split at h <;> cases h
  · cases h
    rfl

namespace ReadBuffer

/-! ## Calls -/

/-- The calls of a run. -/
inductive Call where
  | readByte
  | readI32
  | readBytes (n : Nat)
  | readBytesInto (n : Nat) (out : Bytes)
  | skip (n : Nat)
  | peekBytes (n : Nat)
  | advance (n : Nat)
  | discardLeadingNulls
  | pullAvailable
  | take
  | shrinkIfLarge

/-- What a call hands back. -/
inductive Reply where
  | byte (b : UInt8)
  | int (v : Int)
  | bytes (bytes : Bytes)
  | count (n : Nat)
  | done
  deriving DecidableEq

/-- `read_bytes_into`: the destination is overwritten only when the bytes are there. -/
def readBytesInto (b : ReadBuffer) (s : Stream) (n : Nat) (out : Bytes) :
    NzResult Unit × Bytes × ReadBuffer × Stream :=
  match b.readBytes s n with
  | (.error e, b', s') => (.error e, out, b', s')
  | (.ok bytes, b', s') => (.ok (), bytes, b', s')

/-- `advance` with the addition of a release build, which wraps; a debug build panics there. -/
def advanceWrapping (b : ReadBuffer) (n : Nat) : ReadBuffer :=
  { b with
    start := min ((b.start + n) % 2 ^ 64) b.stop
    start_le_stop := Nat.min_le_right _ _ }

/-- One call: its reply, and the buffer and the socket after it. The buffer that `take` moves
out is the one used afterwards. -/
def call (b : ReadBuffer) (s : Stream) : Call → NzResult Reply × ReadBuffer × Stream
  | .readByte =>
      match b.readByte s with
      | (r, b', s') => (r.map .byte, b', s')
  | .readI32 =>
      match b.readI32 s with
      | (r, b', s') => (r.map .int, b', s')
  | .readBytes n =>
      match b.readBytes s n with
      | (r, b', s') => (r.map .bytes, b', s')
  | .readBytesInto n out =>
      match b.readBytesInto s n out with
      | (r, out', b', s') => (r.map fun _ => .bytes out', b', s')
  | .skip n =>
      match b.skip s n with
      | (r, b', s') => (r.map fun _ => .done, b', s')
  | .peekBytes n =>
      match b.peekBytes s n with
      | (r, b', s') => (r.map .bytes, b', s')
  | .advance n => (.ok .done, b.advanceWrapping n, s)
  | .discardLeadingNulls => (.ok (.count b.discardLeadingNulls.1), b.discardLeadingNulls.2, s)
  | .pullAvailable =>
      match b.pullAvailable s with
      | (r, b', s') => (r.map .count, b', s')
  | .take => (.ok .done, b.take.1, s)
  | .shrinkIfLarge => (.ok .done, b.shrinkIfLarge, s)

/-! ## The slices passed to `read` -/

/-- The lengths of the slices that the loop of `ensure_data` passes to `read`. -/
def fillSpaces (n : Nat) (b : ReadBuffer) (s : Stream) : List Nat :=
  if n ≤ b.available then []
  else
    match h : s.read (b.buf.length - b.stop) with
    | (.ok (byte :: chunk), s') =>
        (b.buf.length - b.stop) ::
          fillSpaces n (b.append (byte :: chunk) (Stream.read_length_le h)) s'
    | (.error .interrupted, s') => (b.buf.length - b.stop) :: fillSpaces n b s'
    | (_, _) => [b.buf.length - b.stop]
termination_by s.weight
decreasing_by
  · exact Stream.read_weight_lt h (List.cons_ne_nil _ _)
  · exact Stream.read_failed_weight_lt h

/-- The lengths of the slices that the loop of `pull_available` passes to `read`. -/
def pullSpaces (b : ReadBuffer) (s : Stream) : List Nat :=
  let b' := b.ensureCapacity 4096
  match h : s.read (b'.buf.length - b'.stop) with
  | (.ok (byte :: chunk), s') =>
      (b'.buf.length - b'.stop) ::
        pullSpaces (b'.append (byte :: chunk) (Stream.read_length_le h)) s'
  | (_, _) => [b'.buf.length - b'.stop]
termination_by s.weight
decreasing_by
  exact Stream.read_weight_lt h (List.cons_ne_nil _ _)

/-- The same of one `ensure_data`. -/
def ensureSpaces (b : ReadBuffer) (s : Stream) (n : Nat) : List Nat :=
  match checkLen n "buffer read" with
  | .error _ => []
  | .ok () =>
      if n ≤ b.available then []
      else fillSpaces n
        (if b.buf.length - b.start < n then b.ensureCapacity (b.start + n) else b) s

/-- The same of a call. A `skip` beyond the protocol limit stops before it reads. -/
def callSpaces (b : ReadBuffer) (s : Stream) : Call → List Nat
  | .readByte => b.ensureSpaces s 1
  | .readI32 => b.ensureSpaces s 4
  | .readBytes n | .readBytesInto n _ | .skip n | .peekBytes n => b.ensureSpaces s n
  | .pullAvailable => b.pullSpaces s
  | .advance _ | .discardLeadingNulls | .take | .shrinkIfLarge => []

theorem fillSpaces_pos (n : Nat) (b : ReadBuffer) (s : Stream)
    (hroom : b.start + n ≤ b.buf.length) : ∀ space ∈ fillSpaces n b s, 0 < space := by
  have hspace {b : ReadBuffer} (hroom : b.start + n ≤ b.buf.length) (h : ¬ n ≤ b.available) :
      0 < b.buf.length - b.stop := by
    have h₁ := b.start_le_stop
    simp only [available] at h
    omega
  fun_induction fillSpaces n b s with
  | case1 b s h => simp
  | case2 b s h byte chunk s' hread ih =>
      have hrest := ih (by rw [append_length]; exact hroom)
      exact List.forall_mem_cons.mpr ⟨hspace hroom h, hrest⟩
  | case3 b s h s' hread ih => exact List.forall_mem_cons.mpr ⟨hspace hroom h, ih hroom⟩
  | case4 b s h _ _ _ _ => exact List.forall_mem_singleton.mpr (hspace hroom h)

/-- `ensure_capacity` leaves the requested room behind the window. -/
theorem ensureCapacity_tail (b : ReadBuffer) (needed : Nat) :
    needed ≤ (b.ensureCapacity needed).buf.length - (b.ensureCapacity needed).stop := by
  unfold ensureCapacity
  split
  case isTrue h => exact h
  split
  case isTrue h =>
    rw [compact_length]
    exact h
  · rw [rebuild_length]
    show needed ≤ _ - b.available
    omega

theorem pullSpaces_pos (b : ReadBuffer) (s : Stream) : ∀ space ∈ pullSpaces b s, 0 < space := by
  fun_induction pullSpaces b s with
  | case1 b s b' byte chunk s' hread ih =>
      have hspace : 4096 ≤ b'.buf.length - b'.stop := b.ensureCapacity_tail 4096
      simpa using ⟨by omega, ih⟩
  | case2 b s b' _ _ _ _ =>
      have hspace : 4096 ≤ b'.buf.length - b'.stop := b.ensureCapacity_tail 4096
      simp only [List.mem_singleton, forall_eq]
      omega

theorem ensureSpaces_pos (b : ReadBuffer) (s : Stream) (n : Nat) :
    ∀ space ∈ b.ensureSpaces s n, 0 < space := by
  unfold ensureSpaces
  split
  · simp
  split
  · simp
  case isFalse h =>
    apply fillSpaces_pos
    split
    case isTrue hgrow => exact b.ensureCapacity_room n hgrow
    case isFalse hfit =>
      have h₁ := b.start_le_stop
      have h₂ := b.stop_le_length
      simp only [available] at h
      omega

/-- No call passes an empty slice to `read`. -/
theorem callSpaces_pos (b : ReadBuffer) (s : Stream) (c : Call) :
    ∀ space ∈ b.callSpaces s c, 0 < space := by
  cases c with
  | readByte => exact b.ensureSpaces_pos s 1
  | readI32 => exact b.ensureSpaces_pos s 4
  | readBytes n => exact b.ensureSpaces_pos s n
  | readBytesInto n out => exact b.ensureSpaces_pos s n
  | skip n => exact b.ensureSpaces_pos s n
  | peekBytes n => exact b.ensureSpaces_pos s n
  | pullAvailable => exact b.pullSpaces_pos s
  | advance n => exact nofun
  | discardLeadingNulls => exact nofun
  | take => exact nofun
  | shrinkIfLarge => exact nofun

/-! ## The queue -/

/-- What a caller has not consumed: the window, then every byte the socket still delivers. -/
def queue (b : ReadBuffer) (s : Stream) : Bytes :=
  b.slice ++ s.bytes

theorem fillLoop_queue (n : Nat) (b : ReadBuffer) (s : Stream) :
    (fillLoop n b s).2.1.queue (fillLoop n b s).2.2 = b.queue s ∧
      ((fillLoop n b s).1 = .ok () → n ≤ (fillLoop n b s).2.1.available) := by
  fun_induction fillLoop n b s with
  | case1 b s h => exact ⟨rfl, fun _ => h⟩
  | case2 b s h s' hread =>
      refine ⟨?_, fun hfalse => by cases hfalse⟩
      show b.slice ++ s'.bytes = b.slice ++ s.bytes
      rw [Stream.read_bytes hread, List.nil_append]
  | case3 b s h byte chunk s' hread ih =>
      refine ⟨?_, ih.2⟩
      rw [ih.1, queue, queue, append_slice, List.append_assoc, Stream.read_bytes hread]
  | case4 b s h s' hread ih =>
      refine ⟨?_, ih.2⟩
      rw [ih.1, queue, queue, Stream.read_failed_bytes hread]
  | case5 b s h kind s' hkind hread =>
      refine ⟨?_, fun hfalse => by cases hfalse⟩
      show b.slice ++ s'.bytes = b.slice ++ s.bytes
      rw [Stream.read_failed_bytes hread]

theorem ensureData_queue (b : ReadBuffer) (s : Stream) (n : Nat) :
    (b.ensureData s n).2.1.queue (b.ensureData s n).2.2 = b.queue s ∧
      ((b.ensureData s n).1 = .ok () → n ≤ (b.ensureData s n).2.1.available) := by
  unfold ensureData
  split
  · exact ⟨rfl, nofun⟩
  split
  case isTrue h => exact ⟨rfl, fun _ => h⟩
  have hkeep : (if b.buf.length - b.start < n then b.ensureCapacity (b.start + n) else b).queue s =
      b.queue s := by
    split
    · rw [queue, queue, ensureCapacity_slice]
    · rfl
  have hloop := fillLoop_queue n
    (if b.buf.length - b.start < n then b.ensureCapacity (b.start + n) else b) s
  rw [hkeep] at hloop
  exact hloop

theorem pullLoop_queue (pulled : Nat) (b : ReadBuffer) (s : Stream) :
    (pullLoop pulled b s).2.1.queue (pullLoop pulled b s).2.2 = b.queue s := by
  fun_induction pullLoop pulled b s with
  | case1 pulled b s b' s' hread =>
      show b'.slice ++ s'.bytes = _
      rw [b.ensureCapacity_slice, queue, Stream.read_bytes hread, List.nil_append]
  | case2 pulled b s b' byte chunk s' hread ih =>
      rw [ih, queue, queue, append_slice, b.ensureCapacity_slice, List.append_assoc,
        Stream.read_bytes hread]
  | case3 pulled b s b' s' hread =>
      show b'.slice ++ s'.bytes = _
      rw [b.ensureCapacity_slice, queue, Stream.read_failed_bytes hread]
  | case4 pulled b s b' kind s' hkind hread =>
      show b'.slice ++ s'.bytes = _
      rw [b.ensureCapacity_slice, queue, Stream.read_failed_bytes hread]

end ReadBuffer

/-! ## The abstract queue -/

namespace Queue

open ReadBuffer

/-- How many bytes a call needs to succeed. -/
def needs : Call → Nat
  | .readByte => 1
  | .readI32 => 4
  | .readBytes n | .readBytesInto n _ | .skip n | .peekBytes n => n
  | _ => 0

/-- What a successful call replies, and the queue it leaves. `fetched` bytes of the queue have
arrived: `advance` and `discard_leading_nulls` look no further. -/
def call (q : Bytes) (fetched pulled : Nat) : Call → Reply × Bytes
  | .readByte => (.byte (q.headD 0), q.drop 1)
  | .readI32 => (.int (ByteString.beInt (q.take 4)), q.drop 4)
  | .readBytes n | .readBytesInto n _ => (.bytes (q.take n), q.drop n)
  | .skip n => (.done, q.drop n)
  | .peekBytes n => (.bytes (q.take n), q)
  | .advance n => (.done, q.drop (min n fetched))
  | .discardLeadingNulls =>
      let zeros := ((q.take fetched).takeWhile (· == 0)).length
      (.count zeros, q.drop zeros)
  | .pullAvailable => (.count pulled, q)
  | .take | .shrinkIfLarge => (.done, q)

/-- The queue follows a sequence of calls and their replies. A failed call leaves it alone. -/
inductive Follows : Bytes → List (Call × NzResult Reply) → Bytes → Prop where
  | nil (q : Bytes) : Follows q [] q
  | failed {q q' : Bytes} {c : Call} {e : NzError} {rest : List (Call × NzResult Reply)}
      (h : Follows q rest q') : Follows q ((c, .error e) :: rest) q'
  | replied {q q' : Bytes} {c : Call} {rest : List (Call × NzResult Reply)}
      (fetched pulled : Nat) (henough : needs c ≤ q.length)
      (h : Follows (call q fetched pulled c).2 rest q') :
      Follows q ((c, .ok (call q fetched pulled c).1) :: rest) q'

theorem Follows.cons_inv {q q' : Bytes} {c : Call} {reply : NzResult Reply}
    {rest : List (Call × NzResult Reply)} (h : Follows q ((c, reply) :: rest) q') :
    (∃ e, reply = .error e ∧ Follows q rest q') ∨
      ∃ fetched pulled, needs c ≤ q.length ∧ reply = .ok (call q fetched pulled c).1 ∧
        Follows (call q fetched pulled c).2 rest q' := by
  cases h with
  | failed h => exact .inl ⟨_, rfl, h⟩
  | replied fetched pulled henough h => exact .inr ⟨fetched, pulled, henough, rfl, h⟩

/-- Whatever the calls, what is left is a suffix of what was there. -/
theorem Follows.suffix {q q' : Bytes} {calls : List (Call × NzResult Reply)}
    (h : Follows q calls q') : q' <:+ q := by
  induction h with
  | nil q => exact List.suffix_refl q
  | failed _ ih => exact ih
  | @replied q q' c rest fetched pulled _ _ ih =>
      refine ih.trans ?_
      cases c with
      | peekBytes n => exact List.suffix_refl q
      | pullAvailable => exact List.suffix_refl q
      | take => exact List.suffix_refl q
      | shrinkIfLarge => exact List.suffix_refl q
      | _ => exact List.drop_suffix _ _

end Queue

namespace ReadBuffer

/-! ## Refinement -/

/-- One call as the queue sees it. -/
def Refines (b : ReadBuffer) (s : Stream) (c : Call)
    (result : NzResult Reply × ReadBuffer × Stream) : Prop :=
  match result with
  | (.error _, b', s') => b'.queue s' = b.queue s
  | (.ok reply, b', s') =>
      Queue.needs c ≤ (b.queue s).length ∧
        ∃ fetched pulled, (reply, b'.queue s') = Queue.call (b.queue s) fetched pulled c

theorem queue_take (b : ReadBuffer) (s : Stream) {n : Nat} (h : n ≤ b.available) :
    (b.queue s).take n = b.slice.take n := by
  rw [queue, List.take_append_of_le_length (by rw [slice_length]; exact h)]

theorem advance_queue (b : ReadBuffer) (s : Stream) {n : Nat} (h : n ≤ b.available) :
    (b.advance n).queue s = (b.queue s).drop n := by
  rw [queue, queue, advance_slice b h, List.drop_append_of_le_length (by rw [slice_length]; exact h)]

theorem available_le_queue (b : ReadBuffer) (s : Stream) : b.available ≤ (b.queue s).length := by
  rw [queue, List.length_append, slice_length]
  exact Nat.le_add_right _ _

/-- A read takes exactly what it asked for off the queue, or nothing. -/
theorem consume_queue (b : ReadBuffer) (s : Stream) (n : Nat) :
    match b.consume s n with
    | (.error _, b', s') => b'.queue s' = b.queue s
    | (.ok bytes, b', s') =>
        n ≤ (b.queue s).length ∧ bytes = (b.queue s).take n ∧ b'.queue s' = (b.queue s).drop n := by
  have hdata := b.ensureData_queue s n
  unfold consume
  rcases hensure : b.ensureData s n with ⟨result, b', s'⟩
  rw [hensure] at hdata
  obtain ⟨hqueue, hready⟩ := hdata
  cases result with
  | error e => exact hqueue
  | ok _ =>
      have havail : n ≤ b'.available := hready rfl
      show n ≤ (b.queue s).length ∧ b'.slice.take n = _ ∧ (b'.advance n).queue s' = _
      rw [← hqueue]
      exact ⟨Nat.le_trans havail (b'.available_le_queue s'), (b'.queue_take s' havail).symm,
        b'.advance_queue s' havail⟩

theorem readByte_refines (b : ReadBuffer) (s : Stream) : Refines b s .readByte (b.call s .readByte) := by
  have hconsume := b.consume_queue s 1
  rw [call, readByte]
  generalize b.consume s 1 = out at hconsume ⊢
  obtain ⟨result, b', s'⟩ := out
  cases result with
  | error e => exact hconsume
  | ok bytes =>
      obtain ⟨henough, rfl, hrest⟩ := hconsume
      refine ⟨henough, 0, 0, ?_⟩
      rw [hrest]
      show (Reply.byte (((b.queue s).take 1).headD 0), _) = (Reply.byte ((b.queue s).headD 0), _)
      cases b.queue s <;> rfl

theorem readI32_refines (b : ReadBuffer) (s : Stream) : Refines b s .readI32 (b.call s .readI32) := by
  have hconsume := b.consume_queue s 4
  rw [call, readI32]
  generalize b.consume s 4 = out at hconsume ⊢
  obtain ⟨result, b', s'⟩ := out
  cases result with
  | error e => exact hconsume
  | ok bytes =>
      obtain ⟨henough, rfl, hrest⟩ := hconsume
      refine ⟨henough, 0, 0, ?_⟩
      rw [hrest]
      rfl

theorem readBytes_queue (b : ReadBuffer) (s : Stream) (n : Nat) :
    match b.readBytes s n with
    | (.error _, b', s') => b'.queue s' = b.queue s
    | (.ok bytes, b', s') =>
        n ≤ (b.queue s).length ∧ bytes = (b.queue s).take n ∧ b'.queue s' = (b.queue s).drop n := by
  unfold readBytes
  cases checkLen n "buffer read" with
  | error e => rfl
  | ok _ => exact b.consume_queue s n

theorem readBytes_refines (b : ReadBuffer) (s : Stream) (n : Nat) :
    Refines b s (.readBytes n) (b.call s (.readBytes n)) := by
  have hread := b.readBytes_queue s n
  rw [call]
  generalize b.readBytes s n = out at hread ⊢
  obtain ⟨result, b', s'⟩ := out
  cases result with
  | error e => exact hread
  | ok bytes =>
      obtain ⟨henough, rfl, hrest⟩ := hread
      refine ⟨henough, 0, 0, ?_⟩
      rw [hrest]
      rfl

theorem readBytesInto_refines (b : ReadBuffer) (s : Stream) (n : Nat) (out : Bytes) :
    Refines b s (.readBytesInto n out) (b.call s (.readBytesInto n out)) := by
  have hread := b.readBytes_queue s n
  rw [call, readBytesInto]
  generalize b.readBytes s n = out at hread ⊢
  obtain ⟨result, b', s'⟩ := out
  cases result with
  | error e => exact hread
  | ok bytes =>
      obtain ⟨henough, rfl, hrest⟩ := hread
      refine ⟨henough, 0, 0, ?_⟩
      rw [hrest]
      rfl

theorem skip_refines (b : ReadBuffer) (s : Stream) (n : Nat) :
    Refines b s (.skip n) (b.call s (.skip n)) := by
  have hdata := b.ensureData_queue s n
  rw [call, skip]
  cases checkLen n "buffer skip" with
  | error e => exact rfl
  | ok _ =>
      generalize b.ensureData s n = out at hdata ⊢
      obtain ⟨result, b', s'⟩ := out
      obtain ⟨hqueue, hready⟩ := hdata
      cases result with
      | error e => exact hqueue
      | ok _ =>
          have havail : n ≤ b'.available := hready rfl
          refine ⟨?_, 0, 0, ?_⟩
          · rw [← hqueue]
            exact Nat.le_trans havail (b'.available_le_queue s')
          · show (Reply.done, (b'.advance n).queue s') = (Reply.done, (b.queue s).drop n)
            rw [b'.advance_queue s' havail, hqueue]

theorem peekBytes_refines (b : ReadBuffer) (s : Stream) (n : Nat) :
    Refines b s (.peekBytes n) (b.call s (.peekBytes n)) := by
  have hdata := b.ensureData_queue s n
  rw [call, peekBytes]
  generalize b.ensureData s n = out at hdata ⊢
  obtain ⟨result, b', s'⟩ := out
  obtain ⟨hqueue, hready⟩ := hdata
  cases result with
  | error e => exact hqueue
  | ok _ =>
      have havail : n ≤ b'.available := hready rfl
      refine ⟨?_, 0, 0, ?_⟩
      · rw [← hqueue]
        exact Nat.le_trans havail (b'.available_le_queue s')
      · show (Reply.bytes (b'.slice.take n), b'.queue s') = (Reply.bytes ((b.queue s).take n), b.queue s)
        rw [← b'.queue_take s' havail, hqueue]

/-- `advance` over a length that does not overflow. -/
theorem advanceWrapping_queue (b : ReadBuffer) (s : Stream) {n : Nat} (h : b.start + n < 2 ^ 64) :
    (b.advanceWrapping n).queue s = (b.queue s).drop (min n b.available) := by
  have h₁ := b.start_le_stop
  have hstart : min ((b.start + n) % 2 ^ 64) b.stop = min (b.start + min n b.available) b.stop := by
    rw [Nat.mod_eq_of_lt h]
    simp only [available]
    omega
  have hsame : b.advanceWrapping n = b.advance (min n b.available) := by
    simp only [advanceWrapping, advance, hstart]
  rw [hsame]
  exact b.advance_queue s (Nat.min_le_right _ _)

theorem discardLeadingNulls_refines (b : ReadBuffer) (s : Stream) :
    Refines b s .discardLeadingNulls (b.call s .discardLeadingNulls) := by
  refine ⟨Nat.zero_le _, b.available, 0, ?_⟩
  have hzeros : ((b.queue s).take b.available).takeWhile (· == 0) = b.slice.takeWhile (· == 0) := by
    rw [b.queue_take s (Nat.le_refl _), ← b.slice_length, List.take_length]
  have hstart : b.discardLeadingNulls.2 = b.advance b.leadingNulls := by
    have h₁ := b.start_le_stop
    have h₂ := b.leadingNulls_le
    simp only [available] at h₂
    have hmin : min (b.start + b.leadingNulls) b.stop = b.start + b.leadingNulls := by omega
    simp only [discardLeadingNulls, advance, hmin]
  show (Reply.count b.leadingNulls, b.discardLeadingNulls.2.queue s) = _
  rw [hstart, b.advance_queue s b.leadingNulls_le]
  simp only [Queue.call, hzeros]
  rfl

theorem pullAvailable_refines (b : ReadBuffer) (s : Stream) :
    Refines b s .pullAvailable (b.call s .pullAvailable) := by
  have hpull := pullLoop_queue 0 b s
  rw [call, pullAvailable]
  generalize pullLoop 0 b s = out at hpull ⊢
  obtain ⟨result, b', s'⟩ := out
  cases result with
  | error e => exact hpull
  | ok pulled =>
      refine ⟨Nat.zero_le _, 0, pulled, ?_⟩
      show (Reply.count pulled, b'.queue s') = (Reply.count pulled, b.queue s)
      rw [hpull]

theorem shrinkIfLarge_queue (b : ReadBuffer) (s : Stream) :
    b.shrinkIfLarge.queue s = b.queue s := by
  unfold shrinkIfLarge
  split
  · rfl
  split
  · rfl
  · rw [queue, queue, rebuild_slice]

/-- An `advance` must not overflow `usize`; the other calls check their lengths themselves. -/
def fits (b : ReadBuffer) : Call → Bool
  | .advance n => b.start + n < 2 ^ 64
  | _ => true

theorem call_refines (b : ReadBuffer) (s : Stream) (c : Call) (h : b.fits c = true) :
    Refines b s c (b.call s c) := by
  cases c with
  | readByte => exact b.readByte_refines s
  | readI32 => exact b.readI32_refines s
  | readBytes n => exact b.readBytes_refines s n
  | readBytesInto n out => exact b.readBytesInto_refines s n out
  | skip n => exact b.skip_refines s n
  | peekBytes n => exact b.peekBytes_refines s n
  | advance n =>
      refine ⟨Nat.zero_le _, b.available, 0, ?_⟩
      show (Reply.done, (b.advanceWrapping n).queue s) = _
      rw [b.advanceWrapping_queue s (of_decide_eq_true h)]
      rfl
  | discardLeadingNulls => exact b.discardLeadingNulls_refines s
  | pullAvailable => exact b.pullAvailable_refines s
  | take => exact ⟨Nat.zero_le _, 0, 0, rfl⟩
  | shrinkIfLarge =>
      refine ⟨Nat.zero_le _, 0, 0, ?_⟩
      show (Reply.done, b.shrinkIfLarge.queue s) = (Reply.done, b.queue s)
      rw [b.shrinkIfLarge_queue s]

/-! ## Whole runs -/

/-- A run of calls: each call with its reply, and where it leaves the buffer and the socket. -/
def calls (b : ReadBuffer) (s : Stream) :
    List Call → List (Call × NzResult Reply) × ReadBuffer × Stream
  | [] => ([], b, s)
  | c :: rest =>
      match b.call s c with
      | (reply, b', s') =>
          match calls b' s' rest with
          | (replies, b'', s'') => ((c, reply) :: replies, b'', s'')

/-- The slices passed to `read` along a run. -/
def callsSpaces (b : ReadBuffer) (s : Stream) : List Call → List Nat
  | [] => []
  | c :: rest =>
      match b.call s c with
      | (_, b', s') => b.callSpaces s c ++ callsSpaces b' s' rest

/-- No `advance` of the run overflows. -/
def Fits (b : ReadBuffer) (s : Stream) : List Call → Prop
  | [] => True
  | c :: rest => b.fits c = true ∧ Fits (b.call s c).2.1 (b.call s c).2.2 rest

theorem calls_follow (b : ReadBuffer) (s : Stream) (cs : List Call) (h : Fits b s cs) :
    Queue.Follows (b.queue s) (b.calls s cs).1
      ((b.calls s cs).2.1.queue (b.calls s cs).2.2) := by
  induction cs generalizing b s with
  | nil => exact .nil _
  | cons c rest ih =>
      obtain ⟨hfits, hrest⟩ := h
      have hcall := b.call_refines s c hfits
      have hnext := ih _ _ hrest
      unfold calls
      generalize b.call s c = out at hcall hnext ⊢
      obtain ⟨reply, b', s'⟩ := out
      cases reply with
      | error e =>
          rw [show b'.queue s' = b.queue s from hcall] at hnext
          exact .failed hnext
      | ok reply =>
          obtain ⟨henough, fetched, pulled, hspec⟩ := hcall
          obtain ⟨rfl, hqueue⟩ := Prod.mk.inj hspec
          rw [hqueue] at hnext
          exact .replied fetched pulled henough hnext

theorem callsSpaces_pos (b : ReadBuffer) (s : Stream) (cs : List Call) :
    ∀ space ∈ b.callsSpaces s cs, 0 < space := by
  induction cs generalizing b s with
  | nil => exact nofun
  | cons c rest ih =>
      intro space hspace
      rcases List.mem_append.mp hspace with hnow | hlater
      · exact b.callSpaces_pos s c space hnow
      · exact ih _ _ space hlater

theorem new_queue (s : Stream) : new.queue s = s.bytes := by
  rfl

/-- A chunk of two bytes read into a fresh buffer. -/
theorem new_fill :
    ∃ b, new.ensureData [.data [7, 8]] 1 = (.ok (), b, []) ∧ b.slice = [7, 8] ∧ b.start = 0 := by
  have hspace : new.buf.length - new.stop = 65536 := by
    rw [new_length]
    rfl
  have hlen : [7, 8].length ≤ new.buf.length - new.stop := by
    rw [hspace]
    decide
  have hread : Stream.read (new.buf.length - new.stop) [.data [7, 8]] = (.ok [7, 8], []) := by
    rw [hspace]
    rfl
  have hslice : (new.append [7, 8] hlen).slice = [7, 8] := new.append_slice [7, 8] hlen
  refine ⟨new.append [7, 8] hlen, ?_, hslice, rfl⟩
  have hgrow : ¬ new.buf.length - new.start < 1 := by
    rw [new_length]
    decide
  have hfilled : 1 ≤ (new.append [7, 8] hlen).available := by
    rw [← slice_length, hslice]
    decide
  have hloop : fillLoop 1 new [.data [7, 8]] = (.ok (), new.append [7, 8] hlen, []) := by
    unfold fillLoop
    rw [if_neg (by decide)]
    split
    case h_2 byte chunk s' heq =>
      rw [hread] at heq
      cases heq
      unfold fillLoop
      rw [if_pos hfilled]
    all_goals
      rename_i heq
      rw [hread] at heq
      cases heq
  have hcheck : checkLen 1 "buffer read" = .ok () := rfl
  have hempty : ¬ 1 ≤ new.available := by decide
  simp only [ensureData, hcheck, hempty, hgrow, if_false]
  exact hloop

end ReadBuffer

end NzRust
