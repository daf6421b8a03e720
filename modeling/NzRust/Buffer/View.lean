import NzRust.Buffer.ReadBuffer

/-!
# What a reader sees of a stream

A read buffer shows its caller one sequence of bytes and failures: the window,
then what the socket still has. `viewRead` is a read on that sequence. The
theorems say that the buffer implements it, so that neither the chunks of the
stream nor the vector behind the window can be seen through its operations.
-/

namespace NzRust

/-- One byte, or an interruption of the stream: a failed read, or its end. -/
inductive Item where
  | byte (b : UInt8)
  | stop (kind : Option IoErrorKind)
  deriving DecidableEq, Repr

abbrev View := List Item

def bytesView (bytes : Bytes) : View :=
  bytes.map Item.byte

/-- What a stream shows to a reader that retries the failures of `retries`. -/
def Stream.items (retries : IoErrorKind → Bool) : Stream → View
  | [] => []
  | .data [] :: rest => .stop none :: items retries rest
  | .data (b :: bs) :: rest => bytesView (b :: bs) ++ items retries rest
  | .failed kind :: rest =>
      if retries kind then items retries rest else .stop (some kind) :: items retries rest

def stopError (closed : String) : Option IoErrorKind → NzError
  | none => .closed closed
  | some kind => .io kind

/-- Takes `n` bytes off the view; an interruption before them is consumed in their place. -/
def viewRead (closed : String) : Nat → View → NzResult Bytes × View
  | 0, view => (.ok [], view)
  | _ + 1, [] => (.error (.closed closed), [])
  | _ + 1, .stop kind :: rest => (.error (stopError closed kind), rest)
  | n + 1, .byte b :: rest =>
      match viewRead closed n rest with
      | (.ok bytes, rest') => (.ok (b :: bytes), rest')
      | (.error e, rest') => (.error e, .byte b :: rest')

@[simp] theorem bytesView_append (a b : Bytes) :
    bytesView (a ++ b) = bytesView a ++ bytesView b := List.map_append

theorem bytesView_cons_append (b : UInt8) (bytes : Bytes) (view : View) :
    bytesView (b :: bytes) ++ view = .byte b :: (bytesView bytes ++ view) := rfl

theorem viewRead_bytes {closed : String} {n : Nat} {bytes : Bytes} (h : n ≤ bytes.length)
    (view : View) :
    viewRead closed n (bytesView bytes ++ view) =
      (.ok (bytes.take n), bytesView (bytes.drop n) ++ view) := by
  induction n generalizing bytes with
  | zero => simp [viewRead]
  | succ n ih =>
      cases bytes with
      | nil => simp at h
      | cons b bs =>
          have hrest := ih (show n ≤ bs.length by simpa using h)
          simp only [bytesView, List.map_cons, List.cons_append, viewRead] at hrest ⊢
          rw [hrest]
          rfl

/-- Bytes that do not suffice are put back before whatever follows them. -/
theorem viewRead_short {closed : String} {n : Nat} {bytes : Bytes} (h : bytes.length < n)
    {view view' : View} {e : NzError}
    (hstop : viewRead closed (n - bytes.length) view = (.error e, view')) :
    viewRead closed n (bytesView bytes ++ view) = (.error e, bytesView bytes ++ view') := by
  induction bytes generalizing n with
  | nil => simpa [bytesView] using hstop
  | cons b bs ih =>
      obtain ⟨m, rfl⟩ : ∃ m, n = m + 1 := ⟨n - 1, by simp only [List.length_cons] at h; omega⟩
      have hrest := ih (n := m) (by simpa using h) (by simpa using hstop)
      simp only [bytesView, List.map_cons, List.cons_append, viewRead] at hrest ⊢
      rw [hrest]

theorem viewRead_length_le (closed : String) (n : Nat) (view : View) :
    (viewRead closed n view).2.length ≤ view.length := by
  fun_induction viewRead closed n view <;> simp_all ; omega

theorem viewRead_length_lt {closed : String} {n : Nat} {view : View} {bytes : Bytes}
    (h : (viewRead closed (n + 1) view).1 = .ok bytes) :
    (viewRead closed (n + 1) view).2.length < view.length := by
  cases view with
  | nil => cases h
  | cons item rest =>
      cases item with
      | stop kind => cases h
      | byte b =>
          have hle := viewRead_length_le closed n rest
          unfold viewRead at h ⊢
          rcases hrest : viewRead closed n rest with ⟨result, left⟩
          rw [hrest] at h hle
          cases result with
          | error e => cases h
          | ok bytes' => exact Nat.lt_succ_of_le hle

namespace Stream

variable {retries : IoErrorKind → Bool} {space : Nat} {s s' : Stream}

theorem items_data {chunk : Bytes} (h : chunk ≠ []) (rest : Stream) :
    items retries (.data chunk :: rest) = bytesView chunk ++ items retries rest := by
  cases chunk with
  | nil => exact absurd rfl h
  | cons b bs => rfl

theorem read_items_data {chunk : Bytes} (hc : chunk ≠ [])
    (h : s.read space = (.ok chunk, s')) :
    s.items retries = bytesView chunk ++ s'.items retries := by
  unfold read at h
  split at h
  · cases h
    exact absurd rfl hc
  · split at h
    case isTrue =>
      cases h
      exact items_data hc _
    case isFalse whole rest hlong =>
      cases h
      have hwhole : whole ≠ [] := by
        intro hnil
        simp [hnil] at hlong
      have hdrop : whole.drop space ≠ [] := by
        simp only [ne_eq, List.drop_eq_nil_iff]
        omega
      rw [items_data hwhole, items_data hdrop, ← List.append_assoc, ← bytesView_append,
        List.take_append_drop]
  · cases h

theorem read_items_end (hspace : 0 < space) (h : s.read space = (.ok [], s')) :
    (s.items retries = [] ∧ s' = []) ∨ s.items retries = .stop none :: s'.items retries := by
  unfold read at h
  split at h
  · cases h
    exact .inl ⟨rfl, rfl⟩
  case h_2 chunk rest =>
    split at h
    · obtain ⟨hchunk, rfl⟩ := Prod.mk.inj h
      cases hchunk
      exact .inr rfl
    case isFalse hlong =>
      obtain ⟨hchunk, rfl⟩ := Prod.mk.inj h
      have hnil : chunk.take space = [] := Except.ok.inj hchunk
      rcases List.take_eq_nil_iff.mp hnil with hzero | hempty
      · omega
      · simp [hempty] at hlong
  · cases h

theorem read_items_failed {kind : IoErrorKind} (h : s.read space = (.error kind, s')) :
    s.items retries =
      if retries kind then s'.items retries else .stop (some kind) :: s'.items retries := by
  unfold read at h
  split at h
  · cases h
  · split at h <;> cases h
  · cases h
    rfl

end Stream

namespace ReadBuffer

/-! ## The window -/

theorem append_slice (b : ReadBuffer) (chunk : Bytes)
    (h : chunk.length ≤ b.buf.length - b.stop) : (b.append chunk h).slice = b.slice ++ chunk := by
  have h₁ := b.start_le_stop
  have h₂ := b.stop_le_length
  have hsplit : b.buf.take b.stop = b.buf.take b.start ++ b.slice := by
    have hlen : b.stop = b.start + b.available := by
      simp only [available]
      omega
    rw [hlen, List.take_add]
    rfl
  have havail : (b.append chunk h).available = b.available + chunk.length := by
    simp only [available, append]
    omega
  have hbuf : (b.append chunk h).buf =
      b.buf.take b.start ++ (b.slice ++ chunk ++ b.buf.drop (b.stop + chunk.length)) := by
    show writeAt b.buf b.stop chunk = _
    simp only [writeAt, hsplit, List.append_assoc]
  have hstart : (b.append chunk h).start = (b.buf.take b.start).length := by
    rw [List.length_take]
    show b.start = _
    omega
  rw [slice, hbuf, hstart, List.drop_left, havail]
  apply List.take_left'
  simp

theorem rebuild_slice (b : ReadBuffer) (size : Nat) (h : b.available ≤ size) :
    (b.rebuild size h).slice = b.slice := by
  have havail : (b.rebuild size h).available = b.slice.length := by
    simp [available, rebuild]
  rw [slice, havail]
  show ((b.slice ++ _).drop 0).take _ = _
  rw [List.drop_zero, List.take_left]

theorem compact_slice (b : ReadBuffer) : b.compact.slice = b.slice := by
  have havail : b.compact.available = b.slice.length := by
    simp [available, compact]
  rw [slice, havail]
  show ((writeAt b.buf 0 b.slice).drop 0).take _ = _
  rw [List.drop_zero, writeAt, List.take_zero, List.nil_append, List.take_left]

theorem ensureCapacity_slice (b : ReadBuffer) (needed : Nat) :
    (b.ensureCapacity needed).slice = b.slice := by
  unfold ensureCapacity
  split
  · rfl
  split
  · exact b.compact_slice
  · exact b.rebuild_slice _ _

theorem advance_slice (b : ReadBuffer) {n : Nat} (h : n ≤ b.available) :
    (b.advance n).slice = b.slice.drop n := by
  have h₁ := b.start_le_stop
  simp only [slice, advance, available] at *
  have hmin : min (b.start + n) b.stop = b.start + n := by omega
  rw [hmin, List.drop_take, List.drop_drop]
  congr 1
  omega

/-! ## Reading -/

def closedMessage : String := "Socket closed/ended during read"

/-- The failures that the read loop retries. -/
def retries (kind : IoErrorKind) : Bool :=
  kind == .interrupted

def view (b : ReadBuffer) (s : Stream) : View :=
  bytesView b.slice ++ s.items retries

/-- A fill that succeeds leaves the view as it was; one that fails stands where `viewRead` does. -/
theorem fillLoop_view (n : Nat) (b : ReadBuffer) (s : Stream) (hroom : b.start + n ≤ b.buf.length) :
    match fillLoop n b s with
    | (.ok (), b', s') => b'.view s' = b.view s ∧ n ≤ b'.available
    | (.error e, b', s') => viewRead closedMessage n (b.view s) = (.error e, b'.view s') := by
  fun_induction fillLoop n b s with
  | case1 b s h => exact ⟨rfl, h⟩
  | case2 b s h s' hread =>
      have hspace : 0 < b.buf.length - b.stop := by
        simp only [available] at h
        omega
      have hshort : b.slice.length < n := by
        rw [slice_length]
        omega
      apply viewRead_short hshort
      obtain ⟨k, hk⟩ : ∃ k, n - b.slice.length = k + 1 := ⟨n - b.slice.length - 1, by omega⟩
      rw [hk]
      have hend : (s.items retries = [] ∧ s' = []) ∨ s.items retries = .stop none :: s'.items retries :=
        Stream.read_items_end hspace hread
      rcases hend with ⟨hnil, rfl⟩ | hstop
      · rw [hnil]
        rfl
      · rw [hstop]
        rfl
  | case3 b s h byte chunk s' hread ih =>
      have hview : (b.append (byte :: chunk) (Stream.read_length_le hread)).view s' = b.view s := by
        rw [view, view, append_slice, bytesView_append, List.append_assoc,
          Stream.read_items_data (List.cons_ne_nil _ _) hread]
      have hnext := ih (by rw [append_length]; exact hroom)
      rw [hview] at hnext
      exact hnext
  | case4 b s h s' hread ih =>
      have hview : b.view s' = b.view s := by
        rw [view, view, Stream.read_items_failed hread]
        rfl
      have hnext := ih hroom
      rw [hview] at hnext
      exact hnext
  | case5 b s h kind s' hkind hread =>
      have hshort : b.slice.length < n := by
        rw [slice_length]
        omega
      apply viewRead_short hshort
      obtain ⟨k, hk⟩ : ∃ k, n - b.slice.length = k + 1 := ⟨n - b.slice.length - 1, by omega⟩
      have hretry : retries kind = false := by
        cases kind <;> first | rfl | exact absurd rfl hkind
      rw [hk, Stream.read_items_failed hread, hretry]
      rfl

theorem ensureCapacity_room (b : ReadBuffer) (n : Nat) (h : b.buf.length - b.start < n) :
    (b.ensureCapacity (b.start + n)).start + n ≤ (b.ensureCapacity (b.start + n)).buf.length := by
  have h₁ := b.start_le_stop
  have h₂ := b.stop_le_length
  unfold ensureCapacity
  split
  · omega
  split
  case isTrue hfit =>
    simp only [available] at hfit
    omega
  · rw [rebuild_length]
    show 0 + n ≤ _
    omega

/-- `ensure_data` keeps the view, or fails as the view does. -/
theorem ensureData_view (b : ReadBuffer) (s : Stream) {n : Nat}
    (hn : checkLen n "buffer read" = .ok ()) :
    match b.ensureData s n with
    | (.ok (), b', s') => b'.view s' = b.view s ∧ n ≤ b'.available
    | (.error e, b', s') => viewRead closedMessage n (b.view s) = (.error e, b'.view s') := by
  unfold ensureData
  rw [hn]
  by_cases h : n ≤ b.available
  · simp only [h, if_true]
    exact ⟨trivial, trivial⟩
  · simp only [h, if_false]
    by_cases hgrow : b.buf.length - b.start < n
    · simp only [hgrow, if_true]
      have hkeep : (b.ensureCapacity (b.start + n)).view s = b.view s := by
        rw [view, view, ensureCapacity_slice]
      rw [← hkeep]
      exact fillLoop_view n _ s (b.ensureCapacity_room n hgrow)
    · simp only [hgrow, if_false]
      have hroom : b.start + n ≤ b.buf.length := by
        have h₁ := b.start_le_stop
        have h₂ := b.stop_le_length
        simp only [available] at h
        omega
      exact fillLoop_view n b s hroom

/-- A read of the buffer is a read of its view. -/
theorem consume_view (b : ReadBuffer) (s : Stream) {n : Nat}
    (hn : checkLen n "buffer read" = .ok ()) :
    ((b.consume s n).1, (b.consume s n).2.1.view (b.consume s n).2.2) =
      viewRead closedMessage n (b.view s) := by
  have h := b.ensureData_view s hn
  unfold consume
  split
  case h_1 e b' s' heq =>
    rw [heq] at h
    exact h.symm
  case h_2 b' s' heq =>
    rw [heq] at h
    obtain ⟨hview, havail⟩ := h
    have hlen : n ≤ b'.slice.length := by
      rw [slice_length]
      exact havail
    show (_, (b'.advance n).view s') = _
    rw [← hview]
    unfold view
    rw [viewRead_bytes hlen, advance_slice b' havail]

/-- What `discard_leading_nulls` drops are zero bytes in front of the rest of the view. -/
theorem discardLeadingNulls_view (b : ReadBuffer) (s : Stream) :
    b.view s = bytesView (List.replicate b.leadingNulls 0) ++ b.discardLeadingNulls.2.view s := by
  have hzeros : b.slice.takeWhile (· == 0) = List.replicate b.leadingNulls 0 := by
    rw [List.eq_replicate_iff]
    refine ⟨rfl, fun x hx => ?_⟩
    simpa using List.all_eq_true.mp List.all_takeWhile x hx
  have hstart := b.leadingNulls_le
  have hadvance : b.discardLeadingNulls.2.slice = b.slice.drop b.leadingNulls := by
    rw [← advance_slice b hstart]
    have hstop : min (b.start + b.leadingNulls) b.stop = b.start + b.leadingNulls := by
      have h₁ := b.start_le_stop
      simp only [available] at hstart
      omega
    simp only [slice, available, discardLeadingNulls, advance, hstop]
  have hdrop : b.slice.drop b.leadingNulls = b.slice.dropWhile (· == 0) := by
    conv => lhs; rw [← List.takeWhile_append_dropWhile (p := (· == 0)) (l := b.slice)]
    exact List.drop_left
  rw [view, view, hadvance, hdrop, ← hzeros, ← List.append_assoc, ← bytesView_append,
    List.takeWhile_append_dropWhile]

end ReadBuffer

end NzRust
