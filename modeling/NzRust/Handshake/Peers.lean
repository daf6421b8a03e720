import NzRust.Buffer.View
import NzRust.Handshake.Common

/-!
# What the two handshakes read from

Each engine keeps a buffer in front of its transport. An upgrade replaces the
transport and leaves the buffer alone, as both engines do. `readAhead` says on
the socket's chunks alone what that buffer then still holds.
-/

namespace NzRust

/-! ## Whole chunks in front of a position -/

namespace Stream

/-- The next chunk that holds a byte, and what follows it. -/
def nextChunk : Stream → Bytes × Stream
  | [] => ([], [])
  | .failed _ :: rest => nextChunk rest
  | .data [] :: rest => nextChunk rest
  | .data (b :: bs) :: rest => (b :: bs, rest)

/-- The rest of the chunk in which the first `n` bytes end, and what follows that chunk. -/
def after : Stream → Nat → Bytes × Stream
  | s, 0 => ([], s)
  | [], _ + 1 => ([], [])
  | .failed _ :: rest, n + 1 => after rest (n + 1)
  | .data chunk :: rest, n + 1 =>
      if chunk.length < n + 1 then after rest (n + 1 - chunk.length)
      else (chunk.drop (n + 1), rest)

/-- The bytes that arrive in one read with the last of the first `n`. -/
def readAhead (s : Stream) (n : Nat) : Bytes :=
  (s.after n).1

@[simp] theorem after_zero (s : Stream) : s.after 0 = ([], s) := by
  cases s with
  | nil => rfl
  | cons event rest => cases event <;> rfl

theorem after_one (s : Stream) : s.after 1 = (s.nextChunk.1.tail, s.nextChunk.2) := by
  induction s with
  | nil => rfl
  | cons event rest ih =>
      cases event with
      | failed kind => exact ih
      | data chunk =>
          cases chunk with
          | nil => exact ih
          | cons b bs => simp [after, nextChunk]

/-- One byte further: within the same chunk, or in the next one. -/
theorem after_succ (s : Stream) (n : Nat) :
    s.after (n + 1) =
      match s.after n with
      | (_ :: bytes, rest) => (bytes, rest)
      | ([], rest) => rest.after 1 := by
  induction s generalizing n with
  | nil => cases n <;> rfl
  | cons event rest ih =>
      cases n with
      | zero => simp
      | succ n =>
          cases event with
          | failed kind => exact ih (n + 1)
          | data chunk =>
              by_cases hshort : chunk.length < n + 1
              · have hnext : chunk.length < n + 1 + 1 := by omega
                have hsub : n + 1 + 1 - chunk.length = n + 1 - chunk.length + 1 := by omega
                simp only [after, hshort, hnext, if_true]
                rw [hsub, ih]
              · by_cases hlast : chunk.length < n + 1 + 1
                · have hdrop : chunk.drop (n + 1) = [] := List.drop_eq_nil_of_le (by omega)
                  have hone : n + 1 + 1 - chunk.length = 1 := by omega
                  simp only [after, hshort, hlast, if_true, if_false, hdrop, hone]
                · have hlt : n + 1 < chunk.length := by omega
                  simp only [after, hshort, hlast, if_false]
                  rw [List.drop_eq_getElem_cons hlt]

end Stream

namespace Handshake

open Wire

/-! ## Buffers -/

/-- A buffer in front of a socket. -/
structure Reader (β : Type) where
  fresh : β
  window : β → Bytes
  read : Nat → β → Stream → NzResult Bytes × β × Stream

/-- The synchronous engine reads through a `ReadBuffer`. -/
def syncReader : Reader ReadBuffer where
  fresh := ReadBuffer.new
  window := ReadBuffer.slice
  read n b s := b.consume s n

def maxBufferedFrame : Nat := 128 * 1024 * 1024

/-- The loop of `fill`: each event is one `read_buf`, whatever spare capacity it found. -/
def fillLoop (needed : Nat) : Stream → Bytes → NzResult Unit × Bytes × Stream
  | s, buffer =>
      if needed ≤ buffer.length then (.ok (), buffer, s)
      else
        match s with
        | [] => (.error (.closed "socket closed during async read"), buffer, [])
        | .data [] :: rest => (.error (.closed "socket closed during async read"), buffer, rest)
        | .data (b :: bs) :: rest => fillLoop needed rest (buffer ++ b :: bs)
        | .failed kind :: rest => (.error (.io kind), buffer, rest)

def fill (needed : Nat) (buffer : Bytes) (s : Stream) : NzResult Unit × Bytes × Stream :=
  if maxBufferedFrame < needed then (.error (.protocol "async frame is too large"), buffer, s)
  else fillLoop needed s buffer

/-- The asynchronous engine splits what it needs off a `BytesMut`. -/
def nativeReader : Reader Bytes where
  fresh := []
  window buffer := buffer
  read n buffer s :=
    match fill n buffer s with
    | (.error e, buffer', s') => (.error e, buffer', s')
    | (.ok (), buffer', s') => (.ok (buffer'.take n), buffer'.drop n, s')

/-! ## Transports -/

/-- The plaintext socket with what the TLS handshake on it would yield, or the TLS session. -/
inductive Transport where
  | plain (s : Stream) (next : NzResult Stream)
  | tls (s : Stream)

/-- `upgrade_tls`; a transport that is TLS already is kept. -/
def Transport.upgrade : Transport → NzResult Unit × Transport
  | .plain _ (.ok secure) => (.ok (), .tls secure)
  | .plain s (.error e) => (.error e, .plain s (.error e))
  | .tls s => (.ok (), .tls s)

variable {β : Type}

/-- The session of an engine. The buffer is not touched by an upgrade. -/
def Reader.peer (R : Reader β) : Peer NzError (β × Transport) where
  read n session :=
    match session.2 with
    | .plain s next =>
        let r := R.read n session.1 s
        (r.1, r.2.1, .plain r.2.2 next)
    | .tls s =>
        let r := R.read n session.1 s
        (r.1, r.2.1, .tls r.2.2)
  upgrade session := (session.2.upgrade.1, session.1, session.2.upgrade.2)

/-! ## Reads depend on the view only -/

/-- A reader serves a view: up to a check on the requested length, its reads are `viewRead`. -/
structure Reader.Serves (R : Reader β) (retries : IoErrorKind → Bool) (closed : String)
    (check : Nat → NzResult Unit) : Prop where
  rejects : ∀ n b s e, check n = .error e → R.read n b s = (.error e, b, s)
  reads : ∀ n b s, check n = .ok () →
    ((R.read n b s).1, bytesView (R.window (R.read n b s).2.1) ++ (R.read n b s).2.2.items retries) =
      viewRead closed n (bytesView (R.window b) ++ s.items retries)

/-- The peer that a session looks like once its transport stays. -/
def viewPeer (closed : String) (check : Nat → NzResult Unit) : Peer NzError View where
  read n view :=
    match check n with
    | .error e => (.error e, view)
    | .ok () => viewRead closed n view
  upgrade view := (.ok (), view)

/-- After the upgrade a run is the run over the window followed by the TLS stream. -/
theorem Reader.Serves.run_tls {R : Reader β} {retries : IoErrorKind → Bool} {closed : String}
    {check : Nat → NzResult Unit} (h : R.Serves retries closed check) {α : Type} (prog : Step α)
    (b : β) (s : Stream) :
    (prog.run R.peer (b, .tls s)).outcome =
        (prog.run (viewPeer closed check) (bytesView (R.window b) ++ s.items retries)).outcome ∧
      (prog.run R.peer (b, .tls s)).sent =
        (prog.run (viewPeer closed check) (bytesView (R.window b) ++ s.items retries)).sent := by
  have hsim := run_sim (P := R.peer) (Q := viewPeer closed check)
    (fun session view => ∃ stream, session.2 = .tls stream ∧
      view = bytesView (R.window session.1) ++ stream.items retries) ?_ ?_ prog
    (s := (b, .tls s)) ⟨s, rfl, rfl⟩
  · exact ⟨hsim.1, hsim.2.1⟩
  · rintro n ⟨b, transport⟩ view ⟨stream, rfl, rfl⟩
    cases hcheck : check n with
    | error e =>
        have hread := h.rejects n b stream e hcheck
        simp only [Reader.peer, viewPeer, hcheck, hread]
        exact ⟨trivial, stream, rfl, rfl⟩
    | ok u =>
        have hread := h.reads n b stream hcheck
        simp only [Reader.peer, viewPeer, hcheck, ← hread]
        exact ⟨trivial, _, rfl, rfl⟩
  · rintro ⟨b, transport⟩ view ⟨stream, rfl, rfl⟩
    exact ⟨rfl, stream, rfl, rfl⟩

/-- A session whose transport is settled. -/
def Reader.port (R : Reader β) : Peer NzError (β × Stream) where
  read n session := R.read n session.1 session.2
  upgrade session := (.ok (), session)

/-- A run of a settled session is the run over its view. -/
theorem Reader.Serves.run_port {R : Reader β} {retries : IoErrorKind → Bool} {closed : String}
    {check : Nat → NzResult Unit} (h : R.Serves retries closed check) {α : Type} (prog : Step α)
    (b : β) (s : Stream) :
    let run := prog.run R.port (b, s)
    let viewRun := prog.run (viewPeer closed check) (bytesView (R.window b) ++ s.items retries)
    run.outcome = viewRun.outcome ∧ run.sent = viewRun.sent ∧
      viewRun.peer = bytesView (R.window run.peer.1) ++ run.peer.2.items retries := by
  have hsim := run_sim (P := R.port) (Q := viewPeer closed check)
    (fun session view => view = bytesView (R.window session.1) ++ session.2.items retries) ?_ ?_ prog
    (s := (b, s)) rfl
  · exact hsim
  · rintro n ⟨b, s⟩ view rfl
    cases hcheck : check n with
    | error e =>
        have hread := h.rejects n b s e hcheck
        simp only [Reader.port, viewPeer, hcheck, hread]
        exact ⟨trivial, trivial⟩
    | ok u =>
        have hread := h.reads n b s hcheck
        simp only [Reader.port, viewPeer, hcheck, ← hread]
        exact ⟨trivial, trivial⟩
  · rintro ⟨b, s⟩ view rfl
    exact ⟨rfl, rfl⟩

/-- `ensure_data` refuses the same lengths for every read of the synchronous buffer. -/
theorem syncReader_serves :
    syncReader.Serves ReadBuffer.retries ReadBuffer.closedMessage
      (ReadBuffer.checkLen · "buffer read") where
  rejects n b s e h := by
    show b.consume s n = _
    unfold ReadBuffer.consume ReadBuffer.ensureData
    rw [h]
  reads n b s h := b.consume_view s h

def asyncClosedMessage : String := "socket closed during async read"

def asyncCheck (n : Nat) : NzResult Unit :=
  if maxBufferedFrame < n then .error (.protocol "async frame is too large") else .ok ()

theorem fillLoop_view (needed : Nat) (s : Stream) (buffer : Bytes) :
    match fillLoop needed s buffer with
    | (.ok (), buffer', s') =>
        bytesView buffer' ++ s'.items (fun _ => false) =
          bytesView buffer ++ s.items (fun _ => false) ∧ needed ≤ buffer'.length
    | (.error e, buffer', s') =>
        viewRead asyncClosedMessage needed (bytesView buffer ++ s.items (fun _ => false)) =
          (.error e, bytesView buffer' ++ s'.items (fun _ => false)) := by
  fun_induction fillLoop needed s buffer with
  | case1 s buffer h => exact ⟨rfl, h⟩
  | case2 buffer h =>
      obtain ⟨k, hk⟩ : ∃ k, needed - buffer.length = k + 1 := ⟨needed - buffer.length - 1, by omega⟩
      refine viewRead_short (by omega) ?_
      rw [hk]
      rfl
  | case3 buffer h rest =>
      obtain ⟨k, hk⟩ : ∃ k, needed - buffer.length = k + 1 := ⟨needed - buffer.length - 1, by omega⟩
      refine viewRead_short (by omega) ?_
      rw [hk]
      rfl
  | case4 buffer h b bs rest ih =>
      have hview : bytesView (buffer ++ b :: bs) ++ Stream.items (fun _ => false) rest =
          bytesView buffer ++ Stream.items (fun _ => false) (.data (b :: bs) :: rest) := by
        rw [bytesView_append, List.append_assoc]
        rfl
      rw [hview] at ih
      exact ih
  | case5 buffer h kind rest =>
      obtain ⟨k, hk⟩ : ∃ k, needed - buffer.length = k + 1 := ⟨needed - buffer.length - 1, by omega⟩
      refine viewRead_short (by omega) ?_
      rw [hk]
      rfl

theorem nativeReader_serves :
    nativeReader.Serves (fun _ => false) asyncClosedMessage asyncCheck where
  rejects n b s e h := by
    unfold asyncCheck at h
    split at h
    case isTrue hlarge =>
      cases h
      simp only [nativeReader, fill, hlarge, if_true]
    case isFalse => cases h
  reads n b s h := by
    have hsmall : ¬ maxBufferedFrame < n := by
      intro hlarge
      simp [asyncCheck, hlarge] at h
    have hfill := fillLoop_view n s b
    simp only [nativeReader, fill, hsmall, if_false]
    cases hcase : fillLoop n s b with
    | mk result left =>
        rw [hcase] at hfill
        cases result with
        | error e => exact hfill.symm
        | ok u =>
            obtain ⟨hview, hlen⟩ := hfill
            rw [← hview, viewRead_bytes hlen]

/-! ## The window after one-byte reads -/

/-- Where a byte further leads from a partly read chunk. -/
def further : Bytes × Stream → Bytes × Stream
  | (_ :: bytes, rest) => (bytes, rest)
  | ([], rest) => rest.after 1

theorem further_after (s : Stream) (n : Nat) : further (s.after n) = s.after (n + 1) := by
  rw [s.after_succ n]
  cases s.after n with
  | mk bytes rest => cases bytes <;> rfl

theorem fillLoop_of_le {needed : Nat} {buffer : Bytes} (h : needed ≤ buffer.length) (s : Stream) :
    fillLoop needed s buffer = (.ok (), buffer, s) := by
  unfold fillLoop
  rw [if_pos h]

theorem native_read_one {r : Bytes} {s : Stream} {b : UInt8} {v : View}
    (h : bytesView r ++ s.items (fun _ => false) = .byte b :: v) :
    nativeReader.read 1 r s = (.ok [b], further (r, s)) := by
  cases r with
  | cons c r =>
      cases h
      have hfill := fillLoop_of_le (show 1 ≤ (b :: r).length by simp) s
      simp [nativeReader, fill, maxBufferedFrame, further, hfill]
  | nil =>
      cases s with
      | nil => cases h
      | cons event rest =>
          cases event with
          | failed kind => cases h
          | data chunk =>
              cases chunk with
              | nil => cases h
              | cons c bs =>
                  cases h
                  have hfill := fillLoop_of_le (show 1 ≤ (b :: bs).length by simp) rest
                  simp [nativeReader, fill, fillLoop, maxBufferedFrame, further, Stream.after, hfill]

/-- Reading byte by byte, the asynchronous buffer holds the rest of the current chunk. -/
theorem native_takes (plain : Stream) (next : NzResult Stream) (p : Bytes) (k : Nat) {rest : View}
    (hview : bytesView (plain.after k).1 ++ (plain.after k).2.items (fun _ => false) =
      bytesView p ++ rest) :
    Takes nativeReader.peer ((plain.after k).1, .plain (plain.after k).2 next) p
      ((plain.after (k + p.length)).1, .plain (plain.after (k + p.length)).2 next) := by
  induction p generalizing k with
  | nil => exact .nil _
  | cons b p ih =>
      have hone := native_read_one hview
      have hserved := nativeReader_serves.reads 1 (plain.after k).1 (plain.after k).2 rfl
      rw [hone, further_after] at hserved
      have hrest : bytesView (plain.after (k + 1)).1 ++
          (plain.after (k + 1)).2.items (fun _ => false) = bytesView p ++ rest := by
        have hsnd := congrArg Prod.snd hserved
        simp only [nativeReader] at hsnd
        rw [hsnd, hview]
        exact congrArg Prod.snd (viewRead_bytes (show 1 ≤ (b :: p).length by simp) rest)
      have htail := ih (k + 1) hrest
      have hlen : k + 1 + p.length = k + (b :: p).length := by
        simp only [List.length_cons]
        omega
      rw [hlen] at htail
      refine .cons ?_ ?_
      · show (nativeReader.read 1 _ _).1 = _
        rw [hone]
      · show Takes _ ((nativeReader.read 1 _ _).2.1, Transport.plain (nativeReader.read 1 _ _).2.2 next) _ _
        rw [hone, further_after]
        exact htail

/-- The synchronous buffer over a partly read chunk; a chunk that did not fit its vector has
its rest on the socket. -/
def Stands (b : ReadBuffer) (s : Stream) (chunk : Bytes × Stream) : Prop :=
  b.buf.length = 65536 ∧
    ((b.slice = chunk.1 ∧ s = chunk.2) ∨
      ∃ cut, cut ≠ [] ∧ chunk.1 = b.slice ++ cut ∧ s = .data cut :: chunk.2 ∧ b.stop = 65536)

theorem append_empty_slice {b : ReadBuffer} (hb : b.slice = []) (bytes : Bytes)
    (h : bytes.length ≤ b.buf.length - b.stop) : (b.append bytes h).slice = bytes := by
  rw [ReadBuffer.append_slice, hb, List.nil_append]

theorem readBuffer_fillLoop_of_le {n : Nat} {b : ReadBuffer} (h : n ≤ b.available) (s : Stream) :
    ReadBuffer.fillLoop n b s = (.ok (), b, s) := by
  unfold ReadBuffer.fillLoop
  rw [if_pos h]

theorem readBuffer_fillLoop_data {n : Nat} {b : ReadBuffer} {s s' : Stream} {byte : UInt8}
    {chunk : Bytes} (h : ¬ n ≤ b.available)
    (hread : s.read (b.buf.length - b.stop) = (.ok (byte :: chunk), s')) :
    ReadBuffer.fillLoop n b s =
      ReadBuffer.fillLoop n (b.append (byte :: chunk) (Stream.read_length_le hread)) s' := by
  conv => lhs; unfold ReadBuffer.fillLoop
  rw [if_neg h]
  split
  case h_2 heq =>
    rw [hread] at heq
    cases heq
    rfl
  all_goals
    rename_i heq
    rw [hread] at heq
    cases heq

/-- An empty buffer takes in the next chunk, or as much of it as fits. -/
theorem fillLoop_stands {b : ReadBuffer} {s : Stream} {x : UInt8} {v : View}
    (hlen : b.buf.length = 65536) (hroom : b.stop < 65536) (hempty : b.slice = [])
    (hview : s.items ReadBuffer.retries = .byte x :: v) :
    ∃ b' s', ReadBuffer.fillLoop 1 b s = (.ok (), b', s') ∧ b'.start = b.start ∧
      Stands b' s' s.nextChunk := by
  have havail : ¬ 1 ≤ b.available := by
    rw [← ReadBuffer.slice_length, hempty]
    simp
  induction s with
  | nil => cases hview
  | cons event rest ih =>
      cases event with
      | failed kind =>
          by_cases hkind : kind = .interrupted
          · subst hkind
            obtain ⟨b', s', hfill, hrest⟩ := ih hview
            refine ⟨b', s', ?_, hrest⟩
            rw [← hfill]
            conv => lhs; unfold ReadBuffer.fillLoop
            rw [if_neg havail]
            rfl
          · have hstop : ReadBuffer.retries kind = false := by simp [ReadBuffer.retries, hkind]
            simp [Stream.items, hstop] at hview
      | data chunk =>
          cases chunk with
          | nil => cases hview
          | cons c bs =>
              by_cases hfit : (c :: bs).length ≤ b.buf.length - b.stop
              · have hread : Stream.read (b.buf.length - b.stop) (.data (c :: bs) :: rest) =
                    (.ok (c :: bs), rest) := by
                  simp only [Stream.read, hfit, if_true]
                have hslice := append_empty_slice hempty (c :: bs) hfit
                rw [readBuffer_fillLoop_data havail hread, readBuffer_fillLoop_of_le]
                · refine ⟨_, _, rfl, rfl, ?_, .inl ⟨hslice, rfl⟩⟩
                  rw [ReadBuffer.append_length, hlen]
                · rw [← ReadBuffer.slice_length, hslice]
                  simp
              · obtain ⟨space, hspace⟩ : ∃ space, b.buf.length - b.stop = space + 1 :=
                  ⟨b.buf.length - b.stop - 1, by omega⟩
                have hread : Stream.read (b.buf.length - b.stop) (.data (c :: bs) :: rest) =
                    (.ok (c :: bs.take space), .data (bs.drop space) :: rest) := by
                  simp only [Stream.read, hfit, if_false]
                  rw [hspace]
                  rfl
                have hbound := Stream.read_length_le hread
                have hslice := append_empty_slice hempty (c :: bs.take space) hbound
                rw [readBuffer_fillLoop_data havail hread, readBuffer_fillLoop_of_le]
                · refine ⟨_, _, rfl, rfl, ?_, .inr ⟨bs.drop space, ?_, ?_, rfl, ?_⟩⟩
                  · rw [ReadBuffer.append_length, hlen]
                  · simp only [List.length_cons] at hfit
                    simp only [ne_eq, List.drop_eq_nil_iff]
                    omega
                  · rw [hslice]
                    simp [Stream.nextChunk]
                  · show b.stop + (c :: bs.take space).length = 65536
                    simp only [List.length_cons, List.length_take] at hfit ⊢
                    omega
                · rw [← ReadBuffer.slice_length, hslice]
                  simp

theorem advance_stands {b : ReadBuffer} {s : Stream} {chunk : Bytes × Stream}
    (h : Stands b s chunk) (havail : 1 ≤ b.available) :
    Stands (b.advance 1) s (chunk.1.tail, chunk.2) := by
  obtain ⟨hlen, hrest⟩ := h
  have hslice : (b.advance 1).slice = b.slice.tail := by
    rw [ReadBuffer.advance_slice b havail, List.drop_one]
  have hne : b.slice ≠ [] := by
    intro hnil
    rw [← ReadBuffer.slice_length, hnil] at havail
    simp at havail
  refine ⟨hlen, ?_⟩
  rcases hrest with ⟨hfst, hsnd⟩ | ⟨cut, hcut, hfst, hsnd, hstop⟩
  · exact .inl ⟨by rw [hslice, hfst], hsnd⟩
  · refine .inr ⟨cut, hcut, ?_, hsnd, hstop⟩
    rw [hslice, hfst, List.tail_append_of_ne_nil hne]

theorem advance_start {b : ReadBuffer} (havail : 1 ≤ b.available) :
    (b.advance 1).start = b.start + 1 := by
  show min (b.start + 1) b.stop = b.start + 1
  simp only [ReadBuffer.available] at havail
  omega

theorem sync_read_one {b : ReadBuffer} {s : Stream} {chunk : Bytes × Stream} {x : UInt8} {v : View}
    (hstands : Stands b s chunk) (hstart : b.start < 65536) (hview : b.view s = .byte x :: v) :
    ∃ b' s', b.consume s 1 = (.ok [x], b', s') ∧ b'.start = b.start + 1 ∧
      Stands b' s' (further chunk) ∧ b'.view s' = v := by
  have hread := b.consume_view s (n := 1) rfl
  rw [hview] at hread
  have hvalue : (b.consume s 1).1 = .ok [x] := congrArg Prod.fst hread
  have hrest : (b.consume s 1).2.1.view (b.consume s 1).2.2 = v := congrArg Prod.snd hread
  suffices hnext : (b.consume s 1).2.1.start = b.start + 1 ∧
      Stands (b.consume s 1).2.1 (b.consume s 1).2.2 (further chunk) from
    ⟨_, _, Prod.ext hvalue rfl, hnext.1, hnext.2, hrest⟩
  by_cases havail : 1 ≤ b.available
  · have hdata : b.ensureData s 1 = (.ok (), b, s) := by
      simp only [ReadBuffer.ensureData, havail, if_true]
      rfl
    have hfurther : further chunk = (chunk.1.tail, chunk.2) := by
      obtain ⟨bytes, rest⟩ := chunk
      cases bytes with
      | cons c bytes => rfl
      | nil =>
          exfalso
          rw [← ReadBuffer.slice_length] at havail
          rcases hstands.2 with ⟨hfst, -⟩ | ⟨cut, hcut, hfst, -⟩
          · simp [hfst] at havail
          · simp [hcut] at hfst
    simp only [ReadBuffer.consume, hdata, hfurther]
    exact ⟨advance_start havail, advance_stands hstands havail⟩
  · have hstop : b.stop = b.start := by
      have h₁ := b.start_le_stop
      simp only [ReadBuffer.available] at havail
      omega
    have hempty : b.slice = [] := by
      rw [← List.length_eq_zero_iff, ReadBuffer.slice_length]
      omega
    obtain ⟨hlen, ⟨hfst, hsnd⟩ | ⟨cut, -, -, -, hfull⟩⟩ := hstands
    · have hitems : s.items ReadBuffer.retries = .byte x :: v := by
        rw [ReadBuffer.view, hempty] at hview
        exact hview
      obtain ⟨b', s', hfill, hsame, hstands'⟩ :=
        fillLoop_stands hlen (by omega) hempty hitems
      have hdata : b.ensureData s 1 = (.ok (), b', s') := by
        have hfits : ¬ b.buf.length - b.start < 1 := by omega
        simp only [ReadBuffer.ensureData, havail, hfits, if_false, hfill]
        rfl
      have havail' : 1 ≤ b'.available := by
        have hfilled := ReadBuffer.fillLoop_view 1 b s (by omega)
        rw [hfill] at hfilled
        exact hfilled.2
      have hfurther : further chunk = (s.nextChunk.1.tail, s.nextChunk.2) := by
        obtain ⟨bytes, rest⟩ := chunk
        simp only at hfst hsnd
        rw [← hfst, hempty, ← hsnd]
        exact s.after_one
      simp only [ReadBuffer.consume, hdata, hfurther]
      exact ⟨(advance_start havail').trans (by rw [hsame]), advance_stands hstands' havail'⟩
    · omega

/-- Reading byte by byte within the first vector, the synchronous buffer stands in the current
chunk. -/
theorem sync_takes (p : Bytes) {plain s : Stream} {b : ReadBuffer} {k : Nat}
    {rest : View} (hstands : Stands b s (plain.after k)) (hstart : b.start = k)
    (hlen : k + p.length ≤ 65536) (hview : b.view s = bytesView p ++ rest) :
    ∃ b' s', (∀ next, Takes syncReader.peer (b, .plain s next) p (b', .plain s' next)) ∧
      Stands b' s' (plain.after (k + p.length)) ∧ b'.start = k + p.length := by
  induction p generalizing b s k with
  | nil => exact ⟨b, s, fun _ => .nil _, hstands, hstart⟩
  | cons x p ih =>
      have hsmall : b.start < 65536 := by
        simp only [List.length_cons] at hlen
        omega
      obtain ⟨b₁, s₁, hread, hstart₁, hstands₁, hview₁⟩ := sync_read_one hstands hsmall hview
      rw [further_after] at hstands₁
      have hsum : k + 1 + p.length = k + (x :: p).length := by
        simp only [List.length_cons]
        omega
      obtain ⟨b', s', htakes, hfinal⟩ :=
        ih hstands₁ (by rw [hstart₁, hstart]) (by omega) hview₁
      rw [hsum] at hfinal
      refine ⟨b', s', fun next => .cons ?_ ?_, hfinal⟩
      · show (b.consume s 1).1 = _
        rw [hread]
      · show Takes _ ((b.consume s 1).2.1, Transport.plain (b.consume s 1).2.2 next) _ _
        rw [hread]
        exact htakes next

/-- Within the first vector an empty window means that the current chunk is used up. -/
theorem slice_eq_nil_iff {b : ReadBuffer} {s : Stream} {chunk : Bytes × Stream}
    (h : Stands b s chunk) (hstart : b.start < 65536) : b.slice = [] ↔ chunk.1 = [] := by
  rcases h.2 with ⟨hfst, -⟩ | ⟨cut, hcut, hfst, -, hstop⟩
  · rw [hfst]
  · have hne : b.slice ≠ [] := by
      intro hnil
      have hlen := b.slice_length
      rw [hnil] at hlen
      simp only [List.length_nil, ReadBuffer.available] at hlen
      omega
    simp [hfst, hne]

theorem slice_le {b : ReadBuffer} {s : Stream} {chunk : Bytes × Stream} (h : Stands b s chunk) :
    b.slice <+: chunk.1 := by
  rcases h.2 with ⟨hfst, -⟩ | ⟨cut, -, hfst, -⟩
  · exact ⟨[], by rw [hfst, List.append_nil]⟩
  · exact ⟨cut, hfst.symm⟩

end Handshake

end NzRust
