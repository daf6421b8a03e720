import NzRust.Buffer.View
import NzRust.Lib.Transition

/-!
# Growth of the read buffer over whole runs

`ensure_data` asks `ensure_capacity` for `start + n` bytes behind a window that
already begins at `start`. The compaction branch then never applies: a request
that reaches past the end of the vector always doubles it. The first half of
the module bounds the vector along runs in which no request needs compaction,
the second half builds runs of one-byte reads that double it without end.
-/

namespace NzRust.ReadBuffer

open Transition

/-- The operations of a run, with the lengths they request. -/
inductive Op where
  | readByte
  | readI32
  | readBytes (n : Nat)
  | readBytesInto (n : Nat)
  | skip (n : Nat)
  | peekAdvance (n : Nat)
  deriving DecidableEq, Repr

def Op.requested : Op → Nat
  | .readByte => 1
  | .readI32 => 4
  | .readBytes n | .readBytesInto n | .skip n | .peekAdvance n => n

/-- What an operation leaves behind, whether it succeeds or fails. -/
def Op.apply (b : ReadBuffer) (s : Stream) : Op → ReadBuffer × Stream
  | .readByte => (b.readByte s).2
  | .readI32 => (b.readI32 s).2
  | .readBytes n | .readBytesInto n => (b.readBytes s n).2
  | .skip n => (b.skip s n).2
  | .peekAdvance n =>
      match b.peekBytes s n with
      | (.error _, b', s') => (b', s')
      | (.ok _, b', s') => (b'.advance n, s')

/-- Buffers over a socket with any chunking, starting from a fresh buffer. -/
def system : System (ReadBuffer × Stream) Op where
  initial st := st.1 = new
  step st op st' := st' = op.apply st.1 st.2

/-- Runs in which no request is longer than `N`. -/
def requestsUpTo (N : Nat) : System (ReadBuffer × Stream) Op :=
  system.guarded fun _ op => op.requested ≤ N

/-- The request is not buffered, reaches past the end of the vector, and would fit it compacted. -/
def NeedsCompaction (b : ReadBuffer) (n : Nat) : Prop :=
  b.available < n ∧ n ≤ b.buf.length ∧ b.buf.length < b.start + n

instance (b : ReadBuffer) (n : Nat) : Decidable (NeedsCompaction b n) :=
  inferInstanceAs (Decidable (_ ∧ _ ∧ _))

@[simp] theorem advance_length (b : ReadBuffer) (n : Nat) :
    (b.advance n).buf.length = b.buf.length := rfl

theorem fillLoop_length (n : Nat) (b : ReadBuffer) (s : Stream) :
    (fillLoop n b s).2.1.buf.length = b.buf.length := by
  fun_induction fillLoop n b s <;> simp_all

/-- Past the end of the vector `ensure_capacity (start + n)` finds no room at the tail and none
after compaction. -/
theorem ensureCapacity_grows {b : ReadBuffer} {n : Nat} (h : b.buf.length - b.start < n) :
    (b.ensureCapacity (b.start + n)).buf.length =
      max (max (b.buf.length * 2) (b.stop + n)) 65536 := by
  have h₁ := b.start_le_stop
  have h₂ := b.stop_le_length
  have hstop : b.available + (b.start + n) = b.stop + n := by
    simp only [available]
    omega
  unfold ensureCapacity
  rw [if_neg (by omega), if_neg (by simp only [available]; omega), rebuild_length, hstop]

/-- The vector after `ensure_data`: only a request past its end changes its length. -/
theorem ensureData_length (b : ReadBuffer) (s : Stream) (n : Nat) :
    (b.ensureData s n).2.1.buf.length = b.buf.length ∨
      (b.available < n ∧ b.buf.length < b.start + n ∧
        (b.ensureData s n).2.1.buf.length =
          max (max (b.buf.length * 2) (b.stop + n)) 65536) := by
  unfold ensureData
  cases checkLen n "buffer read" with
  | error e => exact .inl rfl
  | ok _ =>
      by_cases ha : n ≤ b.available
      · simp [ha]
      · by_cases hg : b.buf.length - b.start < n
        · right
          simp only [ha, hg, if_false, if_true, fillLoop_length, ensureCapacity_grows hg]
          exact ⟨by omega, by omega, trivial⟩
        · left
          simp only [ha, hg, if_false, fillLoop_length]

/-- Every operation changes the vector exactly as its one `ensure_data` call does. -/
theorem apply_length (b : ReadBuffer) (s : Stream) (op : Op) :
    (op.apply b s).1.buf.length = b.buf.length ∨
      (op.apply b s).1.buf.length = (b.ensureData s op.requested).2.1.buf.length := by
  have hconsume : ∀ n, (b.consume s n).2.1.buf.length =
      (b.ensureData s n).2.1.buf.length := by
    intro n
    unfold consume
    split <;> simp_all
  cases op with
  | readByte => exact .inr (by simpa [Op.apply, readByte, Op.requested] using hconsume 1)
  | readI32 => exact .inr (by simpa [Op.apply, readI32, Op.requested] using hconsume 4)
  | readBytes n | readBytesInto n =>
      simp only [Op.apply, readBytes, Op.requested]
      cases checkLen n "buffer read" with
      | error e => exact .inl rfl
      | ok _ => exact .inr (hconsume n)
  | skip n =>
      simp only [Op.apply, skip, Op.requested]
      cases checkLen n "buffer skip" with
      | error e => exact .inl rfl
      | ok _ =>
          right
          simp only
          split <;> simp_all
  | peekAdvance n =>
      right
      simp only [Op.apply, peekBytes, Op.requested]
      split <;> rename_i h <;> split at h <;> simp_all

/-- Without a request that needs compaction the vector only grows to twice a request it could
not hold. -/
theorem apply_bounded {N : Nat} {b : ReadBuffer} {s : Stream} {op : Op}
    (hN : op.requested ≤ N) (hfit : ¬ NeedsCompaction b op.requested)
    (hb : b.buf.length ≤ max 65536 (2 * N)) :
    (op.apply b s).1.buf.length ≤ max 65536 (2 * N) := by
  have hstop := b.stop_le_length
  rcases apply_length b s op with h | h
  · omega
  · rcases ensureData_length b s op.requested with h' | ⟨ha, hpast, h'⟩
    · omega
    · have hlarge : b.buf.length < op.requested := by
        by_contra hle
        exact hfit ⟨ha, by omega, hpast⟩
      omega

/-- Runs whose requests stay within `N` and never need compaction keep the vector within
`max 65536 (2 * N)`, whatever the socket delivers. -/
theorem length_le_of_no_compaction (N : Nat) (st : ReadBuffer × Stream)
    (h : ((requestsUpTo N).guarded
      fun st op => ¬ NeedsCompaction st.1 op.requested).Reachable st) :
    st.1.buf.length ≤ max 65536 (2 * N) := by
  refine h.invariant (P := fun st => st.1.buf.length ≤ max 65536 (2 * N)) ?_ ?_
  · intro st hinit
    rw [show st.1 = new from hinit, new_length]
    exact Nat.le_max_left _ _
  · rintro st op _ hb ⟨hfit, hN, rfl⟩
    exact apply_bounded hN hfit hb

theorem length_after_read_i32 :
    (Op.apply new [.data [0, 0, 0, 7, 9]] .readI32).1.buf.length ≤ max 65536 (2 * 4) := by
  have hfit : ¬ NeedsCompaction new Op.readI32.requested := by
    rintro ⟨-, -, h⟩
    rw [new_length] at h
    exact absurd h (by decide)
  have hstart : ((requestsUpTo 4).guarded fun st op => ¬ NeedsCompaction st.1 op.requested).Reachable
      (new, [.data [0, 0, 0, 7, 9]]) := .start rfl
  exact length_le_of_no_compaction 4 _ (hstart.move (a := .readI32) ⟨hfit, Nat.le_refl 4, rfl⟩)

/-! ## Runs of one-byte reads that double the vector -/

private theorem checkLen_one : checkLen 1 "buffer read" = .ok () := by
  simp [checkLen, validateProtocolLength, maxProtocolPayload, Except.map]

private theorem readByte_buffered {b : ReadBuffer} (s : Stream) (h : 1 ≤ b.available) :
    Op.readByte.apply b s = (b.advance 1, s) := by
  simp [Op.apply, readByte, consume, ensureData, checkLen_one, h]

/-- A full chunk that fits the space behind an empty window is taken in one read. -/
private theorem fillLoop_full {b : ReadBuffer} {chunk : Bytes} (rest : Stream)
    (hempty : b.available = 0) (hc : chunk ≠ [])
    (hfit : chunk.length ≤ b.buf.length - b.stop) :
    fillLoop 1 b (.data chunk :: rest) = (.ok (), b.append chunk hfit, rest) := by
  obtain ⟨byte, tail, rfl⟩ := List.exists_cons_of_ne_nil hc
  have hread : Stream.read (b.buf.length - b.stop) (.data (byte :: tail) :: rest) =
      (.ok (byte :: tail), rest) := by
    simp only [Stream.read]
    rw [if_pos hfit]
  have havail : 1 ≤ (b.append (byte :: tail) hfit).available := by
    have h₁ := b.start_le_stop
    simp only [available, append, List.length_cons] at *
    omega
  rw [fillLoop, if_neg (by omega)]
  split
  · rename_i h; rw [hread] at h; cases h
  · rename_i h
    rw [hread] at h
    cases h
    rw [fillLoop, if_pos havail]
  · rename_i h; rw [hread] at h; cases h
  · rename_i h; rw [hread] at h; cases h

/-- Buffered bytes can be read off one at a time without touching the vector. -/
private theorem run_buffered (k : Nat) {b : ReadBuffer} (s : Stream) (h : k ≤ b.available) :
    ∃ b', (requestsUpTo 1).Run (b, s) (List.replicate k .readByte) (b', s) ∧
      b'.buf.length = b.buf.length ∧ b'.start = b.start + k ∧ b'.stop = b.stop := by
  induction k generalizing b with
  | zero => exact ⟨b, .nil _, rfl, rfl, rfl⟩
  | succ k ih =>
      have hstart := b.start_le_stop
      have hnext : k ≤ (b.advance 1).available := by
        simp only [available, advance] at *
        omega
      obtain ⟨b', hrun, hlen, hs, he⟩ := ih hnext
      refine ⟨b', @System.Run.cons _ _ _ _ (b.advance 1, s) _ _ _ ⟨Nat.le_refl 1, ?_⟩ hrun, hlen, ?_, he⟩
      · exact (readByte_buffered s (by omega)).symm
      · rw [hs]
        simp only [available, advance] at *
        omega

/-- Reading one byte from an exhausted vector, then the rest of the chunk that fills the
doubled one. -/
private theorem run_doubles {b : ReadBuffer} (rest : Stream) (hlen : 65536 ≤ b.buf.length)
    (hend : b.start = b.buf.length) :
    ∃ b' as, (requestsUpTo 1).Run
        (b, .data (List.replicate (2 * b.buf.length) 0) :: rest) as (b', rest) ∧
      b'.buf.length = 2 * b.buf.length ∧ b'.start = b'.buf.length := by
  have h₁ := b.start_le_stop
  have h₂ := b.stop_le_length
  have hgrown : b.ensureCapacity (b.start + 1) =
      b.rebuild (2 * b.buf.length) (by simp only [available]; omega) := by
    unfold ensureCapacity
    rw [if_neg (by omega), if_neg (by simp only [available]; omega)]
    congr 1
    simp only [available]
    omega
  set g := b.rebuild (2 * b.buf.length) (by simp only [available]; omega) with hg
  have hempty : g.available = 0 := by
    simp only [hg, rebuild, available]
    omega
  have hgstop : g.stop = 0 := by
    simp only [hg, rebuild, available]
    omega
  have hglen : g.buf.length = 2 * b.buf.length := by rw [hg, rebuild_length]
  have hfit : (List.replicate (2 * b.buf.length) (0 : UInt8)).length ≤ g.buf.length - g.stop := by
    rw [List.length_replicate, hglen, hgstop]
    omega
  have hstep : Op.readByte.apply b (.data (List.replicate (2 * b.buf.length) 0) :: rest) =
      ((g.append _ hfit).advance 1, rest) := by
    have hne : List.replicate (2 * b.buf.length) (0 : UInt8) ≠ [] := by
      intro h
      have := congrArg List.length h
      rw [List.length_replicate, List.length_nil] at this
      omega
    have hfill := fillLoop_full rest hempty hne hfit
    have havail : ¬ 1 ≤ b.available := by simp only [available]; omega
    have hpast : b.buf.length - b.start < 1 := by omega
    simp only [Op.apply, readByte, consume, ensureData, checkLen_one, havail, hpast, if_false,
      if_true, hgrown, hfill]
  have hread : 2 * b.buf.length - 1 ≤ ((g.append _ hfit).advance 1).available := by
    simp only [available, advance, append, List.length_replicate, hg, rebuild]
    omega
  obtain ⟨b', hrun, hb', hstart, hstop⟩ := run_buffered _ rest hread
  refine ⟨b', _, .cons (a := Op.readByte) ⟨Nat.le_refl 1, hstep.symm⟩ hrun, ?_, ?_⟩
  · rw [hb', advance_length, append_length, hglen]
  · rw [hb', hstart, advance_length, append_length, hglen]
    simp only [advance, append, hg, rebuild, available, List.length_replicate]
    omega

/-- One-byte requests reach a fully consumed vector of every doubled size. -/
private theorem reachable_doubled (k : Nat) (rest : Stream) :
    ∃ b, (requestsUpTo 1).Reachable (b, rest) ∧ b.buf.length = 65536 * 2 ^ k ∧
      b.start = b.buf.length := by
  induction k generalizing rest with
  | zero =>
      have hfit : (List.replicate new.buf.length (0 : UInt8)).length ≤
          new.buf.length - new.stop := by
        rw [List.length_replicate, new_length]
        decide
      have hne : List.replicate new.buf.length (0 : UInt8) ≠ [] :=
        List.ne_nil_of_length_pos (by rw [List.length_replicate, new_length]; decide)
      have hstep : Op.readByte.apply new (.data (List.replicate new.buf.length 0) :: rest) =
          ((new.append _ hfit).advance 1, rest) := by
        have hfill := fillLoop_full (b := new) rest rfl hne hfit
        have hroom : ¬ new.buf.length - new.start < 1 := by
          rw [new_length]
          decide
        have havail : ¬ 1 ≤ new.available := by decide
        simp only [Op.apply, readByte, consume, ensureData, checkLen_one, havail, hroom, if_false,
          hfill]
      have hread : new.buf.length - 1 ≤ ((new.append _ hfit).advance 1).available := by
        simp only [available, advance, append, List.length_replicate, new_length]
        decide
      obtain ⟨b, hrun, hlen, hstart, -⟩ := run_buffered _ rest hread
      refine ⟨b, hrun.reachable (.move (.start (s := (new, _)) rfl) (a := Op.readByte)
        ⟨Nat.le_refl 1, hstep.symm⟩), ?_, ?_⟩
      · rw [hlen, advance_length, append_length, new_length, Nat.pow_zero]
      · rw [hlen, hstart, advance_length, append_length]
        simp only [advance, append, List.length_replicate, new_length]
        decide
  | succ k ih =>
      obtain ⟨b, hreach, hlen, hend⟩ :=
        ih (.data (List.replicate (2 * (65536 * 2 ^ k)) 0) :: rest)
      have hpos : 0 < 2 ^ k := Nat.two_pow_pos k
      rw [← hlen] at hreach
      obtain ⟨b', as, hrun, hlen', hend'⟩ := run_doubles (b := b) rest (by omega) hend
      refine ⟨b', hrun.reachable hreach, ?_, hend'⟩
      rw [hlen', hlen, Nat.pow_succ]
      omega

/-- No bound that depends only on the longest request holds along every run. -/
theorem no_bound_by_request :
    ¬ ∃ bound : Nat → Nat, ∀ N st, (requestsUpTo N).Reachable st →
      st.1.buf.length ≤ bound N := by
  rintro ⟨bound, h⟩
  obtain ⟨b, hreach, hlen, -⟩ := reachable_doubled (bound 1) []
  have hle := h 1 (b, []) hreach
  have hlt : bound 1 < 2 ^ bound 1 := Nat.lt_two_pow_self
  simp only [hlen] at hle
  omega

end NzRust.ReadBuffer
