import NzRust.Lib.Checked
import NzRust.Lib.Suffix
import NzRust.Sql.ByteScan

/-!
# The notice history

`NoticeHistory` of the native client: the notices of a session, oldest first,
held to a number of items and of bytes. The count of dropped notices is not
bounded here, as no session is sent 2^64 of them.
-/

namespace NzRust.Client

open Checked
open NzRust.Sql

/-- `LIMIT` of `NoticeHistory::push`. -/
def noticeLimit : Nat := 1024 * 1024

/-- The number of items at which `push` evicts. -/
def noticeItems : Nat := 1000

structure NoticeHistory where
  items : List Text := []
  bytes : Nat := 0
  dropped : Nat := 0
  deriving DecidableEq, Repr

namespace NoticeHistory

/-- The condition of the eviction loop; the sum is only formed below the item limit. -/
def mustEvict (history : NoticeHistory) (message : Text) : Exec Empty Bool :=
  if history.items.length ≥ noticeItems then .ok true
  else do
    let total ← addWord 64 history.bytes (byteLen message)
    .ok (total > noticeLimit)

/-- The eviction loop, with the items it works on apart. -/
def evict (message : Text) : List Text → Nat → Nat → Exec Empty NoticeHistory
  | [], bytes, dropped => do
      -- `break`, whatever the condition says
      let _ ← mustEvict ⟨[], bytes, dropped⟩ message
      .ok ⟨[], bytes, dropped⟩
  | previous :: rest, bytes, dropped => do
      if ← mustEvict ⟨previous :: rest, bytes, dropped⟩ message then
        let bytes ← subWord bytes (byteLen previous)
        evict message rest bytes (dropped + 1)
      else .ok ⟨previous :: rest, bytes, dropped⟩

def push (history : NoticeHistory) (message : Text) : Exec Empty NoticeHistory :=
  if byteLen message > noticeLimit then .ok { history with dropped := history.dropped + 1 }
  else do
    let history ← evict message history.items history.bytes history.dropped
    let bytes ← addWord 64 history.bytes (byteLen message)
    .ok { history with items := history.items ++ [message], bytes }

/-- The notices of a session, in the order in which they arrive. -/
def pushAll : List Text → NoticeHistory → Exec Empty NoticeHistory
  | [], history => .ok history
  | message :: messages, history => do
      let history ← history.push message
      pushAll messages history

/-! ## What a history holds -/

/-- The bytes of some messages. -/
def totalBytes (messages : List Text) : Nat :=
  (messages.map byteLen).sum

@[simp] theorem totalBytes_nil : totalBytes [] = 0 := rfl

@[simp] theorem totalBytes_cons (message : Text) (messages : List Text) :
    totalBytes (message :: messages) = byteLen message + totalBytes messages := by
  simp [totalBytes]

@[simp] theorem totalBytes_append (xs ys : List Text) :
    totalBytes (xs ++ ys) = totalBytes xs + totalBytes ys := by
  simp [totalBytes]

/-- A message that may enter the history at all. -/
def Storable (message : Text) : Prop :=
  byteLen message ≤ noticeLimit

instance (message : Text) : Decidable (Storable message) :=
  inferInstanceAs (Decidable (byteLen message ≤ noticeLimit))

/-- Messages within both limits. -/
def WithinLimits (messages : List Text) : Prop :=
  messages.length ≤ noticeItems ∧ totalBytes messages ≤ noticeLimit

theorem withinLimits_nil : WithinLimits [] := by
  simp [WithinLimits]

theorem withinLimits_closed : Suffix.InfixClosed WithinLimits := by
  intro xs ys hinfix hys
  obtain ⟨front, back, rfl⟩ := hinfix
  simp only [WithinLimits, List.length_append, totalBytes_append] at hys ⊢
  omega

/--
After the messages `pushed`: the byte count is that of the items, every message
is kept or counted as dropped, and what is kept is the longest storable suffix.
-/
structure Holds (pushed : List Text) (history : NoticeHistory) : Prop where
  bytes : history.bytes = totalBytes history.items
  count : history.dropped + history.items.length = pushed.length
  kept : Suffix.Longest WithinLimits (pushed.filter fun m => decide (Storable m)) history.items

theorem Holds.empty : Holds [] {} where
  bytes := rfl
  count := rfl
  kept := .nil withinLimits_nil

/-- The loop goes on exactly while an item must leave for the message to fit. -/
def Fits (items : List Text) (bytes : Nat) (message : Text) : Prop :=
  items.length < noticeItems ∧ bytes + byteLen message ≤ noticeLimit

theorem mustEvict_eq (history : NoticeHistory) {message : Text}
    (hmessage : Storable message) (hbytes : history.bytes ≤ noticeLimit) :
    ∃ b, mustEvict history message = .ok b ∧
      (b = false ↔ Fits history.items history.bytes message) := by
  unfold mustEvict Fits
  simp only [Storable, noticeLimit] at hmessage hbytes ⊢
  by_cases hitems : history.items.length ≥ noticeItems
  · exact ⟨true, if_pos hitems, by simp [Nat.not_lt.mpr hitems]⟩
  · have hfits : history.bytes + byteLen message < 2 ^ 64 := by omega
    refine ⟨decide (history.bytes + byteLen message > 1024 * 1024), ?_, ?_⟩
    · rw [if_neg hitems, addWord, if_pos hfits, ok_bind]
      rfl
    · simp [Nat.lt_of_not_le hitems]

/--
The loop stops at a history whose items, with the message behind them, are the
longest suffix of the old items with that message that is within the limits.
-/
theorem evict_spec {message : Text} (hmessage : Storable message) (items : List Text)
    (bytes dropped : Nat) (hbytes : bytes = totalBytes items) (hlimit : bytes ≤ noticeLimit) :
    ∃ history, evict message items bytes dropped = .ok history ∧
      history.bytes = totalBytes history.items ∧
      history.dropped + history.items.length = dropped + items.length ∧
      Suffix.Longest WithinLimits (items ++ [message]) (history.items ++ [message]) := by
  induction items generalizing bytes dropped with
  | nil =>
      obtain ⟨b, hmust, -⟩ := mustEvict_eq ⟨[], bytes, dropped⟩ hmessage hlimit
      refine ⟨⟨[], bytes, dropped⟩, ?_, hbytes, rfl, .of_meets ?_⟩
      · rw [evict, hmust, ok_bind]
      · simpa [WithinLimits, noticeItems, Storable] using hmessage
  | cons previous rest ih =>
      obtain ⟨b, hmust, hfits⟩ :=
        mustEvict_eq ⟨previous :: rest, bytes, dropped⟩ hmessage hlimit
      rw [evict, hmust, ok_bind]
      simp only [Fits, List.length_cons] at hfits
      have hsum := hbytes
      rw [totalBytes_cons] at hsum
      cases b with
      | false =>
          have hroom := hfits.mp rfl
          refine ⟨⟨previous :: rest, bytes, dropped⟩, rfl, hbytes, rfl, .of_meets ?_⟩
          simp only [WithinLimits, List.length_append, totalBytes_append, totalBytes_cons,
            totalBytes_nil, List.length_cons, List.length_nil]
          omega
      | true =>
          have hfull := mt hfits.mpr (by decide)
          have hle : byteLen previous ≤ bytes := by omega
          obtain ⟨history, hrun, hbytes', hcount, hkept⟩ :=
            ih (bytes - byteLen previous) (dropped + 1) (by omega) (by omega)
          refine ⟨history, ?_, hbytes', ?_, hkept.cons ?_⟩
          · rw [if_pos rfl, subWord, if_pos hle, ok_bind, hrun]
          · rw [hcount, List.length_cons]
            omega
          · intro hwithin
            apply hfull
            simp only [WithinLimits, List.length_cons, List.length_append, totalBytes_append,
              totalBytes_cons, totalBytes_nil, List.length_nil] at hwithin
            omega

theorem Holds.push {pushed : List Text} {history : NoticeHistory} (h : Holds pushed history)
    (message : Text) :
    ∃ history', history.push message = .ok history' ∧ Holds (pushed ++ [message]) history' := by
  unfold NoticeHistory.push
  by_cases hlarge : byteLen message > noticeLimit
  · -- an oversize message is counted and changes nothing else
    refine ⟨{ history with dropped := history.dropped + 1 }, if_pos hlarge, h.bytes, ?_, ?_⟩
    · have hcount := h.count
      simp only [List.length_append, List.length_singleton]
      omega
    · have hno : ¬ Storable message := Nat.not_le.mpr hlarge
      simpa [List.filter_append, hno] using h.kept
  · have hmessage : Storable message := Nat.not_lt.mp hlarge
    have hlimit : history.bytes ≤ noticeLimit := h.bytes ▸ h.kept.meets.2
    obtain ⟨left, hrun, hsum, hcount, hkept⟩ :=
      evict_spec hmessage history.items history.bytes history.dropped h.bytes hlimit
    have htotal := hkept.meets.2
    rw [totalBytes_append, totalBytes_cons, totalBytes_nil, ← hsum] at htotal
    have hfits : left.bytes + byteLen message < 2 ^ 64 := by
      simp only [noticeLimit] at htotal
      omega
    refine ⟨{ left with items := left.items ++ [message], bytes := left.bytes + byteLen message },
      ?_, ?_, ?_, ?_⟩
    · rw [if_neg hlarge, hrun, ok_bind, addWord, if_pos hfits, ok_bind]
    · simp [hsum]
    · have hbefore := h.count
      simp only [List.length_append, List.length_singleton]
      omega
    · have hfilter : (pushed ++ [message]).filter (fun m => decide (Storable m)) =
          pushed.filter (fun m => decide (Storable m)) ++ [message] := by
        simp [List.filter_append, hmessage]
      rw [hfilter]
      exact h.kept.extend withinLimits_closed hkept

theorem Holds.pushAll {pushed : List Text} {history : NoticeHistory} (h : Holds pushed history)
    (messages : List Text) :
    ∃ history', NoticeHistory.pushAll messages history = .ok history' ∧
      Holds (pushed ++ messages) history' := by
  induction messages generalizing pushed history with
  | nil => exact ⟨history, rfl, by simpa using h⟩
  | cons message messages ih =>
      obtain ⟨next, hpush, hnext⟩ := h.push message
      obtain ⟨last, hlast, hholds⟩ := ih hnext
      refine ⟨last, ?_, by simpa using hholds⟩
      rw [NoticeHistory.pushAll, hpush, ok_bind, hlast]

/--
After any pushes no subtraction has underflowed, the byte count is that of the
kept notices, and these are the longest suffix of the storable ones that both
limits allow.
-/
theorem newest_notices_kept (messages : List Text) :
    ∃ history, pushAll messages {} = .ok history ∧
      history.bytes = (history.items.map byteLen).sum ∧ history.bytes ≤ 1024 * 1024 ∧
      history.items.length ≤ 1000 ∧
      history.dropped + history.items.length = messages.length ∧
      Suffix.Longest (fun kept => kept.length ≤ 1000 ∧ (kept.map byteLen).sum ≤ 1024 * 1024)
        (messages.filter fun m => decide (byteLen m ≤ 1024 * 1024)) history.items := by
  obtain ⟨history, hrun, hholds⟩ := Holds.empty.pushAll messages
  exact ⟨history, hrun, hholds.bytes, hholds.bytes ▸ hholds.kept.meets.2, hholds.kept.meets.1,
    hholds.count, hholds.kept⟩

end NoticeHistory

end NzRust.Client
