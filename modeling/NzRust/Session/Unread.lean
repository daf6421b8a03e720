import NzRust.Buffer.Queue
import NzRust.Response.Abort
import NzRust.Response.Resync

/-!
# Unread bytes

The bytes of a view, whatever interrupts them. A read that fails keeps them, a
program that returns takes the bytes it has read off their front, and what it
returns does not depend on what follows those bytes.
-/

namespace NzRust

open Wire
open Handshake (Step)

def Item.byte? : Item → Option UInt8
  | .byte b => some b
  | .stop _ => none

/-- The bytes of a view, without the interruptions. -/
def viewBytes (view : View) : Bytes :=
  view.filterMap Item.byte?

@[simp] theorem viewBytes_nil : viewBytes [] = [] := rfl

@[simp] theorem viewBytes_byte (b : UInt8) (view : View) :
    viewBytes (.byte b :: view) = b :: viewBytes view := rfl

@[simp] theorem viewBytes_stop (kind : Option IoErrorKind) (view : View) :
    viewBytes (.stop kind :: view) = viewBytes view := rfl

@[simp] theorem viewBytes_append (v w : View) : viewBytes (v ++ w) = viewBytes v ++ viewBytes w :=
  List.filterMap_append

@[simp] theorem viewBytes_bytesView (bytes : Bytes) : viewBytes (bytesView bytes) = bytes := by
  induction bytes with
  | nil => rfl
  | cons b bs ih => exact congrArg (b :: ·) ih

theorem bytesView_injective {a b : Bytes} (h : bytesView a = bytesView b) : a = b := by
  rw [← viewBytes_bytesView a, h, viewBytes_bytesView]

/-- A view without an interruption is the view of its bytes. -/
def Unbroken (view : View) : Prop :=
  ∀ kind, Item.stop kind ∉ view

theorem Unbroken.eq {view : View} (h : Unbroken view) : view = bytesView (viewBytes view) := by
  induction view with
  | nil => rfl
  | cons item view ih =>
      cases item with
      | byte b =>
          have hrest := ih fun kind hmem => h kind (.tail _ hmem)
          exact congrArg (Item.byte b :: ·) hrest
      | stop kind => exact absurd List.mem_cons_self (h kind)

/-! ## Reads -/

theorem viewRead_error_bytes {closed : String} {n : Nat} {view rest : View} {e : NzError}
    (h : viewRead closed n view = (.error e, rest)) : viewBytes rest = viewBytes view := by
  fun_induction viewRead closed n view generalizing rest with
  | case1 view => cases h
  | case2 n =>
      cases h
      rfl
  | case3 n kind view =>
      cases h
      rfl
  | case4 n b items bytes rest' hrest ih => cases h
  | case5 n b items e' rest' hrest ih =>
      cases h
      exact congrArg (b :: ·) (ih hrest)

namespace Response

/-- What was consumed is gone from the unread bytes. -/
theorem Consumed.unread {view rest : View} {bytes : Bytes} (h : Consumed view rest bytes) :
    viewBytes view = bytes ++ viewBytes rest := by
  rw [h, viewBytes_append, viewBytes_bytesView]

theorem viewSync_read_error {n : Nat} {view : View} {e : NzError}
    (h : (viewSync.read n view).1 = .error e) :
    viewBytes (viewSync.read n view).2 = viewBytes view := by
  unfold viewSync Handshake.viewPeer at *
  dsimp only at *
  split at h
  · rfl
  · exact viewRead_error_bytes (Prod.ext h rfl)

/-- The bytes that a read finds, before anything else. -/
theorem viewSync_read_found {n : Nat} {view : View} {bytes : Bytes}
    (h : (viewSync.read n view).1 = .ok bytes) (rest : View) :
    viewSync.read n (bytesView bytes ++ rest) = (.ok bytes, rest) := by
  have hlen := (viewSync_read_consumed h).2
  unfold viewSync Handshake.viewPeer at *
  dsimp only at *
  split at h
  · cases h
  · rw [viewRead_bytes (Nat.le_of_eq hlen.symm), ← hlen, List.take_length, List.drop_length]
    rfl

/-- A strict program that returns would return the same whatever followed the bytes it took. -/
theorem strict_local {α : Type} {prog : Step α} (h : Strict prog) {view : View} {a : α}
    (hout : (prog.run viewSync view).outcome = .ok a) :
    ∃ bytes, Consumed view (prog.run viewSync view).peer bytes ∧
      ∀ rest, prog.run viewSync (bytesView bytes ++ rest) =
        ⟨.ok a, (prog.run viewSync view).sent, rest⟩ := by
  induction h generalizing view with
  | ret a' =>
      cases hout
      exact ⟨[], rfl, fun rest => rfl⟩
  | fail e => cases hout
  | unfinished => cases hout
  | read n next hfail _ ih =>
      simp only [Prog.run] at hout ⊢
      cases hread : (viewSync.read n view).1 with
      | error e =>
          obtain ⟨e', he'⟩ := hfail e
          rw [hread, he'] at hout
          cases hout
      | ok first =>
          rw [hread] at hout
          obtain ⟨more, hconsumed, hlocal⟩ := ih first hout
          refine ⟨first ++ more, (viewSync_read_consumed hread).1.trans hconsumed, fun rest => ?_⟩
          rw [bytesView_append, List.append_assoc, viewSync_read_found hread]
          exact hlocal rest
  | write bytes next _ ih =>
      obtain ⟨taken, hconsumed, hlocal⟩ := ih hout
      refine ⟨taken, hconsumed, fun rest => ?_⟩
      simp only [Prog.run, hlocal rest]

/-- Two programs' worth of bytes off the same front. -/
theorem Consumed.unique {view rest : View} {a b : Bytes} (ha : Consumed view rest a)
    (hb : Consumed view rest b) : a = b := by
  unfold Consumed at ha hb
  rw [ha] at hb
  exact bytesView_injective (List.append_cancel_right hb)

end Response

/-! ## The buffer -/

namespace ReadBuffer

theorem viewBytes_items (retries : IoErrorKind → Bool) (s : Stream) :
    viewBytes (s.items retries) = s.bytes := by
  fun_induction Stream.items retries s with
  | case1 => rfl
  | case2 rest ih => exact ih
  | case3 b bs rest ih =>
      rw [viewBytes_append, viewBytes_bytesView, ih]
      rfl
  | case4 kind rest hretried ih => exact ih
  | case5 kind rest hretried ih => exact ih

/-- The bytes of the view are the queue. -/
theorem viewBytes_view (b : ReadBuffer) (s : Stream) : viewBytes (b.view s) = b.queue s := by
  rw [view, viewBytes_append, viewBytes_bytesView, viewBytes_items, queue]

theorem pullAvailable_bytes (b : ReadBuffer) (s : Stream) :
    viewBytes ((b.pullAvailable s).2.1.view (b.pullAvailable s).2.2) = viewBytes (b.view s) := by
  rw [viewBytes_view, viewBytes_view]
  exact pullLoop_queue 0 b s

theorem pullAvailable_closed (b : ReadBuffer) : (b.pullAvailable []).2.2 = [] := by
  rw [pullAvailable, pullLoop]
  rfl

/-- Nothing unread leaves nothing in the window. -/
theorem available_of_unread {b : ReadBuffer} {s : Stream} (h : viewBytes (b.view s) = []) :
    b.available = 0 := by
  rw [view, viewBytes_append, viewBytes_bytesView, List.append_eq_nil_iff] at h
  rw [← slice_length, h.1]
  rfl

end ReadBuffer

end NzRust
