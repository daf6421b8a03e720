import NzRust.Lib.Terminated
import NzRust.Types.Utf8

/-!
# Query packets

A query goes out as one packet: a code, the number of the command and the SQL
text up to a zero byte. Both drivers refuse a text that has a NUL, so the bytes
of a session fall into its packets in one way, whatever the texts are.
-/

namespace NzRust

open ByteString Terminated

/-- `build_simple_query_packet`. -/
def buildSimpleQueryPacket (sql : Text) (commandNumber : Int) : Bytes :=
  80 :: (toBe 4 commandNumber ++ (toUtf8 sql ++ [0]))

/-- The number of the next command in `send_query_packet`. -/
def syncCommandNumber (n : Nat) : Nat :=
  if 100000 < n + 1 then 1 else n + 1

/-- The number of the next command in `query_inner`. -/
def nativeCommandNumber (n : Nat) : Nat :=
  n % 100000 + 1

/-- What a query writes, with the number it leaves. -/
def sendQuery (next : Nat → Nat) (n : Nat) (sql : Text) : NzResult (Bytes × Nat) :=
  if sql.contains '\x00' then .error (.config "SQL contains NUL")
  else .ok (buildSimpleQueryPacket sql (next n), next n)

/-- What the queries of a session write. -/
def sessionBytes (next : Nat → Nat) : Nat → List Text → Bytes
  | _, [] => []
  | n, sql :: sqls =>
      match sendQuery next n sql with
      | .error _ => sessionBytes next n sqls
      | .ok (packet, n) => packet ++ sessionBytes next n sqls

/-! ## The server's reading -/

/-- A packet off the front of the bytes: the number of a command and its text. -/
def readPacket : Bytes → Option ((Int × Text) × Bytes)
  | 80 :: bytes =>
      if bytes.length < 4 then none
      else
        match fromOn (· == 0) (bytes.drop 4) with
        | [] => none
        | _ :: rest =>
            (fromUtf8 (upTo (· == 0) (bytes.drop 4))).map fun sql =>
              ((beInt (bytes.take 4), sql), rest)
  | _ => none

/-- All packets of the bytes, which have a byte each. -/
def readPackets : Nat → Bytes → Option (List (Int × Text))
  | _, [] => some []
  | 0, _ :: _ => none
  | fuel + 1, bytes =>
      (readPacket bytes).bind fun (packet, rest) => (readPackets fuel rest).map (packet :: ·)

theorem readPacket_build {sql : Text} (hsql : '\x00' ∉ sql) {n : Nat} (hn : n < 2 ^ 31)
    (rest : Bytes) :
    readPacket (buildSimpleQueryPacket sql n ++ rest) = some (((n : Int), sql), rest) := by
  have hfree : ∀ b ∈ toUtf8 sql, (b == (0 : UInt8)) = false := by
    intro b hb
    rw [beq_eq_false_iff_ne]
    intro hzero
    exact zero_not_mem_toUtf8 hsql (hzero ▸ hb)
  have hbytes : buildSimpleQueryPacket sql n ++ rest =
      80 :: (toBe 4 n ++ (toUtf8 sql ++ 0 :: rest)) := by
    simp [buildSimpleQueryPacket]
  have htake : (toBe 4 (n : Int) ++ (toUtf8 sql ++ 0 :: rest)).take 4 = toBe 4 n :=
    List.take_left' (toBe_length 4 n)
  have hdrop : (toBe 4 (n : Int) ++ (toUtf8 sql ++ 0 :: rest)).drop 4 = toUtf8 sql ++ 0 :: rest :=
    List.drop_left' (toBe_length 4 n)
  rw [hbytes, readPacket, if_neg (by simp), htake, hdrop, fromOn_append hfree (beq_self_eq_true 0),
    upTo_append hfree (beq_self_eq_true 0), fromUtf8_toUtf8, beInt_toBe_ofNat hn]
  rfl

/-! ## The numbers -/

/-- Up to the number that both wrap at, the drivers count alike. -/
theorem syncCommandNumber_eq {n : Nat} (h : n ≤ 100000) :
    syncCommandNumber n = nativeCommandNumber n := by
  unfold syncCommandNumber nativeCommandNumber
  split <;> omega

theorem nativeCommandNumber_bounds (n : Nat) :
    0 < nativeCommandNumber n ∧ nativeCommandNumber n ≤ 100000 := by
  unfold nativeCommandNumber
  omega

/-! ## A session -/

theorem sessionBytes_sync {n : Nat} (hn : n ≤ 100000) (sqls : List Text) :
    sessionBytes syncCommandNumber n sqls = sessionBytes nativeCommandNumber n sqls := by
  induction sqls generalizing n with
  | nil => rfl
  | cons sql sqls ih =>
      rw [sessionBytes, sessionBytes, sendQuery, sendQuery, syncCommandNumber_eq hn]
      split
      · exact ih hn
      next packet m hsent =>
        split at hsent
        · cases hsent
        · cases hsent
          exact congrArg (_ ++ ·) (ih (nativeCommandNumber_bounds n).2)

/-- The packets of a session that has sent `k` of them, its number being `n`. -/
theorem readPackets_session {n k fuel : Nat} (hn : n ≤ 100000) (hk : n % 100000 = k % 100000)
    (sqls : List Text) (hfuel : (sessionBytes nativeCommandNumber n sqls).length ≤ fuel) :
    readPackets fuel (sessionBytes nativeCommandNumber n sqls) =
      some ((sqls.filter fun sql => !sql.contains '\x00').mapIdx fun i sql =>
        ((((k + i) % 100000 + 1 : Nat) : Int), sql)) := by
  induction sqls generalizing n k fuel with
  | nil => cases fuel <;> rfl
  | cons sql sqls ih =>
      rw [sessionBytes, sendQuery] at hfuel ⊢
      cases hnul : sql.contains '\x00' with
      | true =>
          rw [if_pos hnul] at hfuel
          rw [if_pos rfl]
          rw [List.filter_cons_of_neg (by rw [hnul]; nofun)]
          exact ih hn hk hfuel
      | false =>
          rw [hnul, if_neg nofun] at hfuel
          rw [if_neg nofun]
          dsimp only at hfuel ⊢
          obtain ⟨hpos, hle⟩ := nativeCommandNumber_bounds n
          have hsql : '\x00' ∉ sql := by simpa using hnul
          rw [List.length_append] at hfuel
          have hlen : 0 < (buildSimpleQueryPacket sql (nativeCommandNumber n)).length :=
            Nat.zero_lt_succ _
          obtain ⟨fuel, rfl⟩ : ∃ f, fuel = f + 1 := ⟨fuel - 1, by omega⟩
          have hstep : nativeCommandNumber n % 100000 = (k + 1) % 100000 := by
            unfold nativeCommandNumber
            omega
          have hrest := ih hle hstep (show _ ≤ fuel by omega)
          have hpacket := readPacket_build hsql (show nativeCommandNumber n < 2 ^ 31 by omega)
            (sessionBytes nativeCommandNumber (nativeCommandNumber n) sqls)
          rw [List.filter_cons_of_pos (by rw [hnul]; rfl), List.mapIdx_cons]
          show (readPacket (buildSimpleQueryPacket sql _ ++ _)).bind _ = _
          rw [hpacket]
          show (readPackets fuel _).map _ = _
          rw [hrest]
          have hnumber : nativeCommandNumber n = (k + 0) % 100000 + 1 := by
            unfold nativeCommandNumber
            omega
          rw [hnumber]
          simp only [Option.map_some, Nat.add_assoc, Nat.add_comm 1]

end NzRust
