import NzRust.Lib.Transactional
import NzRust.Response.Abort

/-!
# Transaction scopes

The blocking client brackets a body between BEGIN and COMMIT in two ways: a guard
whose drop rolls back or closes the connection, and a closure whose error path
sends a ROLLBACK and does not look at its outcome. The server is any transactional
server. A body is what its caller asks of the connection, whatever the caller had
read when it asked.
-/

namespace NzRust

open Sql

universe v w

abbrev SqlServer (σ : Type v) (D : Type w) :=
  Transactional Text σ D "BEGIN".toList "COMMIT".toList "ROLLBACK".toList

/-! ## One batch -/

/-- What becomes of a batch, apart from its text: the driver's side, how many statements completed
on the server, and whether it had begun another. -/
structure Fate where
  send : SendOutcome := .sent
  drain : DrainOutcome := .finished
  executed : Nat := 0
  inFlight : Bool := false
  deriving DecidableEq, Repr

def Fate.batch (fate : Fate) (sql : Text) : Batch :=
  ⟨sql, fate.send, fate.drain, fate.executed⟩

/-- What `run_batch_stream_with_duration` returns. -/
def Batch.result (b : Batch) (c : Connection) : NzResult Unit :=
  if b.sql.contains '\x00' then .error (.config "SQL contains NUL")
  else
    match Response.assertCanExecute c with
    | .error e => .error e
    | .ok () =>
        match b.send.error with
        | some e => .error e
        | none =>
            match b.drain with
            | .finished => .ok ()
            | .sinkFailed e => .error e
            | .failed e _ _ => .error e

/-- The statement that the server had begun behind those that completed. -/
def Fate.cut (fate : Fate) (sql : Text) (c : Connection) : Option Text :=
  if !fate.inFlight || sql.contains '\x00' || !c.canExecute || !fate.send.delivered then none
  else (serverStatements sql)[((fate.batch sql).ran c).length]?

def Connection.close (c : Connection) : Connection :=
  { c with inTransaction := false, connected := false }

/-- A connection and the server at its other end. -/
structure Dialogue (σ : Type v) where
  driver : Connection := {}
  server : σ

namespace Dialogue

variable {σ : Type v} {D : Type w} {α : Type} (srv : SqlServer σ D)

def batchExecute (d : Dialogue σ) (sql : Text) (fate : Fate) : NzResult Unit × Dialogue σ :=
  ((fate.batch sql).result d.driver,
    { driver := d.driver.runBatch sql fate.send fate.drain
      server := srv.request d.server ((fate.batch sql).ran d.driver) (fate.cut sql d.driver) })

def close (d : Dialogue σ) : Dialogue σ :=
  { d with driver := d.driver.close }

/-! ## The two scopes -/

/-- What a body asks of the connection. -/
inductive Call where
  | batch (sql : Text) (fate : Fate)
  | close

def call (d : Dialogue σ) : Call → Dialogue σ
  | .batch sql fate => (d.batchExecute srv sql fate).2
  | .close => d.close

def calls (d : Dialogue σ) (body : List Call) : Dialogue σ :=
  body.foldl (call srv) d

/-- `transaction`, whose closure makes these calls and ends in `outcome`. -/
def transaction (d : Dialogue σ) (begin_ : Fate) (body : List Call) (outcome : NzResult α)
    (last : Fate) : NzResult α × Dialogue σ :=
  match d.batchExecute srv "BEGIN".toList begin_ with
  | (.error e, d) => (.error e, d)
  | (.ok (), d) =>
      let d := d.calls srv body
      match outcome with
      | .ok value =>
          match d.batchExecute srv "COMMIT".toList last with
          | (.error e, d) => (.error e, d)
          | (.ok (), d) => (.ok value, d)
      | .error e => (.error e, (d.batchExecute srv "ROLLBACK".toList last).2)

/-- `BlockingClient::begin_transaction`. -/
def beginTransaction (d : Dialogue σ) (fate : Fate) : NzResult Unit × Dialogue σ :=
  if d.driver.inTransaction then (.error (.config "nested transaction is unsupported"), d)
  else d.batchExecute srv "BEGIN".toList fate

/-- The drop of a `LegacyTransaction` that is not finished. -/
def dropTransaction (d : Dialogue σ) (fate : Fate) : Dialogue σ :=
  match d.batchExecute srv "ROLLBACK".toList fate with
  | (.ok (), d) => d
  | (.error _, d) => d.close

/-- How a `LegacyTransaction` ends. A failed COMMIT or ROLLBACK leaves it to its drop. -/
inductive Ending where
  | commit (fate drop : Fate)
  | rollback (fate drop : Fate)
  | dropped (drop : Fate)

def finish (d : Dialogue σ) : Ending → NzResult Unit × Dialogue σ
  | .commit fate drop =>
      match d.batchExecute srv "COMMIT".toList fate with
      | (.ok (), d) => (.ok (), d)
      | (.error e, d) => (.error e, d.dropTransaction srv drop)
  | .rollback fate drop =>
      match d.batchExecute srv "ROLLBACK".toList fate with
      | (.ok (), d) => (.ok (), d)
      | (.error e, d) => (.error e, d.dropTransaction srv drop)
  | .dropped drop => (.ok (), d.dropTransaction srv drop)

end Dialogue

/-- The rollback of a drop goes through the parameter substitution, with no parameters. -/
example {N : Numerics} :
    substituteParameters "ROLLBACK".toList ([] : List (NzValue N)) = .ok "ROLLBACK".toList := rfl

def Dialogue.Ending.commits : Dialogue.Ending → Bool
  | .commit _ _ => true
  | _ => false

/-! ## What one batch does -/

section Batch

variable {sql : Text} {fate : Fate} {c : Connection}

theorem Fate.ran_subset : ∀ t ∈ (fate.batch sql).ran c, t ∈ serverStatements sql := by
  intro t ht
  unfold Batch.ran at ht
  split at ht
  · cases ht
  · split at ht
    · exact ht
    · exact List.mem_of_mem_take ht

theorem Fate.cut_mem : ∀ t ∈ fate.cut sql c, t ∈ serverStatements sql := by
  intro t ht
  unfold Fate.cut at ht
  split at ht
  · cases ht
  · exact List.mem_of_getElem? ht

/-- A batch succeeds when nothing refused it, it was sent and its drain finished. -/
theorem Batch.result_ok {b : Batch} (h : b.result c = .ok ()) :
    b.sql.contains '\x00' = false ∧ c.canExecute = true ∧ b.send = .sent ∧
      b.drain = .finished := by
  unfold Batch.result at h
  split at h
  · cases h
  next hnul =>
    split at h
    · cases h
    next hcan =>
      split at h
      · cases h
      next hsend =>
        split at h
        next hdrain =>
          refine ⟨by simpa using hnul, ?_, ?_, hdrain⟩
          · unfold Response.assertCanExecute at hcan
            simp only [Connection.canExecute]
            grind
          · cases hs : b.send with
            | sent => rfl
            | _ => rw [hs] at hsend; cases hsend
        · cases h
        · cases h

/-- After a success the server has run the whole text. -/
theorem Fate.ran_of_ok (h : (fate.batch sql).result c = .ok ()) :
    (fate.batch sql).ran c = serverStatements sql ∧ fate.cut sql c = none := by
  obtain ⟨hnul, hcan, hsend, hdrain⟩ := Batch.result_ok h
  have hran : (fate.batch sql).ran c = serverStatements sql := by
    simp only [Batch.ran, hnul, hcan, hsend, hdrain, SendOutcome.delivered, SendOutcome.error]
    rfl
  refine ⟨hran, ?_⟩
  unfold Fate.cut
  split
  · rfl
  · rw [hran, List.getElem?_eq_none (Nat.le_refl _)]

end Batch

namespace Dialogue

section Steps

variable {σ : Type v} {D : Type w} {srv : SqlServer σ D} {d : Dialogue σ} {data : D}

theorem batchExecute_ok {sql : Text} {fate : Fate}
    (h : (d.batchExecute srv sql fate).1 = .ok ()) :
    (d.batchExecute srv sql fate).2.server = (serverStatements sql).foldl srv.exec d.server := by
  obtain ⟨hran, hcut⟩ := Fate.ran_of_ok h
  simp only [batchExecute, hran, hcut, Transactional.request]

/-- The flag behind a success is the last boundary of the text. -/
theorem batchExecute_flag {sql : Text} {fate : Fate} {isOpen hadStart : Bool}
    (h : (d.batchExecute srv sql fate).1 = .ok ())
    (hstate : transactionStateOf sql = (some isOpen, hadStart)) :
    (d.batchExecute srv sql fate).2.driver.inTransaction = isOpen := by
  obtain ⟨hnul, hcan, hsend, hdrain⟩ := Batch.result_ok h
  have hguard : (sql.contains '\x00' || !d.driver.canExecute) = false := by
    rw [hcan]
    simpa [Fate.batch] using hnul
  have hsent : fate.send = .sent := hsend
  have hfinished : fate.drain = .finished := hdrain
  simp only [batchExecute, Connection.runBatch, hguard, hsent, hfinished, hstate]
  rfl

/-- A text of one statement ran, or was cut short, or never reached the server. -/
theorem batchExecute_single {sql t : Text} (srv : SqlServer σ D) (d : Dialogue σ) (fate : Fate)
    (ht : serverStatements sql = [t]) :
    (d.batchExecute srv sql fate).2.server = d.server ∨
      (d.batchExecute srv sql fate).2.server = srv.exec d.server t ∨
      (d.batchExecute srv sql fate).2.server = srv.interrupted d.server t := by
  have hran : (fate.batch sql).ran d.driver = [] ∨ (fate.batch sql).ran d.driver = [t] := by
    unfold Batch.ran
    split
    · exact .inl rfl
    · split
      · exact .inr ht
      · show (serverStatements sql).take fate.executed = [] ∨
          (serverStatements sql).take fate.executed = [t]
        rw [ht]
        cases fate.executed with
        | zero => exact .inl rfl
        | succ n => exact .inr (by rw [List.take_succ_cons, List.take_nil])
  simp only [batchExecute]
  rcases hran with hnone | hall
  · have hcut : fate.cut sql d.driver = none ∨ fate.cut sql d.driver = some t := by
      unfold Fate.cut
      split
      · exact .inl rfl
      · rw [hnone, ht]
        exact .inr rfl
    rcases hcut with hcut | hcut
    · exact .inl (by rw [hnone, hcut]; rfl)
    · exact .inr (.inr (by rw [hnone, hcut]; rfl))
  · have hcut : fate.cut sql d.driver = none := by
      unfold Fate.cut
      split
      · rfl
      · rw [hall, ht]
        rfl
    exact .inr (.inl (by rw [hall, hcut]; rfl))

/-! ## The body -/

/-- The texts of a body hold no statement that opens or ends a transaction. -/
def Call.Plain (srv : SqlServer σ D) : Call → Prop
  | .batch sql _ => ∀ t ∈ serverStatements sql, srv.plain t
  | .close => True

theorem inside_call (h : srv.Inside data d.server) {c : Call} (hc : c.Plain srv) :
    srv.Inside data (d.call srv c).server := by
  cases c with
  | close => exact h
  | batch sql fate =>
      refine h.request ?_ ?_
      · intro t ht
        exact hc t (Fate.ran_subset t ht)
      · intro t ht
        exact hc t (Fate.cut_mem t ht)

theorem inside_calls (h : srv.Inside data d.server) {body : List Call}
    (hbody : ∀ c ∈ body, c.Plain srv) : srv.Inside data (d.calls srv body).server := by
  induction body generalizing d with
  | nil => exact h
  | cons c rest ih =>
      have hfirst := inside_call h (hbody c List.mem_cons_self)
      exact ih hfirst fun u hu => hbody u (List.mem_cons_of_mem _ hu)

/-! ## BEGIN, COMMIT and ROLLBACK -/

theorem begin_inside (srv : SqlServer σ D) (d : Dialogue σ) (fate : Fate)
    (h : (d.batchExecute srv "BEGIN".toList fate).1 = .ok ()) :
    srv.Inside (srv.durable d.server) (d.batchExecute srv "BEGIN".toList fate).2.server := by
  rw [batchExecute_ok h]
  exact Transactional.inside_opening d.server

/-- However a BEGIN ends, nothing durable has changed. -/
theorem begin_hides (srv : SqlServer σ D) (d : Dialogue σ) (fate : Fate) :
    srv.durable (d.batchExecute srv "BEGIN".toList fate).2.server = srv.durable d.server := by
  rcases batchExecute_single srv d fate
    (show serverStatements "BEGIN".toList = ["BEGIN".toList] by decide) with h | h | h
  · rw [h]
  · rw [h, srv.opening_hides]
  · rw [h, srv.interrupted_hides]

theorem rollback_hides (srv : SqlServer σ D) (d : Dialogue σ) (fate : Fate) :
    srv.durable (d.batchExecute srv "ROLLBACK".toList fate).2.server = srv.durable d.server := by
  rcases batchExecute_single srv d fate
    (show serverStatements "ROLLBACK".toList = ["ROLLBACK".toList] by decide) with h | h | h
  · rw [h]
  · rw [h, srv.undoing_hides]
  · rw [h, srv.interrupted_hides]

/-- A COMMIT takes effect as a whole or not at all. -/
theorem commit_durable (srv : SqlServer σ D) (d : Dialogue σ) (fate : Fate) :
    srv.durable (d.batchExecute srv "COMMIT".toList fate).2.server = srv.durable d.server ∨
      srv.durable (d.batchExecute srv "COMMIT".toList fate).2.server =
        srv.durable (srv.exec d.server "COMMIT".toList) := by
  rcases batchExecute_single srv d fate
    (show serverStatements "COMMIT".toList = ["COMMIT".toList] by decide) with h | h | h
  · exact .inl (by rw [h])
  · exact .inr (by rw [h])
  · exact .inl (by rw [h, srv.interrupted_hides])

/-- No transaction is open, or the connection that held it is closed; the flag says so. -/
structure Settled (srv : SqlServer σ D) (d : Dialogue σ) : Prop where
  flag : d.driver.inTransaction = false
  session : srv.inTransaction d.server = false ∨ d.driver.connected = false

theorem commit_settled (srv : SqlServer σ D) (d : Dialogue σ) (fate : Fate)
    (h : (d.batchExecute srv "COMMIT".toList fate).1 = .ok ()) :
    (d.batchExecute srv "COMMIT".toList fate).2.server = srv.exec d.server "COMMIT".toList ∧
      Settled srv (d.batchExecute srv "COMMIT".toList fate).2 := by
  have hserver : (d.batchExecute srv "COMMIT".toList fate).2.server =
      srv.exec d.server "COMMIT".toList := batchExecute_ok h
  refine ⟨hserver, batchExecute_flag h (show _ = (some false, false) by decide), .inl ?_⟩
  rw [hserver]
  exact srv.committing_closes d.server

theorem rollback_settled (srv : SqlServer σ D) (d : Dialogue σ) (fate : Fate)
    (h : (d.batchExecute srv "ROLLBACK".toList fate).1 = .ok ()) :
    Settled srv (d.batchExecute srv "ROLLBACK".toList fate).2 := by
  have hserver : (d.batchExecute srv "ROLLBACK".toList fate).2.server =
      srv.exec d.server "ROLLBACK".toList := batchExecute_ok h
  refine ⟨batchExecute_flag h (show _ = (some false, false) by decide), .inl ?_⟩
  rw [hserver]
  exact srv.undoing_closes d.server

/-- The drop of the guard settles the session, and makes nothing durable. -/
theorem dropTransaction_settles (srv : SqlServer σ D) (d : Dialogue σ) (fate : Fate) :
    Settled srv (d.dropTransaction srv fate) ∧
      srv.durable (d.dropTransaction srv fate).server = srv.durable d.server := by
  have hhides := rollback_hides srv d fate
  unfold dropTransaction
  split
  next d' hok =>
    have hsettled := rollback_settled srv d fate (by rw [hok])
    rw [hok] at hhides hsettled
    exact ⟨hsettled, hhides⟩
  next e d' herror =>
    rw [herror] at hhides
    exact ⟨⟨rfl, .inr rfl⟩, hhides⟩

end Steps

/-! ## Both scopes are all or nothing -/

section Scopes

variable {σ : Type v} {D : Type w} {α : Type} {srv : SqlServer σ D} {d d₁ : Dialogue σ}

/-- What a scope has made durable at its end: nothing, or, where it commits, what a COMMIT
behind its body makes durable. -/
def AllOrNothing (srv : SqlServer σ D) (start body finish : Dialogue σ) (commits : Bool) : Prop :=
  srv.durable finish.server = srv.durable start.server ∨
    commits = true ∧
      srv.durable finish.server = srv.durable (srv.exec body.server "COMMIT".toList)

end Scopes

/-! ## A server that keeps a journal -/

/-- What a transaction has run waits in a list for its COMMIT. -/
def journal : SqlServer (List Text × Option (List Text)) (List Text) where
  exec s t :=
    if t = "BEGIN".toList then (s.1, some (s.2.getD []))
    else if t = "COMMIT".toList then (s.1 ++ s.2.getD [], none)
    else if t = "ROLLBACK".toList then (s.1, none)
    else
      match s.2 with
      | some waiting => (s.1, some (waiting ++ [t]))
      | none => (s.1 ++ [t], none)
  interrupted s _ := s
  inTransaction s := s.2.isSome
  durable s := s.1
  plain t := t ≠ "BEGIN".toList ∧ t ≠ "COMMIT".toList ∧ t ≠ "ROLLBACK".toList
  opening_opens _ := rfl
  opening_hides _ := rfl
  plain_stays s t ht hs := by
    obtain ⟨waiting, hwaiting⟩ := Option.isSome_iff_exists.mp hs
    simp only [ht.1, ht.2.1, ht.2.2, if_false, hwaiting, Option.isSome_some]
  plain_hides s t ht hs := by
    obtain ⟨waiting, hwaiting⟩ := Option.isSome_iff_exists.mp hs
    simp only [ht.1, ht.2.1, ht.2.2, if_false, hwaiting]
  interrupted_stays _ _ _ hs := hs
  interrupted_hides _ _ := rfl
  committing_closes _ := rfl
  undoing_closes _ := rfl
  undoing_hides _ := rfl

def insertOne : Call :=
  .batch "INSERT INTO t VALUES (1)".toList {}

theorem insertOne_plain : ∀ c ∈ [insertOne], c.Plain journal := by
  intro c hc
  rw [List.mem_singleton.mp hc]
  show ∀ t ∈ serverStatements "INSERT INTO t VALUES (1)".toList,
    t ≠ "BEGIN".toList ∧ t ≠ "COMMIT".toList ∧ t ≠ "ROLLBACK".toList
  decide

end Dialogue

end NzRust
