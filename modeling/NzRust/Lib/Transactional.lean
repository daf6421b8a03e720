/-!
# Statements inside transactions

A server runs statements over a state, part of which is durable. What runs
between the statement that opens a transaction and the one that commits it is
not durable until then, and the statement that undoes it discards it. The three
statements are parameters; which others neither open nor end a transaction is
the server's own notion.
-/

universe u v w

/-- A transactional server. `interrupted` is what a statement leaves behind that was begun and did
not complete. -/
structure Transactional (Statement : Type u) (State : Type v) (Data : Type w)
    (opening committing undoing : Statement) where
  exec : State → Statement → State
  interrupted : State → Statement → State
  inTransaction : State → Bool
  durable : State → Data
  plain : Statement → Prop
  opening_opens : ∀ s, inTransaction (exec s opening) = true
  opening_hides : ∀ s, durable (exec s opening) = durable s
  plain_stays : ∀ s t, plain t → inTransaction s = true → inTransaction (exec s t) = true
  plain_hides : ∀ s t, plain t → inTransaction s = true → durable (exec s t) = durable s
  interrupted_stays : ∀ s t, plain t → inTransaction s = true →
    inTransaction (interrupted s t) = true
  interrupted_hides : ∀ s t, durable (interrupted s t) = durable s
  committing_closes : ∀ s, inTransaction (exec s committing) = false
  undoing_closes : ∀ s, inTransaction (exec s undoing) = false
  undoing_hides : ∀ s, durable (exec s undoing) = durable s

namespace Transactional

variable {Statement : Type u} {State : Type v} {Data : Type w}
  {opening committing undoing : Statement}
  (srv : Transactional Statement State Data opening committing undoing)

/-- Statements one after the other, then the one in flight. -/
def request (s : State) (ran : List Statement) (inFlight : Option Statement) : State :=
  match inFlight with
  | none => ran.foldl srv.exec s
  | some t => srv.interrupted (ran.foldl srv.exec s) t

/-- Inside a transaction that has changed nothing durable since `data`. -/
structure Inside (data : Data) (s : State) : Prop where
  inTransaction : srv.inTransaction s = true
  durable : srv.durable s = data

variable {srv} {data : Data} {s : State}

theorem inside_opening (s : State) : srv.Inside (srv.durable s) (srv.exec s opening) :=
  ⟨srv.opening_opens s, srv.opening_hides s⟩

theorem Inside.exec (h : srv.Inside data s) {t : Statement} (ht : srv.plain t) :
    srv.Inside data (srv.exec s t) :=
  ⟨srv.plain_stays s t ht h.inTransaction,
    (srv.plain_hides s t ht h.inTransaction).trans h.durable⟩

theorem Inside.interrupted (h : srv.Inside data s) {t : Statement} (ht : srv.plain t) :
    srv.Inside data (srv.interrupted s t) :=
  ⟨srv.interrupted_stays s t ht h.inTransaction, (srv.interrupted_hides s t).trans h.durable⟩

theorem Inside.foldl (h : srv.Inside data s) {ran : List Statement}
    (hran : ∀ t ∈ ran, srv.plain t) : srv.Inside data (ran.foldl srv.exec s) := by
  induction ran generalizing s with
  | nil => exact h
  | cons t rest ih =>
      have hfirst := h.exec (hran t List.mem_cons_self)
      exact ih hfirst fun u hu => hran u (List.mem_cons_of_mem _ hu)

/-- Plain statements keep a transaction, also when the last of them is cut short. -/
theorem Inside.request (h : srv.Inside data s) {ran : List Statement} {inFlight : Option Statement}
    (hran : ∀ t ∈ ran, srv.plain t) (hflight : ∀ t ∈ inFlight, srv.plain t) :
    srv.Inside data (srv.request s ran inFlight) := by
  have hrest := h.foldl hran
  cases inFlight with
  | none => exact hrest
  | some t => exact hrest.interrupted (hflight t rfl)

end Transactional
