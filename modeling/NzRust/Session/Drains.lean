import NzRust.Session.Faults

/-!
# Interrupted drains

What a drain leaves unread of a response. One that returns leaves nothing, and
returns what it would on the response alone; one that is interrupted between two
messages leaves the rest of the response.
-/

namespace NzRust.Response

open Wire
open Handshake (Step)

/-- A program on a session runs as it does on the view. -/
theorem run_sessionView {α : Type} (prog : Step α) (session : ReadBuffer × Stream) :
    (prog.run Handshake.syncReader.port session).outcome =
        (prog.run viewSync (sessionView session)).outcome ∧
      sessionView (prog.run Handshake.syncReader.port session).peer =
        (prog.run viewSync (sessionView session)).peer := by
  obtain ⟨hout, -, hpeer⟩ := Handshake.syncReader_serves.run_port prog session.1 session.2
  exact ⟨hout, hpeer.symm⟩

section Drains

variable {V S R K : Type} (files : ExternalFiles) (dec : Decoder V) {E : Engine V S R K}
  (hE : E.Counted dec)

include hE

/-! ## The errors of a drain -/

theorem availableRows_fault (k : K) (desc : DbosTupleDesc) (st : S) (b : ReadBuffer) {e : NzError}
    (h : (availableRows dec E k desc st b).1 = .error e) : e.isProtocolFault = true := by
  fun_induction availableRows dec E k desc st b with
  | case1 st b e' htry =>
      cases h
      unfold tryReadAvailableDbosRow at htry
      dsimp only at htry
      split at htry
      · cases htry
      split at htry
      next e'' hlen =>
        cases htry
        exact validateProtocolLength_error hlen
      · split at htry <;> cases htry
  | case2 st b htry => cases h
  | case3 st b decoded frameLen htry _ e' havailable =>
      cases h
      obtain ⟨payload, rfl⟩ := tryReadAvailableDbosRow_decoded dec htry
      exact hE.available havailable
  | case4 st b decoded frameLen htry _ st' havailable ih => exact ih h

/-- `I` is what the reads keep, and under it they fail as `Q` says. -/
theorem drainBuffered_raises {Q : NzError → Prop} (hQ : ∀ e, e.isProtocolFault = true → Q e)
    {I : View → Prop}
    (hread : ∀ n v, I v → I (viewSync.read n v).2 ∧ ∀ e, (viewSync.read n v).1 = .error e → Q e)
    (hdrop : ∀ v rest bytes, Consumed v rest bytes → I v → I rest) (fuel : Nat) (st : S)
    (session : ReadBuffer × Stream) (hsession : I (sessionView session)) {e : NzError}
    (hout : (drainBuffered files dec E fuel st session).outcome = .error e) : Q e := by
  induction fuel generalizing st session with
  | zero => cases hout
  | succ fuel ih =>
      obtain ⟨hsame, hpeer⟩ := run_sessionView (turn files dec E fuel st) session
      have hkept := run_keeps_of_read (turn files dec E fuel st) (fun n v hv => (hread n v hv).1)
        (fun _ hv => hv) hsession
      have hraises : ∀ e, ((turn files dec E fuel st).run viewSync (sessionView session)).outcome =
          .error e → Q e :=
        fun e => (raises_turn hQ files dec hE fuel st).outcome hread hsession
      rw [← hpeer] at hkept
      rw [← hsame] at hraises
      unfold drainBuffered at hout
      dsimp only at hout
      generalize (turn files dec E fuel st).run Handshake.syncReader.port session = r at *
      obtain ⟨out, sent, b, s⟩ := r
      cases out with
      | error e' =>
          cases hout
          exact hraises _ rfl
      | unfinished => cases hout
      | ok t =>
          cases t with
          | done st' result => cases hout
          | next st' => exact ih st' (b, s) hkept hout
          | rows k desc st' =>
              have hfault := fun e => availableRows_fault dec hE k desc st' b (e := e)
              obtain ⟨bytes, hconsumed⟩ := availableRows_consumes (E := E) dec k desc st' b s
              dsimp only at hout
              generalize availableRows dec E k desc st' b = rows at hfault hconsumed hout
              obtain ⟨e' | _, st'', b'⟩ := rows
              · cases hout
                exact hQ _ (hfault _ rfl)
              · exact ih st'' (b', s) (hdrop _ _ _ hconsumed hkept) hout

theorem drainBuffered_retiring (fuel : Nat) (st : S) (session : ReadBuffer × Stream) {e : NzError}
    (hout : (drainBuffered files dec E fuel st session).outcome = .error e) : Retiring e :=
  drainBuffered_raises (I := fun _ => True) files dec hE (fun _ => retiring_of_fault)
    (fun n v _ => ⟨trivial, viewSync_read_retiring n v⟩) (fun _ _ _ _ _ => trivial) fuel st session
    trivial hout

theorem drainBuffered_lasting (fuel : Nat) (st : S) (session : ReadBuffer × Stream)
    (hsession : Unbroken (sessionView session)) {e : NzError}
    (hout : (drainBuffered files dec E fuel st session).outcome = .error e) : Lasting e := by
  refine drainBuffered_raises files dec hE (fun _ => lasting_of_fault) viewSync_read_lasting ?_ fuel
    st session hsession hout
  intro v rest bytes hconsumed hv kind hmem
  apply hv kind
  rw [hconsumed]
  exact List.mem_append_right _ hmem

/-! ## What a drain leaves -/

/-- A drain that returns has taken a front of the view, and would return the same whatever followed
it. -/
theorem drainView_local (fuel : Nat) (st : S) (view : View) {result : R}
    (hout : (drainView files dec E fuel st view).outcome = .ok result) :
    ∃ bytes, Consumed view (drainView files dec E fuel st view).session bytes ∧
      ∀ rest, drainView files dec E fuel st (bytesView bytes ++ rest) =
        { drainView files dec E fuel st view with session := rest } := by
  induction fuel generalizing st view with
  | zero => cases hout
  | succ fuel ih =>
      have hturn : ∀ t, ((turn files dec E fuel st).run viewSync view).outcome = .ok t → _ :=
        fun t h => strict_local (strict_turn files dec hE fuel st) h
      unfold drainView at hout ⊢
      dsimp only at hout ⊢
      generalize (turn files dec E fuel st).run viewSync view = r at hturn hout ⊢
      obtain ⟨out, sent, rest⟩ := r
      cases out with
      | error e => cases hout
      | unfinished => cases hout
      | ok t =>
          obtain ⟨first, hfirst, hlocal⟩ := hturn t rfl
          cases t with
          | done st' result' =>
              cases hout
              refine ⟨first, hfirst, fun rest => ?_⟩
              rw [hlocal]
          | next st' =>
              obtain ⟨more, hmore, hrest⟩ := ih st' rest hout
              refine ⟨first ++ more, hfirst.trans hmore, fun rest => ?_⟩
              rw [bytesView_append, List.append_assoc, hlocal]
              exact congrArg (Ending.after sent) (hrest rest)
          | rows k desc st' =>
              obtain ⟨more, hmore, hrest⟩ := ih st' rest hout
              refine ⟨first ++ more, hfirst.trans hmore, fun rest => ?_⟩
              rw [bytesView_append, List.append_assoc, hlocal]
              exact congrArg (Ending.after sent) (hrest rest)

/-- A drain that returns has taken the whole response. -/
theorem drainView_unread (fuel : Nat) (st : S) {r : WireResponse} {view : View}
    (hview : viewBytes view = r.encode) {result : R}
    (hout : (drainView files dec E fuel st view).outcome = .ok result) :
    viewBytes (drainView files dec E fuel st view).session = [] := by
  induction fuel generalizing st r view with
  | zero => cases hout
  | succ fuel ih =>
      have hturn : ∀ t, ((turn files dec E fuel st).run viewSync view).outcome = .ok t → _ :=
        fun t => turn_unread files dec hE fuel st hview
      unfold drainView at hout ⊢
      dsimp only at hout ⊢
      generalize (turn files dec E fuel st).run viewSync view = run at hturn hout ⊢
      obtain ⟨out, sent, rest⟩ := run
      cases out with
      | error e => cases hout
      | unfinished => cases hout
      | ok t =>
          obtain ⟨hleft, hstands⟩ := hturn t rfl
          cases t with
          | done st' result' =>
              rcases hstands with ⟨r', -, hgoes, -⟩ | ⟨htail, -⟩
              · exact absurd rfl (hgoes st' result')
              · rw [WireResponse.left, htail] at hleft
                exact hleft
          | next st' =>
              rcases hstands with ⟨r', htail, -⟩ | ⟨-, st'', result', hdone⟩
              · rw [WireResponse.left, htail] at hleft
                exact ih st' hleft hout
              · cases hdone
          | rows k desc st' =>
              rcases hstands with ⟨r', htail, -⟩ | ⟨-, st'', result', hdone⟩
              · rw [WireResponse.left, htail] at hleft
                exact ih st' hleft hout
              · cases hdone

omit hE in
/-- A turn that fails at the code of its message has read nothing. -/
theorem turn_error_unread (n : Nat) (st : S) {view : View} {e : NzError}
    (hcode : (readByte.run viewSync view).outcome = .error e) :
    viewBytes ((turn files dec E n st).run viewSync view).peer = viewBytes view := by
  rw [turn_eq]
  simp only [readByte, bind, Prog.bind, Prog.take, Prog.run] at hcode ⊢
  cases hread : (viewSync.read 1 view).1 with
  | ok bytes =>
      rw [hread] at hcode
      cases hcode
  | error e' => exact viewSync_read_error hread

/-- Of a response that both drains walk over, a drain that fails between two messages leaves the
rest. -/
theorem drainBuffered_interrupted (fuel : Nat) (st : S) {r : WireResponse} (halike : r.Alike)
    {session : ReadBuffer × Stream} (hview : viewBytes (sessionView session) = r.encode) {e : NzError}
    (hout : (drainBuffered files dec E fuel st session).outcome = .error e)
    (hframe : frameInProgress files dec E fuel st session = false) :
    ∃ r' : WireResponse, r'.Alike ∧
      viewBytes (sessionView (drainBuffered files dec E fuel st session).session) = r'.encode := by
  induction fuel generalizing st r session with
  | zero => cases hout
  | succ fuel ih =>
      obtain ⟨hsame, hpeer⟩ := run_sessionView (turn files dec E fuel st) session
      have hcode := (run_sessionView readByte session).1
      have hturn : ∀ t, ((turn files dec E fuel st).run viewSync (sessionView session)).outcome =
          .ok t → _ := fun t => turn_unread files dec hE fuel st hview
      have hfailed : ∀ e, (readByte.run viewSync (sessionView session)).outcome = .error e → _ :=
        fun e => turn_error_unread (E := E) files dec fuel st
      rw [← hsame, ← hpeer] at hturn
      rw [← hcode, ← hpeer] at hfailed
      unfold drainBuffered at hout ⊢
      unfold frameInProgress at hframe
      dsimp only at hout hframe ⊢
      generalize (turn files dec E fuel st).run Handshake.syncReader.port session = run at *
      obtain ⟨out, sent, b, s⟩ := run
      cases out with
      | unfinished => cases hout
      | error e' =>
          dsimp only at hframe
          split at hframe
          · cases hframe
          next hnot =>
            cases hread : (readByte.run Handshake.syncReader.port session).outcome with
            | ok b => exact absurd hread (hnot b)
            | error e'' => exact ⟨r, halike, (hfailed e'' hread).trans hview⟩
            | unfinished =>
                rw [hcode] at hread
                have htotal : Wire.Total readByte := .bind (total_take 1) fun _ => .ret _
                exact absurd hread (htotal.finishes _)
      | ok t =>
          obtain ⟨hleft, hstands⟩ := hturn t rfl
          rcases hstands with ⟨r', htail, -, hnext⟩ | ⟨-, st', result, rfl⟩
          · obtain ⟨st', rfl⟩ := hnext halike
            rw [WireResponse.left, htail] at hleft
            exact ih st' (halike.tail htail) hleft hout hframe
          · cases hout

/-- A drain that returns leaves nothing of the response, and ends as a drain of it alone does. -/
theorem drainBuffered_own {Open : K → DbosTupleDesc → S → Prop} (hlawful : E.Lawful Open) {fuel : Nat}
    {st : S} {r : WireResponse} {session : ReadBuffer × Stream}
    (hview : viewBytes (sessionView session) = r.encode) (hfuel : (sessionView session).length < fuel)
    {result : R} (hout : (drainBuffered files dec E fuel st session).outcome = .ok result) :
    viewBytes (sessionView (drainBuffered files dec E fuel st session).session) = [] ∧
      ∀ {fuel' session'}, sessionView session' = bytesView r.encode → r.encode.length < fuel' →
        (drainBuffered files dec E fuel' st session').outcome = .ok result ∧
        (drainBuffered files dec E fuel' st session').state =
          (drainBuffered files dec E fuel st session).state := by
  obtain ⟨hsame, hstate, -, hleft⟩ := drainBuffered_drainView files dec hlawful fuel st session hfuel
  have hrun := hsame.symm.trans hout
  have hunread := drainView_unread files dec hE fuel st hview hrun
  rw [hleft result hout]
  refine ⟨hunread, fun {fuel' session'} hsession hfuel' => ?_⟩
  obtain ⟨taken, hconsumed, hlocal⟩ := drainView_local files dec hE fuel st _ hrun
  have hbytes := hconsumed.unread
  rw [hview, hunread, List.append_nil] at hbytes
  have halone := hlocal []
  rw [List.append_nil, ← hbytes] at halone
  have hlen : (sessionView session').length < fuel' := by
    rw [hsession, bytesView, List.length_map]
    exact hfuel'
  have halike := drainBuffered_drainView files dec hlawful fuel' st session' hlen
  rw [hsession] at hlen halike
  have hshort : (bytesView r.encode).length < fuel := by
    rw [← hview]
    refine Nat.lt_of_le_of_lt ?_ hfuel
    rw [bytesView, List.length_map]
    exact List.length_filterMap_le _ _
  -- both have a turn for every byte
  have hmin : (bytesView r.encode).length < min fuel fuel' := lt_min hshort hlen
  rw [← (drainView_settled files dec hlawful _ st _ hmin (Nat.min_le_left _ _)
    (Nat.min_le_right _ _)).2, halone] at halike
  exact ⟨halike.outcome.trans hrun, halike.state.trans hstate.symm⟩

omit hE in
/-- A drain that has a turn for every item ends. -/
theorem drainBuffered_finishes {Open : K → DbosTupleDesc → S → Prop} (hlawful : E.Lawful Open)
    {fuel : Nat} {session : ReadBuffer × Stream} (hfuel : (sessionView session).length < fuel)
    (st : S) : (drainBuffered files dec E fuel st session).outcome ≠ .unfinished := by
  rw [(drainBuffered_drainView files dec hlawful fuel st session hfuel).outcome]
  exact (drainView_settled files dec hlawful _ st _ hfuel (Nat.le_refl _) (Nat.le_refl _)).1

end Drains

end NzRust.Response
