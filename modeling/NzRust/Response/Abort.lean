import NzRust.Response.Runs

/-!
# A sink that fails

A drain whose sink fails is the drain of a sink that never fails, with the
calls cut behind the first one that was answered with an error. Everything
else that the loop carries is the same, so the two walk over the same messages.
-/

namespace NzRust.Response

open Wire
open Handshake (Step)

variable {V : Type}

/-- A sink that never fails. -/
def acceptAll : Sink V :=
  fun _ => .ok ()

/-! ## Cutting a list of calls -/

/-- The calls that a sink receives of `calls`, behind those in `before`, and the error it ends
with. -/
def cutFrom (sink : Sink V) (before : List (Callback V)) :
    List (Callback V) → List (Callback V) × Option NzError
  | [] => (before, none)
  | cb :: calls =>
      match sink (before ++ [cb]) with
      | .ok () => cutFrom sink (before ++ [cb]) calls
      | .error e => (before ++ [cb], some e)

def cut (sink : Sink V) (calls : List (Callback V)) : List (Callback V) × Option NzError :=
  cutFrom sink [] calls

section Cut

variable (sink : Sink V)

theorem cutFrom_append (before calls more : List (Callback V)) :
    cutFrom sink before (calls ++ more) =
      match (cutFrom sink before calls).2 with
      | none => cutFrom sink (before ++ calls) more
      | some _ => cutFrom sink before calls := by
  induction calls generalizing before with
  | nil => simp [cutFrom]
  | cons cb calls ih =>
      simp only [List.cons_append, cutFrom]
      cases sink (before ++ [cb]) with
      | ok u =>
          simp only
          rw [ih, List.append_assoc, List.singleton_append]
      | error e => rfl

theorem cutFrom_none {before calls : List (Callback V)} (h : (cutFrom sink before calls).2 = none) :
    (cutFrom sink before calls).1 = before ++ calls := by
  induction calls generalizing before with
  | nil => simp [cutFrom]
  | cons cb calls ih =>
      simp only [cutFrom] at h ⊢
      cases hcb : sink (before ++ [cb]) with
      | ok u =>
          rw [hcb] at h
          simp only at h ⊢
          rw [ih h, List.append_assoc, List.singleton_append]
      | error e =>
          rw [hcb] at h
          cases h

/-- A call more: none is received after an error. -/
theorem cut_snoc (calls : List (Callback V)) (cb : Callback V) :
    cut sink (calls ++ [cb]) =
      match (cut sink calls).2 with
      | some _ => cut sink calls
      | none =>
          match sink (calls ++ [cb]) with
          | .ok () => (calls ++ [cb], none)
          | .error e => (calls ++ [cb], some e) := by
  unfold cut
  rw [cutFrom_append]
  cases (cutFrom sink [] calls).2 with
  | some e => rfl
  | none => rfl

theorem cut_none {calls : List (Callback V)} (h : (cut sink calls).2 = none) :
    (cut sink calls).1 = calls :=
  cutFrom_none sink h

/-- What a sink receives: a beginning of the calls, in which it fails at the last one if at all. -/
structure Received (before calls taken : List (Callback V)) (error : Option NzError) : Prop where
  beginning : taken <+: calls
  answered : ∀ first cb rest, taken = first ++ cb :: rest → rest ≠ [] ∨ error = none →
    sink (before ++ (first ++ [cb])) = .ok ()
  failed : ∀ e, error = some e → sink (before ++ taken) = .error e

theorem cutFrom_spec (before calls : List (Callback V)) :
    ∃ taken, (cutFrom sink before calls).1 = before ++ taken ∧
      Received sink before calls taken (cutFrom sink before calls).2 := by
  induction calls generalizing before with
  | nil =>
      refine ⟨[], (List.append_nil before).symm, List.nil_prefix, ?_, ?_⟩
      · intro first cb rest h
        cases first <;> cases h
      · intro e h
        cases h
  | cons cb calls ih =>
      simp only [cutFrom]
      cases hcb : sink (before ++ [cb]) with
      | error e =>
          refine ⟨[cb], rfl, List.cons_prefix_cons.mpr ⟨rfl, List.nil_prefix⟩, ?_, ?_⟩
          · intro first cb' rest h hrest
            cases first with
            | nil =>
                cases h
                rcases hrest with hrest | hrest
                · exact absurd rfl hrest
                · cases hrest
            | cons c first =>
                obtain ⟨-, h⟩ := List.cons_eq_cons.mp h
                cases first <;> cases h
          · rintro _ ⟨⟩
            exact hcb
      | ok u =>
          obtain ⟨taken, htaken, hbeginning, hanswered, hfailed⟩ := ih (before ++ [cb])
          rw [List.append_assoc, List.singleton_append] at htaken
          refine ⟨cb :: taken, htaken, List.cons_prefix_cons.mpr ⟨rfl, hbeginning⟩, ?_, ?_⟩
          · intro first cb' rest h hrest
            cases first with
            | nil =>
                cases h
                exact hcb
            | cons c first =>
                obtain ⟨rfl, htail⟩ := List.cons_eq_cons.mp h
                have := hanswered first cb' rest htail hrest
                rw [List.append_assoc] at this
                exact this
          · intro e he
            have := hfailed e he
            rw [List.append_assoc] at this
            exact this

theorem cut_spec (calls : List (Callback V)) :
    Received sink [] calls (cut sink calls).1 (cut sink calls).2 := by
  obtain ⟨taken, htaken, hreceived⟩ := cutFrom_spec sink [] calls
  rw [List.nil_append] at htaken
  unfold cut
  rw [htaken]
  exact hreceived

end Cut

/-! ## The state of a drain whose sink fails -/

namespace StreamState

variable (sink : Sink V)

/-- The state with its calls cut. -/
def restrict (st : StreamState V) : StreamState V :=
  { st with
    calls := (cut sink st.calls).1
    sinkError := (cut sink st.calls).2
    sinkCancelSent := (cut sink st.calls).2.isSome
    cancels := if (cut sink st.calls).2.isSome then 1 else 0 }

/-- A state of the drain whose sink never fails. -/
structure Calm (st : StreamState V) : Prop where
  sinkError : st.sinkError = none
  sinkCancelSent : st.sinkCancelSent = false
  cancels : st.cancels = 0

theorem Calm.calls {st : StreamState V} (h : st.Calm) (calls : List (Callback V)) :
    { st with calls := calls }.Calm :=
  ⟨h.sinkError, h.sinkCancelSent, h.cancels⟩

/-- What an operation that may call the sink does to a state with its calls cut, when the same
operation takes `before` to `after` for a sink that never fails. -/
structure Follows (before after : StreamState V) (r : StreamState V × Bool) : Prop where
  state : r.1 = { after.restrict sink with
    sinkCancelSent := (before.restrict sink).sinkCancelSent
    cancels := (before.restrict sink).cancels }
  failed : r.2 = ((cut sink before.calls).2.isNone && (cut sink after.calls).2.isSome)
  stays : (cut sink before.calls).2.isSome = true → (cut sink after.calls).2.isSome = true

variable {sink}

theorem Follows.cancel {before after : StreamState V} {r : StreamState V × Bool}
    (h : Follows sink before after r) : cancelIfSinkAborted r = after.restrict sink := by
  obtain ⟨st, failed⟩ := r
  obtain ⟨hstate, hfailed, hstays⟩ := h
  dsimp only at hstate hfailed
  subst hstate hfailed
  unfold cancelIfSinkAborted restrict
  cases hbefore : (cut sink before.calls).2 with
  | none =>
      cases hafter : (cut sink after.calls).2 with
      | none => rfl
      | some e => rfl
  | some e =>
      have hafter := hstays (by rw [hbefore]; rfl)
      simp [hafter]

theorem Follows.refl {before after : StreamState V} (hcalls : after.calls = before.calls) :
    Follows sink before after (after.restrict sink, false) where
  state := by
    unfold restrict
    rw [hcalls]
  failed := by
    rw [hcalls]
    cases (cut sink before.calls).2 <;> rfl
  stays := by
    rw [hcalls]
    exact id

/-- A call that the sink still receives. -/
theorem follows_call {st : StreamState V} (hnone : (cut sink st.calls).2 = none)
    (cb : Callback V) :
    Follows sink st { st with calls := st.calls ++ [cb] } ((st.restrict sink).call sink cb) := by
  have hcut := cut_snoc sink st.calls cb
  rw [hnone] at hcut
  dsimp only at hcut
  have hcalls : (st.restrict sink).calls = st.calls := cut_none sink hnone
  unfold call
  dsimp only
  rw [hcalls]
  cases hcb : sink (st.calls ++ [cb]) with
  | ok u =>
      rw [hcb] at hcut
      refine ⟨?_, ?_, ?_⟩
      · simp only [restrict, hcut, hnone]
      · rw [hcut, hnone]
        rfl
      · rw [hnone]
        intro hfalse
        cases hfalse
  | error e =>
      rw [hcb] at hcut
      refine ⟨?_, ?_, ?_⟩
      · simp only [restrict, hcut, hnone]
      · rw [hcut, hnone]
        rfl
      · rw [hnone]
        intro hfalse
        cases hfalse

/-- A call that comes after an error changes nothing. -/
theorem cut_of_some {calls : List (Callback V)} {e : NzError} (h : (cut sink calls).2 = some e)
    (cb : Callback V) : cut sink (calls ++ [cb]) = cut sink calls := by
  rw [cut_snoc, h]

theorem set_of_getD {flags : List Bool} {index : Nat} (h : flags.getD index false = true) :
    flags.set index true = flags := by
  rw [List.getD_eq_getElem?_getD] at h
  cases hflag : flags[index]? with
  | none =>
      rw [hflag] at h
      cases h
  | some flag =>
      rw [hflag] at h
      cases h
      obtain ⟨hlt, hget⟩ := List.getElem?_eq_some_iff.mp hflag
      rw [← hget, List.set_getElem_self]

theorem follows_emitStreamColumns {st : StreamState V} (hst : st.Calm) (index : Nat) :
    (st.emitStreamColumns acceptAll index).1.Calm ∧
      Follows sink st (st.emitStreamColumns acceptAll index).1
        ((st.restrict sink).emitStreamColumns sink index) := by
  have hcalm : ¬ st.sinkError.isSome = true := by
    rw [hst.sinkError]
    decide
  simp only [emitStreamColumns, if_neg hcalm]
  by_cases hsent : st.columnsSent.getD index false = true
  · -- nothing is called; after an error the flag is written once more
    rw [if_pos hsent]
    refine ⟨hst, ?_⟩
    have hwritten : { st.restrict sink with
        columnsSent := (st.restrict sink).columnsSent.set index true } = st.restrict sink := by
      show { st.restrict sink with columnsSent := st.columnsSent.set index true } = _
      rw [set_of_getD hsent]
      rfl
    have hsent' : (st.restrict sink).columnsSent.getD index false = true := hsent
    rw [hwritten, if_pos hsent']
    split
    · exact .refl rfl
    · exact .refl rfl
  · have hsent' : ¬ (st.restrict sink).columnsSent.getD index false = true := hsent
    rw [if_neg hsent, if_neg hsent']
    refine ⟨⟨hst.sinkError, hst.sinkCancelSent, hst.cancels⟩, ?_⟩
    cases hcut : (cut sink st.calls).2 with
    | some e =>
        have hfailed : (st.restrict sink).sinkError.isSome = true := by
          show (cut sink st.calls).2.isSome = true
          rw [hcut]
          rfl
        rw [if_pos hfailed]
        refine ⟨?_, ?_, ?_⟩
        · simp only [restrict, call, acceptAll, cut_of_some hcut]
        · simp only [call, acceptAll, cut_of_some hcut, hcut]
          rfl
        · simp only [call, acceptAll, cut_of_some hcut]
          exact id
    | none =>
        have hfailed : ¬ (st.restrict sink).sinkError.isSome = true := by
          show ¬ (cut sink st.calls).2.isSome = true
          rw [hcut]
          decide
        rw [if_neg hfailed]
        obtain ⟨hstate, hnew, hstays⟩ := follows_call hcut
          (.columns index (st.setAt index).columns (st.setAt index).nullability)
        have hset : (st.restrict sink).setAt index = st.setAt index := rfl
        rw [hset]
        refine ⟨?_, hnew, hstays⟩
        rw [hstate]
        rfl

theorem follows_emitStreamRow {st : StreamState V} (hst : st.Calm) (index : Nat)
    (values : List V) :
    (st.emitStreamRow acceptAll index values).1.Calm ∧
      Follows sink st (st.emitStreamRow acceptAll index values).1
        ((st.restrict sink).emitStreamRow sink index values) := by
  obtain ⟨hcalm, hstate, hnew, hstays⟩ := @follows_emitStreamColumns _ sink _ hst index
  unfold emitStreamRow
  generalize st.emitStreamColumns acceptAll index = first at *
  generalize (st.restrict sink).emitStreamColumns sink index = r at *
  obtain ⟨st₁, new₁⟩ := first
  obtain ⟨st', new'⟩ := r
  dsimp only at *
  have hcalled : st₁.sinkError.isNone = true := by
    rw [hcalm.sinkError]
    rfl
  rw [if_pos hcalled]
  refine ⟨⟨hcalm.sinkError, hcalm.sinkCancelSent, hcalm.cancels⟩, ?_⟩
  cases hcut : (cut sink st₁.calls).2 with
  | some e =>
      have hfailed : ¬ st'.sinkError.isNone = true := by
        rw [hstate]
        show ¬ (cut sink st₁.calls).2.isNone = true
        rw [hcut]
        exact Bool.false_ne_true
      rw [if_neg hfailed]
      refine ⟨?_, ?_, ?_⟩
      · rw [hstate]
        simp only [restrict, call, acceptAll, cut_of_some hcut]
      · simp only [call, acceptAll, cut_of_some hcut]
        exact hnew
      · simp only [call, acceptAll, cut_of_some hcut]
        exact hstays
  | none =>
      have hbefore : (cut sink st.calls).2 = none := by
        cases hb : (cut sink st.calls).2 with
        | none => rfl
        | some e =>
            have := hstays (by rw [hb]; rfl)
            rw [hcut] at this
            cases this
      have hsame : st' = st₁.restrict sink := by
        rw [hstate]
        simp only [restrict, hbefore, hcut]
      have hfailed : st'.sinkError.isNone = true := by
        rw [hsame]
        show (cut sink st₁.calls).2.isNone = true
        rw [hcut]
        rfl
      obtain ⟨hstate₂, hnew₂, -⟩ :=
        follows_call hcut (.values index (st₁.setAt index).columns values)
      rw [if_pos hfailed, hsame]
      have hset : (st₁.restrict sink).setAt index = st₁.setAt index := rfl
      rw [hset]
      refine ⟨?_, ?_, ?_⟩
      · rw [hstate₂]
        simp only [restrict, hbefore, hcut]
        rfl
      · rw [hnew, hnew₂, hcut, hbefore]
        rfl
      · rw [hbefore]
        intro hfalse
        cases hfalse

theorem follows_finishStreamResultSet {st : StreamState V} (hst : st.Calm) :
    (st.finishStreamResultSet acceptAll).1.Calm ∧
      Follows sink st (st.finishStreamResultSet acceptAll).1
        ((st.restrict sink).finishStreamResultSet sink) := by
  unfold finishStreamResultSet
  have hindex : (st.restrict sink).currentIndex = st.currentIndex := rfl
  rw [hindex]
  cases st.currentIndex with
  | none => exact ⟨hst, .refl rfl⟩
  | some index =>
      have hclosed : { st with currentIndex := none }.Calm :=
        ⟨hst.sinkError, hst.sinkCancelSent, hst.cancels⟩
      obtain ⟨hcalm, hstate, hnew, hstays⟩ := @follows_emitStreamColumns _ sink _ hclosed index
      exact ⟨hcalm, hstate, hnew, hstays⟩

/-- A sink that never fails is never cancelled for. -/
theorem cancelIfSinkAborted_calm {r : StreamState V × Bool} (h : r.2 = false) :
    cancelIfSinkAborted r = r.1 := by
  unfold cancelIfSinkAborted
  rw [h]
  rfl

theorem emitStreamColumns_acceptAll (st : StreamState V) (index : Nat) :
    (st.emitStreamColumns acceptAll index).2 = false := by
  unfold emitStreamColumns
  split
  · rfl
  split
  · rfl
  · rfl

theorem emitStreamRow_acceptAll (st : StreamState V) (index : Nat) (values : List V) :
    (st.emitStreamRow acceptAll index values).2 = false := by
  have hcolumns := emitStreamColumns_acceptAll st index
  unfold emitStreamRow
  dsimp only
  split
  · show (_ || false) = false
    rw [hcolumns]
    rfl
  · exact hcolumns

theorem finishStreamResultSet_acceptAll (st : StreamState V) :
    (st.finishStreamResultSet acceptAll).2 = false := by
  unfold finishStreamResultSet
  split
  · rfl
  · exact emitStreamColumns_acceptAll _ _

/-! ### The messages -/

/-- A row that is emitted, and the cancel behind it. -/
theorem restrict_emitStreamRow {st : StreamState V} (hst : st.Calm) (index : Nat)
    (values : List V) :
    let after := cancelIfSinkAborted (st.emitStreamRow acceptAll index values)
    after.Calm ∧
      cancelIfSinkAborted ((st.restrict sink).emitStreamRow sink index values) =
        after.restrict sink := by
  obtain ⟨hcalm, hfollows⟩ := @follows_emitStreamRow _ sink _ hst index values
  dsimp only
  rw [cancelIfSinkAborted_calm (emitStreamRow_acceptAll st index values)]
  exact ⟨hcalm, hfollows.cancel⟩

theorem restrict_finishStreamResultSet {st : StreamState V} (hst : st.Calm) :
    let after := cancelIfSinkAborted (st.finishStreamResultSet acceptAll)
    after.Calm ∧
      cancelIfSinkAborted ((st.restrict sink).finishStreamResultSet sink) = after.restrict sink := by
  obtain ⟨hcalm, hfollows⟩ := @follows_finishStreamResultSet _ sink _ hst
  dsimp only
  rw [cancelIfSinkAborted_calm (finishStreamResultSet_acceptAll st)]
  exact ⟨hcalm, hfollows.cancel⟩

/-- A call outside of a result set, made unless the sink has failed. -/
theorem restrict_call {st : StreamState V} (hst : st.Calm) (cb : Callback V) :
    let after :=
      if st.sinkError.isNone then cancelIfSinkAborted (st.call acceptAll cb) else st
    after.Calm ∧
      (if (st.restrict sink).sinkError.isNone then
        cancelIfSinkAborted ((st.restrict sink).call sink cb)
      else st.restrict sink) = after.restrict sink := by
  have hnone : st.sinkError.isNone = true := by
    rw [hst.sinkError]
    rfl
  have hcall : cancelIfSinkAborted (st.call acceptAll cb) =
      { st with calls := st.calls ++ [cb] } := cancelIfSinkAborted_calm rfl
  dsimp only
  rw [if_pos hnone, hcall]
  refine ⟨hst.calls _, ?_⟩
  cases hcut : (cut sink st.calls).2 with
  | none =>
      have hgoes : (st.restrict sink).sinkError.isNone = true := by
        show (cut sink st.calls).2.isNone = true
        rw [hcut]
        rfl
      rw [if_pos hgoes]
      exact (follows_call hcut cb).cancel
  | some e =>
      have hstops : ¬ (st.restrict sink).sinkError.isNone = true := by
        show ¬ (cut sink st.calls).2.isNone = true
        rw [hcut]
        exact Bool.false_ne_true
      rw [if_neg hstops]
      simp only [restrict, cut_of_some hcut]

theorem restrict_completeCommand {st : StreamState V} (hst : st.Calm) (data : Bytes) :
    (st.completeCommand acceptAll data).Calm ∧
      (st.restrict sink).completeCommand sink data =
        (st.completeCommand acceptAll data).restrict sink := by
  unfold completeCommand
  dsimp only
  generalize parseCommandCompleteRows (fromUtf8Lossy data) = n
  have hcounted : { st with rowsAffected := addRows st.rowsAffected n }.Calm :=
    ⟨hst.sinkError, hst.sinkCancelSent, hst.cancels⟩
  obtain ⟨hcalm, hfinish⟩ := @restrict_finishStreamResultSet _ sink _ hcounted
  have hsame : { st.restrict sink with rowsAffected := addRows st.rowsAffected n } =
      { st with rowsAffected := addRows st.rowsAffected n }.restrict sink := rfl
  have hrows : (st.restrict sink).rowsAffected = st.rowsAffected := rfl
  rw [hrows, hsame, hfinish]
  exact restrict_call hcalm _

theorem restrict_addNotice {st : StreamState V} (hst : st.Calm) (data : Bytes) :
    (st.addNotice acceptAll data).Calm ∧
      (st.restrict sink).addNotice sink data = (st.addNotice acceptAll data).restrict sink := by
  unfold addNotice
  dsimp only
  split
  · exact ⟨hst, rfl⟩
  · obtain ⟨hcalm, hcall⟩ := @restrict_call _ sink _ hst
      (.notice (parseBackendErrorFields data).message)
    refine ⟨⟨hcalm.sinkError, hcalm.sinkCancelSent, hcalm.cancels⟩, ?_⟩
    rw [hcall]
    rfl

theorem restrict_ensureStreamResultSet (st : StreamState V) (columns : List ColumnDesc)
    (nullability : Option (List Bool)) :
    (st.restrict sink).ensureStreamResultSet columns nullability =
      ((st.ensureStreamResultSet columns nullability).1.restrict sink,
        (st.ensureStreamResultSet columns nullability).2) := by
  unfold ensureStreamResultSet
  have hindex : (st.restrict sink).currentIndex = st.currentIndex := rfl
  rw [hindex]
  cases st.currentIndex with
  | none => rfl
  | some index => rfl

theorem Calm.ensureStreamResultSet {st : StreamState V} (hst : st.Calm)
    (columns : List ColumnDesc) (nullability : Option (List Bool)) :
    (st.ensureStreamResultSet columns nullability).1.Calm := by
  unfold StreamState.ensureStreamResultSet
  split
  · exact hst
  · exact ⟨hst.sinkError, hst.sinkCancelSent, hst.cancels⟩

theorem restrict_describe {st : StreamState V} (hst : st.Calm) (columns : List ColumnDesc) :
    (st.describe acceptAll columns).Calm ∧
      (st.restrict sink).describe sink columns =
        (st.describe acceptAll columns).restrict sink := by
  obtain ⟨hcalm, hfinish⟩ := @restrict_finishStreamResultSet _ sink _ hst
  unfold describe
  dsimp only at hcalm hfinish ⊢
  rw [hfinish, restrict_ensureStreamResultSet]
  have hopened := hcalm.ensureStreamResultSet columns none
  exact ⟨⟨hopened.sinkError, hopened.sinkCancelSent, hopened.cancels⟩, rfl⟩

theorem restrict_describeStandard {st : StreamState V} (hst : st.Calm) (desc : DbosTupleDesc) :
    (st.describeStandard acceptAll desc).Calm ∧
      (st.restrict sink).describeStandard sink desc =
        (st.describeStandard acceptAll desc).restrict sink := by
  unfold describeStandard
  dsimp only
  generalize some (desc.fields.map (·.nullAllowed)) = nullability
  have hcached : (st.restrict sink).cachedColumns = st.cachedColumns := rfl
  rw [hcached]
  generalize st.cachedColumns.getD desc.toColumnDescs = columns
  have hset : { st.restrict sink with
      descriptor := some desc
      nullability := nullability
      cachedColumns := some columns } =
      { st with
        descriptor := some desc
        nullability := nullability
        cachedColumns := some columns }.restrict sink := rfl
  rw [hset, restrict_ensureStreamResultSet]
  have hdescribed : { st with
      descriptor := some desc
      nullability := nullability
      cachedColumns := some columns }.Calm := ⟨hst.sinkError, hst.sinkCancelSent, hst.cancels⟩
  have hopened := hdescribed.ensureStreamResultSet columns nullability
  generalize StreamState.ensureStreamResultSet _ columns nullability = opened at hopened ⊢
  have hcalm : { opened.1 with
      resultSets := opened.1.resultSets.modify opened.2 fun set =>
        { set with nullability := nullability } }.Calm :=
    ⟨hopened.sinkError, hopened.sinkCancelSent, hopened.cancels⟩
  obtain ⟨hafter, hfollows⟩ := @follows_emitStreamColumns _ sink _ hcalm opened.2
  rw [cancelIfSinkAborted_calm (emitStreamColumns_acceptAll _ _)]
  exact ⟨hafter, hfollows.cancel⟩

theorem Calm.deferDecode {st : StreamState V} (hst : st.Calm) (e : NzError) :
    (st.deferDecode e).Calm :=
  ⟨hst.sinkError, hst.sinkCancelSent, hst.cancels⟩

theorem restrict_streamRow {st : StreamState V} (hst : st.Calm) (columns : List ColumnDesc)
    (decoded : Decoded V) :
    (∀ st' o, st.streamRow acceptAll columns decoded = .ok (st', o) → st'.Calm) ∧
      (st.restrict sink).streamRow sink columns decoded =
        (st.streamRow acceptAll columns decoded).map fun stored =>
          (stored.1.restrict sink, stored.2) := by
  cases decoded with
  | malformed e =>
      refine ⟨?_, rfl⟩
      intro st' o h
      cases h
  | undecodable e =>
      refine ⟨?_, rfl⟩
      intro st' o h
      cases h
      exact hst.deferDecode e
  | row values =>
      have hopened := hst.ensureStreamResultSet columns st.nullability
      have hnullability : (st.restrict sink).nullability = st.nullability := rfl
      simp only [streamRow, hnullability, restrict_ensureStreamResultSet]
      generalize st.ensureStreamResultSet columns st.nullability = opened at hopened ⊢
      obtain ⟨hcalm, hrow⟩ := @restrict_emitStreamRow _ sink _ hopened opened.2 values
      refine ⟨?_, ?_⟩
      · intro st' o h
        cases h
        exact hcalm
      · rw [hrow]
        rfl

theorem restrict_streamAvailable {st : StreamState V} (hst : st.Calm) (index : Nat)
    (decoded : Decoded V) :
    (∀ st', st.streamAvailable acceptAll index decoded = .ok st' → st'.Calm) ∧
      (st.restrict sink).streamAvailable sink index decoded =
        (st.streamAvailable acceptAll index decoded).map (restrict sink) := by
  cases decoded with
  | malformed e =>
      refine ⟨?_, rfl⟩
      intro st' h
      cases h
  | undecodable e =>
      refine ⟨?_, rfl⟩
      intro st' h
      cases h
      exact hst.deferDecode e
  | row values =>
      obtain ⟨hcalm, hrow⟩ := @restrict_emitStreamRow _ sink _ hst index values
      refine ⟨?_, ?_⟩
      · intro st' h
        cases h
        exact hcalm
      · simp only [streamAvailable, hrow]
        rfl

end StreamState

/-! ## The drain of a sink that fails -/

section Drain

variable (dec : Decoder V)

/-- The drain of a sink that never fails, up to ReadyForQuery. -/
def restingEngine : Engine V (StreamState V) Unit Nat :=
  { streamEngine dec acceptAll with finish := fun st => (st, ()) }

variable (sink : Sink V)

theorem streamDataRow_restrict {st : StreamState V} (hst : st.Calm) (data : Bytes) :
    (∀ st', streamDataRow dec acceptAll st data = .ok st' → st'.Calm) ∧
      streamDataRow dec sink (st.restrict sink) data =
        (streamDataRow dec acceptAll st data).map (StreamState.restrict sink) := by
  unfold streamDataRow
  have hcached : (st.restrict sink).cachedColumns = st.cachedColumns := rfl
  rw [hcached]
  cases st.cachedColumns with
  | none =>
      refine ⟨?_, rfl⟩
      intro st' h
      cases h
  | some columns =>
      obtain ⟨hcalm, hrow⟩ := @StreamState.restrict_streamRow _ sink _ hst columns
        (dec.text columns data)
      dsimp only
      rw [hrow]
      cases hstored : st.streamRow acceptAll columns (dec.text columns data) with
      | error e =>
          refine ⟨?_, rfl⟩
          intro st' h
          cases h
      | ok stored =>
          refine ⟨?_, rfl⟩
          intro st' h
          cases h
          exact hcalm _ _ hstored

/-- The program of a sink that fails goes the way of the program of one that does not. -/
def Corresponds (p p' : Step (StreamState V)) : Prop :=
  Returns StreamState.Calm p ∧ p' = p.bind fun st => .ret (st.restrict sink)

theorem Corresponds.counted (field : String) {p p' : Bytes → Step (StreamState V)}
    (h : ∀ data, Corresponds sink (p data) (p' data)) :
    Corresponds sink (readCounted field >>= p) (readCounted field >>= p') := by
  refine ⟨.bind _ fun data => (h data).1, ?_⟩
  show Prog.bind _ _ = (Prog.bind _ _).bind _
  rw [Prog.bind_assoc]
  congr 1
  funext data
  exact (h data).2

theorem Corresponds.ret {st st' : StreamState V} (h : st.Calm ∧ st' = st.restrict sink) :
    Corresponds sink (.ret st) (.ret st') :=
  ⟨.ret h.1, congrArg Prog.ret h.2⟩

/-- A parsed payload that changes the state. -/
theorem Corresponds.parsed {α : Type} (r : NzResult α) {f f' : α → StreamState V}
    (h : ∀ a, (f a).Calm ∧ f' a = (f a).restrict sink) :
    Corresponds sink (Prog.ofExcept r >>= fun a => .ret (f a))
      (Prog.ofExcept r >>= fun a => .ret (f' a)) := by
  cases r with
  | error e => exact ⟨.fail e, rfl⟩
  | ok a => exact .ret sink (h a)

theorem streamFramed_restrict {st : StreamState V} (hst : st.Calm) (code : UInt8) :
    Corresponds sink (streamFramed dec acceptAll st code)
      (streamFramed dec sink (st.restrict sink) code) := by
  have hkept (field : String) : Corresponds sink (readCounted field >>= fun _ => .ret st)
      (readCounted field >>= fun _ => .ret (st.restrict sink)) :=
    .counted sink field fun _ => .ret sink ⟨hst, rfl⟩
  unfold streamFramed
  split
  · exact .counted sink _ fun data => .ret sink (StreamState.restrict_completeCommand hst data)
  split
  · exact hkept _
  split
  · exact hkept _
  split
  · exact .counted sink _ fun data => .ret sink
      ⟨⟨hst.sinkError, hst.sinkCancelSent, hst.cancels⟩, rfl⟩
  split
  · exact .counted sink _ fun data => .ret sink (StreamState.restrict_addNotice hst data)
  split
  · exact .counted sink _ fun data => .parsed sink _ fun columns =>
      StreamState.restrict_describe hst columns
  split
  · refine .counted sink _ fun data => ?_
    obtain ⟨hcalm, hrow⟩ := streamDataRow_restrict dec sink hst data
    rw [hrow]
    cases hstored : streamDataRow dec acceptAll st data with
    | error e => exact ⟨.fail e, rfl⟩
    | ok st' => exact ⟨.ret (hcalm st' hstored), rfl⟩
  split
  · exact .counted sink _ fun data => .parsed sink _ fun desc =>
      StreamState.restrict_describeStandard hst desc
  · exact hkept _

theorem restingEngine_maps :
    (restingEngine dec).Maps (streamEngine dec sink) StreamState.Calm (StreamState.restrict sink)
      fun p => (p.1.restrict sink).finish sink where
  descriptor _ := rfl
  row hst _ decoded := (StreamState.restrict_streamRow hst _ decoded).2
  available hst k _ decoded := (StreamState.restrict_streamAvailable hst k decoded).2
  framed hst code := (streamFramed_restrict dec sink hst code).2
  finish _ := rfl
  row_keeps hst h := (@StreamState.restrict_streamRow _ sink _ hst _ _).1 _ _ h
  available_keeps hst h := (@StreamState.restrict_streamAvailable _ sink _ hst _ _).1 _ h
  framed_keeps hst code := (streamFramed_restrict dec sink hst code).1
  finish_keeps hst := hst

theorem strict_streamFramed (st : StreamState V) (code : UInt8) :
    Strict (streamFramed dec sink st code) := by
  unfold streamFramed
  repeat' split
  all_goals
    refine .bind (strict_readCounted _) fun _ => ?_
    first
    | exact .ret _
    | exact .ofExcept _
    | exact .bind (.ofExcept _) fun _ => .ret _

theorem cutFrom_acceptAll (before calls : List (Callback V)) :
    cutFrom acceptAll before calls = (before ++ calls, none) := by
  induction calls generalizing before with
  | nil => simp [cutFrom]
  | cons cb calls ih =>
      simp only [cutFrom, acceptAll]
      exact (ih _).trans (by rw [List.append_assoc, List.singleton_append])

theorem StreamState.Calm.restrict_acceptAll {st : StreamState V} (h : st.Calm) :
    st.restrict acceptAll = st := by
  have hcut : cut acceptAll st.calls = (st.calls, none) := cutFrom_acceptAll [] st.calls
  obtain ⟨herror, hsent, hcancels⟩ := h
  simp only [StreamState.restrict, hcut]
  cases st
  simp only at herror hsent hcancels
  subst herror hsent hcancels
  rfl

/-! ## The end of a drain whose sink fails -/

/-- What the drain of a failing sink has in common with that of a sink that never fails. -/
structure CutDrain (e calm : Ending (StreamState V) (StreamDrained V) (ReadBuffer × Stream)) :
    Prop where
  calls : e.state.calls = (cut sink calm.state.calls).1
  sinkError : e.state.sinkError = (cut sink calm.state.calls).2
  cancels : e.state.cancels ≤ 1
  session : e.session = calm.session
  sent : e.sent = calm.sent
  error : ∀ x, e.outcome = .error x ↔ calm.outcome = .error x
  unfinished : e.outcome = .unfinished ↔ calm.outcome = .unfinished
  result : ∀ r, e.outcome = .ok r → ∀ x, e.state.sinkError = some x →
    ∃ q sets, r.result = .ok (q, sets, some x)

theorem StreamState.restrict_cancels_le (st : StreamState V) : (st.restrict sink).cancels ≤ 1 := by
  unfold StreamState.restrict
  dsimp only
  split
  · exact Nat.le_refl 1
  · exact Nat.zero_le 1

theorem StreamState.finish_calls (st : StreamState V) :
    (st.finish sink).1.calls = (st.finishStreamResultSet sink).1.calls ∧
      (st.finish sink).1.sinkError = (st.finishStreamResultSet sink).1.sinkError ∧
      (st.finish sink).1.cancels = (st.finishStreamResultSet sink).1.cancels := by
  unfold StreamState.finish
  dsimp only
  split
  · exact ⟨rfl, rfl, rfl⟩
  split
  · exact ⟨rfl, rfl, rfl⟩
  split
  · exact ⟨rfl, rfl, rfl⟩
  · exact ⟨rfl, rfl, rfl⟩

theorem StreamState.finish_result {st : StreamState V} {x : NzError}
    (h : (st.finish sink).1.sinkError = some x) :
    ∃ q sets, (st.finish sink).2.result = .ok (q, sets, some x) := by
  have hset := (StreamState.finish_calls sink st).2.1
  rw [hset] at h
  unfold StreamState.finish
  dsimp only
  rw [h]
  exact ⟨_, _, rfl⟩

variable (files : ExternalFiles)

theorem drain_cut (fuel : Nat) (session : ReadBuffer × Stream) :
    CutDrain sink (drainResponseWithSink files dec (streamEngine dec sink) fuel {} session)
      (drainResponseWithSink files dec (streamEngine dec acceptAll) fuel {} session) := by
  have hstart : ({} : StreamState V).Calm := ⟨rfl, rfl, rfl⟩
  obtain ⟨hkept, hfailing⟩ :=
    (restingEngine_maps dec sink).drainResponseWithSink files dec fuel hstart session
  obtain ⟨-, hcalm⟩ :=
    (restingEngine_maps dec acceptAll).drainResponseWithSink files dec fuel hstart session
  have hinit : ∀ sink : Sink V, StreamState.restrict sink {} = {} := fun _ => rfl
  rw [hinit] at hfailing hcalm
  rw [hfailing, hcalm]
  generalize drainResponseWithSink files dec (restingEngine dec) fuel {} session = rest at hkept ⊢
  obtain ⟨out, st, sent, session'⟩ := rest
  dsimp only at hkept
  unfold Ending.image
  cases out with
  | ok u =>
      obtain ⟨hafter, hstate, -, -⟩ := @StreamState.follows_finishStreamResultSet _ sink _ hkept
      obtain ⟨hcalls, herror, hcancels⟩ := StreamState.finish_calls sink (st.restrict sink)
      obtain ⟨hcalls', -, -⟩ := StreamState.finish_calls acceptAll st
      dsimp only
      rw [hkept.restrict_acceptAll]
      refine ⟨?_, ?_, ?_, rfl, rfl, ?_, ?_, ?_⟩
      · rw [hcalls, hcalls', hstate]
        rfl
      · rw [herror, hcalls', hstate]
        rfl
      · rw [hcancels, hstate]
        exact StreamState.restrict_cancels_le sink st
      · intro x
        constructor
        · intro h
          cases h
        · intro h
          cases h
      · constructor
        · intro h
          cases h
        · intro h
          cases h
      · rintro _ ⟨⟩ x hx
        exact StreamState.finish_result sink hx
  | error x =>
      dsimp only
      rw [hkept.restrict_acceptAll]
      refine ⟨rfl, rfl, StreamState.restrict_cancels_le sink st, rfl, rfl, ?_, ?_, ?_⟩
      · intro y
        exact Iff.rfl
      · exact Iff.rfl
      · intro r h
        cases h
  | unfinished =>
      dsimp only
      rw [hkept.restrict_acceptAll]
      refine ⟨rfl, rfl, StreamState.restrict_cancels_le sink st, rfl, rfl, ?_, ?_, ?_⟩
      · intro y
        exact Iff.rfl
      · exact Iff.rfl
      · intro r h
        cases h

end Drain

/-! ## The batch -/

section Batch

/-- `assert_can_execute`. -/
def assertCanExecute (c : Connection) : NzResult Unit :=
  if c.protocolFaulted then
    .error (.protocol "Connection protocol is invalid; reconnect is required")
  else if !c.connected then .error (.closed "Connection is closed")
  else if c.executing then .error (.config "Connection is already executing a command")
  else .ok ()

/-- `frame_in_progress` at the end of a drain: the last read was not for a message code. -/
def frameInProgress {S R K : Type} (files : ExternalFiles) (dec : Decoder V) (E : Engine V S R K) :
    Nat → S → ReadBuffer × Stream → Bool
  | 0, _, _ => true
  | fuel + 1, st, session =>
      let r := (turn files dec E fuel st).run Handshake.syncReader.port session
      match r.outcome with
      | .error _ =>
          match (readByte.run Handshake.syncReader.port session).outcome with
          | .ok _ => true
          | _ => false
      | .unfinished => true
      | .ok (.done _ _) => true
      | .ok (.next st') => frameInProgress files dec E fuel st' r.peer
      | .ok (.rows k desc st') =>
          match availableRows dec E k desc st' r.peer.1 with
          | (.error _, _, _) => true
          | (.ok (), st'', b) => frameInProgress files dec E fuel st'' (b, r.peer.2)

structure StreamSummary where
  resultSets : List StreamResultSet
  rowsAffected : Int
  notices : List Text
  deriving DecidableEq, Repr

/-- A SELECT without a count reports the rows it has streamed. -/
def streamSummary (q : QueryResult V) (sets : List StreamResultSet) : StreamSummary where
  resultSets := sets
  rowsAffected :=
    let rowCount := (sets.map (·.rowCount)).sum
    if q.rowsAffected < 0 ∧ 0 < rowCount then ByteString.signed 64 (rowCount % 2 ^ 64)
    else q.rowsAffected
  notices := q.notices

/-- What a streamed batch leaves: its result, the connection, the calls that the sink has received,
the cancel packets sent and the session. -/
structure StreamBatch (V : Type) where
  outcome : Outcome NzError StreamSummary
  connection : Connection
  calls : List (Callback V) := []
  cancels : Nat := 0
  session : ReadBuffer × Stream

/-- The end of `drain_response_with_sink` and of `run_batch_stream_with_duration` behind it. The
drain has set the flag for a cancelled sink, and ReadyForQuery has cleared it. -/
def afterStream (c : Connection) (sql : Text) (prev inFrame : Bool)
    (e : Ending (StreamState V) (StreamDrained V) (ReadBuffer × Stream)) : StreamBatch V :=
  match e.outcome with
  | .unfinished => ⟨.unfinished, c, e.state.calls, e.state.cancels, e.session⟩
  | .error x =>
      let c := { c with protocolSyncRequired := c.protocolSyncRequired || e.state.sinkCancelSent }
      let timedOut := isCommandTimeout x
      let c := if timedOut then c.afterDrainTimeout inFrame else c
      { outcome := .error x
        connection := ({ c with executing := false }.restoreTxOnError sql prev).markFaultedAfter false x
        calls := e.state.calls
        cancels := e.state.cancels + if timedOut then 1 else 0
        session := e.session }
  | .ok r =>
      let c := { c with protocolSyncRequired := false, executing := false }
      let ended (outcome : Outcome NzError StreamSummary) (c : Connection) : StreamBatch V :=
        ⟨outcome, c, e.state.calls, e.state.cancels, e.session⟩
      match r.result with
      | .ok (_, _, some sinkError) => ended (.error sinkError) (c.restoreTxOnError sql prev)
      | .ok (q, sets, none) => ended (.ok (streamSummary q sets)) c
      | .error x =>
          ended (.error x) ((c.restoreTxOnError sql prev).markFaultedAfter r.decodeErrorSynced x)

/-- `run_batch_stream_with_duration` on the session that the send leaves. -/
def runBatchStream (files : ExternalFiles) (dec : Decoder V) (sink : Sink V) (fuel : Nat)
    (c : Connection) (sql : Text) (send : SendOutcome) (session : ReadBuffer × Stream) :
    StreamBatch V :=
  if sql.contains '\x00' then
    { outcome := .error (.config "SQL contains NUL"), connection := c, session := session }
  else
    match assertCanExecute c with
    | .error x => { outcome := .error x, connection := c, session := session }
    | .ok () =>
        let pending := { c with
          executing := true
          inTransaction := (transactionStateOf sql).1.getD c.inTransaction }
        match send.error with
        | some x =>
            { outcome := .error x
              connection := pending.afterSendError c.inTransaction x
              cancels := if isCommandTimeout x then 1 else 0
              session := session }
        | none =>
            afterStream pending sql c.inTransaction
              (frameInProgress files dec (streamEngine dec sink) fuel {} session)
              (drainResponseWithSink files dec (streamEngine dec sink) fuel {} session)

/-- A batch whose packet has left is the drain and what follows it. -/
theorem runBatchStream_sent (files : ExternalFiles) (dec : Decoder V) (sink : Sink V) (fuel : Nat)
    (c : Connection) (sql : Text) (session : ReadBuffer × Stream)
    (hsql : ¬ sql.contains '\x00' = true) (hc : assertCanExecute c = .ok ()) :
    ∃ inFrame, runBatchStream files dec sink fuel c sql .sent session =
      afterStream { c with
          executing := true
          inTransaction := (transactionStateOf sql).1.getD c.inTransaction } sql c.inTransaction
        inFrame (drainResponseWithSink files dec (streamEngine dec sink) fuel {} session) := by
  unfold runBatchStream
  rw [if_neg hsql, hc]
  exact ⟨_, rfl⟩

end Batch

section Claims

variable (files : ExternalFiles) (dec : Decoder V) (sink : Sink V) (fuel : Nat) (c : Connection)
  (sql : Text) (session : ReadBuffer × Stream)

/-- The server's bytes reach ReadyForQuery without a framing error. -/
def ReachesReady : Prop :=
  ∃ r, (drainResponseWithSink files dec (streamEngine dec acceptAll) fuel {} session).outcome = .ok r

/-- A read of the response times out. -/
def TimesOut : Prop :=
  ∃ x, (drainResponseWithSink files dec (streamEngine dec acceptAll) fuel {} session).outcome =
    .error x ∧ isCommandTimeout x = true

/-- What holds of a batch whose sink may fail. -/
structure AbortDiscipline (e calm : StreamBatch V) : Prop where
  stops : ∀ first cb rest, e.calls = first ++ cb :: rest → rest ≠ [] → sink (first ++ [cb]) = .ok ()
  beginning : e.calls <+: calm.calls
  cancels : e.cancels ≤ 1 ∨ TimesOut files dec fuel session ∧ e.cancels = 2
  returned : ∀ x, e.calls ≠ [] → sink e.calls = .error x → ReachesReady files dec fuel session →
    e.outcome = .error x ∧ e.connection.protocolSyncRequired = false ∧
      e.connection.canExecute = true ∧
      ∃ bytes ready, IsReadyFrame ready ∧
        Consumed (sessionView session) (sessionView e.session) (bytes ++ ready)

/-- A batch that makes no call. -/
theorem AbortDiscipline.of_no_calls {e calm : StreamBatch V} (hcalls : e.calls = [])
    (hcancels : e.cancels ≤ 1) : AbortDiscipline files dec sink fuel session e calm where
  stops first cb rest h := by
    rw [hcalls] at h
    cases first <;> cases h
  beginning := by
    rw [hcalls]
    exact List.nil_prefix
  cancels := .inl hcancels
  returned _ hne := absurd hcalls hne

theorem afterStream_calls (prev inFrame : Bool)
    (e : Ending (StreamState V) (StreamDrained V) (ReadBuffer × Stream)) :
    (afterStream c sql prev inFrame e).calls = e.state.calls := by
  unfold afterStream
  split
  · rfl
  · rfl
  · dsimp only
    split
    · rfl
    · rfl
    · rfl

theorem afterStream_timeout {prev inFrame : Bool}
    {e : Ending (StreamState V) (StreamDrained V) (ReadBuffer × Stream)} {x : NzError}
    (hout : e.outcome = .error x) (htimeout : isCommandTimeout x = true) :
    (afterStream c sql prev inFrame e).cancels = e.state.cancels + 1 := by
  unfold afterStream
  rw [hout]
  dsimp only
  rw [if_pos htimeout]

theorem afterStream_cancels (prev inFrame : Bool)
    (e : Ending (StreamState V) (StreamDrained V) (ReadBuffer × Stream)) :
    (afterStream c sql prev inFrame e).cancels = e.state.cancels ∨
      ∃ x, e.outcome = .error x ∧ isCommandTimeout x = true ∧
        (afterStream c sql prev inFrame e).cancels = e.state.cancels + 1 := by
  cases hout : e.outcome with
  | unfinished =>
      unfold afterStream
      rw [hout]
      exact .inl rfl
  | error x =>
      by_cases htimeout : isCommandTimeout x = true
      · exact .inr ⟨x, rfl, htimeout, afterStream_timeout c sql hout htimeout⟩
      · left
        unfold afterStream
        rw [hout]
        dsimp only
        rw [if_neg htimeout, Nat.add_zero]
  | ok r =>
      left
      unfold afterStream
      rw [hout]
      dsimp only
      split
      · rfl
      · rfl
      · rfl

theorem restoreTxOnError_flags (c : Connection) (sql : Text) (prev : Bool) :
    (c.restoreTxOnError sql prev).canExecute = c.canExecute ∧
      (c.restoreTxOnError sql prev).protocolSyncRequired = c.protocolSyncRequired := by
  unfold Connection.restoreTxOnError
  split
  · exact ⟨rfl, rfl⟩
  · exact ⟨rfl, rfl⟩
  · exact ⟨rfl, rfl⟩

/-- Behind ReadyForQuery a failed sink gives the batch its error, and nothing else. -/
theorem afterStream_sinkError (prev inFrame : Bool) (hfaulted : c.protocolFaulted = false)
    (hconnected : c.connected = true)
    {e : Ending (StreamState V) (StreamDrained V) (ReadBuffer × Stream)} {r : StreamDrained V}
    {q : QueryResult V} {sets : List StreamResultSet} {x : NzError} (hout : e.outcome = .ok r)
    (hresult : r.result = .ok (q, sets, some x)) :
    (afterStream c sql prev inFrame e).outcome = .error x ∧
      (afterStream c sql prev inFrame e).connection.protocolSyncRequired = false ∧
      (afterStream c sql prev inFrame e).connection.canExecute = true ∧
      (afterStream c sql prev inFrame e).session = e.session := by
  unfold afterStream
  rw [hout]
  dsimp only
  rw [hresult]
  dsimp only
  obtain ⟨hexecute, hsync⟩ := restoreTxOnError_flags
    { c with protocolSyncRequired := false, executing := false } sql prev
  refine ⟨rfl, hsync, ?_, rfl⟩
  rw [hexecute]
  simp [Connection.canExecute, hfaulted, hconnected]

theorem afterStream_discipline {prev inFrame inFrame' : Bool} (hfaulted : c.protocolFaulted = false)
    (hconnected : c.connected = true) :
    AbortDiscipline files dec sink fuel session
      (afterStream c sql prev inFrame
        (drainResponseWithSink files dec (streamEngine dec sink) fuel {} session))
      (afterStream c sql prev inFrame'
        (drainResponseWithSink files dec (streamEngine dec acceptAll) fuel {} session)) := by
  have hcut := drain_cut dec sink files fuel session
  have hreceived := cut_spec sink
    (drainResponseWithSink files dec (streamEngine dec acceptAll) fuel {} session).state.calls
  rw [← hcut.calls, ← hcut.sinkError] at hreceived
  refine ⟨?_, ?_, ?_, ?_⟩
  · intro first cb rest h hrest
    rw [afterStream_calls] at h
    exact hreceived.answered first cb rest h (.inl hrest)
  · rw [afterStream_calls, afterStream_calls]
    exact hreceived.beginning
  · have hle := hcut.cancels
    rcases afterStream_cancels c sql prev inFrame
      (drainResponseWithSink files dec (streamEngine dec sink) fuel {} session) with h | h
    · left
      rw [h]
      exact hle
    · obtain ⟨x, hx, htimeout, hcancels⟩ := h
      have hcalm := (hcut.error x).mp hx
      by_cases hone : (drainResponseWithSink files dec (streamEngine dec sink) fuel {}
          session).state.cancels = 1
      · exact .inr ⟨⟨x, hcalm, htimeout⟩, by rw [hcancels, hone]⟩
      · left
        rw [hcancels]
        omega
  · rw [afterStream_calls]
    intro x hne hx hready
    obtain ⟨r', hr'⟩ := hready
    -- the last call failed, so the error is recorded
    have herror : (drainResponseWithSink files dec (streamEngine dec sink) fuel {}
        session).state.sinkError = some x := by
      cases hrecorded : (drainResponseWithSink files dec (streamEngine dec sink) fuel {}
          session).state.sinkError with
      | some y =>
          have hy := hreceived.failed y hrecorded
          rw [List.nil_append, hx] at hy
          cases hy
          rfl
      | none =>
          obtain ⟨first, cb, hlast⟩ := (List.eq_nil_or_concat _).resolve_left hne
          rw [List.concat_eq_append] at hlast
          have hok := hreceived.answered first cb [] hlast (.inr hrecorded)
          rw [List.nil_append, ← hlast, hx] at hok
          cases hok
    cases hout : (drainResponseWithSink files dec (streamEngine dec sink) fuel {}
        session).outcome with
    | error y =>
        have := (hcut.error y).mp hout
        rw [hr'] at this
        cases this
    | unfinished =>
        have := hcut.unfinished.mp hout
        rw [hr'] at this
        cases this
    | ok r =>
        obtain ⟨q, sets, hresult⟩ := hcut.result r hout x herror
        obtain ⟨houtcome, hsync, hexecute, hsession⟩ :=
          afterStream_sinkError c sql prev inFrame hfaulted hconnected hout
            hresult
        refine ⟨houtcome, hsync, hexecute, ?_⟩
        rw [hsession]
        exact drainResponseWithSink_consumes (E := streamEngine dec sink) files dec
          (fun st code => strict_streamFramed dec sink st code) fuel {} session hout

end Claims

/-! ## A sink that fails at once -/

def refuseAll : Sink Unit :=
  fun _ => .error (.config "stop")

/-- A descriptor, two rows and ReadyForQuery. -/
def wholeSession : ReadBuffer × Stream :=
  (ReadBuffer.new, chunked [rowsResponse])

/-- The same descriptor, and then nothing until the command times out. -/
def hangingSession : ReadBuffer × Stream :=
  (ReadBuffer.new, [.data (rowsResponse.take 89), .failed .timedOut])

theorem wholeSession_drains (sink : Sink Unit) :
    Alike sessionView
      (drainResponseWithSink noFiles shapeDecoder (streamEngine shapeDecoder sink) 200 {} wholeSession)
      (drainFrames noFiles shapeDecoder (streamEngine shapeDecoder sink) 200 {} rowsResponse) := by
  have hfull := drainResponseWithSink_drainFrames noFiles shapeDecoder
    (streamEngine_lawful shapeDecoder sink) 200 {} ReadBuffer.new
    (show ∀ chunk ∈ [rowsResponse], chunk ≠ [] by
      intro chunk hchunk
      rw [List.mem_singleton.mp hchunk]
      decide) (by
      have hnew : ReadBuffer.new.slice = [] := rfl
      rw [hnew, List.nil_append, List.flatten_singleton]
      exact rowsResponse_length)
  have hflat : ReadBuffer.new.slice ++ [rowsResponse].flatten = rowsResponse := rfl
  rw [hflat] at hfull
  exact hfull

end NzRust.Response
