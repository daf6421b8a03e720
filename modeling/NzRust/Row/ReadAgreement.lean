import NzRust.Row.CellReads

/-!
# Lazy and decoded rows read alike

A lazy row reads a field from its bytes, a decoded row from the value the bytes
were decoded to. For each type and each kind of field the two reads end alike
just where the decoded value still tells what the bytes told: a timestamp, an
interval and a time with zone are printed and parsed again, and a text is kept
without the bytes around it.
-/

namespace NzRust

open ByteString Checked DbosTupleDesc Datetime RawValue

/-! ## Temporal fields -/

section Temporal

variable {N : Numerics} {row : Bytes} {off : Nat} {f : DbosField} {kind : FieldKind}
  {v : NzValue N}

namespace DbosTupleDesc.Parsed

theorem read_date (h : Parsed row off f .date v) :
    Fits row off 4 ∧ NzDate.fromSql v = NzDate.fromBytes (window row off 4) := by
  cases h with
  | date hfits =>
      obtain ⟨hlow, hhigh⟩ := leInt_bounds hfits.window_length (by decide)
      refine ⟨hfits, ?_⟩
      rw [NzDate.fromSql, parseDate_dateFrom4bytes hlow hhigh, result_ok_bind]
      rfl

theorem read_time (h : Parsed row off f .time v) :
    Fits row off 8 ∧
      (NzTime.fromSql v).toOption = (NzTime.fromBytes (window row off 8)).toOption := by
  cases h with
  | time hfits =>
      obtain ⟨hlow, hhigh⟩ := leInt_bounds hfits.window_length (by decide)
      refine ⟨hfits, ?_⟩
      rw [NzTime.fromSql, NzTime.fromBytes, parseClock_timeFrom8bytes hlow hhigh]
      by_cases hleast : leInt (window row off 8) = -(2 ^ 63)
      · rw [if_pos hleast, result_error_bind, NzTime.new, dif_neg (by omega)]
      · rw [if_neg hleast, result_ok_bind]

theorem read_timestamp (h : Parsed row off f .timestamp v) :
    Fits row off 8 ∧
      ((NzTimestamp.fromBytes (window row off 8)).toOption = (NzTimestamp.fromSql v).toOption ↔
        -106751991 * usPerDay ≤ leInt (window row off 8)) := by
  cases h with
  | timestamp hfits =>
      obtain ⟨hlow, hhigh⟩ := leInt_bounds hfits.window_length (by decide)
      refine ⟨hfits, ?_⟩
      rw [NzTimestamp.fromSql, parseTimestamp_timestampFrom8bytes hlow hhigh]
      by_cases hfirst : leInt (window row off 8) < -106751991 * usPerDay
      · rw [if_pos hfirst, result_error_bind]
        exact iff_of_false nofun (by omega)
      · rw [if_neg hfirst, result_ok_bind]
        exact iff_of_true rfl (by omega)

theorem read_interval (h : Parsed row off f .interval v) :
    Fits row off 12 ∧
      ((NzInterval.fromBytes (window row off 12)).toOption = (NzInterval.fromSql v).toOption ↔
        leInt (window row off 8) ≠ -(2 ^ 63)) := by
  cases h with
  | interval hfits =>
      have hmicros : Fits row off 8 :=
        ⟨by have := hfits.word; omega, by have := hfits.room; omega⟩
      have hmonths : Fits row (off + 8) 4 :=
        ⟨by have := hfits.word; omega, by have := hfits.room; omega⟩
      obtain ⟨hlow, hhigh⟩ := leInt_bounds hmicros.window_length (by decide)
      have hrange := leInt_bounds hmonths.window_length (by decide)
      refine ⟨hfits, ?_⟩
      rw [NzInterval.fromSql, NzInterval.fromBytes, parseInterval_intervalFrom12bytes hlow hhigh hrange,
        window_drop, window_take (by decide)]
      by_cases hleast : leInt (window row off 8) = -(2 ^ 63)
      · rw [if_pos hleast]
        exact iff_of_false nofun (by simp [hleast])
      · rw [if_neg hleast]
        exact iff_of_true rfl hleast

end DbosTupleDesc.Parsed

/-- The zone behind the time and the one at the end of the field are the same offset of less than a
day, unless neither is one. -/
def ZonesAlike (row : Bytes) (f : DbosField) (off : Nat) : Prop :=
  let zone := leInt (window row (off + 8) 4)
  let lastZone := leInt (window row (off + (asWord 64 f.size - 4)) 4)
  0 ≤ leInt (window row off 8) ∧ leInt (window row off 8) < usPerDay →
    -86400 < zone ∧ zone ≤ 86400 ∨ lastZone.natAbs < 86400 → zone = lastZone ∧ zone ≠ 86400

/-- The zone of the bytes is taken when it is within a day of the opposite sign. -/
theorem offset_of_bytes (time : NzTime) {zone : Int} (hzone : -(2 ^ 31) ≤ zone ∧ zone < 2 ^ 31) :
    (orInvalid (intChecked 32 (-zone)) >>= fun offset => NzTimetz.new time offset).toOption =
      if h : -86400 ≤ -zone ∧ -zone < 86400 then some ⟨time, -zone, h⟩ else none := by
  by_cases hday : -86400 ≤ -zone ∧ -zone < 86400
  · rw [dif_pos hday, intChecked, if_pos (by omega), orInvalid, result_ok_bind, NzTimetz.new,
      dif_pos hday]
    rfl
  · rw [dif_neg hday, intChecked]
    split
    · rw [orInvalid, result_ok_bind, NzTimetz.new, dif_neg hday]
      rfl
    · rfl

theorem offset_of_text (time : NzTime) (zone : Int) :
    (if zone.natAbs < 86400 then NzTimetz.new time (-zone)
      else .error invalidTemporal).toOption =
      if h : -86400 < -zone ∧ -zone < 86400 then
        some ⟨time, -zone, Int.le_of_lt h.1, h.2⟩
      else none := by
  by_cases hday : -86400 < -zone ∧ -zone < 86400
  · rw [dif_pos hday, if_pos (by omega), NzTimetz.new, dif_pos ⟨Int.le_of_lt hday.1, hday.2⟩]
    rfl
  · rw [dif_neg hday, if_neg (by omega)]
    rfl

theorem DbosTupleDesc.Parsed.read_timetz (h : Parsed row off f .timetz v) :
    Fits row off 12 ∧
      ((NzTimetz.fromBytes (window row off 12)).toOption = (NzTimetz.fromSql v).toOption ↔
        ZonesAlike row f off) := by
  cases h with
  | timetz hsize hfits =>
      have hword := hfits.word
      have hroom := hfits.room
      have hmicros : Fits row off 8 := ⟨by omega, by omega⟩
      have hzone : Fits row (off + 8) 4 := ⟨by omega, by omega⟩
      have hlast : Fits row (off + (asWord 64 f.size - 4)) 4 := ⟨by omega, by omega⟩
      obtain ⟨hlow, hhigh⟩ := leInt_bounds hmicros.window_length (by decide)
      have hzoneRange := leInt_bounds hzone.window_length (by decide)
      have hlastRange := leInt_bounds hlast.window_length (by decide)
      refine ⟨⟨by omega, by omega⟩, ?_⟩
      rw [NzTimetz.fromSql, NzTimetz.fromBytes, parseTimetz_timetzFromBytes hlow hhigh hlastRange,
        window_drop, window_take (by decide), ZonesAlike]
      generalize leInt (window row off 8) = micros at *
      generalize leInt (window row (off + 8) 4) = zone at *
      generalize leInt (window row (off + (asWord 64 f.size - 4)) 4) = lastZone at *
      by_cases hday : 0 ≤ micros ∧ micros < usPerDay
      · have hnew : NzTime.new micros = .ok ⟨micros, hday⟩ := dif_pos hday
        rw [hnew, result_ok_bind, result_ok_bind, offset_of_bytes _ hzoneRange, offset_of_text]
        by_cases hbytes : -86400 ≤ -zone ∧ -zone < 86400
        · rw [dif_pos hbytes]
          by_cases htext : -86400 < -lastZone ∧ -lastZone < 86400
          · rw [dif_pos htext, Option.some.injEq, NzTimetz.mk.injEq, eq_self, true_and]
            omega
          · rw [dif_neg htext]
            exact iff_of_false nofun (by omega)
        · rw [dif_neg hbytes]
          by_cases htext : -86400 < -lastZone ∧ -lastZone < 86400
          · rw [dif_pos htext]
            exact iff_of_false nofun (by omega)
          · rw [dif_neg htext]
            exact iff_of_true rfl (by omega)
      · have hnew : NzTime.new micros = .error invalidTemporal := dif_neg hday
        rw [hnew, result_error_bind, result_error_bind]
        exact iff_of_true rfl fun h => absurd h hday

end Temporal

/-! ## Text fields -/

section Textual

variable {N : Numerics} {ops : NumberOps N} {desc : DbosTupleDesc} {row : Bytes} {off i : Nat}
  {f : DbosField}

/-- A text that is stored with its length in it is not the text behind the length. -/
theorem window_prefixed (h : Prefixed row off) :
    window row off (leNat (window row off 2)) = window row off 2 ++ behindPrefix row off := by
  have hsplit := List.take_append_drop 2 (window row off (leNat (window row off 2)))
  rw [window_take h.least] at hsplit
  exact hsplit.symm

theorem prefix_not_zeros (h : Prefixed row off) : ¬(window row off 2).all (· == 0) := by
  intro hzeros
  have hleast := h.least
  rw [leNat_zeros hzeros] at hleast
  exact absurd hleast (by decide)

/-- A fixed text field leaves room for its text. -/
theorem width_of_storage (hkind : f.kind = .nchar ∨ f.kind = .varchar) (hfixed : f.fixedSize ≠ 0)
    (h : validateRowFieldStorage row i f off = .ok ()) :
    ∃ width, fixedWidth f = .ok width ∧ leNat (window row off 2) ≤ width := by
  obtain ⟨stop, hend, -, hbound⟩ := storage_prefixed hkind h
  obtain ⟨width, hwidth, hle⟩ := hbound hfixed
  have hprefixed : readEnd row f off = prefixedEnd row off := by
    unfold readEnd
    obtain hkind | hkind := hkind <;> rw [hkind]
  obtain ⟨-, -, rfl⟩ := prefixedEnd_some (hprefixed.symm.trans hend)
  exact ⟨width, hwidth, Nat.le_of_add_le_add_left hle⟩

/-- The storage of a text field that is not varying starts with the length of the text. -/
theorem ownBytes_prefixed (h : Prefixed row off)
    (hstorage : f.fixedSize ≠ 0 → ∃ width, fixedWidth f = .ok width ∧
      leNat (window row off 2) ≤ width)
    (hplain : ¬(f.fixedSize = 0 ∧ desc.numVaryingFields ≠ 0)) :
    ∃ rest, ownBytes desc row f off = window row off 2 ++ (behindPrefix row off ++ rest) := by
  unfold ownBytes
  by_cases hfixed : f.fixedSize ≠ 0
  · obtain ⟨width, hwidth, hle⟩ := hstorage hfixed
    refine ⟨(window row off width).drop (leNat (window row off 2)), ?_⟩
    rw [if_pos hfixed, hwidth, ← List.append_assoc, ← window_prefixed h, ← window_take hle,
      List.take_append_drop]
    rfl
  · have hnone : desc.numVaryingFields = 0 := by
      by_contra hsome
      exact hplain ⟨not_not.mp hfixed, hsome⟩
    refine ⟨(row.drop off).drop (leNat (window row off 2)), ?_⟩
    rw [if_neg hfixed, if_pos hnone, ← List.append_assoc, ← window_prefixed h, window,
      List.take_append_drop]

end Textual

/-! ## The fields that are read alike -/

/-- Where the reads of a field at `off` end alike. The other types always do. -/
def AlikeAt (desc : DbosTupleDesc) (row : Bytes) (column : ColumnDesc) (f : DbosField) (off : Nat) :
    Getter → Prop
  | .string =>
      match f.kind with
      | .char =>
          (ownBytes desc row f off).rdropWhile (· == 0x20) =
            (window row off (asWord 64 f.size)).rdropWhile (· == 0x20)
      | .nchar | .varchar => f.fixedSize = 0 ∧ desc.numVaryingFields ≠ 0
      | .opaqueBytes => isTextualOid column.typeOid = true → fromUtf8 (keptBytes row f off) = none
      | _ => True
  | .timestamp => f.kind = .timestamp → -106751991 * usPerDay ≤ leInt (window row off 8)
  | .interval => f.kind = .interval → leInt (window row off 8) ≠ -(2 ^ 63)
  | .timetz => f.kind = .timetz → ZonesAlike row f off
  | .option inner => AlikeAt desc row column f off inner
  | _ => True

/-- A null is read alike by every type, a field with a value where `AlikeAt` says so. -/
def ReadsAlike (desc : DbosTupleDesc) (row : Bytes) (column : ColumnDesc) (i : Nat) (f : DbosField)
    (getter : Getter) : Prop :=
  ∀ starts off, desc.allStarts row = .ok starts → desc.isNull row f = .ok false →
    desc.rowFieldStart row i f starts = .ok off → AlikeAt desc row column f off getter

section Cells

variable {N : Numerics} {ops : NumberOps N} {reads : ReadOps N} {desc : DbosTupleDesc}
  {row : Bytes} {off i : Nat} {f : DbosField} {v : NzValue N} {column : ColumnDesc}

theorem text_read_iff {e : NzError} {x : Option Text} {trim : Text → Text} {t : Text} :
    (orFail e x >>= fun text => (.ok (trim text) : Exec NzError Text)) = .ok t ↔
      ∃ text, x = some text ∧ trim text = t := by
  cases x with
  | none =>
      constructor
      · intro h
        cases h
      · rintro ⟨text, h, -⟩
        cases h
  | some text =>
      constructor
      · intro h
        exact ⟨text, rfl, Except.ok.inj h⟩
      · rintro ⟨text', h, rfl⟩
        cases h
        rfl

/-- The three kinds of text fields. -/
theorem text_agree_iff (hf : desc.fields[i]? = some f)
    (hv : parseField ops row off i f = .ok v)
    (hstorage : validateRowFieldStorage row i f off = .ok ())
    (htextual : isTextualKind f.kind = true) :
    Agree ((lazyDbos column (ownBytes desc row f off) desc row off i).stringFromRaw ops reads)
        ((eager v (some desc) column i).stringFromRaw ops reads) ↔
      AlikeAt desc row column f off .string := by
  have hparsed := parseField_parsed hv
  have hshape (h : Prefixed row off) (hkind : f.kind = .nchar ∨ f.kind = .varchar)
      (hplain : ¬(f.fixedSize = 0 ∧ desc.numVaryingFields ≠ 0)) :=
    ownBytes_prefixed h (fun hfixed => width_of_storage hkind hfixed hstorage) hplain
  have hvarying (hplain : f.fixedSize = 0 ∧ desc.numVaryingFields ≠ 0) :
      ownBytes desc row f off = behindPrefix row off := by
    rw [ownBytes, if_neg (not_not.mpr hplain.1), if_neg hplain.2]
  unfold AlikeAt
  cases hkind : f.kind with
  | char =>
      rw [hkind] at hparsed
      cases hparsed with
      | char hfits htext =>
          rw [stringFromRaw_text hf (.inl ⟨hkind, rfl⟩), stringFromRaw_decoded_text, agree_ok_iff,
            text_read_iff]
          exact trimmed_text_iff (by decide) rfl htext
  | nchar =>
      rw [hkind] at hparsed
      cases hparsed with
      | nchar hprefixed htext =>
          rw [stringFromRaw_text hf (.inr (.inl ⟨hkind, rfl⟩)), stringFromRaw_decoded_text,
            agree_ok_iff, text_read_iff, trimmed_text_iff (b := 0) (by decide) rfl htext]
          constructor
          · intro hsame
            by_contra hplain
            obtain ⟨rest, hown⟩ := hshape hprefixed (.inl hkind) hplain
            rw [hown] at hsame
            exact rdropWhile_ne_of_front (prefix_not_zeros hprefixed) rest hsame
          · intro hplain
            rw [hvarying hplain]
  | varchar =>
      rw [hkind] at hparsed
      cases hparsed with
      | varchar hprefixed htext =>
          rw [stringFromRaw_text hf (.inr (.inr ⟨hkind, rfl⟩)), stringFromRaw_decoded_text,
            agree_ok_iff, text_read_iff]
          constructor
          · rintro ⟨text', hown, rfl⟩
            by_contra hplain
            obtain ⟨rest, hshaped⟩ := hshape hprefixed (.inr hkind) hplain
            have hsame : ownBytes desc row f off = behindPrefix row off :=
              (toUtf8_of_fromUtf8 hown).symm.trans (toUtf8_of_fromUtf8 htext)
            have hlen := congrArg List.length (hshaped.symm.trans hsame)
            have hcount := hprefixed.behindPrefix_length
            rw [← hprefixed.fits.window_length, window_prefixed hprefixed] at hcount
            simp only [List.length_append] at hlen hcount
            omega
          · intro hplain
            rw [hvarying hplain]
            exact ⟨_, htext, rfl⟩
  | _ =>
      rw [hkind] at htextual
      cases htextual

/-- The other fields are read from their values, but bytes may pass for a text once decoded. -/
theorem string_agree_iff (hf : desc.fields[i]? = some f)
    (hv : parseField ops row off i f = .ok v)
    (hstorage : validateRowFieldStorage row i f off = .ok ()) :
    Agree ((lazyDbos column (ownBytes desc row f off) desc row off i).stringFromRaw ops reads)
        ((eager v (some desc) column i).stringFromRaw ops reads) ↔
      AlikeAt desc row column f off .string := by
  by_cases htextual : isTextualKind f.kind = true
  · exact text_agree_iff hf hv hstorage htextual
  have hparsed := parseField_parsed hv
  have hother : isTextualKind f.kind = false := by simpa using htextual
  rw [stringFromRaw_other hf hv hother]
  have hsame (hbytes : eagerCellBytes v (some desc) column i = none) :
      Agree (lift (reads.stringFromSql v))
        ((eager v (some desc) column i).stringFromRaw ops reads) := by
    rw [stringFromRaw_decoded hbytes]
    exact agree_lift _
  unfold AlikeAt
  generalize f.kind = kind at hparsed hother
  cases hparsed with
  | char => cases hother
  | nchar => cases hother
  | varchar => cases hother
  | opaqueBytes =>
      rw [stringFromRaw_decoded_bytes]
      dsimp only
      have hrefused : lift (reads.stringFromSql (.bytea (keptBytes row f off))) =
          (fail (reads.unexpected (.bytea (keptBytes row f off)) "text") : Exec NzError Text) := rfl
      rw [hrefused, agree_fail_iff]
      by_cases hoid : isTextualOid column.typeOid = true
      · rw [if_pos hoid]
        cases hutf8 : fromUtf8 (keptBytes row f off) with
        | none => exact iff_of_true ⟨_, rfl⟩ fun _ => rfl
        | some text =>
            refine iff_of_false ?_ fun h => nomatch h hoid
            rintro ⟨e, he⟩
            cases he
      · rw [if_neg hoid]
        exact iff_of_true ⟨_, rfl⟩ fun h => absurd h hoid
  | @numeric decoded => exact iff_of_true (hsame (by cases decoded <;> rfl)) trivial
  | _ => exact iff_of_true (hsame rfl) trivial

/-- A type that no other kind of field is read as. -/
theorem temporal_agree_iff {α : Type} {expected : FieldKind} {width : Nat}
    {fromBytes : Bytes → NzResult α} {fromSql : NzValue N → NzResult α}
    (hf : desc.fields[i]? = some f) (hnull : v ≠ .null) {alike : Prop}
    (hread : f.kind = expected → Fits row off width ∧
      ((fromBytes (window row off width)).toOption = (fromSql v).toOption ↔ alike))
    (hother : f.kind ≠ expected → fromSql v = .error invalidTemporal) (own : Bytes) :
    Agree ((lazyDbos column own desc row off i).temporalFromRaw ops expected width fromBytes fromSql)
        ((eager v (some desc) column i).temporalFromRaw ops expected width fromBytes fromSql) ↔
      (f.kind = expected → alike) := by
  rw [temporalFromRaw_lazy hf fromBytes fromSql fun hkind => (hread hkind).1,
    temporalFromRaw_eager expected width fromBytes fromSql hnull]
  by_cases hkind : f.kind = expected
  · rw [if_pos hkind, agree_lift_iff, (hread hkind).2]
    exact ⟨fun h _ => h, fun h => h hkind⟩
  · rw [if_neg hkind, hother hkind]
    exact iff_of_true (agree_lift (.error invalidTemporal)) fun h => absurd h hkind

/-- Each temporal value comes from the fields of its own kind. -/
theorem temporal_refused (h : Parsed row off f f.kind v) :
    (f.kind ≠ .date → NzDate.fromSql v = .error invalidTemporal) ∧
      (f.kind ≠ .time → NzTime.fromSql v = .error invalidTemporal) ∧
      (f.kind ≠ .timestamp → NzTimestamp.fromSql v = .error invalidTemporal) ∧
      (f.kind ≠ .interval → NzInterval.fromSql v = .error invalidTemporal) ∧
      (f.kind ≠ .timetz → NzTimetz.fromSql v = .error invalidTemporal) := by
  generalize f.kind = kind at h
  cases h with
  | date => exact ⟨fun h => absurd rfl h, fun _ => rfl, fun _ => rfl, fun _ => rfl, fun _ => rfl⟩
  | time => exact ⟨fun _ => rfl, fun h => absurd rfl h, fun _ => rfl, fun _ => rfl, fun _ => rfl⟩
  | timestamp =>
      exact ⟨fun _ => rfl, fun _ => rfl, fun h => absurd rfl h, fun _ => rfl, fun _ => rfl⟩
  | interval =>
      exact ⟨fun _ => rfl, fun _ => rfl, fun _ => rfl, fun h => absurd rfl h, fun _ => rfl⟩
  | timetz =>
      exact ⟨fun _ => rfl, fun _ => rfl, fun _ => rfl, fun _ => rfl, fun h => absurd rfl h⟩
  | @numeric decoded =>
      cases decoded <;>
        exact ⟨fun _ => rfl, fun _ => rfl, fun _ => rfl, fun _ => rfl, fun _ => rfl⟩
  | _ => exact ⟨fun _ => rfl, fun _ => rfl, fun _ => rfl, fun _ => rfl, fun _ => rfl⟩

theorem option_read (inner : Getter) {cell : RawValue N} (hnull : cell.isNull = false) :
    (Getter.option inner).fromRaw ops reads cell =
      (inner.fromRaw ops reads cell >>= fun value => return some value :
        Exec NzError (Option inner.Value)) := by
  change (if cell.isNull = true then (.ok none : Exec NzError (Option inner.Value))
    else inner.fromRaw ops reads cell >>= fun value => return some value) = _
  rw [hnull]
  rfl

theorem cells_agree_iff (hf : desc.fields[i]? = some f)
    (hv : parseField ops row off i f = .ok v)
    (hstorage : validateRowFieldStorage row i f off = .ok ()) (getter : Getter) :
    Agree (getter.fromRaw ops reads (lazyDbos column (ownBytes desc row f off) desc row off i))
        (getter.fromRaw ops reads (eager v (some desc) column i)) ↔
      AlikeAt desc row column f off getter := by
  have hparsed := parseField_parsed hv
  have hnull := hparsed.not_null
  obtain ⟨hdate, htime, htimestamp, hinterval, htimetz⟩ := temporal_refused hparsed
  induction getter with
  | bool =>
      refine iff_of_true ?_ trivial
      rw [Getter.fromRaw, Getter.fromRaw, boolFromRaw_lazy hf hv]
      exact agree_lift _
  | int t =>
      refine iff_of_true ?_ trivial
      rw [Getter.fromRaw, Getter.fromRaw, intFromRaw_lazy hf hv]
      exact agree_lift _
  | string => exact string_agree_iff hf hv hstorage
  | bytes =>
      refine iff_of_true ?_ trivial
      rw [Getter.fromRaw, Getter.fromRaw, bytesFromRaw_lazy hf hv]
      exact agree_lift _
  | date =>
      have hread : f.kind = .date → Fits row off 4 ∧
          ((NzDate.fromBytes (window row off 4)).toOption = (NzDate.fromSql v).toOption ↔ True) := by
        intro hkind
        obtain ⟨hfits, hsame⟩ := (hkind ▸ hparsed : Parsed row off f .date v).read_date
        exact ⟨hfits, iff_of_true (congrArg _ hsame.symm) trivial⟩
      exact (temporal_agree_iff hf hnull hread hdate _).trans (iff_of_true (fun _ => trivial) trivial)
  | time =>
      have hread : f.kind = .time → Fits row off 8 ∧
          ((NzTime.fromBytes (window row off 8)).toOption = (NzTime.fromSql v).toOption ↔ True) := by
        intro hkind
        obtain ⟨hfits, hsame⟩ := (hkind ▸ hparsed : Parsed row off f .time v).read_time
        exact ⟨hfits, iff_of_true hsame.symm trivial⟩
      exact (temporal_agree_iff hf hnull hread htime _).trans (iff_of_true (fun _ => trivial) trivial)
  | timestamp =>
      have hread (hkind : f.kind = .timestamp) :=
        (hkind ▸ hparsed : Parsed row off f .timestamp v).read_timestamp
      exact temporal_agree_iff hf hnull hread htimestamp _
  | interval =>
      have hread (hkind : f.kind = .interval) :=
        (hkind ▸ hparsed : Parsed row off f .interval v).read_interval
      exact temporal_agree_iff hf hnull hread hinterval _
  | timetz =>
      have hread (hkind : f.kind = .timetz) :=
        (hkind ▸ hparsed : Parsed row off f .timetz v).read_timetz
      exact temporal_agree_iff hf hnull hread htimetz _
  | option inner ih =>
      have hlazy : (lazyDbos (N := N) column (ownBytes desc row f off) desc row off i).isNull =
          false := rfl
      have heager : (eager v (some desc) column i).isNull = false := eager_isNull hnull
      exact (iff_of_eq (congrArg₂ Agree (option_read inner hlazy) (option_read inner heager))).trans
        ((agree_map_iff (Option.some_injective inner.Value)).trans ih)

/-- A null is an error to every type but an option. -/
theorem nulls_agree (cell : RawValue N) (hbytes : cell.bytes = none) (hdecoded : cell.decoded = none)
    (getter : Getter) :
    Agree (getter.fromRaw ops reads cell)
      (getter.fromRaw ops reads (eager .null (some desc) column i)) := by
  obtain ⟨bytes, decoded, typeOid, typeMod, format, dbos⟩ := cell
  cases hbytes
  cases hdecoded
  cases getter with
  | option inner => exact .inl ⟨none, rfl, rfl⟩
  | _ => exact .inr ⟨_, _, rfl, rfl⟩

end Cells

/-! ## Rows -/

section Rows

variable {N : Numerics} {desc : DbosTupleDesc} {payload : Bytes} {columns : List ColumnDesc}
  {i : Nat} {f : DbosField} {column : ColumnDesc}

/-- The cell of a lazy row over spans that are all there. -/
theorem tryGetRawValue_lazy {spans : List UInt64} {off c : Nat}
    (hcount : 0 ≤ desc.numVaryingFields) (hlen : spans.length = desc.numVaryingFields.toNat)
    (hf : desc.fields[i]? = some f) (hcolumn : columns[i]? = some column)
    (hnull : desc.isNull payload f = .ok false)
    (hstart : desc.rowFieldStart payload i f (spans.map RawRow.spanStart) = .ok off) :
    (⟨columns, payload, .dbos desc, none, none, c, spans⟩ : RawRow N).tryGetRawValue i =
      (.ok (lazyDbos column (ownBytes desc payload f off) desc payload off i),
        ⟨columns, payload, .dbos desc, none, none, c, spans⟩) := by
  obtain ⟨stop, hspan, hfixed, hlast⟩ := RawRow.dbosSpan_eq hcount hlen hf hnull hstart (c := c)
  have hstored := storedBytes_eq hcount (by rw [List.length_map, hlen]) hf hstart hfixed hlast
  rw [RawRow.tryGetRawValue, hcolumn]
  dsimp only
  rw [RawRow.fieldBytes]
  dsimp only
  rw [hspan]
  dsimp only
  rw [hstored, ok_bind]
  dsimp only [pure, Except.pure]
  rw [hspan]
  rfl

theorem tryGetRawValue_null {spans : List UInt64} {c : Nat} (hf : desc.fields[i]? = some f)
    (hcolumn : columns[i]? = some column) (hnull : desc.isNull payload f = .ok true) :
    (⟨columns, payload, .dbos desc, none, none, c, spans⟩ : RawRow N).tryGetRawValue i =
      (.ok ⟨none, none, column.typeOid, column.typeMod, 1, some (desc, payload, 0, i)⟩,
        ⟨columns, payload, .dbos desc, none, none, c, spans⟩) := by
  obtain ⟨hi, -⟩ := List.getElem?_eq_some_iff.mp hf
  have hspan : RawRow.dbosSpan payload desc ⟨c, spans⟩ i = (.ok none, ⟨c, spans⟩) := by
    rw [RawRow.dbosSpan, if_neg (show ¬desc.numFields ≤ i from Nat.not_le.mpr hi), index, hf]
    dsimp only
    rw [hnull]
  rw [RawRow.tryGetRawValue, hcolumn]
  dsimp only
  rw [RawRow.fieldBytes]
  dsimp only
  rw [hspan]
  dsimp only
  rw [hspan]
  rfl

theorem tryGet_eager {ops : NumberOps N} {reads : ReadOps N} {vs : List (NzValue N)}
    {v : NzValue N} (hcolumn : columns[i]? = some column) (hv : vs[i]? = some v)
    (getter : Getter) :
    (ValuesRow.fromSharedDbos columns vs desc).tryGet ops reads getter i =
      getter.fromRaw ops reads (eager v (some desc) column i) := by
  unfold ValuesRow.tryGet ValuesRow.tryGetRawValue ValuesRow.fromSharedDbos
  dsimp only
  rw [hcolumn, hv]
  rfl

/-- Over the same bytes, a read of the lazy row and a read of the decoded row end alike just where
the field is one that `ReadsAlike` names. -/
theorem typed_reads_agree_iff (ops : NumberOps N) (reads : ReadOps N) {vs : List (NzValue N)}
    {raw : RawRow N} (hrow : desc.parseRowClassified ops payload = .ok vs)
    (hraw : RawRow.fromDbosRaw columns payload desc = .ok raw)
    (hf : desc.fields[i]? = some f) (hcolumn : columns[i]? = some column) (getter : Getter) :
    Agree (raw.tryGet ops reads getter i).1
        ((ValuesRow.fromSharedDbos columns vs desc).tryGet ops reads getter i) ↔
      ReadsAlike desc payload column i f getter := by
  obtain ⟨spans, rfl, haccepted⟩ := accepted_of_parsed hrow hraw
  obtain ⟨v, hvs, hfield⟩ := haccepted.field hf
  rw [tryGet_eager hcolumn hvs, RawRow.tryGet]
  obtain ⟨hnull, rfl⟩ | ⟨hnull, off, hstart, hv⟩ := hfield
  · rw [tryGetRawValue_null hf hcolumn hnull]
    refine iff_of_true (nulls_agree _ rfl rfl getter) ?_
    intro starts off _ hpresent _
    cases hnull.symm.trans hpresent
  · obtain ⟨off', hstart', hstorage⟩ := checkStorage_ok desc.fields haccepted.storage hf hnull
    rw [Nat.zero_add] at hstart' hstorage
    cases hstart.symm.trans hstart'
    rw [tryGetRawValue_lazy haccepted.laid.count haccepted.laid.spans_length hf hcolumn hnull hstart]
    refine (cells_agree_iff hf hv hstorage getter).trans ?_
    constructor
    · intro halike starts off' hstarts _ hstart'
      cases haccepted.starts.symm.trans hstarts
      cases hstart.symm.trans hstart'
      exact halike
    · intro halike
      exact halike _ off haccepted.starts hnull hstart

end Rows

/-! ## Samples -/

def bitReads : ReadOps RawRow.bitPatterns where
  wholeDecimal unscaled := some unscaled
  debug _ := "value"

set_option maxRecDepth 10000 in
theorem sample_reads_agree :
    ∃ raw, RawRow.fromDbosRaw RawRow.sampleColumns RawRow.sampleRow RawRow.sampleDesc = .ok raw ∧
      Agree (raw.tryGet RawRow.bitOps bitReads (.option .string) 1).1
        ((ValuesRow.fromSharedDbos RawRow.sampleColumns RawRow.sampleValues
          RawRow.sampleDesc).tryGet RawRow.bitOps bitReads (.option .string) 1) := by
  have hrow : RawRow.sampleDesc.parseRowClassified RawRow.bitOps RawRow.sampleRow =
      .ok RawRow.sampleValues := rfl
  have hraw : RawRow.fromDbosRaw (N := RawRow.bitPatterns) RawRow.sampleColumns RawRow.sampleRow
      RawRow.sampleDesc =
        .ok ⟨RawRow.sampleColumns, RawRow.sampleRow, .dbos RawRow.sampleDesc, none, none, 6,
          [packSpan 6 11]⟩ := rfl
  have hf : RawRow.sampleDesc.fields[1]? = some ⟨16, 4, -1, 0, 1, false, 0⟩ := rfl
  have hcolumn : RawRow.sampleColumns[1]? = some ⟨"name".toList, 1043, -1, 20, 0⟩ := rfl
  refine ⟨_, hraw, (typed_reads_agree_iff RawRow.bitOps bitReads hrow hraw hf hcolumn _).mpr ?_⟩
  intro starts off _ _ _
  show (0 : Int) = 0 ∧ (1 : Int) ≠ 0
  decide

def timestampColumns : List ColumnDesc :=
  [⟨"at".toList, 1114, 8, -1, 0⟩]

def timestampDescriptor : Bytes :=
  [1, 0, 0, 0, 1, 0, 10, 10, 1, 9, 8, 8, 2, 0, 0, 0, 8, 0, 0, 0].flatMap (toBe 4)

def timestampDesc : DbosTupleDesc :=
  ⟨0, 0, 10, [⟨9, 8, 8, 2, 0, false, 8⟩]⟩

/-- The first microsecond of an `i64`. -/
def firstTimestamp : Bytes :=
  [0, 0, 0, 0, 0, 0, 0, 0, 0, 0x80]

set_option maxRecDepth 20000 in
/-- The midnight before the first timestamps is out of range once they are read from text. -/
theorem first_timestamp_read_apart :
    ¬∀ (N : Numerics) (ops : NumberOps N) (reads : ReadOps N) data cached desc columns payload
        (vs : List (NzValue N)) raw i f column getter,
      DbosTupleDesc.parse data cached = .ok desc →
      desc.parseRowClassified ops payload = .ok vs →
      RawRow.fromDbosRaw columns payload desc = .ok raw →
      desc.fields[i]? = some f → columns[i]? = some column →
      f.kind ≠ .numeric → f.kind ≠ .double → f.kind ≠ .float →
      Agree (raw.tryGet ops reads getter i).1
        ((ValuesRow.fromSharedDbos columns vs desc).tryGet ops reads getter i) := by
  intro h
  have hagree := h RawRow.bitPatterns RawRow.bitOps bitReads timestampDescriptor none timestampDesc
    timestampColumns firstTimestamp _ _ 0 _ _ .timestamp rfl rfl rfl rfl rfl nofun nofun nofun
  obtain ⟨value, -, heager⟩ | ⟨e, e', hlazy, -⟩ := hagree
  · cases heager
  · cases hlazy

end NzRust
