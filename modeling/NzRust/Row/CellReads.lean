import NzRust.Row.Fields

/-!
# Reads of one cell

What the typed reads do with the cell of a lazy binary row, in terms of the
value its bytes are decoded to, and with the cell of a decoded row.
-/

namespace NzRust

open ByteString Checked DbosTupleDesc Datetime

/-! ## Reads that end alike -/

/-- The same value, or an error on both sides. -/
def Agree {α : Type} (x y : Exec NzError α) : Prop :=
  (∃ a, x = .ok a ∧ y = .ok a) ∨ ∃ e e', x = fail e ∧ y = fail e'

section Agree

variable {α β : Type}

theorem agree_lift_iff {x y : NzResult α} : Agree (lift x) (lift y) ↔ x.toOption = y.toOption := by
  cases x with
  | ok a =>
      cases y with
      | ok b =>
          constructor
          · rintro (⟨c, ha, hb⟩ | ⟨e, e', ha, -⟩)
            · cases ha
              cases hb
              rfl
            · cases ha
          · intro h
            cases h
            exact .inl ⟨a, rfl, rfl⟩
      | error e =>
          constructor
          · rintro (⟨c, -, hb⟩ | ⟨e, e', ha, -⟩)
            · cases hb
            · cases ha
          · intro h
            cases h
  | error e =>
      cases y with
      | ok b =>
          constructor
          · rintro (⟨c, ha, -⟩ | ⟨e, e', -, hb⟩)
            · cases ha
            · cases hb
          · intro h
            cases h
      | error e' => exact iff_of_true (.inr ⟨e, e', rfl, rfl⟩) rfl

theorem agree_lift (x : NzResult α) : Agree (lift x) (lift x) :=
  agree_lift_iff.mpr rfl

theorem agree_ok_iff {x : Exec NzError α} {a : α} : Agree x (.ok a) ↔ x = .ok a := by
  constructor
  · rintro (⟨b, hx, hb⟩ | ⟨e, e', -, hb⟩)
    · cases hb
      exact hx
    · cases hb
  · rintro rfl
    exact .inl ⟨a, rfl, rfl⟩

theorem agree_fail_iff {y : Exec NzError α} {e : NzError} :
    Agree (fail e) y ↔ ∃ e', y = fail e' := by
  constructor
  · rintro (⟨b, hb, -⟩ | ⟨-, e', -, hy⟩)
    · cases hb
    · exact ⟨e', hy⟩
  · rintro ⟨e', rfl⟩
    exact .inr ⟨e, e', rfl, rfl⟩

/-- Wrapping both results tells nothing apart that was alike. -/
theorem agree_map_iff {x y : Exec NzError α} {wrap : α → β} (hwrap : Function.Injective wrap) :
    Agree (x >>= fun a => return wrap a) (y >>= fun a => return wrap a) ↔ Agree x y := by
  constructor
  · rintro (⟨b, hx, hy⟩ | ⟨e, e', hx, hy⟩)
    · obtain ⟨a, rfl, ha⟩ := bind_ok hx
      obtain ⟨a', rfl, ha'⟩ := bind_ok hy
      cases hwrap (Except.ok.inj (ha.trans ha'.symm))
      exact .inl ⟨a, rfl, rfl⟩
    · refine .inr ⟨e, e', ?_, ?_⟩
      · cases x with
        | ok a => cases hx
        | error fault => exact congrArg Except.error (Except.error.inj hx)
      · cases y with
        | ok a => cases hy
        | error fault => exact congrArg Except.error (Except.error.inj hy)
  · rintro (⟨a, rfl, rfl⟩ | ⟨e, e', rfl, rfl⟩)
    · exact .inl ⟨wrap a, rfl, rfl⟩
    · exact .inr ⟨e, e', rfl, rfl⟩

end Agree

/-! ## Trailing bytes -/

section Trailing

variable {α : Type} {p : α → Bool}

theorem rdropWhile_append (xs ys : List α) :
    (xs ++ ys).rdropWhile p =
      if ys.all p then xs.rdropWhile p else xs ++ ys.rdropWhile p := by
  rw [List.rdropWhile, List.reverse_append, List.dropWhile_append]
  by_cases hall : ys.all p = true
  · have hempty : (ys.reverse.dropWhile p).isEmpty = true := by
      simpa [List.isEmpty_iff, List.dropWhile_eq_nil_iff] using hall
    rw [if_pos hempty, if_pos hall, List.rdropWhile]
  · have hempty : ¬(ys.reverse.dropWhile p).isEmpty = true := by
      simpa [List.isEmpty_iff, List.dropWhile_eq_nil_iff] using hall
    rw [if_neg hempty, if_neg hall, List.reverse_append, List.reverse_reverse, List.rdropWhile]

/-- Items in front of others are not trimmed away, unless they are trailing themselves. -/
theorem rdropWhile_ne_of_front {front xs : List α} (hfront : ¬front.all p) (ys : List α) :
    (front ++ (xs ++ ys)).rdropWhile p ≠ xs.rdropWhile p := by
  intro h
  rw [rdropWhile_append] at h
  by_cases hall : (xs ++ ys).all p = true
  · rw [if_pos hall] at h
    have hxs : xs.rdropWhile p = [] := by
      rw [List.all_append, Bool.and_eq_true] at hall
      exact List.rdropWhile_eq_nil_iff.mpr (List.all_eq_true.mp hall.1)
    rw [hxs] at h
    exact hfront (List.all_eq_true.mpr (List.rdropWhile_eq_nil_iff.mp h))
  · rw [if_neg hall] at h
    have hkept : (xs.rdropWhile p).length ≤ ((xs ++ ys).rdropWhile p).length := by
      have hle := (List.rdropWhile_prefix p (l := xs)).length_le
      rw [rdropWhile_append]
      split
      · exact Nat.le_refl _
      · rw [List.length_append]
        omega
    have hlen := congrArg List.length h
    rw [List.length_append] at hlen
    have hpos : front ≠ [] := fun hnil => hfront (hnil ▸ rfl)
    have := List.length_pos_iff.mpr hpos
    omega

theorem leNat_zeros {bytes : Bytes} (h : bytes.all (· == 0)) : leNat bytes = 0 := by
  induction bytes with
  | nil => rfl
  | cons b bytes ih =>
      rw [List.all_cons, Bool.and_eq_true, beq_iff_eq] at h
      rw [leNat, h.1, ih h.2]
      rfl

/-- Two texts are equal up to trailing characters just where their bytes are. -/
theorem trimmed_text_iff {c : Char} {b : UInt8} (hb : b.toNat ≤ 0x7f) (hc : c.toNat = b.toNat)
    {bytes own : Bytes} {text : Text} (htext : fromUtf8 bytes = some text) :
    (∃ text', fromUtf8 own = some text' ∧ trimEndMatches c text' = trimEndMatches c text) ↔
      own.rdropWhile (· == b) = bytes.rdropWhile (· == b) := by
  have hbytes := toUtf8_of_fromUtf8 htext
  constructor
  · rintro ⟨text', hown, htrim⟩
    have hsame : text'.rdropWhile (· == c) = text.rdropWhile (· == c) := htrim
    rw [← toUtf8_of_fromUtf8 hown, ← hbytes, ← toUtf8_rdropWhile hb hc, hsame,
      toUtf8_rdropWhile hb hc]
  · intro h
    have hlast : ∀ x ∈ own.rtakeWhile (· == b), x = b := by
      intro x hx
      have heq := List.mem_rtakeWhile_imp (p := (· == b)) hx
      exact beq_iff_eq.mp heq
    have htail : own.rtakeWhile (· == b) = List.replicate (own.rtakeWhile (· == b)).length b :=
      List.eq_replicate_iff.mpr ⟨rfl, hlast⟩
    have hspaces (n : Nat) : toUtf8 (List.replicate n c) = List.replicate n b := by
      induction n with
      | zero => rfl
      | succ n ih =>
          rw [List.replicate_succ, toUtf8, List.flatMap_cons, encode_ascii hb hc]
          exact congrArg (b :: ·) ih
    have hown : own = toUtf8 (text.rdropWhile (· == c) ++
        List.replicate (own.rtakeWhile (· == b)).length c) := by
      have hsplit := List.rdropWhile_append_rtakeWhile (p := (· == b)) (l := own)
      have happend (xs ys : Text) : toUtf8 (xs ++ ys) = toUtf8 xs ++ toUtf8 ys := by
        simp [toUtf8]
      rw [happend, hspaces, ← htail, toUtf8_rdropWhile hb hc, hbytes, ← h, hsplit]
    refine ⟨_, (congrArg fromUtf8 hown).trans (fromUtf8_toUtf8 _), ?_⟩
    change (_ : Text).rdropWhile _ = text.rdropWhile _
    rw [rdropWhile_append, if_pos (by simp), List.rdropWhile_idempotent]

end Trailing

/-! ## Cells of a field that is not null -/

section Cells

variable {N : Numerics} {ops : NumberOps N} {reads : ReadOps N} {desc : DbosTupleDesc}
  {row bytes : Bytes} {off i : Nat} {f : DbosField} {v : NzValue N} {column : ColumnDesc}

namespace RawValue

theorem eager_isNull (hnull : v ≠ .null) :
    (eager v (some desc) column i).isNull = false := by
  cases v with
  | null => exact absurd rfl hnull
  | _ => rfl

section Lazy

variable (hf : desc.fields[i]? = some f) (hv : parseField ops row off i f = .ok v)

include hf hv

theorem toNzValue_lazy : (lazyDbos column bytes desc row off i).toNzValue ops = .ok v := by
  have hindex : (index desc.fields i : Exec NzError DbosField) = .ok f := by
    rw [index, hf]
  have hnull : ¬ (lazyDbos (N := N) column bytes desc row off i).isNull = true :=
    Bool.false_ne_true
  rw [toNzValue, if_neg hnull, lazyDbos]
  dsimp only
  rw [hindex, ok_bind, hv]

/-- A BOOL is read off its byte, which has to be one that the decoder accepts. -/
theorem boolFromRaw_lazy :
    (lazyDbos column bytes desc row off i).boolFromRaw ops reads = lift (reads.boolFromSql v) := by
  have hvalue : (lazyDbos (N := N) column bytes desc row off i).toNzValue ops = .ok v :=
    toNzValue_lazy hf hv
  have hparsed := parseField_parsed hv
  have hdecode : (lazyDbos (N := N) column bytes desc row off i).decodeBoolDbos = none ∨
      (lazyDbos (N := N) column bytes desc row off i).decodeBoolDbos =
        some (reads.boolFromSql v) := by
    unfold decodeBoolDbos
    rw [if_neg nofun, lazyDbos]
    simp only [Option.bind_eq_bind, Option.bind_some, hf]
    by_cases hkind : f.kind ≠ .bool
    · rw [if_pos hkind]
      exact .inl rfl
    rw [if_neg hkind]
    rw [not_not.mp hkind] at hparsed
    cases hparsed with
    | @bool value hbyte =>
        rw [hbyte, Option.bind_some]
        cases value <;> exact .inr rfl
  unfold boolFromRaw
  rw [show (lazyDbos (N := N) column bytes desc row off i).decoded = none from rfl]
  dsimp only
  obtain hnone | hsome := hdecode
  · rw [hnone]
    dsimp only
    rw [hvalue, ok_bind]
  · rw [hsome]

omit hf hv in
theorem intAt_eq {n : Nat} (h : Fits row off n) :
    intAt row off n = .ok (some (leInt (window row off n))) := by
  rw [intAt, addWord_eq h.word, ok_bind, h.getSlice]
  rfl

/-- An integer of the driver's own width is the one that the bytes were decoded to. -/
theorem intFromRaw_lazy (t : IntType) :
    (lazyDbos column bytes desc row off i).intFromRaw ops reads t = lift (reads.decodeInt t v) := by
  have hvalue : (lazyDbos (N := N) column bytes desc row off i).toNzValue ops = .ok v :=
    toNzValue_lazy hf hv
  have hparsed := parseField_parsed hv
  have hdecode : (lazyDbos (N := N) column bytes desc row off i).decodeIntDbos = .ok none ∨
      ∃ n, (lazyDbos (N := N) column bytes desc row off i).decodeIntDbos = .ok (some n) ∧
        ReadOps.orOutOfRange t (displayInt n) (t.tryFrom n) = reads.decodeInt t v := by
    unfold decodeIntDbos
    rw [if_neg nofun, lazyDbos]
    dsimp only
    rw [hf]
    dsimp only
    generalize f.kind = kind at hparsed
    cases hparsed with
    | int8 hfits =>
        obtain ⟨hlow, hhigh⟩ := leInt_bounds hfits.window_length (by decide)
        refine .inr ⟨_, intAt_eq hfits, ?_⟩
        rw [ReadOps.decodeInt, Int64.toInt_ofInt_of_le hlow hhigh]
    | int hfits =>
        obtain ⟨hlow, hhigh⟩ := leInt_bounds hfits.window_length (by decide)
        refine .inr ⟨_, intAt_eq hfits, ?_⟩
        rw [ReadOps.decodeInt, Int32.toInt_ofInt_of_le hlow hhigh]
    | int2 hfits =>
        obtain ⟨hlow, hhigh⟩ := leInt_bounds hfits.window_length (by decide)
        refine .inr ⟨_, intAt_eq hfits, ?_⟩
        rw [ReadOps.decodeInt, Int16.toInt_ofInt_of_le hlow hhigh]
    | @int1 byte hbyte =>
        obtain ⟨hlow, hhigh⟩ := leInt_bounds (show [byte].length = 1 from rfl) (by decide)
        refine .inr ⟨leInt [byte], by rw [hbyte]; rfl, ?_⟩
        rw [ReadOps.decodeInt, Int16.toInt_ofInt_of_le (by omega) (by omega)]
    | _ => exact .inl rfl
  unfold intFromRaw
  rw [show (lazyDbos (N := N) column bytes desc row off i).decoded = none from rfl]
  dsimp only
  obtain hnone | ⟨n, hsome, hread⟩ := hdecode
  · rw [hnone, ok_bind]
    dsimp only
    rw [hvalue, ok_bind]
  · rw [hsome, ok_bind]
    dsimp only
    rw [hread]

theorem bytesFromRaw_lazy :
    (lazyDbos column bytes desc row off i).bytesFromRaw ops reads = lift (reads.bytesFromSql v) := by
  unfold bytesFromRaw
  rw [show (lazyDbos (N := N) column bytes desc row off i).decoded = none from rfl]
  dsimp only
  rw [toNzValue_lazy hf hv, ok_bind]

omit hv in
/-- A temporal value is read off the bytes of a field of its own kind only. -/
theorem temporalFromRaw_lazy {α : Type} {expected : FieldKind} {width : Nat}
    (fromBytes : Bytes → NzResult α) (fromSql : NzValue N → NzResult α)
    (hfits : f.kind = expected → Fits row off width) :
    (lazyDbos column bytes desc row off i).temporalFromRaw ops expected width fromBytes fromSql =
      if f.kind = expected then lift (fromBytes (window row off width))
      else fail invalidTemporal := by
  have hindex : (index desc.fields i : Exec NzError DbosField) = .ok f := by
    rw [index, hf]
  have hnull : ¬ (lazyDbos (N := N) column bytes desc row off i).isNull = true :=
    Bool.false_ne_true
  rw [temporalFromRaw, binary, if_neg hnull, lazyDbos]
  dsimp only
  rw [hindex, ok_bind]
  by_cases hkind : f.kind = expected
  · have hfits := hfits hkind
    rw [if_neg (not_not.mpr hkind), if_pos hkind, hfits.addChecked, Option.bind_some,
      hfits.getSlice]
    rfl
  · rw [if_pos hkind, if_neg hkind]
    rfl

end Lazy

/-- A decoded cell has no place in a binary row. -/
theorem temporalFromRaw_eager {α : Type} (expected : FieldKind) (width : Nat)
    (fromBytes : Bytes → NzResult α) (fromSql : NzValue N → NzResult α) (hnull : v ≠ .null) :
    (eager v (some desc) column i).temporalFromRaw ops expected width fromBytes fromSql =
      lift (fromSql v) := by
  rw [temporalFromRaw, binary, eager_isNull hnull, if_neg Bool.false_ne_true]
  rfl

/-! ## Text -/

theorem stringFromRaw_text (hf : desc.fields[i]? = some f) {trim : Text → Text}
    (hkind : f.kind = .char ∧ trim = trimEndMatches ' ' ∨
      f.kind = .nchar ∧ trim = trimEndMatches '\x00' ∨ f.kind = .varchar ∧ trim = id) :
    (lazyDbos column bytes desc row off i).stringFromRaw ops reads =
      orFail (.config "invalid UTF-8 SQL text") (fromUtf8 bytes) >>= fun text => .ok (trim text) := by
  have hindex : (index desc.fields i : Exec NzError DbosField) = .ok f := by
    rw [index, hf]
  have htextual : isTextualKind f.kind = true := by
    obtain ⟨hk, -⟩ | ⟨hk, -⟩ | ⟨hk, -⟩ := hkind <;> rw [hk] <;> rfl
  have hstr : (lazyDbos (N := N) column bytes desc row off i).strFromSqlRaw reads =
      orFail (.config "invalid UTF-8 SQL text") (fromUtf8 bytes) >>= fun text =>
        .ok (trim text) := by
    rw [strFromSqlRaw, lazyDbos]
    dsimp only
    cases fromUtf8 bytes with
    | none => rfl
    | some text =>
        rw [orFail, ok_bind, ok_bind, hindex, ok_bind]
        obtain ⟨hk, rfl⟩ | ⟨hk, rfl⟩ | ⟨hk, rfl⟩ := hkind <;> rw [hk] <;> rfl
  rw [stringFromRaw, isTextual]
  rw [lazyDbos] at hstr ⊢
  dsimp only
  rw [hindex, ok_bind, htextual, ← hstr]
  rfl

theorem stringFromRaw_other (hf : desc.fields[i]? = some f) (hv : parseField ops row off i f = .ok v)
    (hkind : isTextualKind f.kind = false) :
    (lazyDbos column bytes desc row off i).stringFromRaw ops reads =
      lift (reads.stringFromSql v) := by
  have hindex : (index desc.fields i : Exec NzError DbosField) = .ok f := by
    rw [index, hf]
  have hvalue : (lazyDbos (N := N) column bytes desc row off i).toNzValue ops = .ok v :=
    toNzValue_lazy hf hv
  rw [stringFromRaw, isTextual]
  rw [lazyDbos] at hvalue ⊢
  dsimp only
  rw [hindex, ok_bind, hkind, pure_bind, if_neg Bool.false_ne_true, hvalue, ok_bind]

/-- A decoded text is read as it is, whether its bytes are exposed or not. -/
theorem stringFromRaw_decoded_text (text : Text) :
    (eager (.text text) (some desc) column i).stringFromRaw ops reads = .ok text := by
  rw [stringFromRaw, eager, eagerCellBytes]
  dsimp only
  by_cases hexposed : (desc.fields[i]?).any (fun f => decide (f.kind = .varchar)) = true
  · rw [if_pos hexposed]
    dsimp only
    rw [isTextual, strFromSqlRaw]
    dsimp only
    rw [ok_bind, fromUtf8_toUtf8]
    split <;> rfl
  · rw [if_neg hexposed]
    rfl

theorem stringFromRaw_decoded_bytes (kept : Bytes) :
    (eager (.bytea kept) (some desc) column i).stringFromRaw ops reads =
      if isTextualOid column.typeOid then
        orFail (.config "invalid UTF-8 SQL text") (fromUtf8 kept)
      else fail (reads.unexpected (.bytea kept) "text") := by
  have hexposed : eagerCellBytes (N := N) (.bytea kept) (some desc) column i = some kept := rfl
  rw [stringFromRaw, eager, hexposed]
  dsimp only
  rw [isTextual, ok_bind]
  by_cases htextual : isTextualOid column.typeOid = true
  · rw [if_pos htextual, if_pos htextual, strFromSqlRaw]
    dsimp only
    cases fromUtf8 kept <;> rfl
  · rw [if_neg htextual, if_neg htextual]
    rfl

theorem stringFromRaw_decoded (hbytes : eagerCellBytes v (some desc) column i = none) :
    (eager v (some desc) column i).stringFromRaw ops reads = lift (reads.stringFromSql v) := by
  rw [stringFromRaw, eager, hbytes]

end RawValue

end Cells

end NzRust
