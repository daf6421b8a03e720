import Mathlib.Data.List.DropRight
import NzRust.Types.TextValue

/-!
# UTF-8 read back

The decoder behind `from_utf8` recovers a text from its bytes, and a text that it
has read has the bytes it was read from.
-/

namespace NzRust

theorem utf8Tail_one {lo hi value : Nat} {b : UInt8} (hlo : lo ≤ b.toNat) (hhi : b.toNat ≤ hi)
    (count : Nat) (bs : Bytes) :
    utf8Tail (count + 1) lo hi value (b :: bs) =
      ((utf8Tail count 0x80 0xBF (value * 64 + (b.toNat - 0x80)) bs).1,
        (utf8Tail count 0x80 0xBF (value * 64 + (b.toNat - 0x80)) bs).2 + 1) := by
  rw [utf8Tail, if_pos ⟨hlo, hhi⟩]

/-- A leading byte with its continuation bytes, once their ranges are known. -/
theorem utf8Next_of_tail {b : UInt8} {bs rest : Bytes} {count lo hi v : Nat} {c : Char}
    (hlead : utf8Lead b = some (count, lo, hi))
    (htail : utf8Tail count lo hi (utf8LeadBits b count) (bs ++ rest) = (some v, bs.length))
    (hv : Char.ofNat v = c) : utf8Next b (bs ++ rest) = (some c, bs.length + 1) := by
  rw [utf8Next, hlead]
  dsimp only
  rw [htail, ← hv]
  rfl

theorem ofNat_toNat {n : Nat} (h : n < 256) : (UInt8.ofNat n).toNat = n := by
  rw [UInt8.toNat_ofNat', Nat.mod_eq_of_lt h]

/-- The first character of what a text was encoded to. -/
theorem utf8Next_encode (c : Char) (rest : Bytes) :
    ∃ b bs, String.utf8EncodeChar c = b :: bs ∧
      utf8Next b (bs ++ rest) = (some c, bs.length + 1) := by
  have hvalid : c.val.toNat < 0xd800 ∨ 0xdfff < c.val.toNat ∧ c.val.toNat < 0x110000 := c.valid
  have hchar : Char.ofNat c.val.toNat = c := Char.ofNat_toNat c
  unfold String.utf8EncodeChar
  dsimp only
  generalize c.val.toNat = v at hvalid hchar ⊢
  by_cases h₁ : v ≤ 0x7f
  · rw [if_pos h₁]
    have hbyte : (UInt8.ofNat v).toNat = v := ofNat_toNat (by omega)
    have hlead : utf8Lead (UInt8.ofNat v) = some (0, 0, 0) := by
      unfold utf8Lead
      dsimp only
      rw [hbyte, if_pos (by omega)]
    have htail : utf8Tail 0 0 0 (utf8LeadBits (UInt8.ofNat v) 0) ([] ++ rest) = (some v, 0) :=
      congrArg (fun n => (some n, 0)) hbyte
    exact ⟨UInt8.ofNat v, [], rfl, utf8Next_of_tail hlead htail hchar⟩
  rw [if_neg h₁]
  have hlast : (UInt8.ofNat (v % 64 + 0x80)).toNat = v % 64 + 0x80 := ofNat_toNat (by omega)
  by_cases h₂ : v ≤ 0x7ff
  · rw [if_pos h₂]
    have hlead : utf8Lead (UInt8.ofNat (v / 64 % 32 + 0xc0)) = some (1, 0x80, 0xBF) := by
      simp only [utf8Lead, ofNat_toNat (show v / 64 % 32 + 0xc0 < 256 by omega)]
      rw [if_neg (by omega), if_pos (by omega)]
    have hfirst : (UInt8.ofNat (v / 64 % 32 + 0xc0)).toNat = v / 64 % 32 + 0xc0 :=
      ofNat_toNat (by omega)
    have hbits : utf8LeadBits (UInt8.ofNat (v / 64 % 32 + 0xc0)) 1 = v / 64 % 32 + 0xc0 - 0xc0 :=
      congrArg (· - 0xc0) hfirst
    have hvalue : (v / 64 % 32 + 0xc0 - 0xc0) * 64 + (v % 64 + 0x80 - 0x80) = v := by omega
    have htail : utf8Tail 1 0x80 0xBF (utf8LeadBits (UInt8.ofNat (v / 64 % 32 + 0xc0)) 1)
        ([UInt8.ofNat (v % 64 + 0x80)] ++ rest) = (some v, 1) := by
      rw [List.singleton_append, utf8Tail_one (by omega) (by omega), hbits, hlast, hvalue, utf8Tail]
    exact ⟨_, _, rfl, utf8Next_of_tail hlead htail hchar⟩
  rw [if_neg h₂]
  by_cases h₃ : v ≤ 0xffff
  · rw [if_pos h₃]
    obtain ⟨lo, hi, hlead, hlo, hhi, hlow⟩ : ∃ lo hi,
        utf8Lead (UInt8.ofNat (v / 4096 % 16 + 0xe0)) = some (2, lo, hi) ∧
          lo ≤ v / 64 % 64 + 0x80 ∧ v / 64 % 64 + 0x80 ≤ hi ∧ 0x80 ≤ lo := by
      simp only [utf8Lead, ofNat_toNat (show v / 4096 % 16 + 0xe0 < 256 by omega)]
      rw [if_neg (by omega), if_neg (by omega)]
      repeat' split
      all_goals first | exact ⟨_, _, rfl, by omega, by omega, by omega⟩ | omega
    have hfirst : (UInt8.ofNat (v / 4096 % 16 + 0xe0)).toNat = v / 4096 % 16 + 0xe0 :=
      ofNat_toNat (by omega)
    have hbits : utf8LeadBits (UInt8.ofNat (v / 4096 % 16 + 0xe0)) 2 = v / 4096 % 16 + 0xe0 - 0xe0 :=
      congrArg (· - 0xe0) hfirst
    have hsecond : (UInt8.ofNat (v / 64 % 64 + 0x80)).toNat = v / 64 % 64 + 0x80 :=
      ofNat_toNat (by omega)
    have hvalue : ((v / 4096 % 16 + 0xe0 - 0xe0) * 64 + (v / 64 % 64 + 0x80 - 0x80)) * 64 +
        (v % 64 + 0x80 - 0x80) = v := by
      omega
    refine ⟨_, _, rfl, utf8Next_of_tail hlead (v := v) ?_ hchar⟩
    rw [List.cons_append, utf8Tail_one (by omega) (by omega), List.singleton_append,
      utf8Tail_one (by omega) (by omega), hbits, hsecond, hlast, hvalue, utf8Tail]
    rfl
  rw [if_neg h₃]
  obtain ⟨lo, hi, hlead, hlo, hhi, hlow⟩ : ∃ lo hi,
      utf8Lead (UInt8.ofNat (v / 262144 % 8 + 0xf0)) = some (3, lo, hi) ∧
        lo ≤ v / 4096 % 64 + 0x80 ∧ v / 4096 % 64 + 0x80 ≤ hi ∧ 0x80 ≤ lo := by
    simp only [utf8Lead, ofNat_toNat (show v / 262144 % 8 + 0xf0 < 256 by omega)]
    rw [if_neg (by omega), if_neg (by omega), if_neg (by omega), if_neg (by omega), if_neg (by omega)]
    repeat' split
    all_goals first | exact ⟨_, _, rfl, by omega, by omega, by omega⟩ | omega
  have hfirst : (UInt8.ofNat (v / 262144 % 8 + 0xf0)).toNat = v / 262144 % 8 + 0xf0 :=
    ofNat_toNat (by omega)
  have hbits : utf8LeadBits (UInt8.ofNat (v / 262144 % 8 + 0xf0)) 3 = v / 262144 % 8 + 0xf0 - 0xf0 :=
    congrArg (· - 0xf0) hfirst
  have hsecond : (UInt8.ofNat (v / 4096 % 64 + 0x80)).toNat = v / 4096 % 64 + 0x80 :=
    ofNat_toNat (by omega)
  have hthird : (UInt8.ofNat (v / 64 % 64 + 0x80)).toNat = v / 64 % 64 + 0x80 :=
    ofNat_toNat (by omega)
  have hvalue : (((v / 262144 % 8 + 0xf0 - 0xf0) * 64 + (v / 4096 % 64 + 0x80 - 0x80)) * 64 +
      (v / 64 % 64 + 0x80 - 0x80)) * 64 + (v % 64 + 0x80 - 0x80) = v := by
    omega
  refine ⟨_, _, rfl, utf8Next_of_tail hlead (v := v) ?_ hchar⟩
  rw [List.cons_append, utf8Tail_one (by omega) (by omega), List.cons_append,
    utf8Tail_one (by omega) (by omega), List.singleton_append,
    utf8Tail_one (by omega) (by omega), hbits, hsecond, hthird, hlast, hvalue, utf8Tail]
  rfl

theorem utf8Chars_toUtf8 (text : Text) {fuel : Nat} (hfuel : (toUtf8 text).length ≤ fuel) :
    utf8Chars fuel (toUtf8 text) = text.map some := by
  induction text generalizing fuel with
  | nil => cases fuel <;> rfl
  | cons c text ih =>
      obtain ⟨b, bs, hencode, hnext⟩ := utf8Next_encode c (toUtf8 text)
      have hbytes : toUtf8 (c :: text) = b :: (bs ++ toUtf8 text) := by
        rw [toUtf8, List.flatMap_cons, hencode]
        rfl
      rw [hbytes] at hfuel ⊢
      rw [List.length_cons, List.length_append] at hfuel
      obtain ⟨fuel, rfl⟩ : ∃ f, fuel = f + 1 := ⟨fuel - 1, by omega⟩
      rw [utf8Chars, hnext]
      dsimp only
      rw [Nat.add_sub_cancel, List.drop_left, ih (by omega), List.map_cons]

/-- A text is read back from its bytes. -/
theorem fromUtf8_toUtf8 (text : Text) : fromUtf8 (toUtf8 text) = some text := by
  rw [fromUtf8, utf8Chars_toUtf8 text (Nat.le_refl _)]
  induction text with
  | nil => rfl
  | cons c text ih => simp [ih]

theorem fromUtf8Lossy_toUtf8 (text : Text) : fromUtf8Lossy (toUtf8 text) = text := by
  rw [fromUtf8Lossy, utf8Chars_toUtf8 text (Nat.le_refl _), List.map_map]
  exact List.map_id text

/-- The bytes of a character are not those of an ASCII character other than it. -/
theorem ascii_not_mem_encode {b : UInt8} (hb : b.toNat ≤ 0x7f) {c : Char} (hc : c.toNat ≠ b.toNat) :
    b ∉ String.utf8EncodeChar c := by
  have hval : c.val.toNat ≠ b.toNat := hc
  have hne : ∀ n, n ≠ b.toNat → n < 256 → b ≠ UInt8.ofNat n := by
    intro n hn hlt heq
    have hnat := congrArg UInt8.toNat heq
    rw [ofNat_toNat hlt] at hnat
    exact hn hnat.symm
  unfold String.utf8EncodeChar
  dsimp only
  generalize c.val.toNat = v at hval
  by_cases h₁ : v ≤ 0x7f
  · rw [if_pos h₁, List.mem_singleton]
    exact hne v hval (by omega)
  rw [if_neg h₁]
  by_cases h₂ : v ≤ 0x7ff
  · rw [if_pos h₂]
    simp only [List.mem_cons, List.not_mem_nil, or_false, not_or]
    exact ⟨hne _ (by omega) (by omega), hne _ (by omega) (by omega)⟩
  rw [if_neg h₂]
  by_cases h₃ : v ≤ 0xffff
  · rw [if_pos h₃]
    simp only [List.mem_cons, List.not_mem_nil, or_false, not_or]
    exact ⟨hne _ (by omega) (by omega), hne _ (by omega) (by omega), hne _ (by omega) (by omega)⟩
  · rw [if_neg h₃]
    simp only [List.mem_cons, List.not_mem_nil, or_false, not_or]
    exact ⟨hne _ (by omega) (by omega), hne _ (by omega) (by omega), hne _ (by omega) (by omega),
      hne _ (by omega) (by omega)⟩

/-- A text without NUL has no zero byte. -/
theorem zero_not_mem_toUtf8 {text : Text} (h : '\x00' ∉ text) : (0 : UInt8) ∉ toUtf8 text := by
  intro hmem
  obtain ⟨c, hc, hzero⟩ := List.mem_flatMap.mp hmem
  have hne : c.toNat ≠ (0 : UInt8).toNat := by
    intro heq
    have hnul : c = '\x00' := Char.toNat_inj.mp heq
    exact h (hnul ▸ hc)
  exact ascii_not_mem_encode (by decide) hne hzero

theorem encode_ascii {c : Char} {b : UInt8} (hb : b.toNat ≤ 0x7f) (hc : c.toNat = b.toNat) :
    String.utf8EncodeChar c = [b] := by
  have hval : c.val.toNat = b.toNat := hc
  unfold String.utf8EncodeChar
  dsimp only
  rw [hval, if_pos hb, UInt8.ofNat_toNat]

/-- An ASCII character is trimmed off a text as its byte is trimmed off the bytes. -/
theorem toUtf8_rdropWhile {c : Char} {b : UInt8} (hb : b.toNat ≤ 0x7f) (hc : c.toNat = b.toNat)
    (text : Text) :
    toUtf8 (text.rdropWhile (· == c)) = (toUtf8 text).rdropWhile (· == b) := by
  induction text using List.reverseRecOn with
  | nil => rfl
  | append_singleton text d ih =>
      have hbytes : toUtf8 (text ++ [d]) = toUtf8 text ++ String.utf8EncodeChar d := by
        simp [toUtf8]
      rw [hbytes]
      by_cases hd : d = c
      · rw [hd, encode_ascii hb hc, List.rdropWhile_concat_pos _ _ _ (by simp),
          List.rdropWhile_concat_pos _ _ _ (by simp), ih]
      · have hfree := ascii_not_mem_encode (c := d) hb fun heq =>
          hd (Char.toNat_inj.mp (heq.trans hc.symm))
        obtain ⟨front, last, hlast⟩ : ∃ front last, String.utf8EncodeChar d = front ++ [last] := by
          obtain ⟨first, rest, hencode, -⟩ := utf8Next_encode d []
          rw [hencode]
          exact ⟨_, _, (List.dropLast_append_getLast (List.cons_ne_nil first rest)).symm⟩
        have hne : last ≠ b := by
          rintro rfl
          exact hfree (hlast ▸ List.mem_append_right _ (List.mem_singleton_self _))
        rw [List.rdropWhile_concat_neg _ _ _ (by simpa using hd), hbytes, hlast,
          ← List.append_assoc, List.rdropWhile_concat_neg _ _ _ (by simpa using hne)]

/-! ## Bytes read and written again -/

theorem utf8Lead_cases {b : UInt8} {count lo hi : Nat} (h : utf8Lead b = some (count, lo, hi)) :
    count = 0 ∧ b.toNat < 0x80 ∨
    count = 1 ∧ (lo = 0x80 ∧ hi = 0xBF) ∧ 0xC2 ≤ b.toNat ∧ b.toNat ≤ 0xDF ∨
    count = 2 ∧ (0x80 ≤ lo ∧ hi ≤ 0xBF) ∧ (0xE0 ≤ b.toNat ∧ b.toNat ≤ 0xEF) ∧
      (b.toNat = 0xE0 → lo = 0xA0) ∧ (b.toNat = 0xED → hi = 0x9F) ∨
    count = 3 ∧ (0x80 ≤ lo ∧ hi ≤ 0xBF) ∧ (0xF0 ≤ b.toNat ∧ b.toNat ≤ 0xF4) ∧
      (b.toNat = 0xF0 → lo = 0x90) ∧ (b.toNat = 0xF4 → hi = 0x8F) := by
  unfold utf8Lead at h
  dsimp only at h
  repeat' split at h
  all_goals first | cases h; omega | cases h

theorem utf8Tail_zero {lo hi value v n : Nat} {bs : Bytes}
    (h : utf8Tail 0 lo hi value bs = (some v, n)) : v = value ∧ n = 0 := by
  rw [utf8Tail] at h
  obtain ⟨hvalue, hcount⟩ := Prod.mk.inj h
  exact ⟨(Option.some.inj hvalue).symm, hcount.symm⟩

theorem utf8Tail_some {count lo hi value v k : Nat} {bs : Bytes}
    (h : utf8Tail (count + 1) lo hi value bs = (some v, k)) :
    ∃ b rest n, bs = b :: rest ∧ lo ≤ b.toNat ∧ b.toNat ≤ hi ∧ k = n + 1 ∧
      utf8Tail count 0x80 0xBF (value * 64 + (b.toNat - 0x80)) rest = (some v, n) := by
  cases bs with
  | nil => cases h
  | cons b rest =>
      rw [utf8Tail] at h
      by_cases hrange : lo ≤ b.toNat ∧ b.toNat ≤ hi
      · rw [if_pos hrange] at h
        dsimp only at h
        obtain ⟨hvalue, hcount⟩ := Prod.mk.inj h
        exact ⟨b, rest, _, rfl, hrange.1, hrange.2, hcount.symm, Prod.ext hvalue rfl⟩
      · rw [if_neg hrange] at h
        cases h

theorem ofNat_val {v : Nat} (h : v < 0xd800 ∨ 0xdfff < v ∧ v < 0x110000) :
    (Char.ofNat v).val.toNat = v := by
  unfold Char.ofNat
  rw [dif_pos h]
  rfl

theorem byte_eq {b : UInt8} {n : Nat} (h : n = b.toNat) : UInt8.ofNat n = b := by
  rw [h, UInt8.ofNat_toNat]

/-- The bytes that a character was read from are those it is encoded to. -/
theorem encode_utf8Next {b : UInt8} {bs : Bytes} {c : Char} {n : Nat}
    (h : utf8Next b bs = (some c, n + 1)) :
    String.utf8EncodeChar c = b :: bs.take n ∧ n ≤ bs.length := by
  unfold utf8Next at h
  cases hlead : utf8Lead b with
  | none =>
      rw [hlead] at h
      cases h
  | some lead =>
      obtain ⟨count, lo, hi⟩ := lead
      rw [hlead] at h
      dsimp only at h
      obtain ⟨hchar, hcount⟩ := Prod.mk.inj h
      obtain ⟨v, hv, rfl⟩ := Option.map_eq_some_iff.mp hchar
      have htail : utf8Tail count lo hi (utf8LeadBits b count) bs = (some v, n) :=
        Prod.ext hv (Nat.succ.inj hcount)
      clear h hv hchar hcount
      unfold String.utf8EncodeChar
      dsimp only
      obtain ⟨rfl, hb⟩ | ⟨rfl, ⟨rfl, rfl⟩, hb⟩ | ⟨rfl, hrange, hb, hlow, hhigh⟩ |
        ⟨rfl, hrange, hb, hlow, hhigh⟩ := utf8Lead_cases hlead
      · obtain ⟨rfl, rfl⟩ := utf8Tail_zero htail
        have hbits : utf8LeadBits b 0 = b.toNat := rfl
        rw [hbits, ofNat_val (by omega), if_pos (by omega), byte_eq rfl, List.take_zero]
        exact ⟨rfl, Nat.zero_le _⟩
      · obtain ⟨b₁, rest₁, m₁, rfl, hlo₁, hhi₁, rfl, hend⟩ := utf8Tail_some htail
        obtain ⟨hv, rfl⟩ := utf8Tail_zero hend
        have hbits : utf8LeadBits b 1 = b.toNat - 0xC0 := rfl
        rw [hbits] at hv
        rw [ofNat_val (by omega), if_neg (by omega), if_pos (by omega), byte_eq (b := b) (by omega),
          byte_eq (b := b₁) (by omega)]
        exact ⟨rfl, by simp⟩
      · obtain ⟨b₁, rest₁, m₁, rfl, hlo₁, hhi₁, rfl, htail₁⟩ := utf8Tail_some htail
        obtain ⟨b₂, rest₂, m₂, rfl, hlo₂, hhi₂, rfl, hend⟩ := utf8Tail_some htail₁
        obtain ⟨hv, rfl⟩ := utf8Tail_zero hend
        have hbits : utf8LeadBits b 2 = b.toNat - 0xE0 := rfl
        rw [hbits] at hv
        rw [ofNat_val (by omega), if_neg (by omega), if_neg (by omega), if_pos (by omega),
          byte_eq (b := b) (by omega), byte_eq (b := b₁) (by omega), byte_eq (b := b₂) (by omega)]
        exact ⟨rfl, by simp⟩
      · obtain ⟨b₁, rest₁, m₁, rfl, hlo₁, hhi₁, rfl, htail₁⟩ := utf8Tail_some htail
        obtain ⟨b₂, rest₂, m₂, rfl, hlo₂, hhi₂, rfl, htail₂⟩ := utf8Tail_some htail₁
        obtain ⟨b₃, rest₃, m₃, rfl, hlo₃, hhi₃, rfl, hend⟩ := utf8Tail_some htail₂
        obtain ⟨hv, rfl⟩ := utf8Tail_zero hend
        have hbits : utf8LeadBits b 3 = b.toNat - 0xF0 := rfl
        rw [hbits] at hv
        rw [ofNat_val (by omega), if_neg (by omega), if_neg (by omega), if_neg (by omega),
          byte_eq (b := b) (by omega), byte_eq (b := b₁) (by omega), byte_eq (b := b₂) (by omega),
          byte_eq (b := b₃) (by omega)]
        exact ⟨rfl, by simp⟩

theorem utf8Next_pos (b : UInt8) (bs : Bytes) : ∃ n, (utf8Next b bs).2 = n + 1 := by
  unfold utf8Next
  cases utf8Lead b with
  | none => exact ⟨0, rfl⟩
  | some lead => exact ⟨_, rfl⟩

theorem toUtf8_of_utf8Chars {fuel : Nat} {bytes : Bytes} {text : Text}
    (hfuel : bytes.length ≤ fuel) (h : (utf8Chars fuel bytes).mapM id = some text) :
    toUtf8 text = bytes := by
  induction fuel generalizing bytes text with
  | zero =>
      cases List.eq_nil_of_length_eq_zero (Nat.le_zero.mp hfuel)
      cases h
      rfl
  | succ fuel ih =>
      cases bytes with
      | nil =>
          cases h
          rfl
      | cons b bs =>
          rw [utf8Chars] at h
          obtain ⟨n, hn⟩ := utf8Next_pos b bs
          rw [hn, Nat.add_sub_cancel, List.mapM_cons] at h
          obtain ⟨c, hc, h⟩ := Option.bind_eq_some_iff.mp h
          obtain ⟨rest, hrest, h⟩ := Option.bind_eq_some_iff.mp h
          cases h
          obtain ⟨hencode, hle⟩ := encode_utf8Next (Prod.ext hc hn : utf8Next b bs = (some c, n + 1))
          rw [List.length_cons] at hfuel
          have hbytes := ih (by rw [List.length_drop]; omega) hrest
          rw [toUtf8, List.flatMap_cons, hencode]
          change b :: bs.take n ++ toUtf8 rest = _
          rw [hbytes, List.cons_append, List.take_append_drop]

/-- The bytes are those of the text that they are read as. -/
theorem toUtf8_of_fromUtf8 {bytes : Bytes} {text : Text} (h : fromUtf8 bytes = some text) :
    toUtf8 text = bytes :=
  toUtf8_of_utf8Chars (Nat.le_refl _) h

end NzRust
