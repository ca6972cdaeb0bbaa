/-
PackageRouting/Proofs/Text/Utf8.lean

What is read from bytes as UTF-8.

The bytes of a text are read as the text (`decode_toUTF8`): the first byte of a
character opens a window that its second byte falls into, and every further byte
adds six bits (`decodeFrom_tail`).

Whatever the bytes are, a character of one byte is read from that byte alone,
because one that is under way has too many bits to end as it (`Pending.Wide`).
So broken bytes make no text empty and bring no slash into it.

Main results: `decodeLossy_toUTF8`, `byte_mem_of_mem_decodeLossy`,
`eq_of_decodeLossy_eq`.
-/
import Mathlib.Tactic.IntervalCases
import PackageRouting.Text.Utf8

namespace PackageRouting.Text

variable {b : UInt8} {bytes rest : List UInt8} {p : Pending} {c : Char} {n : Nat}

/-! ### The bytes of a text -/

theorem toList_loop (bs : ByteArray) (i : Nat) (acc : List UInt8) :
    ByteArray.toList.loop bs i acc = acc.reverse ++ bs.data.toList.drop i := by
  fun_induction ByteArray.toList.loop bs i acc with
  | case1 i acc hi ih =>
    have hlength : i < bs.data.toList.length := by simpa using hi
    have hget : bs.get! i = bs.data.toList[i] := by
      rw [Array.getElem_toList]
      exact getElem!_pos bs.data i hi
    rw [ih, List.drop_eq_getElem_cons hlength, hget]
    simp
  | case2 i acc hi =>
    rw [List.drop_eq_nil_of_le (by simpa using hi), List.append_nil]

/-- The bytes of a text are those of its characters. -/
theorem toList_toUTF8 (s : String) :
    s.toUTF8.toList = s.toList.flatMap String.utf8EncodeChar := by
  have hbytes : s.toUTF8 = (s.toList.flatMap String.utf8EncodeChar).toByteArray := by
    rw [String.toUTF8_eq_toByteArray, ← List.utf8Encode, ← String.toByteArray_ofList,
      String.ofList_toList]
  rw [hbytes, ByteArray.toList, toList_loop]
  simp

/-! ### Reading a character -/

theorem start_of_lt (h : n < 128) : start (UInt8.ofNat n) = .whole (Char.ofNat n) := by
  have hbyte : UInt8.ofNat n < 0x80 := by
    rw [UInt8.lt_iff_toNat_lt, UInt8.toNat_ofNat']
    simpa using Nat.lt_of_le_of_lt (Nat.mod_le _ _) h
  rw [start, if_pos hbyte, UInt8.toNat_ofNat', Nat.mod_eq_of_lt (by omega)]

/-- The first of two bytes. -/
theorem start_of_two (h : 2 ≤ n) (h' : n < 32) :
    start (UInt8.ofNat (n + 192)) = .pending ⟨n, 1, 0x80, 0xBF⟩ := by
  interval_cases n <;> rfl

/-- The first of three bytes. -/
theorem start_of_three (h : n < 16) :
    start (UInt8.ofNat (n + 224)) =
      .pending ⟨n, 2, if n = 0 then 0xA0 else 0x80, if n = 13 then 0x9F else 0xBF⟩ := by
  interval_cases n <;> rfl

/-- The first of four bytes. -/
theorem start_of_four (h : n < 5) :
    start (UInt8.ofNat (n + 240)) =
      .pending ⟨n, 3, if n = 0 then 0x90 else 0x80, if n = 4 then 0x8F else 0xBF⟩ := by
  interval_cases n <;> rfl

theorem Pending.accepts_iff :
    p.accepts b ↔ p.least.toNat ≤ b.toNat ∧ b.toNat ≤ p.greatest.toNat := by
  rw [accepts, Bool.and_eq_true, decide_eq_true_iff, decide_eq_true_iff, UInt8.le_iff_toNat_le,
    UInt8.le_iff_toNat_le]

/-- The byte that carries the last six bits of a number. -/
def tailByte (n : Nat) : UInt8 := UInt8.ofNat (n % 64 + 128)

theorem toNat_tailByte (n : Nat) : (tailByte n).toNat = n % 64 + 128 := by
  rw [tailByte, UInt8.toNat_ofNat']
  omega

/-- **A further byte adds six bits to the character under way.** -/
theorem decodeFrom_tail (hbits : p.bits = n / 64) (hleast : p.least.toNat ≤ n % 64 + 128)
    (hgreatest : n % 64 + 128 ≤ p.greatest.toNat) :
    decodeFrom (some p) (tailByte n :: rest) =
      if p.missing ≤ 1 then some (Char.ofNat n) :: decodeFrom none rest
      else decodeFrom (some { bits := n, missing := p.missing - 1 }) rest := by
  have haccepts : p.accepts (tailByte n) := by
    rw [Pending.accepts_iff, toNat_tailByte]
    exact ⟨hleast, hgreatest⟩
  have hextend : p.extend (tailByte n) = n := by
    show p.bits * 64 + ((tailByte n).toNat - 128) = n
    rw [toNat_tailByte, hbits]
    omega
  rw [decodeFrom, if_pos haccepts, hextend]

theorem decodeFrom_last (n : Nat) (rest : List UInt8) :
    decodeFrom (some ⟨n / 64, 1, 0x80, 0xBF⟩) (tailByte n :: rest) =
      some (Char.ofNat n) :: decodeFrom none rest := by
  refine decodeFrom_tail rfl (Nat.le_add_left _ _) ?_
  show n % 64 + 128 ≤ 191
  omega

theorem decodeFrom_next (n missing : Nat) (rest : List UInt8) :
    decodeFrom (some ⟨n / 64, missing + 2, 0x80, 0xBF⟩) (tailByte n :: rest) =
      decodeFrom (some ⟨n, missing + 1, 0x80, 0xBF⟩) rest := by
  refine (decodeFrom_tail rfl (Nat.le_add_left _ _) ?_).trans (if_neg (by simp))
  show n % 64 + 128 ≤ 191
  omega

theorem decodeFrom_two (h : 128 ≤ n) (h' : n < 2048) (rest : List UInt8) :
    decodeFrom none (UInt8.ofNat (n / 64 + 192) :: tailByte n :: rest) =
      some (Char.ofNat n) :: decodeFrom none rest := by
  rw [decodeFrom, start_of_two (by omega) (by omega)]
  exact decodeFrom_last n rest

/-- Three bytes: the window for the second one leaves out surrogates, and what two bytes can
hold. -/
theorem decodeFrom_three (h : 2048 ≤ n) (h' : n < 65536) (hvalid : n < 0xD800 ∨ 0xDFFF < n)
    (rest : List UInt8) :
    decodeFrom none (UInt8.ofNat (n / 4096 + 224) :: tailByte (n / 64) :: tailByte n :: rest) =
      some (Char.ofNat n) :: decodeFrom none rest := by
  have hbits : n / 4096 = n / 64 / 64 := by omega
  rw [decodeFrom, start_of_three (by omega)]
  refine (decodeFrom_tail (n := n / 64) hbits ?_ ?_).trans (decodeFrom_last n rest)
  · rw [apply_ite UInt8.toNat]
    show (if n / 4096 = 0 then 160 else 128) ≤ n / 64 % 64 + 128
    split <;> omega
  · rw [apply_ite UInt8.toNat]
    show n / 64 % 64 + 128 ≤ if n / 4096 = 13 then 159 else 191
    split <;> omega

/-- Four bytes: the window leaves out what three bytes can hold, and numbers that are no
characters. -/
theorem decodeFrom_four (h : 65536 ≤ n) (h' : n < 0x110000) (rest : List UInt8) :
    decodeFrom none
        (UInt8.ofNat (n / 262144 + 240) :: tailByte (n / 4096) :: tailByte (n / 64) ::
          tailByte n :: rest) =
      some (Char.ofNat n) :: decodeFrom none rest := by
  have hbits : n / 262144 = n / 4096 / 64 := by omega
  have hbits' : n / 4096 = n / 64 / 64 := by omega
  rw [decodeFrom, start_of_four (by omega)]
  refine (decodeFrom_tail (n := n / 4096) hbits ?_ ?_).trans ?_
  · rw [apply_ite UInt8.toNat]
    show (if n / 262144 = 0 then 144 else 128) ≤ n / 4096 % 64 + 128
    split <;> omega
  · rw [apply_ite UInt8.toNat]
    show n / 4096 % 64 + 128 ≤ if n / 262144 = 4 then 143 else 191
    split <;> omega
  · show decodeFrom (some ⟨n / 4096, 2, 0x80, 0xBF⟩) (tailByte (n / 64) :: tailByte n :: rest) = _
    rw [hbits', decodeFrom_next, decodeFrom_last]

/-- **The bytes of a character are read as the character.** -/
theorem decodeFrom_utf8EncodeChar (c : Char) (rest : List UInt8) :
    decodeFrom none (String.utf8EncodeChar c ++ rest) = some c :: decodeFrom none rest := by
  have hc : Char.ofNat c.val.toNat = c := Char.ofNat_toNat c
  have hvalid : c.val.toNat < 0xD800 ∨ 0xDFFF < c.val.toNat ∧ c.val.toNat < 0x110000 := c.valid
  rw [String.utf8EncodeChar.eq_def]
  generalize c.val.toNat = v at hc hvalid
  rw [← hc]
  dsimp only
  split
  · rw [List.cons_append, List.nil_append, decodeFrom, start_of_lt (by omega)]
  split
  · rw [Nat.mod_eq_of_lt (show v / 64 < 32 by omega)]
    exact decodeFrom_two (by omega) (by omega) rest
  split
  · rw [Nat.mod_eq_of_lt (show v / 4096 < 16 by omega)]
    exact decodeFrom_three (by omega) (by omega) (by omega) rest
  · rw [Nat.mod_eq_of_lt (show v / 262144 < 8 by omega)]
    exact decodeFrom_four (by omega) (by omega) rest

theorem decodeFrom_flatMap (l : List Char) (rest : List UInt8) :
    decodeFrom none (l.flatMap String.utf8EncodeChar ++ rest) =
      l.map some ++ decodeFrom none rest := by
  induction l with
  | nil => rfl
  | cons c l ih =>
    rw [List.flatMap_cons, List.append_assoc, decodeFrom_utf8EncodeChar, ih]
    rfl

/-- **The bytes of a text are read as its characters.** -/
theorem decode_toUTF8 (s : String) : decode s.toUTF8.toList = s.toList.map some := by
  rw [decode, toList_toUTF8, ← List.append_nil (s.toList.flatMap _), decodeFrom_flatMap]
  exact List.append_nil _

/-- **The bytes of a text are read as the text.** -/
theorem decodeLossy_toUTF8 (s : String) : decodeLossy s.toUTF8.toList = s := by
  rw [decodeLossy, decode_toUTF8, List.map_map]
  exact (congrArg String.ofList (List.map_id _)).trans String.ofList_toList

/-! ### Characters of one byte -/

/-- The character is one of those that have a byte of their own; the null character is not, because
it also stands for numbers that are no characters. -/
def IsSingle (c : Char) : Prop := 0 < c.toNat ∧ c.toNat < 128

instance (c : Char) : Decidable (IsSingle c) :=
  inferInstanceAs (Decidable (0 < c.toNat ∧ c.toNat < 128))

theorem toNat_charOfNat (h : n.isValidChar) : (Char.ofNat n).toNat = n := by
  rw [Char.ofNat, dif_pos h]
  rfl

theorem not_isSingle_ofNat (h : 128 ≤ n) : ¬ IsSingle (Char.ofNat n) := by
  rintro ⟨hpos, hlt⟩
  by_cases hvalid : n.isValidChar
  · rw [toNat_charOfNat hvalid] at hlt
    exact Nat.not_lt.2 h hlt
  · rw [Char.ofNat, dif_neg hvalid] at hpos
    exact Nat.lt_irrefl 0 hpos

/-- The character under way ends as one of several bytes, whatever comes. -/
structure Pending.Wide (p : Pending) : Prop where
  least : 128 ≤ p.least.toNat
  bits : 128 ≤ (p.bits * 64 + (p.least.toNat - 128)) * 64 ^ (p.missing - 1)

/-- Some bits are too many as soon as two bytes follow, and two bits as soon as one does. -/
theorem wide_of_bits {bits missing : Nat} (greatest : UInt8)
    (h : 2 ≤ bits ∨ 1 ≤ bits ∧ 2 ≤ missing) : Pending.Wide ⟨bits, missing, 0x80, greatest⟩ where
  least := Nat.le_refl 128
  bits := by
    have hnone : (0x80 : UInt8).toNat - 128 = 0 := rfl
    dsimp only
    rw [hnone, Nat.add_zero]
    rcases h with h | ⟨h, hmissing⟩
    · calc 128 = 128 * 1 := rfl
        _ ≤ bits * 64 * 64 ^ (missing - 1) :=
          Nat.mul_le_mul (by omega) (Nat.pow_pos (by decide))
    · have hpow : 64 ^ 1 ≤ 64 ^ (missing - 1) := Nat.pow_le_pow_right (by decide) (by omega)
      calc 128 ≤ 64 * 64 ^ 1 := by decide
        _ ≤ bits * 64 * 64 ^ (missing - 1) := Nat.mul_le_mul (by omega) hpow

/-- A first byte leaves bits that are too many for one byte. -/
theorem wide_of_start (h : start b = .pending p) : p.Wide := by
  have hle : ∀ n : UInt8, ¬ b < n → n.toNat ≤ b.toNat := fun n hn =>
    UInt8.le_iff_toNat_le.1 (UInt8.not_lt.1 hn)
  have hne : ∀ n : UInt8, ¬ b = n → b.toNat ≠ n.toNat := fun n hn heq =>
    hn (UInt8.toNat_inj.1 heq)
  unfold start at h
  split at h
  · nomatch h
  split at h
  · nomatch h
  split at h
  · next htwo _ =>
    obtain rfl := Start.pending.inj h
    have hb : 194 ≤ b.toNat := hle _ htwo
    exact wide_of_bits _ (.inl (by omega))
  split at h
  · obtain rfl := Start.pending.inj h
    exact ⟨by decide, by decide⟩
  split at h
  · obtain rfl := Start.pending.inj h
    exact wide_of_bits _ (.inl (by decide))
  split at h
  · next hthree he0 _ _ =>
    obtain rfl := Start.pending.inj h
    have hb : 224 ≤ b.toNat := hle _ hthree
    have hb' : b.toNat ≠ 224 := hne _ he0
    exact wide_of_bits _ (.inr ⟨by omega, by decide⟩)
  split at h
  · obtain rfl := Start.pending.inj h
    exact ⟨by decide, by decide⟩
  split at h
  · next hfour hf0 _ =>
    obtain rfl := Start.pending.inj h
    have hb : 240 ≤ b.toNat := hle _ hfour
    have hb' : b.toNat ≠ 240 := hne _ hf0
    exact wide_of_bits _ (.inr ⟨by omega, by decide⟩)
  split at h
  · obtain rfl := Start.pending.inj h
    exact wide_of_bits _ (.inl (by decide))
  · nomatch h

theorem byte_of_start (h : start b = .whole c) : UInt8.ofNat c.toNat = b := by
  unfold start at h
  split at h
  · next hb =>
    obtain rfl : Char.ofNat b.toNat = c := Start.whole.inj h
    have hvalid : b.toNat.isValidChar :=
      .inl (Nat.lt_trans (UInt8.lt_iff_toNat_lt.1 hb) (by decide))
    rw [toNat_charOfNat hvalid, UInt8.ofNat_toNat]
  · repeat' split at h
    all_goals cases h

theorem Pending.le_extend (hb : p.accepts b) :
    p.bits * 64 + (p.least.toNat - 128) ≤ p.extend b :=
  Nat.add_le_add_left (Nat.sub_le_sub_right (accepts_iff.1 hb).1 128) _

theorem Pending.Wide.not_isSingle (hp : p.Wide) (hb : p.accepts b) (hlast : p.missing ≤ 1) :
    ¬ IsSingle (Char.ofNat (p.extend b)) := by
  have hbits := hp.bits
  rw [Nat.sub_eq_zero_of_le hlast, Nat.pow_zero, Nat.mul_one] at hbits
  exact not_isSingle_ofNat (Nat.le_trans hbits (p.le_extend hb))

theorem Pending.Wide.next (hp : p.Wide) (hb : p.accepts b) (hmore : ¬ p.missing ≤ 1) :
    Pending.Wide { bits := p.extend b, missing := p.missing - 1 } where
  least := Nat.le_refl 128
  bits := by
    have hpow : 64 ^ (p.missing - 1) = 64 * 64 ^ (p.missing - 1 - 1) := by
      rw [← Nat.pow_succ']
      congr 1
      omega
    calc 128 ≤ (p.bits * 64 + (p.least.toNat - 128)) * 64 ^ (p.missing - 1) := hp.bits
      _ ≤ p.extend b * 64 ^ (p.missing - 1) := Nat.mul_le_mul_right _ (p.le_extend hb)
      _ = (p.extend b * 64 + ((0x80 : UInt8).toNat - 128)) * 64 ^ (p.missing - 1 - 1) := by
        rw [hpow, ← Nat.mul_assoc, show (0x80 : UInt8).toNat - 128 = 0 from rfl, Nat.add_zero]

/-- A byte that does not go on with the character under way ends it as broken and starts anew. -/
theorem decodeFrom_of_not_accepts (hb : ¬ p.accepts b) :
    decodeFrom (some p) (b :: rest) = none :: decodeFrom none (b :: rest) := by
  rw [decodeFrom, if_neg hb, decodeFrom]

/-- **A character under way ends as none of a byte of its own.** -/
theorem Pending.Wide.not_isSingle_of_decodeFrom {tail : List (Option Char)} (hp : p.Wide)
    (h : decodeFrom (some p) bytes = some c :: tail) : ¬ IsSingle c := by
  induction bytes generalizing p with
  | nil => cases h
  | cons b rest ih =>
    by_cases hb : p.accepts b
    · rw [decodeFrom, if_pos hb] at h
      split at h
      · next hlast =>
        obtain ⟨hchar, -⟩ := List.cons.inj h
        rw [← Option.some.inj hchar]
        exact hp.not_isSingle hb hlast
      · next hmore => exact ih (hp.next hb hmore) h
    · rw [decodeFrom_of_not_accepts hb] at h
      cases h

theorem decodeFrom_some_ne_nil (p : Pending) (bytes : List UInt8) :
    decodeFrom (some p) bytes ≠ [] := by
  induction bytes generalizing p with
  | nil => exact List.cons_ne_nil _ _
  | cons b rest ih =>
    by_cases hb : p.accepts b
    · rw [decodeFrom, if_pos hb]
      split
      · exact List.cons_ne_nil _ _
      · exact ih _
    · rw [decodeFrom_of_not_accepts hb]
      exact List.cons_ne_nil _ _

/-- Nothing is read only from nothing. -/
theorem decode_eq_nil_iff : decode bytes = [] ↔ bytes = [] := by
  constructor
  · intro h
    cases bytes with
    | nil => rfl
    | cons b rest =>
      rw [decode, decodeFrom] at h
      split at h
      · cases h
      · exact absurd h (decodeFrom_some_ne_nil _ _)
      · cases h
  · rintro rfl
    rfl

/-- **A character with a byte of its own that is read first is the first byte.** -/
theorem eq_cons_of_decode {tail : List (Option Char)} (hc : IsSingle c)
    (h : decode bytes = some c :: tail) :
    ∃ rest, bytes = UInt8.ofNat c.toNat :: rest ∧ decode rest = tail := by
  cases bytes with
  | nil => cases h
  | cons b rest =>
    rw [decode, decodeFrom] at h
    split at h
    · next c' hstart =>
      obtain ⟨hchar, htail⟩ := List.cons.inj h
      obtain rfl := Option.some.inj hchar
      exact ⟨rest, by rw [byte_of_start hstart], htail⟩
    · next hstart => exact absurd hc ((wide_of_start hstart).not_isSingle_of_decodeFrom h)
    · cases h

/-- **A character with a byte of its own is read from that byte**, also behind broken ones. -/
theorem byte_mem_of_mem_decodeFrom {state : Option Pending} (hc : IsSingle c)
    (hstate : ∀ p ∈ state, p.Wide) (h : some c ∈ decodeFrom state bytes) :
    UInt8.ofNat c.toNat ∈ bytes := by
  induction bytes generalizing state with
  | nil =>
    cases state with
    | none => cases h
    | some p => simp [decodeFrom] at h
  | cons b rest ih =>
    have hfresh : some c ∈ decodeFrom none (b :: rest) → UInt8.ofNat c.toNat ∈ b :: rest := by
      intro hmem
      rw [decodeFrom] at hmem
      split at hmem
      · next c' hstart =>
        rcases List.mem_cons.1 hmem with heq | hmem
        · rw [Option.some.inj heq, byte_of_start hstart]
          exact List.mem_cons_self
        · exact List.mem_cons_of_mem b (ih (by simp) hmem)
      · next hstart =>
        exact List.mem_cons_of_mem b (ih (by simpa using wide_of_start hstart) hmem)
      · exact List.mem_cons_of_mem b (ih (by simp) (List.mem_of_ne_of_mem (by simp) hmem))
    cases state with
    | none => exact hfresh h
    | some p =>
      have hp : p.Wide := hstate p rfl
      by_cases hb : p.accepts b
      · rw [decodeFrom, if_pos hb] at h
        split at h
        · next hlast =>
          rcases List.mem_cons.1 h with heq | hmem
          · rw [Option.some.inj heq] at hc
            exact absurd hc (hp.not_isSingle hb hlast)
          · exact List.mem_cons_of_mem b (ih (by simp) hmem)
        · next hmore =>
          exact List.mem_cons_of_mem b (ih (by simpa using hp.next hb hmore) h)
      · rw [decodeFrom_of_not_accepts hb] at h
        exact hfresh (List.mem_of_ne_of_mem (by simp) h)

/-- What stands for a broken character has no byte of its own. -/
theorem getD_eq_iff {o : Option Char} (hc : IsSingle c) : o.getD '\uFFFD' = c ↔ o = some c := by
  cases o with
  | none =>
    have hne : '\uFFFD' ≠ c := by
      rintro rfl
      exact absurd hc (by decide)
    simpa using hne
  | some c' => simp

/-- **Reading broken bytes brings in no character with a byte of its own.** -/
theorem byte_mem_of_mem_decodeLossy (hc : IsSingle c) (h : c ∈ (decodeLossy bytes).toList) :
    UInt8.ofNat c.toNat ∈ bytes := by
  rw [decodeLossy, String.toList_ofList] at h
  obtain ⟨o, ho, heq⟩ := List.mem_map.1 h
  rw [getD_eq_iff hc] at heq
  rw [heq] at ho
  exact byte_mem_of_mem_decodeFrom hc (by simp) ho

/-- **A text of such characters is read from its own bytes only.** -/
theorem eq_of_decodeLossy_eq {l : List Char} (hl : ∀ c ∈ l, IsSingle c)
    (h : decodeLossy bytes = String.ofList l) : bytes = l.map fun c => UInt8.ofNat c.toNat := by
  rw [decodeLossy, String.ofList_inj] at h
  induction l generalizing bytes with
  | nil => exact decode_eq_nil_iff.1 (List.map_eq_nil_iff.1 h)
  | cons c l ih =>
    obtain ⟨o, tail, hdecode, heq, htail⟩ := List.map_eq_cons_iff.1 h
    rw [getD_eq_iff (hl c List.mem_cons_self)] at heq
    rw [heq] at hdecode
    obtain ⟨rest, rfl, hrest⟩ := eq_cons_of_decode (hl c List.mem_cons_self) hdecode
    rw [← hrest] at htail
    rw [ih (fun c' hc' => hl c' (List.mem_cons_of_mem c hc')) htail]
    rfl

end PackageRouting.Text
