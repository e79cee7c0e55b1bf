import Mathlib
import VectorCalc.Text.Utf8

/-!
# Reading what was written

A text written as UTF-8 is read back as it was, however many chunks its bytes make (`decode_encode`).
The decoder is a machine that takes one byte at a time. Over the bytes of one character it goes from
between characters to between characters again, and gives that character (`reads_utf8EncodeChar`).
Where the machine gets through some bytes, it does not matter at which positions of a chunk they stand,
and so it does not matter where the chunks end (`Reads.decodeFrom_eq`).
-/

namespace VectorCalc.Text.Utf8

/-- The bytes of a text. -/
def encode (s : String) : List UInt8 := s.toUTF8.data.toList

theorem encode_eq (s : String) : encode s = s.toList.flatMap String.utf8EncodeChar := by
  rw [encode, String.toUTF8, ← String.utf8Encode_toList, List.utf8Encode,
    List.toList_data_toByteArray]

/-! ## One byte -/

section

variable {s : State} {pos code lo hi : Nat} {b : UInt8} {owed : List (Nat × Nat)}

/-- A byte that is a character. -/
theorem step_single (h : opening? b.toNat = some (code, [])) :
    step .idle pos b = .ok (some (Char.ofNat code), .idle) := by
  simp [step, State.idle, h]

/-- The first byte of a character. -/
theorem step_first {r : Nat × Nat} (h : opening? b.toNat = some (code, r :: owed)) :
    step .idle pos b = .ok (none, ⟨b, 1, 1, code, r :: owed⟩) := by
  simp [step, State.idle, h]

/-- A byte in the middle of a character. -/
theorem step_middle {r : Nat × Nat} (hs : s.owed = (lo, hi) :: r :: owed) (hlo : lo ≤ b.toNat)
    (hhi : b.toNat ≤ hi) (hsurrogate : opensSurrogate s b = false) :
    step s pos b =
      .ok (none, ⟨s.lead, s.taken + 1, s.taken + 1, 64 * s.code + b.toNat % 64, r :: owed⟩) := by
  simp [step, hs, hlo, hhi, hsurrogate]

/-- The last byte of a character. -/
theorem step_last (hs : s.owed = [(lo, hi)]) (hlo : lo ≤ b.toNat) (hhi : b.toNat ≤ hi) :
    step s pos b = .ok (some (Char.ofNat (64 * s.code + b.toNat % 64)), .idle) := by
  simp [step, hs, hlo, hhi]

end

/-- Positions are for faults only. -/
theorem step_ok_of_step_ok {s : State} {pos : Nat} {b : UInt8} {r : Option Char × State}
    (h : step s pos b = .ok r) (pos' : Nat) : step s pos' b = .ok r := by
  unfold step at h ⊢
  split at h
  · split at h
    · cases h
    · exact h
    · exact h
  · split at h
    · next hrange => rwa [if_pos hrange]
    · cases h

/-! ## Many bytes -/

/-- The machine gets through the bytes, and they end the given characters. -/
inductive Reads : State → List UInt8 → List Char → State → Prop where
  | nil (s : State) : Reads s [] [] s
  | cons {s s' s'' : State} {b : UInt8} {bs : List UInt8} {c : Option Char} {cs : List Char}
    (h : step s 0 b = .ok (c, s')) (hrest : Reads s' bs cs s'') :
    Reads s (b :: bs) (c.toList ++ cs) s''

variable {s s' s'' : State} {bs bs' : List UInt8} {cs cs' : List Char}

theorem Reads.append (h : Reads s bs cs s') (h' : Reads s' bs' cs' s'') :
    Reads s (bs ++ bs') (cs ++ cs') s'' := by
  induction h with
  | nil => exact h'
  | cons hstep _ ih =>
    rw [List.append_assoc]
    exact .cons hstep (ih h')

/-- The bytes can be cut anywhere. -/
theorem Reads.split (h : Reads s (bs ++ bs') cs s'') :
    ∃ front s' back, Reads s bs front s' ∧ Reads s' bs' back s'' ∧ cs = front ++ back := by
  induction bs generalizing s cs with
  | nil => exact ⟨[], s, cs, .nil s, h, rfl⟩
  | cons b bs ih =>
    cases h with
    | @cons _ s' _ _ _ c cs hstep hrest =>
      obtain ⟨front, s₁, back, hfront, hback, rfl⟩ := ih hrest
      exact ⟨c.toList ++ front, s₁, back, .cons hstep hfront, hback,
        (List.append_assoc _ _ _).symm⟩

/-- A run from any position gives these characters. -/
theorem Reads.run_eq (h : Reads s bs cs s') (pos : Nat) : run s pos bs = .ok (cs, s') := by
  induction h generalizing pos with
  | nil => rfl
  | cons hstep _ ih =>
    rw [run, step_ok_of_step_ok hstep pos]
    show (run _ (pos + 1) _ >>= _) = _
    rw [ih (pos + 1)]
    rfl

/-- It does not matter in which chunks the bytes come in. -/
theorem Reads.decodeFrom_eq (h : Reads s bs cs s') : decodeFrom s bs = (cs, s'.finish) := by
  induction hlen : bs.length using Nat.strong_induction_on generalizing s bs cs with
  | _ len ih =>
    subst hlen
    rw [decodeFrom]
    split
    · next hnil =>
      subst hnil
      cases h
      rfl
    · next hne =>
      have hchunks := h
      rw [← List.take_append_drop chunkSize bs] at hchunks
      obtain ⟨front, s₁, back, hfront, hback, rfl⟩ := hchunks.split
      have hpos := List.length_pos_iff.2 hne
      have hlt : (bs.drop chunkSize).length < bs.length := by
        rw [List.length_drop, chunkSize]
        omega
      rw [hfront.run_eq]
      dsimp only
      rw [ih _ hlt hback rfl]

/-! ## Characters -/

section

variable {n m k l : Nat} {a b c d : UInt8}

/-- The first one of three bytes, and the range of the second one. -/
theorem opening?_three (ha : a.toNat = n + 224) (hb : b.toNat = m + 128) (hn : n < 16)
    (hm : m < 64) (hzero : n = 0 → 32 ≤ m) :
    ∃ lo hi, opening? a.toNat = some (n, [(lo, hi), tail]) ∧ lo ≤ b.toNat ∧ b.toNat ≤ hi := by
  rw [ha, hb]
  unfold opening?
  rw [if_neg (by omega), if_neg (by omega), if_neg (by omega)]
  by_cases h : n = 0
  · have hlo := hzero h
    rw [if_pos (by omega), h]
    exact ⟨_, _, rfl, by omega, by omega⟩
  · rw [if_neg (by omega), if_pos (by omega), Nat.add_sub_cancel]
    exact ⟨_, _, rfl, by omega, by omega⟩

/-- The first one of four bytes, and the range of the second one. -/
theorem opening?_four (ha : a.toNat = n + 240) (hb : b.toNat = m + 128) (hn : n < 5)
    (hm : m < 64) (hzero : n = 0 → 16 ≤ m) (hfour : n = 4 → m < 16) :
    ∃ lo hi, opening? a.toNat = some (n, [(lo, hi), tail, tail]) ∧
      lo ≤ b.toNat ∧ b.toNat ≤ hi := by
  rw [ha, hb]
  unfold opening?
  rw [if_neg (by omega), if_neg (by omega), if_neg (by omega), if_neg (by omega),
    if_neg (by omega)]
  by_cases h : n = 0
  · have hlo := hzero h
    rw [if_pos (by omega), h]
    exact ⟨_, _, rfl, by omega, by omega⟩
  rw [if_neg (by omega)]
  by_cases h' : n = 4
  · have hhi := hfour h'
    rw [if_neg (by omega), if_pos (by omega), h']
    exact ⟨_, _, rfl, by omega, by omega⟩
  · rw [if_pos (by omega), Nat.add_sub_cancel]
    exact ⟨_, _, rfl, by omega, by omega⟩

/-- A byte that carries six bits continues a character. -/
theorem tail_le (hb : b.toNat = m + 128) (hm : m < 64) :
    tail.1 ≤ b.toNat ∧ b.toNat ≤ tail.2 ∧ b.toNat % 64 = m := by
  simp only [tail]
  omega

theorem reads_two (ha : a.toNat = n + 192) (hb : b.toNat = m + 128) (hn : 2 ≤ n) (hn' : n < 32)
    (hm : m < 64) : Reads .idle [a, b] [Char.ofNat (64 * n + m)] .idle := by
  have hfirst : opening? a.toNat = some (n, [tail]) := by
    rw [ha, opening?, if_neg (by omega), if_neg (by omega), if_pos (by omega), Nat.add_sub_cancel]
  obtain ⟨hlo, hhi, rfl⟩ := tail_le hb hm
  exact .cons (step_first hfirst) (.cons (step_last rfl hlo hhi) (.nil _))

/-- Three bytes, which must not be the beginning of a surrogate half. -/
theorem reads_three (ha : a.toNat = n + 224) (hb : b.toNat = m + 128) (hc : c.toNat = k + 128)
    (hn : n < 16) (hm : m < 64) (hk : k < 64) (hzero : n = 0 → 32 ≤ m)
    (hsurrogate : n = 13 → m < 32) :
    Reads .idle [a, b, c] [Char.ofNat (64 * (64 * n + m) + k)] .idle := by
  obtain ⟨lo, hi, hfirst, hlo, hhi⟩ := opening?_three ha hb hn hm hzero
  have hplain : opensSurrogate ⟨a, 1, 1, n, [(lo, hi), tail]⟩ b = false := by
    have hbytes : a.toNat = 237 → b.toNat < 160 := by omega
    simpa [opensSurrogate, ← UInt8.toNat_inj, UInt8.lt_iff_toNat_lt] using hbytes
  obtain ⟨-, -, rfl⟩ := tail_le hb hm
  obtain ⟨hlo', hhi', rfl⟩ := tail_le hc hk
  exact .cons (step_first hfirst) (.cons (step_middle rfl hlo hhi hplain)
    (.cons (step_last rfl hlo' hhi') (.nil _)))

theorem reads_four (ha : a.toNat = n + 240) (hb : b.toNat = m + 128) (hc : c.toNat = k + 128)
    (hd : d.toNat = l + 128) (hn : n < 5) (hm : m < 64) (hk : k < 64) (hl : l < 64)
    (hzero : n = 0 → 16 ≤ m) (hfour : n = 4 → m < 16) :
    Reads .idle [a, b, c, d] [Char.ofNat (64 * (64 * (64 * n + m) + k) + l)] .idle := by
  obtain ⟨lo, hi, hfirst, hlo, hhi⟩ := opening?_four ha hb hn hm hzero hfour
  have hlead : a ≠ 0xED := by
    rintro rfl
    change 237 = _ at ha
    omega
  obtain ⟨-, -, rfl⟩ := tail_le hb hm
  obtain ⟨hlo', hhi', rfl⟩ := tail_le hc hk
  obtain ⟨hlo'', hhi'', rfl⟩ := tail_le hd hl
  exact .cons (step_first hfirst) (.cons (step_middle rfl hlo hhi (by simp [opensSurrogate, hlead]))
    (.cons (step_middle rfl hlo' hhi' (by simp [opensSurrogate, hlead]))
      (.cons (step_last rfl hlo'' hhi'') (.nil _))))

end

/-- The bound as a number, so that it is arithmetic. -/
theorem toNat_ofNat {n : Nat} (h : n < 256) : (UInt8.ofNat n).toNat = n :=
  UInt8.toNat_ofNat_of_lt' h

/-- The bytes of a character give that character. -/
theorem reads_utf8EncodeChar (c : Char) : Reads .idle (String.utf8EncodeChar c) [c] .idle := by
  obtain ⟨v, hv⟩ : ∃ v, c.val.toNat = v := ⟨_, rfl⟩
  have hvalid : v < 0xD800 ∨ 0xDFFF < v ∧ v < 0x110000 := hv ▸ c.valid
  have hchar : Char.ofNat v = c := by
    rw [← hv]
    exact Char.ofNat_toNat c
  have htail : ∀ m, (UInt8.ofNat (m % 64 + 128)).toNat = m % 64 + 128 := fun m =>
    toNat_ofNat (by omega)
  simp only [String.utf8EncodeChar, hv]
  split_ifs with hone htwo hthree
  · have hfirst : opening? (UInt8.ofNat v).toNat = some (v, []) := by
      rw [toNat_ofNat (by omega), opening?, if_pos (by omega)]
    rw [← hchar]
    exact .cons (step_single hfirst) (.nil _)
  · have hcode : 64 * (v / 64 % 32) + v % 64 = v := by omega
    have hreads := reads_two (toNat_ofNat (by omega)) (htail v) (n := v / 64 % 32) (by omega)
      (by omega) (by omega)
    rwa [hcode, hchar] at hreads
  · have hcode : 64 * (64 * (v / 4096 % 16) + v / 64 % 64) + v % 64 = v := by omega
    have hreads := reads_three (toNat_ofNat (by omega)) (htail (v / 64)) (htail v)
      (n := v / 4096 % 16) (by omega) (by omega) (by omega) (by omega) (by omega)
    rwa [hcode, hchar] at hreads
  · have hcode : 64 * (64 * (64 * (v / 262144 % 8) + v / 4096 % 64) + v / 64 % 64) + v % 64 =
        v := by omega
    have hreads := reads_four (toNat_ofNat (by omega)) (htail (v / 4096)) (htail (v / 64)) (htail v)
      (n := v / 262144 % 8) (by omega) (by omega) (by omega) (by omega) (by omega) (by omega)
    rwa [hcode, hchar] at hreads

/-! ## Texts -/

theorem reads_flatMap (cs : List Char) :
    Reads .idle (cs.flatMap String.utf8EncodeChar) cs .idle := by
  induction cs with
  | nil => exact .nil _
  | cons c cs ih =>
    rw [List.flatMap_cons]
    exact (reads_utf8EncodeChar c).append ih

/-- A text is read back from its bytes. -/
theorem decode_encode (text : String) : decode (encode text) = (text.toList, none) := by
  rw [decode, encode_eq, (reads_flatMap text.toList).decodeFrom_eq]
  rfl

end VectorCalc.Text.Utf8
