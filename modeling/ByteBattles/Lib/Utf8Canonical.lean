import ByteBattles.Lib.PyBytes

/-!
# UTF-8 is canonical

A text decodes from its own encoding and from nothing else: `decode` and `encode` undo
each other.  Both directions go character by character: a character is the first piece of
its encoding, and a well-formed piece is the encoding of its character.
-/

namespace ByteBattles.Lib.Utf8

variable {b : Byte} {c : Char} {bytes rest : List Byte} {s : Str} {n low high code v : Nat}

/-! ## Numbers of characters and bytes -/

theorem toNat_byte (h : n < 256) : (UInt8.ofNat n).toNat = n :=
  UInt8.toNat_ofNat_of_lt h

theorem byte_of_toNat (h : b.toNat = n) : UInt8.ofNat n = b := by
  rw [← h]
  exact UInt8.ofNat_toNat

theorem scalar_of_char (c : Char) :
    c.val.toNat < 0xD800 ∨ 0xDFFF < c.val.toNat ∧ c.val.toNat < 0x110000 := c.valid

theorem toNat_char (h : n < 0xD800 ∨ 0xDFFF < n ∧ n < 0x110000) :
    (Char.ofNat n).val.toNat = n := by
  have hvalid : n.isValidChar := h
  rw [Char.ofNat, dif_pos hvalid]
  rfl

/-! ## Continuation bytes -/

theorem continued_cons (h : low ≤ b.toNat ∧ b.toNat ≤ high) :
    continued (n + 1) low high code (b :: rest) =
      continued n 0x80 0xBF (code * 64 + b.toNat % 64) rest := if_pos h

theorem continued_cons_ofNat (hv : v < 64) (h : low ≤ v + 0x80 ∧ v + 0x80 ≤ high) :
    continued (n + 1) low high code (UInt8.ofNat (v + 0x80) :: rest) =
      continued n 0x80 0xBF (code * 64 + v) rest := by
  have hbyte : (UInt8.ofNat (v + 0x80)).toNat = v + 0x80 := toNat_byte (by omega)
  rw [continued_cons (by rwa [hbyte]), hbyte]
  congr 2
  omega

theorem continued_eq_some (h : (continued (n + 1) low high code bytes).1 = some c) :
    ∃ b rest, bytes = b :: rest ∧ low ≤ b.toNat ∧ b.toNat ≤ high ∧
      continued (n + 1) low high code bytes =
        continued n 0x80 0xBF (code * 64 + b.toNat % 64) rest := by
  cases bytes with
  | nil => cases h
  | cons b rest =>
      by_cases hb : low ≤ b.toNat ∧ b.toNat ≤ high
      · exact ⟨b, rest, rfl, hb.1, hb.2, continued_cons hb⟩
      · rw [continued, if_neg hb] at h
        cases h

/-! ## First bytes -/

theorem lead_eq_some {n low high : Nat} {b : Nat} (h : lead b = some (n, low, high)) :
    (n = 1 ∧ 0xC2 ≤ b ∧ b ≤ 0xDF ∧ low = 0x80 ∧ high = 0xBF) ∨
    (n = 2 ∧ 0xE0 ≤ b ∧ b ≤ 0xEF ∧ 0x80 ≤ low ∧ high ≤ 0xBF ∧
      (b = 0xE0 → 0xA0 ≤ low) ∧ (b = 0xED → high ≤ 0x9F)) ∨
    (n = 3 ∧ 0xF0 ≤ b ∧ b ≤ 0xF4 ∧ 0x80 ≤ low ∧ high ≤ 0xBF ∧
      (b = 0xF0 → 0x90 ≤ low) ∧ (b = 0xF4 → high ≤ 0x8F)) := by
  unfold lead at h
  split_ifs at h <;> simp only [Option.some.injEq, Prod.mk.injEq] at h <;> omega

theorem lead_three (hlow : 0x800 ≤ v) (hhigh : v ≤ 0xFFFF) (hvalid : v < 0xD800 ∨ 0xDFFF < v) :
    ∃ low high, lead (v / 4096 % 16 + 0xE0) = some (2, low, high) ∧
      low ≤ v / 64 % 64 + 0x80 ∧ v / 64 % 64 + 0x80 ≤ high := by
  unfold lead
  split_ifs
  · omega
  · exact ⟨_, _, rfl, by omega, by omega⟩
  · exact ⟨_, _, rfl, by omega, by omega⟩
  · exact ⟨_, _, rfl, by omega, by omega⟩
  all_goals omega

theorem lead_four (hlow : 0x10000 ≤ v) (hhigh : v < 0x110000) :
    ∃ low high, lead (v / 262144 % 8 + 0xF0) = some (3, low, high) ∧
      low ≤ v / 4096 % 64 + 0x80 ∧ v / 4096 % 64 + 0x80 ≤ high := by
  unfold lead
  split_ifs
  iterate 4 omega
  · exact ⟨_, _, rfl, by omega, by omega⟩
  · exact ⟨_, _, rfl, by omega, by omega⟩
  · exact ⟨_, _, rfl, by omega, by omega⟩
  · omega

theorem piece_of_lead (hb : 0x80 ≤ b.toNat) (h : lead b.toNat = some (n, low, high)) :
    piece b rest = continued n low high (b.toNat % (64 >>> n)) rest := by
  rw [piece, if_neg (by omega), h]

/-! ## A character is the first piece of its encoding -/

theorem piece_encode (c : Char) (rest : List Byte) :
    ∃ b bs, String.utf8EncodeChar c = b :: bs ∧ piece b (bs ++ rest) = (some c, rest) := by
  have hscalar := scalar_of_char c
  have hc : Char.ofNat c.val.toNat = c := Char.ofNat_toNat c
  unfold String.utf8EncodeChar
  generalize c.val.toNat = v at hscalar hc
  subst hc
  dsimp only
  split_ifs with h1 h2 h3
  · refine ⟨_, _, rfl, ?_⟩
    have hb : (UInt8.ofNat v).toNat = v := toNat_byte (by omega)
    rw [piece, hb, if_pos (by omega)]
    rfl
  · refine ⟨_, _, rfl, ?_⟩
    have hb : (UInt8.ofNat (v / 64 % 32 + 0xC0)).toNat = v / 64 % 32 + 0xC0 :=
      toNat_byte (by omega)
    have hlead : lead (v / 64 % 32 + 0xC0) = some (1, 0x80, 0xBF) := if_pos (by omega)
    rw [piece_of_lead (by omega) (by rwa [hb]), hb]
    show continued 1 _ _ ((v / 64 % 32 + 0xC0) % 32) (UInt8.ofNat (v % 64 + 0x80) :: rest) = _
    rw [continued_cons_ofNat (by omega) (by omega), continued]
    congr 3
    omega
  · refine ⟨_, _, rfl, ?_⟩
    have hb : (UInt8.ofNat (v / 4096 % 16 + 0xE0)).toNat = v / 4096 % 16 + 0xE0 :=
      toNat_byte (by omega)
    obtain ⟨low, high, hlead, hlow, hhigh⟩ := lead_three (v := v) (by omega) h3 (by omega)
    rw [piece_of_lead (by omega) (by rw [hb, hlead]), hb]
    show continued 2 _ _ ((v / 4096 % 16 + 0xE0) % 16) (UInt8.ofNat (v / 64 % 64 + 0x80) ::
      UInt8.ofNat (v % 64 + 0x80) :: rest) = _
    rw [continued_cons_ofNat (by omega) ⟨hlow, hhigh⟩, continued_cons_ofNat (by omega) (by omega),
      continued]
    congr 3
    omega
  · refine ⟨_, _, rfl, ?_⟩
    have hb : (UInt8.ofNat (v / 262144 % 8 + 0xF0)).toNat = v / 262144 % 8 + 0xF0 :=
      toNat_byte (by omega)
    obtain ⟨low, high, hlead, hlow, hhigh⟩ := lead_four (v := v) (by omega) (by omega)
    rw [piece_of_lead (by omega) (by rw [hb, hlead]), hb]
    show continued 3 _ _ ((v / 262144 % 8 + 0xF0) % 8) (UInt8.ofNat (v / 4096 % 64 + 0x80) ::
      UInt8.ofNat (v / 64 % 64 + 0x80) :: UInt8.ofNat (v % 64 + 0x80) :: rest) = _
    rw [continued_cons_ofNat (by omega) ⟨hlow, hhigh⟩, continued_cons_ofNat (by omega) (by omega),
      continued_cons_ofNat (by omega) (by omega), continued]
    congr 3
    omega

/-! ## A well-formed piece is the encoding of its character -/

theorem encode_one (hb : b.toNat < 0x80) :
    String.utf8EncodeChar (Char.ofNat b.toNat) = [b] := by
  unfold String.utf8EncodeChar
  rw [toNat_char (by omega)]
  dsimp only
  rw [if_pos (by omega), byte_of_toNat rfl]

theorem encode_two {b₁ : Byte} (hb : 0xC2 ≤ b.toNat ∧ b.toNat ≤ 0xDF)
    (h₁ : 0x80 ≤ b₁.toNat ∧ b₁.toNat ≤ 0xBF) :
    String.utf8EncodeChar (Char.ofNat (b.toNat % 32 * 64 + b₁.toNat % 64)) = [b, b₁] := by
  unfold String.utf8EncodeChar
  rw [toNat_char (by omega)]
  dsimp only
  rw [if_neg (by omega), if_pos (by omega), byte_of_toNat (b := b) (by omega),
    byte_of_toNat (b := b₁) (by omega)]

theorem encode_three {b₁ b₂ : Byte} (hb : 0xE0 ≤ b.toNat ∧ b.toNat ≤ 0xEF)
    (h₁ : 0x80 ≤ b₁.toNat ∧ b₁.toNat ≤ 0xBF) (h₂ : 0x80 ≤ b₂.toNat ∧ b₂.toNat ≤ 0xBF)
    (hlow : b.toNat = 0xE0 → 0xA0 ≤ b₁.toNat) (hsurrogate : b.toNat = 0xED → b₁.toNat ≤ 0x9F) :
    String.utf8EncodeChar
      (Char.ofNat ((b.toNat % 16 * 64 + b₁.toNat % 64) * 64 + b₂.toNat % 64)) = [b, b₁, b₂] := by
  unfold String.utf8EncodeChar
  rw [toNat_char (by omega)]
  dsimp only
  rw [if_neg (by omega), if_neg (by omega), if_pos (by omega), byte_of_toNat (b := b) (by omega),
    byte_of_toNat (b := b₁) (by omega), byte_of_toNat (b := b₂) (by omega)]

theorem encode_four {b₁ b₂ b₃ : Byte} (hb : 0xF0 ≤ b.toNat ∧ b.toNat ≤ 0xF4)
    (h₁ : 0x80 ≤ b₁.toNat ∧ b₁.toNat ≤ 0xBF) (h₂ : 0x80 ≤ b₂.toNat ∧ b₂.toNat ≤ 0xBF)
    (h₃ : 0x80 ≤ b₃.toNat ∧ b₃.toNat ≤ 0xBF) (hlow : b.toNat = 0xF0 → 0x90 ≤ b₁.toNat)
    (hhigh : b.toNat = 0xF4 → b₁.toNat ≤ 0x8F) :
    String.utf8EncodeChar (Char.ofNat
      (((b.toNat % 8 * 64 + b₁.toNat % 64) * 64 + b₂.toNat % 64) * 64 + b₃.toNat % 64)) =
        [b, b₁, b₂, b₃] := by
  unfold String.utf8EncodeChar
  rw [toNat_char (by omega)]
  dsimp only
  rw [if_neg (by omega), if_neg (by omega), if_neg (by omega), byte_of_toNat (b := b) (by omega),
    byte_of_toNat (b := b₁) (by omega), byte_of_toNat (b := b₂) (by omega),
    byte_of_toNat (b := b₃) (by omega)]

theorem encode_piece (h : (piece b rest).1 = some c) :
    b :: rest = String.utf8EncodeChar c ++ (piece b rest).2 := by
  by_cases hascii : b.toNat < 0x80
  · have hpiece : piece b rest = (some (Char.ofNat b.toNat), rest) := if_pos hascii
    rw [hpiece] at h ⊢
    rw [← Option.some.inj h, encode_one hascii]
    rfl
  · cases hlead : lead b.toNat with
    | none =>
        rw [piece, if_neg hascii, hlead] at h
        cases h
    | some l =>
        obtain ⟨n, low, high⟩ := l
        rw [piece_of_lead (by omega) hlead] at h ⊢
        rcases lead_eq_some hlead with ⟨rfl, hb⟩ | ⟨rfl, hb⟩ | ⟨rfl, hb⟩
        · obtain ⟨b₁, rest₁, rfl, hlow, hhigh, hnext⟩ := continued_eq_some h
          rw [hnext, continued] at h ⊢
          rw [← Option.some.inj h]
          exact congrArg (· ++ rest₁) (encode_two (b := b) (by omega) (by omega)).symm
        · obtain ⟨b₁, rest₁, rfl, hlow, hhigh, hnext⟩ := continued_eq_some h
          rw [hnext] at h ⊢
          obtain ⟨b₂, rest₂, rfl, hlow₂, hhigh₂, hnext₂⟩ := continued_eq_some h
          rw [hnext₂, continued] at h ⊢
          rw [← Option.some.inj h]
          exact congrArg (· ++ rest₂) (encode_three (b := b) (by omega) (by omega) (by omega)
            (by omega) (by omega)).symm
        · obtain ⟨b₁, rest₁, rfl, hlow, hhigh, hnext⟩ := continued_eq_some h
          rw [hnext] at h ⊢
          obtain ⟨b₂, rest₂, rfl, hlow₂, hhigh₂, hnext₂⟩ := continued_eq_some h
          rw [hnext₂] at h ⊢
          obtain ⟨b₃, rest₃, rfl, hlow₃, hhigh₃, hnext₃⟩ := continued_eq_some h
          rw [hnext₃, continued] at h ⊢
          rw [← Option.some.inj h]
          exact congrArg (· ++ rest₃) (encode_four (b := b) (by omega) (by omega) (by omega)
            (by omega) (by omega) (by omega)).symm

/-! ## Texts -/

theorem decode_nil : decode [] = some [] := rfl

theorem decode_cons (b : Byte) (rest : List Byte) :
    decode (b :: rest) = (piece b rest).1.bind fun c => (decode (piece b rest).2).map (c :: ·) := by
  rw [decode, pieces_cons, List.mapM_cons]
  cases (piece b rest).1 with
  | none => rfl
  | some c =>
      show ((pieces (piece b rest).2).mapM id).bind _ = Option.map _ (decode (piece b rest).2)
      rw [← decode]
      cases decode (piece b rest).2 <;> rfl

theorem encode_cons (c : Char) (s : Str) : encode (c :: s) = String.utf8EncodeChar c ++ encode s :=
  List.flatMap_cons

/-- Decoding undoes encoding. -/
@[simp] theorem decode_encode (s : Str) : decode (encode s) = some s := by
  induction s with
  | nil => rfl
  | cons c s ih =>
      obtain ⟨b, bs, hc, hpiece⟩ := piece_encode c (encode s)
      rw [encode_cons, hc, List.cons_append, decode_cons, hpiece]
      simp [ih]

/-- Encoding undoes decoding. -/
theorem encode_of_decode (h : decode bytes = some s) : encode s = bytes := by
  induction s generalizing bytes with
  | nil =>
      cases bytes with
      | nil => rfl
      | cons b rest =>
          rw [decode_cons] at h
          simp [Option.bind_eq_some_iff] at h
  | cons c s ih =>
      cases bytes with
      | nil => simp [decode_nil] at h
      | cons b rest =>
          rw [decode_cons] at h
          obtain ⟨c', hc, hrest⟩ := Option.bind_eq_some_iff.mp h
          obtain ⟨s', hs, heq⟩ := Option.map_eq_some_iff.mp hrest
          obtain ⟨rfl, rfl⟩ := List.cons.inj heq
          rw [encode_cons, ih hs, ← encode_piece hc]

@[simp] theorem decodeReplace_encode (s : Str) : decodeReplace (encode s) = s :=
  decodeReplace_of_decode (decode_encode s)

theorem encode_append (s s' : Str) : encode (s ++ s') = encode s ++ encode s' :=
  List.flatMap_append

end ByteBattles.Lib.Utf8
