import ByteBattles.Lib.PyStr
import ByteBattles.Lib.StdioProgram

/-!
# UTF-8

`bytes.decode("utf-8")` with the error handlers `strict` and `replace`, and
`str.encode()`.  The decoder cuts its input into characters and ill-formed pieces;
an ill-formed piece is the longest start of a character at that position, or one
byte where no character can start.
-/

namespace ByteBattles.Lib.Utf8

/-- How many bytes follow the first byte of a character, and the bounds of the second one. -/
def lead (b : Nat) : Option (Nat × Nat × Nat) :=
  if 0xC2 ≤ b ∧ b ≤ 0xDF then some (1, 0x80, 0xBF)
  else if b = 0xE0 then some (2, 0xA0, 0xBF)
  else if b = 0xED then some (2, 0x80, 0x9F)
  else if 0xE1 ≤ b ∧ b ≤ 0xEF then some (2, 0x80, 0xBF)
  else if b = 0xF0 then some (3, 0x90, 0xBF)
  else if b = 0xF4 then some (3, 0x80, 0x8F)
  else if 0xF1 ≤ b ∧ b ≤ 0xF3 then some (3, 0x80, 0xBF)
  else none

/-- Read `n` continuation bytes, the first of them between `low` and `high`; `code` is
what the bytes so far stand for. -/
def continued : Nat → Nat → Nat → Nat → List Byte → Option Char × List Byte
  | 0, _, _, code, rest => (some (Char.ofNat code), rest)
  | _ + 1, _, _, _, [] => (none, [])
  | n + 1, low, high, code, b :: rest =>
      if low ≤ b.toNat ∧ b.toNat ≤ high then
        continued n 0x80 0xBF (code * 64 + b.toNat % 64) rest
      else (none, b :: rest)

/-- The first piece, `none` where it is ill-formed, and what follows it. -/
def piece (b : Byte) (rest : List Byte) : Option Char × List Byte :=
  if b.toNat < 0x80 then (some (Char.ofNat b.toNat), rest)
  else
    match lead b.toNat with
    | some (n, low, high) => continued n low high (b.toNat % (64 >>> n)) rest
    | none => (none, rest)

/-- At most `fuel` pieces. -/
def piecesAux : Nat → List Byte → List (Option Char)
  | 0, _ => []
  | _, [] => []
  | fuel + 1, b :: rest => (piece b rest).1 :: piecesAux fuel (piece b rest).2

def pieces (bytes : List Byte) : List (Option Char) := piecesAux bytes.length bytes

/-- `bytes.decode("utf-8")`, if it does not raise. -/
def decode (bytes : List Byte) : Option Str := (pieces bytes).mapM id

/-- `bytes.decode("utf-8", errors="replace")`. -/
def decodeReplace (bytes : List Byte) : Str :=
  (pieces bytes).map fun c => c.getD (Char.ofNat 0xFFFD)

/-- `s.encode()`. -/
def encode (s : Str) : List Byte := s.flatMap String.utf8EncodeChar

theorem length_continued_le (n low high code : Nat) (bytes : List Byte) :
    (continued n low high code bytes).2.length ≤ bytes.length := by
  induction n generalizing low high code bytes with
  | zero => simp [continued]
  | succ n ih =>
      cases bytes with
      | nil => simp [continued]
      | cons b rest =>
          simp only [continued]
          split
          · exact Nat.le_succ_of_le (ih _ _ _ _)
          · exact Nat.le_refl _

theorem length_piece_le (b : Byte) (rest : List Byte) :
    (piece b rest).2.length ≤ rest.length := by
  unfold piece
  split
  · exact Nat.le_refl _
  · split
    · exact length_continued_le _ _ _ _ _
    · exact Nat.le_refl _

/-- The fuel does not matter once it covers the input. -/
theorem piecesAux_of_le {fuel : Nat} {bytes : List Byte} (h : bytes.length ≤ fuel) :
    piecesAux fuel bytes = pieces bytes := by
  induction fuel using Nat.strong_induction_on generalizing bytes with
  | _ fuel ih =>
      cases bytes with
      | nil => cases fuel <;> rfl
      | cons b rest =>
          cases fuel with
          | zero => cases h
          | succ fuel =>
              have hrest := length_piece_le b rest
              have hlen : rest.length ≤ fuel := Nat.le_of_succ_le_succ h
              rw [pieces, List.length_cons, piecesAux, piecesAux,
                ih fuel (Nat.lt_succ_self _) (hrest.trans hlen)]
              rcases hlen.eq_or_lt with rfl | hlt
              · rw [ih _ (Nat.lt_succ_self _) hrest]
              · rw [ih rest.length (Nat.lt_succ_of_lt hlt) hrest]

/-- Reading pieces one after the other, without fuel. -/
theorem pieces_cons (b : Byte) (rest : List Byte) :
    pieces (b :: rest) = (piece b rest).1 :: pieces (piece b rest).2 := by
  rw [pieces, List.length_cons, piecesAux, piecesAux_of_le (length_piece_le b rest)]

/-- Where nothing is ill-formed, the two decoders agree. -/
theorem decodeReplace_of_decode {bytes : List Byte} {s : Str} (h : decode bytes = some s) :
    decodeReplace bytes = s := by
  unfold decode at h
  unfold decodeReplace
  generalize pieces bytes = cs at h
  induction cs generalizing s with
  | nil =>
      obtain rfl := Option.some.inj h
      rfl
  | cons c cs ih =>
      rw [List.mapM_cons] at h
      obtain ⟨a, ha, hbind⟩ := Option.bind_eq_some_iff.mp h
      obtain ⟨rest, hrest, hs⟩ := Option.bind_eq_some_iff.mp hbind
      have hc : c = some a := ha
      rw [List.map_cons, ih hrest, ← Option.some.inj hs, hc]
      rfl

end ByteBattles.Lib.Utf8
