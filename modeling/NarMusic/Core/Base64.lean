/-
  Base64 in the mail sender (src/infrastructure/notification/email_sender.cpp)
  and in two of the lyrics providers (kugou_provider.cpp, qqmusic_provider.cpp).

  The bits that wait for the next byte are the low ones of an `int` that is
  never masked: after four bytes the high ones are shifted out of its 32 bits,
  and a right shift may bring in copies of the sign, but only the low bits are
  read.
-/
import NarMusic.Lib.Base64
import NarMusic.Lib.Int

namespace NarMusic

open Cxx

/-! ## base64Encode -/

namespace EmailSender

/-- `table[i & 0x3F]` -/
def tableAt (i : BitVec 32) : Byte := Base64.alphabet.getD (i &&& 0x3F#32).toNat 0

/-- The inner loop: the characters pushed and the new `valb`. -/
def pushBits (val : BitVec 32) (valb : ℤ) : Str × ℤ :=
  if 0 ≤ valb then
    let (rest, valb') := pushBits val (valb - 6)
    (tableAt (val.sshiftRight valb.toNat) :: rest, valb')
  else ([], valb)
termination_by (valb + 6).toNat

/-- `(val << 8) + c` -/
def addByte (val : BitVec 32) (c : Byte) : BitVec 32 := val <<< 8 + BitVec.ofNat 32 c.toNat

/-- The loop over the input, and the character of the bits that are left. -/
def encodeFrom (val : BitVec 32) (valb : ℤ) : Str → Str
  | [] => if -6 < valb then [tableAt (val <<< (-valb).toNat)] else []
  | c :: input =>
    let val := addByte val c
    let (out, valb) := pushBits val (valb + 8)
    out ++ encodeFrom val valb input

/-- `while (out.size() % 4) out.push_back('=')` -/
def padOut (out : Str) : Str :=
  if out.length % 4 = 0 then out else padOut (out ++ [61])
termination_by (4 - out.length % 4) % 4
decreasing_by
  rw [List.length_append, List.length_singleton]
  omega

def base64Encode (input : Str) : Str := padOut (encodeFrom 0 (-6) input)

end EmailSender

/-! ## base64Decode -/

/-- `(val << 6) + idx` -/
def addIndex (val : BitVec 32) (idx : ℕ) : BitVec 32 := val <<< 6 + BitVec.ofNat 32 idx

/-- The loop of `base64Decode`. -/
def decodeFrom (val : BitVec 32) (bits : ℤ) : Str → Str
  | [] => []
  | c :: encoded =>
    if c = 61 then []
    else if isspace c then decodeFrom val bits encoded
    else match find [c] Base64.alphabet with
      | none => []
      | some idx =>
        let val := addIndex val idx
        let bits := bits + 6
        if 0 ≤ bits then
          UInt8.ofNat (val.sshiftRight bits.toNat &&& 0xFF#32).toNat :: decodeFrom val (bits - 8) encoded
        else decodeFrom val bits encoded

/-- `base64Decode`, the same text in both providers. -/
def base64Decode (encoded : Str) : Str := decodeFrom 0 (-8) encoded

def KugouProvider.base64Decode (encoded : Str) : Str := NarMusic.base64Decode encoded

def QQMusicProvider.base64Decode (encoded : Str) : Str := NarMusic.base64Decode encoded

/-! ## The encoder -/

namespace EmailSender

theorem tableAt_eq (v : BitVec 32) : tableAt v = Base64.symbol (v.toNat % 64) := by
  have hfield := toNat_field v (k := 0) (n := 6) (by omega)
  rw [BitVec.sshiftRight_zero, pow_zero, Nat.div_one] at hfield
  exact congrArg Base64.symbol hfield

theorem tableAt_sshiftRight (v : BitVec 32) {k : ℕ} (hk : k ≤ 26) :
    tableAt (v.sshiftRight k) = Base64.symbol (v.toNat / 2 ^ k % 64) :=
  congrArg Base64.symbol (toNat_field v (n := 6) (by omega))

/-- A byte enters at the low end, and the high bits are lost. -/
theorem toNat_addByte (v : BitVec 32) (c : Byte) :
    (addByte v c).toNat = (v.toNat * 256 + c.toNat) % 2 ^ 32 := by
  rw [addByte, BitVec.toNat_add, BitVec.toNat_shiftLeft, BitVec.toNat_ofNat, Nat.shiftLeft_eq]
  omega

theorem pushBits_neg {valb : ℤ} (h : valb < 0) (val : BitVec 32) : pushBits val valb = ([], valb) := by
  rw [pushBits, if_neg (by omega)]

theorem pushBits_nat {k : ℕ} (hk : k ≤ 6) (val : BitVec 32) :
    pushBits val k = (Base64.symbol (val.toNat / 2 ^ k % 64) :: (pushBits val (k - 6)).1,
      (pushBits val (k - 6)).2) := by
  rw [pushBits, if_pos (by omega), Int.toNat_natCast, tableAt_sshiftRight val (by omega)]

/-- The first byte of a group. -/
theorem encodeFrom_first (v : BitVec 32) (a : Byte) (s : Str) :
    encodeFrom v (-6) (a :: s) = Base64.symbol (a.toNat / 4) :: encodeFrom (addByte v a) (-4) s := by
  have ha := a.toNat_lt
  have hbits : (addByte v a).toNat / 2 ^ 2 % 64 = a.toNat / 4 := by
    rw [toNat_addByte]
    omega
  rw [encodeFrom, show (-6 + 8 : ℤ) = (2 : ℕ) by rfl, pushBits_nat (by omega), pushBits_neg (by omega), hbits]
  rfl

/-- The second. -/
theorem encodeFrom_second (v : BitVec 32) (b : Byte) (s : Str) :
    encodeFrom v (-4) (b :: s) =
      Base64.symbol (v.toNat % 4 * 16 + b.toNat / 16) :: encodeFrom (addByte v b) (-2) s := by
  have hb := b.toNat_lt
  have hbits : (addByte v b).toNat / 2 ^ 4 % 64 = v.toNat % 4 * 16 + b.toNat / 16 := by
    rw [toNat_addByte]
    omega
  rw [encodeFrom, show (-4 + 8 : ℤ) = (4 : ℕ) by rfl, pushBits_nat (by omega), pushBits_neg (by omega), hbits]
  rfl

/-- The third, which completes two characters. -/
theorem encodeFrom_third (v : BitVec 32) (c : Byte) (s : Str) :
    encodeFrom v (-2) (c :: s) = Base64.symbol (v.toNat % 16 * 4 + c.toNat / 64) ::
      Base64.symbol (c.toNat % 64) :: encodeFrom (addByte v c) (-6) s := by
  have hc := c.toNat_lt
  have hhigh : (addByte v c).toNat / 2 ^ 6 % 64 = v.toNat % 16 * 4 + c.toNat / 64 := by
    rw [toNat_addByte]
    omega
  have hlow : (addByte v c).toNat / 2 ^ 0 % 64 = c.toNat % 64 := by
    rw [toNat_addByte]
    omega
  rw [encodeFrom, show (-2 + 8 : ℤ) = (6 : ℕ) by rfl, pushBits_nat (by omega),
    show ((6 : ℕ) - 6 : ℤ) = (0 : ℕ) by rfl, pushBits_nat (by omega), pushBits_neg (by omega), hhigh, hlow]
  rfl

theorem encodeFrom_left (v : BitVec 32) {k : ℕ} (hk : k < 6) :
    encodeFrom v (-k) [] = [Base64.symbol (v.toNat * 2 ^ k % 64)] := by
  rw [encodeFrom, if_pos (by omega), neg_neg, Int.toNat_natCast, tableAt_eq, BitVec.toNat_shiftLeft,
    Nat.shiftLeft_eq, Nat.mod_mod_of_dvd _ (by norm_num)]

/-! ### The whole text -/

theorem padOut_whole {out : Str} (h : out.length % 4 = 0) : padOut out = out := by
  rw [padOut, if_pos h]

theorem padOut_append {front out : Str} (h : front.length % 4 = 0) :
    padOut (front ++ out) = front ++ padOut out := by
  induction out using padOut.induct with
  | case1 out hout =>
    rw [padOut_whole hout, padOut_whole (by rw [List.length_append]; omega)]
  | case2 out hout ih =>
    have hlen : (front ++ out).length % 4 ≠ 0 := by
      rw [List.length_append]
      omega
    rw [padOut, if_neg hlen, padOut.eq_def out, if_neg hout, List.append_assoc, ih]

/-- From any accumulator, between two groups: what is in it is never read. -/
theorem padOut_encodeFrom (v : BitVec 32) (s : Str) : padOut (encodeFrom v (-6) s) = Base64.encode s := by
  induction s using Base64.encode.induct generalizing v with
  | case1 a b c s ih =>
    have ha := a.toNat_lt
    have hb := b.toNat_lt
    have hc := c.toNat_lt
    have hgroup : Base64.group (a.toNat * 2 ^ 16 + b.toNat * 2 ^ 8 + c.toNat) =
        [Base64.symbol (a.toNat / 4), Base64.symbol ((addByte v a).toNat % 4 * 16 + b.toNat / 16),
          Base64.symbol ((addByte (addByte v a) b).toNat % 16 * 4 + c.toNat / 64),
          Base64.symbol (c.toNat % 64)] := by
      simp only [Base64.group, toNat_addByte, List.cons.injEq, and_true]
      refine ⟨?_, ?_, ?_, ?_⟩ <;> congr 1 <;> omega
    rw [encodeFrom_first, encodeFrom_second, encodeFrom_third, Base64.encode, hgroup, ← ih]
    exact padOut_append (show List.length [_, _, _, _] % 4 = 0 by simp only [List.length_cons, List.length_nil])
  | case2 a b =>
    have ha := a.toNat_lt
    have hb := b.toNat_lt
    have hgroup : (Base64.group (a.toNat * 2 ^ 16 + b.toNat * 2 ^ 8)).take 3 =
        [Base64.symbol (a.toNat / 4), Base64.symbol ((addByte v a).toNat % 4 * 16 + b.toNat / 16),
          Base64.symbol ((addByte (addByte v a) b).toNat * 2 ^ 2 % 64)] := by
      simp only [Base64.group, toNat_addByte, List.take_succ_cons, List.take_zero, List.cons.injEq, and_true]
      refine ⟨?_, ?_, ?_⟩ <;> congr 1 <;> omega
    rw [encodeFrom_first, encodeFrom_second, show (-2 : ℤ) = -(2 : ℕ) by rfl,
      encodeFrom_left _ (by omega), Base64.encode, hgroup, padOut, if_neg (by simp), padOut_whole (by simp)]
    rfl
  | case3 a =>
    have ha := a.toNat_lt
    have hgroup : (Base64.group (a.toNat * 2 ^ 16)).take 2 =
        [Base64.symbol (a.toNat / 4), Base64.symbol ((addByte v a).toNat * 2 ^ 4 % 64)] := by
      simp only [Base64.group, toNat_addByte, List.take_succ_cons, List.take_zero, List.cons.injEq, and_true]
      refine ⟨?_, ?_⟩ <;> congr 1 <;> omega
    rw [encodeFrom_first, show (-4 : ℤ) = -(4 : ℕ) by rfl, encodeFrom_left _ (by omega), Base64.encode,
      hgroup, padOut, if_neg (by simp), padOut, if_neg (by simp), padOut_whole (by simp)]
    rfl
  | case4 => exact padOut_whole rfl

end EmailSender

/-! ## The decoder -/

/-- Six bits enter at the low end. -/
theorem toNat_addIndex (v : BitVec 32) (n : ℕ) :
    (addIndex v n).toNat = (v.toNat * 64 + n) % 2 ^ 32 := by
  rw [addIndex, BitVec.toNat_add, BitVec.toNat_shiftLeft, BitVec.toNat_ofNat, Nat.shiftLeft_eq]
  omega

/-- White space is skipped, wherever it stands. -/
theorem decodeFrom_filter (v : BitVec 32) (bits : ℤ) (t : Str) :
    decodeFrom v bits (t.filter fun c => !isspace c) = decodeFrom v bits t := by
  induction t generalizing v bits with
  | nil => rfl
  | cons c t ih =>
    have h61 : isspace 61 = false := rfl
    by_cases hc : c = 61
    · simp [hc, h61, decodeFrom]
    · cases hs : isspace c with
      | true => simp [hs, decodeFrom, hc, ih]
      | false => simp [hs, decodeFrom, hc, ih]

theorem decodeFrom_symbol (v : BitVec 32) (bits : ℤ) {n : ℕ} (h : n < 64) (t : Str) :
    decodeFrom v bits (Base64.symbol n :: t) =
      if 0 ≤ bits + 6 then
        UInt8.ofNat ((addIndex v n).sshiftRight (bits + 6).toNat &&& 0xFF#32).toNat ::
          decodeFrom (addIndex v n) (bits + 6 - 8) t
      else decodeFrom (addIndex v n) (bits + 6) t := by
  obtain ⟨hpad, hspace⟩ := Base64.symbol_plain h
  rw [decodeFrom, if_neg (show Base64.symbol n ≠ 61 from hpad), if_neg (by simp [hspace]), Base64.find_symbol h]

/-- A character of the alphabet that completes no byte, and one that does. -/
theorem decodeFrom_wait (v : BitVec 32) {bits : ℤ} (hb : bits + 6 < 0) {n : ℕ} (h : n < 64) (t : Str) :
    decodeFrom v bits (Base64.symbol n :: t) = decodeFrom (addIndex v n) (bits + 6) t := by
  rw [decodeFrom_symbol v bits h, if_neg (by omega)]

theorem decodeFrom_push (v : BitVec 32) {k : ℕ} (hk : k ≤ 24) {n : ℕ} (h : n < 64) {a : Byte}
    (ha : (addIndex v n).toNat / 2 ^ k % 256 = a.toNat) (t : Str) :
    decodeFrom v (k - 6) (Base64.symbol n :: t) = a :: decodeFrom (addIndex v n) (k - 8) t := by
  have hbyte := toNat_field (addIndex v n) (k := k) (n := 8) (by omega)
  rw [show 2 ^ 8 = 256 by rfl, ha] at hbyte
  rw [decodeFrom_symbol v _ h, sub_add_cancel, if_pos (by omega), Int.toNat_natCast]
  exact congrArg (· :: _) ((congrArg UInt8.ofNat hbyte).trans UInt8.ofNat_toNat)

theorem decodeFrom_pad (v : BitVec 32) (bits : ℤ) (t : Str) : decodeFrom v bits (Base64.pad :: t) = [] := by
  rw [decodeFrom, if_pos (show Base64.pad = 61 from rfl)]

/-- The first two characters of a group carry its first byte. -/
theorem decodeFrom_two (v : BitVec 32) {x y : ℕ} (hx : x < 64) (hy : y < 64) {a : Byte}
    (ha : x * 4 + y / 16 = a.toNat) (t : Str) :
    decodeFrom v (-8) (Base64.symbol x :: Base64.symbol y :: t) =
      a :: decodeFrom (addIndex (addIndex v x) y) (-4) t := by
  have hbyte : (addIndex (addIndex v x) y).toNat / 2 ^ 4 % 256 = a.toNat := by
    rw [toNat_addIndex, toNat_addIndex]
    omega
  rw [decodeFrom_wait v (by omega) hx, show (-8 + 6 : ℤ) = (4 : ℕ) - 6 by rfl,
    decodeFrom_push _ (by omega) hy hbyte]
  rfl

theorem decodeFrom_third (v : BitVec 32) {z : ℕ} (hz : z < 64) {b : Byte}
    (hb : v.toNat % 16 * 16 + z / 4 = b.toNat) (t : Str) :
    decodeFrom v (-4) (Base64.symbol z :: t) = b :: decodeFrom (addIndex v z) (-6) t := by
  have hbyte : (addIndex v z).toNat / 2 ^ 2 % 256 = b.toNat := by
    rw [toNat_addIndex]
    omega
  exact decodeFrom_push v (k := 2) (by omega) hz hbyte t

theorem decodeFrom_fourth (v : BitVec 32) {w : ℕ} (hw : w < 64) {c : Byte}
    (hc : v.toNat % 4 * 64 + w = c.toNat) (t : Str) :
    decodeFrom v (-6) (Base64.symbol w :: t) = c :: decodeFrom (addIndex v w) (-8) t := by
  have hbyte : (addIndex v w).toNat / 2 ^ 0 % 256 = c.toNat := by
    rw [toNat_addIndex]
    omega
  exact decodeFrom_push v (k := 0) (by omega) hw hbyte t

/-- From any accumulator, between two groups. -/
theorem decodeFrom_encode (v : BitVec 32) (s : Str) : decodeFrom v (-8) (Base64.encode s) = s := by
  induction s using Base64.encode.induct generalizing v with
  | case1 a b c s ih =>
    have ha := a.toNat_lt
    have hb := b.toNat_lt
    have hc := c.toNat_lt
    simp only [Base64.encode, Base64.group, List.cons_append, List.nil_append]
    rw [decodeFrom_two v (a := a) (by omega) (by omega) (by omega),
      decodeFrom_third _ (b := b) (by omega) (by rw [toNat_addIndex]; omega),
      decodeFrom_fourth _ (c := c) (by omega) (by rw [toNat_addIndex]; omega), ih]
  | case2 a b =>
    have ha := a.toNat_lt
    have hb := b.toNat_lt
    simp only [Base64.encode, Base64.group, List.take_succ_cons, List.take_zero, List.cons_append, List.nil_append]
    rw [decodeFrom_two v (a := a) (by omega) (by omega) (by omega),
      decodeFrom_third _ (b := b) (by omega) (by rw [toNat_addIndex]; omega), decodeFrom_pad]
  | case3 a =>
    have ha := a.toNat_lt
    simp only [Base64.encode, Base64.group, List.take_succ_cons, List.take_zero, List.cons_append, List.nil_append]
    rw [decodeFrom_two v (a := a) (by omega) (by omega) (by omega), decodeFrom_pad]
  | case4 => rfl

theorem base64Decode_eq {s t : Str} (h : (t.filter fun c => !isspace c) = Base64.encode s) :
    base64Decode t = s := by
  rw [base64Decode, ← decodeFrom_filter, h, decodeFrom_encode]

/-- **Base64.**  The mail sender writes the code of the bytes, and each decoder reads them back from
    it, also when white space has been put into the code. -/
theorem base64_correct (s : Str) :
    EmailSender.base64Encode s = Base64.encode s ∧
    KugouProvider.base64Decode (EmailSender.base64Encode s) = s ∧
    QQMusicProvider.base64Decode (EmailSender.base64Encode s) = s ∧
    ∀ t, (t.filter fun c => !isspace c) = EmailSender.base64Encode s →
      KugouProvider.base64Decode t = s ∧ QQMusicProvider.base64Decode t = s := by
  have hencode : EmailSender.base64Encode s = Base64.encode s := EmailSender.padOut_encodeFrom 0 s
  have hspace : ((Base64.encode s).filter fun c => !isspace c) = Base64.encode s := by
    refine List.filter_eq_self.2 fun c hc => ?_
    rw [Base64.encode_no_space s c hc]
    rfl
  rw [hencode]
  exact ⟨rfl, base64Decode_eq hspace, base64Decode_eq hspace,
    fun t ht => ⟨base64Decode_eq ht, base64Decode_eq ht⟩⟩

end NarMusic
