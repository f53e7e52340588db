/-
  ScopeTokens.Proofs.Token.Fields

  The fields of a metadata word as numbers. A field at bit `offset` of width
  `width` is a digit of the word: mask and shift take it out
  (`toNat_and_shiftRight`), and `pack` is the sum of all of them, each in its
  place (`toNat_pack`). The fields are disjoint and cover all 32 bits, so a word
  is determined by what is read of it and the other way round (`pack_read`,
  `read_pack`). A write replaces one digit (`read_withLanguageId`,
  `read_withTokenType`), from which all laws of writing follow.
-/

import Mathlib.Algebra.Group.Nat.Defs
import ScopeTokens.Token.Metadata

namespace ScopeTokens

/-! ## Digits of a word -/

/-- The ones of `mask` are the `width` bits from `offset` on. -/
structure MasksBits (mask : UInt32) (offset width : Nat) : Prop where
  toNat_eq : mask.toNat = 2 ^ offset * (2 ^ width - 1)
  pos : 0 < width
  fits : offset + width ≤ 32

namespace MasksBits

variable {mask : UInt32} {offset width : Nat}

theorem testBit (h : MasksBits mask offset width) (i : Nat) :
    mask.toNat.testBit i = decide (offset ≤ i ∧ i < offset + width) := by
  rw [h.toNat_eq, Nat.testBit_two_pow_mul, Nat.testBit_two_pow_sub_one, ← Bool.decide_and,
    decide_eq_decide]
  omega

/-- `w &&& mask` is the field, still in its place. -/
theorem toNat_and (h : MasksBits mask offset width) (w : UInt32) :
    (w &&& mask).toNat = 2 ^ offset * (w.toNat / 2 ^ offset % 2 ^ width) := by
  rw [UInt32.toNat_and]
  apply Nat.eq_of_testBit_eq
  intro i
  rw [Nat.testBit_and, h.testBit, Nat.testBit_two_pow_mul, Nat.testBit_mod_two_pow,
    Nat.testBit_div_two_pow]
  by_cases h_low : offset ≤ i
  · have h_width : i - offset < width ↔ i < offset + width := by omega
    simp [h_low, h_width, Bool.and_comm]
  · simp [h_low]

theorem place_mod {place : UInt32} (h : MasksBits mask offset width)
    (h_place : place.toNat = offset) : place.toNat % 32 = offset := by
  have h_pos := h.pos
  have h_fits := h.fits
  rw [h_place, Nat.mod_eq_of_lt (by omega)]

/-- Shifted down to `offset`, the field is a digit of `w`. -/
theorem toNat_and_shiftRight (h : MasksBits mask offset width) (place : UInt32)
    (h_place : place.toNat = offset) (w : UInt32) :
    ((w &&& mask) >>> place).toNat = w.toNat / 2 ^ offset % 2 ^ width := by
  rw [UInt32.toNat_shiftRight, h.place_mod h_place, h.toNat_and, Nat.shiftRight_eq_div_pow,
    Nat.mul_div_cancel_left _ (Nat.two_pow_pos _)]

/-- Shifted up and masked, `v` is cut to `width` bits. -/
theorem toNat_shiftLeft_and (h : MasksBits mask offset width) (place : UInt32)
    (h_place : place.toNat = offset) (v : UInt32) :
    ((v <<< place) &&& mask).toNat = 2 ^ offset * (v.toNat % 2 ^ width) := by
  have h_fits := h.fits
  rw [UInt32.toNat_and, UInt32.toNat_shiftLeft, h.place_mod h_place]
  apply Nat.eq_of_testBit_eq
  intro i
  rw [Nat.testBit_and, h.testBit, Nat.testBit_mod_two_pow, Nat.testBit_shiftLeft,
    Nat.testBit_two_pow_mul, Nat.testBit_mod_two_pow]
  by_cases h_i : offset ≤ i ∧ i < offset + width
  · simp [h_i, show i - offset < width by omega, show i < 32 by omega]
  · by_cases h_low : offset ≤ i
    · simp [h_low, show ¬ i < offset + width by omega, show ¬ i - offset < width by omega]
    · simp [h_low]

/-- Clearing the field and putting `v` in its place changes that digit only. -/
theorem toNat_replace (h : MasksBits mask offset width) (place : UInt32)
    (h_place : place.toNat = offset) (w : UInt32) {v : UInt32} (h_v : v.toNat < 2 ^ width) :
    ((w &&& ~~~mask) ||| (v <<< place)).toNat =
      2 ^ offset * (2 ^ width * (w.toNat / 2 ^ (offset + width)) + v.toNat) +
        w.toNat % 2 ^ offset := by
  have h_fits := h.fits
  have h_mask : mask.toNat < 2 ^ 32 := mask.toNat_lt
  have h_not : (~~~mask).toNat = 2 ^ 32 - (mask.toNat + 1) := by
    rw [UInt32.toNat_not]
    show 2 ^ 32 - 1 - mask.toNat = _
    omega
  rw [UInt32.toNat_or, UInt32.toNat_and, UInt32.toNat_shiftLeft, h.place_mod h_place, h_not]
  apply Nat.eq_of_testBit_eq
  intro i
  rw [Nat.testBit_two_pow_mul_add _ (Nat.mod_lt _ (Nat.two_pow_pos _)),
    Nat.testBit_two_pow_mul_add _ h_v, Nat.testBit_or, Nat.testBit_and,
    Nat.testBit_two_pow_sub_succ h_mask, h.testBit, Nat.testBit_mod_two_pow,
    Nat.testBit_shiftLeft, Nat.testBit_mod_two_pow, Nat.testBit_div_two_pow]
  -- a place is below the field, in it, or above it
  by_cases h_below : i < offset
  · simp [h_below, show i < 32 by omega, show ¬ offset ≤ i by omega]
  · by_cases h_within : i - offset < width
    · simp [h_below, h_within, show i < 32 by omega, show i < offset + width by omega,
        show offset ≤ i by omega]
    · have h_place : i - offset - width + (offset + width) = i := by omega
      have h_above : ¬ i < offset + width := by omega
      have h_fitting : v.toNat.testBit (i - offset) = false :=
        Nat.testBit_lt_two_pow
          (Nat.lt_of_lt_of_le h_v (Nat.pow_le_pow_right Nat.two_pos (by omega)))
      rcases Nat.lt_or_ge i 32 with h_word | h_past
      · simp [h_below, h_within, h_place, h_above, h_fitting, h_word]
      · have h_none : w.toNat.testBit i = false :=
          Nat.testBit_lt_two_pow
            (Nat.lt_of_lt_of_le w.toNat_lt (Nat.pow_le_pow_right Nat.two_pos h_past))
        simp [h_below, h_within, h_place, h_none, h_fitting]

end MasksBits

/-- `|||` of digits that do not overlap is their sum. -/
theorem or_two_pow_mul (offset : Nat) {n : Nat} (h : n < 2 ^ offset) (digits : Nat) :
    n ||| 2 ^ offset * digits = n + 2 ^ offset * digits := by
  rw [Nat.or_comm, ← Nat.two_pow_add_eq_or_of_lt h, Nat.add_comm]

theorem TokenType.toNat_bits (t : TokenType) : t.bits.toNat = t.code := by
  cases t <;> rfl

/-- `ofBits` looks at the lowest two bits. -/
theorem TokenType.code_ofBits (w : UInt32) : (ofBits w).code = w.toNat % 2 ^ 2 := by
  have h_digit : (w &&& 3).toNat = w.toNat % 2 ^ 2 := Nat.and_two_pow_sub_one_eq_mod w.toNat 2
  have h_cases : w.toNat % 2 ^ 2 = 0 ∨ w.toNat % 2 ^ 2 = 1 ∨ w.toNat % 2 ^ 2 = 2 ∨
      w.toNat % 2 ^ 2 = 3 := by omega
  rcases h_cases with h | h | h | h <;> simp only [ofBits, h_digit, h, code]

namespace TokenMetadata

/-! ## Reading -/

theorem masksBits_language : MasksBits languageMask 0 8 := ⟨rfl, by decide, by decide⟩

theorem masksBits_type : MasksBits typeMask 8 2 := ⟨rfl, by decide, by decide⟩

theorem masksBits_balanced : MasksBits balancedMask 10 1 := ⟨rfl, by decide, by decide⟩

theorem masksBits_font : MasksBits fontMask 11 4 := ⟨rfl, by decide, by decide⟩

theorem masksBits_foreground : MasksBits foregroundMask 15 9 := ⟨rfl, by decide, by decide⟩

theorem masksBits_background : MasksBits backgroundMask 24 8 := ⟨rfl, by decide, by decide⟩

section

variable (m : TokenMetadata)

theorem toNat_languageId : m.languageId.raw.toNat = m.bits.toNat % 2 ^ 8 := by
  rw [languageId, UInt32.toNat_toUInt8, masksBits_language.toNat_and]
  omega

theorem code_tokenType : m.tokenType.code = m.bits.toNat / 2 ^ 8 % 2 ^ 2 := by
  rw [tokenType, TokenType.code_ofBits, masksBits_type.toNat_and_shiftRight 8 rfl, Nat.mod_mod]

/-- `balanced` is bit 10. -/
theorem toNat_balanced : m.balanced.toNat = m.bits.toNat / 2 ^ 10 % 2 ^ 1 := by
  have h_zero : m.bits &&& balancedMask = 0 ↔ m.bits.toNat / 2 ^ 10 % 2 ^ 1 = 0 := by
    rw [← UInt32.toNat_inj, masksBits_balanced.toNat_and, UInt32.toNat_zero]
    omega
  rw [balanced]
  by_cases h : m.bits &&& balancedMask = 0
  · rw [h, h_zero.1 h]
    rfl
  · have h_one : m.bits.toNat / 2 ^ 10 % 2 ^ 1 = 1 := by
      have h_not := mt h_zero.2 h
      omega
    rw [bne_iff_ne.2 h, h_one]
    rfl

theorem toNat_fontStyle : m.fontStyle.bits.toNat = m.bits.toNat / 2 ^ 11 % 2 ^ 4 := by
  rw [fontStyle, UInt32.toNat_toUInt8, masksBits_font.toNat_and_shiftRight 11 rfl]
  omega

theorem toNat_foreground : m.foreground.toNat = m.bits.toNat / 2 ^ 15 % 2 ^ 9 := by
  rw [foreground, UInt32.toNat_toUInt16, masksBits_foreground.toNat_and_shiftRight 15 rfl]
  omega

theorem toNat_background : m.background.toNat = m.bits.toNat / 2 ^ 24 % 2 ^ 8 := by
  rw [background, UInt32.toNat_toUInt16, masksBits_background.toNat_and_shiftRight 24 rfl]
  omega

end

/-! ## Packing and writing -/

theorem toNat_toUInt32_flag (b : Bool) : b.toUInt32.toNat = b.toNat := by
  cases b <;> rfl

/-- A packed word is the sum of its fields, each cut to its width and moved to its place. -/
theorem toNat_pack (language : LanguageId) (type : TokenType) (font : FontStyle) (balanced : Bool)
    (foreground background : UInt16) :
    (pack language type font balanced foreground background).bits.toNat =
      language.raw.toNat + 2 ^ 8 * type.code + 2 ^ 10 * balanced.toNat +
        2 ^ 11 * (font.bits.toNat % 2 ^ 4) + 2 ^ 15 * (foreground.toNat % 2 ^ 9) +
        2 ^ 24 * (background.toNat % 2 ^ 8) := by
  have h_language : (language.raw.toUInt32 &&& languageMask).toNat = language.raw.toNat := by
    rw [masksBits_language.toNat_and, UInt8.toNat_toUInt32]
    have h_lt := language.raw.toNat_lt
    omega
  have h_type := type.code_lt
  have h_balanced := balanced.toNat_lt
  simp only [pack, UInt32.toNat_or, h_language, masksBits_type.toNat_shiftLeft_and 8 rfl,
    masksBits_balanced.toNat_shiftLeft_and 10 rfl, masksBits_font.toNat_shiftLeft_and 11 rfl,
    masksBits_foreground.toNat_shiftLeft_and 15 rfl,
    masksBits_background.toNat_shiftLeft_and 24 rfl, TokenType.toNat_bits, toNat_toUInt32_flag,
    UInt8.toNat_toUInt32, UInt16.toNat_toUInt32]
  have h_lt := language.raw.toNat_lt
  -- from the lowest field up, each is above all that is there
  rw [or_two_pow_mul 8 (by omega), or_two_pow_mul 10 (by omega), or_two_pow_mul 11 (by omega),
    or_two_pow_mul 15 (by omega), or_two_pow_mul 24 (by omega)]
  omega

theorem toNat_withLanguageId (m : TokenMetadata) (language : LanguageId) :
    (m.withLanguageId language).bits.toNat =
      2 ^ 8 * (m.bits.toNat / 2 ^ 8) + language.raw.toNat := by
  have h_lt : language.raw.toUInt32.toNat < 2 ^ 8 := by
    rw [UInt8.toNat_toUInt32]
    exact language.raw.toNat_lt
  have h_replace := masksBits_language.toNat_replace 0 rfl m.bits h_lt
  rw [UInt32.shiftLeft_zero, UInt8.toNat_toUInt32] at h_replace
  rw [withLanguageId, h_replace]
  omega

theorem toNat_withTokenType (m : TokenMetadata) (type : TokenType) :
    (m.withTokenType type).bits.toNat =
      2 ^ 8 * (2 ^ 2 * (m.bits.toNat / 2 ^ 10) + type.code) + m.bits.toNat % 2 ^ 8 := by
  have h_lt : type.bits.toNat < 2 ^ 2 := by
    rw [TokenType.toNat_bits]
    exact type.code_lt
  rw [withTokenType, masksBits_type.toNat_replace 8 rfl m.bits h_lt, TokenType.toNat_bits]

/-- A value for each field, of the full type of the value. -/
structure Fields where
  language : LanguageId
  type : TokenType
  font : FontStyle
  balanced : Bool
  foreground : UInt16
  background : UInt16
  deriving DecidableEq, Repr

namespace Fields

/-- `TokenMetadata.pack` of these values. -/
def pack (f : Fields) : TokenMetadata :=
  .pack f.language f.type f.font f.balanced f.foreground f.background

/-- `f` as far as a word has room for it: four bits of `font`, nine of `foreground`, eight of
    `background`. The other fields fit whole. -/
def fit (f : Fields) : Fields :=
  { f with
    font := ⟨f.font.bits % 16⟩
    foreground := f.foreground % 512
    background := f.background % 256 }

/-- `Fields` are equal if they are as numbers. -/
theorem ext_toNat {f g : Fields} (h_language : f.language.raw.toNat = g.language.raw.toNat)
    (h_type : f.type.code = g.type.code) (h_font : f.font.bits.toNat = g.font.bits.toNat)
    (h_balanced : f.balanced.toNat = g.balanced.toNat)
    (h_foreground : f.foreground.toNat = g.foreground.toNat)
    (h_background : f.background.toNat = g.background.toNat) : f = g := by
  have h_flags : ∀ b b' : Bool, b.toNat = b'.toNat → b = b' := by decide
  cases f
  cases g
  rw [Fields.mk.injEq]
  exact ⟨congrArg LanguageId.mk (UInt8.toNat_inj.1 h_language), TokenType.code_injective h_type,
    congrArg FontStyle.mk (UInt8.toNat_inj.1 h_font), h_flags _ _ h_balanced,
    UInt16.toNat_inj.1 h_foreground, UInt16.toNat_inj.1 h_background⟩

end Fields

/-- The value of each field of `m`. -/
def read (m : TokenMetadata) : Fields :=
  ⟨m.languageId, m.tokenType, m.fontStyle, m.balanced, m.foreground, m.background⟩

/-- Packing what is read of `m` gives `m`. -/
theorem pack_read (m : TokenMetadata) : m.read.pack = m := by
  have h_toNat : m.read.pack.bits.toNat = m.bits.toNat := by
    have h_lt := m.bits.toNat_lt
    rw [Fields.pack, toNat_pack]
    simp only [read, toNat_languageId, code_tokenType, toNat_fontStyle, toNat_balanced,
      toNat_foreground, toNat_background]
    omega
  exact congrArg TokenMetadata.mk (UInt32.toNat_inj.1 h_toNat)

/-- What is read of a packed word is what was packed, cut by `fit`. -/
theorem read_pack (f : Fields) : f.pack.read = f.fit := by
  have h_pack : f.pack.bits.toNat = _ := toNat_pack ..
  have h_language := f.language.raw.toNat_lt
  have h_type := f.type.code_lt
  have h_balanced := f.balanced.toNat_lt
  -- `h_pack` is the word as a sum of shifted fields, of which each getter is a quotient and a
  -- remainder. The bounds of the three fields that are not cut keep them off their neighbours.
  apply Fields.ext_toNat
  case h_language =>
    show f.pack.languageId.raw.toNat = f.language.raw.toNat
    rw [toNat_languageId, h_pack]
    omega
  case h_type =>
    show f.pack.tokenType.code = f.type.code
    rw [code_tokenType, h_pack]
    omega
  case h_font =>
    show f.pack.fontStyle.bits.toNat = (f.font.bits % 16).toNat
    rw [toNat_fontStyle, h_pack, UInt8.toNat_mod]
    show _ = f.font.bits.toNat % 16
    omega
  case h_balanced =>
    show f.pack.balanced.toNat = f.balanced.toNat
    rw [toNat_balanced, h_pack]
    omega
  case h_foreground =>
    show f.pack.foreground.toNat = (f.foreground % 512).toNat
    rw [toNat_foreground, h_pack, UInt16.toNat_mod]
    show _ = f.foreground.toNat % 512
    omega
  case h_background =>
    show f.pack.background.toNat = (f.background % 256).toNat
    rw [toNat_background, h_pack, UInt16.toNat_mod]
    show _ = f.background.toNat % 256
    omega

/-- `overline` and the upper bits of the colours are dropped. -/
example : (Fields.mk ⟨7⟩ .regex ⟨0x1f⟩ true 0xffff 0x1ff).pack.read =
    ⟨⟨7⟩, .regex, ⟨0x0f⟩, true, 0x1ff, 0xff⟩ := by decide

theorem read_withLanguageId (m : TokenMetadata) (language : LanguageId) :
    (m.withLanguageId language).read = { m.read with language := language } := by
  have h_lt := language.raw.toNat_lt
  apply Fields.ext_toNat <;>
    simp only [read, toNat_languageId, code_tokenType, toNat_fontStyle, toNat_balanced,
      toNat_foreground, toNat_background, toNat_withLanguageId] <;>
    omega

theorem read_withTokenType (m : TokenMetadata) (type : TokenType) :
    (m.withTokenType type).read = { m.read with type := type } := by
  have h_lt := type.code_lt
  apply Fields.ext_toNat <;>
    simp only [read, toNat_languageId, code_tokenType, toNat_fontStyle, toNat_balanced,
      toNat_foreground, toNat_background, toNat_withTokenType] <;>
    omega

/-- A word is determined by its fields. -/
theorem read_injective : Function.Injective read :=
  Function.LeftInverse.injective pack_read

section

variable (language : LanguageId) (type : TokenType) (font : FontStyle) (balanced : Bool)
  (foreground background : UInt16)

theorem languageId_pack :
    (pack language type font balanced foreground background).languageId = language :=
  congrArg Fields.language (read_pack ⟨language, type, font, balanced, foreground, background⟩)

theorem tokenType_pack :
    (pack language type font balanced foreground background).tokenType = type :=
  congrArg Fields.type (read_pack ⟨language, type, font, balanced, foreground, background⟩)

end

/-- `read` and `pack` are inverse, up to `fit` for values that a field has no room for.
    `withLanguageId` and `withTokenType` change their own field of `read` and no other. Hence the
    last of two writes to a field counts, a write of the value that is there changes nothing, and
    writes to the two fields commute. -/
theorem pack_read_and_read_pack_and_writes :
    (∀ m : TokenMetadata, m.read.pack = m) ∧
    (∀ f : Fields, f.pack.read = f.fit) ∧
    (∀ m l, (withLanguageId m l).read = { m.read with language := l }) ∧
    (∀ m t, (withTokenType m t).read = { m.read with type := t }) ∧
    (∀ m l l', ((withLanguageId m l).withLanguageId l') = m.withLanguageId l') ∧
    (∀ m t t', ((withTokenType m t).withTokenType t') = m.withTokenType t') ∧
    (∀ m : TokenMetadata, m.withLanguageId m.languageId = m) ∧
    (∀ m : TokenMetadata, m.withTokenType m.tokenType = m) ∧
    (∀ m l t, (withLanguageId m l).withTokenType t = (withTokenType m t).withLanguageId l) := by
  refine ⟨pack_read, read_pack, read_withLanguageId, read_withTokenType, ?_⟩
  -- each law says of words what is plain of the values that are read of them
  refine ⟨?_, ?_, ?_, ?_, ?_⟩
  · intro m l l'
    apply read_injective
    rw [read_withLanguageId, read_withLanguageId, read_withLanguageId]
  · intro m t t'
    apply read_injective
    rw [read_withTokenType, read_withTokenType, read_withTokenType]
  · intro m
    apply read_injective
    rw [read_withLanguageId]
    rfl
  · intro m
    apply read_injective
    rw [read_withTokenType]
    rfl
  · intro m l t
    apply read_injective
    rw [read_withTokenType, read_withLanguageId, read_withLanguageId, read_withTokenType]

end TokenMetadata

end ScopeTokens
