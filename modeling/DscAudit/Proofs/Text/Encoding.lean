import DscAudit.Check.Resource
import DscAudit.Proofs.Host.Effect

/-!
# Text that is read back

The decoders of UTF-8, UTF-16 and UTF-32 invert the encoders, whatever follows.  A byte order mark tells them
apart: of a text that starts neither with the null character nor with the mark itself no encoding is taken for
another one, so a file that holds the text in any of them is read as the text.
-/

namespace DscAudit.Text

theorem toNat_toUInt8 {n : Nat} (h : n < 256) : n.toUInt8.toNat = n := by
  rw [Nat.toUInt8, UInt8.toNat_ofNat']
  exact Nat.mod_eq_of_lt h

/-- A character is below the end of the code space and no surrogate. -/
theorem toNat_bounds (c : Char) : c.toNat < 0x110000 ∧ (c.toNat < 0xD800 ∨ 0xDFFF < c.toNat) := by
  rcases c.valid with hbelow | ⟨habove, hbelow⟩
  · exact ⟨Nat.lt_trans hbelow (by decide), .inl hbelow⟩
  · exact ⟨hbelow, .inr habove⟩

/-! ## UTF-8 -/

namespace Utf8

/-- The octets that the library writes for a character. -/
theorem encodeChar_eq (c : Char) : encodeChar c = String.utf8EncodeChar c := by
  have hbound := (toNat_bounds c).1
  have hvalue : c.val.toNat = c.toNat := rfl
  rw [encodeChar, String.utf8EncodeChar]
  simp only [hvalue, Nat.toUInt8]
  by_cases hone : c.toNat ≤ 0x7F
  · rw [if_pos (by omega), if_pos hone]
  rw [if_neg (by omega), if_neg hone]
  by_cases htwo : c.toNat ≤ 0x7FF
  · rw [if_pos (by omega), if_pos htwo, Nat.mod_eq_of_lt (by omega : c.toNat / 64 < 0x20),
      Nat.add_comm 0xC0, Nat.add_comm 0x80]
  rw [if_neg (by omega), if_neg htwo]
  by_cases hthree : c.toNat ≤ 0xFFFF
  · rw [if_pos (by omega), if_pos hthree, Nat.mod_eq_of_lt (by omega : c.toNat / 4096 < 0x10),
      Nat.add_comm 0xE0, Nat.add_comm 0x80, Nat.add_comm 0x80]
  · rw [if_neg (by omega), if_neg hthree, Nat.mod_eq_of_lt (by omega : c.toNat / 262144 < 0x08),
      Nat.add_comm 0xF0, Nat.add_comm 0x80, Nat.add_comm 0x80, Nat.add_comm 0x80]

theorem encode_eq_flatMap (s : List Char) : encode s = s.flatMap String.utf8EncodeChar := by
  rw [encode, funext encodeChar_eq]

variable {n owed low high bits value : Nat} (rest : Octets)

theorem decodeFrom_whole (h : n < 0x80) :
    decodeFrom none (n.toUInt8 :: rest) = some (Char.ofNat n) :: decodeFrom none rest := by
  rw [decodeFrom, toNat_toUInt8 (by omega), begin, start, if_pos h]
  rfl

theorem decodeFrom_longer {pending : Pending} (hoctet : n < 256) (hstart : start n = .longer pending) :
    decodeFrom none (n.toUInt8 :: rest) = decodeFrom (some pending) rest := by
  rw [decodeFrom, toNat_toUInt8 hoctet, begin, hstart]
  rfl

/-- An octet with six more bits. -/
theorem decodeFrom_more (howed : owed ≠ 1) (hvalue : value < 64)
    (hlow : low ≤ 0x80 + value) (hhigh : 0x80 + value ≤ high) :
    decodeFrom (some ⟨owed, low, high, bits⟩) ((0x80 + value).toUInt8 :: rest) =
      decodeFrom (some ⟨owed - 1, 0x80, 0xBF, 64 * bits + value⟩) rest := by
  rw [decodeFrom]
  dsimp only
  rw [toNat_toUInt8 (by omega), if_pos ⟨hlow, hhigh⟩, if_neg howed, Nat.add_sub_cancel_left]

/-- The octet with the last six bits. -/
theorem decodeFrom_last (hvalue : value < 64) (hlow : low ≤ 0x80 + value)
    (hhigh : 0x80 + value ≤ high) :
    decodeFrom (some ⟨1, low, high, bits⟩) ((0x80 + value).toUInt8 :: rest) =
      some (Char.ofNat (64 * bits + value)) :: decodeFrom none rest := by
  rw [decodeFrom]
  dsimp only
  rw [toNat_toUInt8 (by omega), if_pos ⟨hlow, hhigh⟩, if_pos rfl, Nat.add_sub_cancel_left]

/-- What the first of three octets begins.  Its successor is bounded so that no shorter encoding and no
surrogate is accepted. -/
theorem start_three (hlow : 0x800 ≤ n) (hhigh : n < 0x10000) (hsurrogate : n < 0xD800 ∨ 0xDFFF < n) :
    ∃ low high, start (0xE0 + n / 4096) = .longer ⟨2, low, high, n / 4096⟩ ∧
      low ≤ 0x80 + n / 64 % 64 ∧ 0x80 + n / 64 % 64 ≤ high := by
  have hlead : n / 4096 < 16 := by omega
  rw [start, if_neg (by omega), if_neg (by omega)]
  by_cases hfirst : n / 4096 = 0
  · exact ⟨0xA0, 0xBF, by rw [if_pos (by omega), hfirst], by omega, by omega⟩
  rw [if_neg (by omega)]
  by_cases hlast : n / 4096 = 13
  · exact ⟨0x80, 0x9F, by rw [if_pos (by omega), hlast], by omega, by omega⟩
  · exact ⟨0x80, 0xBF, by rw [if_neg (by omega), if_pos (by omega), Nat.add_sub_cancel_left],
      by omega, by omega⟩

/-- What the first of four octets begins.  Its successor is bounded so that no shorter encoding and nothing
beyond the code space is accepted. -/
theorem start_four (hlow : 0x10000 ≤ n) (hhigh : n < 0x110000) :
    ∃ low high, start (0xF0 + n / 262144) = .longer ⟨3, low, high, n / 262144⟩ ∧
      low ≤ 0x80 + n / 4096 % 64 ∧ 0x80 + n / 4096 % 64 ≤ high := by
  have hlead : n / 262144 < 5 := by omega
  rw [start, if_neg (by omega), if_neg (by omega), if_neg (by omega), if_neg (by omega),
    if_neg (by omega)]
  by_cases hfirst : n / 262144 = 0
  · exact ⟨0x90, 0xBF, by rw [if_pos (by omega), hfirst], by omega, by omega⟩
  rw [if_neg (by omega)]
  by_cases hlast : n / 262144 = 4
  · exact ⟨0x80, 0x8F, by rw [if_neg (by omega), if_pos (by omega), hlast], by omega, by omega⟩
  · exact ⟨0x80, 0xBF, by rw [if_pos (by omega), Nat.add_sub_cancel_left], by omega, by omega⟩

theorem decodeFrom_encodeChar (c : Char) :
    decodeFrom none (encodeChar c ++ rest) = some c :: decodeFrom none rest := by
  obtain ⟨hbound, hsurrogate⟩ := toNat_bounds c
  have hlast : c.toNat % 64 < 64 := Nat.mod_lt _ (by decide)
  have hmiddle : c.toNat / 64 % 64 < 64 := Nat.mod_lt _ (by decide)
  rw [encodeChar]
  by_cases hone : c.toNat < 0x80
  · rw [if_pos hone, List.singleton_append, decodeFrom_whole rest hone, Char.ofNat_toNat]
  rw [if_neg hone]
  by_cases htwo : c.toNat < 0x800
  · have hstart : start (0xC0 + c.toNat / 64) = .longer ⟨1, 0x80, 0xBF, c.toNat / 64⟩ := by
      rw [start, if_neg (by omega), if_pos (by omega), Nat.add_sub_cancel_left]
    have hsum : 64 * (c.toNat / 64) + c.toNat % 64 = c.toNat := by omega
    rw [if_pos htwo, List.cons_append, List.singleton_append, decodeFrom_longer _ (by omega) hstart,
      decodeFrom_last rest hlast (by omega) (by omega), hsum, Char.ofNat_toNat]
  rw [if_neg htwo]
  by_cases hthree : c.toNat < 0x10000
  · obtain ⟨low, high, hstart, hlow, hhigh⟩ := start_three (by omega) hthree hsurrogate
    have hsum : 64 * (64 * (c.toNat / 4096) + c.toNat / 64 % 64) + c.toNat % 64 = c.toNat := by omega
    rw [if_pos hthree, List.cons_append, List.cons_append, List.singleton_append,
      decodeFrom_longer _ (by omega) hstart, decodeFrom_more _ (by decide) hmiddle hlow hhigh,
      decodeFrom_last rest hlast (by omega) (by omega), hsum, Char.ofNat_toNat]
  · obtain ⟨low, high, hstart, hlow, hhigh⟩ := start_four (by omega) hbound
    have hsum : 64 * (64 * (64 * (c.toNat / 262144) + c.toNat / 4096 % 64) + c.toNat / 64 % 64) +
        c.toNat % 64 = c.toNat := by omega
    rw [if_neg hthree, List.cons_append, List.cons_append, List.cons_append, List.singleton_append,
      decodeFrom_longer _ (by omega) hstart,
      decodeFrom_more _ (by decide) (Nat.mod_lt _ (by decide)) hlow hhigh,
      decodeFrom_more _ (by decide) hmiddle (by omega) (by omega),
      decodeFrom_last rest hlast (by omega) (by omega), hsum, Char.ofNat_toNat]

theorem decode_encode (s : List Char) : decode (encode s) = s.map some := by
  rw [decode]
  induction s with
  | nil => rfl
  | cons c s ih =>
    rw [encode, List.flatMap_cons, decodeFrom_encodeChar, List.map_cons, ← ih]
    rfl

theorem lenient_encode (s : List Char) : lenient (encode s) = s := by
  rw [lenient, decode_encode, List.map_map]
  exact List.map_id s

/-- What the first octets of a text encode is its first character. -/
theorem head?_eq_of_prefix {s : List Char} {front : Octets} {first : Option Char}
    (hfront : front <+: encode s)
    (hdecode : ∀ rest, (decode (front ++ rest)).head? = some first) :
    ∃ c, first = some c ∧ s.head? = some c := by
  obtain ⟨rest, hrest⟩ := hfront
  have hfirst := hdecode rest
  rw [hrest, decode_encode, List.head?_map, Option.map_eq_some_iff] at hfirst
  obtain ⟨c, hc, rfl⟩ := hfirst
  exact ⟨c, rfl, hc⟩

/-- No text starts with an octet that encodes nothing, and only the null character is written as zero. -/
theorem not_prefix_encode {s : List Char} {octet : UInt8} (hoctet : octet ∈ [0xFF, 0xFE, 0x00])
    (hnull : s.head? ≠ some '\x00') (more : Octets) : ¬ octet :: more <+: encode s := by
  intro hprefix
  simp only [List.mem_cons, List.not_mem_nil, or_false] at hoctet
  have hread (first : Option Char)
      (hdecode : ∀ rest, (decode (octet :: more ++ rest)).head? = some first) :
      ∃ c, first = some c ∧ s.head? = some c := head?_eq_of_prefix hprefix hdecode
  rcases hoctet with rfl | rfl | rfl
  · obtain ⟨c, hnone, -⟩ := hread none fun _ => rfl
    cases hnone
  · obtain ⟨c, hnone, -⟩ := hread none fun _ => rfl
    cases hnone
  · obtain ⟨c, hzero, hfirst⟩ := hread (some '\x00') fun _ => rfl
    cases hzero
    exact hnull hfirst

end Utf8

/-! ## UTF-16 and UTF-32 -/

namespace ByteOrder

variable (order : ByteOrder) {n : Nat}

theorem unit_two (h : n < 0x10000) :
    ∃ a b, order.unit 2 n = [a, b] ∧ order.value [a, b] = n := by
  have hlow : n % 256 < 256 := Nat.mod_lt _ (by decide)
  have hhigh : n / 256 % 256 < 256 := Nat.mod_lt _ (by decide)
  cases order with
  | little =>
    refine ⟨(n % 256).toUInt8, (n / 256 % 256).toUInt8, by simp [unit, List.range_succ], ?_⟩
    simp only [value, List.foldr, toNat_toUInt8 hlow, toNat_toUInt8 hhigh]
    omega
  | big =>
    refine ⟨(n / 256 % 256).toUInt8, (n % 256).toUInt8, by simp [unit, List.range_succ], ?_⟩
    simp only [value, List.foldl, toNat_toUInt8 hlow, toNat_toUInt8 hhigh]
    omega

theorem unit_four (h : n < 0x100000000) :
    ∃ a b c d, order.unit 4 n = [a, b, c, d] ∧ order.value [a, b, c, d] = n := by
  have hbyte (k : Nat) : (k % 256).toUInt8.toNat = k % 256 :=
    toNat_toUInt8 (Nat.mod_lt _ (by decide))
  cases order with
  | little =>
    refine ⟨(n % 256).toUInt8, (n / 256 % 256).toUInt8, (n / 65536 % 256).toUInt8,
      (n / 16777216 % 256).toUInt8, by simp [unit, List.range_succ], ?_⟩
    simp only [value, List.foldr, hbyte]
    omega
  | big =>
    refine ⟨(n / 16777216 % 256).toUInt8, (n / 65536 % 256).toUInt8, (n / 256 % 256).toUInt8,
      (n % 256).toUInt8, by simp [unit, List.range_succ], ?_⟩
    simp only [value, List.foldl, hbyte]
    omega

end ByteOrder

namespace Utf16

variable (order : ByteOrder) {a b d e : UInt8} (rest : Octets)

/-- A code unit that is a character of its own. -/
theorem lenient_unit (hhigh : isHighSurrogate (order.value [a, b]) = false)
    (hlow : isLowSurrogate (order.value [a, b]) = false) :
    lenient order (a :: b :: rest) = Char.ofNat (order.value [a, b]) :: lenient order rest := by
  rw [lenient.eq_def]
  simp only [hhigh, hlow, Bool.false_eq_true, if_false]

/-- Two code units that make a character. -/
theorem lenient_pair (hhigh : isHighSurrogate (order.value [a, b]) = true)
    (hlow : isLowSurrogate (order.value [d, e]) = true) :
    lenient order (a :: b :: d :: e :: rest) =
      Char.ofNat (0x10000 + 0x400 * (order.value [a, b] - 0xD800) + (order.value [d, e] - 0xDC00)) ::
        lenient order rest := by
  rw [lenient.eq_def]
  simp only [hhigh, hlow, if_true]

theorem lenient_encodeChar (c : Char) :
    lenient order (encodeChar order c ++ rest) = c :: lenient order rest := by
  obtain ⟨hbound, hsurrogate⟩ := toNat_bounds c
  rw [encodeChar]
  by_cases hsmall : c.toNat < 0x10000
  · obtain ⟨a, b, hunit, hvalue⟩ := order.unit_two hsmall
    have hhigh : isHighSurrogate (order.value [a, b]) = false := by
      rw [hvalue, isHighSurrogate, Bool.and_eq_false_iff, decide_eq_false_iff_not,
        decide_eq_false_iff_not]
      omega
    have hlow : isLowSurrogate (order.value [a, b]) = false := by
      rw [hvalue, isLowSurrogate, Bool.and_eq_false_iff, decide_eq_false_iff_not,
        decide_eq_false_iff_not]
      omega
    rw [if_pos hsmall, hunit, List.cons_append, List.singleton_append, lenient_unit order rest hhigh hlow,
      hvalue, Char.ofNat_toNat]
  · obtain ⟨a, b, hfirst, hvalue⟩ :=
      order.unit_two (by omega : 0xD800 + (c.toNat - 0x10000) / 0x400 < 0x10000)
    obtain ⟨d, e, hsecond, hvalue'⟩ :=
      order.unit_two (by omega : 0xDC00 + (c.toNat - 0x10000) % 0x400 < 0x10000)
    have hhigh : isHighSurrogate (order.value [a, b]) = true := by
      rw [hvalue, isHighSurrogate, Bool.and_eq_true, decide_eq_true_eq, decide_eq_true_eq]
      omega
    have hlow : isLowSurrogate (order.value [d, e]) = true := by
      rw [hvalue', isLowSurrogate, Bool.and_eq_true, decide_eq_true_eq, decide_eq_true_eq]
      omega
    have hsum : 0x10000 + 0x400 * (0xD800 + (c.toNat - 0x10000) / 0x400 - 0xD800) +
        (0xDC00 + (c.toNat - 0x10000) % 0x400 - 0xDC00) = c.toNat := by omega
    rw [if_neg hsmall, hfirst, hsecond, List.append_assoc, List.cons_append, List.singleton_append,
      List.cons_append, List.singleton_append, lenient_pair order rest hhigh hlow, hvalue, hvalue', hsum,
      Char.ofNat_toNat]

theorem lenient_encode (s : List Char) : lenient order (encode order s) = s := by
  induction s with
  | nil => rfl
  | cons c s ih =>
    rw [encode, List.flatMap_cons, lenient_encodeChar]
    exact congrArg (List.cons c) ih

end Utf16

namespace Utf32

variable (order : ByteOrder)

theorem lenient_encode (s : List Char) : lenient order (encode order s) = s := by
  induction s with
  | nil => rfl
  | cons c s ih =>
    obtain ⟨a, b, d, e, hunit, hvalue⟩ :=
      order.unit_four (Nat.lt_trans (toNat_bounds c).1 (by decide))
    have hvalid : c.toNat.isValidChar := c.valid
    rw [encode, List.flatMap_cons, hunit]
    simp only [List.cons_append, List.nil_append, lenient, hvalue, if_pos hvalid, Char.ofNat_toNat]
    exact congrArg (List.cons c) ih

end Utf32

/-! ## Byte order marks -/

/-- The character that a file may start with as a mark of its encoding. -/
def byteOrderMark : Char := '\uFEFF'

/-- The ways to write a text into a file. -/
inductive Encoding where
  | utf8
  | utf8Marked
  | utf16 (order : ByteOrder)
  | utf32 (order : ByteOrder)
  deriving DecidableEq

/-- What a file with the text holds.  All encodings but plain UTF-8 start with the mark. -/
def Encoding.octets : Encoding → List Char → Octets
  | utf8, s => s.flatMap String.utf8EncodeChar
  | utf8Marked, s => (byteOrderMark :: s).flatMap String.utf8EncodeChar
  | utf16 order, s => Utf16.encode order (byteOrderMark :: s)
  | utf32 order, s => Utf32.encode order (byteOrderMark :: s)

theorem afterMark?_eq_none {marks : List (Octets × ByteOrder)} {octets : Octets}
    (h : ∀ mark ∈ marks, ¬ mark.1 <+: octets) : afterMark? marks octets = none := by
  rw [afterMark?, Option.map_eq_none_iff, List.find?_eq_none]
  intro mark hmark
  rw [List.isPrefixOf_iff_prefix]
  exact h mark hmark

/-- UTF-8 is not taken for UTF-16 or UTF-32. -/
theorem decodeMarked_utf8 {s : List Char} (hnull : s.head? ≠ some '\x00') :
    decodeMarked (Utf8.encode s) = decodeUtf8 (Utf8.encode s) := by
  have hnone (octet : UInt8) (more : Octets) (hoctet : octet ∈ [0xFF, 0xFE, 0x00]) :
      ¬ octet :: more <+: Utf8.encode s := Utf8.not_prefix_encode hoctet hnull more
  have hwide : afterMark? utf32Marks (Utf8.encode s) = none :=
    afterMark?_eq_none (List.forall_mem_cons.2
      ⟨hnone _ _ (by decide), List.forall_mem_singleton.2 (hnone _ _ (by decide))⟩)
  have hnarrow : afterMark? utf16Marks (Utf8.encode s) = none :=
    afterMark?_eq_none (List.forall_mem_cons.2
      ⟨hnone _ _ (by decide), List.forall_mem_singleton.2 (hnone _ _ (by decide))⟩)
  rw [decodeMarked, hwide, hnarrow]

theorem withoutUtf8Mark_encode {s : List Char} (hmark : s.head? ≠ some byteOrderMark) :
    withoutUtf8Mark (Utf8.encode s) = Utf8.encode s := by
  have hnone : ¬ utf8Mark.isPrefixOf (Utf8.encode s) = true := by
    rw [List.isPrefixOf_iff_prefix]
    intro hprefix
    have hdecode (rest : Octets) :
        (Utf8.decode (utf8Mark ++ rest)).head? = some (some byteOrderMark) := rfl
    obtain ⟨c, hc, hfirst⟩ := Utf8.head?_eq_of_prefix hprefix hdecode
    cases hc
    exact hmark hfirst
  rw [withoutUtf8Mark, if_neg hnone]

theorem decodeUtf8_unmarked {s : List Char} (hmark : s.head? ≠ some byteOrderMark) :
    decodeUtf8 (Utf8.encode s) = s := by
  rw [decodeUtf8, withoutUtf8Mark_encode hmark, Utf8.lenient_encode]

/-- One octet of the mark, or two, are no character. -/
theorem encode_eq_nil_of_cut {s : List Char} (hlength : (Utf8.encode s).length < 3)
    (hmarked : Utf8.encode s <+: utf8Mark) : Utf8.encode s = [] := by
  have hfront := List.prefix_iff_eq_take.mp hmarked
  have hdecode := Utf8.decode_encode s
  generalize (Utf8.encode s).length = count at hfront hlength
  rw [hfront] at hdecode ⊢
  have hcut : count = 0 ∨ none ∈ Utf8.decode (utf8Mark.take count) := by
    match count with
    | 0 => exact .inl rfl
    | 1 => exact .inr (by decide)
    | 2 => exact .inr (by decide)
  rcases hcut with rfl | hnone
  · rfl
  · rw [hdecode] at hnone
    simp at hnone

/-- A file that holds a text in UTF-8 is read as the text, with line feeds for its line ends. -/
theorem readTextFile?_encode {s : List Char} (hmark : s.head? ≠ some byteOrderMark) :
    readTextFile? (Utf8.encode s) = some (normalizeNewlines s) := by
  have hcontent : unmarkedContent (Utf8.encode s) = Utf8.encode s := by
    rw [unmarkedContent, withoutUtf8Mark_encode hmark, ite_eq_right_iff, Bool.and_eq_true,
      decide_eq_true_eq, List.isPrefixOf_iff_prefix]
    exact fun ⟨hlength, hmarked⟩ => (encode_eq_nil_of_cut hlength hmarked).symm
  have hstrict : Utf8.strict? (Utf8.encode s) = some s := by
    have hwhole : s.mapM (fun c => (pure (id c) : Option Char)) = some (s.map id) := List.mapM_pure
    rw [List.map_id] at hwhole
    rw [Utf8.strict?, Utf8.decode_encode, List.mapM_map]
    exact hwhole
  rw [readTextFile?, hcontent, hstrict, Option.map_some]

theorem decodeUtf8_marked (s : List Char) : decodeUtf8 (Utf8.encode (byteOrderMark :: s)) = s := by
  have hmark : Utf8.encode (byteOrderMark :: s) = utf8Mark ++ Utf8.encode s := rfl
  have hprefix : utf8Mark.isPrefixOf (utf8Mark ++ Utf8.encode s) = true := by
    rw [List.isPrefixOf_iff_prefix]
    exact List.prefix_append _ _
  rw [decodeUtf8, withoutUtf8Mark, hmark, if_pos hprefix]
  exact Utf8.lenient_encode s

/-- UTF-16 is not taken for UTF-32: behind its mark in little endian come two zeros only for the null
character. -/
theorem decodeMarked_utf16 (order : ByteOrder) {s : List Char} (hnull : s.head? ≠ some '\x00') :
    decodeMarked (Utf16.encode order (byteOrderMark :: s)) = s := by
  cases order with
  | little =>
    have hsplit : Utf16.encode .little (byteOrderMark :: s) =
        0xFF :: 0xFE :: Utf16.encode .little s := rfl
    have hwide : afterMark? utf32Marks (Utf16.encode .little (byteOrderMark :: s)) = none := by
      refine afterMark?_eq_none (List.forall_mem_cons.2 ⟨?_, List.forall_mem_singleton.2 ?_⟩)
      · rw [hsplit, List.prefix_cons_inj, List.prefix_cons_inj]
        rintro ⟨rest, hrest⟩
        have hread := Utf16.lenient_unit .little (a := 0x00) (b := 0x00) rest rfl rfl
        have hzero : Utf16.encode .little s = 0x00 :: 0x00 :: rest := hrest.symm
        rw [← hzero, Utf16.lenient_encode] at hread
        exact hnull (congrArg List.head? hread)
      · rw [hsplit, List.cons_prefix_cons]
        exact fun hprefix => absurd hprefix.1 (by decide)
    rw [decodeMarked, hwide]
    exact Utf16.lenient_encode .little s
  | big =>
    exact Utf16.lenient_encode .big s

theorem decodeMarked_utf32 (order : ByteOrder) (s : List Char) :
    decodeMarked (Utf32.encode order (byteOrderMark :: s)) = s := by
  cases order with
  | little => exact Utf32.lenient_encode .little s
  | big => exact Utf32.lenient_encode .big s

/-- Text in any of the encodings is decoded to what it was. -/
theorem decodeMarked_octets (encoding : Encoding) {s : List Char} (hnull : s.head? ≠ some '\x00')
    (hmark : s.head? ≠ some byteOrderMark) : decodeMarked (encoding.octets s) = s := by
  cases encoding with
  | utf8 =>
    rw [Encoding.octets, ← Utf8.encode_eq_flatMap, decodeMarked_utf8 hnull, decodeUtf8_unmarked hmark]
  | utf8Marked =>
    have hmarked : (byteOrderMark :: s).head? ≠ some '\x00' := by
      rw [List.head?_cons]
      decide
    rw [Encoding.octets, ← Utf8.encode_eq_flatMap, decodeMarked_utf8 hmarked, decodeUtf8_marked]
  | utf16 order => exact decodeMarked_utf16 order hnull
  | utf32 order => exact decodeMarked_utf32 order s

end DscAudit.Text

/-! ## Files -/

namespace DscAudit.Check.Resource

open Text (Encoding byteOrderMark)

/-- A file that holds a text in any of the encodings is read as the text. -/
theorem readText_encoded (encoding : Encoding) {s : List Char} (hnull : s.head? ≠ some '\x00')
    (hmark : s.head? ≠ some byteOrderMark) {host : Host} {path : Path} (hpath : path.hasNull = false)
    (hfile : host.volume.read host.directory path = .ok (encoding.octets s)) :
    (readText path).exec host = (.ok s, host) := by
  have hread : (Action.readFile path).exec host = (.ok (encoding.octets s), host) := by
    rw [Action.readFile, if_neg (by rw [hpath]; exact Bool.false_ne_true), Action.exec_get_bind, hfile]
    rfl
  rw [readText, Action.exec_bind_ok hread, Text.decodeMarked_octets encoding hnull hmark]
  rfl

/-- A file with a character beyond the basic plane, in little endian. -/
def wideHost : Host :=
  .holding ⟨[(["f"], .file [0xFF, 0xFE, 0x3D, 0xD8, 0x00, 0xDE, 0x61, 0x00])]⟩ ⟨.slash, []⟩

theorem readText_encoded_wide :
    ['😀', 'a'].head? ≠ some '\x00' ∧ ['😀', 'a'].head? ≠ some byteOrderMark ∧
    Path.hasNull ⟨.relative, ["f"]⟩ = false ∧
    wideHost.volume.read wideHost.directory ⟨.relative, ["f"]⟩ =
      .ok (Encoding.octets (.utf16 .little) ['😀', 'a']) ∧
    (readText ⟨.relative, ["f"]⟩).exec wideHost = (.ok ['😀', 'a'], wideHost) := by
  have hnull : ['😀', 'a'].head? ≠ some '\x00' := by decide
  have hmark : ['😀', 'a'].head? ≠ some byteOrderMark := by decide
  have hpath : Path.hasNull ⟨.relative, ["f"]⟩ = false := by decide
  have hfile : wideHost.volume.read wideHost.directory ⟨.relative, ["f"]⟩ =
      .ok (Encoding.octets (.utf16 .little) ['😀', 'a']) := by rfl
  exact ⟨hnull, hmark, hpath, hfile, readText_encoded (.utf16 .little) hnull hmark hpath hfile⟩

end DscAudit.Check.Resource
