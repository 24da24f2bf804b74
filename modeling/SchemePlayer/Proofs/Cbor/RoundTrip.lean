import SchemePlayer.Cbor.Parser
import SchemePlayer.Proofs.Number.Narrow

/-!
# Reading what was written

The reader takes more than the encoder writes: open lengths, long forms of short numbers, chunks.
On what the encoder does write it is an inverse, as long as the item keeps to the limits of the
reader. An item is written in front of other bytes and must leave those alone, so every statement
here has a `rest`:

- `readHead?_head`: a head is read back with its number, whatever form was the shortest.
- `item?_encodeFloat`: a double is read back as itself, in whichever of three formats it was put.
- `Readable`: the items within the limits, by the number of arrays and maps around them.
- `parse?_encode`: **a readable item is read back as itself.**
-/

namespace SchemePlayer.Cbor

open Binary64

/-! ### Heads -/

@[simp] theorem length_bigEndian (width n : Nat) : (bigEndian width n).length = width := by
  induction width generalizing n with
  | zero => rfl
  | succ width ih => simp [bigEndian, ih]

@[simp] theorem ofBigEndian_concat (bs : Text) (b : UInt8) :
    ofBigEndian (bs ++ [b]) = ofBigEndian bs * 256 + b.toNat := by
  simp [ofBigEndian]

/-- The bytes of a number hold it, if there are enough of them. -/
theorem ofBigEndian_bigEndian {width n : Nat} (h : n < 256 ^ width) :
    ofBigEndian (bigEndian width n) = n := by
  induction width generalizing n with
  | zero =>
    obtain rfl : n = 0 := by simpa using h
    rfl
  | succ width ih =>
    have hhigh : n / 256 < 256 ^ width := by
      rw [Nat.div_lt_iff_lt_mul (by norm_num), ← pow_succ]
      exact h
    have hlow : (n % 256).toUInt8.toNat = n % 256 :=
      UInt8.toNat_ofNat_of_lt' (show n % 256 < 256 by omega)
    rw [bigEndian, ofBigEndian_concat, ih hhigh, hlow]
    omega

/-- The first byte of an item gives back the two numbers in it. -/
theorem toNat_lead {major low : Nat} (hmajor : major < 8) (hlow : low < 32) :
    (major * 32 + low).toUInt8.toNat = major * 32 + low :=
  UInt8.toNat_ofNat_of_lt' (show major * 32 + low < 256 by omega)

theorem readHead?_short {major low : Nat} (hmajor : major < 8) (hlow : low < 24) (rest : Text) :
    readHead? ((major * 32 + low).toUInt8 :: rest) = some (⟨major, low, low⟩, rest) := by
  have hdiv : (major * 32 + low) / 32 = major := by omega
  have hmod : (major * 32 + low) % 32 = low := by omega
  simp only [readHead?, toNat_lead hmajor (show low < 32 by omega), hdiv, hmod, if_pos hlow]

/-- A head whose number is in bytes of its own. -/
theorem readHead?_long {major low n : Nat} (hmajor : major < 8) (hlow : 24 ≤ low ∧ low < 28)
    (hn : n < 256 ^ argumentSize low) (hsimple : major = 7 → low ≠ 24) (rest : Text) :
    readHead? ((major * 32 + low).toUInt8 :: (bigEndian (argumentSize low) n ++ rest)) =
      some (⟨major, low, n⟩, rest) := by
  have hdiv : (major * 32 + low) / 32 = major := by omega
  have hmod : (major * 32 + low) % 32 = low := by omega
  have henough : ¬(bigEndian (argumentSize low) n ++ rest).length < argumentSize low := by
    simp
  have htake : (bigEndian (argumentSize low) n ++ rest).take (argumentSize low) =
      bigEndian (argumentSize low) n := by
    rw [List.take_left' (length_bigEndian _ _)]
  have hdrop : (bigEndian (argumentSize low) n ++ rest).drop (argumentSize low) = rest := by
    rw [List.drop_left' (length_bigEndian _ _)]
  simp only [readHead?, toNat_lead hmajor (show low < 32 by omega), hdiv, hmod,
    if_neg (show ¬low < 24 by omega), if_neg (show ¬low = 31 by omega),
    if_neg (show ¬28 ≤ low by omega), if_neg henough, htake, hdrop, ofBigEndian_bigEndian hn]
  rw [if_neg (fun h => hsimple h.1 h.2.1)]

/-- **A head is read back with its number**, and its length is not open. -/
theorem readHead?_head {major n : Nat} (hmajor : major < 7) (hn : n < twoTo 64) (rest : Text) :
    ∃ low, low ≠ 31 ∧ readHead? (head major n ++ rest) = some (⟨major, low, n⟩, rest) := by
  have hlong : ∀ low, 24 ≤ low ∧ low < 28 → n < 256 ^ argumentSize low →
      low ≠ 31 ∧ readHead? ((major * 32 + low).toUInt8 ::
        bigEndian (argumentSize low) n ++ rest) = some (⟨major, low, n⟩, rest) := by
    intro low hlow hfits
    exact ⟨by omega, readHead?_long (by omega) hlow hfits (by omega) rest⟩
  simp only [twoTo, Nat.pow_eq, Nat.reducePow] at hn
  unfold head
  simp only [twoTo, Nat.pow_eq, Nat.reducePow]
  -- the shortest form that holds the number
  split
  · rename_i hshort
    exact ⟨n, by omega, readHead?_short (by omega) hshort rest⟩
  split
  · rename_i hfits
    exact ⟨24, hlong 24 (by omega) (by simpa [argumentSize] using hfits)⟩
  split
  · rename_i hfits
    exact ⟨25, hlong 25 (by omega) (by simpa [argumentSize] using hfits)⟩
  split
  · rename_i hfits
    exact ⟨26, hlong 26 (by omega) (by simpa [argumentSize] using hfits)⟩
  · exact ⟨27, hlong 27 (by omega) (by simpa [argumentSize] using hn)⟩

theorem length_head_pos (major n : Nat) : 0 < (head major n).length := by
  unfold head
  dsimp only
  split_ifs <;> simp

theorem take?_append (b rest : Text) : take? b.length (b ++ rest) = some (b, rest) := by
  simp [take?]

/-! ### Doubles -/

/-- A double in one of the three formats. -/
theorem item?_of_float {low n : Nat} {x : Float} (hlow : 25 ≤ low ∧ low < 28)
    (hn : n < 256 ^ argumentSize low) (hx : ofSimple ⟨7, low, n⟩ = float x) (fuel depth : Nat)
    (rest : Text) :
    item? (fuel + 1) depth
      ((7 * 32 + low).toUInt8 :: bigEndian (argumentSize low) n ++ rest) =
        some (float x, rest) := by
  rw [item?, List.cons_append,
    readHead?_long (by norm_num) (by omega) hn (by omega) rest]
  simp only [hx]

/-- **A double is read back as itself.** -/
theorem item?_encodeFloat (x : Float) (fuel depth : Nat) (rest : Text) :
    item? (fuel + 1) depth (encodeFloat x ++ rest) = some (float x, rest) := by
  unfold encodeFloat
  split
  · rename_i hnan
    have hx : ofSimple ⟨7, 25, 0x7E00⟩ = float x := by
      rw [eq_nan_of_isNaN hnan]
      rfl
    exact item?_of_float (by omega) (by decide) hx fuel depth rest
  rename_i hnumber
  split
  · rename_i hinf
    have hx : ofSimple ⟨7, 25, if isNegative x then 0xFC00 else 0x7C00⟩ = float x := by
      conv_rhs => rw [← withSign_infinity hinf]
      cases isNegative x <;> rfl
    have hbytes : [0xF9, if isNegative x then 0xFC else 0x7C, 0x00] =
        (7 * 32 + 25).toUInt8 :: bigEndian 2 (if isNegative x then 0xFC00 else 0x7C00) := by
      split <;> rfl
    rw [hbytes]
    exact item?_of_float (by omega) (by split <;> decide) hx fuel depth rest
  rename_i hbounded
  have hfinite : Finite x := ⟨by simpa using hnumber, by simpa using hbounded⟩
  split
  · rename_i bits hbits
    obtain ⟨hdecode, hlt⟩ := NarrowFormat.decode_of_encode? hfinite (by decide) hbits
    have hx : ofSimple ⟨7, 25, bits⟩ = float x := by rw [← hdecode]; rfl
    exact item?_of_float (by omega) hlt hx fuel depth rest
  split
  · rename_i bits hbits
    obtain ⟨hdecode, hlt⟩ := NarrowFormat.decode_of_encode? hfinite (by decide) hbits
    have hx : ofSimple ⟨7, 26, bits⟩ = float x := by rw [← hdecode]; rfl
    exact item?_of_float (by omega) hlt hx fuel depth rest
  · have hword : x.toBits.toNat.toUInt64 = x.toBits := UInt64.ofNat_toNat
    have hx : ofSimple ⟨7, 27, x.toBits.toNat⟩ = float x := by
      show float (Float.ofBits x.toBits.toNat.toUInt64) = float x
      rw [hword, Float.ofBits_toBits]
    exact item?_of_float (by omega) x.toBits.toNat_lt hx fuel depth rest

theorem length_encodeFloat_pos (x : Float) : 0 < (encodeFloat x).length := by
  unfold encodeFloat
  split
  · simp
  split
  · simp
  split
  · simp
  split <;> simp

/-! ### Items -/

/-- An item that the reader takes with `depth` arrays and maps around it: numbers and lengths fit
eight bytes, arrays and maps are not too long and not too deep. -/
inductive Readable : Nat → Cbor → Prop
  | unsigned {depth n : Nat} (h : n < twoTo 64) : Readable depth (unsigned n)
  | negative {depth n : Nat} (h : n < twoTo 64) : Readable depth (negative n)
  | bytes {depth : Nat} {b : Text} (h : b.length < twoTo 64) : Readable depth (bytes b)
  | text {depth : Nat} {t : Text} (h : t.length < twoTo 64) : Readable depth (ofText t)
  | float {depth : Nat} (x : Float) : Readable depth (float x)
  | array {depth : Nat} {items : List Cbor} (hdepth : depth < maxDepth)
      (hcount : items.length ≤ maxCount) (hitems : ∀ i ∈ items, Readable (depth + 1) i) :
      Readable depth (array items)
  | map {depth : Nat} {pairs : List (Cbor × Cbor)} (hdepth : depth < maxDepth)
      (hcount : pairs.length ≤ maxCount) (hkeys : ∀ p ∈ pairs, Readable (depth + 1) p.1)
      (hvalues : ∀ p ∈ pairs, Readable (depth + 1) p.2) : Readable depth (map pairs)

/-- An item comes back from the reader as it is, when there is fuel for every byte twice. -/
def ReadBack (depth : Nat) (c : Cbor) : Prop :=
  ∀ fuel rest, 2 * c.encode.length ≤ fuel + 1 →
    item? (fuel + 1) depth (c.encode ++ rest) = some (c, rest)

theorem length_encode_pos (c : Cbor) : 0 < c.encode.length := by
  cases c with
  | float x => exact length_encodeFloat_pos x
  | unsigned n => exact length_head_pos 0 n
  | negative n => exact length_head_pos 1 n
  | simple n => exact length_head_pos 7 n
  | bytes b => exact List.length_append ▸ Nat.add_pos_left (length_head_pos 2 _) _
  | text chunks => exact List.length_append ▸ Nat.add_pos_left (length_head_pos 3 _) _
  | array items => exact List.length_append ▸ Nat.add_pos_left (length_head_pos 4 _) _
  | map pairs => exact List.length_append ▸ Nat.add_pos_left (length_head_pos 5 _) _
  | tag number content => exact List.length_append ▸ Nat.add_pos_left (length_head_pos 6 _) _

/-- Fuel for every byte twice is enough for the items of an array, each of which takes one more
and has a byte at least. -/
theorem items?_encodeItems {depth : Nat} {items : List Cbor} (h : ∀ i ∈ items, ReadBack depth i)
    {fuel : Nat} (hfuel : 2 * (encodeItems items).length + 1 ≤ fuel) (rest : Text) :
    items? fuel depth items.length (encodeItems items ++ rest) = some (items, rest) := by
  induction items generalizing fuel with
  | nil => simp only [encodeItems, List.length_nil, List.nil_append, items?]
  | cons item items ih =>
    have hpos := length_encode_pos item
    simp only [encodeItems, List.length_append] at hfuel
    obtain ⟨fuel, rfl⟩ : ∃ k, fuel = k + 2 := ⟨fuel - 2, by omega⟩
    have hitem := h item List.mem_cons_self fuel (encodeItems items ++ rest) (by omega)
    have hitems := @ih (fun i hi => h i (List.mem_cons_of_mem _ hi)) (fuel + 1) (by omega)
    simp only [encodeItems, List.append_assoc, List.length_cons, items?, hitem, hitems]

/-- The keys and values of a map as the items they are written as. -/
def flat (pairs : List (Cbor × Cbor)) : List Cbor := pairs.flatMap fun p => [p.1, p.2]

theorem encodePairs_eq (pairs : List (Cbor × Cbor)) :
    encodePairs pairs = encodeItems (flat pairs) := by
  induction pairs with
  | nil => rfl
  | cons p pairs ih =>
    obtain ⟨key, value⟩ := p
    simp only [encodePairs, ih, flat, List.flatMap_cons, List.cons_append, List.nil_append,
      encodeItems, List.append_assoc]

theorem length_flat (pairs : List (Cbor × Cbor)) : (flat pairs).length = 2 * pairs.length := by
  induction pairs with
  | nil => rfl
  | cons p pairs ih =>
    simp only [flat, List.flatMap_cons, List.length_append, List.length_cons, List.length_nil]
      at ih ⊢
    omega

theorem pairs?_flat (pairs : List (Cbor × Cbor)) : pairs? (flat pairs) = some pairs := by
  induction pairs with
  | nil => rfl
  | cons p pairs ih =>
    show (pairs? (flat pairs)).map ((p.1, p.2) :: ·) = _
    rw [ih]
    rfl

/-- **A readable item is read back.** -/
theorem Readable.readBack {depth : Nat} {c : Cbor} (h : Readable depth c) : ReadBack depth c := by
  induction h with
  | unsigned hn =>
    intro fuel rest _
    obtain ⟨low, -, hhead⟩ := @readHead?_head 0 _ (by omega) hn rest
    simp only [encode, item?, hhead]
  | negative hn =>
    intro fuel rest _
    obtain ⟨low, -, hhead⟩ := @readHead?_head 1 _ (by omega) hn rest
    simp only [encode, item?, hhead]
  | @bytes _ b hb =>
    intro fuel rest _
    obtain ⟨low, hlow, hhead⟩ := @readHead?_head 2 _ (by omega) hb (b ++ rest)
    simp [encode, item?, List.append_assoc, hhead, Head.isOpen, hlow, take?_append]
  | @text _ t ht =>
    intro fuel rest _
    obtain ⟨low, hlow, hhead⟩ := @readHead?_head 3 _ (by omega) ht (t ++ rest)
    simp [ofText, encode, item?, List.append_assoc, hhead, Head.isOpen, hlow, take?_append]
  | float x =>
    intro fuel rest _
    exact item?_encodeFloat x fuel _ rest
  | @array _ items hdepth hcount _ ih =>
    intro fuel rest hfuel
    have hlong : items.length < twoTo 64 := Nat.lt_of_le_of_lt hcount (by decide)
    obtain ⟨low, hlow, hhead⟩ := @readHead?_head 4 _ (by omega) hlong (encodeItems items ++ rest)
    have hpos := length_head_pos 4 items.length
    simp only [encode, List.length_append] at hfuel
    have hitems := items?_encodeItems ih (show _ ≤ fuel by omega) rest
    simp [encode, item?, List.append_assoc, hhead, Head.isOpen, hlow, hitems, container?, hcount,
      Nat.not_le.mpr hdepth, Nat.not_lt.mpr hcount]
  | @map depth pairs hdepth hcount _ _ ihkeys ihvalues =>
    intro fuel rest hfuel
    have hlong : pairs.length < twoTo 64 := Nat.lt_of_le_of_lt hcount (by decide)
    obtain ⟨low, hlow, hhead⟩ := @readHead?_head 5 _ (by omega) hlong (encodePairs pairs ++ rest)
    have hpos := length_head_pos 5 pairs.length
    simp only [encode, List.length_append, encodePairs_eq] at hfuel
    have hflat : ∀ i ∈ flat pairs, ReadBack (depth + 1) i := by
      intro i hi
      obtain ⟨p, hp, hip⟩ := List.mem_flatMap.mp hi
      rcases List.mem_pair.mp hip with rfl | rfl
      · exact ihkeys p hp
      · exact ihvalues p hp
    have hitems := items?_encodeItems hflat (show _ ≤ fuel by omega) rest
    rw [length_flat, ← encodePairs_eq] at hitems
    simp [encode, item?, List.append_assoc, hhead, Head.isOpen, hlow, hitems, container?, hcount,
      Nat.not_le.mpr hdepth, Nat.not_lt.mpr hcount, pairs?_flat]

/-- **A readable item is read back as itself** from its encoding. -/
theorem parse?_encode {c : Cbor} (h : Readable 0 c) : parse? c.encode = some c := by
  have hitem := h.readBack (2 * c.encode.length + 1) [] (by omega)
  rw [List.append_nil] at hitem
  simp only [parse?, hitem]

end SchemePlayer.Cbor
