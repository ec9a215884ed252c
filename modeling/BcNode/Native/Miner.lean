import BcNode.Js.Values
import BcNode.Verified.Columns

/-!
# The native miner

`miner.rs` of the Rust crate hashes the fingerprints of the child blocks and combines
the digests with an exclusive or.  The digests are 64 hexadecimal digits each, and so
is the result.

`xor_hashes` decodes the zeros it starts with and does not decode the digests: it
takes the bytes of their text.  A text has twice as many of them as the decoded zeros,
and the zip in `xor` cuts it in half without a word.  So each digest goes in with the
codes of its first 32 characters, and `xorHashes_iff` says when this makes no
difference.  For a single digest that is never the case but for 64 threes.

The hexadecimal codec and BLAKE2 are crates and parameters here, as is the lower case
of a text.
-/

namespace BcNode.Native

open BcNode.Verified BcNode.Js

/-- The crates and the standard library behind the functions. -/
structure Crates where
  /-- `text.from_hex()`, `none` for an error. -/
  fromHex : String → Option (List UInt8)
  /-- `bytes.to_hex()`. -/
  toHex : List UInt8 → String
  /-- `blake2s(32, &[], bytes).as_bytes()`. -/
  blake2s : List UInt8 → List UInt8
  /-- `text.to_lowercase()`. -/
  toLowercase : String → String

/-- `text.as_bytes()`. -/
def asBytes (text : String) : List UInt8 := text.toList.flatMap String.utf8EncodeChar

/-- `xor`. -/
def xor {T : Type} [XorOp T] (a b : List T) : List T :=
  (a.zip b).map fun (b1, b2) => b1 ^^^ b2

/-- `HASH_ZER`. -/
def HASH_ZER : String :=
  "0000000000000000000000000000000000000000000000000000000000000000"

variable (crates : Crates)

/-- `create_ephemeral_hashes`. -/
def createEphemeralHashes (input : List String) : List String :=
  input.map fun origHash =>
    crates.toHex (crates.blake2s (asBytes (crates.toLowercase origHash)))

/-- `xor_hashes`; `none` is the panic of `unwrap`. -/
def xorHashes (input : List String) : Option String :=
  match crates.fromHex HASH_ZER with
  | none => none
  | some zeroHashVec =>
      some (crates.toHex (input.foldl (fun acc x => xor acc (asBytes x)) zeroHashVec))

/-! ## Hexadecimal text -/

/-- The bytes that pairs of hexadecimal digits stand for. -/
def hexValue (text : String) : List UInt8 := (hexBytes text.toList).map UInt8.ofNat

/-- Two digits in lower case for each byte. -/
def hexForm (bytes : List UInt8) : String :=
  String.ofList (bytes.flatMap fun byte =>
    [Nat.digitChar (byte.toNat / 16), Nat.digitChar (byte.toNat % 16)])

/-- A text of hexadecimal digits. -/
def IsHex (text : String) : Prop := ∀ c ∈ text.toList, (hexDigit? c).isSome = true

/-- A digest as text: 64 hexadecimal digits, in either case. -/
structure IsDigest (text : String) : Prop where
  length : text.toList.length = 64
  isHex : IsHex text

/-- What the crates promise. -/
structure Crates.Lawful : Prop where
  fromHex_eq : ∀ text, text.toList.length % 2 = 0 → IsHex text →
    crates.fromHex text = some (hexValue text)
  toHex_eq : ∀ bytes, crates.toHex bytes = hexForm bytes
  length_blake2s : ∀ bytes, (crates.blake2s bytes).length = 32

/-- The exclusive or of the bytes of all digests, place by place. -/
def xorOfDigests (input : List String) : List UInt8 :=
  (List.range 32).map (column (· ^^^ ·) 0 (input.map hexValue))

example : hexForm (xorOfDigests []) = HASH_ZER := by decide +kernel

/-- What is wrong about the bytes of a digest's text: the codes of its first 32
characters against the bytes it stands for. -/
def deviation (digest : String) : List UInt8 := xor (asBytes digest) (hexValue digest)

variable {crates}

theorem xor_eq_zipWith : @xor UInt8 _ = List.zipWith (· ^^^ ·) := by
  funext a b
  exact List.map_uncurry_zip_eq_zipWith

theorem length_hexBytes {cs : List Char} (hhex : ∀ c ∈ cs, (hexDigit? c).isSome = true) :
    (hexBytes cs).length = cs.length / 2 := by
  induction cs using hexBytes.induct with
  | case1 hi lo rest h l hlo hhi ih =>
      have hrest := ih fun c hc => hhex c (by simp [hc])
      rw [hexBytes, hhi, hlo]
      simp only [List.length_cons, hrest]
      omega
  | case2 hi lo rest hnone =>
      obtain ⟨h, hhi⟩ := Option.isSome_iff_exists.1 (hhex hi (by simp))
      obtain ⟨l, hlo⟩ := Option.isSome_iff_exists.1 (hhex lo (by simp))
      exact absurd hlo (hnone h l hhi)
  | case3 cs hshort =>
      cases cs with
      | nil => rfl
      | cons c cs =>
          cases cs with
          | nil => simp [hexBytes]
          | cons d cs => exact (hshort c d cs rfl).elim

/-- The codes of the hexadecimal digits and their values. -/
theorem hexDigit?_cases {c : Char} {value : Nat} (h : hexDigit? c = some value) :
    (48 ≤ c.toNat ∧ c.toNat ≤ 57 ∧ value = c.toNat - 48) ∨
      (97 ≤ c.toNat ∧ c.toNat ≤ 102 ∧ value = c.toNat - 97 + 10) ∨
      (65 ≤ c.toNat ∧ c.toNat ≤ 70 ∧ value = c.toNat - 65 + 10) := by
  rw [hexDigit?] at h
  split at h
  · next hrange => exact .inl ⟨hrange.1, hrange.2, (Option.some.inj h).symm⟩
  · split at h
    · next hrange => exact .inr (.inl ⟨hrange.1, hrange.2, (Option.some.inj h).symm⟩)
    · split at h
      · next hrange => exact .inr (.inr ⟨hrange.1, hrange.2, (Option.some.inj h).symm⟩)
      · cases h

/-- The text of a digest takes one byte a character. -/
theorem asBytes_of_isHex {text : String} (h : IsHex text) :
    asBytes text = text.toList.map fun c => UInt8.ofNat c.toNat := by
  rw [asBytes, List.map_eq_flatMap]
  refine List.flatMap_congr fun c hc => ?_
  obtain ⟨value, hvalue⟩ := Option.isSome_iff_exists.1 (h c hc)
  have hcode := hexDigit?_cases hvalue
  have hsize : c.utf8Size = 1 := by
    rw [Char.utf8Size_eq_one_iff, UInt32.le_iff_toNat_le]
    show c.toNat ≤ 127
    omega
  rw [String.utf8EncodeChar_eq_singleton hsize]
  rfl

/-- One byte is read from two digits. -/
theorem getElem?_hexBytes {cs : List Char} (h : ∀ c ∈ cs, (hexDigit? c).isSome = true) :
    ∀ {i : Nat} {hi lo : Char}, cs[2 * i]? = some hi → cs[2 * i + 1]? = some lo →
      ∃ high low, hexDigit? hi = some high ∧ hexDigit? lo = some low ∧
        (hexBytes cs)[i]? = some (16 * high + low) := by
  induction cs using hexBytes.induct with
  | case1 first second rest high low hsecond hfirst ih =>
      intro i hi lo hhi hlo
      rw [hexBytes, hfirst, hsecond]
      cases i with
      | zero =>
          cases hhi
          cases hlo
          exact ⟨high, low, hfirst, hsecond, rfl⟩
      | succ i =>
          exact ih (fun c hc => h c (by simp [hc])) hhi hlo
  | case2 first second rest hnone =>
      obtain ⟨high, hfirst⟩ := Option.isSome_iff_exists.1 (h first (by simp))
      obtain ⟨low, hsecond⟩ := Option.isSome_iff_exists.1 (h second (by simp))
      exact absurd hsecond (hnone high low hfirst)
  | case3 cs hshort =>
      intro i hi lo _ hlo
      cases cs with
      | nil => cases hlo
      | cons c cs =>
          cases cs with
          | nil => cases hlo
          | cons d cs => exact (hshort c d cs rfl).elim

theorem hexDigit?_digitChar : ∀ n < 16, hexDigit? (Nat.digitChar n) = some n := by decide

/-- The form of bytes stands for these bytes. -/
theorem hexValue_hexForm (bytes : List UInt8) : hexValue (hexForm bytes) = bytes := by
  rw [hexValue, hexForm, String.toList_ofList]
  induction bytes with
  | nil => rfl
  | cons byte bytes ih =>
      have hbyte := byte.toNat_lt
      rw [List.flatMap_cons, List.cons_append, List.cons_append, List.nil_append, hexBytes,
        hexDigit?_digitChar (byte.toNat / 16) (by omega),
        hexDigit?_digitChar (byte.toNat % 16) (by omega)]
      simp only [List.map_cons, ih]
      rw [Nat.div_add_mod, UInt8.ofNat_toNat]

theorem hexForm_inj {bytes bytes' : List UInt8} :
    hexForm bytes = hexForm bytes' ↔ bytes = bytes' := by
  constructor
  · intro h
    rw [← hexValue_hexForm bytes, h, hexValue_hexForm]
  · rintro rfl
    rfl

/-- The text of a digest is longer than the bytes it stands for. -/
theorem IsDigest.length_asBytes {digest : String} (h : IsDigest digest) :
    (asBytes digest).length = 64 := by
  rw [asBytes_of_isHex h.isHex, List.length_map, h.length]

theorem IsDigest.length_hexValue {digest : String} (h : IsDigest digest) :
    (hexValue digest).length = 32 := by
  rw [hexValue, List.length_map, length_hexBytes h.isHex, h.length]

/-- The form of 32 bytes is a digest. -/
theorem isDigest_hexForm {bytes : List UInt8} (h : bytes.length = 32) :
    IsDigest (hexForm bytes) where
  length := by
    rw [hexForm, String.toList_ofList, List.length_flatMap]
    simp [h]
  isHex := by
    intro c hc
    rw [hexForm, String.toList_ofList] at hc
    obtain ⟨byte, -, hc⟩ := List.mem_flatMap.1 hc
    have hbyte := byte.toNat_lt
    rcases List.mem_cons.1 hc with rfl | hc
    · rw [hexDigit?_digitChar _ (by omega)]
      rfl
    · rw [List.mem_singleton.1 hc, hexDigit?_digitChar _ (by omega)]
      rfl

theorem toList_hash_zer : HASH_ZER.toList = List.replicate 64 '0' := by decide +kernel

theorem isDigest_hash_zer : IsDigest HASH_ZER where
  length := by rw [toList_hash_zer, List.length_replicate]
  isHex := by
    intro c hc
    rw [toList_hash_zer] at hc
    rw [List.eq_of_mem_replicate hc]
    rfl

theorem hexValue_hash_zer : hexValue HASH_ZER = List.replicate 32 0 := by decide +kernel

/-! ## What is combined -/

/-- The codes of the first 32 characters are combined. -/
theorem xorHashes_eq (hcrates : crates.Lawful) {input : List String}
    (h : ∀ digest ∈ input, IsDigest digest) :
    xorHashes crates input = some (hexForm
      ((List.range 32).map (column (· ^^^ ·) 0 (input.map asBytes)))) := by
  have hzero : crates.fromHex HASH_ZER = some (List.replicate 32 0) := by
    rw [hcrates.fromHex_eq HASH_ZER (by rw [isDigest_hash_zer.length])
      isDigest_hash_zer.isHex, hexValue_hash_zer]
  have hrows : ∀ row ∈ input.map asBytes, 32 ≤ row.length := by
    intro row hrow
    obtain ⟨digest, hdigest, rfl⟩ := List.mem_map.1 hrow
    rw [(h digest hdigest).length_asBytes]
    decide
  have hfold : input.foldl (fun acc x => xor acc (asBytes x)) (List.replicate 32 0) =
      (input.map asBytes).foldl (List.zipWith (· ^^^ ·)) (List.replicate 32 0) := by
    rw [List.foldl_map, xor_eq_zipWith]
  rw [xorHashes, hzero]
  simp only [hcrates.toHex_eq]
  rw [hfold, foldl_zipWith_replicate hrows]

/-- The two columns differ by the one of the deviations. -/
theorem column_deviation {input : List String} (h : ∀ digest ∈ input, IsDigest digest)
    {i : Nat} (hi : i < 32) :
    column (· ^^^ ·) 0 (input.map deviation) i =
      column (· ^^^ ·) 0 (input.map asBytes) i ^^^
        column (· ^^^ ·) 0 (input.map hexValue) i := by
  have hdeviation : input.map deviation = input.map fun digest =>
      List.zipWith (· ^^^ ·) (asBytes digest) (hexValue digest) := by
    refine List.map_congr_left fun digest _ => ?_
    rw [deviation, xor_eq_zipWith]
  rw [hdeviation]
  refine column_zipWith fun digest hdigest => ⟨?_, ?_⟩
  · rw [(h digest hdigest).length_asBytes]
    omega
  · rw [(h digest hdigest).length_hexValue]
    exact hi

/-- **The digests are combined as text.**  `xor_hashes` returns the exclusive or of the
bytes that the digests stand for exactly when the deviations of the digests cancel out
in each of the 32 places. -/
theorem xorHashes_iff (hcrates : crates.Lawful) {input : List String}
    (h : ∀ digest ∈ input, IsDigest digest) :
    xorHashes crates input = some (hexForm (xorOfDigests input)) ↔
      ∀ i < 32, column (· ^^^ ·) 0 (input.map deviation) i = 0 := by
  rw [xorHashes_eq hcrates h, Option.some_inj, hexForm_inj, xorOfDigests, List.map_inj_left]
  refine forall_congr' fun i => ?_
  rw [List.mem_range]
  refine forall_congr' fun hi => ?_
  rw [column_deviation h hi, UInt8.xor_eq_zero_iff]

/-! ## One digest -/

/-- A digit whose code is the byte that itself and another digit stand for. -/
theorem threes_of_own {c lo : Char} {high low : Nat} (hhigh : hexDigit? c = some high)
    (hlow : hexDigit? lo = some low) (h : c.toNat = 16 * high + low) :
    c = '3' ∧ lo = '3' := by
  have hc := hexDigit?_cases hhigh
  have hlo := hexDigit?_cases hlow
  have hcode : c.toNat = 51 := by omega
  have hcode' : lo.toNat = 51 := by omega
  exact ⟨Char.toNat_inj.1 hcode, Char.toNat_inj.1 hcode'⟩

theorem threes_of_value {hi lo : Char} {high low : Nat} (hhigh : hexDigit? hi = some high)
    (hlow : hexDigit? lo = some low) (h : 51 = 16 * high + low) : hi = '3' ∧ lo = '3' := by
  have hc := hexDigit?_cases hhigh
  have hlo := hexDigit?_cases hlow
  have hcode : hi.toNat = 51 := by omega
  have hcode' : lo.toNat = 51 := by omega
  exact ⟨Char.toNat_inj.1 hcode, Char.toNat_inj.1 hcode'⟩

/-- Where a byte of the text is the one it should be, the code of a character is the
byte of two digits. -/
theorem code_eq {digest : String} (h : IsDigest digest) {i : Nat} {c hi lo : Char}
    (hc : digest.toList[i]? = some c) (hhi : digest.toList[2 * i]? = some hi)
    (hlo : digest.toList[2 * i + 1]? = some lo)
    (hcode : (asBytes digest).getD i 0 = (hexValue digest).getD i 0) :
    ∃ high low, hexDigit? hi = some high ∧ hexDigit? lo = some low ∧
      c.toNat = 16 * high + low := by
  obtain ⟨high, low, hhigh, hlow, hbyte⟩ := getElem?_hexBytes h.isHex hhi hlo
  obtain ⟨value, hvalue⟩ := Option.isSome_iff_exists.1 (h.isHex c (List.mem_of_getElem? hc))
  have hcases := hexDigit?_cases hvalue
  have hcasesHigh := hexDigit?_cases hhigh
  have hcasesLow := hexDigit?_cases hlow
  rw [asBytes_of_isHex h.isHex, hexValue, List.getD_eq_getElem?_getD,
    List.getD_eq_getElem?_getD, List.getElem?_map, List.getElem?_map, hc, hbyte] at hcode
  have hnat := congrArg UInt8.toNat hcode
  simp only [Option.map_some, Option.getD_some, UInt8.toNat_ofNat'] at hnat
  refine ⟨high, low, hhigh, hlow, ?_⟩
  omega

/-- Each pair of characters is fixed by one that stands before it, and the first pair
by its own first one. -/
theorem threes_of_codes {digest : String} (h : IsDigest digest)
    (hcodes : ∀ i < 32, (asBytes digest).getD i 0 = (hexValue digest).getD i 0) :
    ∀ k < 64, digest.toList[k]? = some '3' := by
  intro k
  induction k using Nat.strongRecOn with
  | ind k ih =>
      intro hk
      have hget : ∀ j < 64, ∃ c, digest.toList[j]? = some c := fun j hj =>
        ⟨_, List.getElem?_eq_getElem (by rw [h.length]; exact hj)⟩
      obtain ⟨c, hc⟩ := hget (k / 2) (by omega)
      obtain ⟨hi, hhi⟩ := hget (2 * (k / 2)) (by omega)
      obtain ⟨lo, hlo⟩ := hget (2 * (k / 2) + 1) (by omega)
      obtain ⟨high, low, hhigh, hlow, hcode⟩ :=
        code_eq h hc hhi hlo (hcodes (k / 2) (by omega))
      have hpair : hi = '3' ∧ lo = '3' := by
        by_cases hzero : k / 2 = 0
        · rw [hzero] at hc hhi
          rw [Option.some.inj (hc.symm.trans hhi)] at hcode
          exact threes_of_own hhigh hlow hcode
        · have hthree := ih (k / 2) (by omega) (by omega)
          rw [Option.some.inj (hc.symm.trans hthree)] at hcode
          exact threes_of_value hhigh hlow hcode
      rcases Nat.mod_two_eq_zero_or_one k with heven | hodd
      · have hindex : 2 * (k / 2) = k := by omega
        rw [hindex, hpair.1] at hhi
        exact hhi
      · have hindex : 2 * (k / 2) + 1 = k := by omega
        rw [hindex, hpair.2] at hlo
        exact hlo

/-- **A single digest comes out right only if it is all threes.** -/
theorem xorHashes_singleton_iff (hcrates : crates.Lawful) {digest : String}
    (h : IsDigest digest) :
    xorHashes crates [digest] = some (hexForm (xorOfDigests [digest])) ↔
      digest.toList = List.replicate 64 '3' := by
  have hcolumn : ∀ (row : List UInt8) i, column (· ^^^ ·) 0 [row] i = row.getD i 0 :=
    fun row i => UInt8.zero_xor
  rw [xorHashes_eq hcrates (List.forall_mem_singleton.2 h), Option.some_inj, hexForm_inj,
    xorOfDigests, List.map_inj_left]
  simp only [List.mem_range, List.map_cons, List.map_nil, hcolumn]
  constructor
  · intro hcodes
    refine List.ext_getElem? fun k => ?_
    by_cases hk : k < 64
    · rw [threes_of_codes h hcodes k hk, List.getElem?_replicate, if_pos hk]
    · have hlength := h.length
      rw [List.getElem?_eq_none (by omega), List.getElem?_replicate, if_neg hk]
  · intro hthrees i hi
    rw [asBytes_of_isHex h.isHex, hexValue, hthrees]
    have hall : ∀ i < 32,
        ((List.replicate 64 '3').map fun c => UInt8.ofNat c.toNat).getD i 0 =
          ((hexBytes (List.replicate 64 '3')).map UInt8.ofNat).getD i 0 := by
      decide +kernel
    exact hall i hi

/-- What `create_ephemeral_hashes` makes are digests. -/
theorem isDigest_createEphemeralHashes (hcrates : crates.Lawful) (input : List String) :
    ∀ digest ∈ createEphemeralHashes crates input, IsDigest digest := by
  intro digest hdigest
  obtain ⟨origHash, -, rfl⟩ := List.mem_map.1 hdigest
  rw [hcrates.toHex_eq]
  exact isDigest_hexForm (hcrates.length_blake2s _)

/-- Crates that keep their promises. -/
def sampleCrates : Crates where
  fromHex text := some (hexValue text)
  toHex := hexForm
  blake2s _ := List.replicate 32 0
  toLowercase := id

theorem sampleCrates_lawful : sampleCrates.Lawful where
  fromHex_eq := fun _ _ _ => rfl
  toHex_eq := fun _ => rfl
  length_blake2s := fun _ => List.length_replicate

theorem sampleZero_iff :
    xorHashes sampleCrates [HASH_ZER] = some (hexForm (xorOfDigests [HASH_ZER])) ↔
      ∀ i < 32, column (· ^^^ ·) 0 ([HASH_ZER].map deviation) i = 0 :=
  xorHashes_iff sampleCrates_lawful fun _ hdigest =>
    List.mem_singleton.1 hdigest ▸ isDigest_hash_zer

/-- The digest of 64 zeros comes out as the codes of 32 of them. -/
theorem sampleZero_wrong :
    xorHashes sampleCrates [HASH_ZER] =
        some "3030303030303030303030303030303030303030303030303030303030303030" ∧
      ¬ ∀ (crates : Crates), crates.Lawful → ∀ (input : List String),
        (∀ digest ∈ input, IsDigest digest) →
          xorHashes crates input = some (hexForm (xorOfDigests input)) := by
  have hcodes : xorHashes sampleCrates [HASH_ZER] =
      some "3030303030303030303030303030303030303030303030303030303030303030" := by
    decide +kernel
  refine ⟨hcodes, fun h => ?_⟩
  have hzero := h sampleCrates sampleCrates_lawful [HASH_ZER] fun _ hdigest =>
    List.mem_singleton.1 hdigest ▸ isDigest_hash_zer
  rw [hcodes] at hzero
  exact absurd hzero (by decide +kernel)

end BcNode.Native
